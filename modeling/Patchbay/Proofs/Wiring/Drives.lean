import Patchbay.Proofs.Host.Extension

namespace Patchbay

open Act

namespace Node

-- The nodes among the drives, in their order.
def drivers (params : List (Param × Option Drive)) : List Node :=
  params.filterMap fun
    | (_, some (.source node)) => some node
    | _ => none

theorem drivers_cons (pair : Param × Option Drive) (rest : List (Param × Option Drive)) :
    drivers (pair :: rest) = drivers [pair] ++ drivers rest := by
  unfold drivers
  rw [← List.singleton_append, List.filterMap_append]

-- What a host is told about a parameter of one of its nodes.
def driveCalls (host : HostId) : Param × Option Drive → List HostCall
  | (_, none) => []
  | (param, some (.fixed x)) => [.setParam host param x]
  | (param, some (.source node)) =>
    [.setParam host param 0, .connect node.outputHost (.param host param)]

-- What the parameter is set to.
def driven (made : HostNode) : Param × Option Drive → HostNode
  | (_, none) => made
  | (param, some (.fixed x)) => made.setValue param x
  | (param, some (.source _)) => made.setValue param 0

-- The kind has the parameter, and a host with `host` as its last node has the node that drives it.
def Settles (kind : NodeKind) (host : HostId) : Param × Option Drive → Prop
  | (_, none) => True
  | (param, some (.fixed _)) => kind.params.contains param = true
  | (param, some (.source node)) => kind.params.contains param = true ∧ node.outputHost ≤ host

-- Why a parameter is not driven, and what the host has been told by then.
inductive Refused (kind : NodeKind) (host : HostId) :
    Param × Option Drive → Error → List HostCall → Prop where
  | unknown (param : Param) (drive : Drive) (hparam : kind.params.contains param = false) :
      Refused kind host (param, some drive) (.unknownParam (kind.name ++ hostLabel host) param) []
  | unheard (param : Param) (node : Node) (hparam : kind.params.contains param = true)
      (houtput : host < node.outputHost) :
      Refused kind host (param, some (.source node)) (.host (.unknownNode node.outputHost))
        [.setParam host param 0]

section Bind

variable {c : ContextId} {calls : List HostCall} {hosts : List HostNode} {n : Nat} {s t : Studio}
variable {kind : NodeKind} {made : HostNode}

theorem kind_driven (made : HostNode) (pair : Param × Option Drive) :
    (driven made pair).kind = made.kind := by
  obtain ⟨param, _ | x | node⟩ := pair <;> rfl

theorem modify_added (hosts more : List HostNode) (made : HostNode) (f : HostNode → HostNode) :
    (hosts ++ made :: more).modify hosts.length f = hosts ++ f made :: more := by
  induction hosts with
  | nil => rfl
  | cons host rest ih => rw [List.cons_append, List.length_cons, List.modify_succ_cons, ih]; rfl

-- A parameter of the host node that was added last.
theorem ends_plug (h : Extends c calls (hosts ++ [made]) n s t) (hc : c < s.engines.size)
    (hkind : made.kind = some kind) {param : Param} (hparam : kind.params.contains param = true)
    (drive : Drive) (hdrive : ∀ node, drive = .source node → node.context = c) :
    let host := (s.engine c).nodes.size + hosts.length
    Ends (Drive.plug c host param (some drive)) t
      (fun modulator u => Settles kind host (param, some drive) ∧
        modulator.toList = drivers [(param, some drive)] ∧
        Extends c (calls ++ driveCalls host (param, some drive))
          (hosts ++ [driven made (param, some drive)]) n s u)
      fun e u => ∃ told made', Refused kind host (param, some drive) e told ∧
        Extends c (calls ++ told) (hosts ++ [made']) n s u := by
  intro host
  have hlast : (hosts ++ [made])[hosts.length]? = some made := by simp
  have hhas : made.hasParam param = true := by
    rw [HostNode.hasParam, HostNode.params, hkind]
    exact hparam
  have hset (x : Float) : Ends (Act.host c (·.setParam host param x)) t
      (fun _ u => Extends c (calls ++ [.setParam host param x])
        (hosts ++ [made.setValue param x]) n s u) fun _ _ => False := by
    rw [← modify_added hosts [] made (·.setValue param x)]
    exact h.ends_setParam hc hlast hhas x
  cases drive with
  | fixed x =>
      unfold Drive.plug
      rw [ends_bind]
      refine (hset x).mono (fun _ u hu => ?_) fun _ _ h => h.elim
      rw [ends_pure]
      exact ⟨hparam, rfl, hu⟩
  | source node =>
      unfold Drive.plug
      rw [ends_bind]
      refine (hset 0).mono (fun _ u hu => ?_) fun _ _ h => h.elim
      have hnode : node.context = c := hdrive node rfl
      rw [ends_bind]
      by_cases houtput : node.outputHost ≤ host
      · have hsource : node.outputHost < (s.engine c).nodes.size +
            (hosts ++ [made.setValue param 0]).length := by
          rw [List.length_append, List.length_singleton]
          exact Nat.lt_succ_of_le houtput
        have hadmits : ((s.engine c).extend (calls ++ [.setParam host param 0])
            (hosts ++ [made.setValue param 0])).admits (.param host param) = true := by
          rw [Engine.admits_added, List.getElem?_concat_length, Option.any_some]
          exact hhas
        refine (hu.ends_connectEndpoint hc hnode hsource hadmits).imp fun _ v hv => ?_
        rw [ends_pure]
        rw [List.append_assoc] at hv
        exact ⟨⟨hparam, houtput⟩, rfl, hv⟩
      · have hunknown : node.connectEndpoint (.param host param) u =
            .error (.host (.unknownNode node.outputHost)) u := by
          refine bind_of_error (host_error (Engine.connect_unknown ?_ _))
          rw [hnode, hu.engine_of hc, Engine.size_extend, List.length_append]
          exact Nat.lt_of_not_le houtput
        unfold Ends
        rw [hunknown]
        exact ⟨_, _, .unheard param node hparam (Nat.lt_of_not_le houtput), hu⟩

-- The drives before one that is refused have been given, and nothing of those after it.
def Halts (c : ContextId) (kind : NodeKind) (host : HostId) (calls : List HostCall)
    (hosts : List HostNode) (n : Nat) (s : Studio) (params : List (Param × Option Drive))
    (e : Error) (t : Studio) : Prop :=
  ∃ before pair after told made, params = before ++ pair :: after ∧
    (∀ settled ∈ before, Settles kind host settled) ∧ Refused kind host pair e told ∧
    Extends c (calls ++ before.flatMap (driveCalls host) ++ told) (hosts ++ [made]) n s t

theorem Halts.after {host : HostId} {pair : Param × Option Drive}
    {params : List (Param × Option Drive)} {e : Error} (hpair : Settles kind host pair)
    (h : Halts c kind host (calls ++ driveCalls host pair) hosts n s params e t) :
    Halts c kind host calls hosts n s (pair :: params) e t := by
  obtain ⟨before, refused, after, told, made, rfl, hbefore, hrefused, ht⟩ := h
  refine ⟨pair :: before, refused, after, told, made, rfl,
    List.forall_mem_cons.2 ⟨hpair, hbefore⟩, hrefused, ?_⟩
  rwa [List.flatMap_cons, ← List.append_assoc]

theorem ends_bound {params : List (Param × Option Drive)}
    (h : Extends c calls (hosts ++ [made]) n s t) (hc : c < s.engines.size)
    (hkind : made.kind = some kind) (hdrivers : ∀ node ∈ drivers params, node.context = c) :
    let host := (s.engine c).nodes.size + hosts.length
    Ends (Node.bind c host kind params) t
      (fun modulators u => (∀ pair ∈ params, Settles kind host pair) ∧
        modulators = drivers params ∧
        Extends c (calls ++ params.flatMap (driveCalls host))
          (hosts ++ [params.foldl driven made]) n s u)
      fun e u => Halts c kind host calls hosts n s params e u := by
  intro host
  induction params generalizing calls made t with
  | nil =>
      rw [Node.bind, ends_pure]
      exact ⟨by simp, rfl, by simpa using h⟩
  | cons pair rest ih =>
      obtain ⟨param, drive⟩ := pair
      cases drive with
      | none =>
          rw [Node.bind]
          refine (ih h hkind hdrivers).mono ?_ fun e u hu => ?_
          · rintro modulators u ⟨hsettles, rfl, hu⟩
            exact ⟨List.forall_mem_cons.2 ⟨trivial, hsettles⟩, rfl, hu⟩
          · refine Halts.after trivial ?_
            rwa [driveCalls, List.append_nil]
      | some drive =>
          rw [Node.bind]
          split
          case isTrue hparam =>
              rw [ends_bind, ends_throw]
              have hunknown : kind.params.contains param = false := by simpa using hparam
              exact ⟨[], _, rest, [], made, rfl, by simp, .unknown param drive hunknown,
                by simpa using h⟩
          case isFalse hparam =>
              have hparam : kind.params.contains param = true := by simpa using hparam
              rw [ends_bind]
              refine (ends_plug h hc hkind hparam drive ?_).mono ?_ ?_
              · rintro node rfl
                exact hdrivers node List.mem_cons_self
              · rintro modulator u ⟨hsettles, hmodulator, hu⟩
                rw [ends_bind]
                have hrest : ∀ node ∈ drivers rest, node.context = c := fun node hnode =>
                  hdrivers node (drivers_cons _ rest ▸ List.mem_append_right _ hnode)
                refine (ih hu ((kind_driven _ _).trans hkind) hrest).mono ?_ fun e v hv => ?_
                · rintro modulators v ⟨hmore, rfl, hv⟩
                  rw [ends_pure, hmodulator, ← drivers_cons]
                  refine ⟨List.forall_mem_cons.2 ⟨hsettles, hmore⟩, rfl, ?_⟩
                  rwa [List.flatMap_cons, ← List.append_assoc]
                · exact hv.after hsettles
              · rintro e u ⟨told, made', hrefused, hu⟩
                exact ⟨[], _, rest, told, made', rfl, by simp, hrefused, by simpa using hu⟩

-- The host node of a source is watched for its end.
def watched (kind : NodeKind) (id : NodeId) (made : HostNode) : HostNode :=
  if kind.isSource then { made with watchers := made.watchers ++ [.node id] } else made

-- A new node on a host node of its own.
theorem ends_made (kind : NodeKind) (params : List (Param × Option Drive))
    (h : Extends c calls hosts n s t) (hc : c < s.engines.size)
    (hdrivers : ∀ node ∈ drivers params, node.context = c) :
    let host := (s.engine c).nodes.size + hosts.length
    Ends (ofKind c kind params) t
      (fun node u => (∀ pair ∈ params, Settles kind host pair) ∧
        node = .leaf ⟨s.nodes.size + n, c, kind.name ++ hostLabel host, length kind.naturalLength,
          length (longestRelease (drivers params))⟩ host kind.isSource kind.params
          (drivers params) ∧
        Extends c (calls ++ .create host kind.name :: params.flatMap (driveCalls host))
          (hosts ++ [watched kind (s.nodes.size + n) (params.foldl driven (.ofKind (some kind)))])
          (n + 1) s u)
      fun e u => Halts c kind host (calls ++ [.create host kind.name]) hosts n s params e u := by
  intro host
  unfold ofKind
  refine (h.ends_createHost hc kind).bind ?_
  rintro _ t' ⟨rfl, ht'⟩
  refine (ends_bound ht' hc rfl hdrivers).bind ?_
  rintro _ u ⟨hsettles, rfl, hu⟩
  refine hu.ends_enrol.bind ?_
  rintro _ v ⟨rfl, hv⟩
  rw [List.append_assoc] at hv
  cases hsource : kind.isSource with
  | false =>
      simp only [Bool.false_eq_true, if_false, ends_pure]
      refine ⟨hsettles, rfl, ?_⟩
      simpa [watched, hsource] using hv
  | true =>
      simp only [if_true]
      rw [← bind_assoc]
      refine (hv.ends_watch hc hosts.length (.node (s.nodes.size + n))).bind fun _ w hw => ?_
      rw [ends_pure]
      rw [modify_added] at hw
      refine ⟨hsettles, rfl, ?_⟩
      simpa [watched, hsource] using hw

theorem Refused.not_settles {host : HostId} {pair : Param × Option Drive} {e : Error}
    {told : List HostCall} (h : Refused kind host pair e told) : ¬Settles kind host pair := by
  cases h with
  | unknown param drive hparam =>
      cases drive with
      | fixed x => exact fun hsettles => Bool.eq_false_iff.1 hparam hsettles
      | source node => exact fun hsettles => Bool.eq_false_iff.1 hparam hsettles.1
  | unheard param node hparam houtput => exact fun hsettles => Nat.not_le_of_lt houtput hsettles.2

-- Nothing is refused where all can be settled.
theorem ends_settled {params : List (Param × Option Drive)} (h : Extends c calls hosts n s t)
    (hc : c < s.engines.size) (hdrivers : ∀ node ∈ drivers params, node.context = c)
    (hsettles : ∀ pair ∈ params, Settles kind ((s.engine c).nodes.size + hosts.length) pair)
    {fail : Error → Studio → Prop} :
    let host := (s.engine c).nodes.size + hosts.length
    Ends (ofKind c kind params) t
      (fun node u =>
        node = .leaf ⟨s.nodes.size + n, c, kind.name ++ hostLabel host, length kind.naturalLength,
          length (longestRelease (drivers params))⟩ host kind.isSource kind.params
          (drivers params) ∧
        Extends c (calls ++ .create host kind.name :: params.flatMap (driveCalls host))
          (hosts ++ [watched kind (s.nodes.size + n) (params.foldl driven (.ofKind (some kind)))])
          (n + 1) s u)
      fail := by
  refine (ends_made kind params h hc hdrivers).mono (fun _ _ hmade => hmade.2) ?_
  rintro e u ⟨before, pair, after, told, made, rfl, -, hrefused, -⟩
  exact absurd (hsettles pair (List.mem_append_right _ List.mem_cons_self)) hrefused.not_settles

end Bind

-- Every parameter that is given a drive is one of the kind's.
def AllKnown (kind : NodeKind) (params : List (Param × Option Drive)) : Prop :=
  ∀ pair ∈ params, pair.2.isSome = true → kind.params.contains pair.1 = true

theorem Settles.known {kind : NodeKind} {host : HostId} {pair : Param × Option Drive}
    (h : Settles kind host pair) (hdrive : pair.2.isSome = true) :
    kind.params.contains pair.1 = true := by
  obtain ⟨param, _ | x | node⟩ := pair
  · cases hdrive
  · exact h
  · exact h.1

-- The first parameter that the kind does not have is found once.
theorem first_unknown {kind : NodeKind} {before before' after after' : List (Param × Option Drive)}
    {param param' : Param} {drive drive' : Drive}
    (h : before ++ (param, some drive) :: after = before' ++ (param', some drive') :: after')
    (hbefore : AllKnown kind before) (hbefore' : AllKnown kind before')
    (hparam : kind.params.contains param = false)
    (hparam' : kind.params.contains param' = false) : before = before' ∧ param = param' := by
  have hnot {pairs : List (Param × Option Drive)} {param : Param} {drive : Drive}
      (hknown : AllKnown kind pairs) (hparam : kind.params.contains param = false) :
      (param, some drive) ∉ pairs := fun hmem => by
    rw [hknown _ hmem rfl] at hparam
    cases hparam
  obtain ⟨more, rfl, hrest⟩ | ⟨more, rfl, hrest⟩ := List.append_eq_append_iff.1 h
  · cases more with
    | nil => simp_all
    | cons pair more =>
        obtain ⟨rfl, -⟩ := List.cons.inj hrest
        exact absurd (List.mem_append_right _ List.mem_cons_self) (hnot hbefore' hparam)
  · cases more with
    | nil => simp_all
    | cons pair more =>
        obtain ⟨rfl, -⟩ := List.cons.inj hrest
        exact absurd (List.mem_append_right _ List.mem_cons_self) (hnot hbefore hparam')

-- A driver that is heard from another context is refused by the host, which does not have the host
-- node by that number; the drives before it have been given.
def Unheard (c : ContextId) (kind : NodeKind) (params : List (Param × Option Drive)) (s : Studio) :
    Prop :=
  let host := (s.engine c).nodes.size
  ∃ before param node after, params = before ++ (param, some (.source node)) :: after ∧
    AllKnown kind before ∧ node.outlet.context ≠ c ∧
    ∃ t made, ofKind c kind params s = .error (.host (.unknownNode node.outputHost)) t ∧
      Extends c (.create host kind.name :: before.flatMap (driveCalls host) ++
        [.setParam host param 0]) [made] 0 s t

end Node

namespace Session

open Node

-- A new node of a kind that has all the parameters that are given: its host node is created, each drive
-- is given in the order of the list, and the nodes that drive it are its dependents in that order. At
-- the first parameter that the kind does not have it stops, and the host has been told nothing of it
-- or of any later one. All of that as long as the drivers are heard from their own context.
theorem drives_in_order (rate : Float) (commands : List Command) (c : ContextId) (kind : NodeKind)
    (params : List (Param × Option Drive))
    (hc : c < (run rate commands).studio.engines.size)
    (hdrivers : ∀ node ∈ drivers params, node.context = c ∧
      ∃ id, (run rate commands).studio.node? id = some node) :
    let s := (run rate commands).studio
    let host := (s.engine c).nodes.size
    (AllKnown kind params →
      (∃ node t made, ofKind c kind params s = .ok node t ∧ node.outputHost = host ∧
        node.dependents = drivers params ∧
        Extends c (.create host kind.name :: params.flatMap (driveCalls host)) [made] 1 s t) ∨
      Unheard c kind params s) ∧
    ∀ before param drive after, params = before ++ (param, some drive) :: after →
      AllKnown kind before → kind.params.contains param = false →
      (∃ t made,
        ofKind c kind params s = .error (.unknownParam (kind.name ++ hostLabel host) param) t ∧
        Extends c (.create host kind.name :: before.flatMap (driveCalls host)) [made] 0 s t) ∨
      Unheard c kind params s := by
  intro s host
  have hsound : s.ledger.Sound 0 := (lawful_run rate commands).sound
  have hmade := ends_made kind params (.refl c s) hc fun node hnode => (hdrivers node hnode).1
  -- Where the host refuses a driver, its outlet is in another context.
  have hunheard {node : Node} (hmem : node ∈ drivers params) (houtput : host < node.outputHost) :
      node.outlet.context ≠ c := by
    intro hcontext
    obtain ⟨id, hid⟩ := (hdrivers node hmem).2
    have hthere := Studio.outlet_there hsound (Studio.offers_of_node hsound hid).1.known
    rw [hcontext] at hthere
    have hlt : node.outputHost < host := by simpa using hthere
    exact Nat.lt_asymm hlt houtput
  cases hact : ofKind c kind params s with
  | ok node t =>
      obtain ⟨hsettles, rfl, ht⟩ := ends_of_ok hact hmade
      refine ⟨fun _ => .inl ⟨_, t, _, rfl, rfl, rfl, ht⟩, ?_⟩
      rintro before param drive after rfl hbefore hparam
      have hknown := (hsettles _ (List.mem_append_right _ List.mem_cons_self)).known rfl
      rw [hparam] at hknown
      cases hknown
  | error e t =>
      obtain ⟨before, pair, after, told, made, rfl, hsettles, hrefused, ht⟩ :=
        ends_of_error hact hmade
      have hbefore : AllKnown kind before := fun pair hpair => (hsettles pair hpair).known
      cases hrefused with
      | unknown param drive hparam =>
          refine ⟨fun hknown => ?_, ?_⟩
          · rw [hknown _ (List.mem_append_right _ List.mem_cons_self) rfl] at hparam
            cases hparam
          · intro before' param' drive' after' heq hbefore' hparam'
            obtain ⟨rfl, rfl⟩ := first_unknown heq hbefore hbefore' hparam hparam'
            exact .inl ⟨t, made, rfl, by simpa using ht⟩
      | unheard param node hparam houtput =>
          have hmem : node ∈ drivers (before ++ (param, some (.source node)) :: after) :=
            List.mem_filterMap.2 ⟨_, List.mem_append_right _ List.mem_cons_self, rfl⟩
          have hout : Unheard c kind (before ++ (param, some (.source node)) :: after) s :=
            ⟨before, param, node, after, rfl, hbefore, hunheard hmem houtput, t, made, hact,
              by simpa using ht⟩
          exact ⟨fun _ => .inr hout, fun _ _ _ _ _ _ _ => .inr hout⟩

def wobble : List Command := [.make 0 (.oscillator .sine (.fixed 5) none)]

-- A second tone that the first detunes.
theorem wobble_driven : ∃ tone ∈ (run 44100 wobble).studio.node? 0, ∃ node t made,
    ofKind 0 (.oscillator .sawtooth)
      [(.frequency, some (.fixed 440)), (.frequency, none), (.detune, some (.source tone))]
      (run 44100 wobble).studio = .ok node t ∧ node.dependents = [tone] ∧
    Extends 0 [.create 2 "Oscillator", .setParam 2 .frequency 440, .setParam 2 .detune 0,
      .connect 1 (.param 2 .detune)] [made] 1 (run 44100 wobble).studio t := by
  have hsome : ((run 44100 wobble).studio.node? 0).isSome = true := by decide +kernel
  obtain ⟨tone, htone⟩ := Option.isSome_iff_exists.1 hsome
  have hfacts : ∀ tone ∈ (run 44100 wobble).studio.node? 0, tone.context = 0 ∧
      tone.outlet.context = 0 ∧ tone.outputHost = 1 := by decide +kernel
  have hplace : 0 < (run 44100 wobble).studio.engines.size ∧
      ((run 44100 wobble).studio.engine 0).nodes.size = 2 := by decide +kernel
  obtain ⟨hcontext, houtlet, houtput⟩ := hfacts tone htone
  let params : List (Param × Option Drive) :=
    [(.frequency, some (.fixed 440)), (.frequency, none), (.detune, some (.source tone))]
  have hdrivers : drivers params = [tone] := rfl
  have hknown : AllKnown (.oscillator .sawtooth) params := by
    simp [AllKnown, params, NodeKind.params]
  obtain ⟨node, t, made, hact, -, hdependents, ht⟩ | ⟨_, _, other, _, heq, -, hother, -⟩ :=
    (drives_in_order 44100 wobble 0 (.oscillator .sawtooth) params hplace.1 (by
      rw [hdrivers]
      exact List.forall_mem_singleton.2 ⟨hcontext, 0, htone⟩)).1 hknown
  · refine ⟨tone, htone, node, t, made, hact, hdependents, ?_⟩
    simpa [params, driveCalls, hplace.2, houtput, NodeKind.name] using ht
  · have hmem : other ∈ drivers params := by
      rw [heq]
      exact List.mem_filterMap.2 ⟨_, List.mem_append_right _ List.mem_cons_self, rfl⟩
    obtain rfl := List.mem_singleton.1 (hdrivers ▸ hmem)
    exact absurd houtlet hother

-- A gain of the first context and a tone of another in a series.
def strayDriver : List Command := [
  .openContext 44100,
  .make 0 (.gain (.fixed 1)),
  .make 1 (.gain (.fixed 1)),
  .make 1 (.gain (.fixed 1)),
  .make 1 (.oscillator .sine (.fixed 5) none),
  .make 0 (.series 0 [3])]

-- The series is of the first context, and no gain of that context can be driven by it.
theorem stray_driver_refused : ∃ chain ∈ (run 44100 strayDriver).studio.node? 4,
    chain.context = 0 ∧ chain.outlet.context = 1 ∧ NodeKind.gain.params.contains .gain = true ∧
      (ofKind 0 .gain [(.gain, some (.source chain))]).succeeds (run 44100 strayDriver).studio =
        false := by
  decide +kernel

end Session

end Patchbay
