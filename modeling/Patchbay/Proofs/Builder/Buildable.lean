import Patchbay.Proofs.Builder.Runs

namespace Patchbay

open Act

-- The hosts of its input and of its output are there, in the context. It takes as many inputs as the
-- former, unless it has an input of its own, which is a gain.
structure Studio.Seats (s : Studio) (c : ContextId) (node : Node) : Prop where
  context : node.context = c
  output : ∃ kind, s.kind? c node.outputHost = some kind
  input : ∃ kind, s.kind? c node.inputHost = some kind ∧
    ∀ inputs, node.findInputs inputs = inputs c node.inputHost ∨ kind = some .gain

def Drive.Seated (s : Studio) (c : ContextId) : Drive → Prop
  | .fixed _ => True
  | .source node => s.Seats c node

-- The act succeeds. It leaves builders and the kinds of hosts as they are.
def Sure {α : Type} (act : Act α) (s : Studio) (ok : α → Studio → Prop) : Prop :=
  Ends act s (fun a t => Shelved s t ∧ ok a t) fun _ _ => False

abbrev Seating (c : ContextId) (act : Act Node) (s : Studio) : Prop :=
  Sure act s fun node t => t.Seats c node

variable {α β : Type} {s t : Studio} {c : ContextId} {node : Node}

theorem Studio.Seats.of_kinds (h : s.Seats c node)
    (hkinds : ∀ c h kind, s.kind? c h = some kind → t.kind? c h = some kind) : t.Seats c node := by
  obtain ⟨kind, hkind⟩ := h.output
  obtain ⟨kind', hkind', hinputs⟩ := h.input
  exact ⟨h.context, ⟨kind, hkinds _ _ _ hkind⟩, kind', hkinds _ _ _ hkind', hinputs⟩

theorem Studio.Seats.lasting (h : s.Seats c node) (hst : Lasting s t) : t.Seats c node :=
  h.of_kinds hst.kinds

theorem Studio.Seats.shelved (h : s.Seats c node) (hst : Shelved s t) : t.Seats c node :=
  h.lasting hst.toLasting

theorem Drive.Seated.shelved {drive : Drive} (h : drive.Seated s c) (hst : Shelved s t) :
    drive.Seated t c := by
  cases drive with
  | fixed x => trivial
  | source node => exact Studio.Seats.shelved h hst

section Sure

variable {ok : α → Studio → Prop}

theorem sure_pure {a : α} (h : ok a s) : Sure (pure a) s ok := by
  rw [Sure, ends_pure]
  exact ⟨refl_of Shelved s, h⟩

theorem sure_bind {act : Act β} {next : β → Act α} {mid : β → Studio → Prop}
    (h : Sure act s mid) (hnext : ∀ b t, Shelved s t → mid b t → Sure (next b) t ok) :
    Sure (act >>= next) s ok := by
  rw [Sure, ends_bind]
  refine Ends.mono h (fun b t hb => ?_) fun _ _ h => h
  exact Ends.mono (hnext b t hb.1 hb.2) (fun _ _ h => ⟨trans_of Shelved hb.1 h.1, h.2⟩) fun _ _ h => h

theorem sure_read {next : Studio → Act α} (h : Sure (next s) s ok) : Sure (get >>= next) s ok := by
  rw [Sure, ends_bind, ends_get]
  exact h

theorem sure_of_keeps {act : Act α} (hkeeps : Keeps Shelved act)
    (h : Ends act s ok fun _ _ => False) : Sure act s ok :=
  Ends.mono (Ends.and (hkeeps s) h) (fun _ _ h => ⟨h.1.1, h.2⟩) fun _ _ h => h.2

theorem sure_forM {items : List β} {act : β → Act PUnit}
    (h : ∀ b ∈ items, ∀ t, Shelved s t → Sure (act b) t fun _ _ => True) :
    Sure (items.forM act) s fun _ _ => True := by
  induction items generalizing s with
  | nil => exact sure_pure trivial
  | cons b rest ih =>
      refine sure_bind (h b List.mem_cons_self s (refl_of Shelved s)) fun _ t hst _ => ih ?_
      exact fun other hother u htu =>
        h other (List.mem_cons_of_mem _ hother) u (trans_of Shelved hst htu)

end Sure

theorem sure_request (request : Request) {engine : Engine}
    (h : request.send (s.engine c) = .ok engine) :
    Sure (Act.host c request.send) s fun _ _ => True := by
  refine sure_of_keeps (Wires.request c request) (ends_host (fun _ _ => trivial) fun fault hfault => ?_)
  rw [h] at hfault
  cases hfault

theorem Engine.setParam_eq {engine : Engine} {host : HostId} {node : HostNode} {param : Param}
    (hnode : engine.nodes[host]? = some node) (hhas : node.hasParam param = true) (x : Float) :
    engine.setParam host param x =
      .ok ((engine.change host (·.setValue param x)).record (.setParam host param x)) := by
  simp only [setParam, find_eq_ok.2 hnode]
  change (if (!node.hasParam param) = true then _ else _) = _
  rw [hhas]
  rfl

theorem Engine.setParam_ok {engine : Engine} {host : HostId} {kind : NodeKind} {param : Param}
    (hkind : (engine.nodes[host]?).map HostNode.kind = some (some kind))
    (hparam : kind.params.contains param = true) (x : Float) :
    ∃ after, engine.setParam host param x = .ok after := by
  obtain ⟨node, hnode, hkind⟩ := Option.map_eq_some_iff.1 hkind
  have hhas : node.hasParam param = true := by
    rw [HostNode.hasParam, HostNode.params, hkind]
    exact hparam
  exact ⟨_, setParam_eq hnode hhas x⟩

-- What something can be connected to.
def Studio.Takes (s : Studio) (c : ContextId) : Endpoint → Prop
  | .node host => ∃ kind, s.kind? c host = some kind ∧ kind.elim 1 NodeKind.inputs ≠ 0
  | .param host param => ∃ kind, s.kind? c host = some (some kind) ∧ kind.params.contains param = true

theorem Studio.Takes.shelved {endpoint : Endpoint} (h : s.Takes c endpoint) (hst : Shelved s t) :
    t.Takes c endpoint := by
  cases endpoint with
  | node host =>
      obtain ⟨kind, hkind, hinputs⟩ := h
      exact ⟨kind, hst.kinds _ _ _ hkind, hinputs⟩
  | param host param =>
      obtain ⟨kind, hkind, hparam⟩ := h
      exact ⟨kind, hst.kinds _ _ _ hkind, hparam⟩

theorem Studio.Takes.connect {source : HostId} {endpoint : Endpoint}
    (hsource : ∃ kind, s.kind? c source = some kind) (h : s.Takes c endpoint) :
    ∃ after, (s.engine c).connect source endpoint = .ok after := by
  obtain ⟨_, hsource⟩ := hsource
  obtain ⟨own, hown, -⟩ := Option.map_eq_some_iff.1 hsource
  refine ⟨(s.engine c).record (.connect source endpoint), ?_⟩
  cases endpoint with
  | node host =>
      obtain ⟨_, hkind, hinputs⟩ := h
      obtain ⟨other, hother, rfl⟩ := Option.map_eq_some_iff.1 hkind
      simp only [Engine.connect, Engine.find_eq_ok.2 hown, Engine.find_eq_ok.2 hother]
      change (if other.inputs = 0 then _ else _) = _
      rw [if_neg (show other.inputs ≠ 0 from hinputs)]
      rfl
  | param host param =>
      obtain ⟨kind, hkind, hparam⟩ := h
      obtain ⟨other, hother, hkind⟩ := Option.map_eq_some_iff.1 hkind
      have hhas : other.hasParam param = true := by
        rw [HostNode.hasParam, HostNode.params, hkind]
        exact hparam
      simp only [Engine.connect, Engine.find_eq_ok.2 hown, Engine.find_eq_ok.2 hother]
      change (if (!other.hasParam param) = true then _ else _) = _
      rw [hhas]
      rfl

-- Only what has inputs is wired into.
theorem Studio.Seats.takes (h : s.Seats c node) (hinputs : s.inputs node ≠ 0) :
    s.Takes c (.node node.inputHost) := by
  obtain ⟨kind, hkind, htakes⟩ := h.input
  refine ⟨kind, hkind, ?_⟩
  obtain ⟨other, hother, hsame⟩ := Option.map_eq_some_iff.1 hkind
  rcases htakes fun context host => (s.engine context).inputs host with heq | rfl
  · rw [inputs, heq, Engine.inputs, hother] at hinputs
    rwa [← hsame]
  · exact Nat.one_ne_zero

theorem sure_setParam {host : HostId} {kind : NodeKind} {param : Param}
    (hkind : s.kind? c host = some (some kind)) (hparam : kind.params.contains param = true)
    (x : Float) : Sure (Act.host c (·.setParam host param x)) s fun _ _ => True := by
  obtain ⟨after, hafter⟩ := Engine.setParam_ok hkind hparam x
  exact sure_request (.setParam host param x) hafter

theorem sure_connectHost {source : HostId} {endpoint : Endpoint}
    (hsource : ∃ kind, s.kind? c source = some kind) (h : s.Takes c endpoint) :
    Sure (Act.host c (·.connect source endpoint)) s fun _ _ => True := by
  obtain ⟨after, hafter⟩ := h.connect hsource
  exact sure_request (.connect source endpoint) hafter

theorem sure_createHost (hc : c < s.engines.size) (kind : NodeKind) :
    Sure (createHost c kind) s fun host t => t.kind? c host = some (some kind) := by
  let host := (s.engine c).nodes.size
  let t : Studio := { s with engines := s.engines.modify c fun _ => ((s.engine c).create kind).2 }
  have hact : createHost c kind s = .ok host t := rfl
  have hengine : t.engine c = ((s.engine c).create kind).2 := by
    rw [s.engine_setEngine, if_pos ⟨rfl, hc⟩]
  refine ends_of_eq hact ⟨.of_kept (.of_create c kind) rfl, ?_⟩
  simp [Studio.kind?, hengine, host, Engine.create, Engine.record, HostNode.ofKind]

theorem sure_enrol {label : String} {duration release : Option Float} {make : NodeInfo → Node} :
    Sure (Node.enrol c label duration release make) s
      fun node _ => ∃ info, node = make info ∧ info.context = c :=
  sure_of_keeps (Shelved.keeps_enrol c label duration release make)
    (Ends.mono (Node.ends_enrolled s)
      (fun _ _ ⟨⟨info, hnode, hcontext, _⟩, _⟩ => ⟨info, hnode, hcontext⟩) fun _ _ h => h)

theorem sure_modify {f : Studio → Studio} (h : Shelved s (f s)) :
    Sure (modify f) s fun _ _ => True := by
  rw [Sure, ends_modify]
  exact ⟨h, trivial⟩

namespace Node

theorem sure_connectEndpoint {endpoint : Endpoint} (hnode : s.Seats c node)
    (h : s.Takes c endpoint) : Sure (node.connectEndpoint endpoint) s fun _ _ => True := by
  unfold connectEndpoint
  rw [hnode.context]
  refine sure_bind (sure_connectHost hnode.output h) fun _ _ _ _ => ?_
  exact sure_modify (.of_eq rfl rfl)

theorem sure_connect {other : Node} (hnode : s.Seats c node) (hother : other.context = c)
    (h : s.Takes c (.node other.inputHost)) : Sure (node.connect (.node other)) s fun _ _ => True := by
  have hchecked : Sure (node.checkContext other) s fun _ _ => True := by
    unfold checkContext
    rw [if_neg (not_not_intro (hnode.context.trans hother.symm))]
    exact sure_pure trivial
  unfold connect
  exact sure_bind hchecked fun _ t hst _ => sure_connectEndpoint (hnode.shelved hst) (h.shelved hst)

-- Every drive goes to a parameter of the host.
theorem sure_bindParams {host : HostId} {kind : NodeKind} {params : List (Param × Option Drive)}
    (hkind : s.kind? c host = some (some kind))
    (hparams : ∀ entry ∈ params, kind.params.contains entry.1 = true)
    (hdrives : ∀ entry ∈ params, ∀ drive ∈ entry.2, drive.Seated s c) :
    Sure (bind c host kind params) s fun _ _ => True := by
  induction params generalizing s with
  | nil => exact sure_pure trivial
  | cons entry rest ih =>
      obtain ⟨param, drive?⟩ := entry
      have hrest {t : Studio} (hst : Shelved s t) : Sure (bind c host kind rest) t fun _ _ => True :=
        ih (hst.kinds _ _ _ hkind) (fun entry hentry => hparams entry (List.mem_cons_of_mem _ hentry))
          fun entry hentry drive hdrive =>
            (hdrives entry (List.mem_cons_of_mem _ hentry) drive hdrive).shelved hst
      have hparam := hparams (param, drive?) List.mem_cons_self
      cases drive? with
      | none => exact hrest (refl_of Shelved s)
      | some drive =>
          have hdrive := hdrives (param, some drive) List.mem_cons_self drive rfl
          have hplug : Sure (Drive.plug c host param (some drive)) s fun _ _ => True := by
            cases drive with
            | fixed x => exact sure_bind (sure_setParam hkind hparam x) fun _ _ _ _ => sure_pure trivial
            | source node =>
                refine sure_bind (sure_setParam hkind hparam 0) fun _ t hst _ => ?_
                refine sure_bind (sure_connectEndpoint (Studio.Seats.shelved hdrive hst)
                  ⟨kind, hst.kinds _ _ _ hkind, hparam⟩) fun _ _ _ _ => sure_pure trivial
          rw [bind]
          simp only [hparam, Bool.not_true]
          refine sure_bind hplug fun modulator t hst _ => ?_
          exact sure_bind (hrest hst) fun _ _ _ _ => sure_pure trivial

theorem sure_ofKind {kind : NodeKind} {params : List (Param × Option Drive)}
    (hc : c < s.engines.size)
    (hparams : ∀ entry ∈ params, kind.params.contains entry.1 = true)
    (hdrives : ∀ entry ∈ params, ∀ drive ∈ entry.2, drive.Seated s c) :
    Sure (ofKind c kind params) s fun node t =>
      t.Seats c node ∧ t.kind? c node.inputHost = some (some kind) := by
  refine sure_bind (sure_createHost hc kind) fun host t hst hkind => ?_
  have hbound : Sure (bind c host kind params) t fun _ _ => True :=
    sure_bindParams hkind hparams fun entry hentry drive hdrive =>
      (hdrives entry hentry drive hdrive).shelved hst
  refine sure_bind hbound fun modulators u htu _ => ?_
  refine sure_bind sure_enrol fun node v huv hnode => ?_
  obtain ⟨info, rfl, hinfo⟩ := hnode
  have hv : v.kind? c host = some (some kind) := huv.kinds _ _ _ (htu.kinds _ _ _ hkind)
  have hseats {w : Studio} (hvw : Shelved v w) :
      w.Seats c (.leaf info host kind.isSource kind.params modulators) ∧
        w.kind? c host = some (some kind) := by
    have hw := hvw.kinds _ _ _ hv
    exact ⟨⟨hinfo, ⟨_, hw⟩, _, hw, fun inputs => .inl (hinfo ▸ rfl)⟩, hw⟩
  split
  case isFalse => exact sure_pure (hseats (refl_of Shelved v))
  case isTrue =>
      refine sure_read (sure_bind (sure_modify (.of_kept (.of_watch c host _) rfl)) fun _ w hvw _ => ?_)
      exact sure_pure (hseats hvw)

theorem sure_shaper (hc : c < s.engines.size) (attack : Contour) (release : Option Contour) :
    Seating c (shaper c attack release) s := by
  refine sure_bind (sure_createHost hc .gain) fun host t _ hkind => ?_
  refine sure_bind (sure_setParam hkind rfl 0) fun _ u htu _ => ?_
  refine Ends.mono sure_enrol (fun node v hv => ⟨hv.1, ?_⟩) fun _ _ h => h
  obtain ⟨huv, info, rfl, hinfo⟩ := hv
  have hv : v.kind? c host = some (some .gain) := huv.kinds _ _ _ (htu.kinds _ _ _ hkind)
  exact ⟨hinfo, ⟨_, hv⟩, _, hv, fun inputs => .inl (hinfo ▸ rfl)⟩

theorem sure_destination (hout : s.kind? c Engine.destination = some none) :
    Seating c (destination c) s := by
  refine Ends.mono sure_enrol (fun node v hv => ⟨hv.1, ?_⟩) fun _ _ h => h
  obtain ⟨hsv, info, rfl, hinfo⟩ := hv
  have hv := hsv.kinds _ _ _ hout
  exact ⟨hinfo, ⟨_, hv⟩, _, hv, fun inputs => .inl (hinfo ▸ rfl)⟩

theorem sure_chain {tail : List Node} (hnode : s.Seats c node)
    (htail : ∀ next ∈ tail, s.Seats c next) : Sure (node.chain tail) s fun _ _ => True := by
  induction tail generalizing node s with
  | nil => exact sure_pure trivial
  | cons next rest ih =>
      have hnext := htail next List.mem_cons_self
      have hrest {t : Studio} (hst : Shelved s t) : Sure (next.chain rest) t fun _ _ => True :=
        ih (hnext.shelved hst) fun other hother =>
          (htail other (List.mem_cons_of_mem _ hother)).shelved hst
      unfold chain
      refine sure_read ?_
      split
      case isTrue hinputs =>
          have hwired := sure_connect hnode hnext.context (hnext.takes hinputs)
          exact sure_bind hwired fun _ _ hst _ => hrest hst
      case isFalse => exact hrest (refl_of Shelved s)

-- It is fed where its first node is.
theorem sure_inSeries {head : Node} {tail : List Node} (hhead : s.Seats c head)
    (htail : ∀ node ∈ tail, s.Seats c node) :
    Sure (inSeries head tail) s fun node t => t.Seats c node ∧ node.inputHost = head.inputHost := by
  unfold inSeries
  split
  case h_1 => exact sure_pure ⟨hhead, rfl⟩
  case h_2 last _ =>
      refine sure_bind (sure_chain hhead htail) fun _ t hst _ => ?_
      refine Ends.mono sure_enrol (fun node u hu => ⟨hu.1, ?_⟩) fun _ _ h => h
      obtain ⟨htu, info, rfl, hinfo⟩ := hu
      have hsu := trans_of Shelved hst htu
      obtain ⟨part, hpart, hout⟩ := lastHost_eq head tail
      have hlast : s.Seats c part := by
        rcases List.mem_cons.1 hpart with rfl | hpart
        · exact hhead
        · exact htail part hpart
      refine ⟨⟨hinfo.trans hhead.context, ?_, (hhead.shelved hsu).input⟩, rfl⟩
      rw [outputHost, hout]
      exact (hlast.shelved hsu).output

theorem sure_joinBranch {input output : HostId} {branch : Node}
    (hinput : s.kind? c input = some (some .gain)) (houtput : s.kind? c output = some (some .gain))
    (hbranch : s.Seats c branch) : Sure (joinBranch c input output branch) s fun _ _ => True := by
  have houter {t : Studio} (hst : Shelved s t) :
      Sure (branch.connectEndpoint (.node output)) t fun _ _ => True :=
    sure_connectEndpoint (hbranch.shelved hst) ⟨_, hst.kinds _ _ _ houtput, Nat.one_ne_zero⟩
  refine sure_read ?_
  split
  case isTrue hinputs =>
      have hfed := sure_connectHost ⟨_, hinput⟩ (hbranch.takes (Nat.ne_of_gt hinputs))
      exact sure_bind hfed fun _ _ hst _ => houter hst
  case isFalse => exact houter (refl_of Shelved s)

theorem sure_inParallel {first : Node} {rest : List Node} (hc : c < s.engines.size)
    (hbranches : ∀ branch ∈ first :: rest, s.Seats c branch) :
    Seating c (inParallel first rest) s := by
  have hfirst := (hbranches first List.mem_cons_self).context
  subst hfirst
  refine sure_bind (sure_createHost hc .gain) fun input t hst hinput => ?_
  refine sure_bind (sure_createHost (hst.contexts ▸ hc) .gain) fun output u htu houtput => ?_
  have hu := htu.kinds _ _ _ hinput
  refine sure_bind (sure_setParam hu rfl 1) fun _ v huv _ => ?_
  refine sure_bind (sure_setParam (huv.kinds _ _ _ houtput) rfl 1) fun _ w hvw _ => ?_
  have huw := trans_of Shelved huv hvw
  have hsw := trans_of Shelved (trans_of Shelved hst htu) huw
  have hjoined : Sure ((first :: rest).forM (joinBranch first.context input output)) w
      fun _ _ => True :=
    sure_forM fun branch hbranch x hwx => sure_joinBranch (hwx.kinds _ _ _ (huw.kinds _ _ _ hu))
      (hwx.kinds _ _ _ (huw.kinds _ _ _ houtput))
      ((hbranches branch hbranch).shelved (trans_of Shelved hsw hwx))
  refine sure_bind hjoined fun _ x hwx _ => ?_
  refine Ends.mono sure_enrol (fun node y hy => ⟨hy.1, ?_⟩) fun _ _ h => h
  obtain ⟨hxy, info, rfl, hinfo⟩ := hy
  have huy := trans_of Shelved huw (trans_of Shelved hwx hxy)
  exact ⟨hinfo, ⟨_, huy.kinds _ _ _ houtput⟩, _, huy.kinds _ _ _ hu, fun _ => .inr rfl⟩

theorem sure_wrap {inner : Node} {others : List Node} (hinner : s.Seats c inner) :
    Seating c (wrap inner others) s := by
  unfold wrap
  split
  case isTrue => exact sure_pure hinner
  case isFalse =>
      refine sure_bind sure_enrol fun node t hst hnode => sure_read ?_
      obtain ⟨info, rfl, hinfo⟩ := hnode
      refine sure_bind (sure_modify (.of_eq rfl rfl)) fun _ u htu _ => sure_pure ?_
      have hu := hinner.shelved (trans_of Shelved hst htu)
      exact ⟨hinfo.trans hinner.context, hu.output, hu.input⟩

theorem sure_gain {level : Drive} (hc : c < s.engines.size) (hlevel : level.Seated s c) :
    Sure (gain c level) s fun node t =>
      t.Seats c node ∧ t.kind? c node.inputHost = some (some .gain) := by
  refine sure_ofKind hc ?_ ?_
  · simp [NodeKind.params]
  · simpa using hlevel

theorem Sure.seating {act : Act Node} {ok : Node → Studio → Prop}
    (h : Sure act s fun node t => t.Seats c node ∧ ok node t) : Seating c act s :=
  Ends.mono h (fun _ _ h => ⟨h.1, h.2.1⟩) fun _ _ h => h

-- Warned about or not.
theorem sure_warned {p : Prop} [Decidable p] {warning : Warning} {act : Act α}
    {ok : α → Studio → Prop} (h : ∀ t, Shelved s t → Sure act t ok) :
    Sure (do if p then warn warning
             act) s ok := by
  split
  · exact sure_bind (sure_modify (.of_eq rfl rfl)) fun _ t hst _ => h t hst
  · exact h s (refl_of Shelved s)

theorem sure_playback {buffer : Option Buffer} {looping : Bool} (hc : c < s.engines.size) :
    Seating c (playback c buffer looping none) s :=
  sure_warned fun _ hst => Sure.seating
    (sure_ofKind (hst.contexts ▸ hc) (by simp [NodeKind.params]) (by simp))

theorem sure_noise {duration : Option Float} {looping : Bool} (hc : c < s.engines.size) :
    Seating c (noise c duration looping) s :=
  sure_read (sure_playback hc)

theorem sure_constant {value : Float} (hc : c < s.engines.size) : Seating c (constant c value) s :=
  sure_read (sure_playback hc)

theorem sure_convolver {impulse : Option Buffer} {normalize : Bool} (hc : c < s.engines.size) :
    Seating c (convolver c impulse normalize) s :=
  sure_warned fun _ hst => Sure.seating (sure_ofKind (hst.contexts ▸ hc) (by simp) (by simp))

theorem sure_room {duration : Float} {decay : Option Float} {backwards : Bool}
    (hc : c < s.engines.size) : Seating c (room c duration decay backwards) s :=
  sure_read (sure_convolver hc)

theorem sure_oscillator {waveform : Waveform} {frequency : Drive} {detune : Option Drive}
    (hc : c < s.engines.size) (hfrequency : frequency.Seated s c)
    (hdetune : ∀ drive ∈ detune, drive.Seated s c) :
    Seating c (oscillator c waveform frequency detune) s := by
  refine Sure.seating (sure_ofKind hc ?_ ?_)
  · simp [NodeKind.params]
  · simpa using ⟨hfrequency, hdetune⟩

theorem sure_filter {type : FilterType} {frequency : Drive} {q detune : Option Drive}
    (hc : c < s.engines.size) (hfrequency : frequency.Seated s c)
    (hq : ∀ drive ∈ q, drive.Seated s c) (hdetune : ∀ drive ∈ detune, drive.Seated s c) :
    Seating c (filter c type frequency q detune) s := by
  refine Sure.seating (sure_ofKind hc ?_ ?_)
  · simp [NodeKind.params]
  · simpa using ⟨hfrequency, hq, hdetune⟩

theorem sure_delay {time : Drive} (hc : c < s.engines.size) (htime : time.Seated s c) :
    Sure (delay c time) s fun node t =>
      t.Seats c node ∧ t.kind? c node.inputHost = some (some (.delay longestDelay)) := by
  refine sure_ofKind hc ?_ ?_
  · simp [NodeKind.params]
  · simpa using htime

-- Both the line and what colours its repeats take an input.
theorem sure_echo {time : Drive} {amount : Float} (hc : c < s.engines.size)
    (htime : time.Seated s c) : Seating c (echo c time none amount) s := by
  refine sure_bind (sure_delay hc htime) fun line t hst ⟨hline, hlineIn⟩ => ?_
  have ht := hst.contexts ▸ hc
  refine sure_bind (sure_gain ht trivial) fun color u htu ⟨hcolor, hcolorIn⟩ => ?_
  refine sure_bind (sure_gain (htu.contexts ▸ ht) trivial) fun level v huv ⟨hlevel, _⟩ => ?_
  have hlevels : ∀ node ∈ [level], v.Seats c node := by simpa using hlevel
  have hcolored := sure_inSeries (hcolor.shelved huv) hlevels
  refine sure_bind hcolored fun again w hvw hagain => ?_
  obtain ⟨hagain, hagainIn⟩ := hagain
  have htw := trans_of Shelved htu (trans_of Shelved huv hvw)
  have htakes : w.Takes c (.node again.inputHost) :=
    ⟨some .gain, hagainIn ▸ hvw.kinds _ _ _ (huv.kinds _ _ _ hcolorIn), Nat.one_ne_zero⟩
  refine sure_bind (sure_connect (hline.shelved htw) hagain.context htakes) fun _ x hwx _ => ?_
  have htx := trans_of Shelved htw hwx
  have htakes' : x.Takes c (.node line.inputHost) :=
    ⟨_, htx.kinds _ _ _ hlineIn, Nat.one_ne_zero⟩
  refine sure_bind (sure_connect (hagain.shelved hwx) hline.context htakes') fun _ y hxy _ => ?_
  exact sure_wrap (hline.shelved (trans_of Shelved htx hxy))

end Node

theorem Control.draw_seated (control : Control) {nodes : List Node}
    (h : ∀ node ∈ nodes, s.Seats c node) :
    (control.draw nodes).1.Seated s c ∧ ∀ node ∈ (control.draw nodes).2, s.Seats c node := by
  cases control with
  | value x => exact ⟨trivial, h⟩
  | node patch =>
      cases nodes with
      | nil => exact ⟨trivial, h⟩
      | cons first rest =>
          exact ⟨h first List.mem_cons_self, fun node hnode => h node (List.mem_cons_of_mem _ hnode)⟩

theorem Control.drawIfGiven_seated (control : Option Control) {nodes : List Node}
    (h : ∀ node ∈ nodes, s.Seats c node) :
    (∀ drive ∈ (drawIfGiven control nodes).1, drive.Seated s c) ∧
      ∀ node ∈ (drawIfGiven control nodes).2, s.Seats c node := by
  cases control with
  | none => exact ⟨by simp, h⟩
  | some control => exact ⟨by simpa using (control.draw_seated h).1, (control.draw_seated h).2⟩

theorem Patch.sure_assemble {patch : Patch} {nodes : List Node} (hc : c < s.engines.size)
    (hout : s.kind? c Engine.destination = some none) (hnodes : ∀ node ∈ nodes, s.Seats c node) :
    Seating c (patch.assemble c nodes) s := by
  have hbypass : Seating c (Node.bypass c) s := Node.Sure.seating (Node.sure_gain hc trivial)
  cases patch with
  | connect route patches =>
      cases nodes with
      | nil => exact hbypass
      | cons first rest =>
          have hfirst := hnodes first List.mem_cons_self
          cases route with
          | serial =>
              exact Node.Sure.seating (Node.sure_inSeries hfirst fun node hnode =>
                hnodes node (List.mem_cons_of_mem _ hnode))
          | parallel => exact Node.sure_inParallel hc hnodes
  | gain level => exact Node.Sure.seating (Node.sure_gain hc (level.draw_seated hnodes).1)
  | oscillator waveform frequency detune =>
      obtain ⟨hfrequency, hrest⟩ := frequency.draw_seated hnodes
      exact Node.sure_oscillator hc hfrequency (Control.drawIfGiven_seated detune hrest).1
  | biquadFilter type frequency q detune =>
      obtain ⟨hfrequency, hrest⟩ := frequency.draw_seated hnodes
      obtain ⟨hq, hrest⟩ := Control.drawIfGiven_seated q hrest
      exact Node.sure_filter hc hfrequency hq (Control.drawIfGiven_seated detune hrest).1
  | envelope attack release => exact Node.sure_shaper hc attack release
  | delay time feedback =>
      have htime := (time.draw_seated hnodes).1
      cases feedback with
      | none => exact Node.Sure.seating (Node.sure_delay hc htime)
      | some amount => exact Node.sure_echo hc htime
  | constant value => exact Node.sure_constant hc
  | noise duration looping => exact Node.sure_noise hc
  | convolver duration decay reverse => exact Node.sure_room hc
  | memoize id patch =>
      cases nodes with
      | nil => exact hbypass
      | cons node rest => exact sure_pure (hnodes node List.mem_cons_self)
  | destination => exact Node.sure_destination hout

-- A builder of the context, which keeps nodes that are in their places.
structure Studio.Furnished (s : Studio) (b : BuilderId) (c : ContextId) : Prop where
  opened : c < s.engines.size
  output : s.kind? c Engine.destination = some none
  stock : ∃ builder, s.builders[b]? = some builder ∧ builder.context = c ∧
    ∀ entry ∈ builder.memo, s.Seats c entry.2

theorem Studio.Furnished.shelved {b : BuilderId} (h : s.Furnished b c) (hst : Shelved s t) :
    t.Furnished b c := by
  obtain ⟨builder, hbuilder, hcontext, hmemo⟩ := h.stock
  refine ⟨hst.contexts ▸ h.opened, hst.kinds _ _ _ h.output, builder, ?_, hcontext, ?_⟩
  · rw [hst.builders, hbuilder]
  · exact fun entry hentry => (hmemo entry hentry).shelved hst

-- The builder stays so. The act succeeds, unless an id is missing.
def Furnishes (b : BuilderId) (c : ContextId) (missing : Prop) {α : Type} (act : Act α) (s : Studio)
    (ok : α → Studio → Prop) : Prop :=
  Ends act s (fun a t => t.Furnished b c ∧ Lasting s t ∧ ok a t)
    fun e t => t.Furnished b c ∧ e = .missingMemoId ∧ missing

section Furnishes

variable {b : BuilderId} {missing : Prop} {ok : α → Studio → Prop}

theorem furnishes_of_sure {act : Act α} (h : s.Furnished b c) (hact : Sure act s ok) :
    Furnishes b c missing act s ok :=
  Ends.mono hact (fun _ _ ht => ⟨h.shelved ht.1, ht.1.toLasting, ht.2⟩) fun _ _ h => h.elim

theorem furnishes_pure {a : α} (h : s.Furnished b c) (ha : ok a s) :
    Furnishes b c missing (pure a) s ok :=
  furnishes_of_sure h (sure_pure ha)

theorem furnishes_bind {act : Act β} {next : β → Act α} {mid : β → Studio → Prop}
    (h : Furnishes b c missing act s mid)
    (hnext : ∀ a t, t.Furnished b c → Lasting s t → mid a t → Furnishes b c missing (next a) t ok) :
    Furnishes b c missing (act >>= next) s ok := by
  rw [Furnishes, ends_bind]
  refine Ends.mono h (fun a t ha => ?_) fun _ _ h => h
  exact Ends.mono (hnext a t ha.1 ha.2.1 ha.2.2)
    (fun _ _ h => ⟨h.1, trans_of Lasting ha.2.1 h.2.1, h.2.2⟩) fun _ _ h => h

theorem Furnishes.weaken {missing' : Prop} {act : Act α} (h : Furnishes b c missing act s ok)
    (hmissing : missing → missing') : Furnishes b c missing' act s ok :=
  Ends.mono h (fun _ _ h => h) fun _ _ h => ⟨h.1, h.2.1, hmissing h.2.2⟩

end Furnishes

namespace Builder

variable {b : BuilderId}

theorem furnishes_state {missing : Prop} {next : Builder → Act α} {ok : α → Studio → Prop}
    (h : s.Furnished b c)
    (hnext : ∀ builder : Builder, builder.context = c →
      (∀ entry ∈ builder.memo, s.Seats c entry.2) → Furnishes b c missing (next builder) s ok) :
    Furnishes b c missing (state b >>= next) s ok := by
  obtain ⟨builder, hbuilder, hcontext, hmemo⟩ := h.stock
  unfold Furnishes state
  simp only [ends_bind, ends_get, ends_pure, hbuilder, Option.getD_some]
  exact hnext builder hcontext hmemo

theorem furnishes_memoize {missing : Prop} {id : String} {node : Node} (h : s.Furnished b c)
    (hnode : s.Seats c node) : Furnishes b c missing (memoize b id node) s fun _ _ => True := by
  obtain ⟨builder, hbuilder, hcontext, hmemo⟩ := h.stock
  have hlasting : Lasting s { s with builders := s.builders.modify b fun builder =>
      { builder with memo := Keyed.insert id node builder.memo } } := ⟨rfl, fun _ _ _ h => h⟩
  unfold Furnishes memoize
  rw [ends_modify]
  refine ⟨⟨h.opened, h.output, { builder with memo := Keyed.insert id node builder.memo }, ?_,
    hcontext, fun entry hentry => ?_⟩, hlasting, trivial⟩
  · simp [Array.getElem?_modify, hbuilder]
  · rcases Keyed.mem_insert hentry with rfl | hentry
    · exact hnode.lasting hlasting
    · exact (hmemo entry hentry).lasting hlasting

theorem furnishes_buildAll {missing : Prop} {patches : List Patch} (h : s.Furnished b c)
    (hbuild : ∀ patch ∈ patches, ∀ t : Studio, t.Furnished b c →
      Furnishes b c missing (build b patch) t fun node u => u.Seats c node) :
    Furnishes b c missing (buildAll b patches) s fun nodes t => ∀ node ∈ nodes, t.Seats c node := by
  induction patches generalizing s with
  | nil => exact furnishes_pure h (by simp)
  | cons patch rest ih =>
      rw [buildAll]
      refine furnishes_bind (hbuild patch List.mem_cons_self s h) fun node t ht _ hnode => ?_
      have hrest := ih ht fun other hother => hbuild other (List.mem_cons_of_mem _ hother)
      refine furnishes_bind hrest fun nodes u hu htu hnodes => furnishes_pure hu ?_
      simpa using ⟨hnode.lasting htu, hnodes⟩

-- A patch is put together out of what its parts come to; only under an id can something be missing.
theorem furnishes_build (patch : Patch) (h : s.Furnished b c) :
    Furnishes b c (∃ body, (Patch.memoize "" body).Within patch) (build b patch) s
      fun node t => t.Seats c node := by
  induction patch using Patch.induct generalizing s with
  | step patch ih =>
      have hpart {part : Patch} (hpart : part ∈ patch.parts) (t : Studio) (ht : t.Furnished b c) :
          Furnishes b c (∃ body, (Patch.memoize "" body).Within patch) (build b part) t
            fun node u => u.Seats c node :=
        (ih part hpart ht).weaken fun hbody => hbody.imp fun _ h => .part hpart h
      cases hkey : patch.key? with
      | none =>
          rw [build_eq hkey]
          refine furnishes_state h fun builder hcontext _ => ?_
          refine furnishes_bind (furnishes_buildAll h fun part => hpart) fun nodes t ht _ hnodes => ?_
          rw [hcontext]
          exact furnishes_of_sure ht (Patch.sure_assemble ht.opened ht.output hnodes)
      | some id =>
          obtain ⟨body, rfl⟩ := Patch.eq_of_key hkey
          rw [build_memoize]
          split
          case isTrue hempty =>
              obtain rfl : id = "" := String.isEmpty_iff.1 hempty
              rw [Furnishes, ends_throw]
              exact ⟨h, rfl, body, .self⟩
          case isFalse =>
              refine furnishes_state h fun builder _ hmemo => ?_
              split
              case h_1 node hnode =>
                  obtain ⟨entry, hentry, rfl⟩ := Keyed.mem_of_get? hnode
                  exact furnishes_pure h (hmemo entry hentry)
              case h_2 =>
                  refine furnishes_bind (hpart (List.mem_singleton.2 rfl) s h)
                    fun node t ht _ hnode => ?_
                  refine furnishes_bind (furnishes_memoize ht hnode) fun _ u hu htu _ => ?_
                  exact furnishes_pure hu (hnode.lasting htu)

end Builder

-- As far as contexts have been opened, all that is kept is in its place.
structure Supplied (s : Studio) : Prop where
  outputs : ∀ c, s.kind? c Engine.destination = some none
  memos : ∀ (b : BuilderId) (builder : Builder), s.builders[b]? = some builder →
    builder.context < s.engines.size → ∀ entry ∈ builder.memo, s.Seats builder.context entry.2

namespace Supplied

theorem furnished {b : BuilderId} {builder : Builder} (h : Supplied s)
    (hbuilder : s.builders[b]? = some builder) (hc : builder.context < s.engines.size) :
    s.Furnished b builder.context :=
  ⟨hc, h.outputs _, builder, hbuilder, rfl, h.memos b builder hbuilder hc⟩

theorem of_shelved (s t : Studio) (hst : Shelved s t) : Preserves Supplied s t := by
  intro h
  refine ⟨fun c => hst.kinds _ _ _ (h.outputs c), fun b builder hbuilder hc entry hentry => ?_⟩
  rw [hst.builders] at hbuilder
  exact (h.memos b builder hbuilder (hst.contexts ▸ hc) entry hentry).shelved hst

instance : Crafts (Preserves Supplied) := .of_finer of_shelved

-- A new builder keeps nothing.
theorem keeps_new (context : ContextId) : Keeps (Preserves Supplied) (Builder.new context) := by
  intro s
  unfold Along Builder.new
  rw [ends_modifyGet]
  refine ⟨fun h => ⟨h.outputs, fun b builder hbuilder hc entry hentry => ?_⟩, trivial⟩
  rw [Array.getElem?_push] at hbuilder
  split at hbuilder
  case isTrue =>
      cases hbuilder
      cases hentry
  case isFalse => exact (h.memos b builder hbuilder hc entry hentry).of_kinds fun _ _ _ h => h

end Supplied

-- What building leaves in place, whatever becomes of it: other builders, and where the builder is.
structure Rebuilds (b : BuilderId) (s t : Studio) : Prop extends Lasting s t where
  others : ∀ other : BuilderId, other ≠ b → t.builders[other]? = s.builders[other]?
  context : (t.builders[b]?).map Builder.context = (s.builders[b]?).map Builder.context

namespace Rebuilds

variable {b : BuilderId}

instance : IsPreorder Studio (Rebuilds b) where
  refl s := ⟨refl_of Lasting s, fun _ _ => rfl, rfl⟩
  trans _ _ _ h h' := ⟨trans_of Lasting h.toLasting h'.toLasting,
    fun other hne => (h'.others other hne).trans (h.others other hne), h'.context.trans h.context⟩

theorem of_shelved (s t : Studio) (hst : Shelved s t) : Rebuilds b s t :=
  ⟨hst.toLasting, fun _ _ => by rw [hst.builders], by rw [hst.builders]⟩

instance : Crafts (Rebuilds b) := .of_finer of_shelved

theorem keeps_build (patch : Patch) : Keeps (Rebuilds b) (Builder.build b patch) := by
  refine Builder.keeps_build (fun id node => keeps_modify fun s => ?_) patch
  refine ⟨⟨rfl, fun _ _ _ h => h⟩, fun other hne => ?_, ?_⟩
  · simp [Array.getElem?_modify, hne.symm]
  · cases hbuilder : s.builders[b]? <;> simp [Array.getElem?_modify, hbuilder]

theorem supplied (hst : Rebuilds b s t) (h : Supplied s)
    (hown : ∀ builder : Builder, t.builders[b]? = some builder → builder.context < t.engines.size →
      ∀ entry ∈ builder.memo, t.Seats builder.context entry.2) : Supplied t := by
  refine ⟨fun c => hst.kinds _ _ _ (h.outputs c), fun other builder hbuilder hc entry hentry => ?_⟩
  by_cases hother : other = b
  · subst hother
    exact hown builder hbuilder hc entry hentry
  · rw [hst.others other hother] at hbuilder
    exact (h.memos other builder hbuilder (hst.contexts ▸ hc) entry hentry).lasting hst.toLasting

end Rebuilds

namespace Supplied

theorem keeps_build (b : BuilderId) (patch : Patch) :
    Keeps (Preserves Supplied) (Builder.build b patch) := by
  refine keeps_where (p := Supplied) (fun _ _ hvoid h => absurd h hvoid) fun s hs => ?_
  have hrebuilt := Rebuilds.keeps_build (b := b) patch s
  by_cases hready : ∃ builder : Builder, s.builders[b]? = some builder ∧ builder.context < s.engines.size
  · obtain ⟨builder, hbuilder, hc⟩ := hready
    have hsupplied {t : Studio} (hst : Rebuilds b s t) (ht : t.Furnished b builder.context) :
        Supplied t := by
      obtain ⟨own, hown, hcontext, hmemo⟩ := ht.stock
      refine hst.supplied hs fun other hother _ entry hentry => ?_
      obtain rfl : own = other := Option.some_inj.1 (hown.symm.trans hother)
      exact hcontext ▸ hmemo entry hentry
    have hbuilt := Builder.furnishes_build patch (hs.furnished hbuilder hc)
    exact Ends.mono (Ends.and hrebuilt hbuilt)
      (fun _ _ ht => ⟨fun _ => hsupplied ht.1.1 ht.2.1, trivial⟩) fun _ _ ht _ => hsupplied ht.1 ht.2.1
  · have hsupplied {t : Studio} (hst : Rebuilds b s t) : Supplied t := by
      refine hst.supplied hs fun builder hbuilder hc => ?_
      have hcontext := hst.context
      rw [hbuilder] at hcontext
      obtain ⟨own, hown, hsame⟩ := Option.map_eq_some_iff.1 hcontext.symm
      exact absurd ⟨own, hown, by rw [hsame, ← hst.contexts]; exact hc⟩ hready
    exact Ends.mono hrebuilt (fun _ _ ht => ⟨fun _ => hsupplied ht.1, trivial⟩)
      fun _ _ ht _ => hsupplied ht

instance : Drafts (Preserves Supplied) where
  read read := (Shelved.keeps_reading read).mono of_shelved
  opened := keeps_new
  patched context source := by
    refine keeps_bind ((Shelved.keeps_reading (Patch.parse source)).mono of_shelved) fun patch => ?_
    exact keeps_bind (keeps_new context) fun b => keeps_build b patch

-- Builders have their contexts already.
theorem openContext (h : Supplied s) (hsound : s.ledger.Sound 0) (rate : Float) :
    Supplied { s with engines := s.engines.push (.new rate) } := by
  have hkind (c : ContextId) (host : HostId) :
      ({ s with engines := s.engines.push (.new rate) } : Studio).kind? c host = s.kind? c host := by
    rw [Studio.kind?, (s.engine_opened rate c).1, ← Studio.kind?]
  refine ⟨fun c => (hkind c _).trans (h.outputs c), fun b builder hbuilder _ entry hentry => ?_⟩
  have hc : builder.context < s.engines.size := (hsound.builder b builder hbuilder).opened
  refine (h.memos b builder hbuilder hc entry hentry).of_kinds fun c host kind hh => ?_
  rw [hkind, hh]

instance : Paces (Preserves Supplied) fun _ _ => True :=
  .of_finer of_shelved (fun _ _ => Shelved.of_untouched)
    (fun _ rate hsound => along_openContext fun h => h.openContext hsound rate)
    Shelved.keeps_disconnect

theorem after_deed (h : Supplied s) (hs : s.ledger.Sound 0) (deed : Deed) :
    Supplied (deed.after s) := by
  have hafter {β : Type} {act : Act β} (hact : Along (Preserves Supplied) act s fun _ _ => True) :
      Supplied (act.after s) :=
    after_of_ends (Ends.mono hact (fun _ _ ht => ht.1 h) fun _ _ ht => ht h)
  cases deed with
  | build builder patch =>
      rw [Deed.after]
      split
      case isTrue => exact hafter (keeps_build builder patch s)
      case isFalse => exact h
  | give command =>
      rw [Deed.after]
      cases hact : command.act? s with
      | none => exact h
      | some act =>
          refine hafter ?_
          cases hdirect : command.isDirect with
          | true =>
              have hkeeps : Keeps Shelved act :=
                Command.keeps_direct Shelved.keeps_cutHost Shelved.keeps_clearCalls hdirect act hact
              exact hkeeps.mono of_shelved s
          | false =>
              refine command.paces hs hdirect (command.paced s) (fun b _ => keeps_build b) ?_ act hact
              exact fun c time _ => of_shelved _ _ (Shelved.of_kept (.of_engine c fun _ _ h => h) rfl)

theorem done (rate : Float) (deeds : List Deed) : Supplied ((Studio.new rate).done deeds) := by
  refine (Studio.invariant_done rate deeds ?_ fun s hs h deed => h.after_deed hs deed).1
  refine ⟨fun c => by cases c <;> rfl, fun b builder hbuilder => ?_⟩
  simp [Studio.new] at hbuilder

end Supplied

namespace Studio

-- Whatever a builder keeps, it builds every patch that no empty id is in, and nothing but an empty
-- id can make it fail.
theorem patch_builds (rate : Float) (deeds : List Deed) (b : BuilderId) (patch : Patch)
    (hb : b < ((new rate).done deeds).builders.size) :
    ((∀ body, ¬(Patch.memoize "" body).Within patch) →
      ∃ node t, Builder.build b patch ((new rate).done deeds) = .ok node t) ∧
    ∀ e t, Builder.build b patch ((new rate).done deeds) = .error e t → e = .missingMemoId := by
  have hat := Array.getElem?_eq_getElem hb
  have hopened := ((sound_done rate deeds).builder b _ hat).opened
  have hbuilt := Builder.furnishes_build patch ((Supplied.done rate deeds).furnished hat hopened)
  refine ⟨fun hnamed => ?_, fun e t herror => (ends_of_error herror hbuilt).2.1⟩
  cases hact : Builder.build b patch ((new rate).done deeds) with
  | ok node t => exact ⟨node, t, rfl⟩
  | error e t =>
      obtain ⟨-, -, body, hbody⟩ := ends_of_error hact hbuilt
      exact absurd hbody (hnamed body)

-- A builder that keeps where all sound goes.
def kept : List Deed := [.give (.openBuilder 0), .build 0 (.memoize "lfo" .destination)]

def tremolo : Patch := .gain (.node (.memoize "lfo" (.oscillator .sine (.value 5) none)))

theorem tremolo_builds : 0 < ((new 44100).done kept).builders.size ∧
    (∀ body, ¬(Patch.memoize "" body).Within tremolo) ∧
    (∃ node t, Builder.build 0 tremolo ((new 44100).done kept) = .ok node t) ∧
    ∀ e t, Builder.build 0 tremolo ((new 44100).done kept) = .error e t → e = .missingMemoId := by
  have hb : 0 < ((new 44100).done kept).builders.size := by decide +kernel
  have hnamed (body : Patch) : ¬(Patch.memoize "" body).Within tremolo := by
    rintro (_ | ⟨hpart, hlfo⟩)
    obtain rfl := List.mem_singleton.1 hpart
    generalize hinner : Patch.memoize "" body = inner at hlfo
    rcases hlfo with _ | ⟨hpart, hsine⟩
    · simp at hinner
    · obtain rfl := List.mem_singleton.1 hpart
      cases hinner.trans (hsine.eq_of_leaf rfl)
  obtain ⟨hbuilds, herrors⟩ := patch_builds 44100 kept 0 tremolo hb
  exact ⟨hb, hnamed, hbuilds hnamed, herrors⟩

end Studio

end Patchbay
