import Patchbay.Proofs.Ends.Scheduled

namespace Patchbay

open Act

def HostCall.start? : HostCall → Option (HostId × Float)
  | .start id time => some (id, time)
  | _ => none

def HostCall.stop? : HostCall → Option (HostId × Float)
  | .stop id time => some (id, time)
  | _ => none

theorem Request.filterMap_send {β : Type} (pick : HostCall → Option β) {engine after : Engine}
    {request : Request} (h : request.send engine = .ok after) :
    after.calls.toList.filterMap pick =
      engine.calls.toList.filterMap pick ++ (pick request.call).toList := by
  rw [calls_send h, Array.toList_push, List.filterMap_append, List.filterMap_cons]
  cases pick request.call <;> rfl

theorem Request.starts_send {engine after : Engine} {request : Request}
    (h : request.send engine = .ok after) :
    after.starts = engine.starts ++ request.call.start?.toList :=
  filterMap_send HostCall.start? h

theorem Request.stops_send {engine after : Engine} {request : Request}
    (h : request.send engine = .ok after) :
    after.stops = engine.stops ++ request.call.stop?.toList :=
  filterMap_send HostCall.stop? h

theorem Studio.engine_setEngine (s : Studio) (context c : ContextId) (engine : Engine) :
    ({ s with engines := s.engines.modify context fun _ => engine } : Studio).engine c =
      if context = c ∧ c < s.engines.size then engine else s.engine c := by
  unfold Studio.engine
  rw [Array.getElem?_modify]
  by_cases hc : c < s.engines.size
  · rw [Array.getElem?_eq_getElem hc]
    by_cases heq : context = c <;> simp [heq, hc]
  · rw [Array.getElem?_eq_none (Nat.not_lt.1 hc)]
    by_cases heq : context = c <;> simp [heq, hc]

theorem Studio.engine_set {s : Studio} {context : ContextId} (h : context < s.engines.size)
    (engine : Engine) :
    ({ s with engines := s.engines.modify context fun _ => engine } : Studio).engine context = engine :=
  (s.engine_setEngine context context engine).trans (if_pos ⟨rfl, h⟩)

-- A source: its node, and its host in a context.
structure Source where
  node : NodeId
  context : ContextId
  host : HostId
  deriving DecidableEq

namespace Node

def asSource? (node : Node) : Option Source := node.source?.map (⟨node.id, node.context, ·⟩)

-- The sources that it reaches, itself first and then those of its parts, in their order. A source
-- that is shared stands wherever it is met.
def visits (node : Node) : List Source := node.reach.filterMap asSource?

end Node

-- Those that were not started yet, each where it is first met.
def Studio.unstarted (studio : Studio) (visits : List Source) : List Source :=
  (visits.filter fun source => !studio.started source.node).eraseDups

def Ledger.HasSource (L : Ledger) (source : Source) : Prop :=
  ∃ leaf, L.Knows leaf ∧ leaf.asSource? = some source

namespace Ledger.HasSource

variable {L M : Ledger} {x y : Source}

theorem grow (h : L.HasSource x) (hLM : L.Grows M) : M.HasSource x := by
  obtain ⟨leaf, hleaf, hx⟩ := h
  exact ⟨leaf, hleaf.grow hLM, hx⟩

-- A node has one host, so its number tells which source it is.
theorem eq_of_node (hx : L.HasSource x) (hy : L.HasSource y) (h : x.node = y.node) : x = y := by
  obtain ⟨leaf, hleaf, hx⟩ := hx
  obtain ⟨other, hother, hy⟩ := hy
  have hid {node : Node} {z : Source} (hz : node.asSource? = some z) : node.id = z.node := by
    obtain ⟨host, -, rfl⟩ := Option.map_eq_some_iff.1 hz
    rfl
  have hsame : leaf.id = other.id := by rw [hid hx, hid hy, h]
  obtain rfl : leaf = other := by
    rw [Knows, hsame, hother] at hleaf
    exact (Option.some_inj.1 hleaf).symm
  exact Option.some_inj.1 (hx.symm.trans hy)

end Ledger.HasSource

-- No start between them.
structure Unvisited (s t : Studio) : Prop where
  starts : ∀ c, (t.engine c).starts = (s.engine c).starts
  started : ∀ id, t.started id = s.started id

namespace Unvisited

instance : IsPreorder Studio Unvisited where
  refl _ := ⟨fun _ => rfl, fun _ => rfl⟩
  trans _ _ _ h h' := ⟨fun c => (h'.starts c).trans (h.starts c),
    fun id => (h'.started id).trans (h.started id)⟩

theorem keeps_request (context : ContextId) (request : Request) (h : request.call.start? = none) :
    Keeps Unvisited (Act.host context request.send) := by
  refine fun s => along_host fun engine hsend => ⟨⟨fun c => ?_, fun _ => rfl⟩, trivial⟩
  rw [s.engine_setEngine]
  split
  case isTrue hc =>
      obtain ⟨rfl, -⟩ := hc
      rw [Request.starts_send hsend, h, Option.toList_none, List.append_nil]
  case isFalse => rfl

instance : Stops Unvisited where
  stop context host time := keeps_request context (.stop host time) rfl
  schedule context host param event := keeps_request context (.schedule host param event) rfl

end Unvisited

-- From one to the other the sources are come to, at one time.
structure Visited (visits : List Source) (time : Float) (s t : Studio) : Prop where
  starts : ∀ c, (t.engine c).starts = (s.engine c).starts ++
    ((s.unstarted visits).filter (·.context = c)).map fun source => (source.host, time)
  started : ∀ source, s.ledger.HasSource source →
    t.started source.node = (s.started source.node || decide (source ∈ visits))

namespace Visited

variable {s t u : Studio} {visits more : List Source} {time : Float}

theorem of_unvisited (h : Unvisited s t) : Visited [] time s t where
  starts c := by simp [h.starts c, Studio.unstarted]
  started source _ := by simp [h.started]

theorem then_unvisited (h : Visited visits time s t) (h' : Unvisited t u) :
    Visited visits time s u where
  starts c := (h'.starts c).trans (h.starts c)
  started source hsource := (h'.started _).trans (h.started source hsource)

-- What the first part of a visit has started, the rest of it passes by.
theorem append (h : Visited visits time s t) (h' : Visited more time t u)
    (hgrows : s.ledger.Grows t.ledger) (hmore : ∀ source ∈ more, s.ledger.HasSource source) :
    Visited (visits ++ more) time s u where
  starts c := by
    have hrest : s.unstarted (visits ++ more) = s.unstarted visits ++ t.unstarted more := by
      unfold Studio.unstarted
      rw [List.filter_append, List.eraseDups_append, List.removeAll, List.filter_filter]
      congr 2
      refine List.filter_congr fun source hsource => ?_
      rw [h.started source (hmore source hsource)]
      cases hstarted : s.started source.node <;> simp [hstarted]
    rw [h'.starts, h.starts, hrest, List.filter_append, List.map_append, List.append_assoc]
  started source hsource := by
    rw [h'.started source (hsource.grow hgrows), h.started source hsource]
    simp [Bool.or_assoc]

end Visited

-- All that it reaches is known, in contexts that have been opened.
def Ledger.Holds (L : Ledger) (node : Node) : Prop :=
  ∀ inner ∈ node.reach, L.Knows inner ∧ inner.context < L.contexts

namespace Ledger.Holds

variable {L M : Ledger} {node : Node}

theorem grow (h : L.Holds node) (hLM : L.Grows M) : M.Holds node := fun inner hinner =>
  ⟨(h inner hinner).1.grow hLM, Nat.lt_of_lt_of_le (h inner hinner).2 hLM.contexts⟩

theorem part (h : L.Holds node) {part : Node} (hpart : part ∈ node.parts) : L.Holds part :=
  fun inner hinner => h inner (Node.reach_trans hinner (Node.part_mem_reach hpart))

theorem hasSource (h : L.Holds node) {source : Source} (hsource : source ∈ node.visits) :
    L.HasSource source := by
  obtain ⟨leaf, hleaf, hsource⟩ := List.mem_filterMap.1 hsource
  exact ⟨leaf, (h leaf hleaf).1, hsource⟩

end Ledger.Holds

namespace Node

variable {s t : Studio} {node : Node} {nodes : List Node} {time : Float}

def visitsAll (nodes : List Node) : List Source := nodes.flatMap visits

theorem reachAll_eq (nodes : List Node) : reachAll nodes = nodes.flatMap reach := by
  induction nodes with
  | nil => rfl
  | cons node rest ih => rw [reachAll, ih, List.flatMap_cons]

theorem visits_eq (node : Node) : node.visits = node.asSource?.toList ++ visitsAll node.parts := by
  have hparts (parts : List Node) : (reachAll parts).filterMap asSource? = visitsAll parts := by
    rw [reachAll_eq, List.filterMap_flatMap]
    rfl
  have hreach : node.reach = node :: reachAll node.parts := by
    cases node <;> rfl
  rw [visits, hreach, List.filterMap_cons, hparts]
  cases node.asSource? <;> rfl

-- What a start passes by has no sources.
theorem visits_of_not_startable (h : ¬node.isStartable = true) : node.visits = [] := by
  refine List.filterMap_eq_nil_iff.2 fun leaf hleaf => ?_
  by_contra hsource
  obtain ⟨source, hsource⟩ := Option.ne_none_iff_exists'.1 hsource
  obtain ⟨host, hhost, -⟩ := Option.map_eq_some_iff.1 hsource
  exact h (isStartable_of_reach_source hleaf (Option.isSome_iff_exists.2 ⟨host, hhost⟩))

-- Only the node itself is marked.
theorem along_mark (hnode : s.ledger.Knows node) :
    Along Sounding (changeNode node.id fun state => { state with started := true }) s
      fun _ t => (∀ c, t.engine c = s.engine c) ∧
        ∀ id, t.started id = (s.started id || decide (id = node.id)) := by
  have h := Plays.started (R := Sounding) node.id s
  unfold Along changeNode at h ⊢
  rw [ends_modify] at h ⊢
  refine ⟨h.1, fun _ => rfl, fun id => ?_⟩
  unfold Studio.started
  rw [Array.getElem?_modify]
  by_cases hid : id = node.id
  · subst hid
    simp [Array.getElem?_eq_getElem (Studio.lt_of_knows hnode)]
  · simp [hid, Ne.symm hid]

theorem visited_startSource {host : HostId} (hnode : s.ledger.Holds node)
    (hhost : node.source? = some host) :
    Along Sounding (node.startSource host time) s
      fun _ t => Visited [⟨node.id, node.context, host⟩] time s t := by
  obtain ⟨hknown, hopened⟩ := hnode node (self_mem_reach node)
  have hsource : s.ledger.HasSource ⟨node.id, node.context, host⟩ :=
    ⟨node, hknown, by rw [asSource?, hhost]; rfl⟩
  have hmet (source : Source) (h : s.ledger.HasSource source) :
      source ∈ [(⟨node.id, node.context, host⟩ : Source)] ↔ source.node = node.id := by
    rw [List.mem_singleton]
    exact ⟨fun heq => by rw [heq], h.eq_of_node hsource⟩
  unfold startSource
  refine along_read ?_
  split
  case isTrue hstarted =>
      rw [state_started] at hstarted
      refine along_pure ⟨fun c => by simp [Studio.unstarted, hstarted], fun source h => ?_⟩
      by_cases heq : source.node = node.id
      · simp [heq, hstarted]
      · simp [hmet source h, heq]
  case isFalse hfresh =>
      rw [state_started] at hfresh
      have hunstarted : s.unstarted [⟨node.id, node.context, host⟩] =
          [⟨node.id, node.context, host⟩] := by
        simp [Studio.unstarted, hfresh, List.eraseDups_cons]
      refine along_bind (along_mark hknown) fun _ t hst ⟨hengine, hstarted⟩ =>
        along_host fun engine h => ?_
      have hsend : (Request.start host time).send (t.engine node.context) = .ok engine := h
      refine ⟨Sounding.of_request hsend, fun c => ?_, fun source h => ?_⟩
      · rw [t.engine_setEngine, hunstarted]
        by_cases hc : node.context = c
        · subst hc
          have hat := Nat.lt_of_lt_of_le hopened hst.grows.contexts
          rw [if_pos ⟨rfl, hat⟩, Request.starts_send hsend, hengine]
          simp [Request.call, HostCall.start?]
        · simp [hc, hengine]
      · have hmarked := hstarted source.node
        simp only [hmet source h]
        exact hmarked

theorem visited_startOwn (hnode : s.ledger.Holds node) :
    Along Sounding (node.startOwn time) s
      fun _ t => Visited node.asSource?.toList time s t := by
  cases node with
  | leaf info host source params modulators =>
      cases source with
      | true => exact visited_startSource hnode rfl
      | false => exact along_pure (.of_unvisited (refl s))
  | envelope info host attack release =>
      -- It is marked as well, but no source goes by its number.
      obtain ⟨hknown, -⟩ := hnode _ (self_mem_reach _)
      refine along_bind (along_mark hknown) fun _ t _ ⟨hengine, hstarted⟩ => ?_
      have hcurve : Along Sounding (attack.schedule info.context host .gain time) t
          fun _ u => Unvisited t u :=
        Keeps.both (attack.keeps_schedule _ _ _ _) (attack.keeps_schedule _ _ _ _) t
      refine hcurve.mono fun _ u _ hu => ?_
      refine .then_unvisited ⟨fun c => ?_, fun source hsource => ?_⟩ hu
      · simp [hengine, Studio.unstarted, asSource?, source?]
      · have hne : source.node ≠ info.id := by
          rintro heq
          obtain ⟨leaf, hleaf, hsource⟩ := hsource
          obtain ⟨host', hhost', rfl⟩ := Option.map_eq_some_iff.1 hsource
          rw [Ledger.Knows, show leaf.id = info.id from heq] at hleaf
          obtain rfl := Option.some_inj.1 (hleaf.symm.trans hknown)
          cases hhost'
        rw [hstarted]
        simp [Node.id, Node.info, hne, asSource?, source?]
  | series | parallel | wrapped => exact along_pure (.of_unvisited (refl s))

theorem visited_startAll (hnodes : ∀ node ∈ nodes, s.ledger.Holds node)
    (h : ∀ node ∈ nodes, ∀ t, Sounding s t →
      Along Sounding (node.start time) t fun _ u => Visited node.visits time t u) :
    Along Sounding (startAll nodes time) s fun _ t => Visited (visitsAll nodes) time s t := by
  induction nodes generalizing s with
  | nil => exact along_pure (.of_unvisited (refl s))
  | cons node rest ih =>
      have hrest {t : Studio} (hst : Sounding s t) (hnode : Visited node.visits time s t) :
          Along Sounding (startAll rest time) t
            fun _ u => Visited (visitsAll (node :: rest)) time s u := by
        have hheld (other : Node) (hother : other ∈ rest) : s.ledger.Holds other :=
          hnodes other (List.mem_cons_of_mem _ hother)
        refine (ih (fun other hother => (hheld other hother).grow hst.grows)
          fun other hother u htu => ?_).mono fun _ u htu hall => ?_
        · exact h other (List.mem_cons_of_mem _ hother) u (trans_of Sounding hst htu)
        · refine hnode.append hall hst.grows fun source hsource => ?_
          obtain ⟨other, hother, hsource⟩ := List.mem_flatMap.1 hsource
          exact (hheld other hother).hasSource hsource
      rw [startAll]
      split
      case isTrue =>
          refine along_bind (h node List.mem_cons_self s (refl s)) fun _ t hst hnode => ?_
          exact hrest hst hnode
      case isFalse hstart =>
          refine hrest (refl s) ?_
          rw [visits_of_not_startable hstart]
          exact .of_unvisited (refl s)

-- A start that succeeds has come to every source once.
theorem visited_start (hnode : s.ledger.Holds node) :
    Along Sounding (node.start time) s fun _ t => Visited node.visits time s t := by
  induction node using induct generalizing s with
  | step node ih =>
      rw [start_eq, visits_eq]
      refine along_bind along_checkTime fun _ t _ ⟨ht, _⟩ => ?_
      subst ht
      refine along_bind (visited_startOwn hnode) fun _ u hsu hself => ?_
      have hparts : Along Sounding (startAll node.parts time) u
          fun _ v => Visited (visitsAll node.parts) time u v :=
        visited_startAll (fun part hpart => (hnode.part hpart).grow hsu.grows) fun part hpart v huv =>
          ih part hpart (((hnode.part hpart).grow hsu.grows).grow huv.grows)
      refine along_bind hparts fun _ v huv hall => ?_
      have hend : Along Sounding (node.stopAtEnd time) v fun _ w => Unvisited v w :=
        Keeps.both (keeps_stopAtEnd node time) (keeps_stopAtEnd node time) v
      refine hend.mono fun _ w _ hw => ?_
      refine (hself.append hall hsu.grows fun source hsource => ?_).then_unvisited hw
      refine hnode.hasSource ?_
      rw [visits_eq]
      exact List.mem_append_right _ hsource

end Node

namespace Session

theorem holds_of_node {rate : Float} {commands : List Command} {id : NodeId} {node : Node}
    (hnode : (run rate commands).studio.node? id = some node) :
    (run rate commands).studio.ledger.Holds node := by
  have hs := (lawful_run rate commands).sound
  have hknown := (Studio.offers_of_node hs hnode).1.known
  intro inner hinner
  have hinner := hs.knows_of_reach hknown hinner
  exact ⟨hinner, (hs.formed hinner).opened⟩

-- A start reaches every source once. When a node has been started, each host has logged one start for
-- every source that the node reaches and that was not started before, in the order in which they are
-- first met, all at the time of the start, and no other start.
theorem reaches_sources_once (rate : Float) (commands : List Command) (id : NodeId) (node : Node)
    (time : Float) (t : Studio) (hnode : (run rate commands).studio.node? id = some node)
    (hstart : node.start time (run rate commands).studio = .ok () t) (c : ContextId) :
    (t.engine c).starts = ((run rate commands).studio.engine c).starts ++
      (((run rate commands).studio.unstarted node.visits).filter (·.context = c)).map
        fun source => (source.host, time) :=
  (Act.ends_of_ok hstart (Node.visited_start (holds_of_node hnode))).2.starts c

-- A tone whose frequency follows another, mixed with itself and with the other.
def vibrato : List Command := [
  .make 0 (.oscillator .sine (.fixed 5) none),
  .make 0 (.oscillator .sine (.node 0) none),
  .make 0 (.parallel 1 [1, 0])]

theorem vibrato_reached : ∃ node t, (run 44100 vibrato).studio.node? 2 = some node ∧
    node.start 0.5 (run 44100 vibrato).studio = .ok () t ∧
    (t.engine 0).starts = [(2, 0.5), (1, 0.5)] := by
  have hsome : ((run 44100 vibrato).studio.node? 2).isSome = true := by decide +kernel
  obtain ⟨node, hnode⟩ := Option.isSome_iff_exists.1 hsome
  have hfacts : ∀ node ∈ (run 44100 vibrato).studio.node? 2,
      ((run 44100 vibrato).studio.engine 0).starts.isEmpty = true ∧
      (run 44100 vibrato).studio.unstarted node.visits = [⟨1, 0, 2⟩, ⟨0, 0, 1⟩] ∧
      (node.start 0.5).succeeds (run 44100 vibrato).studio = true := by
    decide +kernel
  obtain ⟨hempty, hvisits, hstart⟩ := hfacts node hnode
  obtain ⟨⟨⟩, t, hstart⟩ := Act.ok_of_succeeds hstart
  refine ⟨node, t, hnode, hstart, ?_⟩
  rw [reaches_sources_once 44100 vibrato 2 node 0.5 t hnode hstart 0, hvisits,
    List.isEmpty_iff.1 hempty]
  rfl

end Session

end Patchbay
