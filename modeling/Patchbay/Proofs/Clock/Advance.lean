import Patchbay.Proofs.Observers.Delivery

namespace Patchbay

open Act

namespace HostNode

variable {node : HostNode} {start limit now time : Float}

-- What can end it once it was started: its stop, and the end of its audio.
def limits (node : HostNode) (start : Float) : List Float :=
  node.stopAt.toList ++ ((node.kind.bind NodeKind.naturalLength).map (start + ·)).toList

-- It ends by the first of these.
theorem limit_of_endTime (h : node.endTime = some time) : ∃ start, node.startedAt = some start ∧
    time ∈ node.limits start ∧ ∀ limit ∈ node.limits start, ¬limit < time := by
  have hself (x : Float) : ¬x < x := fun h => Time.not_lt_of_lt h h
  unfold endTime at h
  cases hstart : node.startedAt with
  | none => simp [hstart] at h
  | some start =>
      refine ⟨start, rfl, ?_⟩
      cases hstop : node.stopAt with
      | none =>
          cases hlength : node.kind.bind NodeKind.naturalLength with
          | none => simp [hstart, hstop, hlength] at h
          | some length =>
              simp only [hstart, hstop, hlength, Option.some.injEq] at h
              simp [limits, hstop, hlength, ← h, hself]
      | some stop =>
          cases hlength : node.kind.bind NodeKind.naturalLength with
          | none =>
              simp only [hstart, hstop, hlength, Option.some.injEq] at h
              simp [limits, hstop, hlength, ← h, hself]
          | some length =>
              simp only [hstart, hstop, hlength, Option.some.injEq] at h
              have hfirst := Time.not_lt_earlier stop (start + length)
              simpa [limits, hstop, hlength, ← h, hfirst] using Time.earlier_eq stop (start + length)

theorem endTime_le (hstart : node.startedAt = some start) (hlimit : limit ∈ node.limits start)
    (hle : limit ≤ now) : ∃ time, node.endTime = some time ∧ time ≤ now := by
  unfold endTime
  cases hstop : node.stopAt <;> cases hlength : node.kind.bind NodeKind.naturalLength <;>
    simp only [limits, hstart, hstop, hlength, Option.toList_none, Option.toList_some,
      Option.map_none, Option.map_some, List.nil_append, List.append_nil, List.cons_append,
      List.mem_cons, List.not_mem_nil, or_false] at hlimit ⊢
  case none.some => exact ⟨_, rfl, hlimit ▸ hle⟩
  case some.none => exact ⟨_, rfl, hlimit ▸ hle⟩
  case some.some =>
      refine ⟨_, rfl, Time.earlier_le ?_⟩
      rcases hlimit with rfl | rfl
      · exact .inl hle
      · exact .inr hle

theorem due_eq_some : node.due now = some time ↔
    node.isSource = true ∧ node.ended = false ∧ node.endTime = some time ∧ time ≤ now := by
  unfold due
  split
  case isTrue h => simp_all [Option.filter_eq_some_iff]
  case isFalse h => simp_all

-- An end that has come is at a time.
theorem number_of_due (h : node.due now = some time) : time.isNaN = false :=
  (Time.numbers_of_le (due_eq_some.1 h).2.2.2).1

end HostNode

namespace Engine

variable {engine : Engine}

namespace Ending

def spot (ending : Ending) : Int × Int × Int := (Time.place ending.time).getD (0, 0, 0)

-- By time, then by sign, then by host.
abbrev order : Ending → Ending → Ordering :=
  compareLex
    (compareLex (compareOn fun ending => ending.spot.1)
      (compareLex (compareOn fun ending => ending.spot.2.1) (compareOn fun ending => ending.spot.2.2)))
    (compareLex (compareOn fun ending => Time.sign ending.time) (compareOn host))

theorem order_eq {a b : Ending} {x y : Int × Int × Int} (hx : Time.place a.time = some x)
    (hy : Time.place b.time = some y) : order a b = (Time.order x y).then
      ((compare (Time.sign a.time) (Time.sign b.time)).then (compare a.host b.host)) := by
  change (Time.order a.spot b.spot).then _ = _
  rw [spot, spot, hx, hy]
  rfl

theorem before_eq {a b : Ending} (ha : a.time.isNaN = false) (hb : b.time.isNaN = false) :
    a.before b = (order a b).isLE := by
  rw [Time.isNaN_eq, Option.isNone_eq_false_iff, Option.isSome_iff_exists] at ha hb
  obtain ⟨x, hx⟩ := ha
  obtain ⟨y, hy⟩ := hb
  let o := (Time.order x y).then (compare (Time.sign a.time) (Time.sign b.time))
  have hback : (Time.order y x).then (compare (Time.sign b.time) (Time.sign a.time)) = o.swap := by
    rw [Ordering.swap_then, ← Std.OrientedCmp.eq_swap, ← Std.OrientedCmp.eq_swap]
  have hab : Time.precedes a.time b.time = (o == .lt) := by
    rw [Bool.eq_iff_iff, Time.precedes_iff hx hy, beq_iff_eq]
  have hba : Time.precedes b.time a.time = (o == .gt) := by
    rw [Bool.eq_iff_iff, Time.precedes_iff hy hx, hback, Ordering.swap_eq_lt, beq_iff_eq]
  rw [order_eq hx hy, ← Ordering.then_assoc, before, hab, hba]
  change _ = (o.then (compare a.host b.host)).isLE
  cases o with
  | lt => rfl
  | gt => rfl
  | eq =>
      change decide (a.host ≤ b.host) = (compare a.host b.host).isLE
      rw [Bool.eq_iff_iff, decide_eq_true_iff]
      exact Nat.isLE_compare.symm

-- The earlier end comes first, of two zeros the negative one, and of two ends at once the older host.
def Precedes (a b : Ending) : Prop :=
  a.time < b.time ∨ (a.time == b.time) = true ∧ (Time.sign a.time < Time.sign b.time ∨
    Time.sign a.time = Time.sign b.time ∧ a.host < b.host)

theorem precedes_of_order {a b : Ending} (ha : a.time.isNaN = false) (hb : b.time.isNaN = false)
    (h : (order a b).isLE = true) (hne : a.host ≠ b.host) : a.Precedes b := by
  rw [Time.isNaN_eq, Option.isNone_eq_false_iff, Option.isSome_iff_exists] at ha hb
  obtain ⟨x, hx⟩ := ha
  obtain ⟨y, hy⟩ := hb
  rw [order_eq hx hy] at h
  cases hxy : Time.order x y with
  | lt => exact .inl ((Time.lt_iff_order hx hy).2 hxy)
  | gt => simp [hxy] at h
  | eq =>
      refine .inr ⟨(Time.beq_iff_order hx hy).2 hxy, ?_⟩
      cases hsign : compare (Time.sign a.time) (Time.sign b.time) with
      | lt => exact .inl (Nat.compare_eq_lt.1 hsign)
      | gt => simp [hxy, hsign] at h
      | eq =>
          rw [hxy, hsign] at h
          exact .inr ⟨Nat.compare_eq_eq.1 hsign, Nat.lt_of_le_of_ne (Nat.isLE_compare.1 h) hne⟩

end Ending

theorem pairwise_endDue : engine.endDue.1.Pairwise Ending.Precedes := by
  have hnumber (ending : Ending) (h : ending ∈ engine.endings) : ending.time.isNaN = false := by
    obtain ⟨node, -, hdue, -⟩ := mem_endings.1 h
    exact HostNode.number_of_due hdue
  have hsort : engine.endDue.1 = engine.endings.mergeSort fun a b => (Ending.order a b).isLE := by
    have hmap := List.map_mergeSort (f := id) (r := Ending.before) (l := engine.endings)
      (s := fun a b => (Ending.order a b).isLE) fun a ha b hb =>
        Ending.before_eq (hnumber a ha) (hnumber b hb)
    rwa [List.map_id, List.map_id] at hmap
  have hsorted : engine.endDue.1.Pairwise fun a b => (Ending.order a b).isLE = true := by
    rw [hsort]
    refine List.pairwise_mergeSort (fun a b c => Std.TransCmp.isLE_trans) (fun a b => ?_) _
    rw [Bool.or_eq_true]
    refine Decidable.or_iff_not_imp_left.2 fun hab => Std.OrientedCmp.isLE_of_isGE ?_
    rw [Ordering.isLE_iff_ne_gt, not_not] at hab
    rw [hab]
    rfl
  have hdistinct := List.pairwise_map.1 engine.nodup_endDue
  refine (hsorted.and hdistinct).imp_of_mem fun {a b} ha hb h => ?_
  exact Ending.precedes_of_order (hnumber a (List.mem_mergeSort.1 ha))
    (hnumber b (List.mem_mergeSort.1 hb)) h.1 h.2

theorem getElem?_endDue (host : HostId) : engine.endDue.2.nodes[host]? =
    (engine.nodes[host]?).map fun node =>
      if host ∈ engine.endDue.1.map Ending.host then { node with ended := true, watchers := [] }
      else node := by
  have hnodes : engine.endDue.2.nodes[host]? = (engine.nodes[host]?).map fun node =>
      if (node.due engine.now).isSome then { node with ended := true, watchers := [] } else node :=
    Array.getElem?_map
  rw [hnodes]
  refine Option.map_congr fun node hnode => ?_
  have hdue : (node.due engine.now).isSome = true ↔ host ∈ engine.endDue.1.map Ending.host := by
    rw [mem_hosts_endDue, hnode, Option.isSome_iff_exists]
    simp
  simp only [hdue]

-- What was due has ended, so nothing is due any more.
theorem endDue_endDue : engine.endDue.2.endDue.1 = [] := by
  refine List.eq_nil_iff_forall_not_mem.2 fun ending h => ?_
  obtain ⟨after, hafter, hdue, -⟩ := mem_endDue.1 h
  rw [getElem?_endDue, Option.map_eq_some_iff] at hafter
  obtain ⟨node, hnode, rfl⟩ := hafter
  split at hdue
  case isTrue => simp [HostNode.due_eq_some] at hdue
  case isFalse hquiet => exact hquiet (mem_hosts_endDue.2 ⟨node, ending.time, hnode, hdue⟩)

theorem endDue_of_quiet (h : engine.endDue.1 = []) : engine.endDue.2 = engine := by
  have hnodes : engine.endDue.2.nodes = engine.nodes := by
    refine Array.ext_getElem? fun host => ?_
    rw [getElem?_endDue, h]
    simp
  change { engine with nodes := engine.endDue.2.nodes } = engine
  rw [hnodes]

-- What an advance of the clock comes to: the sources that end by it, in order, each with whoever
-- watches it.
structure Reaches (engine : Engine) (time : Float) (ends : List Ending) (after : Engine) : Prop where
  -- Of the present and the time it is the later; what is not a number gives way.
  clock : after.now = engine.now ∨ after.now = time
  present : engine.now.isNaN = false → engine.now ≤ after.now
  reached : time.isNaN = false → time ≤ after.now
  -- Just what was started and not ended has ended, if its stop or the end of its audio has come.
  ended : ∀ host, host ∈ ends.map Ending.host ↔ ∃ node start limit,
    engine.nodes[host]? = some node ∧ node.isSource = true ∧ node.ended = false ∧
      node.startedAt = some start ∧ limit ∈ node.limits start ∧ limit ≤ after.now
  -- The earlier of these is when it ended.
  first : ∀ ending ∈ ends, ∃ node start, engine.nodes[ending.host]? = some node ∧
    node.startedAt = some start ∧ ending.time ∈ node.limits start ∧
    (∀ limit ∈ node.limits start, ¬limit < ending.time) ∧ ending.watchers = node.watchers
  ordered : ends.Pairwise Ending.Precedes
  distinct : (ends.map Ending.host).Nodup
  nodes : ∀ host, after.nodes[host]? = (engine.nodes[host]?).map fun node =>
    if host ∈ ends.map Ending.host then { node with ended := true, watchers := [] } else node
  calls : after.calls = engine.calls
  rate : after.rate = engine.rate

theorem reaches (engine : Engine) (time : Float) :
    engine.Reaches time (engine.advance time).endDue.1 (engine.advance time).endDue.2 where
  clock := Time.later_eq engine.now time
  present := Time.now_le_later time
  reached h := Time.le_later engine.now (Time.le_self h)
  ended host := by
    rw [mem_hosts_endDue]
    constructor
    · rintro ⟨node, last, hnode, hdue⟩
      obtain ⟨hsource, hlive, hend, hle⟩ := HostNode.due_eq_some.1 hdue
      obtain ⟨start, hstart, hlimit, -⟩ := HostNode.limit_of_endTime hend
      exact ⟨node, start, last, hnode, hsource, hlive, hstart, hlimit, hle⟩
    · rintro ⟨node, start, limit, hnode, hsource, hlive, hstart, hlimit, hle⟩
      obtain ⟨last, hend, hlast⟩ := HostNode.endTime_le hstart hlimit hle
      exact ⟨node, last, hnode, HostNode.due_eq_some.2 ⟨hsource, hlive, hend, hlast⟩⟩
  first ending h := by
    obtain ⟨node, hnode, hdue, hwatchers⟩ := mem_endDue.1 h
    obtain ⟨-, -, hend, -⟩ := HostNode.due_eq_some.1 hdue
    obtain ⟨start, hstart, hlimit, hfirst⟩ := HostNode.limit_of_endTime hend
    exact ⟨node, start, hnode, hstart, hlimit, hfirst, hwatchers.symm⟩
  ordered := pairwise_endDue
  distinct := nodup_endDue
  nodes := getElem?_endDue
  calls := rfl
  rate := rfl

end Engine

section Unfailing

variable {emit : Instrument.Emit}

namespace Node

theorem unfailing_tellEnd (node : Node) (tag : String) (reply : Reply Node) {callBack : Act Unit}
    (h : Unfailing callBack) : Unfailing (tellEnd node tag reply callBack) := by
  refine unfailing_bind (unfailing_modify _) fun _ => unfailing_read fun _ => ?_
  split
  · exact h
  · exact unfailing_modify _

theorem unfailing_answer (tag : String) (reply : Reply Node) : Unfailing (answer tag reply) := by
  induction reply generalizing tag with
  | done => exact unfailing_pure _
  | stop node next ih =>
      exact unfailing_bind (unfailing_catch fun _ => unfailing_modify _) fun _ => ih tag
  | ask node other reply next ihReply ihNext =>
      refine unfailing_bind (unfailing_tellEnd node other reply ?_) fun _ => ihNext tag
      exact unfailing_bind (unfailing_modify _) fun _ => ihReply other

theorem unfailing_ending (hremove : ∀ k id, Unfailing (Instrument.remove emit k id)) (bound : Nat)
    (id : NodeId) : Unfailing (ending emit bound id) := by
  induction bound generalizing id with
  | zero => exact unfailing_pure _
  | succ bound ih =>
      refine unfailing_read fun studio => ?_
      split
      case h_1 => exact unfailing_pure _
      case h_2 state _ =>
          split
          case isTrue => exact unfailing_pure _
          case isFalse =>
              refine unfailing_bind (unfailing_modify _) fun _ => unfailing_forM (fun listener => ?_) _
              cases listener with
              | whole whole =>
                  refine unfailing_bind ?_ fun last => ?_
                  · exact unfailing_bind (unfailing_modify _) fun _ =>
                      unfailing_read fun _ => unfailing_pure _
                  · cases last
                    · exact unfailing_pure _
                    · exact ih whole
              | voice k i => exact hremove k i
              | caller tag reply =>
                  exact unfailing_bind (unfailing_modify _) fun _ => unfailing_answer tag reply

end Node

theorem unfailing_notify (depth : Nat) (watcher : Watcher) :
    Unfailing (notify (Instrument.emitAt depth) watcher) := by
  cases watcher with
  | node id =>
      refine unfailing_read fun _ => Node.unfailing_ending (fun k i => ?_) _ id
      exact Instrument.unfailing_remove k depth i
  | tag tag => exact unfailing_modify _

end Unfailing

-- The callbacks of what is due, in the order in which they run.
def Studio.callBacks (s : Studio) (context : ContextId) : List Watcher :=
  (s.engine context).endDue.1.flatMap Engine.Ending.watchers

namespace Act

-- Run in turn, none of the callbacks touches the host.
def Spares (emit : Instrument.Emit) (context : ContextId) : List Watcher → Studio → Prop
  | [], _ => True
  | watcher :: rest, s =>
    ((notify emit watcher).after s).engine context = s.engine context ∧
      Spares emit context rest ((notify emit watcher).after s)

section Settle

variable {s : Studio} {emit : Instrument.Emit} {context : ContextId}

theorem run_of_spares {depth : Nat} {watchers : List Watcher}
    (h : Spares (Instrument.emitAt depth) context watchers s) :
    ∃ t, watchers.forM (notify (Instrument.emitAt depth)) s = .ok () t ∧
      t.engine context = s.engine context := by
  induction watchers generalizing s with
  | nil => exact ⟨s, rfl, rfl⟩
  | cons watcher rest ih =>
      obtain ⟨⟨⟩, t, hact, -⟩ := exists_of_ends (unfailing_notify depth watcher s)
      obtain ⟨hsame, hrest⟩ := h
      rw [after_of_ok hact] at hsame hrest
      obtain ⟨u, hrun, hsame'⟩ := ih hrest
      exact ⟨u, (run_bind hact).trans hrun, hsame'.trans hsame⟩

theorem settle_eq (rounds : Nat) : settle emit context (rounds + 1) s =
    if (s.engine context).endDue.1 = [] then .ok () s
    else (do (s.callBacks context).forM (notify emit); settle emit context rounds)
      (s.round context) := by
  have hread : settle emit context (rounds + 1) s =
      (if (s.engine context).endDue.1.isEmpty = true then pure () else do
        setEngine context (s.engine context).endDue.2
        (s.engine context).endDue.1.forM fun ending => ending.watchers.forM (notify emit)
        settle emit context rounds : Act Unit) s := rfl
  rw [hread, Studio.callBacks, forM_flatMap]
  by_cases h : (s.engine context).endDue.1 = []
  · rw [if_pos h, if_pos (List.isEmpty_iff.2 h)]
    rfl
  · rw [if_neg h, if_neg (mt List.isEmpty_iff.1 h)]
    rfl

theorem settle_quiet (h : (s.engine context).endDue.1 = []) (rounds : Nat) :
    settle emit context (rounds + 1) s = .ok () s := by
  rw [settle_eq, if_pos h]

theorem settle_due (h : (s.engine context).endDue.1 ≠ []) (rounds : Nat) :
    settle emit context (rounds + 1) s =
      (do (s.callBacks context).forM (notify emit); settle emit context rounds) (s.round context) := by
  rw [settle_eq, if_neg h]

-- Who only listens leaves the host alone.
theorem spares_tags {watchers : List Watcher} (h : ∀ watcher ∈ watchers, ∃ tag, watcher = .tag tag) :
    Spares emit context watchers s := by
  induction watchers generalizing s with
  | nil => trivial
  | cons watcher rest ih =>
      obtain ⟨hwatcher, hrest⟩ := List.forall_mem_cons.1 h
      obtain ⟨tag, rfl⟩ := hwatcher
      exact ⟨rfl, ih hrest⟩

end Settle

end Act

namespace Studio

variable {s : Studio} {context : ContextId}

theorem engine_round (hopen : context < s.engines.size) :
    (s.round context).engine context = (s.engine context).endDue.2 := by
  rw [round, s.engine_setEngine, if_pos ⟨rfl, hopen⟩]

theorem engine_advanced (hopen : context < s.engines.size) (time : Float) :
    (s.advanced context time).engine context = (s.engine context).advance time := by
  rw [advanced, s.engine_setEngine, if_pos ⟨rfl, hopen⟩]

theorem round_advanced (hopen : context < s.engines.size) (time : Float) :
    (s.advanced context time).round context = { s with
      engines := s.engines.modify context fun _ => ((s.engine context).advance time).endDue.2 } := by
  have hmodify (before after : Engine) : (s.engines.modify context fun _ => before).modify context
      (fun _ => after) = s.engines.modify context fun _ => after := by
    refine Array.ext_getElem? fun c => ?_
    simp only [Array.getElem?_modify]
    split
    · cases s.engines[c]? <;> rfl
    · rfl
  rw [round, engine_advanced hopen, advanced, hmodify]

theorem round_of_quiet (hopen : context < s.engines.size) (h : (s.engine context).endDue.1 = []) :
    s.round context = s := by
  have hengines : s.engines.modify context (fun _ => s.engine context) = s.engines := by
    refine Array.ext_getElem? fun c => ?_
    rw [Array.getElem?_modify]
    split
    case isTrue hc =>
        subst hc
        rw [engine, Array.getElem?_eq_getElem hopen]
        rfl
    case isFalse => rfl
  rw [round, Engine.endDue_of_quiet h, hengines]

end Studio

-- The callbacks of what ends by then leave the host alone.
def Studio.Undisturbed (s : Studio) (context : ContextId) (time : Float) : Prop :=
  Spares (Instrument.emitAt s.credit) context ((s.advanced context time).callBacks context)
    ((s.advanced context time).round context)

-- As where they are those of listeners only.
theorem Studio.undisturbed_of_tags {s : Studio} {context : ContextId} (time : Float)
    (hopen : context < s.engines.size)
    (h : ∀ node ∈ (s.engine context).nodes, ∀ watcher ∈ node.watchers, watcher.node? = none) :
    s.Undisturbed context time := by
  refine spares_tags fun watcher hwatcher => ?_
  obtain ⟨ending, hending, hmem⟩ := List.mem_flatMap.1 hwatcher
  rw [engine_advanced hopen] at hending
  obtain ⟨node, hnode, -, hwatchers⟩ := Engine.mem_endDue.1 hending
  rw [← hwatchers] at hmem
  cases watcher with
  | tag tag => exact ⟨tag, rfl⟩
  | node id => cases h node (Array.mem_of_getElem? hnode) _ hmem

-- They run once each, and that is all.
theorem Act.run_advanceTo {s : Studio} {context : ContextId} (hopen : context < s.engines.size)
    (time : Float) (hcalm : s.Undisturbed context time) :
    let ends := ((s.engine context).advance time).endDue
    ∃ t, advanceTo context time s = .ok () t ∧ t.engine context = ends.2 ∧
      (ends.1.flatMap Engine.Ending.watchers).forM (notify (Instrument.emitAt s.credit))
        { s with engines := s.engines.modify context fun _ => ends.2 } = .ok () t := by
  let moved := s.advanced context time
  have hmoved : context < moved.engines.size := by simpa [moved, Studio.advanced] using hopen
  have hends : (moved.engine context).endDue = ((s.engine context).advance time).endDue := by
    rw [Studio.engine_advanced hopen]
  have hstart : advanceTo context time s =
    settle (Instrument.emitAt s.credit) context (moved.roundsAhead + 2) moved := rfl
  obtain ⟨t, hrun, hsame⟩ := run_of_spares hcalm
  rw [Studio.engine_round hmoved, hends] at hsame
  refine ⟨t, ?_, hsame, ?_⟩
  · rw [hstart]
    by_cases hdue : (moved.engine context).endDue.1 = []
    · rw [settle_quiet hdue]
      rw [Studio.callBacks, hdue, Studio.round_of_quiet hmoved hdue] at hrun
      exact hrun
    · have hquiet : (t.engine context).endDue.1 = [] := by rw [hsame, Engine.endDue_endDue]
      rw [settle_due hdue, run_bind hrun, settle_quiet hquiet]
  · rw [Studio.round_advanced hopen, Studio.callBacks, hends] at hrun
    exact hrun

end Patchbay
