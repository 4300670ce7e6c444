import Patchbay.Proofs.Voices.Departure

namespace Patchbay

open Act

variable {N : Nat} {s : Studio}

theorem Studio.ledger_called (s : Studio) (tag : String) :
    ({ s with heard := s.heard.push (.nodeEnded tag) } : Studio).ledger = s.ledger.call tag := by
  ext1
  case called => simp [ledger, Ledger.call, Notice.called?]
  all_goals rfl

namespace Node

-- Who asks about a node that has ended is told at once.
theorem settles_tellEnd {node : Node} {tag : String} {reply : Reply Node} {callBack : Act Unit}
    (hnode : s.ledger.Knows node) (hreply : reply.Known s.ledger)
    (hcall : ∀ t, s.ledger.Grows t.ledger →
      Settles N [.tell node.id (.caller tag reply)] callBack t) :
    Settles N [] (tellEnd node tag reply callBack) s := by
  let t : Studio := { s with asked := s.asked ++ [(node.id, tag)] }
  have ht : t.ledger = s.ledger.ask node.id tag := rfl
  unfold Settles tellEnd
  simp only [ends_bind, ends_modify, ends_get]
  change Ends (if (node.state t).ended = true then _ else _) t _ _
  rw [node.state_ended, ht]
  cases hlive : (s.ledger.fate node.id).ended with
  | false =>
      have hlisten := t.ledger_changeNode (Studio.lt_of_knows hnode)
        (g := .listen (.caller tag reply))
        (f := fun state => { state with listeners := state.listeners ++ [.caller tag reply] })
        fun _ => rfl
      rw [if_neg (by simpa [Ledger.ask] using hlive), changeNode, ends_modify]
      refine .single fun D P => ?_
      rw [hlisten, ht]
      exact .ask node tag reply hnode hreply hlive
  | true =>
      rw [if_pos (by simpa [Ledger.ask] using hlive)]
      refine (hcall t (ht ▸ s.ledger.grows_ask node.id tag)).mono (fun _ u hu => ?_) fun _ _ h => h
      exact .move (fun D P => .askEnded node tag reply hnode hlive) hu

theorem settles_called (id : NodeId) (tag : String) (reply : Reply Node) {next : Act Unit}
    (hnext : ∀ t, s.ledger.Grows t.ledger → Settles N [] next t) :
    Settles N [.tell id (.caller tag reply)] (do hear (.nodeEnded tag); next) s := by
  refine settles_move (fun D P => ?_) (hnext _ ?_)
  · rw [s.ledger_called]
    exact .call id tag reply
  · rw [s.ledger_called]
    exact s.ledger.grows_call tag

-- Whatever a caller does in answer, and whoever is told of it in turn.
theorem settles_answer {reply : Reply Node} (tag : String) (hreply : reply.Known s.ledger) :
    Settles N [] (answer tag reply) s := by
  induction reply generalizing s tag with
  | done => exact settles_pure _
  | stop node next ih =>
      have hstop : Settles N [] (tryCatch (do node.stop (← Act.now node.context))
          fun e => hear (.failed tag (some e))) s := by
        refine settles_try ?_ fun e u => settles_hear rfl
        exact along_bind (keeps_now _ s) fun time t _ _ => keeps_stop node time t
      exact settles_bind hstop fun _ t hst => ih tag (hreply.2.grow hst.grows)
  | ask node other reply next ihReply ihNext =>
      obtain ⟨hnode, hthen, hnext⟩ := hreply
      have htold : Settles N [] (tellEnd node other reply do
          hear (.nodeEnded other)
          answer other reply) s := by
        refine settles_tellEnd hnode hthen fun t hst => settles_called node.id other reply ?_
        intro u htu
        exact ihReply other (hthen.grow (hst.trans htu))
      exact settles_bind htold fun _ t hst => ihNext tag (hnext.grow hst.grows)

theorem settles_callBack (id : NodeId) (tag : String) {reply : Reply Node}
    (hreply : reply.Known s.ledger) :
    Settles N [.tell id (.caller tag reply)] (callBack tag reply) s :=
  settles_called id tag reply fun _ hst => settles_answer tag (hreply.grow hst)

theorem settles_onEnded {node : Node} {reply : Reply Node} (tag : String)
    (hnode : s.ledger.Knows node) (hreply : reply.Known s.ledger) :
    Settles N [] (node.onEnded tag reply) s :=
  settles_tellEnd hnode hreply fun _ hst => settles_callBack node.id tag (hreply.grow hst)

-- The last of its members brings about the end of a whole.
theorem settles_memberEnded {member whole : NodeId} {last : Act Unit} (hwhole : whole < s.nodes.size)
    (hlast : ∀ t, s.ledger.Grows t.ledger → t.ledger.Sound N → Settles N [.finish whole] last t)
    (hs : s.ledger.Sound N) :
    Settles N [.tell member (.whole whole)] (do if ← memberEnded whole member then last) s := by
  let t : Studio := { s with nodes := s.nodes.modify whole fun state =>
    { state with awaiting := state.awaiting.erase member } }
  have ht : t.ledger = s.ledger.setFate whole (.miss member) :=
    s.ledger_changeNode hwhole (f := fun state =>
      { state with awaiting := state.awaiting.erase member }) fun _ => rfl
  have hgrows : s.ledger.Grows t.ledger := ht ▸ s.ledger.grows_setFate whole (Fate.grows_miss _ _)
  have hsound : t.ledger.Sound N := ht ▸ hs.setFate whole (Fate.grows_miss _ _) rfl fun _ => .inl
  have hempty : (t.nodes[whole]?).any (·.awaiting.isEmpty) =
      ((s.ledger.fate whole).awaiting.erase member).isEmpty := by
    have hat : s.nodes[whole]? = some s.nodes[whole] := Array.getElem?_eq_getElem hwhole
    simp [t, Studio.ledger, Array.getElem?_modify, hat, NodeState.fate]
  have hmove (D : List Debt) (P : Past) : Move N ⟨s.ledger, .tell member (.whole whole) :: D, P⟩
      ⟨t.ledger, if (s.ledger.fate whole).awaiting.erase member = [] then .finish whole :: D else D,
        P⟩ := ht ▸ .member member whole
  unfold Settles memberEnded
  simp only [changeNode, ends_bind, ends_modify, ends_get, ends_pure]
  change Ends (if (t.nodes[whole]?).any (·.awaiting.isEmpty) = true then _ else _) t _ _
  rw [hempty]
  by_cases hnil : (s.ledger.fate whole).awaiting.erase member = []
  · rw [if_pos (by simp [hnil])]
    refine (hlast t hgrows hsound).mono (fun _ u hu => .move (fun D P => ?_) hu) fun _ _ h => h
    have h := hmove D P
    rwa [if_pos hnil] at h
  · rw [if_neg (by simpa using hnil), ends_pure]
    refine .single fun D P => ?_
    have h := hmove D P
    rwa [if_neg hnil] at h

-- Each listener in its turn. A whole comes after its member, so one bound less is enough for it.
theorem settles_listeners {emit : Instrument.Emit} (hemit : Emits N emit) {bound : Nat} {id : NodeId}
    {listeners : List Listener} (hs : s.ledger.Sound N) (hid : id < N) (hbound : N ≤ id + (bound + 1))
    (heeds : ∀ listener ∈ listeners, s.ledger.Heeds N id listener)
    (hending : ∀ whole t, t.ledger.Sound N → whole < N → N ≤ whole + bound →
      Settles N [.finish whole] (ending emit bound whole) t) :
    Settles N (listeners.map (.tell id)) (listeners.forM fun
      | .whole whole => do
        if ← memberEnded whole id then ending emit bound whole
      | .voice inst voice => Instrument.remove emit inst voice
      | .caller tag reply => callBack tag reply) s := by
  rw [List.map_eq_flatMap]
  refine settles_forM hs fun listener hlistener t hst ht => ?_
  have hheeds := (heeds listener hlistener).grow hst
  cases listener with
  | whole whole =>
      have hbound : N ≤ whole + bound := by
        have hafter := hheeds.after
        simp only [NodeId] at hafter
        omega
      exact settles_memberEnded hheeds.below
        (fun u _ hu => hending whole u hu (hheeds.within hid) hbound) ht
  | voice k i => exact settles_remove ht hemit id k i
  | caller tag reply => exact settles_callBack id tag hheeds

-- A whole has a greater number than its members, so the bound is never used up.
theorem settles_ending {emit : Instrument.Emit} (hemit : Emits N emit) {bound : Nat} {id : NodeId}
    (hs : s.ledger.Sound N) (hid : id < N) (hbound : N ≤ id + bound) :
    Settles N [.finish id] (ending emit bound id) s := by
  induction bound generalizing s id with
  | zero => exact absurd hid (Nat.not_lt.2 hbound)
  | succ bound ih =>
      have hread : (s.ledger.fate id) = (s.nodes[id]?).elim .absent NodeState.fate := rfl
      rw [ending]
      refine settles_read ?_
      cases hstate : s.nodes[id]? with
      | none =>
          rw [hstate] at hread
          refine settles_pure_move fun D P => .finished id (.inl ?_)
          rw [hread]
          rfl
      | some state =>
          rw [hstate] at hread
          dsimp only
          split
          case isTrue hended =>
              refine settles_pure_move fun D P => .finished id (.inr ?_)
              rw [hread]
              exact hended
          case isFalse hended =>
              have hnode : (s.ledger.fate id).node = some state.node := by rw [hread]; rfl
              have hlive : (s.ledger.fate id).ended = false := by
                rw [hread]
                exact Bool.not_eq_true _ ▸ hended
              have hlisteners : (s.ledger.fate id).listeners = state.listeners := by rw [hread]; rfl
              have hclose := s.ledger_changeNode (g := .close) (Array.getElem?_eq_some_iff.1 hstate).1
                (f := fun state => { state with ended := true, listeners := [] }) fun _ => rfl
              have hgrows := s.ledger.grows_setFate id (Fate.grows_close _)
              have hsound : (s.ledger.setFate id .close).Sound N :=
                hs.setFate id (Fate.grows_close _) rfl (by simp [Fate.close])
              have hheeds (listener : Listener) (hlistener : listener ∈ state.listeners) :
                  (s.ledger.setFate id .close).Heeds N id listener :=
                (hs.listener id listener (hlisteners ▸ hlistener)).grow hgrows
              rw [← hclose] at hsound hheeds
              have hrest := settles_listeners hemit hsound hid hbound hheeds
                fun whole t ht hwhole hleft => ih ht hwhole hleft
              refine settles_move (fun D P => ?_) hrest
              rw [hclose, ← hlisteners]
              exact .finish id state.node hnode hlive

end Node

namespace Engine

variable {engine : Engine}

theorem mem_endings {ending : Ending} : ending ∈ engine.endings ↔
    ∃ node, engine.nodes[ending.host]? = some node ∧ node.due engine.now = some ending.time ∧
      node.watchers = ending.watchers := by
  obtain ⟨time, host, watchers⟩ := ending
  simp only [endings, List.mem_filterMap, Prod.exists, Option.map_eq_some_iff, Ending.mk.injEq]
  constructor
  · rintro ⟨node, index, hmem, time', hdue, rfl, rfl, rfl⟩
    exact ⟨node, by simpa using List.mem_zipIdx_iff_getElem?.1 hmem, hdue, rfl⟩
  · rintro ⟨node, hnode, hdue, rfl⟩
    exact ⟨node, host, List.mem_zipIdx_iff_getElem?.2 (by simpa using hnode), time, hdue, rfl, rfl,
      rfl⟩

theorem nodup_endings : (engine.endings.map Ending.host).Nodup := by
  have hdistinct : (engine.nodes.toList.zipIdx.map Prod.snd).Nodup := by
    rw [List.zipIdx_map_snd]
    exact List.nodup_range'
  rw [List.Nodup, List.pairwise_map] at hdistinct ⊢
  refine List.Pairwise.filterMap _ (fun entry entry' hne ending h ending' h' => ?_) hdistinct
  obtain ⟨_, _, rfl⟩ := Option.map_eq_some_iff.1 h
  obtain ⟨_, _, rfl⟩ := Option.map_eq_some_iff.1 h'
  exact hne

theorem nodup_endDue : (engine.endDue.1.map Ending.host).Nodup :=
  ((List.mergeSort_perm _ _).map _).nodup_iff.2 nodup_endings

theorem mem_endDue {ending : Ending} : ending ∈ engine.endDue.1 ↔
    ∃ node, engine.nodes[ending.host]? = some node ∧ node.due engine.now = some ending.time ∧
      node.watchers = ending.watchers :=
  List.mem_mergeSort.trans mem_endings

theorem mem_hosts_endDue {host : HostId} : host ∈ engine.endDue.1.map Ending.host ↔
    ∃ node time, engine.nodes[host]? = some node ∧ node.due engine.now = some time := by
  simp only [List.mem_map, mem_endDue]
  constructor
  · rintro ⟨ending, ⟨node, hnode, hdue, -⟩, rfl⟩
    exact ⟨node, ending.time, hnode, hdue⟩
  · rintro ⟨node, time, hnode, hdue⟩
    exact ⟨⟨time, host, node.watchers⟩, ⟨node, hnode, hdue, rfl⟩, rfl⟩

-- What is due has not ended before.
theorem live_of_due {node : HostNode} {time : Float} (h : node.due engine.now = some time) :
    node.ended = false := by
  unfold HostNode.due at h
  split at h
  case isTrue hlive => simp_all
  case isFalse => cases h

end Engine

-- The host nodes that a round ends, in the order of their ends.
def Studio.dueHosts (s : Studio) (context : ContextId) : List HostId :=
  (s.engine context).endDue.1.map Engine.Ending.host

theorem Studio.nodup_dueHosts (context : ContextId) : (s.dueHosts context).Nodup :=
  Engine.nodup_endDue

theorem Studio.mem_dueHosts {context : ContextId} {host : HostId} : host ∈ s.dueHosts context ↔
    ∃ node time, (s.engine context).nodes[host]? = some node ∧
      node.due (s.engine context).now = some time :=
  Engine.mem_hosts_endDue

theorem Studio.ledger_endDue (context : ContextId) :
    ({ s with engines := s.engines.modify context fun _ => (s.engine context).endDue.2 } :
      Studio).ledger = s.ledger.closeHosts context (s.dueHosts context) := by
  by_cases hc : context < s.engines.size
  · rw [s.ledger_setEngine hc, Ledger.closeHosts, s.host_eq hc]
    congr 1
    funext host
    simp only [Engine.hosts, Engine.endDue, Array.getElem?_map]
    cases hnode : (s.engine context).nodes[host]? with
    | none => simp
    | some node =>
        have hdue : host ∈ s.dueHosts context ↔ (node.due (s.engine context).now).isSome := by
          rw [mem_dueHosts]
          simp only [hnode, Option.isSome_iff_exists]
          constructor
          · rintro ⟨_, time, heq, h⟩
            cases heq
            exact ⟨time, h⟩
          · rintro ⟨time, h⟩
            exact ⟨node, time, rfl, h⟩
        by_cases h : (node.due (s.engine context).now).isSome
        · rw [if_pos (hdue.2 h)]
          simp only [Option.map_some, if_pos h]
          rfl
        · rw [if_neg (fun hmem => h (hdue.1 hmem))]
          simp only [Option.map_some, if_neg h]
  · have hnone : s.ledger.host context = fun _ => none := by
      simp [Studio.ledger, Array.getElem?_eq_none (Nat.not_lt.1 hc)]
    have hsame : (fun host => if host ∈ s.dueHosts context then
        (s.ledger.host context host).map HostFate.close else s.ledger.host context host) =
        s.ledger.host context := by
      funext host
      simp [hnone]
    rw [s.modify_engines hc, Ledger.closeHosts, hsame, Ledger.setHosts_self]

-- Whoever watches a host node that is due.
theorem Studio.watchers_endDue {context : ContextId} (hc : context < s.engines.size) :
    (s.engine context).endDue.1.flatMap (fun ending => ending.watchers.filterMap Watcher.node?) =
      (s.dueHosts context).flatMap (s.ledger.watching context) := by
  rw [dueHosts, List.flatMap_map]
  refine List.flatMap_congr fun ending hending => ?_
  obtain ⟨node, hnode, -, hwatchers⟩ := Engine.mem_endDue.1 hending
  simp only [Ledger.watching, s.host_eq hc, Engine.hosts, hnode, Option.map_some, Option.elim_some,
    HostNode.fate, hwatchers]

-- A context that was never opened has nothing due.
theorem Studio.opened_of_due {context : ContextId} {host : HostId}
    (h : host ∈ s.dueHosts context) : context < s.engines.size := by
  by_contra hc
  obtain ⟨node, time, hnode, hdue⟩ := mem_dueHosts.1 h
  have hengine : s.engine context = .new 0 := by
    simp [engine, Array.getElem?_eq_none (Nat.not_lt.1 hc)]
  rw [hengine] at hnode
  obtain ⟨hlt, rfl⟩ := Array.getElem?_eq_some_iff.1 hnode
  have hzero : host = 0 := Nat.lt_one_iff.1 (by simpa [Engine.new] using hlt)
  subst hzero
  simp [Engine.new, HostNode.due, HostNode.isSource, HostNode.ofKind] at hdue

theorem settles_notify {emit : Instrument.Emit} (hemit : Emits N emit) (hs : s.ledger.Sound N)
    {watcher : Watcher} (hwatcher : ∀ id, watcher = .node id → id < N) :
    Settles N (watcher.node?.toList.map .finish) (Act.notify emit watcher) s := by
  cases watcher with
  | node id =>
      unfold notify
      refine settles_read ?_
      refine Node.settles_ending hemit hs (hwatcher id rfl) ?_
      exact Nat.le_trans hs.late (Nat.le_add_left _ _)
  | tag tag => exact settles_hear rfl

theorem settles_notifyAll {emit : Instrument.Emit} (hemit : Emits N emit) (hs : s.ledger.Sound N)
    {watchers : List Watcher} (hwatchers : ∀ id, .node id ∈ watchers → id < N) :
    Settles N ((watchers.filterMap Watcher.node?).map .finish)
      (watchers.forM (Act.notify emit)) s := by
  rw [List.filterMap_eq_flatMap_toList, List.map_flatMap]
  refine settles_forM hs fun watcher hwatcher t _ ht => settles_notify hemit ht ?_
  rintro id rfl
  exact hwatchers id hwatcher

-- What is due has ended, and nobody has been told.
def Studio.round (s : Studio) (context : ContextId) : Studio :=
  { s with engines := s.engines.modify context fun _ => (s.engine context).endDue.2 }

def Studio.roundDues (s : Studio) (context : ContextId) : List Debt :=
  ((s.engine context).endDue.1.flatMap fun ending =>
    ending.watchers.filterMap Watcher.node?).map .finish

theorem move_round {context : ContextId} (hc : context < s.engines.size) (D : List Debt)
    (P : Past) : Move N ⟨s.ledger, D, P⟩ ⟨(s.round context).ledger, s.roundDues context ++ D, P⟩ := by
  rw [Studio.round, s.ledger_endDue, Studio.roundDues, s.watchers_endDue hc]
  refine .due context _ (s.nodup_dueHosts context) fun host hhost => ?_
  obtain ⟨node, time, hnode, hdue⟩ := Studio.mem_dueHosts.1 hhost
  refine ⟨node.fate, ?_, Engine.live_of_due hdue⟩
  rw [s.host_eq hc, Engine.hosts, hnode]
  rfl

theorem settles_round {emit : Instrument.Emit} (hemit : ∀ N, Emits N emit) {context : ContextId}
    (hc : context < s.engines.size) (hs : s.ledger.Sound 0) :
    Settles 0 (s.roundDues context)
      ((s.engine context).endDue.1.forM fun ending => ending.watchers.forM (notify emit))
      (s.round context) := by
  have hround : (s.round context).ledger.Sound s.ledger.size :=
    (move_round hc [] ⟨[], []⟩).sound hs.fresh
  rw [Studio.roundDues, List.map_flatMap]
  refine (settles_forM hround fun ending hending t _ ht => ?_).weaken
  refine settles_notifyAll (hemit _) ht fun id hid => ?_
  obtain ⟨node, hnode, -, hwatchers⟩ := Engine.mem_endDue.1 hending
  rw [← hwatchers] at hid
  refine hs.watcher context ending.host node.fate id ?_ hid
  rw [s.host_eq hc, Engine.hosts, hnode]
  rfl

theorem Studio.hostEnded_round {context : ContextId} {host : HostId}
    (hdue : host ∈ s.dueHosts context) : (s.round context).ledger.HostEnded context host := by
  obtain ⟨node, time, hnode, -⟩ := mem_dueHosts.1 hdue
  rw [round, s.ledger_endDue, Ledger.HostEnded, Ledger.host_closeHosts, if_pos ⟨rfl, hdue⟩,
    s.host_eq (opened_of_due hdue), Engine.hosts, hnode]
  rfl

-- The first round ends what is due; the others are for what follows from it.
theorem ends_settle {emit : Instrument.Emit} (hemit : ∀ N, Emits N emit) (context : ContextId)
    (rounds : Nat) (hs : s.ledger.Sound 0) : Ends (Act.settle emit context rounds) s
      (fun _ t => Pays 0 [] s t ∧
        (0 < rounds → ∀ host ∈ s.dueHosts context, t.ledger.HostEnded context host))
      fun _ _ => False := by
  induction rounds generalizing s with
  | zero =>
      rw [settle, ends_pure]
      exact ⟨.of_ledger rfl, fun h => absurd h (Nat.lt_irrefl 0)⟩
  | succ rounds ih =>
      have hnext {t : Studio} (ht : t.ledger.Sound 0) : Settles 0 [] (settle emit context rounds) t :=
        (ih ht).mono (fun _ _ h => h.1) fun _ _ h => h
      rw [settle]
      simp only [engine, ends_bind, ends_get, ends_pure]
      split
      case isTrue hnone =>
          rw [ends_pure]
          refine ⟨.of_ledger rfl, fun _ host hhost => ?_⟩
          rw [Studio.dueHosts, List.isEmpty_iff.1 hnone] at hhost
          cases hhost
      case isFalse hne =>
          obtain ⟨ending, hending⟩ := List.exists_mem_of_ne_nil _ (mt List.isEmpty_iff.2 hne)
          have hc := Studio.opened_of_due (List.mem_map_of_mem hending)
          have hround : (s.round context).ledger.Sound 0 := (move_round hc [] ⟨[], []⟩).sound hs
          have hrest := settles_bind (settles_round hemit hc hs) fun _ t ht =>
            hnext (ht.sound hround)
          rw [List.append_nil] at hrest
          rw [setEngine, ends_bind, ends_modify]
          refine Ends.mono hrest (fun _ t ht => ⟨.move (move_round hc) ht, fun _ host hhost => ?_⟩)
            fun _ _ h => h
          exact (Studio.hostEnded_round hhost).grow ht.grows

-- The clock has moved on, and nobody has been told.
def Studio.advanced (s : Studio) (context : ContextId) (time : Float) : Studio :=
  { s with engines := s.engines.modify context fun _ => (s.engine context).advance time }

theorem ends_advanceTo (context : ContextId) (time : Float) (hs : s.ledger.Sound 0) :
    Ends (Act.advanceTo context time) s
      (fun _ t => Pays 0 [] s t ∧ ∀ host ∈ (s.advanced context time).dueHosts context,
        t.ledger.HostEnded context host) fun _ _ => False := by
  have hquiet : (s.advanced context time).ledger = s.ledger := s.ledger_setEngine_eq context rfl
  unfold advanceTo engine setEngine Instrument.emitter
  simp only [ends_bind, ends_get, ends_pure, ends_modify]
  have hsettle := ends_settle (fun N => emits_emitAt (s.advanced context time).credit) context
    ((s.advanced context time).roundsAhead + 2) (hquiet ▸ hs)
  refine Ends.mono hsettle (fun _ t ht => ⟨?_, ht.2 (Nat.succ_pos _)⟩) fun _ _ h => h
  exact (Pays.of_ledger hquiet).trans ht.1

theorem settles_advanceTo (context : ContextId) (time : Float) (hs : s.ledger.Sound 0) :
    Settles 0 [] (Act.advanceTo context time) s :=
  (ends_advanceTo context time hs).mono (fun _ _ h => h.1) fun _ _ h => h

end Patchbay
