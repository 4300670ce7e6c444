import Patchbay.Proofs.Lifetime.StartReach

namespace Patchbay

open Act

-- Nothing has started, ended or been disconnected between them.
structure Steady (s t : Studio) : Prop where
  fate : t.ledger.fate = s.ledger.fate
  contexts : t.ledger.contexts = s.ledger.contexts
  started : ∀ id, t.started id = s.started id

namespace Steady

instance : IsPreorder Studio Steady where
  refl _ := ⟨rfl, rfl, fun _ => rfl⟩
  trans _ _ _ h h' := ⟨h'.fate.trans h.fate, h'.contexts.trans h.contexts,
    fun id => (h'.started id).trans (h.started id)⟩

theorem of_request {s : Studio} {context : ContextId} {request : Request} {engine : Engine}
    (h : request.send (s.engine context) = .ok engine) :
    Steady s { s with engines := s.engines.modify context fun _ => engine } := by
  have hledger := s.ledger_request h
  refine ⟨?_, ?_, fun _ => rfl⟩
  · rw [hledger, Ledger.fate_setHost]
  · rw [hledger, Ledger.contexts_setHost]

theorem keeps_request (context : ContextId) (request : Request) :
    Keeps Steady (Act.host context request.send) :=
  fun _ => along_host fun _ h => ⟨of_request h, trivial⟩

instance : Stops Steady where
  stop context host time := keeps_request context (.stop host time)
  schedule context host param event := keeps_request context (.schedule host param event)

theorem holds {s t : Studio} (h : Steady s t) {node : Node} (hnode : s.ledger.Holds node) :
    t.ledger.Holds node := by
  intro inner hinner
  rw [Ledger.Knows, h.fate, h.contexts]
  exact hnode inner hinner

end Steady

-- From one to the other exactly these hosts are given a time to stop.
def Stilled (P : ContextId → HostId → Prop) (s t : Studio) : Prop :=
  ∀ c, ∃ stops, (t.engine c).stops = (s.engine c).stops ++ stops ∧
    ∀ host, (∃ time, (host, time) ∈ stops) ↔ P c host

def Unstopped (s t : Studio) : Prop := ∀ c, (t.engine c).stops = (s.engine c).stops

instance : IsPreorder Studio Unstopped where
  refl _ _ := rfl
  trans _ _ _ h h' c := (h' c).trans (h c)

instance : Schedules Unstopped where
  schedule context host param event s := along_host fun engine h => by
    have hsend : (Request.schedule host param event).send (s.engine context) = .ok engine := h
    refine ⟨fun c => ?_, trivial⟩
    rw [s.engine_setEngine]
    split
    case isTrue hc =>
        obtain ⟨rfl, -⟩ := hc
        rw [Request.stops_send hsend]
        exact List.append_nil _
    case isFalse => rfl

namespace Stilled

variable {s t u : Studio} {P Q : ContextId → HostId → Prop}

theorem none (h : ∀ c host, ¬P c host) (hst : Unstopped s t) : Stilled P s t :=
  fun c => ⟨[], by rw [hst, List.append_nil], by simp [h]⟩

theorem append (h : Stilled P s t) (h' : Stilled Q t u) :
    Stilled (fun c host => P c host ∨ Q c host) s u := by
  intro c
  obtain ⟨stops, hstops, hP⟩ := h c
  obtain ⟨more, hmore, hQ⟩ := h' c
  refine ⟨stops ++ more, by rw [hmore, hstops, List.append_assoc], fun host => ?_⟩
  simp only [List.mem_append, exists_or, hP, hQ]

theorem congr (h : Stilled P s t) (hPQ : ∀ c host, P c host ↔ Q c host) : Stilled Q s t := by
  intro c
  obtain ⟨stops, hstops, hP⟩ := h c
  exact ⟨stops, hstops, fun host => (hP host).trans (hPQ c host)⟩

end Stilled

namespace Node

variable {s t : Studio} {node : Node} {nodes : List Node} {time : Float}

-- It is itself a source that has been started and is not disconnected, with this host.
structure Runs (node : Node) (s : Studio) (c : ContextId) (host : HostId) : Prop where
  context : node.context = c
  source : node.source? = some host
  started : (node.state s).started = true
  connected : (node.state s).disconnected = false

-- It reaches such a source.
def Running (node : Node) (s : Studio) (c : ContextId) (host : HostId) : Prop :=
  ∃ leaf ∈ node.reach, leaf.Runs s c host

def AnyRunning (nodes : List Node) (s : Studio) (c : ContextId) (host : HostId) : Prop :=
  ∃ node ∈ nodes, node.Running s c host

instance (s : Studio) (c : ContextId) (host : HostId) : Decidable (node.Runs s c host) :=
  decidable_of_iff (node.context = c ∧ node.source? = some host ∧ (node.state s).started = true ∧
      (node.state s).disconnected = false)
    ⟨fun ⟨hc, hsource, hs, hd⟩ => ⟨hc, hsource, hs, hd⟩,
      fun ⟨hc, hsource, hs, hd⟩ => ⟨hc, hsource, hs, hd⟩⟩

instance (s : Studio) (c : ContextId) (host : HostId) : Decidable (node.Running s c host) :=
  inferInstanceAs (Decidable (∃ leaf ∈ node.reach, leaf.Runs s c host))

theorem anyRunning_cons {c : ContextId} {host : HostId} :
    AnyRunning (node :: nodes) s c host ↔ node.Running s c host ∨ AnyRunning nodes s c host := by
  simp [AnyRunning]

theorem running_iff {c : ContextId} {host : HostId} :
    node.Running s c host ↔ node.Runs s c host ∨ AnyRunning node.parts s c host := by
  constructor
  · rintro ⟨leaf, hleaf, hruns⟩
    rcases mem_reach.1 hleaf with rfl | ⟨part, hpart, hreach⟩
    · exact .inl hruns
    · exact .inr ⟨part, hpart, leaf, hreach, hruns⟩
  · rintro (hruns | ⟨part, hpart, leaf, hreach, hruns⟩)
    · exact ⟨node, self_mem_reach node, hruns⟩
    · exact ⟨leaf, reach_trans hreach (part_mem_reach hpart), hruns⟩

theorem not_running_of_not_startable (h : ¬node.isStartable = true) (c : ContextId)
    (host : HostId) : ¬node.Running s c host := by
  rintro ⟨leaf, hleaf, hruns⟩
  exact h (isStartable_of_reach_source hleaf (Option.isSome_iff_exists.2 ⟨host, hruns.source⟩))

theorem running_congr (h : Steady s t) {c : ContextId} {host : HostId} :
    node.Running t c host ↔ node.Running s c host := by
  have hstarted (leaf : Node) : (leaf.state t).started = (leaf.state s).started := by
    rw [state_started, state_started, h.started]
  have hconnected (leaf : Node) : (leaf.state t).disconnected = (leaf.state s).disconnected := by
    rw [state_disconnected, state_disconnected, h.fate]
  have hruns (leaf : Node) : leaf.Runs t c host ↔ leaf.Runs s c host := by
    constructor
    · rintro ⟨hc, hsource, hs, hd⟩
      exact ⟨hc, hsource, hstarted leaf ▸ hs, hconnected leaf ▸ hd⟩
    · rintro ⟨hc, hsource, hs, hd⟩
      exact ⟨hc, hsource, (hstarted leaf).trans hs, (hconnected leaf).trans hd⟩
  simp only [Running, hruns]

-- With anything that it reaches, all that is reached from there is disconnected.
def Severed (node : Node) (s : Studio) : Prop :=
  ∀ inner ∈ node.reach, (s.ledger.fate inner.id).cut = true →
    ∀ leaf ∈ inner.reach, (s.ledger.fate leaf.id).cut = true

theorem Severed.part (h : node.Severed s) {part : Node} (hpart : part ∈ node.parts) :
    part.Severed s :=
  fun inner hinner => h inner (reach_trans hinner (part_mem_reach hpart))

theorem Severed.keep (h : node.Severed s) (hst : Steady s t) : node.Severed t := by
  unfold Severed
  rw [hst.fate]
  exact h

theorem Severed.not_running (h : node.Severed s) (hcut : (node.state s).disconnected = true)
    (c : ContextId) (host : HostId) : ¬node.Running s c host := by
  rintro ⟨leaf, hleaf, hruns⟩
  rw [state_disconnected] at hcut
  have hleaf := h node (self_mem_reach node) hcut leaf hleaf
  rw [← state_disconnected, hruns.connected] at hleaf
  cases hleaf

-- A source that was started has its host stopped; nothing else happens to it.
theorem stilled_stopSource {host : HostId} (hopened : node.context < s.ledger.contexts)
    (hsource : node.source? = some host) (hconnected : (node.state s).disconnected = false) :
    Along Steady (node.stopSource host time) s fun _ t => Stilled (node.Runs s) s t := by
  unfold stopSource
  refine along_read ?_
  split
  case isTrue hstarted =>
      refine along_host fun engine h => ?_
      have hsend : (Request.stop host time).send (s.engine node.context) = .ok engine := h
      refine ⟨Steady.of_request hsend, fun c => ?_⟩
      rw [s.engine_setEngine]
      by_cases hc : node.context = c
      · subst hc
        rw [if_pos ⟨rfl, hopened⟩, Request.stops_send hsend]
        refine ⟨[(host, time)], rfl, fun other => ⟨?_, ?_⟩⟩
        · rintro ⟨at', hat⟩
          cases List.mem_singleton.1 hat
          exact ⟨rfl, hsource, hstarted, hconnected⟩
        · rintro ⟨-, hother, -, -⟩
          obtain rfl := Option.some_inj.1 (hsource.symm.trans hother)
          exact ⟨time, List.mem_singleton.2 rfl⟩
      · refine ⟨[], by simp [hc], fun other => ?_⟩
        simp only [List.not_mem_nil, exists_false, false_iff]
        exact fun hruns => hc hruns.context
  case isFalse hstarted =>
      exact along_pure (.none (fun _ _ hruns => hstarted hruns.started) (refl s))

section Parts

-- Each stop, whenever it comes, reaches what was running.
def Stillable (nodes : List Node) (s : Studio) : Prop :=
  ∀ node ∈ nodes, ∀ time t, Steady s t →
    Along Steady (node.stop time) t fun _ u => Stilled (node.Running s) t u

theorem stilled_stopAll (h : Stillable nodes s) (hst : Steady s t) :
    Along Steady (stopAll nodes time) t fun _ u => Stilled (AnyRunning nodes s) t u := by
  induction nodes generalizing t with
  | nil => exact along_pure (.none (by simp [AnyRunning]) (refl _))
  | cons node rest ih =>
      have hrest {u : Studio} (hsu : Steady s u) (hnode : Stilled (node.Running s) t u) :
          Along Steady (stopAll rest time) u
            fun _ v => Stilled (AnyRunning (node :: rest) s) t v := by
        refine (ih (fun other hother => h other (List.mem_cons_of_mem _ hother)) hsu).mono
          fun _ v _ hall => ?_
        exact (hnode.append hall).congr fun _ _ => anyRunning_cons.symm
      rw [stopAll]
      split
      case isTrue =>
          refine along_bind (h node List.mem_cons_self time t hst) fun _ u htu hnode => ?_
          exact hrest (trans_of Steady hst htu) hnode
      case isFalse hstart =>
          exact hrest hst (.none (not_running_of_not_startable hstart) (refl _))

-- The same from the end of a chain.
theorem stilled_stopChain (h : Stillable nodes s) (hst : Steady s t) :
    Along Steady (stopChain nodes time) t fun _ u => Stilled (AnyRunning nodes s) t u := by
  induction nodes generalizing t with
  | nil => exact along_pure (.none (by simp [AnyRunning]) (refl _))
  | cons node rest ih =>
      rw [stopChain]
      refine along_bind (ih (fun other hother => h other (List.mem_cons_of_mem _ hother)) hst)
        fun at' u htu hall => ?_
      have hswap (c : ContextId) (host : HostId) :
          AnyRunning rest s c host ∨ node.Running s c host ↔ AnyRunning (node :: rest) s c host :=
        Or.comm.trans anyRunning_cons.symm
      split
      case isTrue =>
          refine along_bind (h node List.mem_cons_self at' u (trans_of Steady hst htu))
            fun _ v huv hnode => along_pure ((hall.append hnode).congr hswap)
      case isFalse hstart =>
          have hnode : Stilled (node.Running s) u u :=
            .none (not_running_of_not_startable hstart) (refl u)
          exact along_pure ((hall.append hnode).congr hswap)

theorem stilled_stopParts (h : Stillable node.parts s) (hst : Steady s t) :
    Along Steady (node.stopParts time) t fun _ u => Stilled (AnyRunning node.parts s) t u := by
  unfold stopParts
  split
  case h_1 info head tail =>
      have htail : Stillable tail s := fun part hpart => h part (List.mem_cons_of_mem head hpart)
      have hhead : Stillable [head] s := fun part hpart => by
        obtain rfl := List.mem_singleton.1 hpart
        exact h part List.mem_cons_self
      refine along_bind (stilled_stopChain htail hst) fun later u htu hall => ?_
      refine (stilled_stopAll hhead (trans_of Steady hst htu)).mono fun _ v _ hone => ?_
      refine (hall.append hone).congr fun c host => ?_
      simp only [parts, anyRunning_cons]
      rw [or_comm, or_iff_left (by simp [AnyRunning] : ¬AnyRunning [] s c host)]
  case h_2 => exact stilled_stopAll h hst

end Parts

-- Only a source has a host of its own that is stopped.
theorem stilled_stopOwn (hopened : node.context < s.ledger.contexts)
    (hconnected : (node.state s).disconnected = false) :
    Along Steady (node.stopOwn time) s fun _ t => Stilled (node.Runs s) s t := by
  cases hsource : node.source? with
  | some host =>
      rw [stopOwn_of_source hsource]
      exact stilled_stopSource hopened hsource hconnected
  | none =>
      have hnone (c : ContextId) (host : HostId) : ¬node.Runs s c host := fun hruns => by
        cases hsource.symm.trans hruns.source
      have hunstopped : Along Steady (node.stopOwn time) s fun _ t => Unstopped s t := by
        unfold stopOwn
        split
        case h_1 => cases hsource
        case h_2 release =>
            exact Keeps.both (release.keeps_schedule _ _ _ _) (release.keeps_schedule _ _ _ _) s
        case h_3 => exact along_pure (refl s)
      exact hunstopped.mono fun _ t _ ht => .none hnone ht

theorem stilled_stop (hnode : s.ledger.Holds node) (hsevered : node.Severed s) :
    Along Steady (node.stop time) s fun _ t => Stilled (node.Running s) s t := by
  induction node using induct generalizing s time with
  | step node ih =>
      have hparts : Stillable node.parts s := fun part hpart time t hst => by
        refine (ih part hpart (hst.holds (hnode.part hpart)) ((hsevered.part hpart).keep hst)).mono
          fun _ u _ h => ?_
        exact h.congr fun _ _ => running_congr hst
      refine along_stop_of_steps (fun hcut => .none (hsevered.not_running hcut) (refl s)) ?_
      intro hconnected _
      refine along_bind (stilled_stopOwn (hnode node (self_mem_reach node)).2 hconnected) ?_
      intro _ t hst hself
      refine (stilled_stopParts hparts hst).mono fun _ u _ hall => ?_
      exact (hself.append hall).congr fun _ _ => running_iff.symm

end Node

namespace Session

-- A stop reaches the running sources. When a node has been stopped, the hosts that are given a time to
-- stop are exactly those of the sources that it reaches, are started and are not disconnected.
theorem reaches_running_sources (rate : Float) (commands : List Command) (id : NodeId) (node : Node)
    (time : Float) (t : Studio) (hnode : (run rate commands).studio.node? id = some node)
    (hstop : node.stop time (run rate commands).studio = .ok () t) (c : ContextId) :
    ∃ stops, (t.engine c).stops = ((run rate commands).studio.engine c).stops ++ stops ∧
      ∀ host, (∃ time', (host, time') ∈ stops) ↔ node.Running (run rate commands).studio c host := by
  have hlawful := lawful_run rate commands
  have hholds := holds_of_node hnode
  have hsevered : node.Severed (run rate commands).studio := fun inner hinner hcut _ hleaf =>
    hlawful.cuts.cut_of_reach hlawful.sound rfl (hholds inner hinner).1 hcut hleaf
  exact (Act.ends_of_ok hstop (Node.stilled_stop hholds hsevered)).2 c

-- The tone is still running when it is stopped. What its frequency followed is disconnected.
def faded : List Command := vibrato ++ [.start 2 0.5, .disconnect 0]

theorem faded_stopped : ∃ node t stops, (run 44100 faded).studio.node? 2 = some node ∧
    node.stop 1 (run 44100 faded).studio = .ok () t ∧
    (t.engine 0).stops = ((run 44100 faded).studio.engine 0).stops ++ stops ∧
    (∃ time, (2, time) ∈ stops) ∧ ¬∃ time, (1, time) ∈ stops := by
  have hsome : ((run 44100 faded).studio.node? 2).isSome = true := by decide +kernel
  obtain ⟨node, hnode⟩ := Option.isSome_iff_exists.1 hsome
  have hfacts : ∀ node ∈ (run 44100 faded).studio.node? 2,
      node.Running (run 44100 faded).studio 0 2 ∧ ¬node.Running (run 44100 faded).studio 0 1 ∧
      (node.stop 1).succeeds (run 44100 faded).studio = true := by
    decide +kernel
  obtain ⟨hruns, hsilent, hstop⟩ := hfacts node hnode
  obtain ⟨⟨⟩, t, hstop⟩ := Act.ok_of_succeeds hstop
  obtain ⟨stops, hlog, hstops⟩ := reaches_running_sources 44100 faded 2 node 1 t hnode hstop 0
  exact ⟨node, t, stops, hnode, hstop, hlog, (hstops 2).2 hruns, fun h => hsilent ((hstops 1).1 h)⟩

end Session

end Patchbay
