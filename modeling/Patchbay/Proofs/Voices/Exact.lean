import Patchbay.Proofs.Session.Moves

namespace Patchbay

section Reading

variable {s : Studio}

theorem Studio.rosterOf_eq (s : Studio) (k : InstrumentId) :
    s.ledger.rosterOf k = (s.instrument k).roster := by
  simp only [Ledger.rosterOf, ledger, instrument]
  cases s.instruments[k]? <;> rfl

theorem Studio.played_of_track {t : Studio} {k : InstrumentId} {node : Node}
    (hk : k < s.instruments.size) (h : (s.ledger.setRoster k (.play node)).Grows t.ledger) :
    (s.instrument k).played ++ [node] <+: (t.instrument k).played := by
  have hroster : s.ledger.roster k = some (s.instrument k).roster := by
    simp [ledger, instrument, hk]
  have hplayed := h.rosterOf k
  rwa [Ledger.rosterOf_setRoster hroster, if_pos rfl, rosterOf_eq, rosterOf_eq] at hplayed

theorem Studio.hostCut_iff (c : ContextId) (h : HostId) :
    s.ledger.HostCut c h ↔ ((s.engine c).nodes[h]?).any (·.disconnected) = true := by
  rw [Ledger.HostCut, s.any_host rfl]
  rfl

theorem Event.count_endOf (events : List Event) (id : VoiceId) :
    (events.filterMap Event.endOf?).count id = events.count (.ended id) := by
  induction events with
  | nil => rfl
  | cons event rest ih =>
      cases event with
      | ended other => by_cases h : other = id <;> simp [endOf?, ih, h]
      | started voice time =>
          rw [List.count_cons_of_ne (by simp)]
          simpa [endOf?, List.filterMap_cons] using ih
      | voices n =>
          rw [List.count_cons_of_ne (by simp)]
          simpa [endOf?, List.filterMap_cons] using ih

end Reading

namespace Instrument

theorem id_of_voice? {inst : Instrument} {id : VoiceId} {voice : Voice}
    (h : inst.voice? id = some voice) : voice.id = id := by
  simpa using List.find?_some h

theorem voice?_isSome {inst : Instrument} {id : VoiceId} :
    (inst.voice? id).isSome ↔ id ∈ inst.voiceIds := by
  rw [voice?, List.find?_isSome, voiceIds, List.mem_map]
  simp

theorem voiceIds_eq (inst : Instrument) : inst.voiceIds = inst.roster.voices.map Prod.snd := by
  rw [voiceIds, roster, List.map_map]
  rfl

theorem mem_voiceIds {inst : Instrument} {id : VoiceId} :
    id ∈ inst.voiceIds ↔ ∃ node, inst.roster.voice? id = some node := by
  rw [voiceIds_eq]
  constructor
  · intro hmem
    obtain ⟨voice, hvoice, hid⟩ := List.mem_map.1 hmem
    have hsome : (inst.roster.voices.find? (·.2 == id)).isSome :=
      List.find?_isSome.2 ⟨voice, hvoice, by simp [hid]⟩
    obtain ⟨found, hfound⟩ := Option.isSome_iff_exists.1 hsome
    exact ⟨found.1, by rw [Roster.voice?, hfound]; rfl⟩
  · rintro ⟨node, hvoice⟩
    exact List.mem_map.2 ⟨_, Roster.mem_of_voice? hvoice, rfl⟩

theorem left_roster {inst : Instrument} {id : VoiceId} :
    inst.roster.left id = true ↔ id < inst.nextId ∧ id ∉ inst.voiceIds := by
  rw [mem_voiceIds, Roster.left, Bool.and_eq_true, decide_eq_true_eq, Option.isNone_iff_eq_none,
    Option.eq_none_iff_forall_ne_some, not_exists]
  rfl

-- What its registry says is so, and what has left it was seen off.
structure Exact (inst : Instrument) (studio : Studio) : Prop where
  ascending : inst.voiceIds.Pairwise (· < ·)
  registered : ∀ id, id ∈ inst.voiceIds ↔
    ∃ node, inst.played[id]? = some node ∧ (node.state studio).ended = false
  listed : ∀ voice ∈ inst.voices, inst.played[voice.id]? = some voice.node
  announced : ∀ id, inst.announced.count (.ended id) =
    if id < inst.nextId ∧ id ∉ inst.voiceIds then 1 else 0
  disconnected : ∀ id node, inst.played[id]? = some node → id ∉ inst.voiceIds →
    ∀ inner ∈ node.reach, (inner.state studio).disconnected = true ∧
      ∀ host ∈ inner.ownHosts, host ≠ Engine.destination →
        ((studio.engine inner.context).nodes[host]?).any (·.disconnected) = true

end Instrument

namespace Session

theorem exact_of_lawful {session : Session} (h : session.moment.Lawful) (k : InstrumentId) :
    (session.studio.instrument k).Exact session.studio := by
  have hroster : session.moment.ledger.rosterOf k = (session.studio.instrument k).roster :=
    session.studio.rosterOf_eq k
  have hordered := hroster ▸ h.registry.ordered k
  have hvoice {id : VoiceId} (hid : id ∈ (session.studio.instrument k).voiceIds) :
      ∃ node, (session.studio.instrument k).roster.voice? id = some node ∧
        (session.studio.instrument k).played[id]? = some node := by
    obtain ⟨node, hnode⟩ := Instrument.mem_voiceIds.1 hid
    exact ⟨node, hnode, hordered.played (Roster.mem_of_voice? hnode)⟩
  have hleft {id : VoiceId} {node : Node}
      (hplayed : (session.studio.instrument k).played[id]? = some node)
      (hid : id ∉ (session.studio.instrument k).voiceIds) :
      (session.moment.ledger.fate node.id).ended = true ∧
        (session.moment.ledger.fate node.id).cut = true := by
    have hlt := (List.getElem?_eq_some_iff.1 hplayed).1
    have hleft := h.registry.left k id node (hroster ▸ hplayed)
      (hroster ▸ Instrument.left_roster.2 ⟨hlt, hid⟩)
    exact ⟨hleft.1, hleft.2.resolve_right List.not_mem_nil⟩
  constructor
  case ascending =>
      rw [Instrument.voiceIds_eq]
      have hsub := hordered.map Prod.snd
      rw [List.zipIdx_map_snd] at hsub
      exact List.Pairwise.sublist hsub (List.pairwise_lt_range' _)
  case registered =>
      intro id
      constructor
      · intro hid
        obtain ⟨node, hnode, hplayed⟩ := hvoice hid
        refine ⟨node, hplayed, ?_⟩
        have hears := h.registry.hears k id node.id
        rw [node.state_ended, Bool.eq_false_iff]
        intro hended
        have hsilent : session.moment.pending node.id = [] := by
          rw [Moment.pending, h.join.silent node.id hended]
          rfl
        simp [hroster, hnode, hsilent] at hears
      · rintro ⟨node, hplayed, hlive⟩
        by_contra hid
        rw [node.state_ended] at hlive
        exact Bool.false_ne_true (hlive.symm.trans (hleft hplayed hid).1)
  case listed =>
      intro voice hmem
      exact hordered.played (List.mem_map.2 ⟨voice, hmem, rfl⟩)
  case announced =>
      intro id
      have hannounced := h.registry.announced k id
      rw [hroster] at hannounced
      simp only [Instrument.left_roster] at hannounced
      rw [← Event.count_endOf]
      exact hannounced
  case disconnected =>
      intro id node hplayed hid inner hinner
      have hlt := (List.getElem?_eq_some_iff.1 hplayed).1
      have hroot : session.moment.IsRoot node :=
        .inr ⟨k, id, hroster ▸ hplayed, hroster ▸ Instrument.left_roster.2 ⟨hlt, hid⟩⟩
      have hknown := h.sound.knows_of_reach (h.cuts.knows_root h.sound hroot) hinner
      rw [inner.state_disconnected]
      refine ⟨(h.cuts.cut_iff h.sound rfl hknown).2 ⟨node, hroot, hinner⟩, fun host hhost hne => ?_⟩
      rw [← Studio.hostCut_iff]
      refine (h.cuts.hostCut_iff h.sound rfl inner.context host).2 (.inr ⟨hne, node, hroot, ?_⟩)
      exact Node.mem_hosts.2 ⟨inner, hinner, rfl, hhost⟩

theorem played_prefix (rate : Float) (commands more : List Command) (k : InstrumentId) :
    ((run rate commands).studio.instrument k).played <+:
      ((run rate (commands ++ more)).studio.instrument k).played := by
  have hplayed := (moves_run rate commands more).grows.rosterOf k
  rwa [moment, moment, Studio.rosterOf_eq, Studio.rosterOf_eq] at hplayed

-- A voice that has left does not come back.
theorem not_mem_voiceIds (rate : Float) (commands more : List Command) {k : InstrumentId}
    {id : VoiceId} (hid : id < ((run rate commands).studio.instrument k).nextId)
    (hleft : id ∉ ((run rate commands).studio.instrument k).voiceIds) :
    id ∉ ((run rate (commands ++ more)).studio.instrument k).voiceIds := by
  have hexact := exact_of_lawful (lawful_run rate commands) k
  have hlater := exact_of_lawful (lawful_run rate (commands ++ more)) k
  have hprefix := played_prefix rate commands more k
  have hplayed := List.getElem?_eq_getElem hid
  have hended : ((((run rate commands).studio.instrument k).played[id]).state
      (run rate commands).studio).ended = true := by
    by_contra hlive
    exact hleft ((hexact.registered id).2 ⟨_, hplayed, Bool.eq_false_iff.2 hlive⟩)
  rw [hlater.registered]
  rintro ⟨node, hnode, hlive⟩
  rw [List.getElem?_eq_getElem (Nat.lt_of_lt_of_le hid hprefix.length_le), Option.some_inj,
    ← hprefix.getElem hid] at hnode
  rw [Node.state_ended] at hended hlive
  have hstays := ((moves_run rate commands more).grows.fate _).ended hended
  rw [hnode] at hstays
  exact Bool.false_ne_true (hlive.symm.trans hstays)

-- The next id is the number of nodes played so far.
theorem track_run (rate : Float) (commands : List Command) {k : InstrumentId} {id : NodeId}
    {node : Node} (hk : (run rate commands).studio.hasInstrument k = true)
    (hnode : (run rate commands).studio.node? id = some node) :
    ∃ t, (do Instrument.track (← Instrument.emitter) k node) (run rate commands).studio =
        .ok ((run rate commands).studio.instrument k).nextId t ∧
      (run rate (commands ++ [.track k id])).studio = t ∧
      ((run rate commands).studio.instrument k).played ++ [node] <+: (t.instrument k).played := by
  have hs := (lawful_run rate commands).sound
  have hsize : k < (run rate commands).studio.instruments.size := of_decide_eq_true hk
  have hinst : (run rate commands).studio.instruments[k]? =
      some ((run rate commands).studio.instrument k) := by
    simp [Studio.instrument, hsize]
  have hact : (Command.track k id).act? (run rate commands).studio =
      some (do discard (Instrument.track (← Instrument.emitter) k node)) := by
    simp [Command.act?, guard, hk, hnode]
  have htrack := ends_track hs (emits_emitAt (run rate commands).studio.credit) hinst
    (Studio.offers_of_node hs hnode).1.known
  obtain ⟨voice, t, ht, -, rfl, hgrows⟩ := Act.exists_of_ends htrack
  refine ⟨t, ht, ?_, ?_⟩
  · rw [run_concat, studio_perform hact]
    apply Act.after_of_ends (P := (· = t))
    unfold Instrument.emitter
    simp only [Act.ends_bind, Act.ends_get, Act.ends_pure, Act.ends_discard]
    exact Act.ends_of_eq ht rfl
  · exact Studio.played_of_track hsize hgrows

-- At every point of every run the registry is exact. Voices are numbered in the order in which their
-- nodes are played, and what has left does not come back.
theorem registry_exact (rate : Float) (commands : List Command) (k : InstrumentId) :
    ((run rate commands).studio.instrument k).Exact (run rate commands).studio ∧
      (∀ more, ((run rate commands).studio.instrument k).played <+:
          ((run rate (commands ++ more)).studio.instrument k).played ∧
        ∀ id < ((run rate commands).studio.instrument k).nextId,
          id ∉ ((run rate commands).studio.instrument k).voiceIds →
            id ∉ ((run rate (commands ++ more)).studio.instrument k).voiceIds) ∧
      ((run rate commands).studio.hasInstrument k = true → ∀ id node,
        (run rate commands).studio.node? id = some node → ∃ t,
          (do Instrument.track (← Instrument.emitter) k node) (run rate commands).studio =
              .ok ((run rate commands).studio.instrument k).nextId t ∧
            (run rate (commands ++ [.track k id])).studio = t ∧
            ((run rate commands).studio.instrument k).played ++ [node] <+:
              (t.instrument k).played) := by
  refine ⟨exact_of_lawful (lawful_run rate commands) k, fun more => ⟨?_, fun id hid hleft => ?_⟩,
    fun hk id node hnode => track_run rate commands hk hnode⟩
  · exact played_prefix rate commands more k
  · exact not_mem_voiceIds rate commands more hid hleft

end Session

end Patchbay
