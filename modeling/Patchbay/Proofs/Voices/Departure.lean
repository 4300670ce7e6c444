import Patchbay.Proofs.Ledger.Debts

namespace Patchbay

open Act

variable {N : Nat} {s : Studio}

def Event.dues (k : InstrumentId) : Event → List Debt
  | .ended voice => [.announce k voice]
  | .started _ _ | .voices _ => []

-- An event is on record once, whatever the observers do in answer.
def Emits (N : Nat) (emit : Instrument.Emit) : Prop :=
  ∀ k event (s : Studio), s.ledger.Sound N → Settles N (event.dues k) (emit k event) s

theorem Instrument.roster_note (inst : Instrument) (event : Event) :
    (inst.note event).roster =
      event.endOf?.elim inst.roster fun voice => inst.roster.announce voice := by
  cases event <;> simp [roster, announced, note, Event.endOf?, Roster.announce]

theorem Instrument.roster_erase (inst : Instrument) (id : VoiceId) :
    (inst.erase id).roster = inst.roster.release id := by
  simp only [roster, announced, erase, Roster.release, List.filter_map, Function.comp_def]

theorem Instrument.roster_register (inst : Instrument) (node : Node) :
    (inst.register node).roster = inst.roster.play node := by
  simp [roster, announced, register, Roster.play, nextId]

theorem settles_announce (k : InstrumentId) (event : Event) :
    Settles N (event.dues k) (Instrument.announce k event) s := by
  unfold Settles Instrument.announce changeInstrument
  rw [ends_modify]
  cases event with
  | ended voice =>
      refine .single fun D P => ?_
      rw [s.ledger_changeInstrument (g := .announce voice) fun inst => inst.roster_note _]
      exact .announce k voice
  | started voice time =>
      exact .of_ledger (s.ledger_changeInstrument_eq k fun inst => inst.roster_note _)
  | voices count =>
      exact .of_ledger (s.ledger_changeInstrument_eq k fun inst => inst.roster_note _)

theorem Instrument.find_roster (inst : Instrument) (id : VoiceId) :
    inst.roster.voices.find? (·.2 == id) =
      (inst.voice? id).map fun voice => (voice.node, voice.id) := by
  simp only [roster, voice?, List.find?_map, Function.comp_def]

-- There is no voice without an instrument.
theorem Studio.instrument_of_voice {k : InstrumentId} {id : VoiceId} {voice : Voice}
    (h : ((s.instruments[k]?).getD (.new 0)).voice? id = some voice) :
    ∃ inst, s.instruments[k]? = some inst ∧ inst.voice? id = some voice := by
  cases hk : s.instruments[k]? with
  | none => simp [hk, Instrument.voice?, Instrument.new] at h
  | some inst => exact ⟨inst, rfl, by simpa [hk] using h⟩

theorem settles_remove {emit : Instrument.Emit} (hs : s.ledger.Sound N) (hemit : Emits N emit)
    (id : NodeId) (k : InstrumentId) (voice : VoiceId) :
    Settles N [.tell id (.voice k voice)] (Instrument.remove emit k voice) s := by
  unfold Instrument.remove
  refine settles_read (settles_pure_bind ?_)
  split
  case h_1 hnone =>
      unfold Settles
      rw [ends_pure]
      refine .single fun D P => .released id k voice fun r hr => ?_
      obtain ⟨inst, hinst, rfl⟩ := Option.map_eq_some_iff.1 hr
      rw [hinst, Option.getD_some] at hnone
      rw [inst.find_roster, hnone]
      rfl
  case h_2 found hfound =>
      obtain ⟨inst, hinst, hvoice⟩ := Studio.instrument_of_voice hfound
      have hroster : s.ledger.roster k = some inst.roster := by
        simp only [Studio.ledger, hinst, Option.map_some]
      have hfind : inst.roster.voices.find? (·.2 == voice) = some (found.node, found.id) := by
        rw [inst.find_roster, hvoice]
        rfl
      have hknown : s.ledger.Knows found.node :=
        (hs.roster k _ hroster).voices _ (List.mem_of_find?_eq_some hfind)
      have herase : ({ s with instruments := s.instruments.modify k (·.erase voice) } : Studio).ledger =
          s.ledger.setRoster k (.release voice) :=
        s.ledger_changeInstrument fun i => i.roster_erase voice
      have hmove (D : List Debt) (P : Past) : Move N ⟨s.ledger, .tell id (.voice k voice) :: D, P⟩
          ⟨s.ledger.setRoster k (.release voice), .cut found.node :: .announce k voice :: D, P⟩ :=
        .release id k voice _ _ hroster hfind
      have hgrows := s.ledger.grows_setRoster k (Roster.grows_release voice)
      have hsound : (s.ledger.setRoster k (.release voice)).Sound N := (hmove [] ⟨[], []⟩).sound hs
      have hpaid (D : List Debt) (P : Past) : Move N
          ⟨s.ledger, [.tell id (.voice k voice)] ++ D, P⟩
          ⟨({ s with instruments := s.instruments.modify k (·.erase voice) } : Studio).ledger,
            [.cut found.node, .announce k voice] ++ D, P⟩ := herase ▸ hmove D P
      have hcut {t : Studio} (ht : t.ledger = s.ledger.setRoster k (.release voice)) :
          Settles N [.cut found.node] found.node.disconnect t :=
        Node.settles_disconnect (ht ▸ hsound) (ht ▸ hknown.grow hgrows)
      refine settles_move hpaid ?_
      refine settles_bind (settles_catch (hcut herase)) fun _ t hst => ?_
      have ht : t.ledger.Sound N := hst.sound (herase ▸ hsound)
      refine settles_bind (hemit k (.ended voice) t ht) fun _ u htu => ?_
      exact settles_read (settles_pure_bind (hemit k _ u (htu.sound ht)))

-- The node is registered under the next id; if it has ended, its voice leaves at once.
theorem ends_track {emit : Instrument.Emit} {k : InstrumentId} {inst : Instrument} {node : Node}
    (hs : s.ledger.Sound N) (hemit : Emits N emit) (hinst : s.instruments[k]? = some inst)
    (hnode : s.ledger.Knows node) : Ends (Instrument.track emit k node) s
      (fun id t => Pays N [] s t ∧ id = inst.nextId ∧
        (s.ledger.setRoster k (.play node)).Grows t.ledger)
      fun _ _ => False := by
  have hk : s.ledger.roster k = some inst.roster := by simp [Studio.ledger, hinst]
  have hstate : (s.instruments[k]?).getD (.new 0) = inst := by rw [hinst]; rfl
  let s₁ : Studio := { s with instruments := s.instruments.modify k (·.register node) }
  let s₂ : Studio := { s₁ with nodes := s₁.nodes.modify node.id fun state =>
    { state with voice := some inst.nextId } }
  have hs₁ : s₁.ledger = s.ledger.setRoster k (.play node) :=
    s.ledger_changeInstrument fun i => i.roster_register node
  have hs₂ : s₂.ledger = s.ledger.setRoster k (.play node) :=
    (s₁.ledger_changeNode_eq node.id (f := fun state => { state with voice := some inst.nextId })
      fun _ => rfl).trans hs₁
  have hended : (node.state s₂).ended = (s.ledger.fate node.id).ended := by
    rw [node.state_ended, hs₂]
    rfl
  have hnext : inst.roster.played.length = inst.nextId := rfl
  unfold Instrument.track Act.instrument
  simp only [ends_bind, ends_get, ends_pure, hstate, changeInstrument, changeNode, ends_modify]
  change Ends (if (node.state s₂).ended = true then _ else _) s₂ _ _
  rw [hended]
  cases hlive : (s.ledger.fate node.id).ended with
  | false =>
      have hlt : node.id < s₂.nodes.size := by
        simpa only [s₂, s₁, Array.size_modify] using Studio.lt_of_knows hnode
      have hlisten := s₂.ledger_changeNode hlt (g := .listen (.voice k inst.nextId))
        (f := fun state => { state with listeners := state.listeners ++ [.voice k inst.nextId] })
        fun _ => rfl
      rw [if_neg Bool.false_ne_true, ends_bind, ends_modify, ends_pure, hlisten, hs₂]
      refine ⟨.single fun D P => ?_, rfl, Ledger.grows_setFate _ _ (Fate.grows_listen _ _)⟩
      rw [hlisten, hs₂]
      exact .play k inst.roster node hk hnode hlive
  | true =>
      have hsound : s₂.ledger.Sound N := hs₂ ▸ hs.play k hnode
      have hremove := settles_remove hsound hemit node.id k inst.nextId
      rw [if_pos rfl, ends_bind]
      refine hremove.mono (fun _ t ht => ?_) fun _ _ h => h
      rw [ends_pure]
      refine ⟨fun D P => ?_, rfl, hs₂ ▸ ht.grows⟩
      have hplay : Move N ⟨s.ledger, D, P⟩
          ⟨s₂.ledger, .tell node.id (.voice k inst.nextId) :: D, P⟩ := by
        rw [hs₂]
        exact .playEnded k inst.roster node hk hnode hlive
      exact .head hplay (ht D P)

theorem settles_track {emit : Instrument.Emit} {k : InstrumentId} {r : Roster} {node : Node}
    (hs : s.ledger.Sound N) (hemit : Emits N emit) (hk : s.ledger.roster k = some r)
    (hnode : s.ledger.Knows node) : Settles N [] (Instrument.track emit k node) s := by
  obtain ⟨inst, hinst, -⟩ := Option.map_eq_some_iff.1 hk
  exact (ends_track hs hemit hinst hnode).mono (fun _ _ h => h.1) fun _ _ h => h

-- A node that an instrument may play.
def Play.Known (L : Ledger) : Play → Prop
  | .node played => L.Knows played
  | .value _ => True

theorem opened_of_sound (hs : s.ledger.Sound N) (k : InstrumentId) :
    ((s.instruments[k]?).getD (.new 0)).context < s.ledger.contexts := by
  cases hk : s.instruments[k]? with
  | none => exact hs.ground
  | some inst => exact (hs.roster k inst.roster (by simp [Studio.ledger, hk])).opened

theorem along_nodeFor {k : InstrumentId} {play : Play} (hs : s.ledger.Sound N)
    (hplay : play.Known s.ledger) :
    Along (Pays N []) (Instrument.nodeFor ((s.instruments[k]?).getD (.new 0)) play) s
      fun node t => t.ledger.Knows node := by
  cases play with
  | node node => exact along_pure hplay
  | value x =>
      unfold Instrument.nodeFor
      dsimp only
      split
      case h_2 => exact along_throw _
      case h_1 recipe hsynth =>
          exact Ends.mono (Recipe.offering_build (hs.ready (opened_of_sound hs k)))
            (fun _ _ h => ⟨.of_building h.1, h.2.known⟩) fun _ _ h => .of_building h

theorem along_announced {emit : Instrument.Emit} {k : InstrumentId} {node : Node} {id : VoiceId}
    {time : Float} (hs : s.ledger.Sound N) (hemit : Emits N emit) :
    Along (Pays N []) (do
      emit k (.started id time)
      Instrument.countVoices emit k
      return node) s fun _ _ => True := by
  refine along_bind (hemit k (.started id time) s hs).along fun _ t hst _ => ?_
  have hcount : Settles N [] (Instrument.countVoices emit k) t :=
    settles_read (settles_pure_bind (hemit k _ t (hst.sound hs)))
  exact along_bind hcount.along fun _ _ _ _ => along_pure trivial

-- A node that is known is tracked and started, and stopped if the voice has a length.
theorem along_voice {emit : Instrument.Emit} {k : InstrumentId} {node : Node}
    {time delay duration : Option Float} (hs : s.ledger.Sound N) (hemit : Emits N emit)
    (hk : (s.ledger.roster k).isSome) (hnode : s.ledger.Knows node) :
    Along (Pays N []) (do
      let time := Time.resolve time delay (← Act.now node.context)
      Instrument.steal k time
      let id ← Instrument.track emit k node
      node.start time
      match duration.filter (0 < ·) with
      | some duration => node.stop (time + duration)
      | none => pure ()
      emit k (.started id time)
      Instrument.countVoices emit k
      return node) s fun _ _ => True := by
  refine along_bind (keeps_now _ s) fun now t hst _ => ?_
  refine along_bind (Instrument.keeps_steal k _ t) fun _ u htu _ => ?_
  have hsu : Pays N [] s u := hst.trans htu
  obtain ⟨r, hr⟩ := Option.isSome_iff_exists.1 hk
  obtain ⟨r', hr', -⟩ := hsu.grows.roster k r hr
  have htrack := settles_track (hsu.sound hs) hemit hr' (hnode.grow hsu.grows)
  refine along_bind htrack.along fun id v huv _ => ?_
  refine along_bind (Node.keeps_start node _ v) fun _ w hvw _ => ?_
  have hsw : Pays N [] s w := (hsu.trans huv).trans hvw
  dsimp only
  split
  · exact along_bind (Node.keeps_stop node _ w) fun _ x hwx _ =>
      along_announced ((hsw.trans hwx).sound hs) hemit
  · exact along_announced (hsw.sound hs) hemit

theorem along_startWith {emit : Instrument.Emit} {k : InstrumentId} {play : Play}
    {time delay duration : Option Float} (hs : s.ledger.Sound N) (hemit : Emits N emit)
    (hk : (s.ledger.roster k).isSome) (hplay : play.Known s.ledger) :
    Along (Pays N []) (Instrument.startWith emit k play time delay duration) s fun _ _ => True := by
  obtain ⟨r, hr⟩ := Option.isSome_iff_exists.1 hk
  have hthere {t : Studio} (hst : Pays N [] s t) : (t.ledger.roster k).isSome := by
    obtain ⟨r', hr', -⟩ := hst.grows.roster k r hr
    exact Option.isSome_iff_exists.2 ⟨r', hr'⟩
  unfold Instrument.startWith
  refine along_instrument ?_
  refine along_bind (along_nodeFor hs hplay) fun node t hst hnode => ?_
  dsimp only
  split
  · refine along_bind (Node.keeps_connect node _ t) fun _ u htu _ => ?_
    have hsu : Pays N [] s u := hst.trans htu
    exact along_voice (hsu.sound hs) hemit (hthere hsu) (hnode.grow htu.grows)
  · exact along_voice (hst.sound hs) hemit (hthere hst) hnode

theorem settles_hear {notice : Notice} (h : notice.called? = none) : Settles N [] (hear notice) s :=
  settles_modify (s.ledger_hear h)

theorem settles_perform {emit : Instrument.Emit} {k : InstrumentId} {topic : Topic} {tag : String}
    (hs : s.ledger.Sound N) (hemit : Emits N emit) (hk : (s.ledger.roster k).isSome)
    (reaction : Reaction) : Settles N [] (Instrument.perform emit k topic tag reaction) s := by
  cases reaction with
  | subscribe => exact settles_modify (s.ledger_changeInstrument_eq k fun _ => rfl)
  | play value duration =>
      cases value with
      | none => exact settles_hear rfl
      | some x =>
          unfold Instrument.perform
          refine settles_try ?_ fun e t => settles_hear rfl
          exact along_map (along_startWith hs hemit hk trivial) fun _ _ _ => trivial
  | stopAll =>
      unfold Instrument.perform
      exact settles_try (Instrument.keeps_stop k _ _ _ s) fun e t => settles_hear rfl

theorem settles_tell {emit : Instrument.Emit} {k : InstrumentId} (hs : s.ledger.Sound N)
    (hemit : Emits N emit) (hk : (s.ledger.roster k).isSome) (event : Event) (observer : Observer) :
    Settles N [] (Instrument.tell emit k event observer) s := by
  unfold Instrument.tell
  refine settles_bind (settles_hear rfl) fun _ t hst => ?_
  obtain ⟨r, hr⟩ := Option.isSome_iff_exists.1 hk
  obtain ⟨r', hr', -⟩ := hst.grows.roster k r hr
  have hk : (t.ledger.roster k).isSome := Option.isSome_iff_exists.2 ⟨r', hr'⟩
  dsimp only
  split
  · exact settles_bind (settles_perform (hst.sound hs) hemit hk _) fun _ u _ => settles_pure _
  · exact settles_pure _

-- While it is delivered its observers are set aside; they come back with their reactions counted.
theorem emits_deliver {emit : Instrument.Emit} (hemit : Emits N emit) :
    Emits N (Instrument.deliver emit) := by
  intro k event s hs
  have hset (list : Instrument → List Observer) (t : Studio) : Settles N []
      (changeInstrument k fun i => i.observing event.topic (list i)) t :=
    settles_modify (t.ledger_changeInstrument_eq k fun _ => rfl)
  have htold {t : Studio} (hst : s.ledger.Grows t.ledger) (ht : t.ledger.Sound N)
      (observers : List Observer) (hk : observers ≠ [] → (t.ledger.roster k).isSome) :
      Settles N [] (observers.mapM (Instrument.tell emit k event)) t := by
    refine settles_mapM ht fun observer hobserver u htu hu => ?_
    obtain ⟨r, hr⟩ := Option.isSome_iff_exists.1 (hk (List.ne_nil_of_mem hobserver))
    obtain ⟨r', hr', -⟩ := htu.roster k r hr
    exact settles_tell hu hemit (Option.isSome_iff_exists.2 ⟨r', hr'⟩) event observer
  unfold Instrument.deliver Instrument.circulate
  rw [← List.append_nil (event.dues k)]
  refine settles_bind (settles_announce k event) fun _ t hst => ?_
  refine settles_read ?_
  refine settles_bind (hset (fun _ => []) t) fun _ u htu => ?_
  have hsu : s.ledger.Grows u.ledger := hst.grows.trans htu.grows
  refine settles_bind (htold hsu (htu.sound (hst.sound hs)) _ fun hne => ?_) fun observers v huv => ?_
  · cases hk : t.instruments[k]? with
    | none => exact absurd (by simp [hk, Instrument.new]) hne
    | some inst =>
        have hr : t.ledger.roster k = some inst.roster := by simp [Studio.ledger, hk]
        obtain ⟨r', hr', -⟩ := htu.grows.roster k _ hr
        exact Option.isSome_iff_exists.2 ⟨r', hr'⟩
  · exact hset (fun i => observers ++ i.observers event.topic) v

-- At every depth.
theorem emits_emitAt (depth : Nat) : Emits N (Instrument.emitAt depth) := by
  induction depth with
  | zero => exact emits_deliver fun k event s _ => settles_announce k event
  | succ depth ih => exact emits_deliver ih

end Patchbay
