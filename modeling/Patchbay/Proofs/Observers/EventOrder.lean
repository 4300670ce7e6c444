import Patchbay.Proofs.Session.Backstage
import Patchbay.Proofs.Voices.Stealing

namespace Patchbay

open Act

-- What was announced was so: whoever started was registered, unless late; whoever ended was not any
-- more; and the count was right.
def Announcement.Holds (late : VoiceId → Prop) (a : Announcement) : Prop :=
  match a.event with
  | .started id _ => id ∈ a.registered ∨ late id
  | .ended id => id ∉ a.registered
  | .voices count => count = a.registered.length

theorem Announcement.Holds.mono {late late' : VoiceId → Prop} {a : Announcement} (h : a.Holds late)
    (hlate : ∀ id, late id → late' id) : a.Holds late' := by
  obtain ⟨event, registered⟩ := a
  cases event with
  | started id time => exact Or.imp_right (hlate id) h
  | ended id => exact h
  | voices count => exact h

namespace Instrument

-- The event may be announced now.
def Due (late : VoiceId → Prop) (inst : Instrument) : Event → Prop
  | .started id _ => id ∈ inst.voiceIds ∨ id < inst.nextId ∧ late id
  | .ended id => id < inst.nextId ∧ id ∉ inst.voiceIds
  | .voices count => count = inst.voices.length

-- Every announcement held when it was made, and no voice is registered any more once its end is
-- announced.
structure Orderly (late : VoiceId → Prop) (inst : Instrument) : Prop where
  numbered : ∀ id ∈ inst.voiceIds, id < inst.nextId
  holds : ∀ a ∈ inst.announcements, a.Holds fun id => id < inst.nextId ∧ late id
  gone : ∀ id, .ended id ∈ inst.announced → id < inst.nextId ∧ id ∉ inst.voiceIds
  since : inst.announcements.Pairwise fun a b => ∀ id, a.event = .ended id → id ∉ b.registered

theorem voiceIds_register (inst : Instrument) (node : Node) :
    (inst.register node).voiceIds = inst.voiceIds ++ [inst.nextId] := by
  simp [voiceIds, register]

theorem nextId_register (inst : Instrument) (node : Node) :
    (inst.register node).nextId = inst.nextId + 1 := by
  simp [nextId, register]

theorem mem_voiceIds_erase {inst : Instrument} {id other : VoiceId} :
    other ∈ (inst.erase id).voiceIds ↔ other ∈ inst.voiceIds ∧ other ≠ id := by
  simp only [voiceIds, erase, List.mem_map, List.mem_filter, bne_iff_ne]
  constructor
  · rintro ⟨voice, ⟨hvoice, hne⟩, rfl⟩
    exact ⟨⟨voice, hvoice, rfl⟩, hne⟩
  · rintro ⟨⟨voice, hvoice, rfl⟩, hne⟩
    exact ⟨voice, ⟨hvoice, hne⟩, rfl⟩

theorem voiceIds_markStopped (inst : Instrument) (id : VoiceId) :
    (inst.markStopped id).voiceIds = inst.voiceIds := by
  simp only [voiceIds, markStopped, List.map_map]
  refine List.map_congr_left fun voice _ => ?_
  simp only [Function.comp_apply]
  split <;> rfl

namespace Orderly

variable {late late' : VoiceId → Prop} {inst : Instrument}

theorem blank (h : inst.Blank) : inst.Orderly late where
  numbered id hid := by simp [voiceIds, h.voices] at hid
  holds a ha := by simp [h.announcements] at ha
  gone id hid := by simp [announced, h.announcements] at hid
  since := by simp [h.announcements]

-- The registry changes between announcements, and whoever is registered anew was not before.
theorem of_unannounced {inst' : Instrument} (h : inst.Orderly late)
    (hnext : inst.nextId ≤ inst'.nextId) (hsame : inst'.announcements = inst.announcements)
    (hids : ∀ id ∈ inst'.voiceIds, id ∈ inst.voiceIds ∨ inst.nextId ≤ id ∧ id < inst'.nextId) :
    inst'.Orderly late where
  numbered id hid := (hids id hid).elim (fun hid => Nat.lt_of_lt_of_le (h.numbered id hid) hnext)
    And.right
  holds a ha := by
    rw [hsame] at ha
    exact (h.holds a ha).mono fun id hid => ⟨Nat.lt_of_lt_of_le hid.1 hnext, hid.2⟩
  gone id hid := by
    rw [announced, hsame] at hid
    obtain ⟨hlt, hleft⟩ := h.gone id hid
    refine ⟨Nat.lt_of_lt_of_le hlt hnext, fun hid' => ?_⟩
    rcases hids id hid' with hmem | ⟨hle, -⟩
    · exact hleft hmem
    · exact Nat.not_lt.2 hle hlt
  since := by
    rw [hsame]
    exact h.since

theorem register (h : inst.Orderly late) (node : Node) : (inst.register node).Orderly late := by
  have hnext : inst.nextId < (inst.register node).nextId := by
    rw [nextId_register]
    exact Nat.lt_succ_self _
  refine h.of_unannounced (Nat.le_of_lt hnext) rfl fun id hid => ?_
  rw [voiceIds_register] at hid
  rcases List.mem_append.1 hid with hid | hid
  · exact .inl hid
  · rw [List.mem_singleton.1 hid]
    exact .inr ⟨Nat.le_refl _, hnext⟩

theorem erase (h : inst.Orderly late) (id : VoiceId) : (inst.erase id).Orderly late :=
  h.of_unannounced (Nat.le_refl _) rfl fun _ hid => .inl (mem_voiceIds_erase.1 hid).1

theorem markStopped (h : inst.Orderly late) (id : VoiceId) : (inst.markStopped id).Orderly late :=
  h.of_unannounced (Nat.le_refl _) rfl fun _ hid => .inl (by rwa [voiceIds_markStopped] at hid)

theorem observing (h : inst.Orderly late) (topic : Topic) (list : List Observer) :
    (inst.observing topic list).Orderly late :=
  h.of_unannounced (Nat.le_refl _) rfl fun _ hid => .inl hid

theorem note {event : Event} (h : inst.Orderly late) (hdue : Due late inst event) :
    (inst.note event).Orderly late where
  numbered := h.numbered
  holds a ha := by
    rcases List.mem_append.1 ha with ha | ha
    · exact h.holds a ha
    · obtain rfl := List.mem_singleton.1 ha
      cases event with
      | started id time => exact hdue
      | ended id => exact hdue.2
      | voices count => exact Eq.trans hdue (List.length_map Voice.id).symm
  gone id hid := by
    rw [announced_note] at hid
    rcases List.mem_append.1 hid with hid | hid
    · exact h.gone id hid
    · obtain rfl := List.mem_singleton.1 hid
      exact hdue
  since := by
    refine List.pairwise_append.2 ⟨h.since, List.pairwise_singleton _ _, fun a ha b hb id hid => ?_⟩
    obtain rfl := List.mem_singleton.1 hb
    exact (h.gone id (List.mem_map.2 ⟨a, ha, hid⟩)).2

-- Only what has been handed out can be late.
theorem mono (h : inst.Orderly late) (hlate : ∀ id < inst.nextId, late id → late' id) :
    inst.Orderly late' where
  numbered := h.numbered
  holds a ha := (h.holds a ha).mono fun id hid => ⟨hid.1, hlate id hid.1 hid.2⟩
  gone := h.gone
  since := h.since

-- A voice that is registered when it starts has not been announced to have ended by then.
theorem ordered (h : inst.Orderly late) {id : VoiceId} {time : Float} {past rest : List Event}
    (hstart : inst.announced = past ++ .started id time :: rest) : .ended id ∉ past ∨ late id := by
  obtain ⟨before, after, hall, rfl, hafter⟩ := List.map_eq_append_iff.1 hstart
  obtain ⟨a, later, rfl, hevent, -⟩ := List.map_eq_cons_iff.1 hafter
  have ha : a ∈ inst.announcements := by
    rw [hall]
    simp
  have hholds := h.holds a ha
  rw [Announcement.Holds, hevent] at hholds
  refine hholds.imp (fun hregistered hended => ?_) And.right
  obtain ⟨b, hb, hbended⟩ := List.mem_map.1 hended
  have hsince := h.since
  rw [hall] at hsince
  exact (List.pairwise_append.1 hsince).2.2 b hb a List.mem_cons_self id hbended hregistered

end Orderly

end Instrument

-- Every instrument is, and plays where nodes can be made.
structure Studio.Orderly (late : InstrumentId → VoiceId → Prop) (s : Studio) : Prop where
  opened : ∀ k, s.Opened (s.instrument k).context
  instruments : ∀ k, (s.instrument k).Orderly (late k)

-- Its instruments stay orderly.
def Orders (late : InstrumentId → VoiceId → Prop) (s t : Studio) : Prop :=
  s.Orderly late → t.Orderly late ∧ ∀ k, (s.instrument k).nextId ≤ (t.instrument k).nextId

section Orders

variable {late : InstrumentId → VoiceId → Prop} {s t : Studio} {k : InstrumentId}

instance : IsPreorder Studio (Orders late) where
  refl _ h := ⟨h, fun _ => Nat.le_refl _⟩
  trans _ _ _ h h' hs :=
    have ⟨ht, hle⟩ := h hs
    have ⟨hu, hle'⟩ := h' ht
    ⟨hu, fun k => Nat.le_trans (hle k) (hle' k)⟩

instance : Clocks (Orders late) where
  offstage s t h hs := by
    have hsame := Studio.instrument_congr h.instruments
    refine ⟨⟨fun k => ?_, fun k => ?_⟩, fun k => Nat.le_of_eq ?_⟩ <;> rw [hsame]
    · exact h.opened _ (hs.opened k)
    · exact hs.instruments k

-- A step of one instrument that is in order.
theorem orders_step {f : Instrument → Instrument}
    (hcontext : (f (s.instrument k)).context = (s.instrument k).context)
    (hnext : (s.instrument k).nextId ≤ (f (s.instrument k)).nextId)
    (hf : k < s.instruments.size → (s.instrument k).Orderly (late k) →
      (f (s.instrument k)).Orderly (late k)) :
    Orders late s { s with instruments := s.instruments.modify k f } := by
  intro hs
  have hwhere (j : InstrumentId) := s.instrument_modify k j f
  refine ⟨⟨fun j => ?_, fun j => ?_⟩, fun j => ?_⟩ <;> rw [hwhere j] <;> split
  · rename_i h
    obtain ⟨rfl, -⟩ := h
    rw [hcontext]
    exact hs.opened k
  · exact hs.opened j
  · rename_i h
    obtain ⟨rfl, hk⟩ := h
    exact hf hk (hs.instruments k)
  · exact hs.instruments j
  · rename_i h
    obtain ⟨rfl, -⟩ := h
    exact hnext
  · exact Nat.le_refl _

theorem orders_stopped (id : VoiceId) :
    Keeps (Orders late) (changeInstrument k (·.markStopped id)) :=
  keeps_modify fun _ => orders_step rfl (Nat.le_refl _) fun _ h => h.markStopped id

theorem orders_register (node : Node) :
    Orders late s { s with instruments := s.instruments.modify k (·.register node) } :=
  orders_step rfl (by simp [Instrument.nextId_register]) fun _ h => h.register node

theorem orders_registered (node : Node) :
    Keeps (Orders late) (changeInstrument k (·.register node)) :=
  keeps_modify fun _ => orders_register node

theorem orders_observing (topic : Topic) (list : Instrument → List Observer) :
    Keeps (Orders late) (changeInstrument k fun i => i.observing topic (list i)) :=
  keeps_modify fun _ => orders_step rfl (Nat.le_refl _) fun _ h => h.observing topic _

theorem orders_hear (notice : Notice) : Keeps (Orders late) (hear notice) :=
  keeps_modify fun _ hs => ⟨⟨hs.opened, hs.instruments⟩, fun _ => Nat.le_refl _⟩

-- What is announced when it is due keeps instruments orderly.
def Announces (late : InstrumentId → VoiceId → Prop) (emit : Instrument.Emit) : Prop :=
  ∀ k event s, (k < s.instruments.size → Instrument.Due (late k) (s.instrument k) event) →
    Along (Orders late) (emit k event) s fun _ _ => True

theorem announces_announce : Announces late Instrument.announce :=
  fun _ _ _ hdue => along_modify (orders_step rfl (Nat.le_refl _) fun hk h => h.note (hdue hk))

section Emit

variable {emit : Instrument.Emit} (hemit : Announces late emit)
include hemit

theorem orders_countVoices (k : InstrumentId) :
    Keeps (Orders late) (Instrument.countVoices emit k) :=
  fun s => along_instrument (hemit k _ s fun _ => rfl)

-- What is removed was registered, and is announced to have ended once it is no longer.
theorem orders_remove (k : InstrumentId) (id : VoiceId) :
    Keeps (Orders late) (Instrument.remove emit k id) := by
  refine keeps_where (p := (·.Orderly late)) (fun s t hvoid hs => absurd hs hvoid) fun s hs => ?_
  refine along_instrument ?_
  split
  case h_1 => exact along_pure trivial
  case h_2 voice hvoice =>
      have hmem : id ∈ (s.instrument k).voiceIds :=
        Instrument.voice?_isSome.1 (Option.isSome_of_eq_some hvoice)
      have hid : id < (s.instrument k).nextId := (hs.instruments k).numbered id hmem
      have herase : Along (Orders late) (changeInstrument k (·.erase id)) s fun _ t =>
          k < t.instruments.size → t.instrument k = (s.instrument k).erase id :=
        along_modified (orders_step rfl (Nat.le_refl _) fun _ h => h.erase id)
          fun hk => Studio.instrument_of_modify (f := (·.erase id)) rfl (by simpa using hk)
      refine along_bind herase fun _ t _ ht => ?_
      have hcut := Instrument.stages_disconnect (R := Backstage) id voice.node
      refine along_bind ((stages_of_keeps (R := Orders late) hcut).both hcut t) fun _ u _ htu => ?_
      refine along_bind (hemit k (.ended id) u fun hk => ?_) fun _ v _ _ =>
        orders_countVoices hemit k v
      rw [htu.instruments] at hk
      rw [Studio.instrument_congr htu.instruments, ht hk]
      exact ⟨hid, fun h => (Instrument.mem_voiceIds_erase.1 h).2 rfl⟩

theorem orders_track (node : Node) : Keeps (Orders late) (Instrument.track emit k node) :=
  Instrument.stages_track orders_registered (orders_remove hemit k) node

end Emit

-- What is to be played has ended already.
def Play.Over (s : Studio) : Play → Prop
  | .node played => (played.state s).ended = true
  | .value _ => False

-- Whatever is made out of a value is new, so it has not ended.
theorem live_nodeFor (hopen : s.Opened (s.instrument k).context) (play : Play) :
    Along Backstage ((s.instrument k).nodeFor play) s fun node t =>
      (t.ledger.fate node.id).ended = true ↔ play.Over s := by
  cases play with
  | node node =>
      refine along_pure ?_
      rw [Play.Over, node.state_ended]
  | value x =>
      unfold Instrument.nodeFor
      dsimp only
      split
      case h_2 => exact along_throw _
      case h_1 recipe hsynth =>
          have hnew (id : NodeId) (hid : s.ledger.size ≤ id) : (s.ledger.fate id).ended = false :=
            congrArg Fate.ended (Studio.fate_of_size_le hid)
          have houtput : s.ledger.HasHost (s.instrument k).context Engine.destination := by
            rw [Ledger.HasHost, s.host_eq hopen.1, Engine.hosts, Engine.destination]
            simpa using hopen.2
          have hready : s.ledger.Ready s.ledger.size (s.instrument k).context :=
            ⟨Nat.le_refl _, hopen.1, houtput⟩
          refine Ends.mono (Ends.and (Recipe.offering_build hready)
            (Recipe.keeps_build (R := Backstage) recipe x s))
            (fun node t h => ⟨h.2.1, fun hended => ?_, False.elim⟩)
            fun _ _ h => h.2
          rw [h.1.1.ended hnew, hnew _ h.1.2.late] at hended
          cases hended

theorem live_ready (hopen : s.Opened (s.instrument k).context) (play : Play) :
    Along Backstage ((s.instrument k).ready play) s fun node t =>
      (t.ledger.fate node.id).ended = true ↔ play.Over s := by
  refine along_bind (live_nodeFor hopen play) fun node t _ hlive => ?_
  split
  case h_2 => exact along_pure hlive
  case h_1 destination _ =>
      have hconnects := (node.keeps_connect (R := Backstage) (.node destination)).both
        (node.keeps_connect (R := Settled) (.node destination)) t
      refine along_bind hconnects fun _ u _ htu => along_pure ?_
      rwa [htu.ended]

section Steps

variable {R : Studio → Studio → Prop} [Stages R] {emit : Instrument.Emit}
variable {time delay duration : Option Float}

-- Whatever is to be played is made ready, and others are stopped for it, before it enters.
theorem ends_entering {play : Play} {ok : Node → Studio → Prop} {fail : Error → Studio → Prop}
    (hopen : s.Opened (s.instrument k).context)
    (hstopped : ∀ id, Keeps R (changeInstrument k (·.markStopped id)))
    (hfail : ∀ e t, R s t → fail e t)
    (henter : ∀ node t u, Backstage s t → R s u →
      Instrument.Steals k (Time.resolve time delay (t.now node.context)) (t.instrument k).excess t u →
      ((u.ledger.fate node.id).ended = true ↔ play.Over s) →
      Ends (Instrument.enter emit k node (Time.resolve time delay (t.now node.context)) duration) u
        ok fail) :
    Ends (Instrument.startWith emit k play time delay duration) s ok fail := by
  rw [Instrument.startWith_eq, ends_bind, Act.instrument, ends_bind, ends_get, ends_pure, ends_bind]
  refine Ends.mono (live_ready hopen play) (fun node t h => ?_)
    fun e t hback => hfail e t (Stages.backstage s t hback)
  obtain ⟨hback, hlive⟩ := h
  have hst : R s t := Stages.backstage s t hback
  have hsteal : Along R (Instrument.steal k (Time.resolve time delay (t.now node.context)))
      t fun _ u => Instrument.Steals k (Time.resolve time delay (t.now node.context))
        (t.instrument k).excess t u :=
    along_instrument ((Instrument.stages_stopEach hstopped (fun _ => keeps_pure _) _ t).outcome.mono
      fun _ _ _ h => Instrument.steals_of_ok h.2)
  rw [ends_bind, Act.now, ends_bind, ends_get, ends_pure, ends_bind]
  refine Ends.mono hsteal (fun _ u h => ?_) fun e u htu => hfail e u (trans_of R hst htu)
  obtain ⟨htu, hsteals⟩ := h
  refine henter node t u hback (trans_of R hst htu) hsteals ?_
  rwa [hsteals.ended]

theorem along_entering {play : Play} {ok : Node → Studio → Prop}
    (hopen : s.Opened (s.instrument k).context)
    (hstopped : ∀ id, Keeps R (changeInstrument k (·.markStopped id)))
    (henter : ∀ node t u, Backstage s t → R s u →
      Instrument.Steals k (Time.resolve time delay (t.now node.context)) (t.instrument k).excess t u →
      ((u.ledger.fate node.id).ended = true ↔ play.Over s) →
      Along R (Instrument.enter emit k node (Time.resolve time delay (t.now node.context)) duration) u
        ok) :
    Along R (Instrument.startWith emit k play time delay duration) s ok :=
  ends_entering hopen hstopped (fun _ _ h => h) fun node t u hback hsu hsteals hover =>
    Ends.mono (henter node t u hback hsu hsteals hover)
      (fun _ _ h => ⟨trans_of R hsu h.1, h.2⟩) fun _ _ h => trans_of R hsu h

theorem stages_registering (node : Node)
    (hregistered : R s { s with instruments := s.instruments.modify k (·.register node) }) :
    R s (s.registering k node) := by
  let t : Studio := { s with instruments := s.instruments.modify k (·.register node) }
  have hmark : Backstage t (s.registering k node) := .of_eq rfl rfl rfl
  exact trans_of R hregistered (Stages.backstage _ _ hmark)

-- A node that has not ended is tracked until it has.
theorem along_track_live {node : Node} (hlive : (s.ledger.fate node.id).ended = false)
    (hregistered : R s { s with instruments := s.instruments.modify k (·.register node) }) :
    Along R (Instrument.track emit k node) s fun id t =>
      id = (s.instrument k).nextId ∧ Backstage (s.registering k node) t := by
  have hlisten : Keeps Backstage (changeNode node.id fun state =>
      { state with listeners := state.listeners ++ [.voice k (s.instrument k).nextId] }) :=
    Backstage.keeps_changeNode _ _
  have hregistering : R s (s.registering k node) := stages_registering node hregistered
  unfold Along
  rw [ends_track_iff, hlive, if_neg Bool.false_ne_true]
  refine Ends.mono (hlisten _) (fun _ t h => ?_) fun _ t h =>
    trans_of R hregistering (Stages.backstage _ t h)
  exact ⟨trans_of R hregistering (Stages.backstage _ t h.1), rfl, h.1⟩

-- A value is played by something new, which ends only later.
theorem along_playValue (hopen : s.Opened (s.instrument k).context)
    (hstopped : ∀ id, Keeps R (changeInstrument k (·.markStopped id)))
    (hregistered : ∀ s node, R s { s with instruments := s.instruments.modify k (·.register node) })
    (hemit : ∀ event : Event, event.topic ≠ .ended → Keeps R (emit k event)) (x : Float) :
    Along R (Instrument.startWith emit k (.value x) time delay duration) s fun _ _ => True := by
  refine along_entering hopen hstopped fun node t u _ _ _ hover => ?_
  have hlive : (u.ledger.fate node.id).ended = false := Bool.eq_false_iff.2 hover.1
  refine along_bind (along_track_live hlive (hregistered u node)) fun id v _ _ => ?_
  refine keeps_bind (Instrument.stages_sound node _ duration) (fun _ => ?_) v
  refine keeps_bind (hemit _ (by simp [Event.topic])) fun _ => ?_
  refine keeps_bind (keeps_bind (keeps_instrument k) fun _ => ?_) fun _ => keeps_pure _
  exact hemit _ (by simp [Event.topic])

end Steps

section Start

variable {emit : Instrument.Emit} (hemit : Announces late emit) {node : Node}
include hemit

-- Once it is tracked a voice may start: it is registered then, unless it had ended.
theorem along_track (hs : s.Orderly late) (hover : (s.ledger.fate node.id).ended = true →
      k < s.instruments.size ∧ late k (s.instrument k).nextId) :
    Along (Orders late) (Instrument.track emit k node) s fun id t =>
      ∀ time, k < t.instruments.size → Instrument.Due (late k) (t.instrument k) (.started id time) := by
  have hregistering : Orders late s (s.registering k node) :=
    stages_registering node (orders_register node)
  have hregistered (hk : k < s.instruments.size) :
      (s.registering k node).instrument k = (s.instrument k).register node :=
    Studio.instrument_of_modify (t := s.registering k node) (f := (·.register node)) rfl hk
  cases hended : (s.ledger.fate node.id).ended with
  | true =>
      obtain ⟨hk, hlate⟩ := hover hended
      have hnext : (s.instrument k).nextId < ((s.registering k node).instrument k).nextId := by
        rw [hregistered hk, Instrument.nextId_register]
        exact Nat.lt_succ_self _
      unfold Along
      rw [ends_track_iff, hended, if_pos rfl]
      refine Ends.mono (orders_remove hemit k _ (s.registering k node)) (fun _ t ht => ?_)
        fun _ _ ht => trans_of (Orders late) hregistering ht
      refine ⟨trans_of (Orders late) hregistering ht.1, fun _ _ => .inr ⟨?_, hlate⟩⟩
      exact Nat.lt_of_lt_of_le hnext ((ht.1 (hregistering hs).1).2 k)
  | false =>
      refine (along_track_live hended (orders_register node)).mono ?_
      rintro - t - ⟨rfl, hback⟩ time hk
      rw [hback.instruments] at hk
      rw [Instrument.Due, Studio.instrument_congr hback.instruments,
        hregistered (by simpa [Studio.registering] using hk), Instrument.voiceIds_register]
      exact .inl (List.mem_append_right _ (List.mem_singleton_self _))

theorem along_enter (hs : s.Orderly late) (hover : (s.ledger.fate node.id).ended = true →
      k < s.instruments.size ∧ late k (s.instrument k).nextId)
    (time : Float) (duration : Option Float) :
    Along (Orders late) (Instrument.enter emit k node time duration) s fun _ _ => True := by
  refine along_bind (along_track hemit hs hover) fun id t _ hdue => ?_
  have hsound := (Instrument.stages_sound (R := Orders late) node time duration).both
    (Instrument.stages_sound (R := Backstage) node time duration) t
  refine along_bind hsound fun _ u _ htu => ?_
  refine along_bind (hemit k (.started id time) u fun hk => ?_) fun _ v _ _ =>
    keeps_bind (orders_countVoices hemit k) (fun _ => keeps_pure node) v
  rw [htu.instruments] at hk
  rw [Studio.instrument_congr htu.instruments]
  exact hdue time hk

theorem orders_startWith {play : Play} (hs : s.Orderly late) (hover : play.Over s →
      k < s.instruments.size ∧ late k (s.instrument k).nextId) (time delay duration : Option Float) :
    Along (Orders late) (Instrument.startWith emit k play time delay duration) s
      fun _ _ => True := by
  refine along_entering (hs.opened k) orders_stopped fun node t u hback hsu hsteals hover' => ?_
  refine along_enter hemit (hsu hs).1 (fun hended => ?_) _ duration
  obtain ⟨hk, hlate⟩ := hover (hover'.1 hended)
  have hkt : k < t.instruments.size := by rwa [hback.instruments]
  have hnext : (u.instrument k).nextId = (s.instrument k).nextId := by
    rw [Studio.instrument_of_modify hsteals.instruments hkt, Instrument.nextId,
      Instrument.played_markAll, Studio.instrument_congr hback.instruments, Instrument.nextId]
  exact ⟨by rwa [hsteals.instruments, Array.size_modify], hnext ▸ hlate⟩

theorem orders_playValue (x : Float) (time delay duration : Option Float) :
    Keeps (Orders late) (Instrument.startWith emit k (.value x) time delay duration) :=
  keeps_where (p := (·.Orderly late)) (fun _ _ hvoid hs => absurd hs hvoid) fun _ hs =>
    orders_startWith hemit hs False.elim time delay duration

theorem orders_tell (event : Event) (observer : Observer) :
    Keeps (Orders late) (Instrument.tell emit k event observer) := by
  refine keeps_bind (orders_hear _) fun _ => ?_
  dsimp only
  split
  · refine keeps_bind (Instrument.stages_perform orders_stopped ?_ ?_) fun _ => keeps_pure _
    · exact fun _ => orders_observing _ _
    · exact fun x duration _ => orders_playValue hemit x none none duration
  · exact keeps_pure _

theorem announces_deliver : Announces late (Instrument.deliver emit) := by
  intro k event s hdue
  refine along_bind (announces_announce k event s hdue) fun _ t _ _ => ?_
  refine keeps_bind (keeps_instrument k) (fun _ => ?_) t
  refine keeps_bind (orders_observing _ _) fun _ => ?_
  refine keeps_bind (keeps_mapM fun observer _ => orders_tell hemit event observer) fun _ => ?_
  exact orders_observing _ _

end Start

theorem announces_emitAt (depth : Nat) : Announces late (Instrument.emitAt depth) := by
  induction depth with
  | zero => exact announces_deliver announces_announce
  | succ depth ih => exact announces_deliver ih

theorem orders_advanceTo (context : ContextId) (time : Float) :
    Keeps (Orders late) (Act.advanceTo context time) :=
  fun s => along_advanceTo (orders_remove (announces_emitAt s.credit)) context time

end Orders

-- The command is to play a node that has ended.
def Command.PlaysEnded (s : Studio) (k : InstrumentId) : Command → Prop
  | .play inst id _ _ _ => inst = k ∧ ∃ node, s.node? id = some node ∧ (node.state s).ended = true
  | _ => False

-- What a command makes of orderly instruments, where a voice is late if the node that is to be played
-- has ended.
theorem Command.orders {late : InstrumentId → VoiceId → Prop} {s : Studio} {command : Command}
    (hlate : ∀ k, command.PlaysEnded s k → late k (s.instrument k).nextId)
    (hs : ∀ k, (s.instrument k).Orderly (late k)) (hopen : ∀ k, s.Opened (s.instrument k).context) :
    ∀ act, command.act? s = some act → ∀ k, ((act.after s).instrument k).Orderly (late k) := by
  intro act hact
  have hafter (h : Along (Orders late) act s fun _ _ => True) (k : InstrumentId) :
      ((act.after s).instrument k).Orderly (late k) := by
    refine after_of_ends (P := fun t => (t.instrument k).Orderly (late k)) (Ends.mono h ?_ ?_)
    · exact fun _ t ht => (ht.1 ⟨hopen, hs⟩).1.instruments k
    · exact fun _ t ht => (ht ⟨hopen, hs⟩).1.instruments k
  have hstart {k : InstrumentId} {play : Play} {time delay duration : Option Float}
      (hk : s.hasInstrument k = true) (hover : play.Over s → late k (s.instrument k).nextId) :
      Along (Orders late) (discard (Instrument.start k play time delay duration)) s
        fun _ _ => True :=
    along_map (along_emitter (orders_startWith (announces_emitAt _) ⟨hopen, hs⟩
      (fun h => ⟨of_decide_eq_true hk, hover h⟩) time delay duration)) fun _ _ _ => trivial
  cases command.staged act hact with
  | backstage h => exact hafter (stages_of_keeps h s)
  | add hmake =>
      refine fun k => after_of_ends (P := fun t => (t.instrument k).Orderly (late k)) ?_
      rw [ends_bind]
      refine Ends.mono hmake (fun inst t ht => ?_) fun _ t ht => ?_
      · rw [ends_discard, Instrument.add, ends_modifyGet, t.instrument_push]
        split
        · exact .blank ht.2
        · rw [Studio.instrument_congr ht.1.instruments]
          exact hs k
      · rw [Studio.instrument_congr ht.instruments]
        exact hs k
  | play k id time delay duration hk hnode =>
      exact hafter (hstart hk fun hover => hlate k ⟨rfl, _, hnode, hover⟩)
  | playValue k x time delay duration hk => exact hafter (hstart hk False.elim)
  | track k id hk hnode =>
      exact hafter (along_emitter (keeps_map _ (orders_track (announces_emitAt _) _) s))
  | stopVoices k ids time delay =>
      exact hafter (Instrument.stages_stop orders_stopped ids time delay s)
  | observe k topic observer => exact hafter (orders_observing topic _ s)
  | advanceTo context time => exact hafter (orders_advanceTo context time s)
  | advanceBy context seconds => exact hafter (along_now (orders_advanceTo context _ s))

namespace Session

-- The voice was handed to a node that had ended by then.
def Late (rate : Float) (commands : List Command) (k : InstrumentId) (id : VoiceId) : Prop :=
  ∃ before command after, commands = before ++ command :: after ∧
    command.PlaysEnded (run rate before).studio k ∧
    ((run rate before).studio.instrument k).nextId = id ∧
    id < ((run rate (before ++ [command])).studio.instrument k).nextId

theorem opened_run (rate : Float) (commands : List Command) (k : InstrumentId) :
    (run rate commands).studio.Opened ((run rate commands).studio.instrument k).context := by
  have hs := (lawful_run rate commands).sound
  have hc : ((run rate commands).studio.instrument k).context <
      (run rate commands).studio.engines.size :=
    opened_of_sound hs k
  have houtput := hs.output _ hc
  refine ⟨hc, ?_⟩
  rw [Ledger.HasHost, moment, Studio.host_eq _ hc] at houtput
  simpa [Engine.hosts, Engine.destination] using houtput

theorem orderly_run (rate : Float) (commands : List Command) (k : InstrumentId) :
    ((run rate commands).studio.instrument k).Orderly (Late rate commands k) := by
  induction commands using List.reverseRecOn generalizing k with
  | nil => exact .blank (Instrument.blank_new 0)
  | append_singleton commands command ih =>
      let late (j : InstrumentId) (id : VoiceId) : Prop := Late rate commands j id ∨
        command.PlaysEnded (run rate commands).studio j ∧
          ((run rate commands).studio.instrument j).nextId = id
      have hbefore (j : InstrumentId) :
          ((run rate commands).studio.instrument j).Orderly (late j) :=
        (ih j).mono fun _ _ => .inl
      have hafter : ((run rate (commands ++ [command])).studio.instrument k).Orderly (late k) := by
        rw [run_concat, perform]
        split
        case h_1 act hact =>
            exact Command.orders (fun j hplays => .inr ⟨hplays, rfl⟩) hbefore
              (opened_run rate commands) act hact k
        case h_2 => exact hbefore k
      refine hafter.mono fun id hid hlate => ?_
      rcases hlate with ⟨before, earlier, after, rfl, hplays⟩ | ⟨hplays, hnext⟩
      · exact ⟨before, earlier, after ++ [command], by simp, hplays⟩
      · exact ⟨commands, command, [], rfl, hplays, hnext, hid⟩

-- Whatever is announced is so at that moment: a voice that starts is registered then, and so its end
-- was not announced before, unless it was handed to a node that had ended already.
theorem starts_before_it_ends (rate : Float) (commands : List Command) (k : InstrumentId) :
    (∀ a ∈ ((run rate commands).studio.instrument k).announcements,
      a.Holds (Late rate commands k)) ∧
    ∀ id time past rest, ((run rate commands).studio.instrument k).announced =
      past ++ .started id time :: rest → .ended id ∉ past ∨ Late rate commands k id := by
  have horderly := orderly_run rate commands k
  exact ⟨fun a ha => (horderly.holds a ha).mono fun _ => And.right, fun _ _ _ _ => horderly.ordered⟩

-- A tone that is played again when it is over.
def replayed : List Command := [
  .make 0 (.oscillator .sine (.fixed 440) none),
  .start 0 0,
  .stop 0 1,
  .advanceTo 0 1,
  .instrument 0 false none none 0,
  .play 0 0 none none none]

theorem announcements_replayed : ((run 44100 replayed).studio.instrument 0).announcements =
    [⟨.ended 0, []⟩, ⟨.voices 0, []⟩, ⟨.started 0 1, []⟩, ⟨.voices 0, []⟩] := by
  decide +kernel

theorem announced_replayed : ((run 44100 replayed).studio.instrument 0).announced =
    [.ended 0, .voices 0] ++ .started 0 1 :: [.voices 0] := by
  rw [Instrument.announced, announcements_replayed]
  rfl

theorem started_replayed :
    ⟨.started 0 1, []⟩ ∈ ((run 44100 replayed).studio.instrument 0).announcements := by
  rw [announcements_replayed]
  decide

theorem replay_is_late :
    ⟨.started 0 1, []⟩ ∈ ((run 44100 replayed).studio.instrument 0).announcements ∧
      Late 44100 replayed 0 0 ∧
      (.ended 0 ∉ [Event.ended 0, .voices 0] ∨ Late 44100 replayed 0 0) := by
  obtain ⟨hholds, hordered⟩ := starts_before_it_ends 44100 replayed 0
  have hlate : 0 ∈ [] ∨ Late 44100 replayed 0 0 := hholds _ started_replayed
  exact ⟨started_replayed, hlate.resolve_left (by decide), hordered 0 1 _ _ announced_replayed⟩

-- A start is announced of a voice that is not registered, and after its end.
theorem ends_before_it_starts :
    (¬∀ (rate : Float) (commands : List Command) (k : InstrumentId),
      ∀ a ∈ ((run rate commands).studio.instrument k).announcements, ∀ id time,
        a.event = .started id time → id ∈ a.registered) ∧
    ¬∀ (rate : Float) (commands : List Command) (k : InstrumentId) (id : VoiceId) (time : Float)
      (past rest : List Event), ((run rate commands).studio.instrument k).announced =
        past ++ .started id time :: rest → .ended id ∉ past := by
  constructor
  · intro h
    exact absurd (h 44100 replayed 0 _ started_replayed 0 1 rfl) (by decide)
  · intro h
    exact h 44100 replayed 0 0 1 _ _ announced_replayed (by decide)

end Session

end Patchbay
