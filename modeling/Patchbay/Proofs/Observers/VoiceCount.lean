import Patchbay.Proofs.Observers.Relay

namespace Patchbay

open Act

-- Whoever observes the number of voices under the tag was told the right one last, unless it stayed and
-- nothing was told.
def Tallied (k : InstrumentId) (tag : String) (s t : Studio) : Prop :=
  ∃ later, t.heardBy tag = s.heardBy tag ++ later ∧
    (later = [] ∧ (t.instrument k).voices.length = (s.instrument k).voices.length ∨
      later.getLast? = some (.voices (t.instrument k).voices.length))

section Tallied

variable {k : InstrumentId} {tag : String} {s t u : Studio}

namespace Tallied

theorem of_same (hheard : t.heardBy tag = s.heardBy tag)
    (hcount : (t.instrument k).voices.length = (s.instrument k).voices.length) : Tallied k tag s t :=
  ⟨[], by rw [hheard, List.append_nil], .inl ⟨rfl, hcount⟩⟩

theorem trans (h : Tallied k tag s t) (h' : Tallied k tag t u) : Tallied k tag s u := by
  obtain ⟨later, hlater, hlast⟩ := h
  obtain ⟨more, hmore, hlast'⟩ := h'
  refine ⟨later ++ more, by rw [hmore, hlater, List.append_assoc], ?_⟩
  rcases hlast' with ⟨rfl, hcount⟩ | hlast'
  · rwa [List.append_nil, hcount]
  · exact .inr (by rw [List.getLast?_append, hlast']; rfl)

end Tallied

-- However many voices there were meanwhile, once they are counted the count is right.
theorem Relay.tallied {topic : Topic} (h : Relay k topic tag s t)
    (hheard : u.heardBy tag = t.heardBy tag ++ [.voices (t.instrument k).voices.length])
    (hcount : (u.instrument k).voices.length = (t.instrument k).voices.length) : Tallied k tag s u := by
  obtain ⟨later, -, hlater⟩ := h.relayed
  refine ⟨later.filter (·.topic = topic) ++ [.voices (t.instrument k).voices.length], ?_, .inr ?_⟩
  · rw [hheard, hlater, List.append_assoc]
  · rw [hcount, List.getLast?_append]
    rfl

end Tallied

-- The number of voices is observed under the tag, with no more reactions left than the depth.
structure Studio.Heeded (s : Studio) (depth : Nat) (k : InstrumentId) (tag : String) : Prop where
  credit : s.credit ≤ depth
  opens : s.Opens
  attended : s.Attended k .voices tag

-- From where it is observed it is told.
def Tallies (depth : Nat) (k : InstrumentId) (tag : String) (s t : Studio) : Prop :=
  s.Heeded depth k tag → t.Heeded depth k tag ∧ Relay k .voices tag s t ∧ Tallied k tag s t

section Tallies

variable {depth : Nat} {k j : InstrumentId} {tag : String} {s t : Studio}

theorem Relays.heeded (h : Relays depth k .voices tag s t) (hs : s.Heeded depth k tag) :
    t.Heeded depth k tag ∧ Relay k .voices tag s t :=
  have ⟨hcredit, hopens, hrelay⟩ := h hs.credit hs.opens hs.attended
  ⟨⟨hcredit.trans hs.credit, hopens, hrelay.attended⟩, hrelay⟩

theorem tallies_of_same (h : Relays depth k .voices tag s t) (hheard : t.heardBy tag = s.heardBy tag)
    (hcount : (t.instrument k).voices.length = (s.instrument k).voices.length) :
    Tallies depth k tag s t :=
  fun hs => ⟨(h.heeded hs).1, (h.heeded hs).2, .of_same hheard hcount⟩

instance : IsPreorder Studio (Tallies depth k tag) where
  refl s := tallies_of_same (refl s) rfl rfl
  trans _ _ _ h h' hs :=
    have ⟨ht, hrelay, htallied⟩ := h hs
    have ⟨hu, hrelay', htallied'⟩ := h' ht
    ⟨hu, hrelay.trans hrelay', htallied.trans htallied'⟩

instance : Clocks (Tallies depth k tag) where
  offstage s t h := tallies_of_same (Clocks.offstage s t h) (h.heard tag)
    (by rw [Studio.instrument_congr h.instruments])

-- What the act comes to in a studio where the number is observed.
theorem ends_heeded {α : Type} {act : Act α} (h : Keeps (Relays depth k .voices tag) act)
    (hs : s.Heeded depth k tag) : Ends act s
      (fun _ t => t.Heeded depth k tag ∧ Relay k .voices tag s t)
      fun _ t => t.Heeded depth k tag ∧ Relay k .voices tag s t :=
  Ends.mono (h s) (fun _ _ ht => ht.1.heeded hs) fun _ _ ht => ht.heeded hs

theorem ends_emitAt (hs : s.Heeded depth k tag) (event : Event) :
    Ends (Instrument.emitAt depth j event) s
      (fun _ t => t.Heeded depth k tag ∧ Relay k .voices tag s t) fun _ _ => False :=
  (Ends.and (Instrument.unfailing_emitAt j depth event s)
    (ends_heeded (relays_emitAt k .voices tag depth j event) hs)).mono (fun _ _ h => h.2)
    fun _ _ h => h.1

theorem ends_countVoices (hs : s.Heeded depth k tag) :
    Ends (Instrument.countVoices (Instrument.emitAt depth) k) s
      (fun _ t => t.Heeded depth k tag ∧ Relay k .voices tag s t ∧
        t.heardBy tag = s.heardBy tag ++ [.voices (s.instrument k).voices.length] ∧
        (t.instrument k).voices.length = (s.instrument k).voices.length)
      fun _ _ => False := by
  have hcalm := hs.attended.calm.resolve_left (by simp)
  have htold : Ends (Instrument.emitAt depth k (.voices (s.instrument k).voices.length)) s
      (fun _ t => t.heardBy tag = s.heardBy tag ++ [.voices (s.instrument k).voices.length] ∧
        (t.instrument k).voices.length = (s.instrument k).voices.length) fun _ _ => False := by
    cases depth with
    | zero =>
        exact (ends_calm ignores_announce hs.attended hcalm).mono
          (fun _ _ h => ⟨h.2.2.2.2.2.2, h.2.2.2.2.1⟩) fun _ _ h => h
    | succ depth =>
        exact (ends_calm (ignores_emitAt depth) hs.attended hcalm).mono
          (fun _ _ h => ⟨h.2.2.2.2.2.2, h.2.2.2.2.1⟩) fun _ _ h => h
  rw [Instrument.countVoices, ends_bind, Act.instrument, ends_bind, ends_get, ends_pure]
  exact (Ends.and (ends_emitAt hs _) htold).mono (fun _ _ h => ⟨h.1.1, h.1.2, h.2⟩) fun _ _ h => h.1

-- Wherever it came from, it is tallied once an event is told and the voices are counted.
theorem ends_emitted (hst : Relay k .voices tag s t) (ht : t.Heeded depth k tag) (event : Event) :
    Ends (do Instrument.emitAt depth k event; Instrument.countVoices (Instrument.emitAt depth) k) t
      (fun _ u => u.Heeded depth k tag ∧ Relay k .voices tag s u ∧ Tallied k tag s u)
      fun _ _ => False := by
  rw [ends_bind]
  refine (ends_emitAt ht event).mono (fun _ u ⟨hu, htu⟩ => ?_) fun _ _ h => h
  refine (ends_countVoices hu).mono (fun _ v ⟨hv, huv, hheard, hcount⟩ => ?_) fun _ _ h => h
  exact ⟨hv, (hst.trans htu).trans huv, (hst.trans htu).tallied hheard hcount⟩

-- So it is once a voice is removed.
theorem ends_removed (hst : Relay k .voices tag s t) (ht : t.Heeded depth k tag) {id : VoiceId}
    (hfound : (t.instrument k).voice? id ≠ none) :
    Ends (Instrument.remove (Instrument.emitAt depth) k id) t
      (fun _ u => u.Heeded depth k tag ∧ Relay k .voices tag s u ∧ Tallied k tag s u)
      fun _ _ => False := by
  refine (Instrument.unfailing_remove k depth id).ends_ok ?_
  rw [Instrument.remove, ends_bind, Act.instrument, ends_bind, ends_get, ends_pure]
  split
  case h_1 hnone => exact absurd hnone hfound
  case h_2 voice _ =>
      rw [ends_bind]
      refine (ends_heeded (hears_erased id) ht).mono (fun _ u h => ?_) fun _ _ _ => trivial
      obtain ⟨hu, htu⟩ := h
      rw [ends_bind]
      refine (ends_heeded (Instrument.stages_disconnect id voice.node) hu).mono (fun _ v h => ?_)
        fun _ _ _ => trivial
      obtain ⟨hv, huv⟩ := h
      exact (ends_emitted ((hst.trans htu).trans huv) hv (.ended id)).mono (fun _ _ h => h)
        fun _ _ _ => trivial

-- The instrument is left alone.
def Elsewhere (k : InstrumentId) (s t : Studio) : Prop := t.instrument k = s.instrument k

instance : IsPreorder Studio (Elsewhere k) where
  refl _ := rfl
  trans _ _ _ h h' := h'.trans h

instance : Clocks (Elsewhere k) where
  offstage _ _ h := Studio.instrument_congr h.instruments k

section Elsewhere

variable (hjk : j ≠ k)
include hjk

theorem elsewhere_change (f : Instrument → Instrument) : Keeps (Elsewhere k) (changeInstrument j f) :=
  keeps_modify fun s => (s.instrument_modify j k f).trans (if_neg fun h => hjk h.1)

theorem elsewhere_emitAt (depth : Nat) (event : Event) :
    Keeps (Elsewhere k) (Instrument.emitAt depth j event) :=
  Instrument.apart_emitAt (elsewhere_change hjk) (fun _ _ => keeps_modify fun _ => rfl) depth event

end Elsewhere

-- What leaves the instrument alone announces nothing of it.
theorem Relay.tallied_elsewhere {topic : Topic} (h : Relay k topic tag s t) (helse : Elsewhere k s t) :
    Tallied k tag s t := by
  obtain ⟨later, hlater, hheard⟩ := h.relayed
  rw [helse, List.self_eq_append_right] at hlater
  rw [hlater, List.filter_nil, List.append_nil] at hheard
  exact .of_same hheard (by rw [helse])

theorem tallies_elsewhere {α : Type} {act : Act α} (h : Keeps (Relays depth k .voices tag) act)
    (helse : Keeps (Elsewhere k) act) : Keeps (Tallies depth k tag) act := by
  intro s
  refine Ends.mono (Ends.and (h s) (helse s)) (fun _ t ht => ⟨fun hs => ?_, trivial⟩)
    fun _ t ht hs => ?_
  · have hrelay := ht.1.1.heeded hs
    exact ⟨hrelay.1, hrelay.2, hrelay.2.tallied_elsewhere ht.2.1⟩
  · have hrelay := ht.1.heeded hs
    exact ⟨hrelay.1, hrelay.2, hrelay.2.tallied_elsewhere ht.2⟩

theorem tallies_remove (j : InstrumentId) (id : VoiceId) :
    Keeps (Tallies depth k tag) (Instrument.remove (Instrument.emitAt depth) j id) := by
  by_cases hjk : j = k
  · subst hjk
    refine keeps_where (p := (·.Heeded depth j tag)) (fun _ _ hvoid hs => absurd hs hvoid)
      fun s hs => ?_
    by_cases hfound : (s.instrument j).voice? id = none
    · refine along_instrument ?_
      rw [show ((s.instruments[j]?).getD (.new 0)).voice? id = none from hfound]
      exact along_pure trivial
    · exact (ends_removed (.of_unheard (Nat.le_refl _) hs.attended rfl rfl) hs hfound).mono
        (fun _ _ h => ⟨fun _ => h, trivial⟩) fun _ _ h => h.elim
  · exact tallies_elsewhere (relays_remove depth j id)
      (Instrument.apart_remove (elsewhere_change hjk) (elsewhere_emitAt hjk depth) id)

theorem tallies_advanceTo (context : ContextId) (time : Float) :
    Along (Tallies s.credit k tag) (Act.advanceTo context time) s fun _ _ => True :=
  along_advanceTo tallies_remove context time

-- Voices are stopped at most.
structure Muted (s t : Studio) : Prop where
  silent : Silent s t
  voices : ∀ k, (t.instrument k).voices.length = (s.instrument k).voices.length

instance : IsPreorder Studio Muted where
  refl s := ⟨refl s, fun _ => rfl⟩
  trans _ _ _ h h' := ⟨trans_of Silent h.silent h'.silent, fun k => (h'.voices k).trans (h.voices k)⟩

instance : Clocks Muted where
  offstage s t h := ⟨.of_offstage h, fun k => by rw [Studio.instrument_congr h.instruments]⟩

theorem muted_stopped (id : VoiceId) : Keeps Muted (changeInstrument j (·.markStopped id)) := by
  refine keeps_modify fun s => ⟨.of_change j (fun _ => rfl) (fun _ => rfl) fun _ => rfl, fun i => ?_⟩
  rw [s.instrument_modify]
  split
  · simp [Instrument.markStopped]
  · rfl

instance : Hears Silent := ⟨fun _ _ h => h⟩

theorem heeded_of_silent (hs : s.Heeded depth k tag) (h : Silent s t) :
    t.Heeded depth k tag ∧ Relay k .voices tag s t :=
  Relays.heeded (Hears.silent s t h) hs

theorem silent_register (s : Studio) (k : InstrumentId) (node : Node) :
    Silent s { s with instruments := s.instruments.modify k (·.register node) } :=
  .of_change k (fun _ => rfl) (fun _ => rfl) fun _ => rfl

section Start

variable {node : Node} {time : Float} {duration : Option Float}

-- From where a voice is tracked on: it starts, which is told, and the voices are counted.
theorem ends_sounded (hst : Relay k .voices tag s t) (ht : t.Heeded depth k tag) (id : VoiceId) :
    Ends (do
        Instrument.sound node time duration
        Instrument.emitAt depth k (.started id time)
        Instrument.countVoices (Instrument.emitAt depth) k
        return node) t
      (fun _ u => Tallied k tag s u) fun _ u => Backstage t u := by
  rw [ends_bind]
  refine Ends.mono (Instrument.stages_sound (R := Backstage) node time duration t)
    (fun _ u ⟨hback, _⟩ => ?_) fun _ _ h => h
  obtain ⟨hu, htu⟩ := heeded_of_silent ht (.of_offstage hback.toOffstage)
  rw [← bind_assoc, ends_bind]
  exact (ends_emitted (hst.trans htu) hu (.started id time)).mono
    (fun _ v h => (ends_pure _).2 h.2.2) fun _ _ h => h.elim

theorem Instrument.voice?_register (inst : Instrument) (node : Node) :
    (inst.register node).voice? inst.nextId ≠ none := by
  simp [voice?, register, List.find?_append]

-- A node that has ended leaves as soon as it is tracked, which is told.
theorem ends_track_ended (hst : Relay k .voices tag s t) (ht : t.Heeded depth k tag)
    (hended : (t.ledger.fate node.id).ended = true) :
    Ends (Instrument.track (Instrument.emitAt depth) k node) t
      (fun _ u => u.Heeded depth k tag ∧ Relay k .voices tag s u ∧ Tallied k tag s u)
      fun _ _ => False := by
  have hregistering : Silent t (t.registering k node) :=
    stages_registering node (silent_register t k node)
  obtain ⟨hu, htu⟩ := heeded_of_silent ht hregistering
  have hfound : ((t.registering k node).instrument k).voice? (t.instrument k).nextId ≠ none := by
    rw [Studio.instrument_of_modify (t := t.registering k node) (f := (·.register node)) rfl
      ht.attended.lt_size]
    exact Instrument.voice?_register _ node
  rw [ends_track_iff, hended, if_pos rfl]
  exact ends_removed (hst.trans htu) hu hfound

theorem ends_enter_ended (hst : Relay k .voices tag s t) (ht : t.Heeded depth k tag)
    (hended : (t.ledger.fate node.id).ended = true) :
    Ends (Instrument.enter (Instrument.emitAt depth) k node time duration) t
      (fun _ u => Tallied k tag s u) fun _ u => Tallied k tag s u := by
  rw [Instrument.enter, ends_bind]
  refine (ends_track_ended hst ht hended).mono (fun id u ⟨hu, hsu, htallied⟩ => ?_) fun _ _ h => h.elim
  refine (ends_sounded hsu hu id).mono (fun _ _ h => h) fun _ v hback => ?_
  exact htallied.trans (.of_same (hback.heard tag) (by rw [Studio.instrument_congr hback.instruments]))

-- One that has not is counted when it has started, and nothing is told if it cannot be.
theorem ends_enter_live (hst : Relay k .voices tag s t) (ht : t.Heeded depth k tag)
    (hlive : (t.ledger.fate node.id).ended = false) :
    Ends (Instrument.enter (Instrument.emitAt depth) k node time duration) t
      (fun _ u => Tallied k tag s u) fun _ u => u.heardBy tag = t.heardBy tag := by
  rw [Instrument.enter, ends_bind]
  refine Ends.mono (along_track_live (R := Silent) hlive (silent_register t k node))
    (fun id u h => ?_) fun _ u h => h.heard tag
  obtain ⟨hu, htu⟩ := heeded_of_silent ht h.1
  refine (ends_sounded (hst.trans htu) hu id).mono (fun _ _ h => h) fun _ v hback => ?_
  rw [hback.heard, h.1.heard]

theorem ends_startWith (hs : s.Heeded depth k tag) (play : Play) (time delay duration : Option Float) :
    Ends (Instrument.startWith (Instrument.emitAt depth) k play time delay duration) s
      (fun _ t => Tallied k tag s t) fun _ t =>
        (play.Over s → Tallied k tag s t) ∧ (¬play.Over s → t.heardBy tag = s.heardBy tag) := by
  refine ends_entering (R := Muted) (hs.opens k) muted_stopped (fun _ t h => ?_) ?_
  · exact ⟨fun _ => .of_same (h.silent.heard tag) (h.voices k), fun _ => h.silent.heard tag⟩
  · intro node _ u _ hsu _ hover
    obtain ⟨hu, hrelay⟩ := heeded_of_silent hs hsu.silent
    cases hended : (u.ledger.fate node.id).ended with
    | true =>
        refine (ends_enter_ended hrelay hu hended).mono (fun _ _ h => h) fun _ t h => ⟨fun _ => h, ?_⟩
        exact fun hnot => absurd (hover.1 hended) hnot
    | false =>
        refine (ends_enter_live hrelay hu hended).mono (fun _ _ h => h)
          fun _ t h => ⟨fun hyes => ?_, fun _ => ?_⟩
        · rw [hover.2 hyes] at hended
          cases hended
        · rw [h, hsu.silent.heard]

end Start

end Tallies

-- A voice is tracked before it has ended, or there is none that could be started.
def Command.Untold (s : Studio) (k : InstrumentId) : Command → Prop
  | .track j id => j = k ∧ ∃ node, s.node? id = some node ∧ (node.state s).ended = false
  | .play j id time delay duration => j = k ∧ ∃ node, s.node? id = some node ∧
    (node.state s).ended = false ∧
    (Instrument.start j (.node node) time delay duration).succeeds s = false
  | .playValue j x time delay duration => j = k ∧
    (Instrument.start j (.value x) time delay duration).succeeds s = false
  | _ => False

section Command

variable {s : Studio} {k : InstrumentId} {tag : String}

-- What it comes to for those who observe the number of voices.
def Tells (k : InstrumentId) (tag : String) (untold : Prop) (s t : Studio) : Prop :=
  (untold → t.heardBy tag = s.heardBy tag) ∧ (¬untold → Tallied k tag s t)

theorem tells_told {untold : Prop} {t : Studio} (huntold : ¬untold) (h : Tallied k tag s t) :
    Tells k tag untold s t :=
  ⟨fun hyes => absurd hyes huntold, fun _ => h⟩

theorem Muted.tallied {t : Studio} (h : Muted s t) : Tallied k tag s t :=
  .of_same (h.silent.heard tag) (h.voices k)

theorem tallied_after {act : Act Unit} (hs : s.Heeded s.credit k tag)
    (h : Along (Tallies s.credit k tag) act s fun _ _ => True) : Tallied k tag s (act.after s) :=
  after_of_ends (Ends.mono h (fun _ _ ht => (ht.1 hs).2.2) fun _ _ ht => (ht hs).2.2)

theorem tells_start (hs : s.Heeded s.credit k tag) (j : InstrumentId) (play : Play)
    (time delay duration : Option Float) :
    Tells k tag
      (j = k ∧ ¬play.Over s ∧ (Instrument.start j play time delay duration).succeeds s = false) s
      ((discard (Instrument.start j play time delay duration)).after s) := by
  by_cases hjk : j = k
  · subst hjk
    have hends : Ends (Instrument.start j play time delay duration) s (fun _ t => Tallied j tag s t)
        fun _ t =>
          (play.Over s → Tallied j tag s t) ∧ (¬play.Over s → t.heardBy tag = s.heardBy tag) := by
      rw [Instrument.start, Instrument.emitter, ends_bind, ends_bind, ends_get, ends_pure]
      exact ends_startWith hs play time delay duration
    rw [after_discard]
    cases hsucceeds : (Instrument.start j play time delay duration).succeeds s with
    | true =>
        obtain ⟨node, t, hok⟩ := ok_of_succeeds hsucceeds
        have htallied := ends_of_ok hok hends
        exact tells_told (by simp) (by rwa [after_of_ok hok])
    | false =>
        obtain ⟨e, herror⟩ := error_of_not_succeeds hsucceeds
        obtain ⟨hover, hlive⟩ := ends_of_error herror hends
        exact ⟨fun h => hlive h.2.1, fun h => hover (by_contra fun hnot => h ⟨rfl, hnot, rfl⟩)⟩
  · have hstarts : Along (Tallies s.credit k tag)
        (Instrument.startWith (Instrument.emitAt s.credit) j play time delay duration) s
        fun _ _ => True :=
      tallies_elsewhere (relays_startWith s.credit j play time delay duration)
        (Instrument.apart_startWith (elsewhere_change hjk) (elsewhere_emitAt hjk _) play time delay
          duration) s
    refine tells_told (fun h => hjk h.1) (tallied_after hs ?_)
    exact along_map (along_emitter hstarts) fun _ _ _ => trivial

theorem tells_track (hs : s.Heeded s.credit k tag) (j : InstrumentId) (node : Node) :
    Tells k tag (j = k ∧ (node.state s).ended = false) s
      ((do discard (Instrument.track (← Instrument.emitter) j node) : Act Unit).after s) := by
  by_cases hjk : j = k
  · subst hjk
    refine after_of_ends (P := Tells j tag (j = j ∧ (node.state s).ended = false) s) ?_
    rw [Instrument.emitter, ends_bind, ends_bind, ends_get, ends_pure, ends_discard, node.state_ended]
    cases hended : (s.ledger.fate node.id).ended with
    | true =>
        exact (ends_track_ended (.of_unheard (Nat.le_refl _) hs.attended rfl rfl) hs hended).mono
          (fun _ t h => tells_told (by simp) h.2.2) fun _ _ h => h.elim
    | false =>
        have htold (t : Studio) (h : Silent s t) : Tells j tag (j = j ∧ false = false) s t :=
          ⟨fun _ => h.heard tag, fun h => absurd ⟨rfl, rfl⟩ h⟩
        exact Ends.mono (along_track_live (R := Silent) hended (silent_register s j node))
          (fun _ t h => htold t h.1) fun _ t h => htold t h
  · refine tells_told (fun h => hjk h.1) (tallied_after hs (along_emitter (keeps_map _ ?_ s)))
    exact tallies_elsewhere (relays_track _ j node)
      (Instrument.apart_track (elsewhere_change hjk) (elsewhere_emitAt hjk _) node)

theorem tells_muted {untold : Prop} {t : Studio} (h : Muted s t) : Tells k tag untold s t :=
  ⟨fun _ => h.silent.heard tag, fun _ => h.tallied⟩

theorem tells_added {untold : Prop} {make : Act Instrument} (hs : s.Heeded s.credit k tag)
    (hmake : Along Backstage make s fun inst _ => inst.Blank) :
    Tells k tag untold s ((do discard (← make).add : Act Unit).after s) := by
  refine after_of_ends (P := Tells k tag untold s) ?_
  rw [ends_bind]
  refine Ends.mono hmake (fun inst t ht => ?_) fun _ t ht => tells_muted (Stages.backstage s t ht)
  rw [ends_discard, Instrument.add, ends_modifyGet]
  have hown : ({ t with instruments := t.instruments.push inst } : Studio).instrument k =
      s.instrument k := by
    have hk : k ≠ t.instruments.size := by
      rw [ht.1.instruments]
      exact Nat.ne_of_lt hs.attended.lt_size
    rw [t.instrument_push, if_neg hk, Studio.instrument_congr ht.1.instruments]
  exact ⟨fun _ => ht.1.heard tag, fun _ => .of_same (ht.1.heard tag) (by rw [hown])⟩

theorem Command.tells {command : Command} (hs : s.Heeded s.credit k tag) :
    ∀ act, command.act? s = some act → Tells k tag (command.Untold s k) s (act.after s) := by
  intro act hact
  have hmuted {untold : Prop} (h : Keeps Muted act) : Tells k tag untold s (act.after s) :=
    after_of_ends (Ends.mono (h s) (fun _ _ ht => tells_muted ht.1) fun _ _ ht => tells_muted ht)
  cases command.staged act hact with
  | backstage h => exact hmuted (stages_of_keeps h)
  | add hmake => exact tells_added hs hmake
  | @play j id time delay duration node hk hnode =>
      have huntold : (Command.play j id time delay duration).Untold s k ↔ j = k ∧
          ¬Play.Over s (.node node) ∧
          (Instrument.start j (.node node) time delay duration).succeeds s = false := by
        simp [Untold, hnode, Play.Over]
      rw [huntold]
      exact tells_start hs j (.node node) time delay duration
  | playValue j x time delay duration =>
      have huntold : (Command.playValue j x time delay duration).Untold s k ↔ j = k ∧
          ¬Play.Over s (.value x) ∧
          (Instrument.start j (.value x) time delay duration).succeeds s = false := by
        simp [Untold, Play.Over]
      rw [huntold]
      exact tells_start hs j (.value x) time delay duration
  | @track j id node _ hnode =>
      have huntold : (Command.track j id).Untold s k ↔ j = k ∧ (node.state s).ended = false := by
        simp [Untold, hnode]
      rw [huntold]
      exact tells_track hs j node
  | stopVoices j ids time delay => exact hmuted (Instrument.stages_stop muted_stopped ids time delay)
  | observe j topic observer =>
      have hown : ((s.joinedBy j topic observer).instrument k).voices = (s.instrument k).voices := by
        rw [s.instrument_joinedBy]
        split <;> rfl
      exact ⟨fun _ => rfl, fun _ => .of_same rfl (congrArg List.length hown)⟩
  | advanceTo context time => exact tells_told id (tallied_after hs (tallies_advanceTo context time))
  | advanceBy context seconds =>
      exact tells_told id (tallied_after hs (along_now (tallies_advanceTo context _)))

end Command

namespace Session

-- Those who observe the number of voices under a tag of their own, where nobody plays anything in
-- answer, are told of nothing by a command that leaves it untold. After any other command the number
-- is the one they were told last, or it is the one it was and they were told nothing.
theorem tells_how_many (rate : Float) (commands : List Command) (command : Command) (k : InstrumentId)
    (tag : String) (hs : (run rate commands).studio.Attended k .voices tag) :
    ∃ later, (run rate (commands ++ [command])).studio.heardBy tag =
        (run rate commands).studio.heardBy tag ++ later ∧
      (command.Untold (run rate commands).studio k → later = []) ∧
      (¬command.Untold (run rate commands).studio k →
        later = [] ∧ ((run rate (commands ++ [command])).studio.instrument k).voices.length =
            ((run rate commands).studio.instrument k).voices.length ∨
          later.getLast? = some (.voices
            ((run rate (commands ++ [command])).studio.instrument k).voices.length)) := by
  have htells : Tells k tag (command.Untold (run rate commands).studio k) (run rate commands).studio
      (run rate (commands ++ [command])).studio := by
    rw [run_concat, perform]
    split
    case h_1 act hact =>
        exact Command.tells ⟨Nat.le_refl _, opened_run rate commands, hs⟩ act hact
    case h_2 => exact tells_muted (refl _)
  by_cases huntold : command.Untold (run rate commands).studio k
  · exact ⟨[], by rw [htells.1 huntold, List.append_nil], fun _ => rfl, fun h => absurd huntold h⟩
  · obtain ⟨later, hlater, hlast⟩ := htells.2 huntold
    exact ⟨later, hlater, fun h => absurd h huntold, fun _ => hlast⟩

-- Somebody counts the voices.
def counted : List Command := [
  .instrument 0 false (some .sine) none 0,
  .observe 0 .voices (.plain "n"),
  .make 0 (.oscillator .sine (.fixed 440) none)]

theorem tone_is_counted : (run 44100 counted).studio.Attended 0 .voices "n" ∧
    ¬(Command.playValue 0 330 none none none).Untold (run 44100 counted).studio 0 ∧
    ∃ later, (run 44100 (counted ++ [.playValue 0 330 none none none])).studio.heardBy "n" =
        (run 44100 counted).studio.heardBy "n" ++ later ∧ later.getLast? = some (.voices 1) := by
  have hattended : (run 44100 counted).studio.Attended 0 .voices "n" := by
    decide +kernel
  have hfacts :
      (Instrument.start 0 (.value 330) none none none).succeeds (run 44100 counted).studio = true ∧
      ((run 44100 counted).studio.instrument 0).voices.length = 0 ∧
      ((run 44100 (counted ++ [.playValue 0 330 none none none])).studio.instrument 0).voices.length =
        1 := by
    decide +kernel
  obtain ⟨hstarts, hbefore, hafter⟩ := hfacts
  have htold : ¬(Command.playValue 0 330 none none none).Untold (run 44100 counted).studio 0 := by
    simp [Command.Untold, hstarts]
  obtain ⟨later, hlater, -, hlast⟩ :=
    tells_how_many 44100 counted (.playValue 0 330 none none none) 0 "n" hattended
  have hlast := hlast htold
  rw [hbefore, hafter] at hlast
  exact ⟨hattended, htold, later, hlater, hlast.resolve_left fun h => absurd h.2 (by decide)⟩

theorem tracked_voice_untold : ¬∀ (rate : Float) (commands : List Command) (command : Command)
    (k : InstrumentId) (tag : String), (run rate commands).studio.Attended k .voices tag →
    command.Minds k .voices tag →
    ((run rate (commands ++ [command])).studio.instrument k).voices.length ≠
      ((run rate commands).studio.instrument k).voices.length →
    ∃ later, (run rate (commands ++ [command])).studio.heardBy tag =
        (run rate commands).studio.heardBy tag ++ later ∧
      later.getLast? = some (.voices
        ((run rate (commands ++ [command])).studio.instrument k).voices.length) := by
  intro h
  have hattended : (run 44100 counted).studio.Attended 0 .voices "n" := by
    decide +kernel
  have hfacts : ((run 44100 counted).studio.instrument 0).voices.length = 0 ∧
      ((run 44100 (counted ++ [.track 0 0])).studio.instrument 0).voices.length = 1 ∧
      (run 44100 counted).studio.heardBy "n" = [] ∧
      (run 44100 (counted ++ [.track 0 0])).studio.heardBy "n" = [] := by
    decide +kernel
  obtain ⟨hbefore, hafter, hnone, hnone'⟩ := hfacts
  obtain ⟨later, hlater, hlast⟩ :=
    h 44100 counted (.track 0 0) 0 "n" hattended trivial (by simp [hbefore, hafter])
  obtain rfl : later = [] := by simpa [hnone, hnone'] using hlater.symm
  cases hlast

end Session

end Patchbay
