import Patchbay.Proofs.Voices.Exact
import Patchbay.Proofs.Lifetime.Standing

namespace Patchbay

open Act

-- It plays or stops voices.
def Reaction.acts : Reaction → Bool
  | .play (some _) _ | .stopAll => true
  | .subscribe | .play none _ => false

-- What is still due of its reactions does not act.
def Observer.Quiet (observer : Observer) : Prop :=
  ∀ reaction ∈ observer.react.1, reaction.acts = false

def Instrument.Quiet (inst : Instrument) : Prop :=
  ∀ topic, ∀ observer ∈ inst.observers topic, observer.Quiet

instance (observer : Observer) : Decidable observer.Quiet :=
  inferInstanceAs (Decidable (∀ reaction ∈ observer.react.1, reaction.acts = false))

theorem Instrument.quiet_iff {inst : Instrument} : inst.Quiet ↔
    ∀ topic ∈ [Topic.started, .voices, .ended], ∀ observer ∈ inst.observers topic, observer.Quiet := by
  refine ⟨fun h topic _ => h topic, fun h topic => h topic ?_⟩
  cases topic <;> simp

instance (inst : Instrument) : Decidable inst.Quiet := decidable_of_iff _ Instrument.quiet_iff.symm

theorem Observer.quiet_plain (tag : String) : (plain tag).Quiet := by
  simp [Quiet, plain, react]

-- An observer stays quiet while its reactions are used up.
theorem Observer.Quiet.react {observer : Observer} (h : observer.Quiet) : observer.react.2.Quiet := by
  obtain ⟨tag, reaction, left⟩ := observer
  cases reaction with
  | none => simp [Quiet, Observer.react]
  | some reaction =>
      cases left with
      | zero => simp [Quiet, Observer.react]
      | succ left =>
          have hquiet : reaction.acts = false := h reaction rfl
          cases left <;> simp [Quiet, Observer.react, hquiet]

theorem Instrument.Quiet.observing {inst : Instrument} (h : inst.Quiet) (topic : Topic)
    {list : List Observer} (hlist : ∀ observer ∈ list, observer.Quiet) :
    (inst.observing topic list).Quiet := by
  intro other observer hobserver
  simp only [Instrument.observing] at hobserver
  split at hobserver
  case isTrue => exact hlist observer hobserver
  case isFalse => exact h other observer hobserver

theorem Studio.instrument_modify (s : Studio) (k j : InstrumentId) (f : Instrument → Instrument) :
    ({ s with instruments := s.instruments.modify k f } : Studio).instrument j =
      if k = j ∧ j < s.instruments.size then f (s.instrument j) else s.instrument j := by
  unfold Studio.instrument
  rw [Array.getElem?_modify]
  by_cases hj : j < s.instruments.size
  · rw [Array.getElem?_eq_getElem hj]
    by_cases hk : k = j <;> simp [hk, hj]
  · rw [Array.getElem?_eq_none (Nat.not_lt.1 hj)]
    by_cases hk : k = j <;> simp [hk, hj]

theorem Studio.getElem?_instrument {s : Studio} {k : InstrumentId} (hk : k < s.instruments.size) :
    s.instruments[k]? = some (s.instrument k) := by
  simp [instrument, hk]

theorem Studio.instrument_congr {s t : Studio} (h : t.instruments = s.instruments)
    (k : InstrumentId) : t.instrument k = s.instrument k := by
  rw [instrument, instrument, h]

theorem Studio.instrument_of_modify {s t : Studio} {k : InstrumentId} {f : Instrument → Instrument}
    (h : t.instruments = s.instruments.modify k f) (hk : k < s.instruments.size) :
    t.instrument k = f (s.instrument k) := by
  rw [instrument, h]
  exact (s.instrument_modify k k f).trans (if_pos ⟨rfl, hk⟩)

-- The instrument plays what it played, and its observers stay quiet.
structure Hushed (k : InstrumentId) (s t : Studio) : Prop where
  voices : (t.instrument k).voices = (s.instrument k).voices
  played : (t.instrument k).played = (s.instrument k).played
  quiet : (s.instrument k).Quiet → (t.instrument k).Quiet

namespace Hushed

variable {s t : Studio} {k : InstrumentId}

instance : IsPreorder Studio (Hushed k) where
  refl _ := ⟨rfl, rfl, id⟩
  trans _ _ _ h h' := ⟨h'.voices.trans h.voices, h'.played.trans h.played, h'.quiet ∘ h.quiet⟩

theorem of_instruments (h : t.instruments = s.instruments) : Hushed k s t := by
  have hsame := Studio.instrument_congr h k
  exact ⟨by rw [hsame], by rw [hsame], fun hquiet => hsame ▸ hquiet⟩

theorem of_change {f : Instrument → Instrument} (hvoices : ∀ i, (f i).voices = i.voices)
    (hplayed : ∀ i, (f i).played = i.played)
    (hquiet : (s.instrument k).Quiet → (f (s.instrument k)).Quiet) :
    Hushed k s { s with instruments := s.instruments.modify k f } := by
  constructor <;> rw [s.instrument_modify] <;> split
  · exact hvoices _
  · rfl
  · exact hplayed _
  · rfl
  · exact hquiet
  · exact id

end Hushed

-- Besides, nothing was made, started, stopped or disconnected.
structure Whispered (k : InstrumentId) (s t : Studio) : Prop extends Hushed k s t, Untouched s t

instance {k : InstrumentId} : IsPreorder Studio (Whispered k) where
  refl s := ⟨refl_of (Hushed k) s, refl_of Untouched s⟩
  trans _ _ _ h h' :=
    ⟨trans_of (Hushed k) h.toHushed h'.toHushed, trans_of Untouched h.toUntouched h'.toUntouched⟩

variable {s : Studio} {k : InstrumentId}

theorem whispered_hear (notice : Notice) : Keeps (Whispered k) (hear notice) :=
  keeps_modify fun _ => ⟨.of_instruments rfl, .of_eq rfl rfl rfl⟩

theorem whispered_announce (event : Event) : Keeps (Whispered k) (Instrument.announce k event) :=
  keeps_modify fun _ => ⟨.of_change (fun _ => rfl) (fun _ => rfl) id, .of_eq rfl rfl rfl⟩

theorem whispered_observing (topic : Topic) {list : Instrument → List Observer}
    (hlist : ∀ inst, inst.Quiet → ∀ observer ∈ list inst, observer.Quiet) :
    Keeps (Whispered k) (changeInstrument k fun i => i.observing topic (list i)) :=
  keeps_modify fun _ => ⟨.of_change (fun _ => rfl) (fun _ => rfl) fun hquiet =>
    hquiet.observing topic (hlist _ hquiet), .of_eq rfl rfl rfl⟩

theorem whispered_perform {emit : Instrument.Emit} {reaction : Reaction} (h : reaction.acts = false)
    (topic : Topic) (tag : String) :
    Keeps (Whispered k) (Instrument.perform emit k topic tag reaction) := by
  cases reaction with
  | subscribe =>
      refine whispered_observing topic fun inst hquiet observer hobserver => ?_
      rcases List.mem_append.1 hobserver with hobserver | hobserver
      · exact hquiet topic observer hobserver
      · rw [List.mem_singleton.1 hobserver]
        exact Observer.quiet_plain _
  | play value duration =>
      cases value with
      | none => exact whispered_hear _
      | some x => cases h
  | stopAll => cases h

theorem whispered_tell {emit : Instrument.Emit} (event : Event) {observer : Observer}
    (h : observer.Quiet) : Along (Whispered k) (Instrument.tell emit k event observer) s
      fun observer _ => observer.Quiet := by
  refine along_bind (whispered_hear _ s) fun _ t _ _ => ?_
  dsimp only
  split
  case h_1 reaction hreaction =>
      exact along_bind (whispered_perform (h reaction hreaction) _ _ t) fun _ _ _ _ => along_pure h.react
  case h_2 => exact along_pure h.react

-- While it is delivered its observers are set aside, and they come back as quiet as they were.
theorem whispered_deliver {emit : Instrument.Emit} (event : Event) (h : (s.instrument k).Quiet) :
    Along (Whispered k) (Instrument.deliver emit k event) s fun _ _ => True := by
  refine along_bind (whispered_announce event s) fun _ t hst _ => ?_
  refine along_instrument ?_
  refine along_bind (whispered_observing event.topic (by simp) t) fun _ u _ _ => ?_
  have htold : Along (Whispered k) (((t.instrument k).observers event.topic).mapM
      (Instrument.tell emit k event)) u fun observers _ => ∀ o ∈ observers, o.Quiet :=
    along_mapM fun observer hobserver v =>
      whispered_tell event (hst.quiet h event.topic observer hobserver)
  refine along_bind htold fun observers v _ hobservers => ?_
  refine whispered_observing event.topic (fun inst hquiet observer hobserver => ?_) v
  rcases List.mem_append.1 hobserver with hobserver | hobserver
  · exact hobservers observer hobserver
  · exact hquiet event.topic observer hobserver

theorem whispered_emitAt (depth : Nat) (event : Event) (h : (s.instrument k).Quiet) :
    Along (Whispered k) (Instrument.emitAt depth k event) s fun _ _ => True := by
  cases depth <;> exact whispered_deliver event h

theorem hushed_emitAt (depth : Nat) (event : Event) (h : (s.instrument k).Quiet) :
    Along (Hushed k) (Instrument.emitAt depth k event) s fun _ _ => True :=
  Ends.mono (whispered_emitAt depth event h) (fun _ _ ht => ⟨ht.1.toHushed, trivial⟩)
    fun _ _ ht => ht.toHushed

end Patchbay
