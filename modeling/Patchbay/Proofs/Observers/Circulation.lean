import Patchbay.Proofs.Observers.Delivery

namespace Patchbay

open Act

-- What stays of an observer from one call to the next.
def Observer.identity (observer : Observer) : String × Option Reaction :=
  (observer.tag, observer.reaction)

theorem Observer.identity_react (observer : Observer) :
    observer.react.2.identity = observer.identity := by
  unfold react
  split <;> rfl

namespace Studio

def audience (s : Studio) (k : InstrumentId) (topic : Topic) : List (String × Option Reaction) :=
  ((s.instrument k).observers topic).map Observer.identity

-- The list is taken, and an empty one stands in its place.
def vacated (s : Studio) (k : InstrumentId) (topic : Topic) : Studio :=
  { s with instruments := s.instruments.modify k (·.observing topic []) }

variable {s : Studio} {k : InstrumentId} {topic : Topic}

theorem audience_absent (hk : ¬k < s.instruments.size) : s.audience k topic = [] := by
  rw [audience, observers_absent hk, List.map_nil]

theorem audience_vacated (hk : k < s.instruments.size) : (s.vacated k topic).audience k topic = [] := by
  have hvacated : (s.vacated k topic).instrument k = (s.instrument k).observing topic [] := by
    rw [vacated, s.instrument_modify, if_pos ⟨rfl, hk⟩]
  simp [audience, hvacated, Instrument.observing]

theorem size_vacated : (s.vacated k topic).instruments.size = s.instruments.size :=
  Array.size_modify

theorem audience_joinedBy (hk : k < s.instruments.size) (observer : Observer) :
    (s.joinedBy k topic observer).audience k topic = s.audience k topic ++ [observer.identity] := by
  simp [audience, instrument_joinedBy, hk, Instrument.observing]

theorem audience_restored (hk : k < s.instruments.size) (called : List Observer) :
    (s.restored k topic called).audience k topic =
      called.map Observer.identity ++ s.audience k topic := by
  simp [audience, instrument_restored, hk, Instrument.observing]

end Studio

namespace Instrument

section Brings

variable (k : InstrumentId) (topic : Topic)

-- What may go on inside a callback, and whom it brings to the observers of the topic, in the order of
-- their subscription. `CallsBring` is that of calling some observers one after the other: a callback
-- is the same one after its call, whatever it has counted in it.
mutual

inductive Brings : Studio → Studio → List Observer → Prop
  | apart {s t : Studio} (hsize : s.instruments.size ≤ t.instruments.size)
      (hsame : (t.instrument k).observers topic = (s.instrument k).observers topic) : Brings s t []
  | subscribe {s t : Studio} {observer : Observer}
      (hrun : observe k topic observer s = .ok () t) : Brings s t [observer]
  | emit {s t u : Studio} {call : Observer → Act Observer} {joined : List Observer}
      (hcalls : CallsBring call ((s.instrument k).observers topic) (s.vacated k topic) u joined)
      (hrun : circulate k topic call s = .ok () t) : Brings s t joined
  | trans {s t u : Studio} {joined joined' : List Observer} (h : Brings s t joined)
      (h' : Brings t u joined') : Brings s u (joined ++ joined')

inductive CallsBring : (Observer → Act Observer) → List Observer → Studio → Studio →
    List Observer → Prop
  | nil {call : Observer → Act Observer} {s : Studio} : CallsBring call [] s s []
  | cons {call : Observer → Act Observer} {observer called : Observer} {rest : List Observer}
      {s t u : Studio} {joined joined' : List Observer} (hrun : call observer s = .ok called t)
      (hsame : called.identity = observer.identity) (hbrings : Brings s t joined)
      (hrest : CallsBring call rest t u joined') :
      CallsBring call (observer :: rest) s u (joined ++ joined')

end

end Brings

variable {k : InstrumentId} {topic : Topic} {s t u : Studio} {call : Observer → Act Observer}
variable {observers joined : List Observer}

theorem observe_run (observer : Observer) :
    observe k topic observer s = .ok () (s.joinedBy k topic observer) := rfl

theorem mapM_of_callsBring (h : CallsBring k topic call observers s u joined) :
    ∃ called : List Observer, observers.mapM call s = .ok called u ∧
      called.map Observer.identity = observers.map Observer.identity := by
  induction observers generalizing s joined with
  | nil =>
      cases h
      exact ⟨[], rfl, rfl⟩
  | cons observer rest ih =>
      obtain - | ⟨hrun, hsame, -, hrest⟩ := h
      obtain ⟨called, hcalled, hidentity⟩ := ih hrest
      refine ⟨_ :: called, ?_, by rw [List.map_cons, List.map_cons, hsame, hidentity]⟩
      rw [List.mapM_cons, run_bind hrun, run_bind hcalled]
      rfl

-- The observers come back before whoever stands in their place by then.
theorem circulate_of_mapM {called : List Observer}
    (h : ((s.instrument k).observers topic).mapM call (s.vacated k topic) = .ok called u) :
    circulate k topic call s = .ok () (u.restored k topic called) := by
  have hread : instrument k s = .ok (s.instrument k) s := rfl
  have htaken : changeInstrument k (·.observing topic []) s = .ok () (s.vacated k topic) := rfl
  unfold circulate
  rw [run_bind hread, run_bind htaken, run_bind h]
  rfl

-- When a round of calls is over, those who were called are joined by those whom the calls brought.
theorem circulate_of_callsBring
    (h : CallsBring k topic call ((s.instrument k).observers topic) (s.vacated k topic) u joined)
    (hu : k < u.instruments.size) : ∃ t, circulate k topic call s = .ok () t ∧
      k < t.instruments.size ∧ t.audience k topic = s.audience k topic ++ u.audience k topic := by
  obtain ⟨called, hrun, hidentity⟩ := mapM_of_callsBring h
  refine ⟨_, circulate_of_mapM hrun, by rwa [u.size_restored], ?_⟩
  rw [Studio.audience_restored hu, hidentity]
  rfl

-- Inside a callback whoever subscribes comes last. The induction is on the tree of calls: a nested
-- event takes the list as it is by then and brings it back in front of what its own calls brought.
mutual

theorem audience_of_brings : ∀ {s t : Studio} {joined : List Observer}, Brings k topic s t joined →
    k < s.instruments.size → k < t.instruments.size ∧
      t.audience k topic = s.audience k topic ++ joined.map Observer.identity
  | s, t, _, .apart hsize hsame, hk => by
      refine ⟨Nat.lt_of_lt_of_le hk hsize, ?_⟩
      simp [Studio.audience, hsame]
  | s, t, _, .subscribe hrun, hk => by
      obtain ⟨-, rfl⟩ := EStateM.Result.ok.inj ((observe_run _).symm.trans hrun)
      exact ⟨by rwa [s.size_joinedBy], Studio.audience_joinedBy hk _⟩
  | s, t, _, .emit hcalls hrun, hk => by
      have hvacated : k < (s.vacated k topic).instruments.size := by rwa [Studio.size_vacated]
      obtain ⟨hu, haudience⟩ := audience_of_callsBring hcalls hvacated
      obtain ⟨t', hrun', ht, hback⟩ := circulate_of_callsBring hcalls hu
      obtain ⟨-, rfl⟩ := EStateM.Result.ok.inj (hrun.symm.trans hrun')
      rw [Studio.audience_vacated hk, List.nil_append] at haudience
      exact ⟨ht, by rw [hback, haudience]⟩
  | s, u, _, .trans h h', hk => by
      obtain ⟨ht, haudience⟩ := audience_of_brings h hk
      obtain ⟨hu, haudience'⟩ := audience_of_brings h' ht
      exact ⟨hu, by rw [haudience', haudience, List.map_append, List.append_assoc]⟩

theorem audience_of_callsBring : ∀ {call : Observer → Act Observer} {observers : List Observer}
    {s u : Studio} {joined : List Observer}, CallsBring k topic call observers s u joined →
    k < s.instruments.size → k < u.instruments.size ∧
      u.audience k topic = s.audience k topic ++ joined.map Observer.identity
  | _, _, s, _, _, .nil, hk => ⟨hk, by rw [List.map_nil, List.append_nil]⟩
  | _, _, s, u, _, .cons hrun hsame hbrings hrest, hk => by
      obtain ⟨ht, haudience⟩ := audience_of_brings hbrings hk
      obtain ⟨hu, haudience'⟩ := audience_of_callsBring hrest ht
      exact ⟨hu, by rw [haudience', haudience, List.map_append, List.append_assoc]⟩

end

-- However the callbacks of an event subscribe and emit in turn, no observer is lost and none is there
-- twice: the list ends up as it was, followed by those who joined it, in the order of subscription.
theorem observers_survive (call : Observer → Act Observer) (s u : Studio) (joined : List Observer)
    (h : CallsBring k topic call ((s.instrument k).observers topic) (s.vacated k topic) u joined) :
    ∃ t, circulate k topic call s = .ok () t ∧
      t.audience k topic = s.audience k topic ++ joined.map Observer.identity := by
  by_cases hk : k < s.instruments.size
  · have hvacated : k < (s.vacated k topic).instruments.size := by rwa [Studio.size_vacated]
    obtain ⟨hu, haudience⟩ := audience_of_callsBring h hvacated
    obtain ⟨t, hrun, -, ht⟩ := circulate_of_callsBring h hu
    rw [Studio.audience_vacated hk, List.nil_append] at haudience
    exact ⟨t, hrun, by rw [ht, haudience]⟩
  · -- Without an instrument there is nobody to call.
    have hnobody : (s.instrument k).observers topic = [] := Studio.observers_absent hk topic
    rw [hnobody] at h
    cases h
    have hrun : ((s.instrument k).observers topic).mapM call (s.vacated k topic) =
        .ok [] (s.vacated k topic) := by rw [hnobody]; rfl
    refine ⟨_, circulate_of_mapM hrun, ?_⟩
    rw [List.map_nil, List.append_nil, Studio.audience_absent hk, Studio.audience_absent]
    rwa [Studio.size_restored, Studio.size_vacated]

def greet (k : InstrumentId) (topic : Topic) (guest : Observer) : Act Observer := do
  observe k topic (.plain "greeted")
  return guest

-- Subscribes, emits to whoever observes by then, and subscribes once more.
def usher (k : InstrumentId) (topic : Topic) (observer : Observer) : Act Observer := do
  observe k topic (.plain "early")
  circulate k topic (greet k topic)
  observe k topic (.plain "late")
  return observer

def solo : Studio :=
  { Studio.new 44100 with instruments := #[(new 0).observing .voices [.plain "usher"]] }

theorem usher_survives : ∃ t, circulate 0 .voices (usher 0 .voices) solo = .ok () t ∧
    t.audience 0 .voices =
      [("usher", none), ("early", none), ("greeted", none), ("late", none)] := by
  let s₁ := (solo.vacated 0 .voices).joinedBy 0 .voices (.plain "early")
  let s₂ := (s₁.vacated 0 .voices).joinedBy 0 .voices (.plain "greeted")
  let s₃ := s₂.restored 0 .voices [.plain "early"]
  have hgreeted : CallsBring 0 .voices (greet 0 .voices) [.plain "early"] (s₁.vacated 0 .voices) s₂
      ([.plain "greeted"] ++ []) := .cons rfl rfl (.subscribe (observe_run _)) .nil
  have hobservers : (s₁.instrument 0).observers .voices = [.plain "early"] := rfl
  have hcirculated : circulate 0 .voices (greet 0 .voices) s₁ = .ok () s₃ :=
    circulate_of_mapM (by rw [hobservers]; rfl)
  have hemit : Brings 0 .voices s₁ s₃ ([.plain "greeted"] ++ []) :=
    .emit (by rw [hobservers]; exact hgreeted) hcirculated
  have hbrings : Brings 0 .voices (solo.vacated 0 .voices) (s₃.joinedBy 0 .voices (.plain "late"))
      ([.plain "early"] ++ ([.plain "greeted"] ++ []) ++ [.plain "late"]) :=
    .trans (.trans (.subscribe (observe_run _)) hemit) (.subscribe (observe_run _))
  have husher : usher 0 .voices (.plain "usher") (solo.vacated 0 .voices) =
      .ok (.plain "usher") (s₃.joinedBy 0 .voices (.plain "late")) := by
    unfold usher
    rw [run_bind (observe_run _), run_bind hcirculated, run_bind (observe_run _)]
    rfl
  exact observers_survive (usher 0 .voices) solo _ _ (.cons husher rfl hbrings .nil)

-- Someone or nobody is brought.
def Stirs (k : InstrumentId) (topic : Topic) (s t : Studio) : Prop :=
  ∃ joined, Brings k topic s t joined

theorem stirs_apart (hsize : s.instruments.size ≤ t.instruments.size)
    (hsame : (t.instrument k).observers topic = (s.instrument k).observers topic) :
    Stirs k topic s t := ⟨[], .apart hsize hsame⟩

instance : Hears (Stirs k topic) where
  refl _ := stirs_apart (Nat.le_refl _) rfl
  trans _ _ _ := fun ⟨_, h⟩ ⟨_, h'⟩ => ⟨_, h.trans h'⟩
  silent _ _ h := stirs_apart (Nat.le_of_eq h.size.symm) (h.observers k topic)

theorem stirs_changeInstrument {f : Instrument → Instrument}
    (h : ∀ inst, (f inst).observers topic = inst.observers topic) :
    Keeps (Stirs k topic) (changeInstrument k f) := by
  refine keeps_modify fun s => stirs_apart (Nat.le_of_eq Array.size_modify.symm) ?_
  rw [s.instrument_modify]
  split
  · exact h _
  · rfl

theorem stirs_observe (other : Topic) (observer : Observer) :
    Keeps (Stirs k topic) (observe k other observer) := by
  by_cases hother : topic = other
  · subst hother
    exact keeps_modify fun s => ⟨_, .subscribe (observe_run observer)⟩
  · exact stirs_changeInstrument fun inst => by simp [observing, hother]

section Emit

variable {emit : Emit} (hemit : ∀ event, Keeps (Stirs k topic) (emit k event))
include hemit

theorem stirs_tell (event : Event) (observer : Observer) :
    Keeps (Stirs k topic) (tell emit k event observer) := by
  rw [tell_eq]
  refine keeps_bind (keeps_bind ?_ fun _ => ?_) fun _ => keeps_pure _
  · exact keeps_modify fun s => stirs_apart (Nat.le_refl _) rfl
  · split
    case h_1 => exact hears_perform hemit fun _ => stirs_observe _ _
    case h_2 => exact keeps_pure _

theorem tell_run (event : Event) (observer : Observer) (s : Studio) :
    ∃ t, tell emit k event observer s = .ok observer.react.2 t ∧ Stirs k topic s t := by
  obtain ⟨called, t, hrun, hstirs, -⟩ :=
    exists_of_ends ((unfailing_tell k event observer).ends (stirs_tell hemit event observer s))
  have hseq := hrun
  rw [tell_eq] at hseq
  obtain ⟨-, t', -, hreturn⟩ := ok_of_seq hseq
  obtain ⟨rfl, rfl⟩ := EStateM.Result.ok.inj hreturn
  exact ⟨t', hrun, hstirs⟩

-- What observers do in answer to an event is of the kind that callbacks may do.
theorem tells_bring (event : Event) (observers : List Observer) (s : Studio) :
    ∃ u joined, CallsBring k topic (tell emit k event) observers s u joined := by
  induction observers generalizing s with
  | nil => exact ⟨s, [], .nil⟩
  | cons observer rest ih =>
      obtain ⟨t, hrun, joined, hbrings⟩ := tell_run hemit event observer s
      obtain ⟨u, joined', hrest⟩ := ih t
      exact ⟨u, joined ++ joined', .cons hrun observer.identity_react hbrings hrest⟩

theorem stirs_circulate (event : Event) :
    Keeps (Stirs k topic) (circulate k event.topic (tell emit k event)) := by
  by_cases htopic : topic = event.topic
  · subst htopic
    intro s
    obtain ⟨u, joined, hcalls⟩ :=
      tells_bring hemit event ((s.instrument k).observers event.topic) (s.vacated k event.topic)
    obtain ⟨called, hmapM, -⟩ := mapM_of_callsBring hcalls
    have hrun := circulate_of_mapM hmapM
    exact ends_of_eq hrun ⟨⟨joined, .emit hcalls hrun⟩, trivial⟩
  · have hother (list : Instrument → List Observer) (inst : Instrument) :
        (inst.observing event.topic (list inst)).observers topic = inst.observers topic := by
      simp [observing, htopic]
    refine keeps_bind (keeps_instrument k) fun _ => ?_
    refine keeps_bind (stirs_changeInstrument (hother fun _ => [])) fun _ => ?_
    refine keeps_bind (keeps_mapM fun observer _ => stirs_tell hemit event observer) fun called => ?_
    exact stirs_changeInstrument (hother fun inst => called ++ inst.observers event.topic)

theorem stirs_deliver (event : Event) : Keeps (Stirs k topic) (deliver emit k event) :=
  keeps_bind (stirs_changeInstrument fun _ => rfl) fun _ => stirs_circulate hemit event

end Emit

theorem stirs_emitAt (depth : Nat) (event : Event) :
    Keeps (Stirs k topic) (emitAt depth k event) := by
  have hannounce (event : Event) : Keeps (Stirs k topic) (announce k event) :=
    stirs_changeInstrument fun _ => rfl
  induction depth generalizing event with
  | zero => exact stirs_deliver hannounce event
  | succ depth ih => exact stirs_deliver ih event

-- Whatever the observers of an instrument bring about, none of them is lost by an event.
theorem audience_emitAt (depth : Nat) (event : Event) (hk : k < s.instruments.size) :
    ∃ t joined, emitAt depth k event s = .ok () t ∧ Brings k topic s t joined ∧
      t.audience k topic = s.audience k topic ++ joined.map Observer.identity := by
  obtain ⟨⟨⟩, t, hrun, ⟨joined, hbrings⟩, -⟩ :=
    exists_of_ends ((unfailing_emitAt k depth event).ends (stirs_emitAt depth event s))
  exact ⟨t, joined, hrun, hbrings, (audience_of_brings hbrings hk).2⟩

end Instrument

end Patchbay
