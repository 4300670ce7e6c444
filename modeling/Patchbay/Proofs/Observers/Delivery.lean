import Patchbay.Proofs.Session.Backstage

namespace Patchbay

open Act

def Reaction.subscribes : Reaction → Bool
  | .subscribe => true
  | .play _ _ | .stopAll => false

def Reaction.plays : Reaction → Bool
  | .play (some _) _ => true
  | .subscribe | .play none _ | .stopAll => false

namespace Observer

variable {observer : Observer} {tag : String}

-- Nothing that is due of its reactions has the events observed under the tag.
def Spares (tag : String) (observer : Observer) : Prop :=
  ∀ reaction ∈ observer.react.1, reaction.subscribes = true → observer.tag ++ "'" ≠ tag

-- It does not observe under the tag itself either.
def Other (tag : String) (observer : Observer) : Prop := observer.tag ≠ tag ∧ observer.Spares tag

-- Nothing that is due of its reactions plays anything.
def Calm (observer : Observer) : Prop := ∀ reaction ∈ observer.react.1, reaction.plays = false

instance : Decidable (observer.Spares tag) :=
  inferInstanceAs (Decidable (∀ reaction ∈ observer.react.1, reaction.subscribes = true →
    observer.tag ++ "'" ≠ tag))

instance : Decidable (observer.Other tag) :=
  inferInstanceAs (Decidable (observer.tag ≠ tag ∧ observer.Spares tag))

instance : Decidable observer.Calm :=
  inferInstanceAs (Decidable (∀ reaction ∈ observer.react.1, reaction.plays = false))

theorem tag_react (observer : Observer) : observer.react.2.tag = observer.tag := by
  unfold react
  split <;> rfl

-- What is due of its reactions afterwards was due before.
theorem due_react {reaction : Reaction} (h : reaction ∈ observer.react.2.react.1) :
    reaction ∈ observer.react.1 := by
  obtain ⟨tag, due, left⟩ := observer
  cases due with
  | none => simp [react] at h
  | some due =>
      cases left with
      | zero => simp [react] at h
      | succ left =>
          cases left with
          | zero => simp [react] at h
          | succ left => simpa [react] using h

theorem Spares.react (h : observer.Spares tag) : observer.react.2.Spares tag := by
  intro reaction hdue hsubscribes
  rw [tag_react]
  exact h reaction (due_react hdue) hsubscribes

theorem Other.react (h : observer.Other tag) : observer.react.2.Other tag :=
  ⟨by rw [tag_react]; exact h.1, h.2.react⟩

theorem Calm.react (h : observer.Calm) : observer.react.2.Calm :=
  fun reaction hdue => h reaction (due_react hdue)

theorem spares_plain (tag other : String) : (plain other).Spares tag := by
  intro reaction hdue
  simp [plain, Observer.react] at hdue

theorem calm_plain (tag : String) : (plain tag).Calm := by
  intro reaction hdue
  simp [plain, Observer.react] at hdue

end Observer

-- The tags of those who observe it.
def Instrument.tags (inst : Instrument) (topic : Topic) : List String :=
  (inst.observers topic).map Observer.tag

-- Nothing is announced, and nobody is told or joins the observers.
structure Silent (s t : Studio) : Prop where
  size : t.instruments.size = s.instruments.size
  observers : ∀ k topic, (t.instrument k).observers topic = (s.instrument k).observers topic
  announced : ∀ k, (t.instrument k).announced = (s.instrument k).announced
  heard : ∀ tag, t.heardBy tag = s.heardBy tag
  opens : s.Opens → t.Opens

namespace Silent

variable {s t : Studio}

instance : IsPreorder Studio Silent where
  refl _ := ⟨rfl, fun _ _ => rfl, fun _ => rfl, fun _ => rfl, id⟩
  trans _ _ _ h h' := ⟨h'.size.trans h.size,
    fun k topic => (h'.observers k topic).trans (h.observers k topic),
    fun k => (h'.announced k).trans (h.announced k), fun tag => (h'.heard tag).trans (h.heard tag),
    h'.opens ∘ h.opens⟩

theorem of_offstage (h : Offstage s t) : Silent s t where
  size := by rw [h.instruments]
  observers k _ := by rw [Studio.instrument_congr h.instruments]
  announced k := by rw [Studio.instrument_congr h.instruments]
  heard := h.heard
  opens hs k := by
    rw [Studio.instrument_congr h.instruments]
    exact h.opened _ (hs k)

theorem of_change (k : InstrumentId) {f : Instrument → Instrument}
    (hcontext : ∀ inst, (f inst).context = inst.context)
    (hobservers : ∀ inst, (f inst).observers = inst.observers)
    (hannounced : ∀ inst, (f inst).announced = inst.announced) :
    Silent s { s with instruments := s.instruments.modify k f } where
  size := Array.size_modify
  observers j _ := by
    rw [s.instrument_modify]
    split
    · rw [hobservers]
    · rfl
  announced j := by
    rw [s.instrument_modify]
    split
    · rw [hannounced]
    · rfl
  heard _ := rfl
  opens hs := by
    refine hs.of_contexts rfl fun j => ?_
    rw [s.instrument_modify]
    split
    · rw [hcontext]
    · rfl

end Silent

-- Holds across whatever observers hear nothing of.
class Hears (R : Studio → Studio → Prop) : Prop extends IsPreorder Studio R where
  silent : ∀ s t, Silent s t → R s t

instance {R : Studio → Studio → Prop} [Hears R] : Clocks R where
  offstage _ _ h := Hears.silent _ _ (.of_offstage h)

section Hears

variable {R : Studio → Studio → Prop} [Hears R] {k : InstrumentId} {emit : Instrument.Emit}

theorem hears_stopped (id : VoiceId) : Keeps R (changeInstrument k (·.markStopped id)) :=
  keeps_modify fun _ => Hears.silent _ _ (.of_change k (fun _ => rfl) (fun _ => rfl) fun _ => rfl)

theorem hears_registered (node : Node) : Keeps R (changeInstrument k (·.register node)) :=
  keeps_modify fun _ => Hears.silent _ _ (.of_change k (fun _ => rfl) (fun _ => rfl) fun _ => rfl)

theorem hears_erased (id : VoiceId) : Keeps R (changeInstrument k (·.erase id)) :=
  keeps_modify fun _ => Hears.silent _ _ (.of_change k (fun _ => rfl) (fun _ => rfl) fun _ => rfl)

section Emit

variable (hemit : ∀ event, Keeps R (emit k event))
include hemit

theorem hears_remove (id : VoiceId) : Keeps R (Instrument.remove emit k id) :=
  Instrument.stages_remove hemit hears_erased id

theorem hears_track (node : Node) : Keeps R (Instrument.track emit k node) :=
  Instrument.stages_track hears_registered (hears_remove hemit) node

theorem hears_startWith (play : Play) (time delay duration : Option Float) :
    Keeps R (Instrument.startWith emit k play time delay duration) :=
  Instrument.stages_startWith hears_stopped (hears_track hemit) hemit play time delay duration

theorem hears_perform {topic : Topic} {tag : String} {reaction : Reaction}
    (hsubscribe : reaction.subscribes = true →
      Keeps R (Instrument.observe k topic (.plain (tag ++ "'")))) :
    Keeps R (Instrument.perform emit k topic tag reaction) :=
  Instrument.stages_perform hears_stopped (fun h => hsubscribe (h ▸ rfl))
    fun _ _ _ => hears_startWith hemit _ _ _ _

end Emit

end Hears

namespace Instrument

-- What an observer hears of an event, and does about it.
def answer (emit : Emit) (k : InstrumentId) (event : Event) (observer : Observer) : Act Unit := do
  hear (.observed observer.tag event)
  match observer.react.1 with
  | some reaction => perform emit k event.topic observer.tag reaction
  | none => pure ()

theorem tell_eq (emit : Emit) (k : InstrumentId) (event : Event) (observer : Observer) :
    tell emit k event observer = (do answer emit k event observer; return observer.react.2) := by
  unfold tell answer
  rw [bind_assoc]
  refine congrArg (hear _ >>= ·) (funext fun _ => ?_)
  dsimp only
  rw [observer.tag_react]
  cases observer.react.1 with
  | none => rfl
  | some reaction => rfl

-- The observers that were set aside come back with the reactions that were due counted.
theorem deliver_eq (emit : Emit) (k : InstrumentId) (event : Event) :
    deliver emit k event = (do
      announce k event
      let observers := (← instrument k).observers event.topic
      changeInstrument k (·.observing event.topic [])
      observers.forM (answer emit k event)
      changeInstrument k fun i =>
        i.observing event.topic (observers.map (·.react.2) ++ i.observers event.topic)) := by
  have hmapM (observers : List Observer) : observers.mapM (tell emit k event) =
      (do observers.forM (answer emit k event); return observers.map (·.react.2)) := by
    induction observers with
    | nil => rfl
    | cons observer rest ih =>
        rw [List.mapM_cons, ih, tell_eq]
        simp [List.forM_cons]
  simp only [deliver, circulate, hmapM, bind_assoc, pure_bind]

section Apart

variable {R : Studio → Studio → Prop} [Stages R] {k : InstrumentId} {emit : Emit}
variable (hchange : ∀ f, Keeps R (changeInstrument k f))
include hchange

section Emit

variable (hemit : ∀ event, Keeps R (emit k event))
include hemit

-- What is apart from an instrument holds across whatever becomes of that.
theorem apart_remove (id : VoiceId) : Keeps R (remove emit k id) :=
  stages_remove hemit (fun _ => hchange _) id

theorem apart_track (node : Node) : Keeps R (track emit k node) :=
  stages_track (fun _ => hchange _) (apart_remove hchange hemit) node

theorem apart_startWith (play : Play) (time delay duration : Option Float) :
    Keeps R (startWith emit k play time delay duration) :=
  stages_startWith (fun _ => hchange _) (apart_track hchange hemit) hemit play time delay duration

theorem apart_deliver (event : Event) (hhear : ∀ tag, Keeps R (hear (.observed tag event))) :
    Keeps R (deliver emit k event) := by
  rw [deliver_eq]
  refine keeps_bind (hchange _) fun _ => keeps_bind (keeps_instrument k) fun _ => ?_
  refine keeps_bind (hchange _) fun _ => keeps_bind (keeps_forM fun observer _ => ?_) fun _ => hchange _
  refine keeps_bind (hhear _) fun _ => ?_
  split
  case h_2 => exact keeps_pure _
  case h_1 =>
      exact stages_perform (fun _ => hchange _) (fun _ => hchange _) fun _ _ _ =>
        apart_startWith hchange hemit _ _ _ _

end Emit

theorem apart_emitAt (hhear : ∀ tag event, Keeps R (hear (.observed tag event))) (depth : Nat)
    (event : Event) : Keeps R (emitAt depth k event) := by
  induction depth generalizing event with
  | zero => exact apart_deliver hchange (fun _ => hchange _) event (hhear · event)
  | succ depth ih => exact apart_deliver hchange ih event (hhear · event)

end Apart

end Instrument

-- While an event that is on record goes round, its observers are set aside.
def Studio.aside (s : Studio) (k : InstrumentId) (event : Event) : Studio :=
  let noted := s.instruments.modify k (·.note event)
  { s with instruments := noted.modify k (·.observing event.topic []) }

-- They come before those who joined meanwhile.
def Studio.restored (s : Studio) (k : InstrumentId) (topic : Topic) (observers : List Observer) :
    Studio :=
  { s with instruments := s.instruments.modify k fun i =>
      i.observing topic (observers ++ i.observers topic) }

def Studio.joinedBy (s : Studio) (k : InstrumentId) (topic : Topic) (observer : Observer) : Studio :=
  { s with instruments := s.instruments.modify k fun i =>
      i.observing topic (i.observers topic ++ [observer]) }

section Deliver

variable {s : Studio} {k : InstrumentId} {event : Event}

theorem ends_deliver_iff {emit : Instrument.Emit} {ok : Unit → Studio → Prop}
    {fail : Error → Studio → Prop} :
    Ends (Instrument.deliver emit k event) s ok fail ↔
      Ends (((s.instrument k).observers event.topic).forM (Instrument.answer emit k event))
        (s.aside k event) (fun _ t => ok () (t.restored k event.topic
          (((s.instrument k).observers event.topic).map (·.react.2)))) fail := by
  have hnoted : (({ s with instruments := s.instruments.modify k (·.note event) } :
      Studio).instrument k).observers = (s.instrument k).observers := by
    rw [s.instrument_modify]
    split <;> rfl
  rw [Instrument.deliver_eq, ends_bind, Instrument.announce, changeInstrument, ends_modify, ends_bind,
    Act.instrument, ends_bind, ends_get, ends_pure, ends_bind, changeInstrument, ends_modify, ends_bind]
  simp only [changeInstrument, ends_modify]
  rw [← hnoted]
  rfl

-- Where the observers of a topic were replaced, an observer is one of before or one of the new ones.
theorem Studio.mem_observing {p : Prop} [Decidable p] {inst : Instrument} {topic other : Topic}
    {list : List Observer} {observer : Observer}
    (h : observer ∈ (if p then inst.observing topic list else inst).observers other) :
    observer ∈ inst.observers other ∨ p ∧ other = topic ∧ observer ∈ list := by
  split at h
  case isFalse => exact .inl h
  case isTrue hp =>
      rw [Instrument.observing] at h
      dsimp only at h
      split at h
      case isTrue heq => exact .inr ⟨hp, heq, h⟩
      case isFalse => exact .inl h

-- There is no observer without an instrument.
theorem Studio.observers_absent (hk : ¬k < s.instruments.size) (topic : Topic) :
    (s.instrument k).observers topic = [] := by
  rw [instrument, Array.getElem?_eq_none (Nat.not_lt.1 hk)]
  rfl

theorem Studio.lt_of_observer {topic : Topic} {observer : Observer}
    (h : observer ∈ (s.instrument k).observers topic) : k < s.instruments.size := by
  by_contra hk
  rw [observers_absent hk] at h
  cases h

namespace Studio

variable (s) (k j : InstrumentId)

section Aside

variable (event : Event)

theorem instrument_aside : (s.aside k event).instrument j =
    if k = j ∧ j < s.instruments.size then ((s.instrument j).note event).observing event.topic []
    else s.instrument j := by
  let t : Studio := { s with instruments := s.instruments.modify k (·.note event) }
  have haside := t.instrument_modify k j (·.observing event.topic [])
  rw [Array.size_modify, s.instrument_modify] at haside
  refine haside.trans ?_
  split <;> rfl

theorem size_aside : (s.aside k event).instruments.size = s.instruments.size := by
  simp [aside]

theorem observers_aside (topic : Topic) : ((s.aside k event).instrument j).observers topic =
    if k = j ∧ topic = event.topic then [] else (s.instrument j).observers topic := by
  rw [instrument_aside]
  by_cases hj : j < s.instruments.size
  · by_cases hk : k = j
    · rw [if_pos ⟨hk, hj⟩, Instrument.observing]
      simp only [hk, true_and]
      rfl
    · rw [if_neg fun h => hk h.1, if_neg fun h => hk h.1]
  · rw [if_neg fun h => hj h.2, observers_absent hj, ite_self]

theorem announced_aside : ((s.aside k event).instrument j).announced =
    (s.instrument j).announced ++ if k = j ∧ j < s.instruments.size then [event] else [] := by
  rw [instrument_aside]
  split
  · exact (s.instrument j).announced_note event
  · rw [List.append_nil]

theorem opens_aside (h : s.Opens) : (s.aside k event).Opens := by
  refine h.of_contexts rfl fun j => ?_
  rw [instrument_aside]
  split <;> rfl

end Aside

section Restored

variable (topic : Topic) (observers : List Observer)

theorem instrument_restored : (s.restored k topic observers).instrument j =
    if k = j ∧ j < s.instruments.size then
      (s.instrument j).observing topic (observers ++ (s.instrument j).observers topic)
    else s.instrument j :=
  s.instrument_modify k j _

theorem size_restored : (s.restored k topic observers).instruments.size = s.instruments.size :=
  Array.size_modify

theorem announced_restored :
    ((s.restored k topic observers).instrument j).announced = (s.instrument j).announced := by
  rw [instrument_restored]
  split <;> rfl

theorem opens_restored (h : s.Opens) : (s.restored k topic observers).Opens := by
  refine h.of_contexts rfl fun j => ?_
  rw [instrument_restored]
  split <;> rfl

end Restored

section Joined

variable (topic : Topic) (observer : Observer)

theorem instrument_joinedBy : (s.joinedBy k topic observer).instrument j =
    if k = j ∧ j < s.instruments.size then
      (s.instrument j).observing topic ((s.instrument j).observers topic ++ [observer])
    else s.instrument j :=
  s.instrument_modify k j _

theorem size_joinedBy : (s.joinedBy k topic observer).instruments.size = s.instruments.size :=
  Array.size_modify

theorem announced_joinedBy :
    ((s.joinedBy k topic observer).instrument j).announced = (s.instrument j).announced := by
  rw [instrument_joinedBy]
  split <;> rfl

theorem opens_joinedBy (h : s.Opens) : (s.joinedBy k topic observer).Opens := by
  refine h.of_contexts rfl fun j => ?_
  rw [instrument_joinedBy]
  split <;> rfl

end Joined

end Studio

theorem keeps_joined {R : Studio → Studio → Prop} {topic : Topic} {observer : Observer}
    (h : ∀ s, R s (s.joinedBy k topic observer)) : Keeps R (Instrument.observe k topic observer) :=
  keeps_modify h

end Deliver

-- Nobody observes anything under the tag, or will have it observed.
def Studio.Deaf (s : Studio) (tag : String) : Prop :=
  ∀ k topic, ∀ observer ∈ (s.instrument k).observers topic, observer.Other tag

-- Under a tag that nobody observes under nothing is heard.
def Ignores (tag : String) (s t : Studio) : Prop :=
  s.Deaf tag → t.instruments.size = s.instruments.size ∧ t.Deaf tag ∧ t.heardBy tag = s.heardBy tag

-- The tag is one under which nothing is observed except what the instrument announces of the topic.
def Studio.Sole (s : Studio) (k : InstrumentId) (topic : Topic) (tag : String) : Prop :=
  ∀ j other, ∀ observer ∈ (s.instrument j).observers other,
    observer.Spares tag ∧ (j = k ∧ other = topic ∨ observer.tag ≠ tag)

section Ignores

variable {tag : String} {s t : Studio} {k : InstrumentId} {topic : Topic} {emit : Instrument.Emit}

instance : Hears (Ignores tag) where
  refl _ h := ⟨rfl, h, rfl⟩
  trans _ _ _ h h' hs :=
    have ⟨hsize, ht, hheard⟩ := h hs
    have ⟨hsize', hu, hheard'⟩ := h' ht
    ⟨hsize'.trans hsize, hu, hheard'.trans hheard⟩
  silent s t h hs := by
    refine ⟨h.size, fun k topic observer hobserver => ?_, h.heard tag⟩
    rw [h.observers] at hobserver
    exact hs k topic observer hobserver

theorem Studio.Deaf.sole (h : s.Deaf tag) : s.Sole k topic tag :=
  fun j other observer hobserver =>
    have ⟨hother, hspares⟩ := h j other observer hobserver
    ⟨hspares, .inr hother⟩

theorem Studio.Sole.deaf (h : s.Sole k topic tag) (htag : tag ∉ (s.instrument k).tags topic) :
    s.Deaf tag := by
  intro j other observer hobserver
  obtain ⟨hspares, ⟨rfl, rfl⟩ | hne⟩ := h j other observer hobserver
  · exact ⟨fun heq => htag (heq ▸ List.mem_map_of_mem hobserver), hspares⟩
  · exact ⟨hne, hspares⟩

theorem ignores_perform (hemit : ∀ event, Keeps (Ignores tag) (emit k event))
    {observer : Observer} (hspares : observer.Spares tag) {reaction : Reaction}
    (hdue : reaction ∈ observer.react.1) :
    Keeps (Ignores tag) (Instrument.perform emit k topic observer.tag reaction) := by
  refine hears_perform hemit fun hsubscribes => keeps_joined fun s hs => ⟨s.size_joinedBy .., ?_, rfl⟩
  intro j other joined hjoined
  rw [s.instrument_joinedBy] at hjoined
  rcases Studio.mem_observing hjoined with hjoined | ⟨-, -, hjoined⟩
  · exact hs j other joined hjoined
  · rcases List.mem_append.1 hjoined with hjoined | hjoined
    · exact hs j topic joined hjoined
    · rw [List.mem_singleton.1 hjoined]
      exact ⟨hspares reaction hdue hsubscribes, Observer.spares_plain _ _⟩

theorem ends_answer (hemit : ∀ event, Keeps (Ignores tag) (emit k event)) (event : Event)
    {observer : Observer} (hspares : observer.Spares tag) (hs : s.Deaf tag) :
    Ends (Instrument.answer emit k event observer) s
      (fun _ t => t.instruments.size = s.instruments.size ∧ t.Deaf tag ∧
        t.heardBy tag = s.heardBy tag ++ if observer.tag = tag then [event] else [])
      fun _ _ => False := by
  have hheard : ({ s with heard := s.heard.push (.observed observer.tag event) } : Studio).heardBy tag =
      s.heardBy tag ++ if observer.tag = tag then [event] else [] := by
    rw [s.heardBy_hear, Notice.observed?]
    split <;> rfl
  rw [Instrument.answer, ends_bind, hear, ends_modify]
  split
  case h_2 => exact (ends_pure _).2 ⟨rfl, hs, hheard⟩
  case h_1 reaction hdue =>
      refine ((Instrument.unfailing_perform k _ _ reaction).ends
        (ignores_perform hemit hspares hdue _)).mono (fun _ t ht => ?_) fun _ _ h => h
      obtain ⟨hsize, hdeaf, hsame⟩ := ht.1 hs
      exact ⟨hsize, hdeaf, hsame.trans hheard⟩

theorem ends_answers (hemit : ∀ event, Keeps (Ignores tag) (emit k event)) (event : Event)
    {observers : List Observer} (hspares : ∀ observer ∈ observers, observer.Spares tag)
    (hs : s.Deaf tag) :
    Ends (observers.forM (Instrument.answer emit k event)) s
      (fun _ t => t.instruments.size = s.instruments.size ∧ t.Deaf tag ∧
        t.heardBy tag = s.heardBy tag ++
          List.replicate ((observers.map Observer.tag).count tag) event)
      fun _ _ => False := by
  induction observers generalizing s with
  | nil => exact ends_forM_nil.2 ⟨rfl, hs, by simp⟩
  | cons observer rest ih =>
      rw [ends_forM_cons]
      obtain ⟨hobserver, hrest⟩ := List.forall_mem_cons.1 hspares
      refine (ends_answer hemit event hobserver hs).mono (fun _ t ⟨hsize, ht, hheard⟩ => ?_)
        fun _ _ h => h
      refine (ih hrest ht).mono (fun _ u ⟨hsize', hu, hheard'⟩ => ?_) fun _ _ h => h
      refine ⟨hsize'.trans hsize, hu, ?_⟩
      rw [hheard', hheard, List.append_assoc, List.map_cons, List.count_cons]
      by_cases htag : observer.tag = tag
      · simp [htag, List.replicate_succ]
      · simp [htag]

theorem Studio.Sole.aside {event : Event} (h : s.Sole k event.topic tag) :
    (s.aside k event).Deaf tag := by
  intro j other observer hobserver
  rw [s.observers_aside] at hobserver
  split at hobserver
  case isTrue => cases hobserver
  case isFalse hne =>
      obtain ⟨hspares, hwhere⟩ := h j other observer hobserver
      exact ⟨hwhere.resolve_left fun hwhere => hne ⟨hwhere.1.symm, hwhere.2⟩, hspares⟩

-- The observers set aside are back, with those who joined meanwhile.
theorem Studio.Sole.restored (hs : s.Sole k topic tag) (ht : t.Deaf tag)
    (hsize : t.instruments.size = s.instruments.size) {u : Studio}
    (hu : u = t.restored k topic (((s.instrument k).observers topic).map (·.react.2))) :
    u.Sole k topic tag ∧ ∃ joined, (u.instrument k).tags topic = (s.instrument k).tags topic ++ joined ∧
      tag ∉ joined := by
  subst hu
  have hjoined : tag ∉ (t.instrument k).tags topic := by
    intro hmem
    obtain ⟨observer, hobserver, heq⟩ := List.mem_map.1 hmem
    exact (ht k topic observer hobserver).1 heq
  refine ⟨fun j other observer hobserver => ?_, (t.instrument k).tags topic, ?_, hjoined⟩
  · rw [t.instrument_restored] at hobserver
    rcases Studio.mem_observing hobserver with hobserver | ⟨hj, rfl, hobserver⟩
    · exact ht.sole j other observer hobserver
    · rcases List.mem_append.1 hobserver with hobserver | hobserver
      · obtain ⟨before, hbefore, rfl⟩ := List.mem_map.1 hobserver
        exact ⟨(hs k other before hbefore).1.react, .inl ⟨hj.1.symm, rfl⟩⟩
      · exact ht.sole j other observer hobserver
  · rw [t.instrument_restored]
    split
    case isTrue =>
        simp only [Instrument.tags, Instrument.observing, if_true, List.map_append, List.map_map]
        simp only [Function.comp_def, Observer.tag_react]
    case isFalse hk =>
        have hnone : (s.instrument k).observers topic = [] :=
          Studio.observers_absent (fun hlt => hk ⟨rfl, hsize ▸ hlt⟩) topic
        rw [Instrument.tags, Instrument.tags, hnone, List.map_nil, List.nil_append]

-- Whoever observes an event when it is announced hears it once, whatever follows from that.
theorem ends_deliver (hemit : ∀ event, Keeps (Ignores tag) (emit k event)) {event : Event}
    (hs : s.Sole k event.topic tag) :
    Ends (Instrument.deliver emit k event) s
      (fun _ t => t.instruments.size = s.instruments.size ∧ t.heardBy tag = s.heardBy tag ++
          List.replicate (((s.instrument k).tags event.topic).count tag) event ∧
        t.Sole k event.topic tag ∧ ∃ joined, (t.instrument k).tags event.topic =
          (s.instrument k).tags event.topic ++ joined ∧ tag ∉ joined)
      fun _ _ => False := by
  rw [ends_deliver_iff]
  have hspares (observer : Observer) (h : observer ∈ (s.instrument k).observers event.topic) :
      observer.Spares tag := (hs k event.topic observer h).1
  refine (ends_answers hemit event hspares hs.aside).mono (fun _ t ht => ?_) fun _ _ h => h
  obtain ⟨hsize, hdeaf, hheard⟩ := ht
  have hsame : t.instruments.size = s.instruments.size := hsize.trans (s.size_aside k event)
  exact ⟨(t.size_restored ..).trans hsame, hheard, hs.restored hdeaf hsame rfl⟩

theorem ignores_deliver (hemit : ∀ event, Keeps (Ignores tag) (emit k event)) (event : Event) :
    Keeps (Ignores tag) (Instrument.deliver emit k event) := by
  refine keeps_where (p := (·.Deaf tag)) (fun s t hvoid hs => absurd hs hvoid) fun s hs => ?_
  have hnone : tag ∉ (s.instrument k).tags event.topic := by
    intro hmem
    obtain ⟨observer, hobserver, heq⟩ := List.mem_map.1 hmem
    exact (hs k event.topic observer hobserver).1 heq
  refine (ends_deliver hemit (hs.sole (k := k))).mono (fun _ t ht => ⟨fun _ => ?_, trivial⟩)
    fun _ _ h => h.elim
  obtain ⟨hsize, hheard, hsole, joined, htags, hjoined⟩ := ht
  refine ⟨hsize, hsole.deaf ?_, ?_⟩
  · rw [htags, List.mem_append]
    exact not_or.2 ⟨hnone, hjoined⟩
  · rw [hheard, List.count_eq_zero.2 hnone, List.replicate_zero, List.append_nil]

theorem ignores_announce (event : Event) : Keeps (Ignores tag) (Instrument.announce k event) := by
  refine keeps_modify fun s hs => ⟨Array.size_modify, fun j topic observer hobserver => ?_, rfl⟩
  rw [s.instrument_modify] at hobserver
  split at hobserver <;> exact hs j topic observer hobserver

theorem ignores_emitAt (depth : Nat) (event : Event) :
    Keeps (Ignores tag) (Instrument.emitAt depth k event) := by
  induction depth generalizing event with
  | zero => exact ignores_deliver ignores_announce event
  | succ depth ih => exact ignores_deliver ih event

end Ignores

end Patchbay
