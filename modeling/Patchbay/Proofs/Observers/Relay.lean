import Mathlib.Algebra.Order.BigOperators.Group.List
import Mathlib.Algebra.Order.Ring.Nat
import Patchbay.Proofs.Observers.EventOrder
import Patchbay.Proofs.Observers.Delivery

namespace Patchbay

open Act

def Observer.credits (observers : List Observer) : Nat := (observers.map Observer.credit).sum

namespace Observer

theorem credits_append (observers joined : List Observer) :
    credits (observers ++ joined) = credits observers + credits joined := by
  simp [credits]

theorem credits_plain (tag : String) : credits [plain tag] = 0 := rfl

theorem credit_react_le (observer : Observer) : observer.react.2.credit ≤ observer.credit := by
  obtain ⟨tag, reaction, left⟩ := observer
  cases reaction with
  | none => exact Nat.le_refl _
  | some reaction =>
      cases left with
      | zero => exact Nat.le_refl _
      | succ left => exact Nat.le_succ left

theorem credits_react_le (observers : List Observer) :
    credits (observers.map (·.react.2)) ≤ credits observers := by
  rw [credits, credits, List.map_map]
  exact List.sum_le_sum fun observer _ => observer.credit_react_le

theorem credit_pos_of_due {observer : Observer} {reaction : Reaction}
    (h : reaction ∈ observer.react.1) : 0 < observer.credit := by
  obtain ⟨tag, due, left⟩ := observer
  cases due with
  | none => simp [react] at h
  | some due =>
      cases left with
      | zero => simp [react] at h
      | succ left => exact Nat.succ_pos left

theorem credits_pos_of_due {observer : Observer} {observers : List Observer} {reaction : Reaction}
    (hmem : observer ∈ observers) (h : reaction ∈ observer.react.1) : 0 < credits observers :=
  Nat.lt_of_lt_of_le (credit_pos_of_due h) (List.single_le_sum (by simp) _ (List.mem_map_of_mem hmem))

end Observer

theorem Instrument.credit_eq (inst : Instrument) : inst.credit =
    Observer.credits (inst.observers .started) + Observer.credits (inst.observers .voices) +
      Observer.credits (inst.observers .ended) := by
  have hsum (observers : List Observer) :
      observers.foldl (· + ·.credit) 0 = Observer.credits observers := by
    rw [Observer.credits, List.sum_eq_foldl, List.foldl_map]
  rw [credit, hsum]
  simp [Observer.credits, Nat.add_assoc]

theorem Instrument.credit_observing (inst : Instrument) (topic : Topic) (list : List Observer) :
    (inst.observing topic list).credit + Observer.credits (inst.observers topic) =
      inst.credit + Observer.credits list := by
  rw [credit_eq, credit_eq]
  cases topic <;> simp [observing] <;> omega

namespace Studio

variable {s t : Studio} {k : InstrumentId}

theorem credit_eq (s : Studio) : s.credit = (s.instruments.toList.map Instrument.credit).sum := by
  rw [credit, ← Array.foldl_toList, List.sum_eq_foldl, List.foldl_map]

theorem credit_modify {f : Instrument → Instrument} (hk : k < s.instruments.size) :
    ({ s with instruments := s.instruments.modify k f } : Studio).credit + (s.instrument k).credit =
      s.credit + (f (s.instrument k)).credit := by
  have hsum (list : List Instrument) (k : Nat) (hk : k < list.length) :
      ((list.modify k f).map Instrument.credit).sum + list[k].credit =
        (list.map Instrument.credit).sum + (f list[k]).credit := by
    induction list generalizing k with
    | nil => cases hk
    | cons inst rest ih =>
        cases k with
        | zero => simp [Nat.add_comm, Nat.add_left_comm, Nat.add_assoc]
        | succ k =>
            have hrest := ih k (Nat.lt_of_succ_lt_succ hk)
            simp only [List.modify_succ_cons, List.map_cons, List.sum_cons, List.getElem_cons_succ]
            omega
  have hinst : s.instrument k = s.instruments.toList[k] := by simp [instrument, hk]
  rw [credit_eq, credit_eq, Array.toList_modify, hinst]
  exact hsum _ k hk

theorem credit_congr (hsize : t.instruments.size = s.instruments.size)
    (h : ∀ k, (t.instrument k).credit = (s.instrument k).credit) : t.credit = s.credit := by
  rw [credit_eq, credit_eq]
  congr 1
  refine List.ext_getElem (by simpa using hsize) fun k hk hk' => ?_
  simp only [List.length_map, Array.length_toList] at hk hk'
  have hk := h k
  simpa [instrument, *] using hk

theorem credit_unchanged {f : Instrument → Instrument} (h : ∀ inst, (f inst).credit = inst.credit) :
    ({ s with instruments := s.instruments.modify k f } : Studio).credit = s.credit := by
  refine credit_congr Array.size_modify fun j => ?_
  rw [s.instrument_modify]
  split
  · exact h _
  · rfl

theorem credit_absent {f : Instrument → Instrument} (hk : ¬k < s.instruments.size) :
    ({ s with instruments := s.instruments.modify k f } : Studio).credit = s.credit := by
  refine credit_congr Array.size_modify fun j => ?_
  rw [s.instrument_modify, if_neg]
  rintro ⟨rfl, hj⟩
  exact hk hj

theorem credit_observing (s : Studio) (k : InstrumentId) (topic : Topic)
    (list : Instrument → List Observer) (h : k < s.instruments.size ∨ list (s.instrument k) = []) :
    ({ s with instruments := s.instruments.modify k fun i => i.observing topic (list i) } :
        Studio).credit + Observer.credits ((s.instrument k).observers topic) =
      s.credit + Observer.credits (list (s.instrument k)) := by
  by_cases hk : k < s.instruments.size
  · have hcredit := s.credit_modify (f := fun i => i.observing topic (list i)) hk
    have hobserving := (s.instrument k).credit_observing topic (list (s.instrument k))
    omega
  · rw [observers_absent hk, h.resolve_left hk, credit_absent hk]

-- Nobody has more to do when observers join who do nothing.
theorem credit_joined (s : Studio) (k : InstrumentId) (topic : Topic) (tag : String) :
    (s.joinedBy k topic (.plain tag)).credit = s.credit := by
  by_cases hk : k < s.instruments.size
  · have hjoined := s.credit_observing k topic (fun i => i.observers topic ++ [.plain tag]) (.inl hk)
    rw [Observer.credits_append, Observer.credits_plain] at hjoined
    rw [joinedBy]
    omega
  · exact credit_absent hk

-- The reactions of observers that are set aside are left for later.
theorem credit_aside (s : Studio) (k : InstrumentId) (event : Event) :
    (s.aside k event).credit + Observer.credits ((s.instrument k).observers event.topic) =
      s.credit := by
  let t : Studio := { s with instruments := s.instruments.modify k (·.note event) }
  have hnoted : t.credit = s.credit := credit_unchanged fun _ => rfl
  have hobservers : (t.instrument k).observers = (s.instrument k).observers := by
    rw [s.instrument_modify]
    split <;> rfl
  have haside := t.credit_observing k event.topic (fun _ => []) (.inr rfl)
  rw [hobservers, hnoted] at haside
  exact haside

theorem credit_restored_le (t : Studio) (k : InstrumentId) (topic : Topic)
    {observers : List Observer} (h : k < t.instruments.size ∨ observers = []) :
    (t.restored k topic observers).credit ≤ t.credit + Observer.credits observers := by
  have hwhere : k < t.instruments.size ∨ observers ++ (t.instrument k).observers topic = [] := by
    by_cases hk : k < t.instruments.size
    · exact .inl hk
    · exact .inr (by rw [h.resolve_left hk, observers_absent hk, List.nil_append])
  have hrestored := t.credit_observing k topic (fun i => observers ++ i.observers topic) hwhere
  rw [Observer.credits_append] at hrestored
  rw [restored]
  omega

end Studio

theorem Silent.credit {s t : Studio} (h : Silent s t) : t.credit = s.credit :=
  Studio.credit_congr h.size fun k => by
    rw [Instrument.credit_eq, Instrument.credit_eq, h.observers, h.observers, h.observers]

-- What observers do about an event has a smaller bound than the event. `R` is what it does to a studio
-- whose observers of the event are set aside.
theorem ends_delivered {R : Studio → Studio → Prop} [IsPreorder Studio R] {s : Studio}
    {k : InstrumentId} (emit : Instrument.Emit) (event : Event)
    (hanswer : ∀ observer ∈ (s.instrument k).observers event.topic,
      (∀ reaction ∈ observer.react.1, (s.aside k event).credit < s.credit) →
        Keeps R (Instrument.answer emit k event observer))
    (hless : ∀ t, R (s.aside k event) t →
      t.credit ≤ (s.aside k event).credit ∧ s.instruments.size ≤ t.instruments.size) :
    Ends (Instrument.deliver emit k event) s (fun _ u => u.credit ≤ s.credit ∧ ∃ t,
      R (s.aside k event) t ∧ u = t.restored k event.topic
        (((s.instrument k).observers event.topic).map (·.react.2))) fun _ _ => False := by
  have haway := s.credit_aside k event
  have hanswers : Keeps R
      (((s.instrument k).observers event.topic).forM (Instrument.answer emit k event)) := by
    refine keeps_forM fun observer hobserver => hanswer observer hobserver fun reaction hdue => ?_
    have hpos := Observer.credits_pos_of_due hobserver hdue
    omega
  have hdelivers : Ends (Instrument.deliver emit k event) s (fun _ _ => True) fun _ _ => False :=
    Instrument.unfailing_deliver k event s
  rw [ends_deliver_iff] at hdelivers ⊢
  refine (Ends.and hdelivers (hanswers (s.aside k event))).mono (fun _ t ht => ?_) fun _ _ h => h.1
  obtain ⟨hle, hsize⟩ := hless t ht.2.1
  have hwhere : k < t.instruments.size ∨
      ((s.instrument k).observers event.topic).map (·.react.2) = [] := by
    by_cases hk : k < s.instruments.size
    · exact .inl (Nat.lt_of_lt_of_le hk hsize)
    · exact .inr (by rw [Studio.observers_absent hk, List.map_nil])
  have hback := t.credit_restored_le k event.topic hwhere
  have hreact := Observer.credits_react_le ((s.instrument k).observers event.topic)
  exact ⟨by omega, t, ht.2.1, rfl⟩

-- Nothing is announced and nothing is registered or leaves. At most, observers join who play nothing.
structure Joins (s t : Studio) : Prop where
  size : t.instruments.size = s.instruments.size
  opens : s.Opens → t.Opens
  credit : t.credit ≤ s.credit
  voices : ∀ k, (t.instrument k).voices.length = (s.instrument k).voices.length
  announced : ∀ k, (t.instrument k).announced = (s.instrument k).announced
  joined : ∀ k topic, ∃ joined, (t.instrument k).observers topic =
    (s.instrument k).observers topic ++ joined ∧ ∀ observer ∈ joined, observer.Calm

namespace Joins

variable {s t : Studio} {k : InstrumentId}

theorem of_same (hsize : t.instruments.size = s.instruments.size) (hopens : s.Opens → t.Opens)
    (h : ∀ k, (t.instrument k).voices.length = (s.instrument k).voices.length ∧
      (t.instrument k).announced = (s.instrument k).announced ∧
      (t.instrument k).observers = (s.instrument k).observers) : Joins s t where
  size := hsize
  opens := hopens
  credit := Nat.le_of_eq (Studio.credit_congr hsize fun k => by
    rw [Instrument.credit, (h k).2.2, Instrument.credit])
  voices k := (h k).1
  announced k := (h k).2.1
  joined k topic := ⟨[], by rw [(h k).2.2, List.append_nil], by simp⟩

instance : IsPreorder Studio Joins where
  refl _ := of_same rfl id fun _ => ⟨rfl, rfl, rfl⟩
  trans _ _ _ h h' := by
    refine ⟨h'.size.trans h.size, h'.opens ∘ h.opens, h'.credit.trans h.credit,
      fun k => (h'.voices k).trans (h.voices k), fun k => (h'.announced k).trans (h.announced k),
      fun k topic => ?_⟩
    obtain ⟨joined, hjoined, hcalm⟩ := h.joined k topic
    obtain ⟨more, hmore, hcalm'⟩ := h'.joined k topic
    refine ⟨joined ++ more, by rw [hmore, hjoined, List.append_assoc], ?_⟩
    exact List.forall_mem_append.2 ⟨hcalm, hcalm'⟩

instance : Clocks Joins where
  offstage s t h := by
    refine of_same (by rw [h.instruments]) (Silent.of_offstage h).opens fun k => ?_
    rw [Studio.instrument_congr h.instruments]
    exact ⟨rfl, rfl, rfl⟩

theorem keeps_stopped (id : VoiceId) : Keeps Joins (changeInstrument k (·.markStopped id)) := by
  have hsilent (s : Studio) := Silent.of_change (s := s) k (f := (·.markStopped id)) (fun _ => rfl)
    (fun _ => rfl) fun _ => rfl
  refine keeps_modify fun s => of_same Array.size_modify (hsilent s).opens fun j => ?_
  rw [s.instrument_modify]
  split
  · exact ⟨by simp [Instrument.markStopped], rfl, rfl⟩
  · exact ⟨rfl, rfl, rfl⟩

theorem keeps_observe (topic : Topic) (tag : String) :
    Keeps Joins (Instrument.observe k topic (.plain tag)) := by
  refine keeps_joined fun s => ⟨s.size_joinedBy .., s.opens_joinedBy _ _ _, ?_, fun j => ?_,
    fun j => s.announced_joinedBy .., fun j other => ?_⟩
  · exact Nat.le_of_eq (s.credit_joined k topic tag)
  · rw [s.instrument_joinedBy]
    split <;> rfl
  · rw [s.instrument_joinedBy]
    split
    case isFalse => exact ⟨[], by simp, by simp⟩
    case isTrue =>
        rw [Instrument.observing]
        dsimp only
        split
        case isFalse => exact ⟨[], by simp, by simp⟩
        case isTrue heq => exact ⟨[.plain tag], by rw [heq], by simpa using Observer.calm_plain tag⟩

theorem keeps_answer {emit : Instrument.Emit} {observer : Observer} (h : observer.Calm)
    (event : Event) : Keeps Joins (Instrument.answer emit k event observer) := by
  have hhear : Keeps Joins (hear (.observed observer.tag event)) :=
    keeps_modify fun s => of_same rfl id fun _ => ⟨rfl, rfl, rfl⟩
  refine keeps_bind hhear fun _ => ?_
  split
  case h_2 => exact keeps_pure _
  case h_1 reaction hdue =>
      have hcalm : reaction.plays = false := h reaction hdue
      refine Instrument.stages_perform keeps_stopped (fun _ => keeps_observe _ _) ?_
      rintro x duration rfl
      cases hcalm

end Joins

-- However the instruments are played, it is not announced of one that a voice has ended.
structure Unending (k : InstrumentId) (s t : Studio) : Prop where
  size : t.instruments.size = s.instruments.size
  credit : t.credit ≤ s.credit
  opens : t.Opens
  announced : ∃ later, (t.instrument k).announced = (s.instrument k).announced ++ later ∧
    ∀ event ∈ later, event.topic ≠ .ended

def Unends (k : InstrumentId) (s t : Studio) : Prop := s.Opens → Unending k s t

section Unends

variable {k j : InstrumentId} {s t : Studio} {emit : Instrument.Emit}

namespace Unending

theorem trans {u : Studio} (h : Unending k s t) (h' : Unending k t u) : Unending k s u := by
  obtain ⟨later, hlater, htopics⟩ := h.announced
  obtain ⟨more, hmore, htopics'⟩ := h'.announced
  refine ⟨h'.size.trans h.size, h'.credit.trans h.credit, h'.opens, later ++ more, ?_, ?_⟩
  · rw [hmore, hlater, List.append_assoc]
  · exact List.forall_mem_append.2 ⟨htopics, htopics'⟩

theorem of_unannounced (hsize : t.instruments.size = s.instruments.size) (hcredit : t.credit ≤ s.credit)
    (hopens : t.Opens) (h : (t.instrument k).announced = (s.instrument k).announced) :
    Unending k s t :=
  ⟨hsize, hcredit, hopens, [], by rw [h, List.append_nil], by simp⟩

end Unending

instance : Hears (Unends k) where
  refl _ h := .of_unannounced rfl (Nat.le_refl _) h rfl
  trans _ _ _ h h' hs := (h hs).trans (h' (h hs).opens)
  silent _ _ h hs := .of_unannounced h.size (Nat.le_of_eq h.credit) (h.opens hs) (h.announced k)

theorem unends_answer (hemit : ∀ event : Event, event.topic ≠ .ended → Keeps (Unends k) (emit j event))
    (event : Event) (observer : Observer) :
    Keeps (Unends k) (Instrument.answer emit j event observer) := by
  have hhear : Keeps (Unends k) (hear (.observed observer.tag event)) :=
    keeps_modify fun s hs => .of_unannounced rfl (Nat.le_refl _) hs rfl
  refine keeps_bind hhear fun _ => ?_
  split
  case h_2 => exact keeps_pure _
  case h_1 reaction _ =>
      refine Instrument.stages_perform hears_stopped (fun _ => ?_) fun x duration _ => ?_
      · exact keeps_joined fun s hs => .of_unannounced (s.size_joinedBy ..)
          (Nat.le_of_eq (s.credit_joined j event.topic _)) (s.opens_joinedBy _ _ _ hs)
          (s.announced_joinedBy ..)
      · refine keeps_where (p := Studio.Opens) (fun _ _ hvoid hs => absurd hs hvoid) fun s hs => ?_
        refine along_playValue (hs j) hears_stopped ?_ hemit x
        intro t node
        exact Hears.silent t _ (.of_change j (fun _ => rfl) (fun _ => rfl) fun _ => rfl)

theorem unends_deliver (hemit : ∀ event : Event, event.topic ≠ .ended → Keeps (Unends k) (emit j event))
    {event : Event} (h : event.topic ≠ .ended) :
    Keeps (Unends k) (Instrument.deliver emit j event) := by
  refine keeps_where (p := Studio.Opens) (fun _ _ hvoid hs => absurd hs hvoid) fun s hs => ?_
  have haside : Unending k s (s.aside j event) := by
    refine ⟨s.size_aside j event, ?_, s.opens_aside j event hs, _, s.announced_aside j k event, ?_⟩
    · exact Nat.le_of_add_right_le (Nat.le_of_eq (s.credit_aside j event))
    · intro other hother
      split at hother
      · rwa [List.mem_singleton.1 hother]
      · cases hother
  refine (ends_delivered (R := Unends k) emit event
    (fun observer _ _ => unends_answer hemit event observer) ?_).mono ?_ fun _ _ h => h.elim
  · intro t ht
    exact ⟨(ht haside.opens).credit, Nat.le_of_eq (haside.trans (ht haside.opens)).size.symm⟩
  · rintro - - ⟨hcredit, t, ht, rfl⟩
    have hst := haside.trans (ht haside.opens)
    obtain ⟨later, hlater, htopics⟩ := hst.announced
    refine ⟨fun _ => ⟨(t.size_restored ..).trans hst.size, hcredit, t.opens_restored _ _ _ hst.opens,
      later, ?_, htopics⟩, trivial⟩
    rw [t.announced_restored, hlater]

theorem unends_announce {event : Event} (h : event.topic ≠ .ended) :
    Keeps (Unends k) (Instrument.announce j event) := by
  refine keeps_modify fun s hs => ⟨Array.size_modify, ?_, ?_,
    if j = k ∧ k < s.instruments.size then [event] else [], ?_, ?_⟩
  · exact Nat.le_of_eq (Studio.credit_unchanged fun _ => rfl)
  · refine hs.of_contexts rfl fun i => ?_
    rw [s.instrument_modify]
    split <;> rfl
  · rw [s.instrument_modify]
    split
    · exact (s.instrument k).announced_note event
    · rw [List.append_nil]
  · intro other hother
    split at hother
    · rwa [List.mem_singleton.1 hother]
    · cases hother

theorem unends_emitAt (depth : Nat) {event : Event} (h : event.topic ≠ .ended) :
    Keeps (Unends k) (Instrument.emitAt depth j event) := by
  induction depth generalizing event with
  | zero => exact unends_deliver (fun event h => unends_announce h) h
  | succ depth ih => exact unends_deliver (fun event h => ih h) h

end Unends

-- Somebody observes the topic under a tag of their own, and nobody plays anything in answer to it, or
-- else it is about ends, which no playing brings about at once.
structure Studio.Attended (s : Studio) (k : InstrumentId) (topic : Topic) (tag : String) : Prop where
  sole : s.Sole k topic tag
  once : ((s.instrument k).tags topic).count tag = 1
  calm : topic = .ended ∨ ∀ observer ∈ (s.instrument k).observers topic, observer.Calm

-- What is announced of the topic has been heard under the tag.
structure Relay (k : InstrumentId) (topic : Topic) (tag : String) (s t : Studio) : Prop where
  size : s.instruments.size ≤ t.instruments.size
  attended : t.Attended k topic tag
  relayed : ∃ later, (t.instrument k).announced = (s.instrument k).announced ++ later ∧
    t.heardBy tag = s.heardBy tag ++ later.filter (·.topic = topic)

-- Where no more reactions than that are left, none are added.
def Relays (depth : Nat) (k : InstrumentId) (topic : Topic) (tag : String) (s t : Studio) : Prop :=
  s.credit ≤ depth → s.Opens → s.Attended k topic tag →
    t.credit ≤ s.credit ∧ t.Opens ∧ Relay k topic tag s t

section Relays

variable {k : InstrumentId} {topic : Topic} {tag : String} {s t : Studio} {depth : Nat}

theorem Studio.Attended.lt_size (h : s.Attended k topic tag) : k < s.instruments.size := by
  by_contra hk
  have honce := h.once
  rw [Instrument.tags, observers_absent hk] at honce
  cases honce

-- Others may join.
theorem Studio.Attended.of_joined (h : s.Attended k topic tag) {joined : List Observer}
    (hown : (t.instrument k).observers topic = (s.instrument k).observers topic ++ joined)
    (hjoined : ∀ observer ∈ joined, observer.Other tag ∧ (topic = .ended ∨ observer.Calm))
    (hothers : ∀ j other, ¬(j = k ∧ other = topic) → ∀ observer ∈ (t.instrument j).observers other,
      observer ∈ (s.instrument j).observers other ∨ observer.Other tag) :
    t.Attended k topic tag where
  sole j other observer hobserver := by
    by_cases hwhere : j = k ∧ other = topic
    · obtain ⟨rfl, rfl⟩ := hwhere
      rw [hown] at hobserver
      rcases List.mem_append.1 hobserver with hobserver | hobserver
      · exact h.sole j other observer hobserver
      · exact ⟨(hjoined observer hobserver).1.2, .inl ⟨rfl, rfl⟩⟩
    · rcases hothers j other hwhere observer hobserver with hobserver | hother
      · exact h.sole j other observer hobserver
      · exact ⟨hother.2, .inr hother.1⟩
  once := by
    have hnone : tag ∉ joined.map Observer.tag := by
      intro hmem
      obtain ⟨observer, hobserver, heq⟩ := List.mem_map.1 hmem
      exact (hjoined observer hobserver).1.1 heq
    have honce := h.once
    rw [Instrument.tags] at honce ⊢
    rw [hown, List.map_append, List.count_append, honce, List.count_eq_zero.2 hnone]
  calm := by
    refine or_iff_not_imp_left.2 fun htopic observer hobserver => ?_
    rw [hown] at hobserver
    rcases List.mem_append.1 hobserver with hobserver | hobserver
    · exact h.calm.resolve_left htopic observer hobserver
    · exact (hjoined observer hobserver).2.resolve_left htopic

theorem Studio.Attended.of_others (h : s.Attended k topic tag)
    (hown : (t.instrument k).observers topic = (s.instrument k).observers topic)
    (hothers : ∀ j other, ¬(j = k ∧ other = topic) → ∀ observer ∈ (t.instrument j).observers other,
      observer ∈ (s.instrument j).observers other ∨ observer.Other tag) :
    t.Attended k topic tag :=
  h.of_joined (hown.trans (List.append_nil _).symm) (by simp) hothers

namespace Relay

theorem trans {u : Studio} (h : Relay k topic tag s t) (h' : Relay k topic tag t u) :
    Relay k topic tag s u := by
  obtain ⟨later, hlater, hheard⟩ := h.relayed
  obtain ⟨more, hmore, hheard'⟩ := h'.relayed
  refine ⟨Nat.le_trans h.size h'.size, h'.attended, later ++ more, ?_, ?_⟩
  · rw [hmore, hlater, List.append_assoc]
  · rw [hheard', hheard, List.filter_append, List.append_assoc]

-- Nothing is announced of the instrument, and nothing is heard under the tag.
theorem of_unheard (hsize : s.instruments.size ≤ t.instruments.size) (ht : t.Attended k topic tag)
    (hannounced : (t.instrument k).announced = (s.instrument k).announced)
    (hheard : t.heardBy tag = s.heardBy tag) : Relay k topic tag s t :=
  ⟨hsize, ht, [], by rw [hannounced, List.append_nil], by rw [hheard, List.filter_nil, List.append_nil]⟩

end Relay

instance : Hears (Relays depth k topic tag) where
  refl s _ hopens h := ⟨Nat.le_refl _, hopens, .of_unheard (Nat.le_refl _) h rfl rfl⟩
  trans s t u h h' hd hopens hs :=
    have ⟨hle, hopens', hst⟩ := h hd hopens hs
    have ⟨hle', hopens'', htu⟩ := h' (hle.trans hd) hopens' hst.attended
    ⟨hle'.trans hle, hopens'', hst.trans htu⟩
  silent s t h _ hopens hs := by
    refine ⟨Nat.le_of_eq h.credit, h.opens hopens,
      .of_unheard (Nat.le_of_eq h.size.symm) ?_ (h.announced k) (h.heard tag)⟩
    refine hs.of_others (h.observers k topic) fun j other _ observer hobserver => .inl ?_
    rwa [h.observers] at hobserver

section Own

variable {emit : Instrument.Emit} {event : Event}

theorem Studio.Attended.instrument_aside (hs : s.Attended k event.topic tag) :
    (s.aside k event).instrument k = ((s.instrument k).note event).observing event.topic [] := by
  rw [s.instrument_aside, if_pos ⟨rfl, hs.lt_size⟩]

-- Those who observe it are told, and what they do in answer is not announced if they play nothing.
theorem ends_calm (hignores : ∀ event, Keeps (Ignores tag) (emit k event))
    (hs : s.Attended k event.topic tag)
    (hcalm : ∀ observer ∈ (s.instrument k).observers event.topic, observer.Calm) :
    Ends (Instrument.deliver emit k event) s
      (fun _ t => t.credit ≤ s.credit ∧ (s.Opens → t.Opens) ∧ t.Attended k event.topic tag ∧
        t.instruments.size = s.instruments.size ∧
        (t.instrument k).voices.length = (s.instrument k).voices.length ∧
        (t.instrument k).announced = (s.instrument k).announced ++ [event] ∧
        t.heardBy tag = s.heardBy tag ++ [event])
      fun _ _ => False := by
  have hjoins := ends_delivered (R := Joins) (s := s) (k := k) emit event
    (fun observer hobserver _ => Joins.keeps_answer (hcalm observer hobserver) event)
    fun t ht => ⟨ht.credit, Nat.le_of_eq (ht.size.trans (s.size_aside k event)).symm⟩
  refine (Ends.and hjoins (ends_deliver hignores hs.sole)).mono ?_ fun _ _ h => h.1
  rintro - - ⟨⟨hcredit, t, ht, rfl⟩, hsize, hheard, hsole, joined, htags, hjoined⟩
  have hback := t.instrument_restored k k event.topic
    (((s.instrument k).observers event.topic).map (·.react.2))
  rw [if_pos ⟨rfl, by rw [ht.size, s.size_aside]; exact hs.lt_size⟩] at hback
  refine ⟨hcredit, ?_, ⟨hsole, ?_, .inr ?_⟩, hsize, ?_, ?_, ?_⟩
  · exact fun hopens => t.opens_restored _ _ _ (ht.opens (s.opens_aside k event hopens))
  · rw [htags, List.count_append, hs.once, List.count_eq_zero.2 hjoined]
  · intro observer hobserver
    rw [hback] at hobserver
    simp only [Instrument.observing, if_true] at hobserver
    rcases List.mem_append.1 hobserver with hobserver | hobserver
    · obtain ⟨before, hbefore, rfl⟩ := List.mem_map.1 hobserver
      exact (hcalm before hbefore).react
    · obtain ⟨more, hmore, hcalm⟩ := ht.joined k event.topic
      rw [hmore, hs.instrument_aside] at hobserver
      simp only [Instrument.observing, if_true, List.nil_append] at hobserver
      exact hcalm observer hobserver
  · have hvoices := ht.voices k
    rw [hs.instrument_aside] at hvoices
    rw [hback]
    exact hvoices
  · rw [t.announced_restored, ht.announced, hs.instrument_aside]
    exact (s.instrument k).announced_note event
  · rw [hheard, hs.once, List.replicate_one]

-- What they do in answer to an end is not to announce another.
theorem ends_unending (hignores : ∀ event, Keeps (Ignores tag) (emit k event))
    (hemit : ∀ event : Event, event.topic ≠ .ended → Keeps (Unends k) (emit k event))
    (hevent : event.topic = .ended) (hopens : s.Opens) (hs : s.Attended k event.topic tag) :
    Ends (Instrument.deliver emit k event) s
      (fun _ t => t.credit ≤ s.credit ∧ t.Opens ∧ Relay k event.topic tag s t) fun _ _ => False := by
  have haside : (s.aside k event).Opens := s.opens_aside k event hopens
  have hdelivered := ends_delivered (R := Unends k) (s := s) (k := k) emit event
    (fun observer _ _ => unends_answer hemit event observer)
    fun t ht => ⟨(ht haside).credit, Nat.le_of_eq ((ht haside).size.trans (s.size_aside k event)).symm⟩
  refine (Ends.and hdelivered (ends_deliver hignores hs.sole)).mono ?_ fun _ _ h => h.1
  rintro - - ⟨⟨hcredit, t, ht, rfl⟩, hsize, hheard, hsole, joined, htags, hjoined⟩
  obtain ⟨later, hlater, htopics⟩ := (ht haside).announced
  refine ⟨hcredit, t.opens_restored _ _ _ (ht haside).opens, Nat.le_of_eq hsize.symm,
    ⟨hsole, ?_, .inl hevent⟩, event :: later, ?_, ?_⟩
  · rw [htags, List.count_append, hs.once, List.count_eq_zero.2 hjoined]
  · have hnoted : (((s.instrument k).note event).observing event.topic []).announced =
        (s.instrument k).announced ++ [event] := (s.instrument k).announced_note event
    rw [t.announced_restored, hlater, hs.instrument_aside, hnoted, List.append_assoc]
    rfl
  · have hnone : later.filter (·.topic = event.topic) = [] :=
      List.filter_eq_nil_iff.2 fun other hother => by simpa [hevent] using htopics other hother
    rw [hheard, hs.once, List.filter_cons_of_pos (by simp), hnone, List.replicate_one]

end Own

section Others

variable {j : InstrumentId} {event : Event} {emit : Instrument.Emit}

theorem Studio.observers_elsewhere {inst : Instrument} {other : Topic} {p : Prop} [Decidable p]
    (h : p → other ≠ topic) (list : List Observer) :
    (if p then inst.observing other list else inst).observers topic = inst.observers topic := by
  split
  case isTrue hp => exact if_neg fun heq => h hp heq.symm
  case isFalse => rfl

theorem relay_aside (hs : s.Attended k topic tag) (h : ¬(j = k ∧ event.topic = topic)) :
    Relay k topic tag s (s.aside j event) := by
  refine ⟨Nat.le_of_eq (s.size_aside j event).symm, hs.of_others ?_ ?_,
    if j = k ∧ k < s.instruments.size then [event] else [], s.announced_aside j k event, ?_⟩
  · rw [s.observers_aside, if_neg fun hj => h ⟨hj.1, hj.2.symm⟩]
  · intro i other _ observer hobserver
    rw [s.observers_aside] at hobserver
    split at hobserver
    · cases hobserver
    · exact .inl hobserver
  · split
    case isTrue hk =>
        have htopic : event.topic ≠ topic := fun heq => h ⟨hk.1, heq⟩
        rw [List.filter_cons_of_neg (by simpa using htopic), List.filter_nil, List.append_nil]
        rfl
    case isFalse => exact (List.append_nil _).symm

theorem relay_restored (hs : s.Attended k topic tag) {other : Topic} (h : ¬(j = k ∧ other = topic))
    {observers : List Observer} (hothers : ∀ observer ∈ observers, observer.Other tag) :
    Relay k topic tag s (s.restored j other observers) := by
  refine .of_unheard (Nat.le_of_eq (s.size_restored ..).symm) (hs.of_others ?_ ?_)
    (s.announced_restored ..) rfl
  · rw [s.instrument_restored]
    exact Studio.observers_elsewhere (fun hj heq => h ⟨hj.1, heq⟩) _
  · intro i last _ observer hobserver
    rw [s.instrument_restored] at hobserver
    rcases Studio.mem_observing hobserver with hbefore | ⟨-, rfl, hmem⟩
    · exact .inl hbefore
    · exact (List.mem_append.1 hmem).elim (fun hback => .inr (hothers observer hback)) .inl

-- Whoever joins the observers has another tag, and plays nothing in answer to the topic.
theorem relay_joined (hs : s.Attended k topic tag) {other : Topic} {observer : Observer}
    (hother : observer.Other tag) (hcalm : j = k ∧ other = topic → topic = .ended ∨ observer.Calm) :
    Relay k topic tag s (s.joinedBy j other observer) := by
  refine .of_unheard (Nat.le_of_eq (s.size_joinedBy ..).symm) ?_ (s.announced_joinedBy ..) rfl
  have hmem (i : InstrumentId) (last : Topic) (joined : Observer)
      (hjoined : joined ∈ ((s.joinedBy j other observer).instrument i).observers last) :
      joined ∈ (s.instrument i).observers last ∨ joined.Other tag := by
    rw [s.instrument_joinedBy] at hjoined
    rcases Studio.mem_observing hjoined with hbefore | ⟨-, rfl, hnow⟩
    · exact .inl hbefore
    · refine (List.mem_append.1 hnow).imp_right fun hnew => ?_
      rwa [List.mem_singleton.1 hnew]
  by_cases hwhere : j = k ∧ other = topic
  · obtain ⟨rfl, rfl⟩ := hwhere
    have hown : ((s.joinedBy j other observer).instrument j).observers other =
        (s.instrument j).observers other ++ [observer] := by
      rw [s.instrument_joinedBy, if_pos ⟨rfl, hs.lt_size⟩]
      exact if_pos rfl
    refine hs.of_joined hown ?_ fun i last _ => hmem i last
    simpa using ⟨hother, hcalm ⟨rfl, rfl⟩⟩
  · refine hs.of_others ?_ fun i last _ => hmem i last
    rw [s.instrument_joinedBy]
    exact Studio.observers_elsewhere (fun hj heq => hwhere ⟨hj.1, heq⟩) _

theorem relays_answer {observer : Observer} (hother : observer.Other tag)
    (h : ¬(j = k ∧ event.topic = topic)) (hemit : ∀ reaction ∈ observer.react.1, ∀ event,
      Keeps (Relays depth k topic tag) (emit j event)) :
    Keeps (Relays depth k topic tag) (Instrument.answer emit j event observer) := by
  have hhear : Keeps (Relays depth k topic tag) (hear (.observed observer.tag event)) := by
    refine keeps_modify fun s _ hopens hs => ⟨Nat.le_refl _, hopens, ?_⟩
    refine .of_unheard (Nat.le_refl _) (hs.of_others rfl fun _ _ _ _ => .inl) rfl ?_
    rw [s.heardBy_hear, Notice.observed?, if_neg hother.1, Option.toList_none, List.append_nil]
  refine keeps_bind hhear fun _ => ?_
  split
  case h_2 => exact keeps_pure _
  case h_1 reaction hdue =>
      refine hears_perform (hemit reaction hdue) fun hsubscribes => keeps_joined fun s _ hopens hs => ?_
      refine ⟨Nat.le_of_eq (s.credit_joined j event.topic _), s.opens_joinedBy _ _ _ hopens, ?_⟩
      exact relay_joined hs ⟨hother.2 reaction hdue hsubscribes, Observer.spares_plain _ _⟩
        fun hwhere => absurd hwhere h

theorem relays_deliver (hignores : ∀ event, Keeps (Ignores tag) (emit j event))
    (hunends : ∀ event : Event, event.topic ≠ .ended → Keeps (Unends k) (emit j event))
    (hemit : ∀ bound < depth, ∀ event, Keeps (Relays bound k topic tag) (emit j event))
    (event : Event) : Keeps (Relays depth k topic tag) (Instrument.deliver emit j event) := by
  refine keeps_where (p := fun s => s.credit ≤ depth ∧ s.Opens ∧ s.Attended k topic tag)
    (fun s t hvoid hd hopens hs => absurd ⟨hd, hopens, hs⟩ hvoid) fun s ⟨hd, hopens, hs⟩ => ?_
  by_cases hwhere : j = k ∧ event.topic = topic
  · obtain ⟨rfl, rfl⟩ := hwhere
    rcases hs.calm with hended | hcalm
    · exact (ends_unending hignores hunends hended hopens hs).mono
        (fun _ t ht => ⟨fun _ _ _ => ht, trivial⟩) fun _ _ h => h.elim
    · refine (ends_calm hignores hs hcalm).mono (fun _ t ht => ⟨fun _ _ _ => ?_, trivial⟩)
        fun _ _ h => h.elim
      obtain ⟨hcredit, hopens', hattended, hsize, -, hannounced, hheard⟩ := ht
      exact ⟨hcredit, hopens' hopens, Nat.le_of_eq hsize.symm, hattended, [event], hannounced,
        by simpa using hheard⟩
  · have hother (observer : Observer) (h : observer ∈ (s.instrument j).observers event.topic) :
        observer.Other tag :=
      have ⟨hspares, hown⟩ := hs.sole j event.topic observer h
      ⟨hown.resolve_left hwhere, hspares⟩
    have haside := relay_aside hs hwhere
    have hmeanwhile (t : Studio)
        (ht : Relays (s.aside j event).credit k topic tag (s.aside j event) t) :=
      ht (Nat.le_refl _) (s.opens_aside j event hopens) haside.attended
    refine (ends_delivered (R := Relays (s.aside j event).credit k topic tag) emit event ?_ ?_).mono ?_
      fun _ _ h => h.elim
    · exact fun observer hobserver hless => relays_answer (hother observer hobserver) hwhere
        fun reaction hdue => hemit _ (Nat.lt_of_lt_of_le (hless reaction hdue) hd)
    · exact fun t ht => ⟨(hmeanwhile t ht).1, haside.size.trans (hmeanwhile t ht).2.2.size⟩
    · rintro - - ⟨hcredit, t, ht, rfl⟩
      obtain ⟨-, hopens', hrelay⟩ := hmeanwhile t ht
      have hback := relay_restored hrelay.attended hwhere
        (List.forall_mem_map.2 fun observer hobserver => (hother observer hobserver).react)
      refine ⟨fun _ _ _ => ⟨hcredit, t.opens_restored _ _ _ hopens', ?_⟩, trivial⟩
      exact (haside.trans hrelay).trans hback

end Others

variable (k topic tag) in
theorem relays_emitAt (depth : Nat) (j : InstrumentId) (event : Event) :
    Keeps (Relays depth k topic tag) (Instrument.emitAt depth j event) := by
  induction depth generalizing event with
  | zero =>
      refine relays_deliver ignores_announce (fun _ h => unends_announce h) (fun _ h => ?_) event
      exact absurd h (Nat.not_lt_zero _)
  | succ depth ih =>
      refine relays_deliver (ignores_emitAt depth) (fun _ h => unends_emitAt depth h)
        (fun bound hbound event => ?_) event
      exact (ih event).mono fun s t h hd => h (hd.trans (Nat.le_of_lt_succ hbound))

theorem relays_remove (depth : Nat) (j : InstrumentId) (id : VoiceId) :
    Keeps (Relays depth k topic tag) (Instrument.remove (Instrument.emitAt depth) j id) :=
  hears_remove (relays_emitAt k topic tag depth j) id

theorem relays_startWith (depth : Nat) (j : InstrumentId) (play : Play)
    (time delay duration : Option Float) : Keeps (Relays depth k topic tag)
      (Instrument.startWith (Instrument.emitAt depth) j play time delay duration) :=
  hears_startWith (relays_emitAt k topic tag depth j) play time delay duration

theorem relays_track (depth : Nat) (j : InstrumentId) (node : Node) :
    Keeps (Relays depth k topic tag) (Instrument.track (Instrument.emitAt depth) j node) :=
  hears_track (relays_emitAt k topic tag depth j) node

theorem relays_advanceTo (context : ContextId) (time : Float) :
    Along (Relays s.credit k topic tag) (Act.advanceTo context time) s fun _ _ => True :=
  along_advanceTo (relays_remove s.credit) context time

end Relays

-- Whoever joins the observers has a tag of their own, and plays nothing in answer to the topic.
def Command.Minds (k : InstrumentId) (topic : Topic) (tag : String) : Command → Prop
  | .observe j other observer =>
    observer.Other tag ∧ (j = k ∧ other = topic → topic = .ended ∨ observer.Calm)
  | _ => True

namespace Studio

variable {s : Studio} {k : InstrumentId} {topic : Topic} {tag : String}

theorem sole_iff : s.Sole k topic tag ↔ ∀ j < s.instruments.size,
    ∀ other ∈ [Topic.started, .voices, .ended], ∀ observer ∈ (s.instrument j).observers other,
      observer.Spares tag ∧ (j = k ∧ other = topic ∨ observer.tag ≠ tag) := by
  constructor
  · exact fun h j _ other _ => h j other
  · intro h j other observer hobserver
    exact h j (lt_of_observer hobserver) other (by cases other <;> simp) observer hobserver

instance : Decidable (s.Sole k topic tag) := decidable_of_iff _ sole_iff.symm

instance : Decidable (s.Attended k topic tag) :=
  decidable_of_iff (s.Sole k topic tag ∧ ((s.instrument k).tags topic).count tag = 1 ∧
      (topic = .ended ∨ ∀ observer ∈ (s.instrument k).observers topic, observer.Calm))
    ⟨fun h => ⟨h.1, h.2.1, h.2.2⟩, fun h => ⟨h.sole, h.once, h.calm⟩⟩

end Studio

section Session

variable {k : InstrumentId} {topic : Topic} {tag : String} {s : Studio}

-- The instruments of before stay as they are.
theorem relay_added (hs : s.Attended k topic tag) {inst : Instrument} (hinst : inst.Blank) :
    Relay k topic tag s { s with instruments := s.instruments.push inst } := by
  have hk : k ≠ s.instruments.size := Nat.ne_of_lt hs.lt_size
  have hown := (s.instrument_push inst k).trans (if_neg hk)
  refine .of_unheard (by simp) (hs.of_others (by rw [hown]) ?_) (by rw [hown]) rfl
  intro j other _ observer hobserver
  rw [s.instrument_push] at hobserver
  split at hobserver
  case isTrue => simp [hinst.observers] at hobserver
  case isFalse => exact .inl hobserver

theorem Command.relay {command : Command} (hopens : s.Opens) (hs : s.Attended k topic tag)
    (hminds : command.Minds k topic tag) :
    ∀ act, command.act? s = some act → Relay k topic tag s (act.after s) := by
  intro act hact
  have hafter (h : Along (Relays s.credit k topic tag) act s fun _ _ => True) :
      Relay k topic tag s (act.after s) :=
    after_of_ends (Ends.mono h (fun _ t ht => (ht.1 (Nat.le_refl _) hopens hs).2.2)
      fun _ t ht => (ht (Nat.le_refl _) hopens hs).2.2)
  cases command.staged act hact with
  | backstage h => exact hafter (stages_of_keeps h s)
  | add hmake =>
      have hback (t : Studio) (ht : Backstage s t) : Relay k topic tag s t :=
        (Stages.backstage (R := Relays s.credit k topic tag) s t ht (Nat.le_refl _) hopens hs).2.2
      refine after_of_ends ?_
      rw [ends_bind]
      refine Ends.mono hmake (fun inst t ht => ?_) fun _ t ht => hback t ht
      rw [ends_discard, Instrument.add, ends_modifyGet]
      exact (hback t ht.1).trans (relay_added (hback t ht.1).attended ht.2)
  | play j id time delay duration =>
      exact hafter (along_map (along_emitter (relays_startWith _ j _ _ _ _ s)) fun _ _ _ => trivial)
  | playValue j x time delay duration =>
      exact hafter (along_map (along_emitter (relays_startWith _ j _ _ _ _ s)) fun _ _ _ => trivial)
  | track j id => exact hafter (along_emitter (keeps_map _ (relays_track _ j _) s))
  | stopVoices j ids time delay => exact hafter (Instrument.stages_stop hears_stopped ids time delay s)
  | observe j other observer => exact relay_joined hs hminds.1 hminds.2
  | advanceTo context time => exact hafter (relays_advanceTo context time)
  | advanceBy context seconds => exact hafter (along_now (relays_advanceTo context _))

end Session

namespace Session

variable {k : InstrumentId} {topic : Topic} {tag : String}

theorem relay_run (rate : Float) (commands : List Command) {more : List Command}
    (hs : (run rate commands).studio.Attended k topic tag)
    (hminds : ∀ command ∈ more, command.Minds k topic tag) :
    Relay k topic tag (run rate commands).studio (run rate (commands ++ more)).studio := by
  induction more using List.reverseRecOn with
  | nil =>
      rw [List.append_nil]
      exact .of_unheard (Nat.le_refl _) hs rfl rfl
  | append_singleton more command ih =>
      obtain ⟨hmore, hcommand⟩ := List.forall_mem_append.1 hminds
      have hbefore := ih hmore
      refine hbefore.trans ?_
      rw [← List.append_assoc, run_concat, perform]
      split
      case h_1 act hact =>
          exact Command.relay (opened_run rate _) hbefore.attended (hcommand command (by simp)) act hact
      case h_2 => exact .of_unheard (Nat.le_refl _) hbefore.attended rfl rfl

-- Whoever observes an event when it is announced hears it once, in whatever studio and whatever is
-- done about it. Over a session, those who observe a topic hear each of its events once and in order
-- as long as nobody plays anything in answer to it, or if it is about ends; what is announced while
-- they are set aside is lost on them otherwise.
theorem hears_each_event_once (k : InstrumentId) (topic : Topic) (tag : String) :
    (∀ (s : Studio) (depth : Nat) (event : Event), event.topic = topic → s.Sole k topic tag →
      ∃ t, Instrument.emitAt depth k event s = .ok () t ∧
        t.heardBy tag = s.heardBy tag ++
          List.replicate (((s.instrument k).tags topic).count tag) event ∧
        t.Sole k topic tag ∧ ∃ joined, (t.instrument k).tags topic =
          (s.instrument k).tags topic ++ joined ∧ tag ∉ joined) ∧
    ∀ (rate : Float) (commands more : List Command),
      (run rate commands).studio.Attended k topic tag →
      (∀ command ∈ more, command.Minds k topic tag) →
      ∃ later, ((run rate (commands ++ more)).studio.instrument k).announced =
          ((run rate commands).studio.instrument k).announced ++ later ∧
        (run rate (commands ++ more)).studio.heardBy tag =
          (run rate commands).studio.heardBy tag ++ later.filter (·.topic = topic) := by
  refine ⟨?_, fun rate commands more hs hminds => (relay_run rate commands hs hminds).relayed⟩
  rintro s depth event rfl hs
  have hdelivers : Ends (Instrument.emitAt depth k event) s (fun _ t => t.heardBy tag = s.heardBy tag ++
        List.replicate (((s.instrument k).tags event.topic).count tag) event ∧
      t.Sole k event.topic tag ∧ ∃ joined, (t.instrument k).tags event.topic =
        (s.instrument k).tags event.topic ++ joined ∧ tag ∉ joined) fun _ _ => False := by
    cases depth with
    | zero => exact (ends_deliver ignores_announce hs).mono (fun _ _ h => h.2) fun _ _ h => h
    | succ depth =>
        exact (ends_deliver (ignores_emitAt depth) hs).mono (fun _ _ h => h.2) fun _ _ h => h
  obtain ⟨_, t, ht, hheard⟩ := exists_of_ends hdelivers
  exact ⟨t, ht, hheard⟩

-- When a voice has ended, one of the observers plays another.
def encored : List Command := [
  .instrument 0 false (some .sine) none 0,
  .observe 0 .ended ⟨"encore", some (.play (some 330) none), 1⟩,
  .observe 0 .ended (.plain "off")]

def oneTone : List Command := [.playValue 0 440 none none (some 1), .advanceTo 0 1]

theorem encore_is_heard : (run 44100 encored).studio.Attended 0 .ended "off" ∧
    (∃ t, Instrument.emitAt 1 0 (.ended 0) (run 44100 encored).studio = .ok () t ∧
      t.heardBy "off" = (run 44100 encored).studio.heardBy "off" ++ [.ended 0]) ∧
    ∃ later, ((run 44100 (encored ++ oneTone)).studio.instrument 0).announced =
        ((run 44100 encored).studio.instrument 0).announced ++ later ∧
      (run 44100 (encored ++ oneTone)).studio.heardBy "off" =
        (run 44100 encored).studio.heardBy "off" ++ later.filter (·.topic = .ended) := by
  have hattended : (run 44100 encored).studio.Attended 0 .ended "off" := by
    decide +kernel
  have hminds : ∀ command ∈ oneTone, command.Minds 0 .ended "off" := by
    simp [oneTone, Command.Minds]
  have hheard := hears_each_event_once 0 .ended "off"
  obtain ⟨t, ht, htold, -⟩ := hheard.1 (run 44100 encored).studio 1 (.ended 0) rfl hattended.sole
  rw [hattended.once] at htold
  exact ⟨hattended, ⟨t, ht, htold⟩, hheard.2 44100 encored oneTone hattended hminds⟩

-- As soon as a voice is counted, one of the observers plays another.
def swelling : List Command := [
  .instrument 0 false (some .sine) none 0,
  .observe 0 .voices ⟨"more", some (.play (some 330) none), 1⟩,
  .observe 0 .voices (.plain "n")]

theorem nested_events_lost : ¬∀ (rate : Float) (commands : List Command) (command : Command)
    (k : InstrumentId) (topic : Topic) (tag : String),
    (run rate commands).studio.Sole k topic tag →
    (((run rate commands).studio.instrument k).tags topic).count tag = 1 →
    command.Minds k topic tag →
    ∃ later, ((run rate (commands ++ [command])).studio.instrument k).announced =
        ((run rate commands).studio.instrument k).announced ++ later ∧
      (run rate (commands ++ [command])).studio.heardBy tag =
        (run rate commands).studio.heardBy tag ++ later.filter (·.topic = topic) := by
  intro h
  have hbefore : (run 44100 swelling).studio.Sole 0 .voices "n" ∧
      (((run 44100 swelling).studio.instrument 0).tags .voices).count "n" = 1 ∧
      ((run 44100 swelling).studio.instrument 0).announced = [] ∧
      (run 44100 swelling).studio.heardBy "n" = [] := by
    decide +kernel
  have hafter : .voices 2 ∈
        ((run 44100 (swelling ++ [.playValue 0 440 none none none])).studio.instrument 0).announced ∧
      .voices 2 ∉ (run 44100 (swelling ++ [.playValue 0 440 none none none])).studio.heardBy "n" := by
    decide +kernel
  obtain ⟨hsole, honce, hannounced, hnone⟩ := hbefore
  obtain ⟨later, hlater, hheard⟩ :=
    h 44100 swelling (.playValue 0 440 none none none) 0 .voices "n" hsole honce trivial
  rw [hlater, hannounced, hheard, hnone] at hafter
  exact hafter.2 (List.mem_append_right _ (List.mem_filter.2 ⟨by simpa using hafter.1, rfl⟩))

end Session

end Patchbay
