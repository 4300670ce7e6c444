import Patchbay.Proofs.Voices.Entry

namespace Patchbay

open Act

namespace Instrument

-- The voices that have not been stopped, in the order of the registry.
def soundingIds (inst : Instrument) : List VoiceId :=
  (inst.voices.filter (!·.stopped)).map Voice.id

-- How many of them would be too many along with one more.
def overflow (inst : Instrument) : Nat := inst.soundingIds.length + 1 - inst.maxVoices

-- Whether a registered voice has been stopped.
def stopped? (inst : Instrument) (id : VoiceId) : Option Bool := (inst.voice? id).map Voice.stopped

section Marks

variable (inst : Instrument) (voices : List Voice)

-- A voice once the given ones are marked as stopped.
def mark (ids : List VoiceId) (voice : Voice) : Voice :=
  { voice with stopped := voice.stopped || decide (voice.id ∈ ids) }

theorem voices_markAll : (inst.markAll voices).voices =
    inst.voices.map (mark (voices.map Voice.id)) := by
  induction voices generalizing inst with
  | nil =>
      have hnone : mark [] = id := funext fun voice => by simp [mark]
      simp [markAll, hnone]
  | cons first rest ih =>
      change ((inst.markStopped first.id).markAll rest).voices = _
      rw [ih, markStopped, List.map_map]
      refine List.map_congr_left fun voice _ => ?_
      by_cases hfirst : voice.id = first.id
      · simp [mark, hfirst]
      · simp [mark, hfirst]

theorem played_markAll : (inst.markAll voices).played = inst.played := by
  induction voices generalizing inst with
  | nil => rfl
  | cons first rest ih => exact ih (inst.markStopped first.id)

theorem announced_markAll : (inst.markAll voices).announced = inst.announced := by
  induction voices generalizing inst with
  | nil => rfl
  | cons first rest ih => exact ih (inst.markStopped first.id)

theorem quiet_markAll : (inst.markAll voices).Quiet ↔ inst.Quiet := by
  induction voices generalizing inst with
  | nil => rfl
  | cons first rest ih => exact ih (inst.markStopped first.id)

theorem soundingIds_markAll : (inst.markAll voices).soundingIds =
    inst.soundingIds.filter (· ∉ voices.map Voice.id) := by
  have hlive (voice : Voice) : (!(mark (voices.map Voice.id) voice).stopped) =
      (decide (voice.id ∉ voices.map Voice.id) && !voice.stopped) := by
    rw [mark, Bool.not_or, decide_not, Bool.and_comm]
  rw [soundingIds, soundingIds, voices_markAll, List.filter_map, List.map_map, List.filter_map,
    List.filter_filter]
  simp only [Function.comp_def, hlive]
  rfl

theorem stopped?_markAll (id : VoiceId) : (inst.markAll voices).stopped? id =
    (inst.stopped? id).map (· || decide (id ∈ voices.map Voice.id)) := by
  have hid : ((·.id == id) ∘ mark (voices.map Voice.id)) = (·.id == id) := rfl
  rw [stopped?, stopped?, voice?, voice?, voices_markAll, List.find?_map, hid]
  cases hfound : inst.voices.find? (·.id == id) with
  | none => rfl
  | some voice =>
      obtain rfl : voice.id = id := id_of_voice? hfound
      rfl

end Marks

theorem excess_ids {inst : Instrument} (hlimit : 0 < inst.maxVoices) :
    inst.excess.map Voice.id = inst.soundingIds.take inst.overflow := by
  rw [excess, if_neg (Nat.ne_of_gt hlimit), overflow, soundingIds, List.map_take, List.length_map]

-- What is left of a list without repetitions when its front is taken out.
theorem filter_not_mem_take {ids : List VoiceId} (h : ids.Nodup) (n : Nat) :
    ids.filter (· ∉ ids.take n) = ids.drop n := by
  have hfront : (ids.take n).filter (· ∉ ids.take n) = [] :=
    List.filter_eq_nil_iff.2 fun id hid => by simpa using hid
  have hback : (ids.drop n).filter (· ∉ ids.take n) = ids.drop n := by
    refine List.filter_eq_self.2 fun id hid => ?_
    simpa using fun hmem => List.disjoint_take_drop h (Nat.le_refl n) hmem hid
  calc ids.filter (· ∉ ids.take n)
      = (ids.take n ++ ids.drop n).filter (· ∉ ids.take n) := by rw [List.take_append_drop]
    _ = ids.drop n := by rw [List.filter_append, hfront, hback, List.nil_append]

section Append

variable {inst after : Instrument} {new : List Voice}

theorem soundingIds_append (hlive : ∀ voice ∈ new, voice.stopped = false)
    (h : after.voices = inst.voices ++ new) :
    after.soundingIds = inst.soundingIds ++ new.map Voice.id := by
  have hnew : new.filter (!·.stopped) = new :=
    List.filter_eq_self.2 fun voice hvoice => by rw [hlive voice hvoice]; rfl
  rw [soundingIds, h, List.filter_append, hnew, List.map_append, soundingIds]

theorem stopped?_append {id : VoiceId} (hid : ∀ voice ∈ new, voice.id ≠ id)
    (h : after.voices = inst.voices ++ new) : after.stopped? id = inst.stopped? id := by
  have hnew : new.find? (·.id == id) = none :=
    List.find?_eq_none.2 fun voice hvoice => by simpa using hid voice hvoice
  rw [stopped?, stopped?, voice?, voice?, h, List.find?_append, hnew, Option.or_none]

end Append

theorem Exact.lt_nextId {inst : Instrument} {s : Studio} (h : inst.Exact s) {id : VoiceId}
    (hid : id ∈ inst.voiceIds) : id < inst.nextId := by
  obtain ⟨node, hplayed, -⟩ := (h.registered id).1 hid
  exact (List.getElem?_eq_some_iff.1 hplayed).1

section Cleared

variable {s t : Studio} {k : InstrumentId} {stolen : List Voice}

-- The node is ready and the voices are stolen. Its own voice has yet to enter.
structure Cleared (k : InstrumentId) (stolen : List Voice) (node : Node) (s t : Studio) : Prop where
  sound : t.ledger.Sound 0
  known : t.ledger.Knows node
  size : k < t.instruments.size
  instrument : t.instrument k = (s.instrument k).markAll stolen
  ended : (t.ledger.fate node.id).ended = (node.state s).ended

theorem cleared_of_steals {play : Play} {time : Float} {node : Node} {u : Studio}
    (hs : s.ledger.Sound 0) (hplay : play.Known s.ledger) (hk : k < s.instruments.size)
    (hready : (s.instrument k).ready play s = .ok node u) (hsteals : Steals k time stolen u t) :
    Cleared k stolen node s t := by
  obtain ⟨hsu, hu, hnode⟩ := ends_of_ok hready (settled_ready hs hplay)
  have hut : Pays 0 [] u t := hsteals.along
  have huk : k < u.instruments.size := by rwa [hsu.instruments]
  refine ⟨hut.sound hu, hnode.grow hut.grows, ?size, ?instrument, ?ended⟩
  case size => rwa [hsteals.instruments, Array.size_modify]
  case ended => rw [hsteals.ended, hsu.ended, node.state_ended]
  case instrument =>
      rw [Studio.instrument_of_modify hsteals.instruments huk,
        Studio.instrument_congr hsu.instruments]

variable {node : Node} (h : Cleared k stolen node s t)

include h

theorem Cleared.voices : (t.instrument k).voices =
    (s.instrument k).voices.map (mark (stolen.map Voice.id)) := by
  rw [h.instrument, voices_markAll]

theorem Cleared.played : (t.instrument k).played = (s.instrument k).played := by
  rw [h.instrument, played_markAll]

theorem Cleared.nextId : (t.instrument k).nextId = (s.instrument k).nextId := by
  rw [Instrument.nextId, h.played, Instrument.nextId]

theorem Cleared.quiet (hquiet : (s.instrument k).Quiet) : (t.instrument k).Quiet := by
  rw [h.instrument, quiet_markAll]
  exact hquiet

theorem Cleared.fresh (hexact : (s.instrument k).Exact s) :
    ∀ voice ∈ (t.instrument k).voices, voice.id ≠ (t.instrument k).nextId := by
  intro voice hvoice
  rw [h.voices] at hvoice
  obtain ⟨old, hold, rfl⟩ := List.mem_map.1 hvoice
  have hid : old.id ∈ (s.instrument k).voiceIds := List.mem_map_of_mem hold
  rw [h.nextId]
  exact Nat.ne_of_lt (hexact.lt_nextId hid)

end Cleared

-- A voice starts under a limit. Of the voices that sound, the oldest are stolen, as many as would be
-- too many along with it: each is stopped once, at the time at which it starts.
structure MakesRoom (k : InstrumentId) (play : Play) (time delay duration : Option Float) (s : Studio)
    (node : Node) (t : Studio) : Prop where
  ascending : (s.instrument k).soundingIds.Pairwise (· < ·)
  oldest : (s.instrument k).excess.map Voice.id =
    (s.instrument k).soundingIds.take (s.instrument k).overflow
  steals : ∃ u v, (s.instrument k).ready play s = .ok node u ∧
    Steals k (Time.resolve time delay (u.now node.context)) (s.instrument k).excess u v ∧
    enter (emitAt s.credit) k node (Time.resolve time delay (u.now node.context)) duration v =
      .ok node t
  sounding : (t.instrument k).soundingIds =
    (s.instrument k).soundingIds.drop (s.instrument k).overflow ++
      if (node.state s).ended then [] else [(s.instrument k).nextId]
  capped : (t.instrument k).soundingIds.length ≤ (s.instrument k).maxVoices
  stopped : ∀ id ∈ (s.instrument k).soundingIds.take (s.instrument k).overflow,
    (t.instrument k).stopped? id = some true
  kept : ∀ id, id ∉ (s.instrument k).soundingIds.take (s.instrument k).overflow →
    id ≠ (s.instrument k).nextId → (t.instrument k).stopped? id = (s.instrument k).stopped? id

theorem soundingIds_sublist (inst : Instrument) : inst.soundingIds.Sublist inst.voiceIds :=
  List.filter_sublist.map _

theorem isSome_stopped? {inst : Instrument} {id : VoiceId} (hid : id ∈ inst.voiceIds) :
    (inst.stopped? id).isSome := by
  rw [stopped?, Option.isSome_map]
  exact voice?_isSome.2 hid

theorem makesRoom_of_start {s t : Studio} {k : InstrumentId} {play : Play}
    {time delay duration : Option Float} {node : Node}
    (hs : s.ledger.Sound 0) (hexact : (s.instrument k).Exact s) (hk : k < s.instruments.size)
    (hlimit : 0 < (s.instrument k).maxVoices) (hquiet : (s.instrument k).Quiet)
    (hplay : play.Known s.ledger)
    (hstart : Instrument.start k play time delay duration s = .ok node t) :
    MakesRoom k play time delay duration s node t := by
  obtain ⟨r, u, v, hready, hsteals, henter⟩ := steps_of_ok hs hplay hstart
  have hv : Cleared k (s.instrument k).excess r s v := cleared_of_steals hs hplay hk hready hsteals
  obtain ⟨rfl, hvoices⟩ :=
    entered hv.sound hv.known hv.size (hv.fresh hexact) (hv.quiet hquiet) henter
  rw [hv.ended, hv.nextId] at hvoices
  generalize hnew : (if (node.state s).ended then [] else
    [(⟨(s.instrument k).nextId, node, false⟩ : Voice)]) = new at hvoices
  have hnewIds : new.map Voice.id =
      if (node.state s).ended then [] else [(s.instrument k).nextId] := by
    rw [← hnew, apply_ite (List.map Voice.id)]
    rfl
  have hnewVoice : ∀ voice ∈ new, voice.id = (s.instrument k).nextId ∧ voice.stopped = false := by
    intro voice hvoice
    rw [← hnew] at hvoice
    split at hvoice
    · cases hvoice
    · cases List.mem_singleton.1 hvoice
      exact ⟨rfl, rfl⟩
  have hascending := hexact.ascending.sublist (soundingIds_sublist _)
  have holdest := excess_ids hlimit
  have hleft : (v.instrument k).soundingIds =
      (s.instrument k).soundingIds.drop (s.instrument k).overflow := by
    rw [hv.instrument, soundingIds_markAll, holdest]
    exact filter_not_mem_take (hascending.imp Nat.ne_of_lt) _
  have hsounding : (t.instrument k).soundingIds =
      (s.instrument k).soundingIds.drop (s.instrument k).overflow ++
        if (node.state s).ended then [] else [(s.instrument k).nextId] := by
    rw [soundingIds_append (fun voice hvoice => (hnewVoice voice hvoice).2) hvoices, hleft, hnewIds]
  have hstopped (id : VoiceId) (hid : id ≠ (s.instrument k).nextId) :
      (t.instrument k).stopped? id = ((s.instrument k).stopped? id).map
        (· || decide (id ∈ (s.instrument k).soundingIds.take (s.instrument k).overflow)) := by
    have hother : ∀ voice ∈ new, voice.id ≠ id :=
      fun voice hvoice heq => hid (heq.symm.trans (hnewVoice voice hvoice).1)
    rw [stopped?_append hother hvoices, hv.instrument, stopped?_markAll, holdest]
  refine ⟨hascending, holdest, ⟨u, v, hready, hsteals, henter⟩, hsounding, ?capped, ?stopped, ?kept⟩
  case capped =>
      have hone : (if (node.state s).ended then [] else [(s.instrument k).nextId]).length ≤ 1 := by
        split <;> simp
      rw [hsounding, List.length_append, List.length_drop, overflow]
      omega
  case stopped =>
      intro id hid
      have hregistered := (soundingIds_sublist _).subset (List.mem_of_mem_take hid)
      rw [hstopped id (Nat.ne_of_lt (hexact.lt_nextId hregistered)), decide_eq_true hid]
      obtain ⟨was, hwas⟩ := Option.isSome_iff_exists.1 (isSome_stopped? hregistered)
      rw [hwas, Option.map_some, Bool.or_true]
  case kept =>
      intro id hid hnew
      rw [hstopped id hnew, decide_eq_false hid]
      simp

end Instrument

namespace Session

open Instrument

-- Every start under a limit makes room for its voice.
theorem makes_room (rate : Float) (commands : List Command) (k : InstrumentId) (play : Play)
    (time delay duration : Option Float) (node : Node) (t : Studio)
    (hk : (run rate commands).studio.hasInstrument k = true)
    (hlimit : 0 < ((run rate commands).studio.instrument k).maxVoices)
    (hquiet : ((run rate commands).studio.instrument k).Quiet)
    (hplay : play.Known (run rate commands).studio.ledger)
    (hstart : Instrument.start k play time delay duration (run rate commands).studio = .ok node t) :
    MakesRoom k play time delay duration (run rate commands).studio node t :=
  makesRoom_of_start (lawful_run rate commands).sound (exact_of_lawful (lawful_run rate commands) k)
    (of_decide_eq_true hk) hlimit hquiet hplay hstart

-- Three voices sound where two may, as the last was only tracked.
def crowded : List Command := [
  .instrument 0 false (some .sine) none 2,
  .make 0 (.oscillator .sine (.fixed 110) none),
  .playValue 0 440 none none none,
  .playValue 0 330 none none none,
  .track 0 0]

theorem oldest_stolen : ∃ node t,
    Instrument.start 0 (.value 220) (some 1) none none (run 44100 crowded).studio = .ok node t ∧
      (t.instrument 0).soundingIds.length ≤ 2 ∧ (t.instrument 0).stopped? 0 = some true ∧
      (t.instrument 0).stopped? 1 = some true ∧ (t.instrument 0).stopped? 2 = some false := by
  have hfacts : (run 44100 crowded).studio.hasInstrument 0 = true ∧
      ((run 44100 crowded).studio.instrument 0).maxVoices = 2 ∧
      ((run 44100 crowded).studio.instrument 0).Quiet ∧
      ((run 44100 crowded).studio.instrument 0).soundingIds = [0, 1, 2] ∧
      ((run 44100 crowded).studio.instrument 0).nextId = 3 ∧
      ((run 44100 crowded).studio.instrument 0).stopped? 2 = some false ∧
      (Instrument.start 0 (.value 220) (some 1) none none).succeeds (run 44100 crowded).studio =
        true := by
    decide +kernel
  obtain ⟨hk, hlimit, hquiet, hsounding, hnext, hlast, hstart⟩ := hfacts
  obtain ⟨node, t, hstart⟩ := Act.ok_of_succeeds hstart
  have h := makes_room 44100 crowded 0 (.value 220) (some 1) none none node t hk
    (by rw [hlimit]; decide) hquiet trivial hstart
  have hfront : ((run 44100 crowded).studio.instrument 0).soundingIds.take
      ((run 44100 crowded).studio.instrument 0).overflow = [0, 1] := by
    rw [overflow, hsounding, hlimit]
    rfl
  refine ⟨node, t, hstart, hlimit ▸ h.capped, ?_, ?_, ?_⟩
  · exact h.stopped 0 (by rw [hfront]; decide)
  · exact h.stopped 1 (by rw [hfront]; decide)
  · rw [h.kept 2 (by rw [hfront]; decide) (by rw [hnext]; decide), hlast]

end Session

end Patchbay
