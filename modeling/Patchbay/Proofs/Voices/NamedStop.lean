import Patchbay.Proofs.Studio.Surroundings
import Patchbay.Proofs.Voices.Stealing
import Patchbay.Proofs.Lifetime.Times

namespace Patchbay

open Act

-- Stops the node at the time that comes of `time` and `delay` by its clock in the studio.
def Node.stopWhen (time delay : Option Float) (s : Studio) (node : Node) : Act Unit :=
  node.stop (Time.resolve time delay (s.now node.context))

theorem Node.stopWhen_congr {time delay : Option Float} {s t : Studio}
    (h : ∀ c, t.now c = s.now c) : stopWhen time delay t = stopWhen time delay s := by
  funext node
  rw [stopWhen, stopWhen, h]

namespace Instrument

-- The nodes of the voices with the given ids, or of all, id by id; ids that are not registered are
-- passed over.
def targets (inst : Instrument) (ids : Option (List VoiceId)) : List Node :=
  (ids.getD inst.voiceIds).filterMap fun id => (inst.voice? id).map Voice.node

section Registry

variable {inst : Instrument} {id : VoiceId}

-- Under its id there is no other.
theorem voice?_of_mem (hids : inst.voiceIds.Pairwise (· < ·)) {voice : Voice}
    (h : voice ∈ inst.voices) : inst.voice? voice.id = some voice := by
  obtain ⟨found, hfound⟩ := Option.isSome_iff_exists.1 (voice?_isSome.2 (List.mem_map_of_mem h))
  have hnodup : inst.voiceIds.Nodup := hids.imp Nat.ne_of_lt
  have hmem := List.mem_of_find?_eq_some hfound
  rw [hfound, List.inj_on_of_nodup_map hnodup hmem h (id_of_voice? hfound)]

theorem targets_eq (hids : inst.voiceIds.Pairwise (· < ·)) (ids : Option (List VoiceId)) :
    inst.targets ids = (inst.named ids).map Voice.node := by
  cases ids with
  | some ids => exact (List.map_filterMap ..).symm
  | none =>
      change (inst.voices.map Voice.id).filterMap _ = inst.voices.map Voice.node
      rw [List.filterMap_map, ← List.filterMap_eq_map]
      refine List.filterMap_congr fun voice hvoice => ?_
      simp [voice?_of_mem hids hvoice]

theorem mem_named {ids : Option (List VoiceId)} : id ∈ (inst.named ids).map Voice.id ↔
    id ∈ inst.voiceIds ∧ ∀ list ∈ ids, id ∈ list := by
  cases ids with
  | none => simp [named, voiceIds]
  | some ids =>
      constructor
      · intro h
        obtain ⟨voice, hvoice, rfl⟩ := List.mem_map.1 h
        obtain ⟨id, hid, hfound⟩ := List.mem_filterMap.1 hvoice
        obtain rfl := id_of_voice? hfound
        exact ⟨voice?_isSome.1 (by simp [hfound]), by simpa using hid⟩
      · rintro ⟨hid, hlisted⟩
        obtain ⟨voice, hvoice⟩ := Option.isSome_iff_exists.1 (voice?_isSome.2 hid)
        have hmem := List.mem_filterMap.2 ⟨id, hlisted ids rfl, hvoice⟩
        exact List.mem_map.2 ⟨voice, hmem, id_of_voice? hvoice⟩

end Registry

section Stop

variable {k : InstrumentId} {time delay : Option Float} {s t : Studio}

-- When a node is stopped and its voice marked, the mark is all that is new around the nodes, and
-- clocks stand still.
theorem marked_of_stop {voice : Voice} {x : Float} {u v : Studio} (hstop : voice.node.stop x s = .ok ⟨⟩ u)
    (hmark : changeInstrument k (·.markStopped voice.id) u = .ok ⟨⟩ v) :
    v.against s.backdrop = u ∧ (∀ c, v.now c = s.now c) ∧ v.backdrop =
      { s.backdrop with instruments := s.instruments.modify k (·.markStopped voice.id) } := by
  have hv : v = { u with instruments := u.instruments.modify k (·.markStopped voice.id) } :=
    (EStateM.Result.ok.inj hmark).2.symm
  have hbackdrop : u.backdrop = s.backdrop := (Node.overlooks_stop _ _).backdrop hstop
  have hinstruments : u.instruments = s.instruments := congrArg Backdrop.instruments hbackdrop
  have hclocks := (ends_of_ok hstop (Node.keeps_stop (R := Enduring) _ _ s)).1.clocks
  rw [hv, ← hbackdrop, ← hinstruments]
  exact ⟨rfl, hclocks, rfl⟩

-- No stop sees the marks, so that all voices can be marked afterwards just as well, and every time is
-- known beforehand.
theorem stops_of_stopEach {voices : List Voice}
    (h : stopEach k (fun node => return Time.resolve time delay (← Act.now node.context)) voices s =
      .ok ⟨⟩ t) :
    (voices.map Voice.node).forM (Node.stopWhen time delay s) s = .ok ⟨⟩ (t.against s.backdrop) ∧
      t.backdrop =
        { s.backdrop with instruments := s.instruments.modify k (·.markAll voices) } := by
  induction voices generalizing s with
  | nil =>
      cases h
      refine ⟨rfl, ?_⟩
      rw [modify_markAll_nil]
      rfl
  | cons voice rest ih =>
      rw [stopEach] at h
      obtain ⟨moment, s', htime, h⟩ := ok_of_seq h
      cases htime
      obtain ⟨⟨⟩, u, hstop, h⟩ := ok_of_seq h
      obtain ⟨⟨⟩, v, hmark, h⟩ := ok_of_seq h
      obtain ⟨hunmarked, hclocks, hfirst⟩ := marked_of_stop hstop hmark
      obtain ⟨hrest, hmarked⟩ := ih h
      refine ⟨?stops, ?marks⟩
      case stops =>
          rw [Node.stopWhen_congr hclocks] at hrest
          have hthere : (rest.map Voice.node).forM (Node.stopWhen time delay s) (v.against s.backdrop) =
              .ok ⟨⟩ (t.against s.backdrop) :=
            (overlooks_forM fun node _ => node.overlooks_stop _).run hrest s.backdrop
          rw [hunmarked] at hthere
          exact (run_bind hstop).trans hthere
      case marks =>
          have hinstruments : v.instruments = s.instruments.modify k (·.markStopped voice.id) :=
            congrArg Backdrop.instruments hfirst
          rw [hmarked, hfirst, hinstruments, modify_markAll_cons]

end Stop

-- The voices that are named are stopped, and nothing else happens to instruments or to those who
-- watch them.
structure Dismisses (k : InstrumentId) (ids : Option (List VoiceId)) (time delay : Option Float)
    (s t : Studio) : Prop where
  registered : (t.instrument k).voiceIds = (s.instrument k).voiceIds
  nodes : (t.instrument k).voices.map Voice.node = (s.instrument k).voices.map Voice.node
  stopped : ∀ id, (t.instrument k).stopped? id = some true ↔
    (s.instrument k).stopped? id = some true ∨
      id ∈ (s.instrument k).voiceIds ∧ ∀ list ∈ ids, id ∈ list
  others : ∀ j ≠ k, t.instrument j = s.instrument j
  unannounced : ∀ j, (t.instrument j).announced = (s.instrument j).announced
  unheard : t.heard = s.heard
  stops : ((s.instrument k).targets ids).forM (Node.stopWhen time delay s) s =
    .ok ⟨⟩ { t with instruments := s.instruments }
  together : ∀ c, (∀ node ∈ (s.instrument k).targets ids, node.context = c) →
    ((s.instrument k).targets ids).forM (·.stop (Time.resolve time delay (s.now c))) s =
      .ok ⟨⟩ { t with instruments := s.instruments }

section Dismisses

variable {k : InstrumentId} {ids : Option (List VoiceId)} {time delay : Option Float} {s t : Studio}

theorem named_new (context : ContextId) (ids : Option (List VoiceId)) :
    (Instrument.new context).named ids = [] := by
  cases ids with
  | none => rfl
  | some ids => exact List.filterMap_eq_nil_iff.2 fun _ _ => rfl

-- An instrument that is not there has nobody to mark.
theorem instrument_marked
    (h : t.instruments = s.instruments.modify k (·.markAll ((s.instrument k).named ids)))
    (j : InstrumentId) : t.instrument j =
      if j = k then (s.instrument k).markAll ((s.instrument k).named ids) else s.instrument j := by
  have hmarked : t.instrument j = if k = j ∧ j < s.instruments.size then
      (s.instrument j).markAll ((s.instrument k).named ids) else s.instrument j := by
    rw [Studio.instrument, h]
    exact s.instrument_modify k j _
  rw [hmarked]
  by_cases hj : j = k
  · subst hj
    by_cases hsize : j < s.instruments.size
    · rw [if_pos ⟨rfl, hsize⟩, if_pos rfl]
    · have hnew : s.instrument j = .new 0 := by simp [Studio.instrument, hsize]
      rw [if_neg fun h => hsize h.2, if_pos rfl, hnew, named_new]
      rfl
  · rw [if_neg fun h => hj h.1.symm, if_neg hj]

-- With the registry in order, as it is in every run, a stop that succeeds stops the nodes of the
-- voices that are named, in the order in which they are, and marks those voices. No voice leaves the
-- registry, and nothing is announced to anyone.
theorem stops_only_named (hids : (s.instrument k).voiceIds.Pairwise (· < ·))
    (hstop : Instrument.stop k ids time delay s = .ok ⟨⟩ t) : Dismisses k ids time delay s t := by
  change stopEach k _ ((s.instrument k).named ids) s = .ok ⟨⟩ t at hstop
  obtain ⟨hstops, hbackdrop⟩ := stops_of_stopEach hstop
  rw [← targets_eq hids] at hstops
  have hinstrument := instrument_marked (congrArg Backdrop.instruments hbackdrop)
  have hself := (hinstrument k).trans (if_pos rfl)
  have hscene : s.backdrop = { t.backdrop with instruments := s.instruments } := by
    rw [hbackdrop]
    rfl
  have hafter : t.against s.backdrop = { t with instruments := s.instruments } := by
    rw [hscene]
    rfl
  rw [hafter] at hstops
  refine ⟨?registered, ?nodes, fun id => ?stopped, fun j hj => (hinstrument j).trans (if_neg hj),
    fun j => ?unannounced, congrArg Backdrop.heard hbackdrop, hstops, fun c hc => ?together⟩
  case registered =>
      rw [hself, voiceIds, voices_markAll, List.map_map]
      rfl
  case nodes =>
      rw [hself, voices_markAll, List.map_map]
      rfl
  case stopped =>
      rw [hself, stopped?_markAll, ← mem_named]
      cases hwas : (s.instrument k).stopped? id with
      | some was => simp
      | none =>
          have hunknown : id ∉ ((s.instrument k).named ids).map Voice.id := fun hmem => by
            simpa [hwas] using isSome_stopped? (mem_named.1 hmem).1
          simpa using hunknown
  case unannounced =>
      rw [hinstrument j]
      split
      case isTrue hj => rw [hj, announced_markAll]
      case isFalse => rfl
  case together =>
      have hone : ((s.instrument k).targets ids).forM
          (·.stop (Time.resolve time delay (s.now c))) =
            ((s.instrument k).targets ids).forM (Node.stopWhen time delay s) :=
        forM_congr fun node hnode => by rw [Node.stopWhen, hc node hnode]
      rw [hone, hstops]

end Dismisses

end Instrument

namespace Session

open Instrument

theorem voices_in_order (rate : Float) (commands : List Command) (k : InstrumentId) :
    ((run rate commands).studio.instrument k).voiceIds.Pairwise (· < ·) :=
  (exact_of_lawful (lawful_run rate commands) k).ascending

-- A tone under two ids, another whose voice has been stopped already, and a last one.
def tracked : List Command := [
  .instrument 0 false none none 0,
  .make 0 (.oscillator .sine (.fixed 110) none),
  .make 0 (.oscillator .sine (.fixed 220) none),
  .make 0 (.oscillator .sine (.fixed 330) none),
  .start 0 0, .start 2 0,
  .track 0 0, .track 0 0, .track 0 1, .track 0 2,
  .stopVoices 0 (some [2]) none none]

-- The last voice is named twice, along with the first and with one that was never there.
theorem tracked_stops_only_named :
    ((run 44100 tracked).studio.instrument 0).voiceIds.Pairwise (· < ·) ∧
    ∃ t, Instrument.stop 0 (some [3, 9, 0, 3]) (some 1) none (run 44100 tracked).studio = .ok ⟨⟩ t ∧
      Dismisses 0 (some [3, 9, 0, 3]) (some 1) none (run 44100 tracked).studio t ∧
      (t.instrument 0).voiceIds = [0, 1, 2, 3] ∧
      (∀ id ∈ [0, 2, 3], (t.instrument 0).stopped? id = some true) ∧
      (t.instrument 0).stopped? 1 ≠ some true := by
  have hids := voices_in_order 44100 tracked 0
  have hfacts : ((run 44100 tracked).studio.instrument 0).voiceIds = [0, 1, 2, 3] ∧
      ((run 44100 tracked).studio.instrument 0).stopped? 1 = some false ∧
      ((run 44100 tracked).studio.instrument 0).stopped? 2 = some true ∧
      (Instrument.stop 0 (some [3, 9, 0, 3]) (some 1) none).succeeds (run 44100 tracked).studio =
        true := by
    decide +kernel
  obtain ⟨hregistered, hone, htwo, hstop⟩ := hfacts
  obtain ⟨⟨⟩, t, hstop⟩ := Act.ok_of_succeeds hstop
  have h := stops_only_named hids hstop
  refine ⟨hids, t, hstop, h, h.registered.trans hregistered, ?_, ?_⟩
  · simp [h.stopped, hregistered, htwo]
  · simp [h.stopped, hregistered, hone]

end Session

end Patchbay
