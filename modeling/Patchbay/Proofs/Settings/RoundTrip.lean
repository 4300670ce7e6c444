import Mathlib.Data.List.Forall2
import Patchbay.Proofs.Patch.NormalForm
import Patchbay.Proofs.Settings.Overlay

namespace Patchbay.Json

variable {α β : Type} {f : Number → Number}

-- Whatever document is kept as the value, its numbers as `f` gives them, is read as `a`.
def Reads (f : Number → Number) (read : Doc → Decode α) (json : Json) (a : α) : Prop :=
  ∀ d : Doc, d.keep = .ok (json.mapNumbers f) → (read d).run [] = .ok a []

theorem reads_real {x : Float} (h : (f (.real x)).toFloat = x) :
    Reads f Source.float (.real x) x := by
  intro d hkeep
  have hread : (Source.float (Kept.mk (.number (f (.real x)))) : Decode Float).run [] = .ok x [] := by
    rw [Kept.float_number, h]
    rfl
  exact (float_of_keep hkeep).mpr hread

theorem reads_bool (b : Bool) : Reads f Source.bool (.bool b) b := by
  intro d hkeep
  obtain ⟨start, stop, rfl⟩ := Doc.bears_of_keep hkeep
  rfl

theorem reads_choice {choices : List (String × α)} {name : String} {a : α}
    (h : chooseName choices name = pure a) : Reads f (Source.choice choices) (.string name) a := by
  intro d hkeep
  obtain ⟨lexeme, rfl, hname⟩ := Doc.bears_of_keep hkeep
  simp only [Source.choice, Doc.choice, hname, liftExcept, pure_bind, h]
  rfl

theorem mapNumbers_ne_null {json : Json} (h : json ≠ .null) : json.mapNumbers f ≠ .null := by
  cases json <;> simp_all [mapNumbers]

theorem reads_some {read : Doc → Decode α} {json : Json} {a : α} (h : Reads f read json a)
    (hjson : json ≠ .null) : Reads f (Source.option read) json (some a) := by
  intro d hkeep
  have hread := Decode.run_map (h d hkeep) some
  cases d with
  | null start stop =>
      rw [Doc.keep, Except.ok.injEq] at hkeep
      exact absurd hkeep.symm (mapNumbers_ne_null hjson)
  | _ => exact hread

theorem reads_option {read : Doc → Decode α} {write : α → Json} {value : Option α}
    (hread : ∀ a ∈ value, Reads f read (write a) a) (hwrite : ∀ a, write a ≠ .null) :
    Reads f (Source.option read) (.ofOption write value) value := by
  cases value with
  | none =>
      intro d hkeep
      obtain ⟨start, stop, rfl⟩ := Doc.bears_of_keep hkeep
      rfl
  | some a => exact reads_some (hread a rfl) (hwrite a)

theorem collect_run {read : Doc → Decode α} {write : α → Json} {values : List α}
    (h : ∀ a ∈ values, Reads f read (write a) a) {items : Items}
    (hkeep : items.keep = .ok (mapItems f (values.map write))) :
    (items.collect read).run [] = .ok values [] := by
  induction values generalizing items with
  | nil =>
      obtain ⟨stop, rfl⟩ := Items.closed_of_keep hkeep
      rfl
  | cons a values ih =>
      obtain ⟨start, value, rest, rfl, hvalue, hrest⟩ := Items.item_of_keep hkeep
      have hfirst : (Decode.placed rest.mark (read value)).run [] = .ok a [] :=
        Decode.run_placed (h a List.mem_cons_self value hvalue) _
      have hmore := ih (fun b hb => h b (List.mem_cons_of_mem _ hb)) hrest
      rw [Items.collect, Decode.run_bind hfirst, Decode.run_bind hmore]
      rfl

theorem reads_list {read : Doc → Decode α} {write : α → Json} {values : List α}
    (h : ∀ a ∈ values, Reads f read (write a) a) :
    Reads f (Source.list read) (.array (values.map write)) values := by
  intro d hkeep
  obtain ⟨start, level, items, rfl, hlevel, hitems⟩ := Doc.bears_of_keep hkeep
  simp only [Source.list, guardDepth_eq hlevel, pure_bind]
  exact collect_run h hitems

-- A member of an object, as it is written and as it is found again.
def Stands (f : Number → Number) (entry : String × Json) (found : String × Doc) : Prop :=
  found.1 = entry.1 ∧ found.2.keep = .ok (entry.2.mapNumbers f)

theorem Fields.pairs_of_keep {fields : Fields} {entries : List (String × Json)}
    (h : fields.keep = .ok (mapFields f entries)) :
    ∃ given, fields.pairs? = some given ∧ List.Forall₂ (Stands f) entries given := by
  induction entries generalizing fields with
  | nil =>
      obtain ⟨stop, rfl⟩ := closed_of_keep h
      exact ⟨[], rfl, .nil⟩
  | cons entry entries ih =>
      obtain ⟨key, json⟩ := entry
      obtain ⟨comma, name, settled, value, rest, rfl, hname, hvalue, hrest⟩ := field_of_keep h
      obtain ⟨given, hpairs, hstands⟩ := ih hrest
      refine ⟨(key, value) :: given, ?_, .cons ⟨rfl, hvalue⟩ hstands⟩
      simp [pairs?, hname, hpairs]

theorem names_of_stands {entries : List (String × Json)} {given : List (String × Doc)}
    (h : List.Forall₂ (Stands f) entries given) :
    given.map Prod.fst = entries.map Prod.fst := by
  induction h with
  | nil => rfl
  | cons hentry _ ih => rw [List.map_cons, List.map_cons, hentry.1, ih]

namespace Slot

variable {slot : Slot Doc α} {base a : α} {entries : List (String × Json)}
  {given : List (String × Doc)}

-- What is written for the member.
def written (slot : Slot Doc α) (entries : List (String × Json)) : List Json :=
  (entries.filter fun (key, _) => key ∈ slot.names).map Prod.snd

-- What is written for the member reads as its value in `a`; a member left out has it from the base.
def Shows (f : Number → Number) (slot : Slot Doc α) (base : α) (entries : List (String × Json))
    (a : α) : Prop :=
  match slot.written entries with
  | [] => slot.get a = slot.get base
  | [json] => Reads f slot.read json (slot.get a)
  | _ => False

theorem found_of_stands (slot : Slot Doc α) (h : List.Forall₂ (Stands f) entries given) :
    List.Forall₂ (fun json (d : Doc) => d.keep = .ok (json.mapNumbers f)) (slot.written entries)
      (slot.found given) := by
  refine List.rel_map (R := Stands f) (fun _ _ hstands => hstands.2) (List.rel_filter ?_ h)
  rintro ⟨key, json⟩ ⟨key', d⟩ ⟨rfl, hkeep⟩
  rfl

theorem Shows.takes (hshows : slot.Shows f base entries a)
    (h : List.Forall₂ (Stands f) entries given) :
    slot.readable given ∧ slot.Takes base given a := by
  have hfound := found_of_stands slot h
  unfold Shows at hshows
  split at hshows
  · next hnone =>
      rw [hnone] at hfound
      have hfound := List.forall₂_nil_left_iff.mp hfound
      exact ⟨by rw [readable, hfound], (takes_of_not_given hfound).mpr hshows⟩
  · next json hone =>
      rw [hone] at hfound
      obtain ⟨d, rest, hkeep, hrest, hfound⟩ := List.forall₂_cons_left_iff.mp hfound
      obtain rfl := List.forall₂_nil_left_iff.mp hrest
      have hread := hshows d hkeep
      exact ⟨by rw [readable, hfound]; exact Decode.gives_iff.mpr ⟨_, hread⟩,
        (takes_of_given hfound).mpr hread⟩
  · contradiction

end Slot

end Patchbay.Json

namespace Patchbay

open Json

variable {f : Number → Number}

-- An object that shows every member, and nothing else, reads as the record.
theorem Settings.reads {kind : Settings} (hkind : kind ∈ kinds) {entries : List (String × Json)}
    {c : kind.α} (hshows : ∀ slot ∈ kind.layout.slots, slot.Shows f kind.base entries c)
    (hknown : ∀ name ∈ entries.map Prod.fst, kind.layout.knows name) :
    Reads f kind.read (.object entries) c := by
  intro d hkeep
  obtain ⟨start, level, fields, rfl, hlevel, hfields⟩ := Doc.bears_of_keep hkeep
  obtain ⟨given, hpairs, hstands⟩ := Fields.pairs_of_keep hfields
  have hknows : ∀ entry ∈ given, kind.layout.knows entry.1 := fun entry hentry =>
    hknown entry.1 (names_of_stands hstands ▸ List.mem_map_of_mem hentry)
  obtain ⟨b, hread, htakes⟩ := Settings.object_takes hkind hlevel hpairs
    (fun slot hslot => ((hshows slot hslot).takes hstands).1)
    (fun entry hentry hunknown => by simp [hknows entry hentry] at hunknown) start
  obtain rfl : b = c := kind.layout.takes_unique htakes fun slot hslot =>
    ((hshows slot hslot).takes hstands).2
  exact hread

namespace Json

variable {α : Type}

theorem numbers_ofOption (write : α → Json) (value : Option α) :
    (Json.ofOption write value).numbers = value.toList.flatMap fun a => (write a).numbers := by
  cases value <;> simp [Json.ofOption, numbers]

theorem numbersItems_map (write : α → Json) (values : List α) :
    numbersItems (values.map write) = values.flatMap fun a => (write a).numbers := by
  induction values with
  | nil => rfl
  | cons a values ih => simp [numbersItems, ih]

theorem depth_real (x : Float) : (Json.real x).depth ≤ 0 := Nat.le_refl 0

theorem depth_ofOption {write : α → Json} {n : Nat} (h : ∀ a, (write a).depth ≤ n)
    (value : Option α) : (Json.ofOption write value).depth ≤ n := by
  cases value with
  | none => exact Nat.zero_le n
  | some a => exact h a

theorem depthItems_map {write : α → Json} {n : Nat} (h : ∀ a, (write a).depth ≤ n)
    (values : List α) : depthItems (values.map write) ≤ n := by
  induction values with
  | nil => exact Nat.zero_le n
  | cons a values ih => exact Nat.max_le.mpr ⟨h a, ih⟩

end Json

section Written

attribute [local simp] Json.numbers numbersFields numbersFields_append numbers_ofOption
  numbersItems_map Json.real List.map_flatMap

theorem Waveform.reads_toJson (waveform : Waveform) :
    Reads f Waveform.read waveform.toJson waveform := reads_choice waveform.read_name

theorem FilterType.reads_toJson (type : FilterType) : Reads f FilterType.read type.toJson type :=
  reads_choice type.read_name

namespace Adsr

def numbers (c : Adsr) : List Float := [c.attack, c.decay, c.sustain, c.release]

theorem numbers_toFields (c : Adsr) : numbersFields c.toFields = c.numbers.map .real := by
  simp [toFields, numbers]

theorem numbers_toJson (c : Adsr) : c.toJson.numbers = c.numbers.map .real := c.numbers_toFields

theorem depth_toJson (c : Adsr) : c.toJson.depth ≤ 1 := Nat.le_refl 1

theorem reads_toJson {c : Adsr} (h : Restores f c.numbers) : Reads f read c.toJson c := by
  simp only [Restores, numbers, List.forall_mem_cons, List.not_mem_nil, false_imp_iff,
    implies_true, and_true] at h
  obtain ⟨hattack, hdecay, hsustain, hrelease⟩ := h
  refine Settings.reads (by simp [Settings.kinds] : Settings.adsr ∈ Settings.kinds) ?_ ?_
  · change ∀ slot ∈ slots, slot.Shows f standard c.toFields c
    simp only [slots, List.forall_mem_cons, List.not_mem_nil, false_imp_iff, implies_true, and_true]
    exact ⟨reads_real hattack, reads_real hdecay, reads_real hsustain, reads_real hrelease⟩
  · simp [toFields, Layout.knows, Settings.adsr, layout, slots, Slot.float, Slot.names]

end Adsr

namespace FilterSettings

def numbers (c : FilterSettings) : List Float :=
  c.frequency :: (c.q.toList ++ c.detune.toList)

theorem numbers_toJson (c : FilterSettings) : c.toJson.numbers = c.numbers.map .real := by
  obtain ⟨type, frequency, q, detune⟩ := c
  cases q <;> cases detune <;> simp [toJson, FilterType.toJson, optionalField, numbers]

theorem depth_toJson : ∀ c : FilterSettings, c.toJson.depth ≤ 1 := by
  rintro ⟨type, frequency, _ | q, _ | detune⟩ <;> exact Nat.le_refl 1

theorem reads_toJson {c : FilterSettings} (h : Restores f c.numbers) :
    Reads f read c.toJson c := by
  obtain ⟨type, frequency, q, detune⟩ := c
  have hfrequency : (f (.real frequency)).toFloat = frequency := h _ (by simp [numbers])
  have hq : ∀ x ∈ q, Reads f (Source.option Source.float) (.real x) (some x) := fun x hx =>
    reads_some (reads_real (h x (by simp_all [numbers]))) (by simp [Json.real])
  have hdetune : ∀ x ∈ detune, Reads f (Source.option Source.float) (.real x) (some x) :=
    fun x hx => reads_some (reads_real (h x (by simp_all [numbers]))) (by simp [Json.real])
  refine Settings.reads (by simp [Settings.kinds] : Settings.filter ∈ Settings.kinds) ?_ ?_
  · change ∀ slot ∈ layout.slots, slot.Shows f standard _ _
    simp only [layout, List.forall_mem_cons, List.not_mem_nil, false_imp_iff, implies_true,
      and_true]
    refine ⟨?_, ?_, ?_, ?_⟩
    · cases q <;> cases detune <;> exact type.reads_toJson
    · cases q <;> cases detune <;> exact reads_real hfrequency
    · cases q <;> cases detune <;> first | exact hq _ rfl | rfl
    · cases q <;> cases detune <;> first | exact hdetune _ rfl | rfl
  · cases q <;> cases detune <;>
      simp [optionalField, Layout.knows, Settings.filter, layout, Slot.float, Slot.names]

end FilterSettings

namespace ReverbSettings

def numbers (c : ReverbSettings) : List Float := c.amount :: c.duration :: c.decay.toList

theorem numbers_toJson (c : ReverbSettings) : c.toJson.numbers = c.numbers.map .real := by
  simp [toJson, numbers, ← List.map_eq_flatMap]

theorem depth_toJson (c : ReverbSettings) : c.toJson.depth ≤ 1 := by
  have hdecay := depth_ofOption depth_real c.decay
  simp only [toJson, depth, depthFields, Json.real]
  omega

theorem reads_toJson {c : ReverbSettings} (h : Restores f c.numbers) :
    Reads f read c.toJson c := by
  have hamount : (f (.real c.amount)).toFloat = c.amount := h _ (by simp [numbers])
  have hduration : (f (.real c.duration)).toFloat = c.duration := h _ (by simp [numbers])
  have hdecay : Reads f (Source.option Source.float) (.ofOption .real c.decay) c.decay :=
    reads_option (fun x hx => reads_real (h x (by simp_all [numbers]))) (by simp [Json.real])
  refine Settings.reads (by simp [Settings.kinds] : Settings.reverb ∈ Settings.kinds) ?_ ?_
  · change ∀ slot ∈ layout.slots, slot.Shows f standard _ c
    simp only [layout, List.forall_mem_cons, List.not_mem_nil, false_imp_iff, implies_true,
      and_true]
    exact ⟨reads_real hamount, reads_real hduration, hdecay, reads_bool c.reverse⟩
  · simp [Layout.knows, Settings.reverb, layout, Slot.float, Slot.names]

end ReverbSettings

namespace BankSettings

def numbers (c : BankSettings) : List Float := c.frequency :: c.gains

theorem numbers_toJson (c : BankSettings) : c.toJson.numbers = c.numbers.map .real := by
  simp [toJson, Waveform.toJson, numbers, ← List.map_eq_flatMap]

theorem depth_toJson (c : BankSettings) : c.toJson.depth ≤ 2 := by
  have hgains := depthItems_map depth_real c.gains
  have hwaveforms : depthItems (c.waveforms.map Waveform.toJson) ≤ 0 :=
    depthItems_map (fun _ => Nat.le_refl 0) c.waveforms
  simp only [toJson, depth, depthFields, Json.real]
  omega

theorem reads_toJson {c : BankSettings} (h : Restores f c.numbers) : Reads f read c.toJson c := by
  have hfrequency : (f (.real c.frequency)).toFloat = c.frequency := h _ (by simp [numbers])
  have hgains : Reads f (Source.list Source.float) (.array (c.gains.map .real)) c.gains :=
    reads_list fun x hx => reads_real (h x (by simp [numbers, hx]))
  have hwaveforms : Reads f (Source.list Waveform.read)
      (.array (c.waveforms.map Waveform.toJson)) c.waveforms :=
    reads_list fun waveform _ => waveform.reads_toJson
  refine Settings.reads (by simp [Settings.kinds] : Settings.bank ∈ Settings.kinds) ?_ ?_
  · change ∀ slot ∈ layout.slots, slot.Shows f standard _ c
    simp only [layout, List.forall_mem_cons, List.not_mem_nil, false_imp_iff, implies_true,
      and_true]
    exact ⟨reads_real hfrequency, hgains, hwaveforms, reads_bool c.normalize⟩
  · simp [Layout.knows, Settings.bank, layout, Slot.float, Slot.names]

end BankSettings

namespace Cutoff

def numbers : Cutoff → List Float
  | .hertz x => [x]
  | .follow => []

theorem numbers_toJson (cutoff : Cutoff) : cutoff.toJson.numbers = cutoff.numbers.map .real := by
  cases cutoff <;> simp [toJson, numbers]

theorem depth_toJson (cutoff : Cutoff) : cutoff.toJson.depth ≤ 0 := by
  cases cutoff <;> exact Nat.le_refl 0

theorem reads_toJson {cutoff : Cutoff} (h : Restores f cutoff.numbers) :
    Reads f read cutoff.toJson cutoff := by
  intro d hkeep
  have hread : ofJson (cutoff.toJson.mapNumbers f) = pure cutoff := by
    cases cutoff with
    | hertz x =>
        have hx : (f (.real x)).toFloat = x := h x (by simp [numbers])
        simp [toJson, Json.real, mapNumbers, ofJson, hx]
    | follow => rfl
  simp only [read, Source.keep, hkeep, Json.liftExcept, pure_bind, hread]
  rfl

end Cutoff

namespace SweptFilter

def numbers (c : SweptFilter) : List Float :=
  c.frequency.toList.flatMap Cutoff.numbers ++ c.q.toList ++
    c.envelope.toList.flatMap Adsr.numbers ++ [c.octaves]

theorem numbers_toJson (c : SweptFilter) : c.toJson.numbers = c.numbers.map .real := by
  simp [toJson, FilterType.toJson, Cutoff.numbers_toJson, Adsr.numbers_toJson, numbers,
    ← List.map_eq_flatMap]

theorem depth_toJson (c : SweptFilter) : c.toJson.depth ≤ 2 := by
  have hfrequency := depth_ofOption Cutoff.depth_toJson c.frequency
  have hq := depth_ofOption depth_real c.q
  have henvelope := depth_ofOption Adsr.depth_toJson c.envelope
  simp only [toJson, depth, depthFields, Json.real, FilterType.toJson]
  omega

theorem reads_toJson {c : SweptFilter} (h : Restores f c.numbers) : Reads f read c.toJson c := by
  have hfrequency : Reads f (Source.option Cutoff.read) (.ofOption Cutoff.toJson c.frequency)
      c.frequency := by
    refine reads_option (fun cutoff hcutoff => Cutoff.reads_toJson fun x hx => h x ?_) ?_
    · simp_all [numbers]
    · rintro (x | _) <;> simp [Cutoff.toJson, Json.real]
  have hq : Reads f (Source.option Source.float) (.ofOption .real c.q) c.q :=
    reads_option (fun x hx => reads_real (h x (by simp_all [numbers]))) (by simp [Json.real])
  have henvelope : Reads f (Source.option Adsr.read) (.ofOption Adsr.toJson c.envelope)
      c.envelope :=
    reads_option (fun envelope henvelope => Adsr.reads_toJson fun x hx =>
      h x (by simp_all [numbers])) (by simp [Adsr.toJson])
  have hoctaves : (f (.real c.octaves)).toFloat = c.octaves := h _ (by simp [numbers])
  refine Settings.reads (by simp [Settings.kinds] : Settings.sweptFilter ∈ Settings.kinds) ?_ ?_
  · change ∀ slot ∈ layout.slots, slot.Shows f standard _ c
    simp only [layout, List.forall_mem_cons, List.not_mem_nil, false_imp_iff, implies_true,
      and_true]
    exact ⟨c.type.reads_toJson, hfrequency, hq, henvelope, reads_real hoctaves⟩
  · simp [Layout.knows, Settings.sweptFilter, layout, Slot.float, Slot.names]

end SweptFilter

namespace SubtractiveSettings

def numbers (c : SubtractiveSettings) : List Float :=
  c.frequency :: (c.envelope.numbers ++ c.filter.numbers ++ [c.gain])

theorem numbers_toJson (c : SubtractiveSettings) : c.toJson.numbers = c.numbers.map .real := by
  simp [toJson, Waveform.toJson, Adsr.numbers_toJson, SweptFilter.numbers_toJson, numbers]

theorem depth_toJson (c : SubtractiveSettings) : c.toJson.depth ≤ 3 := by
  have henvelope := c.envelope.depth_toJson
  have hfilter := c.filter.depth_toJson
  simp only [toJson, depth, depthFields, Json.real, Waveform.toJson]
  omega

theorem reads_toJson {c : SubtractiveSettings} (h : Restores f c.numbers) :
    Reads f read c.toJson c := by
  have hfrequency : (f (.real c.frequency)).toFloat = c.frequency := h _ (by simp [numbers])
  have henvelope : Reads f Adsr.read c.envelope.toJson c.envelope :=
    Adsr.reads_toJson fun x hx => h x (by simp [numbers, hx])
  have hfilter : Reads f SweptFilter.read c.filter.toJson c.filter :=
    SweptFilter.reads_toJson fun x hx => h x (by simp [numbers, hx])
  have hgain : (f (.real c.gain)).toFloat = c.gain := h _ (by simp [numbers])
  refine Settings.reads (by simp [Settings.kinds] : Settings.subtractive ∈ Settings.kinds) ?_ ?_
  · change ∀ slot ∈ layout.slots, slot.Shows f standard _ c
    simp only [layout, List.forall_mem_cons, List.not_mem_nil, false_imp_iff, implies_true,
      and_true]
    exact ⟨reads_real hfrequency, c.waveform.reads_toJson, henvelope, hfilter, reads_real hgain⟩
  · simp [Layout.knows, Settings.subtractive, layout, Slot.float, Slot.names]

end SubtractiveSettings

namespace Soundfont

theorem Library.reads_name (library : Library) :
    Reads f Library.read (.string library.name) library :=
  reads_choice (by cases library <;> rfl)

theorem Format.reads_name (format : Format) : Reads f Format.read (.string format.name) format :=
  reads_choice (by cases format <;> rfl)

theorem LoadOptions.depth_toJson (c : LoadOptions) : c.toJson.depth ≤ 1 := Nat.le_refl 1

theorem LoadOptions.reads_toJson (c : LoadOptions) : Reads f read c.toJson c := by
  refine Settings.reads (by simp [Settings.kinds] : Settings.loadOptions ∈ Settings.kinds) ?_ ?_
  · change ∀ slot ∈ layout.slots, slot.Shows f standard _ c
    simp only [layout, List.forall_mem_cons, List.not_mem_nil, false_imp_iff, implies_true,
      and_true]
    exact ⟨c.library.reads_name, c.format.reads_name⟩
  · simp [Layout.knows, Settings.loadOptions, layout, Slot.names]

end Soundfont

namespace SampleVoice

def numbers (c : SampleVoice) : List Float := c.gain :: (c.filter.numbers ++ c.envelope.numbers)

theorem numbers_toJson (c : SampleVoice) : c.toJson.numbers = c.numbers.map .real := by
  simp [toJson, FilterSettings.numbers_toJson, Adsr.numbers_toFields, numbers]

theorem depth_toJson (c : SampleVoice) : c.toJson.depth ≤ 2 := by
  have hfilter := c.filter.depth_toJson
  simp only [toJson, Adsr.toFields, List.cons_append, List.nil_append, depth, depthFields, Json.real]
  omega

theorem reads_toJson {c : SampleVoice} (h : Restores f c.numbers) : Reads f read c.toJson c := by
  have hgain : (f (.real c.gain)).toFloat = c.gain := h _ (by simp [numbers])
  have hfilter : Reads f FilterSettings.read c.filter.toJson c.filter :=
    FilterSettings.reads_toJson fun x hx => h x (by simp [numbers, hx])
  have henvelope : Restores f c.envelope.numbers := fun x hx => h x (by simp [numbers, hx])
  simp only [Restores, Adsr.numbers, List.forall_mem_cons, List.not_mem_nil, false_imp_iff,
    implies_true, and_true] at henvelope
  obtain ⟨hattack, hdecay, hsustain, hrelease⟩ := henvelope
  refine Settings.reads (by simp [Settings.kinds] : Settings.sampleVoice ∈ Settings.kinds) ?_ ?_
  · change ∀ slot ∈ layout.slots, slot.Shows f bare _ c
    simp only [layout, ownSlots, envelopeSlots, Adsr.slots, List.map_cons, List.map_nil,
      List.cons_append, List.nil_append, List.forall_mem_cons, List.not_mem_nil, false_imp_iff,
      implies_true, and_true]
    exact ⟨reads_real hgain, hfilter, reads_real hattack, reads_real hdecay, reads_real hsustain,
      reads_real hrelease⟩
  · simp [Adsr.toFields, Layout.knows, Settings.sampleVoice, layout, ownSlots, envelopeSlots,
      Adsr.slots, Slot.float, Slot.within, Slot.names]

end SampleVoice

end Written

-- A kind of settings, with how it is written and the numbers in it.
structure Form extends Settings where
  write : α → Json
  numbers : α → List Float

namespace Form

def forms : List Form := [
  ⟨.adsr, Adsr.toJson, Adsr.numbers⟩,
  ⟨.filter, FilterSettings.toJson, FilterSettings.numbers⟩,
  ⟨.reverb, ReverbSettings.toJson, ReverbSettings.numbers⟩,
  ⟨.bank, BankSettings.toJson, BankSettings.numbers⟩,
  ⟨.sweptFilter, SweptFilter.toJson, SweptFilter.numbers⟩,
  ⟨.subtractive, SubtractiveSettings.toJson, SubtractiveSettings.numbers⟩,
  ⟨.loadOptions, Soundfont.LoadOptions.toJson, fun _ => []⟩,
  ⟨.sampleVoice, SampleVoice.toJson, SampleVoice.numbers⟩]

theorem reads_write {form : Form} (hform : form ∈ forms) {c : form.α}
    (h : Restores f (form.numbers c)) : Reads f form.read (form.write c) c := by
  simp only [forms, List.mem_cons, List.not_mem_nil, or_false] at hform
  obtain rfl | rfl | rfl | rfl | rfl | rfl | rfl | rfl := hform
  · exact Adsr.reads_toJson h
  · exact FilterSettings.reads_toJson h
  · exact ReverbSettings.reads_toJson h
  · exact BankSettings.reads_toJson h
  · exact SweptFilter.reads_toJson h
  · exact SubtractiveSettings.reads_toJson h
  · exact Soundfont.LoadOptions.reads_toJson c
  · exact SampleVoice.reads_toJson h

theorem numbers_write {form : Form} (hform : form ∈ forms) (c : form.α) :
    (form.write c).numbers = (form.numbers c).map .real := by
  simp only [forms, List.mem_cons, List.not_mem_nil, or_false] at hform
  obtain rfl | rfl | rfl | rfl | rfl | rfl | rfl | rfl := hform
  · exact c.numbers_toJson
  · exact c.numbers_toJson
  · exact c.numbers_toJson
  · exact c.numbers_toJson
  · exact c.numbers_toJson
  · exact c.numbers_toJson
  · rfl
  · exact c.numbers_toJson

theorem depth_write {form : Form} (hform : form ∈ forms) (c : form.α) :
    (form.write c).depth ≤ depthLimit := by
  have hdepth : (form.write c).depth ≤ 3 := by
    simp only [forms, List.mem_cons, List.not_mem_nil, or_false] at hform
    obtain rfl | rfl | rfl | rfl | rfl | rfl | rfl | rfl := hform
    · exact c.depth_toJson.trans (by decide)
    · exact c.depth_toJson.trans (by decide)
    · exact c.depth_toJson.trans (by decide)
    · exact c.depth_toJson.trans (by decide)
    · exact c.depth_toJson.trans (by decide)
    · exact c.depth_toJson
    · exact c.depth_toJson.trans (by decide)
    · exact c.depth_toJson.trans (by decide)
  exact hdepth.trans (by decide)

-- Reading back what was written gives the settings, and warns of nothing.
theorem written_reads_back {form : Form} (hform : form ∈ forms) {c : form.α}
    (finite : ∀ x ∈ form.numbers c, x.isFinite = true)
    (format : ∀ x ∈ form.numbers c, x.isFinite = true →
      floatOf? (renderNumber (.real x)) = some x) :
    (wholeText form.read (form.write c).render).run [] = .ok c [] := by
  obtain ⟨hrestores, hkeep, htrailing⟩ := kept_render (numbers_write hform c)
    (fun x hx => format x hx (finite x hx)) (depth_write hform c)
  have hscan : scan (form.write c).render = ⟨(scan (form.write c).render).root, none⟩ := by
    rw [← htrailing]
  exact wholeText_run hscan (reads_write hform hrestores _ hkeep)

def followingVoice : SubtractiveSettings where
  frequency := 110.5
  waveform := .square
  envelope := ⟨0, 0.1, 1e-7, 3⟩
  filter := ⟨.bandpass, some .follow, none, some .standard, -1.5⟩
  gain := 1e300

theorem following_read_back :
    (∀ x ∈ followingVoice.numbers, x.isFinite = true) ∧
      (∀ x ∈ followingVoice.numbers, x.isFinite = true →
        floatOf? (renderNumber (.real x)) = some x) ∧
      (wholeText SubtractiveSettings.read followingVoice.toJson.render).run [] =
        .ok followingVoice [] := by
  have finite : ∀ x ∈ followingVoice.numbers, x.isFinite = true := by decide +kernel
  have format : ∀ x ∈ followingVoice.numbers, x.isFinite = true →
      floatOf? (renderNumber (.real x)) = some x := by decide +kernel
  let form : Form := ⟨.subtractive, SubtractiveSettings.toJson, SubtractiveSettings.numbers⟩
  have hform : form ∈ forms := by simp [forms, form]
  exact ⟨finite, format, written_reads_back hform finite format⟩

end Form

end Patchbay
