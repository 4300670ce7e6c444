import Patchbay.Proofs.Patch.NormalForm
import Patchbay.Proofs.Settings.Overlay
import Patchbay.Proofs.Json.FiniteNumbers

namespace Patchbay

open Json (Decode Field Kept Source)

namespace Json

namespace Decode

variable {α β : Type} {P : α → Prop} {Q : β → Prop} {read : Decode α}

-- Whatever was warned of before, a value that is read has the property.
def Yields (read : Decode α) (P : α → Prop) : Prop := ∀ w a w', read.run w = .ok a w' → P a

theorem yields_pure {a : α} (h : P a) : Yields (pure a) P := by
  rintro w _ _ ⟨⟩
  exact h

theorem yields_fail (reason : Reason) : Yields (fail reason) P := fun _ _ _ h => nomatch h

theorem yields_any : read.Yields fun _ => True := fun _ _ _ _ => trivial

theorem Yields.mono (h : read.Yields P) {R : α → Prop} (himp : ∀ a, P a → R a) : read.Yields R :=
  fun w a w' hread => himp a (h w a w' hread)

theorem Yields.bind (h : read.Yields P) {next : α → Decode β}
    (hnext : ∀ a, P a → (next a).Yields Q) : (read >>= next).Yields Q := by
  intro w b w' hrun
  obtain ⟨a, w'', hread, hrest⟩ := Decode.ok_of_bind hrun
  exact hnext a (h w a w'' hread) w'' b w' hrest

theorem yields_bind {next : α → Decode β} (hnext : ∀ a, (next a).Yields Q) :
    (read >>= next).Yields Q := by
  intro w b w' hrun
  obtain ⟨a, w'', -, hrest⟩ := Decode.ok_of_bind hrun
  exact hnext a w'' b w' hrest

theorem Yields.map (h : read.Yields P) {f : α → β} (hf : ∀ a, P a → Q (f a)) :
    (f <$> read).Yields Q := by
  rw [← bind_pure_comp]
  exact h.bind fun a ha => yields_pure (hf a ha)

theorem Yields.attempt (h : read.Yields P) : read.attempt.Yields fun a? => ∀ a ∈ a?, P a := by
  intro w a? w' hrun
  change Decode.attempt read w = .ok a? w' at hrun
  unfold Decode.attempt at hrun
  split at hrun
  · next a w'' hread =>
      obtain ⟨rfl, -⟩ := EStateM.Result.ok.inj hrun
      rintro _ ⟨⟩
      exact h w a w'' hread
  · obtain ⟨rfl, -⟩ := EStateM.Result.ok.inj hrun
    exact fun a ha => nomatch ha

theorem yields_mapM {δ : Type} {f : δ → Decode α} {ds : List δ} (h : ∀ d ∈ ds, (f d).Yields P) :
    (ds.mapM f).Yields fun as => ∀ a ∈ as, P a := by
  induction ds with
  | nil => exact yields_pure fun a ha => nomatch ha
  | cons d ds ih =>
      rw [List.forall_mem_cons] at h
      rw [List.mapM_cons]
      exact h.1.bind fun a ha => (ih h.2).bind fun as has =>
        yields_pure (List.forall_mem_cons.2 ⟨ha, has⟩)

end Decode

variable {δ α β : Type} {P : α → Prop} {Q : δ → Prop}

open Decode

-- What is laid over a draft by this field leaves the property as it is.
def Field.Keeps (Q : δ → Prop) (P : α → Prop) (field : Field δ α) : Prop :=
  ∀ d, Q d → (field.read d).Yields fun set => ∀ draft, P draft → P (set draft)

theorem keeps_optional {name : String} {read : δ → Decode β} {set : β → α → α} {R : β → Prop}
    (hread : ∀ d, Q d → (read d).Yields R) (hset : ∀ x, R x → ∀ draft, P draft → P (set x draft)) :
    (Field.optional name read set).Keeps Q P :=
  fun d hd => (hread d hd).map hset

theorem keeps_needed {name : String} {read : δ → Decode β} {set : β → α → α} {R : β → Prop}
    (hread : ∀ d, Q d → (read d).Yields R) (hset : ∀ x, R x → ∀ draft, P draft → P (set x draft)) :
    (Field.needed name read set).Keeps Q P :=
  fun d hd => (hread d hd).map hset

theorem Field.Keeps.also {field : Field δ α} (h : field.Keeps Q P) (other : String) :
    (field.also other).Keeps Q P := h

theorem keeps_nil : ∀ field ∈ ([] : List (Field δ α)), field.Keeps Q P := fun _ h => nomatch h

theorem keeps_cons {field : Field δ α} {table : List (Field δ α)} (hfield : field.Keeps Q P)
    (htable : ∀ field ∈ table, field.Keeps Q P) : ∀ other ∈ field :: table, other.Keeps Q P :=
  List.forall_mem_cons.2 ⟨hfield, htable⟩

theorem yields_readEntries {table : List (Field δ α)} (htable : ∀ field ∈ table, field.Keeps Q P)
    {entries : List (String × δ)} (hentries : ∀ entry ∈ entries, Q entry.2) {seen : List String}
    {draft : α} (hdraft : P draft) : (readEntries table seen draft entries).Yields P := by
  induction entries generalizing seen draft with
  | nil =>
      rw [readEntries]
      split
      · exact yields_fail _
      · exact yields_pure hdraft
  | cons entry rest ih =>
      rw [List.forall_mem_cons] at hentries
      rw [readEntries]
      split
      · exact ih hentries.2 hdraft
      · next field hfield =>
          split
          · exact yields_fail _
          · exact (htable field (List.mem_of_find?_eq_some hfield) entry.2 hentries.1).bind
              fun set hset => ih hentries.2 (hset draft hdraft)

theorem yields_readPositions {excess : Excess} {expected : String} {table : List (Field δ α)}
    (htable : ∀ field ∈ table, field.Keeps Q P) {ds : List δ} (hds : ∀ d ∈ ds, Q d) {i : Nat}
    {draft : α} (hdraft : P draft) : (readPositions excess expected table i draft ds).Yields P := by
  induction table generalizing i draft ds with
  | nil =>
      cases ds with
      | nil => exact yields_pure hdraft
      | cons d ds => exact yields_fail _
  | cons field table ih =>
      rw [List.forall_mem_cons] at htable
      cases ds with
      | nil =>
          rw [readPositions]
          split
          · exact yields_fail _
          · exact ih htable.2 hds hdraft
      | cons d ds =>
          rw [List.forall_mem_cons] at hds
          rw [readPositions]
          exact (htable.1 d hds.1).bind fun set hset => ih htable.2 hds.2 (hset draft hdraft)

end Json

namespace Patch

-- Every part of the content has the property.
def Content.All (Q : Reading → Prop) : Content → Prop
  | .fields entries => ∀ entry ∈ entries, Q entry.2
  | .items readings => ∀ reading ∈ readings, Q reading

theorem Content.yields_record {α : Type} {P : α → Prop} {Q : Reading → Prop} {content : Content}
    (hcontent : content.All Q) {expected : String} {table : List (Field Reading α)} {base : α}
    (htable : ∀ field ∈ table, field.Keeps Q P) (hbase : P base) :
    (content.record expected table base).Yields P := by
  cases content with
  | fields entries => exact Json.yields_readEntries htable hcontent hbase
  | items readings => exact Json.yields_readPositions htable hcontent hbase

end Patch

namespace Json

-- The numbers of a value are finite, and it has no more containers around one another than these.
structure Within (bound : Nat) (json : Json) : Prop where
  finite : json.Finite
  depth : json.depth ≤ bound

theorem depthItems_le_iff {items : List Json} {bound : Nat} :
    depthItems items ≤ bound ↔ ∀ item ∈ items, item.depth ≤ bound := by
  induction items with
  | nil => simp [depthItems]
  | cons first rest ih => simp [depthItems, ih]

theorem depthFields_le_iff {fields : List (String × Json)} {bound : Nat} :
    depthFields fields ≤ bound ↔ ∀ field ∈ fields, field.2.depth ≤ bound := by
  induction fields with
  | nil => simp [depthFields]
  | cons first rest ih => simp [depthFields, ih]

theorem within_array {items : List Json} {bound : Nat} :
    (Json.array items).Within (bound + 1) ↔ ∀ item ∈ items, item.Within bound := by
  have hdepth : (Json.array items).depth ≤ bound + 1 ↔ ∀ item ∈ items, item.depth ≤ bound := by
    rw [depth, Nat.succ_le_succ_iff, depthItems_le_iff]
  exact ⟨fun h item hitem => ⟨finite_array.1 h.finite item hitem, hdepth.1 h.depth item hitem⟩,
    fun h => ⟨finite_array.2 fun item hitem => (h item hitem).finite,
      hdepth.2 fun item hitem => (h item hitem).depth⟩⟩

theorem within_object {fields : List (String × Json)} {bound : Nat} :
    (Json.object fields).Within (bound + 1) ↔ ∀ field ∈ fields, field.2.Within bound := by
  have hdepth : (Json.object fields).depth ≤ bound + 1 ↔
      ∀ field ∈ fields, field.2.depth ≤ bound := by
    rw [depth, Nat.succ_le_succ_iff, depthFields_le_iff]
  exact ⟨fun h field hfield =>
      ⟨finite_object.1 h.finite field hfield, hdepth.1 h.depth field hfield⟩,
    fun h => ⟨finite_object.2 fun field hfield => (h field hfield).finite,
      hdepth.2 fun field hfield => (h field hfield).depth⟩⟩

-- A container is counted itself.
theorem exists_of_within_array {items : List Json} {bound : Nat}
    (h : (Json.array items).Within bound) : ∃ less, bound = less + 1 :=
  Nat.exists_eq_succ_of_ne_zero fun hzero => Nat.not_succ_le_zero _ (hzero ▸ h.depth)

theorem exists_of_within_object {fields : List (String × Json)} {bound : Nat}
    (h : (Json.object fields).Within bound) : ∃ less, bound = less + 1 :=
  Nat.exists_eq_succ_of_ne_zero fun hzero => Nat.not_succ_le_zero _ (hzero ▸ h.depth)

@[simp] theorem within_string (s : String) (bound : Nat) : (Json.string s).Within bound :=
  ⟨fun _ hn => (nomatch hn), Nat.zero_le _⟩

@[simp] theorem within_bool (b : Bool) (bound : Nat) : (Json.bool b).Within bound :=
  ⟨fun _ hn => (nomatch hn), Nat.zero_le _⟩

@[simp] theorem within_real {x : Float} {bound : Nat} :
    (Json.real x).Within bound ↔ x.isFinite = true :=
  ⟨fun h => h.finite (.real x) (List.mem_singleton.2 rfl),
    fun h => ⟨fun _ hn => List.mem_singleton.1 hn ▸ h, Nat.zero_le _⟩⟩

end Json

theorem Stage.fault_eq_none_iff {stage : Stage} : stage.fault = none ↔
    stage.value.isFinite = true ∧ stage.duration.isFinite = true ∧ ¬stage.duration < 0 := by
  cases hvalue : stage.value.isFinite <;> cases hduration : stage.duration.isFinite <;>
    simp [Stage.fault, hvalue, hduration]

theorem Stage.within_toJson {stage : Stage} (h : stage.fault = none) (bound : Nat) :
    stage.toJson.Within (bound + 1) := by
  obtain ⟨hvalue, hduration, -⟩ := Stage.fault_eq_none_iff.1 h
  rw [Stage.toJson, Json.within_array]
  simp [hvalue, hduration]

theorem Contour.within_toJson {contour : Contour} {bound : Nat}
    (h : contour.stages ≠ [] → 1 ≤ bound) : contour.toJson.Within (bound + 1) := by
  rw [Contour.toJson, Json.within_array, List.forall_mem_map]
  intro stage hstage
  have hsound := List.all_eq_true.1 contour.sound stage hstage
  obtain ⟨k, rfl⟩ := Nat.exists_eq_add_of_le' (h (List.ne_nil_of_mem hstage))
  exact Stage.within_toJson (Option.isNone_iff_eq_none.1 hsound) k

theorem Patch.listToJson_eq (nodes : List Patch) :
    Patch.listToJson nodes = nodes.map Patch.toJson := by
  induction nodes with
  | nil => rw [Patch.listToJson, List.map_nil]
  | cons node rest ih => rw [Patch.listToJson, ih, List.map_cons]

namespace Patch

variable {bound : Nat}

theorem within_connect {route : Route} {nodes : List Patch}
    (h : ∀ node ∈ nodes, node.toJson.Within bound) :
    (Patch.connect route nodes).toJson.Within (bound + 2) := by
  have hnodes : (Json.array (Patch.listToJson nodes)).Within (bound + 1) := by
    rwa [Patch.listToJson_eq, Json.within_array, List.forall_mem_map]
  rw [Patch.toJson, Json.within_object]
  simp [hnodes]

theorem within_gain {level : Control} (h : level.toJson.Within bound) :
    (Patch.gain level).toJson.Within (bound + 1) := by
  rw [Patch.toJson, Json.within_object]
  simp [h]

theorem within_oscillator {waveform : Waveform} {frequency : Control} {detune : Option Control}
    (hfrequency : frequency.toJson.Within bound) (hdetune : ∀ c ∈ detune, c.toJson.Within bound) :
    (Patch.oscillator waveform frequency detune).toJson.Within (bound + 1) := by
  rw [Patch.toJson, Json.within_object]
  cases detune <;> simp_all [Waveform.toJson, Json.given, Control.optionToJson]

theorem within_biquadFilter {type : FilterType} {frequency : Control} {q detune : Option Control}
    (hfrequency : frequency.toJson.Within bound) (hq : ∀ c ∈ q, c.toJson.Within bound)
    (hdetune : ∀ c ∈ detune, c.toJson.Within bound) :
    (Patch.biquadFilter type frequency q detune).toJson.Within (bound + 1) := by
  rw [Patch.toJson, Json.within_object]
  cases q <;> cases detune <;> simp_all [FilterType.toJson, Json.given, Control.optionToJson]

theorem within_envelope {attack : Contour} {release : Option Contour}
    (hattack : attack.toJson.Within bound) (hrelease : ∀ c ∈ release, c.toJson.Within bound) :
    (Patch.envelope attack release).toJson.Within (bound + 1) := by
  rw [Patch.toJson, Json.within_object]
  cases release <;> simp_all [Json.given]

theorem within_delay {time : Control} {feedback : Option Float} (htime : time.toJson.Within bound)
    (hfeedback : ∀ x ∈ feedback, x.isFinite = true) :
    (Patch.delay time feedback).toJson.Within (bound + 1) := by
  rw [Patch.toJson, Json.within_object]
  cases feedback <;> simp_all [Json.given]

theorem within_constant {value : Float} (h : value.isFinite = true) :
    (Patch.constant value).toJson.Within (bound + 1) := by
  rw [Patch.toJson, Json.within_object]
  simp [h]

theorem within_noise {duration : Float} {looping : Bool} (h : duration.isFinite = true) :
    (Patch.noise duration looping).toJson.Within (bound + 1) := by
  rw [Patch.toJson, Json.within_object]
  simp [h]

theorem within_convolver {duration : Float} {decay : Option Float} {reverse : Bool}
    (hduration : duration.isFinite = true) (hdecay : ∀ x ∈ decay, x.isFinite = true) :
    (Patch.convolver duration decay reverse).toJson.Within (bound + 1) := by
  rw [Patch.toJson, Json.within_object]
  cases decay <;> simp_all [Json.given]

theorem within_memoize {id : String} {node : Patch} (h : node.toJson.Within bound) :
    (Patch.memoize id node).toJson.Within (bound + 1) := by
  rw [Patch.toJson, Json.within_object]
  simp [h]

theorem within_destination : Patch.destination.toJson.Within (bound + 1) := by
  rw [Patch.toJson, Json.within_object]
  simp

-- All that a value of so great a depth may be read as, written out again: a node adds at most one
-- container, and so a list of nodes adds none to the value it was read from.
structure Reading.Admits (bound : Nat) (r : Reading) : Prop where
  json : r.json.Within bound
  patch : r.patch.Yields fun patch => patch.toJson.Within (bound + 1)
  patches : r.patches.Yields fun nodes => ∀ node ∈ nodes, node.toJson.Within bound
  control : r.control.Yields fun control => control.toJson.Within (bound + 1)

end Patch

namespace Json

open Decode

theorem yields_float {json : Json} {bound : Nat} (h : json.Within bound) :
    (Source.float (⟨json⟩ : Kept) : Decode Float).Yields fun x => x.isFinite = true := by
  cases json with
  | number n => exact yields_pure (h.finite n (List.mem_singleton.2 rfl))
  | _ => exact yields_fail _

theorem yields_option {α : Type} {read : Kept → Decode α} {json : Json} {P : α → Prop}
    (h : (read ⟨json⟩).Yields P) :
    (Source.option read (⟨json⟩ : Kept)).Yields fun a? => ∀ a ∈ a?, P a := by
  have hsome : (some <$> read ⟨json⟩).Yields fun a? => ∀ a ∈ a?, P a := h.map fun a ha b hb => by
    obtain rfl := Option.some_inj.1 hb
    exact ha
  cases json with
  | null => exact yields_pure fun a ha => nomatch ha
  | _ => exact hsome

end Json

open Json Decode in
theorem Contour.yields_read {json : Json} {bound : Nat} (h : json.Within bound) :
    (Contour.read (⟨json⟩ : Kept)).Yields fun contour => contour.toJson.Within (bound + 1) := by
  have hlist : (Source.list Stage.read (⟨json⟩ : Kept)).Yields fun _ => 1 ≤ bound := by
    cases json with
    | array items => exact yields_any.mono fun _ _ => Nat.le_trans (Nat.le_add_left 1 _) h.depth
    | _ => exact yields_fail _
  refine hlist.bind fun stages hbound => ?_
  split
  · exact yields_pure (Contour.within_toJson fun _ => hbound)
  · exact yields_fail _

namespace Patch

open Json Decode

variable {bound : Nat} {content : Content} {r : Reading}

theorem Reading.Admits.optionalControl (h : r.Admits bound) :
    r.optionalControl.Yields fun control? =>
      ∀ control ∈ control?, control.toJson.Within (bound + 1) := by
  unfold Reading.optionalControl
  split
  · exact yields_pure fun control hcontrol => nomatch hcontrol
  · exact h.control.map fun control hcontrol c hc => Option.some_inj.1 hc ▸ hcontrol

theorem Reading.Admits.float (h : r.Admits bound) :
    (Source.float r.kept : Decode Float).Yields fun x => x.isFinite = true :=
  yields_float h.json

theorem Reading.Admits.optionalFloat (h : r.Admits bound) :
    (Source.option Source.float r.kept : Decode (Option Float)).Yields
      fun x? => ∀ x ∈ x?, x.isFinite = true :=
  yields_option h.float

theorem Reading.Admits.contour (h : r.Admits bound) :
    (Contour.read r.kept).Yields fun contour => contour.toJson.Within (bound + 1) :=
  Contour.yields_read h.json

theorem Reading.Admits.optionalContour (h : r.Admits bound) :
    (Source.option Contour.read r.kept).Yields
      fun contour? => ∀ contour ∈ contour?, contour.toJson.Within (bound + 1) :=
  yields_option h.contour

theorem within_value {x : Float} (h : x.isFinite = true) (bound : Nat) :
    (Control.value x).toJson.Within bound :=
  within_real.2 h

theorem yields_connect (h : content.All (Reading.Admits bound)) :
    (content.patch .connect).Yields fun patch => patch.toJson.Within (bound + 2) := by
  have hrecord : (content.record (variantExpected "Connect" 2) connectFields (.serial, [])).Yields
      fun c => ∀ node ∈ c.2, node.toJson.Within bound := by
    refine Content.yields_record h (keeps_cons ?_ (keeps_cons ?_ keeps_nil)) ?_
    · exact keeps_optional (fun _ _ => yields_any) fun _ _ _ hdraft => hdraft
    · exact keeps_optional (fun _ hr => hr.patches) fun _ hx _ _ => hx
    · exact fun node hnode => nomatch hnode
  exact hrecord.bind fun c hc => yields_pure (within_connect hc)

theorem yields_gain (h : content.All (Reading.Admits bound)) :
    (content.patch .gain).Yields fun patch => patch.toJson.Within (bound + 2) := by
  have hrecord : (content.record (variantExpected "Gain" 1)
      [controlField "gain" fun x _ => x] (.value 1)).Yields
        fun c => c.toJson.Within (bound + 1) := by
    refine Content.yields_record h (keeps_cons ?_ keeps_nil) ?_
    · exact keeps_optional (fun _ hr => hr.control) fun _ hx _ _ => hx
    · exact within_value (by decide +kernel) _
  exact hrecord.bind fun c hc => yields_pure (within_gain hc)

-- The controls of an oscillator or a filter while they are read.
structure Tone.Within (bound : Nat) (c : Tone) : Prop where
  frequency : c.frequency.toJson.Within bound
  q : ∀ control ∈ c.q, control.toJson.Within bound
  detune : ∀ control ∈ c.detune, control.toJson.Within bound

theorem yields_oscillator (h : content.All (Reading.Admits bound)) :
    (content.patch .oscillator).Yields fun patch => patch.toJson.Within (bound + 2) := by
  have hrecord : (content.record (variantExpected "Oscillator" 3) oscillatorFields
      ⟨.sine, .lowpass, concert, none, none⟩).Yields (Tone.Within (bound + 1)) := by
    refine Content.yields_record h (keeps_cons ?_ (keeps_cons ?_ (keeps_cons ?_ keeps_nil))) ?_
    · exact keeps_optional (fun _ _ => yields_any) fun _ _ _ hc => ⟨hc.frequency, hc.q, hc.detune⟩
    · exact keeps_optional (fun _ hr => hr.control) fun _ hx _ hc => ⟨hx, hc.q, hc.detune⟩
    · exact keeps_optional (fun _ hr => hr.optionalControl)
        fun _ hx _ hc => ⟨hc.frequency, hc.q, hx⟩
    · exact ⟨within_value (by decide +kernel) _, by simp, by simp⟩
  exact hrecord.bind fun c hc => yields_pure (within_oscillator hc.frequency hc.detune)

theorem yields_biquadFilter (h : content.All (Reading.Admits bound)) :
    (content.patch .biquadFilter).Yields fun patch => patch.toJson.Within (bound + 2) := by
  have hrecord : (content.record (variantExpected "BiquadFilter" 4) filterFields
      ⟨.sine, .lowpass, .value 350, none, none⟩).Yields (Tone.Within (bound + 1)) := by
    refine Content.yields_record h
      (keeps_cons ?_ (keeps_cons ?_ (keeps_cons ?_ (keeps_cons ?_ keeps_nil)))) ?_
    · exact keeps_optional (fun _ _ => yields_any) fun _ _ _ hc => ⟨hc.frequency, hc.q, hc.detune⟩
    · exact keeps_optional (fun _ hr => hr.control) fun _ hx _ hc => ⟨hx, hc.q, hc.detune⟩
    · exact (keeps_optional (fun _ hr => hr.optionalControl)
        fun _ hx _ hc => ⟨hc.frequency, hx, hc.detune⟩).also "q"
    · exact keeps_optional (fun _ hr => hr.optionalControl)
        fun _ hx _ hc => ⟨hc.frequency, hc.q, hx⟩
    · exact ⟨within_value (by decide +kernel) _, by simp, by simp⟩
  exact hrecord.bind fun c hc => yields_pure (within_biquadFilter hc.frequency hc.q hc.detune)

theorem yields_envelope (h : content.All (Reading.Admits bound)) :
    (content.patch .envelope).Yields fun patch => patch.toJson.Within (bound + 2) := by
  have hempty : Contour.empty.toJson.Within (bound + 1) :=
    Contour.within_toJson fun hne => absurd rfl hne
  have hrecord : (content.record (variantExpected "Envelope" 2) envelopeFields
      (.empty, none)).Yields fun c => c.1.toJson.Within (bound + 1) ∧
        ∀ release ∈ c.2, release.toJson.Within (bound + 1) := by
    refine Content.yields_record h (keeps_cons ?_ (keeps_cons ?_ keeps_nil)) ?_
    · exact keeps_optional (fun _ hr => hr.contour) fun _ hx _ hc => ⟨hx, hc.2⟩
    · exact keeps_optional (fun _ hr => hr.optionalContour) fun _ hx _ hc => ⟨hc.1, hx⟩
    · exact ⟨hempty, by simp⟩
  exact hrecord.bind fun c hc => yields_pure (within_envelope hc.1 hc.2)

theorem yields_delay (h : content.All (Reading.Admits bound)) :
    (content.patch .delay).Yields fun patch => patch.toJson.Within (bound + 2) := by
  have hrecord : (content.record (variantExpected "Delay" 2) delayFields (.value 0, none)).Yields
      fun c => c.1.toJson.Within (bound + 1) ∧ ∀ x ∈ c.2, x.isFinite = true := by
    refine Content.yields_record h (keeps_cons ?_ (keeps_cons ?_ keeps_nil)) ?_
    · exact keeps_needed (fun _ hr => hr.control) fun _ hx _ hc => ⟨hx, hc.2⟩
    · exact keeps_optional (fun _ hr => hr.optionalFloat) fun _ hx _ hc => ⟨hc.1, hx⟩
    · exact ⟨within_value (by decide +kernel) _, by simp⟩
  exact hrecord.bind fun c hc => yields_pure (within_delay hc.1 hc.2)

theorem yields_constant (h : content.All (Reading.Admits bound)) :
    (content.patch .constant).Yields fun patch => patch.toJson.Within (bound + 2) := by
  have hrecord : (content.record (variantExpected "Constant" 1) constantFields 0).Yields
      fun x => x.isFinite = true := by
    refine Content.yields_record h (keeps_cons ?_ keeps_nil) ?_
    · exact keeps_needed (fun _ hr => hr.float) fun _ hx _ _ => hx
    · exact by decide +kernel
  exact hrecord.bind fun x hx => yields_pure (within_constant hx)

theorem yields_noise (h : content.All (Reading.Admits bound)) :
    (content.patch .noise).Yields fun patch => patch.toJson.Within (bound + 2) := by
  have hrecord : (content.record (variantExpected "Noise" 2) noiseFields (1, false)).Yields
      fun c => c.1.isFinite = true := by
    refine Content.yields_record h (keeps_cons ?_ (keeps_cons ?_ keeps_nil)) ?_
    · exact keeps_optional (fun _ hr => hr.float) fun _ hx _ _ => hx
    · exact keeps_optional (fun _ _ => yields_any) fun _ _ _ hc => hc
    · exact by decide +kernel
  exact hrecord.bind fun c hc => yields_pure (within_noise hc)

theorem yields_convolver (h : content.All (Reading.Admits bound)) :
    (content.patch .convolver).Yields fun patch => patch.toJson.Within (bound + 2) := by
  have hrecord : (content.record (variantExpected "Convolver" 3) convolverFields
      (1, none, false)).Yields fun c => c.1.isFinite = true ∧ ∀ x ∈ c.2.1, x.isFinite = true := by
    refine Content.yields_record h (keeps_cons ?_ (keeps_cons ?_ (keeps_cons ?_ keeps_nil))) ?_
    · exact keeps_optional (fun _ hr => hr.float) fun _ hx _ hc => ⟨hx, hc.2⟩
    · exact keeps_optional (fun _ hr => hr.optionalFloat) fun _ hx _ hc => ⟨hc.1, hx⟩
    · exact keeps_optional (fun _ _ => yields_any) fun _ _ _ hc => hc
    · exact ⟨by decide +kernel, by simp⟩
  exact hrecord.bind fun c hc => yields_pure (within_convolver hc.1 hc.2)

theorem yields_memoize (h : content.All (Reading.Admits bound)) :
    (content.patch .memoize).Yields fun patch => patch.toJson.Within (bound + 2) := by
  have hrecord : (content.record (variantExpected "Memoize" 2) memoizeFields
      ("", .destination)).Yields fun c => c.2.toJson.Within (bound + 1) := by
    refine Content.yields_record h (keeps_cons ?_ (keeps_cons ?_ keeps_nil)) ?_
    · exact keeps_needed (fun _ _ => yields_any) fun _ _ _ hc => hc
    · exact keeps_needed (fun _ hr => hr.patch) fun _ hx _ _ => hx
    · exact within_destination
  exact hrecord.bind fun c hc => yields_pure (within_memoize hc)

theorem yields_destination (content : Content) :
    (content.patch .destination).Yields fun patch => patch.toJson.Within (bound + 2) := by
  cases content with
  | fields entries => exact yields_pure within_destination
  | items readings =>
      cases readings with
      | nil => exact yields_pure within_destination
      | cons r rest => exact yields_fail _

theorem yields_patch (h : content.All (Reading.Admits bound)) (kind : Kind) :
    (content.patch kind).Yields fun patch => patch.toJson.Within (bound + 2) := by
  cases kind with
  | connect => exact yields_connect h
  | gain => exact yields_gain h
  | oscillator => exact yields_oscillator h
  | biquadFilter => exact yields_biquadFilter h
  | envelope => exact yields_envelope h
  | delay => exact yields_delay h
  | constant => exact yields_constant h
  | noise => exact yields_noise h
  | convolver => exact yields_convolver h
  | memoize => exact yields_memoize h
  | destination => exact yields_destination content

theorem controlOf_yields {json : Json} (hjson : json.Finite) {patch : Decode Patch}
    (hpatch : patch.Yields fun patch => patch.toJson.Within bound) :
    (controlOf json patch).Yields fun control => control.toJson.Within bound := by
  unfold controlOf
  split
  case h_1 n => exact yields_pure (within_value (hjson n (List.mem_singleton.2 rfl)) _)
  case h_2 =>
      refine hpatch.attempt.bind fun patch? hpatch? => ?_
      split
      · exact yields_pure (hpatch? _ rfl)
      · exact yields_fail _

theorem Reading.admits_make {json : Json} {patch : Decode Patch} {patches : Decode (List Patch)}
    (hjson : json.Within bound) (hpatch : patch.Yields fun patch => patch.toJson.Within (bound + 1))
    (hpatches : patches.Yields fun nodes => ∀ node ∈ nodes, node.toJson.Within bound) :
    (Reading.make json patch patches).Admits bound :=
  ⟨hjson, hpatch, hpatches, controlOf_yields hjson.finite hpatch⟩

theorem Reading.admits_ofScalar {json : Json} (h : json.Within bound) :
    (Reading.ofScalar json).Admits bound :=
  Reading.admits_make h (yields_fail _) (yields_fail _)

theorem Reading.admits_ofItems {json : Json} {readings : List Reading}
    (hjson : json.Within (bound + 1)) (h : ∀ r ∈ readings, r.Admits bound) :
    (Reading.ofItems json readings).Admits (bound + 1) := by
  refine Reading.admits_make hjson ?_ ?_
  · cases readings with
    | nil => exact yields_fail _
    | cons kind rest =>
        rw [List.forall_mem_cons] at h
        have hrest : (Content.items rest).All (Reading.Admits bound) := h.2
        exact yields_bind (yields_patch hrest)
  · exact yields_mapM fun r hr => (h r hr).patch

theorem Reading.admits_ofFields {json : Json} {entries : List (String × Reading)}
    (hjson : json.Within (bound + 1)) (h : ∀ entry ∈ entries, entry.2.Admits bound) :
    (Reading.ofFields json entries).Admits (bound + 1) := by
  unfold Reading.ofFields
  rw [List.partition_eq_filter_filter]
  have hrest : (Content.fields (entries.filter (not ∘ fun entry => entry.1 == kindKey))).All
      (Reading.Admits bound) := fun entry hentry => h entry (List.mem_of_mem_filter hentry)
  refine Reading.admits_make hjson ?_ (yields_fail _)
  split
  · exact yields_fail _
  · refine yields_bind fun kind => ?_
    split
    · exact yields_patch hrest kind
    · exact yields_fail _

mutual
theorem admits_reading : ∀ (json : Json) (bound : Nat), json.Within bound →
    (reading json).Admits bound
  | .array items, _, h => by
      obtain ⟨bound, rfl⟩ := exists_of_within_array h
      exact Reading.admits_ofItems h (admits_readings items bound (within_array.1 h))
  | .object fields, _, h => by
      obtain ⟨bound, rfl⟩ := exists_of_within_object h
      exact Reading.admits_ofFields h (admits_fieldReadings fields bound (within_object.1 h))
  | .null, _, h => Reading.admits_ofScalar h
  | .bool _, _, h => Reading.admits_ofScalar h
  | .number _, _, h => Reading.admits_ofScalar h
  | .string _, _, h => Reading.admits_ofScalar h

theorem admits_readings : ∀ (items : List Json) (bound : Nat), (∀ item ∈ items, item.Within bound) →
    ∀ r ∈ readings items, r.Admits bound
  | [], _, _ => fun _ hr => nomatch hr
  | item :: rest, bound, h => by
      rw [List.forall_mem_cons] at h
      exact List.forall_mem_cons.2 ⟨admits_reading item bound h.1, admits_readings rest bound h.2⟩

theorem admits_fieldReadings : ∀ (fields : List (String × Json)) (bound : Nat),
    (∀ field ∈ fields, field.2.Within bound) →
    ∀ entry ∈ fieldReadings fields, entry.2.Admits bound
  | [], _, _ => fun _ hr => nomatch hr
  | (_, json) :: rest, bound, h => by
      rw [List.forall_mem_cons] at h
      exact List.forall_mem_cons.2
        ⟨admits_reading json bound h.1, admits_fieldReadings rest bound h.2⟩
end

end Patch

end Patchbay
