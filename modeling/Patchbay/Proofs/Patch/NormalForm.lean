import Patchbay.Patch.Read
import Patchbay.Proofs.Json.RoundTrip

namespace Patchbay

open Json (Decode Kept Doc Field)

namespace Stage

def numbers (stage : Stage) : List Float := [stage.value, stage.duration]

end Stage

namespace Contour

def numbers (contour : Contour) : List Float := contour.stages.flatMap Stage.numbers

end Contour

mutual
-- The numbers of a patch, those of its contours included.
def Patch.numbers : Patch → List Float
  | .connect _ nodes => Patch.listNumbers nodes
  | .gain level => level.numbers
  | .oscillator _ frequency detune => frequency.numbers ++ Control.optionNumbers detune
  | .biquadFilter _ frequency q detune =>
    frequency.numbers ++ Control.optionNumbers q ++ Control.optionNumbers detune
  | .envelope attack release => attack.numbers ++ release.toList.flatMap Contour.numbers
  | .delay time feedback => time.numbers ++ feedback.toList
  | .constant value => [value]
  | .noise duration _ => [duration]
  | .convolver duration decay _ => duration :: decay.toList
  | .memoize _ node => node.numbers
  | .destination => []

def Patch.listNumbers : List Patch → List Float
  | [] => []
  | patch :: rest => patch.numbers ++ Patch.listNumbers rest

def Control.numbers : Control → List Float
  | .value x => [x]
  | .node patch => patch.numbers

def Control.optionNumbers : Option Control → List Float
  | none => []
  | some control => control.numbers
end

theorem Json.numbersFields_append (a b : List (String × Json)) :
    Json.numbersFields (a ++ b) = Json.numbersFields a ++ Json.numbersFields b := by
  induction a with
  | nil => rfl
  | cons field rest ih => simp [Json.numbersFields, ih]

theorem Json.numbersFields_given (name : String) (value : Option Json) :
    Json.numbersFields (Json.given name value) = value.toList.flatMap Json.numbers := by
  cases value <;> simp [Json.given, Json.numbersFields]

theorem Contour.numbers_toJson (contour : Contour) :
    contour.toJson.numbers = contour.numbers.map .real := by
  simp only [Contour.toJson, Json.numbers, Contour.numbers]
  induction contour.stages with
  | nil => rfl
  | cons stage rest ih =>
      simp [Json.numbersItems, Stage.toJson, Json.numbers, Json.real, Stage.numbers, ih]

mutual
theorem Patch.numbers_toJson : ∀ patch : Patch, patch.toJson.numbers = patch.numbers.map .real
  | .connect route nodes => by
      simp [Patch.toJson, Patch.numbers, Json.numbers, Json.numbersFields,
        Patch.listNumbers_toJson nodes]
  | .gain level => by
      simp [Patch.toJson, Patch.numbers, Json.numbers, Json.numbersFields, level.numbers_toJson]
  | .oscillator waveform frequency detune => by
      simp [Patch.toJson, Patch.numbers, Json.numbers, Json.numbersFields, Waveform.toJson,
        Json.numbersFields_given, frequency.numbers_toJson, Control.optionNumbers_toJson detune]
  | .biquadFilter type frequency q detune => by
      simp [Patch.toJson, Patch.numbers, Json.numbers, Json.numbersFields, FilterType.toJson,
        Json.numbersFields_append, Json.numbersFields_given, frequency.numbers_toJson,
        Control.optionNumbers_toJson q, Control.optionNumbers_toJson detune]
  | .envelope attack release => by
      cases release <;>
        simp [Patch.toJson, Patch.numbers, Json.numbers, Json.numbersFields,
          Json.numbersFields_given, Contour.numbers_toJson]
  | .delay time feedback => by
      cases feedback <;>
        simp [Patch.toJson, Patch.numbers, Json.numbers, Json.numbersFields, Json.real,
          Json.numbersFields_given, time.numbers_toJson]
  | .constant value => by
      simp [Patch.toJson, Patch.numbers, Json.numbers, Json.numbersFields, Json.real]
  | .noise duration looping => by
      simp [Patch.toJson, Patch.numbers, Json.numbers, Json.numbersFields, Json.real]
  | .convolver duration decay reverse => by
      cases decay <;>
        simp [Patch.toJson, Patch.numbers, Json.numbers, Json.numbersFields, Json.real,
          Json.numbersFields_append, Json.numbersFields_given]
  | .memoize id node => by
      simp [Patch.toJson, Patch.numbers, Json.numbers, Json.numbersFields, node.numbers_toJson]
  | .destination => by
      simp [Patch.toJson, Patch.numbers, Json.numbers, Json.numbersFields]

theorem Patch.listNumbers_toJson : ∀ nodes : List Patch,
    Json.numbersItems (Patch.listToJson nodes) = (Patch.listNumbers nodes).map .real
  | [] => rfl
  | patch :: rest => by
      simp [Patch.listToJson, Patch.listNumbers, Json.numbersItems, patch.numbers_toJson,
        Patch.listNumbers_toJson rest]

theorem Control.numbers_toJson :
    ∀ control : Control, control.toJson.numbers = control.numbers.map .real
  | .value x => by simp [Control.toJson, Control.numbers, Json.real, Json.numbers]
  | .node patch => by simp [Control.toJson, Control.numbers, patch.numbers_toJson]

theorem Control.optionNumbers_toJson : ∀ control : Option Control,
    (Control.optionToJson control).toList.flatMap Json.numbers =
      (Control.optionNumbers control).map .real
  | none => rfl
  | some control => by
      simp [Control.optionToJson, Control.optionNumbers, control.numbers_toJson]
end

-- The double that a text stands for; none when it is not one number.
def Json.floatOf? (text : String) : Option Float := (Json.numberOf? text).map Number.toFloat

-- A way to read back each of the numbers.
def Restores (f : Number → Number) (numbers : List Float) : Prop :=
  ∀ x ∈ numbers, (f (.real x)).toFloat = x

theorem Waveform.read_name (waveform : Waveform) :
    Waveform.read (⟨.string waveform.name⟩ : Kept) = pure waveform := by
  cases waveform <;> rfl

theorem FilterType.read_name (type : FilterType) :
    FilterType.read (⟨.string type.name⟩ : Kept) = pure type := by
  cases type <;> rfl

theorem Route.read_name (route : Route) :
    Route.read (⟨.string route.name⟩ : Kept) = pure route := by
  cases route <;> rfl

theorem Curve.read_name (curve : Curve) :
    Curve.read (⟨.string curve.name⟩ : Kept) = pure curve := by
  funext warnings
  have hread : Curve.read (⟨.string curve.name⟩ : Kept) warnings = .ok curve (warnings ++ []) := by
    cases curve <;> rfl
  rw [hread, List.append_nil]
  rfl

theorem Stage.read_toJson {f : Number → Number} {stage : Stage}
    (h : Restores f stage.numbers) :
    Stage.read (⟨stage.toJson.mapNumbers f⟩ : Kept) = pure stage := by
  have hvalue : (f (.real stage.value)).toFloat = stage.value := h _ (by simp [Stage.numbers])
  have hduration : (f (.real stage.duration)).toFloat = stage.duration :=
    h _ (by simp [Stage.numbers])
  simp [Stage.read, Stage.toJson, Json.mapNumbers, Json.mapItems, Json.real, Json.Source.triple,
    Json.readTriple, Json.Source.float, Json.readFloat, Curve.read_name, hvalue, hduration]

theorem mapM_read {α : Type} {f : Number → Number} {read : Kept → Decode α} {write : α → Json}
    {values : List α} (h : ∀ a ∈ values, read ⟨(write a).mapNumbers f⟩ = pure a) :
    (Json.mapItems f (values.map write)).mapM (fun json => read ⟨json⟩) = pure values := by
  induction values with
  | nil => rfl
  | cons a rest ih =>
      simp [Json.mapItems, h a (by simp), ih fun b hb => h b (by simp [hb])]

theorem Contour.firstFault_eq_none {stages : List Stage}
    (h : stages.all (fun stage => stage.fault.isNone) = true) (index : Nat) :
    Contour.firstFault index stages = none := by
  induction stages generalizing index with
  | nil => rfl
  | cons stage rest ih =>
      simp only [List.all_cons, Bool.and_eq_true, Option.isNone_iff_eq_none] at h
      simp [Contour.firstFault, h.1, ih h.2]

theorem Contour.ofStages_stages (contour : Contour) :
    Contour.ofStages contour.stages = .ok contour := by
  unfold Contour.ofStages
  split
  · next fault hfault =>
      rw [Contour.firstFault_eq_none contour.sound 0] at hfault
      contradiction
  · rfl

theorem Contour.read_toJson {f : Number → Number} (contour : Contour)
    (h : Restores f contour.numbers) :
    Contour.read (⟨contour.toJson.mapNumbers f⟩ : Kept) = pure contour := by
  have hstages : (Json.mapItems f (contour.stages.map Stage.toJson)).mapM
      (fun json => Stage.read (⟨json⟩ : Kept)) = pure contour.stages :=
    mapM_read fun stage hstage => Stage.read_toJson fun x hx =>
      h x (List.mem_flatMap.mpr ⟨stage, hstage, hx⟩)
  simp [Contour.read, Contour.toJson, Json.mapNumbers, Json.Source.list, hstages,
    Contour.ofStages_stages]

@[simp] theorem Json.Kept.float_number (n : Number) :
    Json.Source.float (⟨.number n⟩ : Kept) = pure n.toFloat := rfl

@[simp] theorem Json.Kept.bool_bool (b : Bool) :
    Json.Source.bool (⟨.bool b⟩ : Kept) = pure b := rfl

@[simp] theorem Json.Kept.text_string (s : String) :
    Json.Source.text (⟨.string s⟩ : Kept) = pure s := rfl

-- A value that is there is not taken for one that is left out.
theorem Json.Kept.read_some {α : Type} {read : Kept → Decode α} {d : Kept} {a : α}
    (hjson : d.json ≠ .null) (hread : read d = pure a) :
    Json.Source.option read d = pure (some a) := by
  obtain ⟨json⟩ := d
  cases json with
  | null => contradiction
  | _ => simp [Json.Source.option, hread]

theorem Patch.reading_json (json : Json) : (Patch.reading json).json = json := by
  cases json <;> rfl

-- A node given as an object is read from its other fields as soon as its kind is known.
theorem Patch.reading_typed {name : String} {fields : List (String × Json)}
    (hfields : "type" ∉ fields.map Prod.fst) :
    (Patch.reading (.object (("type", .string name) :: fields))).patch =
      Patch.Kind.ofJson (.string name) >>=
        (Patch.Content.fields (Patch.fieldReadings fields)).patch := by
  have hothers : ∀ entry ∈ Patch.fieldReadings fields, (entry.1 == Patch.kindKey) = false := by
    induction fields with
    | nil => simp [Patch.fieldReadings]
    | cons field rest ih =>
        simp only [List.map_cons, List.mem_cons, not_or] at hfields
        have hfield : field.1 ≠ Patch.kindKey := Ne.symm hfields.1
        simpa [Patch.fieldReadings, hfield] using ih hfields.2
  have hkinds : (Patch.fieldReadings fields).filter (fun entry => entry.1 == Patch.kindKey) = [] :=
    List.filter_eq_nil_iff.mpr fun entry hentry => by simp [hothers entry hentry]
  have hrest : (Patch.fieldReadings fields).filter (not ∘ fun entry => entry.1 == Patch.kindKey) =
      Patch.fieldReadings fields :=
    List.filter_eq_self.mpr fun entry hentry => by simp [hothers entry hentry]
  have hjson : (Patch.Reading.ofScalar (.string name)).json = .string name := rfl
  simp only [Patch.reading, Patch.Reading.ofFields, Patch.Reading.make,
    List.partition_eq_filter_filter, Patch.fieldReadings]
  simp [show "type" = Patch.kindKey from rfl, hkinds, hrest, hjson]

theorem Patch.reading_patches (items : List Json) :
    (Patch.reading (.array items)).patches = (Patch.readings items).mapM Patch.Reading.patch := by
  simp [Patch.reading, Patch.Reading.ofItems, Patch.Reading.make]

theorem Patch.toJson_object (patch : Patch) : ∃ fields, patch.toJson = .object fields := by
  cases patch <;> exact ⟨_, by rw [Patch.toJson]⟩

-- A node where a parameter is wanted is read as that node.
theorem Patch.reading_control {fields : List (String × Json)} {patch : Patch}
    (h : (Patch.reading (.object fields)).patch = pure patch) :
    (Patch.reading (.object fields)).control = pure (.node patch) := by
  have hcontrol : (Patch.reading (.object fields)).control =
      Patch.controlOf (.object fields) (Patch.reading (.object fields)).patch := rfl
  have hattempt : Decode.attempt (pure patch : Decode Patch) = pure (some patch) := rfl
  simp [hcontrol, h, Patch.controlOf, hattempt]

theorem Patch.reading_optionalControl {json : Json} (h : json ≠ .null) :
    (Patch.reading json).optionalControl = some <$> (Patch.reading json).control := by
  unfold Patch.Reading.optionalControl
  rw [Patch.reading_json]
  split
  · contradiction
  · rfl

theorem Control.mapNumbers_toJson_ne_null (f : Number → Number) (control : Control) :
    control.toJson.mapNumbers f ≠ .null := by
  cases control with
  | value x => simp [Control.toJson, Json.real, Json.mapNumbers]
  | node patch =>
      obtain ⟨fields, hfields⟩ := patch.toJson_object
      simp [Control.toJson, hfields, Json.mapNumbers]

section Kinds

-- A node is taken apart into its fields and these are given to the table of its kind.
attribute [local simp] Patch.numbers Patch.toJson Json.given Json.mapNumbers Json.mapFields
  Json.real Patch.fieldReadings Patch.Reading.kept Patch.reading_json Patch.reading_patches
  Patch.Content.patch Patch.Content.record Json.readEntries Json.firstMissing Json.Field.optional
  Json.Field.needed Json.Field.also Json.Field.answers Patch.controlField
  Patch.optionalControlField Patch.floatField Patch.boolField Control.optionToJson
  Control.optionNumbers Patch.kindKey Patch.reading_typed Patch.Kind.ofJson Json.chooseName
  Patch.Kind.names

mutual
theorem Patch.reading_toJson {f : Number → Number} : ∀ patch : Patch, Restores f patch.numbers →
    (Patch.reading (patch.toJson.mapNumbers f)).patch = pure patch
  | .connect route nodes, h => by
      have hnodes := Patch.readings_toJson nodes h
      simp [Patch.connectFields, Route.read_name, hnodes]
  | .gain level, h => by
      have hlevel := Control.reading_toJson level h
      simp [hlevel]
  | .oscillator waveform frequency detune, h => by
      have hfrequency := Control.reading_toJson frequency fun x hx => h x (by simp [hx])
      have hdetune := Control.readingOption_toJson detune fun x hx => h x (by simp [hx])
      cases detune <;>
        simp_all [Patch.oscillatorFields, Waveform.toJson, Waveform.read_name]
  | .biquadFilter type frequency q detune, h => by
      have hfrequency := Control.reading_toJson frequency fun x hx => h x (by simp [hx])
      have hq := Control.readingOption_toJson q fun x hx => h x (by simp [hx])
      have hdetune := Control.readingOption_toJson detune fun x hx => h x (by simp [hx])
      cases q <;> cases detune <;>
        simp_all [Patch.filterFields, FilterType.toJson, FilterType.read_name]
  | .envelope attack release, h => by
      have hattack := Contour.read_toJson attack fun x hx => h x (by simp [hx])
      cases release with
      | none => simp [Patch.envelopeFields, hattack]
      | some release =>
          have hread := Contour.read_toJson release fun x hx => h x (by simp [hx])
          have hrelease : Json.Source.option Contour.read
              (⟨release.toJson.mapNumbers f⟩ : Kept) = pure (some release) :=
            Json.Kept.read_some (by simp [Contour.toJson]) hread
          simp [Patch.envelopeFields, hattack, hrelease]
  | .delay time feedback, h => by
      have htime := Control.reading_toJson time fun x hx => h x (by simp [hx])
      cases feedback with
      | none => simp [Patch.delayFields, htime]
      | some feedback =>
          have hvalue : (f (.real feedback)).toFloat = feedback := h feedback (by simp)
          have hfeedback : Json.Source.option Json.Source.float
              (⟨.number (f (.real feedback))⟩ : Kept) = pure (some feedback) :=
            Json.Kept.read_some (by simp) (by simp [hvalue])
          simp [Patch.delayFields, htime, hfeedback]
  | .constant value, h => by
      have hvalue : (f (.real value)).toFloat = value := h value (by simp)
      simp [Patch.constantFields, hvalue]
  | .noise duration looping, h => by
      have hduration : (f (.real duration)).toFloat = duration := h duration (by simp)
      simp [Patch.noiseFields, hduration]
  | .convolver duration decay reverse, h => by
      have hduration : (f (.real duration)).toFloat = duration := h duration (by simp)
      cases decay with
      | none => simp [Patch.convolverFields, hduration]
      | some decay =>
          have hvalue : (f (.real decay)).toFloat = decay := h decay (by simp)
          have hdecay : Json.Source.option Json.Source.float
              (⟨.number (f (.real decay))⟩ : Kept) = pure (some decay) :=
            Json.Kept.read_some (by simp) (by simp [hvalue])
          simp [Patch.convolverFields, hduration, hdecay]
  | .memoize id node, h => by
      have hnode := Patch.reading_toJson node h
      simp [Patch.memoizeFields, hnode]
  | .destination, _ => by simp

theorem Patch.readings_toJson {f : Number → Number} : ∀ nodes : List Patch,
    Restores f (Patch.listNumbers nodes) →
    (Patch.readings (Json.mapItems f (Patch.listToJson nodes))).mapM Patch.Reading.patch = pure nodes
  | [], _ => rfl
  | patch :: rest, h => by
      have hpatch := Patch.reading_toJson patch fun x hx => h x (by simp [Patch.listNumbers, hx])
      have hrest := Patch.readings_toJson rest fun x hx => h x (by simp [Patch.listNumbers, hx])
      simp [Patch.listToJson, Json.mapItems, Patch.readings, hpatch, hrest]

theorem Control.reading_toJson {f : Number → Number} : ∀ control : Control,
    Restores f control.numbers →
    (Patch.reading (control.toJson.mapNumbers f)).control = pure control
  | .value x, h => by
      have hx : (f (.real x)).toFloat = x := h x (by simp [Control.numbers])
      simp [Control.toJson, Json.real, Json.mapNumbers, Patch.reading, Patch.Reading.ofScalar,
        Patch.Reading.make, Patch.controlOf, hx]
  | .node patch, h => by
      have hpatch := Patch.reading_toJson patch h
      obtain ⟨fields, hfields⟩ := patch.toJson_object
      rw [hfields, Json.mapNumbers] at hpatch
      rw [Control.toJson, hfields, Json.mapNumbers]
      exact Patch.reading_control hpatch

theorem Control.readingOption_toJson {f : Number → Number} : ∀ control : Option Control,
    Restores f (Control.optionNumbers control) → ∀ json ∈ Control.optionToJson control,
    (Patch.reading (json.mapNumbers f)).optionalControl = pure control
  | none, _ => by simp [Control.optionToJson]
  | some control, h => by
      rintro json hjson
      obtain rfl : control.toJson = json := by simpa [Control.optionToJson] using hjson
      rw [Patch.reading_optionalControl (control.mapNumbers_toJson_ne_null f),
        Control.reading_toJson control h]
      rfl
end

end Kinds

-- The normal form gives the kind first and once.
theorem Patch.toJson_typed (patch : Patch) : ∃ name kind fields,
    patch.toJson = .object (("type", .string name) :: fields) ∧
      Patch.Kind.ofJson (.string name) = pure kind ∧ "type" ∉ fields.map Prod.fst := by
  cases patch with
  | connect route nodes => exact ⟨_, .connect, _, by rw [Patch.toJson], rfl, by simp⟩
  | gain level => exact ⟨_, .gain, _, by rw [Patch.toJson], rfl, by simp⟩
  | oscillator waveform frequency detune =>
      refine ⟨_, .oscillator, _, by rw [Patch.toJson]; rfl, rfl, ?_⟩
      cases detune <;> simp [Json.given, Control.optionToJson]
  | biquadFilter type frequency q detune =>
      refine ⟨_, .biquadFilter, _, by rw [Patch.toJson]; rfl, rfl, ?_⟩
      cases q <;> cases detune <;> simp [Json.given, Control.optionToJson]
  | envelope attack release =>
      refine ⟨_, .envelope, _, by rw [Patch.toJson]; rfl, rfl, ?_⟩
      cases release <;> simp [Json.given]
  | delay time feedback =>
      refine ⟨_, .delay, _, by rw [Patch.toJson]; rfl, rfl, ?_⟩
      cases feedback <;> simp [Json.given]
  | constant value => exact ⟨_, .constant, _, by rw [Patch.toJson], rfl, by simp⟩
  | noise duration looping => exact ⟨_, .noise, _, by rw [Patch.toJson], rfl, by simp⟩
  | convolver duration decay reverse =>
      refine ⟨_, .convolver, _, by rw [Patch.toJson]; rfl, rfl, ?_⟩
      cases decay <;> simp [Json.given]
  | memoize id node => exact ⟨_, .memoize, _, by rw [Patch.toJson], rfl, by simp⟩
  | destination => exact ⟨_, .destination, _, by rw [Patch.toJson], rfl, by simp⟩

theorem Json.names_mapFields (f : Number → Number) (fields : List (String × Json)) :
    (Json.mapFields f fields).map Prod.fst = fields.map Prod.fst := by
  induction fields with
  | nil => rfl
  | cons field rest ih => simp [Json.mapFields, ih]

-- Fields that no row of the table answers are set aside in their order.
theorem Json.Fields.entries_setAside {α : Type} {table : List (Field Doc α)} {seen : List String}
    (hseen : Json.firstMissing table seen = none) {fields : Json.Fields}
    {entries : List (String × Json)} (hkeep : fields.keep = .ok entries)
    (hother : ∀ key ∈ entries.map Prod.fst, table.find? (Field.answers key) = none) (draft : α)
    (others : List (String × Json)) :
    ∃ mark, fields.entries table Json.setAside seen draft others =
      pure (draft, others ++ entries, mark) := by
  induction entries generalizing fields others with
  | nil =>
      obtain ⟨stop, rfl⟩ := Json.Fields.closed_of_keep hkeep
      refine ⟨stop, ?_⟩
      rw [Json.Fields.entries]
      · simp [Json.Fields.ending, Decode.refuse, hseen, Json.Fields.mark]
      · simp
  | cons entry entries ih =>
      obtain ⟨key, json⟩ := entry
      obtain ⟨comma, name, settled, value, rest, rfl, hname, hvalue, hrest⟩ :=
        Json.Fields.field_of_keep hkeep
      have hkey : table.find? (Field.answers key) = none := hother key (by simp)
      obtain ⟨mark, hmark⟩ := ih hrest (fun other h => hother other (by simp [h]))
        (others ++ [(key, json)])
      refine ⟨mark, ?_⟩
      rw [Json.Fields.entries, hname]
      simp [Json.liftExcept, hkey, Decode.refuse, Json.setAside, hvalue, Except.map, hmark]

theorem Patch.readDoc_object {doc : Doc} {name : String} {kind : Patch.Kind}
    {fields : List (String × Json)}
    (hkeep : doc.keep = .ok (.object (("type", .string name) :: fields)))
    (hkind : Patch.Kind.ofJson (.string name) = pure kind)
    (hfields : "type" ∉ fields.map Prod.fst) :
    Patch.readDoc doc = (Patch.Content.fields (Patch.fieldReadings fields)).patch kind := by
  obtain ⟨start, level, read, rfl, hlevel, hread⟩ := Json.Doc.bears_of_keep hkeep
  obtain ⟨comma, key, settled, value, rest, rfl, hkey, hvalue, hrest⟩ :=
    Json.Fields.field_of_keep hread
  obtain ⟨lexeme, rfl, hname⟩ := Json.Doc.bears_of_keep hvalue
  let row : Field Doc Patch.Kind := .needed Patch.kindKey Patch.Kind.ofText fun kind _ => kind
  have hanswers : Field.answers "type" row = true := rfl
  have hread : Decode.placed rest.mark (row.read (.string lexeme)) = pure fun _ => kind := by
    have hchoice : Json.chooseName Patch.Kind.names name = pure kind := hkind
    simp only [row, Field.needed, Patch.Kind.ofText, hname, Json.liftExcept, pure_bind, hchoice]
    rfl
  have hother : ∀ key ∈ fields.map Prod.fst, [row].find? (Field.answers key) = none := by
    intro key hmem
    have hne : "type" ≠ key := fun h => hfields (h ▸ hmem)
    simp [row, Field.needed, Field.answers, Patch.kindKey, hne]
  have hseen : Json.firstMissing [row] [row.name] = none := by simp [Json.firstMissing]
  obtain ⟨mark, hmark⟩ := Json.Fields.entries_setAside hseen hrest hother kind []
  have hguard : Json.guardDepth start level = pure () := by
    simp [Json.guardDepth, Nat.not_lt.mpr hlevel]
  have hentries : (Json.Fields.field comma key settled none (.string lexeme) rest).entries [row]
      Json.setAside [] .destination [] = pure (kind, fields, mark) := by
    rw [Json.Fields.entries, hkey]
    simpa [Json.liftExcept, hanswers, Decode.refuse, hread] using hmark
  simp only [Patch.readDoc, hguard, pure_bind]
  rw [hentries, pure_bind]

-- A text whose numbers all read back is kept as the value that was written.
theorem Json.kept_render {json : Json} {numbers : List Float}
    (hnumbers : json.numbers = numbers.map .real)
    (hread : ∀ x ∈ numbers, Json.floatOf? (Json.renderNumber (.real x)) = some x)
    (hdepth : json.depth ≤ Json.depthLimit) :
    Restores Json.reread numbers ∧
      (Json.scan json.render).root.keep = .ok (json.mapNumbers Json.reread) ∧
      (Json.scan json.render).trailing = none := by
  have hreadable : ∀ n ∈ json.numbers, Json.Readable n := by
    intro n hn
    rw [hnumbers, List.mem_map] at hn
    obtain ⟨x, hx, rfl⟩ := hn
    obtain ⟨n, hfound, -⟩ := Option.map_eq_some_iff.mp (hread x hx)
    exact Option.isSome_iff_exists.mpr ⟨n, hfound⟩
  have hrestores : Restores Json.reread numbers := by
    intro x hx
    obtain ⟨n, hfound, hx⟩ := Option.map_eq_some_iff.mp (hread x hx)
    simpa [Json.reread, hfound] using hx
  exact ⟨hrestores, Json.ofText_eq_ok_iff.mp (Json.ofText_render hreadable hdepth)⟩

-- A text that is kept as the written form of a patch is read as that patch.
theorem Patch.ofText_of_kept {f : Number → Number} {patch : Patch} {text : String}
    (hrestores : Restores f patch.numbers)
    (hkeep : (Json.scan text).root.keep = .ok (patch.toJson.mapNumbers f))
    (htrailing : (Json.scan text).trailing = none) : Patch.ofText text = pure patch := by
  obtain ⟨name, kind, fields, htyped, hkind, hfields⟩ := patch.toJson_typed
  have hpatch := Patch.reading_toJson patch hrestores
  have hjson : patch.toJson.mapNumbers f =
      .object (("type", .string name) :: Json.mapFields f fields) := by
    rw [htyped, Json.mapNumbers, Json.mapFields, Json.mapNumbers]
  rw [hjson] at hkeep hpatch
  have hdoc := Patch.readDoc_object hkeep hkind (by rwa [Json.names_mapFields])
  rw [Patch.reading_typed (by rwa [Json.names_mapFields]), hkind, pure_bind] at hpatch
  simp only [Patch.ofText, Json.wholeText, hdoc, hpatch, pure_bind, htrailing]

theorem Patch.ofText_render {patch : Patch}
    (hread : ∀ x ∈ patch.numbers, Json.floatOf? (Json.renderNumber (.real x)) = some x)
    (hdepth : patch.toJson.depth ≤ Json.depthLimit) : Patch.ofText patch.render = pure patch := by
  obtain ⟨hrestores, hkeep, htrailing⟩ := Json.kept_render patch.numbers_toJson hread hdepth
  exact Patch.ofText_of_kept hrestores hkeep htrailing

-- Whatever was warned of before, reading back what was written gives the patch and warns of
-- nothing.
theorem Patch.reads_back {patch : Patch} (finite : ∀ x ∈ patch.numbers, x.isFinite = true)
    (format : ∀ x ∈ patch.numbers, x.isFinite = true →
      Json.floatOf? (Json.renderNumber (.real x)) = some x)
    (nesting : patch.toJson.depth ≤ Json.depthLimit) (warnings : List Warning) :
    (Patch.ofText patch.render).run warnings = .ok patch warnings := by
  rw [Patch.ofText_render (fun x hx => format x hx (finite x hx)) nesting]
  rfl

def vibratoPatch : Patch :=
  .connect .parallel [
    .oscillator .sawtooth (.node (.gain (.node (.constant 5.5)))) (some (.value (-12))),
    .biquadFilter .highpass (.value 1e21) (some (.value 0.1)) none,
    .envelope ⟨[.set 0, .linear 1 0.01, .exponential 0.0001 3], by decide +kernel⟩ (some .empty),
    .convolver 2 (some 0.5) true,
    .memoize "a\"\\\n\x01é" (.connect .serial [.delay (.value 0.25) none, .destination])]

theorem Patch.vibrato_reads_back :
    (∀ x ∈ vibratoPatch.numbers, x.isFinite = true) ∧
      (∀ x ∈ vibratoPatch.numbers, x.isFinite = true →
        Json.floatOf? (Json.renderNumber (.real x)) = some x) ∧
      vibratoPatch.toJson.depth ≤ Json.depthLimit ∧
      (Patch.ofText vibratoPatch.render).run [] = .ok vibratoPatch [] := by
  have finite : ∀ x ∈ vibratoPatch.numbers, x.isFinite = true := by decide +kernel
  have format : ∀ x ∈ vibratoPatch.numbers, x.isFinite = true →
      Json.floatOf? (Json.renderNumber (.real x)) = some x := by decide +kernel
  have nesting : vibratoPatch.toJson.depth ≤ Json.depthLimit := by decide +kernel
  exact ⟨finite, format, nesting, Patch.reads_back finite format nesting []⟩

end Patchbay
