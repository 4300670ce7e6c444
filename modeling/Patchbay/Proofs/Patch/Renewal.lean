import Patchbay.Error
import Patchbay.Proofs.Patch.Bounds
import Patchbay.Proofs.Decimal.RoundTrip

namespace Patchbay

open Json (Decode Doc Field Fields Items)

namespace Json

theorem ok_of_liftExcept {α : Type} {result : Except Fault α} {a : α} {w w' : List Warning}
    (h : (liftExcept result).run w = .ok a w') : result = .ok a := by
  cases result with
  | ok b =>
      obtain ⟨rfl, -⟩ := EStateM.Result.ok.inj h
      rfl
  | error fault => cases h

theorem ok_of_placed {α : Type} {read : Decode α} {offset : Nat} {a : α} {w w' : List Warning}
    (h : (Decode.placed offset read).run w = .ok a w') : read.run w = .ok a w' := by
  change Decode.placed offset read w = .ok a w' at h
  unfold Decode.placed at h
  split at h
  · next hread => exact hread.trans h
  · cases h

theorem le_of_guardDepth {start level : Nat} {w w' : List Warning} {u : Unit}
    (h : (guardDepth start level).run w = .ok u w') : level ≤ depthLimit := by
  unfold guardDepth at h
  split at h
  · cases h
  · next hlevel => exact Nat.not_lt.1 hlevel

theorem Doc.keep_array {start level : Nat} {items : Items} {kept : List Json}
    (hlevel : level ≤ depthLimit) (h : items.keep = .ok kept) :
    (Doc.array start level items).keep = .ok (.array kept) := by
  rw [Doc.keep, if_neg (Nat.not_lt.2 hlevel), h]
  rfl

theorem Doc.keep_object {start level : Nat} {fields : Fields} {kept : List (String × Json)}
    (hlevel : level ≤ depthLimit) (h : fields.keep = .ok kept) :
    (Doc.object start level fields).keep = .ok (.object kept) := by
  rw [Doc.keep, if_neg (Nat.not_lt.2 hlevel), h]
  rfl

theorem none_of_refuse {fault : Option Fault} {w w' : List Warning} {u : Unit}
    (h : (Decode.refuse fault).run w = .ok u w') : fault = none := by
  cases fault with
  | none => rfl
  | some fault => cases h

-- A table whose readers take whole values only.
def TakesWhole {α : Type} (table : List (Field Doc α)) : Prop :=
  ∀ field ∈ table, ∀ doc, (field.read doc).Yields fun _ => ∃ json, doc.keep = .ok json

section Entries

variable {α : Type} {table : List (Field Doc α)} {seen : List String} {draft a : α}
  {others found : List (String × Json)} {mark : Nat} {w w' : List Warning}

theorem Fields.keep_of_end {fields : Fields} (hend : fields.isEnd = true)
    (h : (fields.entries table setAside seen draft others).run w = .ok (a, found, mark) w') :
    fields.keep = .ok [] ∧ found = others := by
  have hnone : ∀ comma name settled colon value rest,
      fields = .field comma name settled colon value rest → False := by
    rintro _ _ _ _ _ _ rfl
    cases hend
  rw [Fields.entries.eq_2 _ _ _ _ _ _ hnone] at h
  obtain ⟨u, w₁, hrefuse, h⟩ := Decode.ok_of_bind h
  have hending := none_of_refuse hrefuse
  split at h
  · cases h
  · obtain ⟨⟨⟩, rfl⟩ := EStateM.Result.ok.inj h
    cases fields with
    | closed stop => exact ⟨rfl, rfl⟩
    | field comma name settled colon value rest => cases hend
    | _ => cases hending

theorem Fields.keep_field {comma settled : Nat} {name : Lexeme String} {colon : Option Fault}
    {value : Doc} {rest : Fields} {key : String} {json : Json} {kept : List (String × Json)}
    (hname : name.value = .ok key) (hcolon : colon = none) (hvalue : value.keep = .ok json)
    (hrest : rest.keep = .ok kept) :
    (Fields.field comma name settled colon value rest).keep = .ok ((key, json) :: kept) := by
  rw [Fields.keep, hname, hcolon, hvalue, hrest]
  rfl

-- Where these are read in place, all fields are kept.
theorem Fields.keep_of_entries (htable : TakesWhole table) : ∀ (fields : Fields)
    {seen : List String} {draft a : α} {others found : List (String × Json)} {mark : Nat}
    {w w' : List Warning},
    (fields.entries table setAside seen draft others).run w = .ok (a, found, mark) w' →
    ∃ kept, fields.keep = .ok kept ∧ ∀ entry ∈ found, entry ∈ others ∨ entry ∈ kept
  | .field comma name settled colon value rest, seen, draft, a, others, found, mark, w, w', h => by
      rw [Fields.entries] at h
      obtain ⟨key, w₁, hkey, h⟩ := Decode.ok_of_bind h
      have hname := ok_of_liftExcept hkey
      split at h
      · obtain ⟨u, w₂, hrefuse, h⟩ := Decode.ok_of_bind h
        have hcolon := none_of_refuse hrefuse
        obtain ⟨json?, w₃, haside, h⟩ := Decode.ok_of_bind h
        obtain ⟨json, hvalue, rfl⟩ : ∃ json, value.keep = .ok json ∧ json? = some json := by
          have haside := ok_of_liftExcept haside
          unfold setAside at haside
          cases hvalue : value.keep with
          | ok json =>
              rw [hvalue] at haside
              exact ⟨json, rfl, (Except.ok.inj haside).symm⟩
          | error fault =>
              rw [hvalue] at haside
              cases haside
        obtain ⟨kept, hrest, hfound⟩ := Fields.keep_of_entries htable rest h
        refine ⟨(key, json) :: kept, Fields.keep_field hname hcolon hvalue hrest, ?_⟩
        intro entry hentry
        rcases hfound entry hentry with hothers | hkept
        · rcases List.mem_append.1 hothers with hothers | hthis
          · exact .inl hothers
          · obtain rfl := List.mem_singleton.1 hthis
            exact .inr List.mem_cons_self
        · exact .inr (List.mem_cons_of_mem _ hkept)
      · next wanted hwanted =>
          split at h
          · cases h
          · obtain ⟨u, w₂, hrefuse, h⟩ := Decode.ok_of_bind h
            have hcolon := none_of_refuse hrefuse
            obtain ⟨set, w₃, hread, h⟩ := Decode.ok_of_bind h
            obtain ⟨json, hvalue⟩ := htable wanted (List.mem_of_find?_eq_some hwanted) value _ _ _
              (ok_of_placed hread)
            obtain ⟨kept, hrest, hfound⟩ := Fields.keep_of_entries htable rest h
            refine ⟨(key, json) :: kept, Fields.keep_field hname hcolon hvalue hrest, ?_⟩
            exact fun entry hentry => (hfound entry hentry).imp_right (List.mem_cons_of_mem _)
  | .closed stop, _, _, _, _, _, _, _, _, h => keep_of_last rfl h
  | .unclosed start, _, _, _, _, _, _, _, _, h => keep_of_last rfl h
  | .stray start, _, _, _, _, _, _, _, _, h => keep_of_last rfl h
  | .dangling comma start ended, _, _, _, _, _, _, _, _, h => keep_of_last rfl h
  | .nameless comma start, _, _, _, _, _, _, _, _, h => keep_of_last rfl h
where
  keep_of_last {fields : Fields} (hend : fields.isEnd = true) {seen : List String} {draft a : α}
      {others found : List (String × Json)} {mark : Nat} {w w' : List Warning}
      (h : (fields.entries table setAside seen draft others).run w = .ok (a, found, mark) w') :
      ∃ kept, fields.keep = .ok kept ∧ ∀ entry ∈ found, entry ∈ others ∨ entry ∈ kept := by
    obtain ⟨hkeep, rfl⟩ := Fields.keep_of_end hend h
    exact ⟨[], hkeep, fun entry hentry => .inl hentry⟩

end Entries

end Json

namespace Patch

open Json

theorem Kind.yields_ofText (doc : Doc) :
    (Kind.ofText doc).Yields fun _ => ∃ name, doc.keep = .ok (.string name) := by
  intro w kind w' h
  cases doc with
  | string lexeme =>
      obtain ⟨name, w₁, hname, -⟩ := Decode.ok_of_bind h
      refine ⟨name, ?_⟩
      rw [Doc.keep, ok_of_liftExcept hname]
      rfl
  | _ => cases h

def kindTable : List (Field Doc Kind) := [.needed kindKey Kind.ofText fun kind _ => kind]

theorem takesWhole_kindTable : TakesWhole kindTable := by
  intro field hfield doc
  obtain rfl := List.mem_singleton.1 hfield
  exact (Kind.yields_ofText doc).map fun _ ⟨name, hname⟩ => ⟨_, hname⟩

-- The next item is there if the reader of a kind has found one.
theorem next_of_ok {items rest : Items} {kind : Kind} {w w' : List Warning}
    (h : (items.next Kind.ofText).run w = .ok (some kind, rest) w') :
    ∃ name, ∀ kept, rest.keep = .ok kept → items.keep = .ok (.string name :: kept) := by
  cases items with
  | item start value more =>
      obtain ⟨found, w₁, hvalue, h⟩ := Decode.ok_of_bind h
      obtain ⟨⟨⟩, -⟩ := EStateM.Result.ok.inj h
      obtain ⟨name, hname⟩ := Kind.yields_ofText value _ _ _ (ok_of_placed hvalue)
      refine ⟨name, fun kept hkept => ?_⟩
      rw [Items.keep, hname, hkept]
      rfl
  | _ =>
      obtain ⟨u, w₁, -, h⟩ := Decode.ok_of_bind h
      cases h

-- What is read as a patch is kept as a value, and the patch adds at most one container to it.
theorem within_of_readDoc {doc : Doc} {patch : Patch} {w w' : List Warning} (hdoc : doc.Bounded)
    (h : (readDoc doc).run w = .ok patch w') :
    ∃ json, doc.keep = .ok json ∧ patch.toJson.Within (json.depth + 1) := by
  cases doc with
  | array start level items =>
      obtain ⟨u, w₁, hguard, h⟩ := Decode.ok_of_bind h
      have hlevel := le_of_guardDepth hguard
      obtain ⟨⟨kind?, rest⟩, w₂, hnext, h⟩ := Decode.ok_of_bind h
      cases kind? with
      | none => cases h
      | some kind =>
          obtain ⟨others, w₃, hothers, h⟩ := Decode.ok_of_bind h
          obtain ⟨name, hitems⟩ := next_of_ok hnext
          have hkeep : (Doc.array start level items).keep = .ok (.array (.string name :: others)) :=
            Doc.keep_array hlevel (hitems others (ok_of_liftExcept hothers))
          have hjson : (Json.array (.string name :: others)).Within
              (depthItems (.string name :: others) + 1) := ⟨hdoc _ hkeep, Nat.le_refl _⟩
          rw [within_array, List.forall_mem_cons] at hjson
          have hcontent : (Content.items (readings others)).All (Reading.Admits _) :=
            admits_readings others _ hjson.2
          exact ⟨_, hkeep, yields_patch hcontent kind _ _ _ h⟩
  | object start level fields =>
      obtain ⟨u, w₁, hguard, h⟩ := Decode.ok_of_bind h
      have hlevel := le_of_guardDepth hguard
      obtain ⟨⟨kind, others, mark⟩, w₂, hentries, h⟩ := Decode.ok_of_bind h
      obtain ⟨kept, hfields, hothers⟩ := Fields.keep_of_entries takesWhole_kindTable fields hentries
      have hkeep : (Doc.object start level fields).keep = .ok (.object kept) :=
        Doc.keep_object hlevel hfields
      have hjson : (Json.object kept).Within (depthFields kept + 1) := ⟨hdoc _ hkeep, Nat.le_refl _⟩
      have hcontent : (Content.fields (fieldReadings others)).All (Reading.Admits _) :=
        admits_fieldReadings others _ fun entry hentry =>
          within_object.1 hjson entry ((hothers entry hentry).resolve_left (nomatch ·))
      exact ⟨_, hkeep, yields_patch hcontent kind _ _ _ h⟩
  | _ => cases h

theorem within_of_ofText {source : String} {patch : Patch} {w w' : List Warning}
    (h : (ofText source).run w = .ok patch w') :
    ∃ json, Json.ofText source = .ok json ∧ patch.toJson.Within (json.depth + 1) := by
  obtain ⟨found, w₁, hread, h⟩ := Decode.ok_of_bind h
  obtain ⟨⟨root, rest, stop⟩, hvalue⟩ : ∃ value,
    scanValue (3 * source.toList.length + 3) 0 source.toList 0 = value := ⟨_, rfl⟩
  have hroot : (scan source).root = root := (scan_of_scanValue hvalue).1
  have hbounded : (scan source).root.Bounded := by
    have hscans := (scansBounded (3 * source.toList.length + 3)).value 0 source.toList 0
    rw [hvalue] at hscans
    exact hroot ▸ hscans
  obtain ⟨json, hkeep, hjson⟩ := within_of_readDoc hbounded hread
  split at h
  · cases h
  · next htrailing =>
      obtain ⟨rfl, -⟩ := EStateM.Result.ok.inj h
      exact ⟨json, Json.ofText_eq_ok_iff.2 ⟨hkeep, htrailing⟩, hjson⟩

end Patch

namespace Json

mutual
theorem mapNumbers_id : ∀ json : Json, json.mapNumbers id = json
  | .number _ => rfl
  | .array items => congrArg Json.array (mapItems_id items)
  | .object fields => congrArg Json.object (mapFields_id fields)
  | .null => rfl
  | .bool _ => rfl
  | .string _ => rfl

theorem mapItems_id : ∀ items : List Json, mapItems id items = items
  | [] => rfl
  | item :: rest => congrArg₂ List.cons (mapNumbers_id item) (mapItems_id rest)

theorem mapFields_id : ∀ fields : List (String × Json), mapFields id fields = fields
  | [] => rfl
  | (name, value) :: rest =>
      congrArg₂ List.cons (congrArg (Prod.mk name) (mapNumbers_id value)) (mapFields_id rest)
end

end Json

-- Each number is read back as one that its place admits.
theorem Json.exists_reread {x : Float} (h : x.isFinite = true) :
    ∃ y, Json.reread (.real x) = .real y ∧ y.isFinite = true ∧ (y < 0 → x < 0) := by
  obtain ⟨y, hy, hfinite, hsign⟩ := Json.reprints_finite h
  refine ⟨y, ?_, hfinite, hsign⟩
  rw [Json.reread, hy, Option.getD_some]

theorem Stage.exists_again {stage : Stage} (h : stage.fault = none) :
    ∃ again : Stage, again.fault = none ∧ again.toJson = stage.toJson.mapNumbers Json.reread := by
  obtain ⟨hvalue, hduration, hsign⟩ := Stage.fault_eq_none_iff.1 h
  obtain ⟨value, hx, hfinite, -⟩ := Json.exists_reread hvalue
  obtain ⟨duration, hy, hfinite', hsign'⟩ := Json.exists_reread hduration
  refine ⟨⟨stage.curve, value, duration⟩,
    Stage.fault_eq_none_iff.2 ⟨hfinite, hfinite', hsign ∘ hsign'⟩, ?_⟩
  simp [Stage.toJson, Json.real, Json.mapNumbers, Json.mapItems, hx, hy]

theorem Stage.exists_all_again {stages : List Stage} (h : ∀ stage ∈ stages, stage.fault = none) :
    ∃ again : List Stage, (∀ stage ∈ again, stage.fault = none) ∧
      again.map Stage.toJson = Json.mapItems Json.reread (stages.map Stage.toJson) := by
  induction stages with
  | nil => exact ⟨[], h, rfl⟩
  | cons stage rest ih =>
      rw [List.forall_mem_cons] at h
      obtain ⟨first, hfirst, hjson⟩ := Stage.exists_again h.1
      obtain ⟨more, hmore, hjsons⟩ := ih h.2
      refine ⟨first :: more, List.forall_mem_cons.2 ⟨hfirst, hmore⟩, ?_⟩
      rw [List.map_cons, List.map_cons, Json.mapItems, hjson, hjsons]

theorem Contour.exists_again (contour : Contour) :
    ∃ again : Contour, again.toJson = contour.toJson.mapNumbers Json.reread := by
  have hsound : ∀ stage ∈ contour.stages, stage.fault = none := fun stage hstage =>
    Option.isNone_iff_eq_none.1 (List.all_eq_true.1 contour.sound stage hstage)
  obtain ⟨stages, hstages, hjson⟩ := Stage.exists_all_again hsound
  have hall : stages.all (fun stage => stage.fault.isNone) = true :=
    List.all_eq_true.2 fun stage hstage => Option.isNone_iff_eq_none.2 (hstages stage hstage)
  exact ⟨⟨stages, hall⟩, congrArg Json.array hjson⟩

theorem Json.mapFields_append (f : Number → Number) (fields more : List (String × Json)) :
    Json.mapFields f (fields ++ more) = Json.mapFields f fields ++ Json.mapFields f more := by
  induction fields with
  | nil => rfl
  | cons field rest ih => simp [Json.mapFields, ih]

theorem Json.mapFields_given (f : Number → Number) (name : String) (value : Option Json) :
    Json.mapFields f (Json.given name value) = Json.given name (value.map (Json.mapNumbers f)) := by
  cases value <;> rfl

theorem Contour.exists_option_again (contour : Option Contour) : ∃ again : Option Contour,
    again.map Contour.toJson = (contour.map Contour.toJson).map (Json.mapNumbers Json.reread) := by
  cases contour with
  | none => exact ⟨none, rfl⟩
  | some contour =>
      obtain ⟨again, hagain⟩ := Contour.exists_again contour
      exact ⟨some again, congrArg some hagain⟩

theorem Json.exists_option_reread {x : Option Float} (h : ∀ a ∈ x, a.isFinite = true) :
    ∃ y : Option Float, y.map Json.real = (x.map Json.real).map (Json.mapNumbers Json.reread) := by
  cases x with
  | none => exact ⟨none, rfl⟩
  | some a =>
      obtain ⟨b, hb, -⟩ := Json.exists_reread (h a rfl)
      exact ⟨some b, by simp [Json.real, Json.mapNumbers, hb]⟩

-- A patch that is written with each of its numbers read back.
section Again

open Json (reread)

attribute [local simp] Patch.toJson Json.mapNumbers Json.mapFields Json.real Patch.numbers
  Json.mapFields_append Json.mapFields_given

mutual
theorem Patch.exists_again : ∀ patch : Patch, (∀ x ∈ patch.numbers, x.isFinite = true) →
    ∃ again : Patch, again.toJson = patch.toJson.mapNumbers reread
  | .connect route nodes, h => by
      obtain ⟨nodes, hnodes⟩ := Patch.exists_list_again nodes h
      exact ⟨.connect route nodes, by simp [hnodes]⟩
  | .gain level, h => by
      obtain ⟨level, hlevel⟩ := Control.exists_again level h
      exact ⟨.gain level, by simp [hlevel]⟩
  | .oscillator waveform frequency detune, h => by
      obtain ⟨frequency, hfrequency⟩ := Control.exists_again frequency fun x hx =>
        h x (by simp [hx])
      obtain ⟨detune, hdetune⟩ := Control.exists_option_again detune fun x hx => h x (by simp [hx])
      exact ⟨.oscillator waveform frequency detune, by simp [Waveform.toJson, hfrequency, hdetune]⟩
  | .biquadFilter type frequency q detune, h => by
      obtain ⟨frequency, hfrequency⟩ := Control.exists_again frequency fun x hx =>
        h x (by simp [hx])
      obtain ⟨q, hq⟩ := Control.exists_option_again q fun x hx => h x (by simp [hx])
      obtain ⟨detune, hdetune⟩ := Control.exists_option_again detune fun x hx => h x (by simp [hx])
      exact ⟨.biquadFilter type frequency q detune,
        by simp [FilterType.toJson, hfrequency, hq, hdetune]⟩
  | .envelope attack release, _ => by
      obtain ⟨attack, hattack⟩ := Contour.exists_again attack
      obtain ⟨release, hrelease⟩ := Contour.exists_option_again release
      exact ⟨.envelope attack release, by simp [hattack, hrelease, -Option.map_map]⟩
  | .delay time feedback, h => by
      obtain ⟨time, htime⟩ := Control.exists_again time fun x hx => h x (by simp [hx])
      have hsome : ∀ x ∈ feedback, x.isFinite = true := fun x hx =>
        h x (by simp [Option.mem_def.1 hx])
      obtain ⟨feedback, hfeedback⟩ := Json.exists_option_reread hsome
      exact ⟨.delay time feedback, by simp [htime, hfeedback, -Option.map_map]⟩
  | .constant value, h => by
      obtain ⟨value, hvalue, -⟩ := Json.exists_reread (h value (by simp))
      exact ⟨.constant value, by simp [hvalue]⟩
  | .noise duration looping, h => by
      obtain ⟨duration, hduration, -⟩ := Json.exists_reread (h duration (by simp))
      exact ⟨.noise duration looping, by simp [hduration]⟩
  | .convolver duration decay reverse, h => by
      obtain ⟨duration, hduration, -⟩ := Json.exists_reread (h duration (by simp))
      have hsome : ∀ x ∈ decay, x.isFinite = true := fun x hx =>
        h x (by simp [Option.mem_def.1 hx])
      obtain ⟨decay, hdecay⟩ := Json.exists_option_reread hsome
      exact ⟨.convolver duration decay reverse, by simp [hduration, hdecay, -Option.map_map]⟩
  | .memoize id node, h => by
      obtain ⟨node, hnode⟩ := Patch.exists_again node h
      exact ⟨.memoize id node, by simp [hnode]⟩
  | .destination, _ => ⟨.destination, by simp⟩

theorem Patch.exists_list_again : ∀ nodes : List Patch,
    (∀ x ∈ Patch.listNumbers nodes, x.isFinite = true) →
    ∃ again : List Patch, Patch.listToJson again = Json.mapItems reread (Patch.listToJson nodes)
  | [], _ => ⟨[], rfl⟩
  | node :: rest, h => by
      obtain ⟨node, hnode⟩ := Patch.exists_again node fun x hx =>
        h x (by simp [Patch.listNumbers, hx])
      obtain ⟨rest, hrest⟩ := Patch.exists_list_again rest fun x hx =>
        h x (by simp [Patch.listNumbers, hx])
      exact ⟨node :: rest, by simp [Patch.listToJson, Json.mapItems, hnode, hrest]⟩

theorem Control.exists_again : ∀ control : Control, (∀ x ∈ control.numbers, x.isFinite = true) →
    ∃ again : Control, again.toJson = control.toJson.mapNumbers reread
  | .value x, h => by
      obtain ⟨y, hy, -⟩ := Json.exists_reread (h x (by simp [Control.numbers]))
      exact ⟨.value y, by simp [Control.toJson, hy]⟩
  | .node patch, h => by
      obtain ⟨patch, hpatch⟩ := Patch.exists_again patch h
      exact ⟨.node patch, hpatch⟩

theorem Control.exists_option_again : ∀ control : Option Control,
    (∀ x ∈ Control.optionNumbers control, x.isFinite = true) →
    ∃ again : Option Control, Control.optionToJson again =
      (Control.optionToJson control).map (Json.mapNumbers reread)
  | none, _ => ⟨none, rfl⟩
  | some control, h => by
      obtain ⟨control, hcontrol⟩ := Control.exists_again control h
      exact ⟨some control, congrArg some hcontrol⟩
end

end Again

end Patchbay
