import Patchbay.Proofs.Decimal.Numeral
import Patchbay.Proofs.Json.RoundTrip

namespace Patchbay.Json

-- All numbers of a value are finite, whichever way they are read.
def Finite (json : Json) : Prop := ∀ n ∈ json.numbers, n.toFloat.isFinite = true

theorem finite_array {items : List Json} : Finite (.array items) ↔ ∀ item ∈ items, Finite item := by
  unfold Finite
  simp only [numbers]
  induction items with
  | nil => simp [numbersItems]
  | cons item rest ih => simp [numbersItems, or_imp, forall_and, ih]

theorem finite_object {fields : List (String × Json)} :
    Finite (.object fields) ↔ ∀ field ∈ fields, Finite field.2 := by
  unfold Finite
  simp only [numbers]
  induction fields with
  | nil => simp [numbersFields]
  | cons field rest ih => simp [numbersFields, or_imp, forall_and, ih]

-- What is kept of a part of the text has finite numbers only.
def Doc.Bounded (doc : Doc) : Prop := ∀ json, doc.keep = .ok json → json.Finite

def Items.Bounded (items : Items) : Prop :=
  ∀ kept, items.keep = .ok kept → ∀ item ∈ kept, item.Finite

def Fields.Bounded (fields : Fields) : Prop :=
  ∀ kept, fields.keep = .ok kept → ∀ field ∈ kept, field.2.Finite

theorem Doc.bounded_of_parts {doc : Doc}
    (hnumber : ∀ lexeme n, doc = .number lexeme → lexeme.value = .ok n → n.toFloat.isFinite = true)
    (harray : ∀ start level items, doc = .array start level items → items.Bounded)
    (hobject : ∀ start level fields, doc = .object start level fields → fields.Bounded) :
    doc.Bounded := by
  intro json hkeep
  have hbears := Doc.bears_of_keep hkeep
  cases json with
  | null => exact fun n hn => nomatch hn
  | bool b => exact fun n hn => nomatch hn
  | string s => exact fun n hn => nomatch hn
  | number n =>
      obtain ⟨lexeme, hdoc, hvalue⟩ := hbears
      intro m hm
      obtain rfl := List.mem_singleton.1 hm
      exact hnumber lexeme m hdoc hvalue
  | array kept =>
      obtain ⟨start, level, items, hdoc, -, hitems⟩ := hbears
      exact finite_array.2 (harray start level items hdoc kept hitems)
  | object kept =>
      obtain ⟨start, level, fields, hdoc, -, hfields⟩ := hbears
      exact finite_object.2 (hobject start level fields hdoc kept hfields)

-- Whether it holds no number and no other value.
def Doc.isPlain : Doc → Bool
  | .number _ | .array _ _ _ | .object _ _ _ => false
  | _ => true

theorem Doc.bounded_plain {doc : Doc} (h : doc.isPlain = true) : doc.Bounded := by
  refine Doc.bounded_of_parts ?_ ?_ ?_
  · rintro lexeme n rfl
    cases h
  · rintro start level items rfl
    cases h
  · rintro start level fields rfl
    cases h

theorem Doc.bounded_array {start level : Nat} {items : Items} (h : items.Bounded) :
    (Doc.array start level items).Bounded := by
  refine Doc.bounded_of_parts (fun _ _ h => nomatch h) ?_ fun _ _ _ h => nomatch h
  rintro _ _ _ ⟨⟩
  exact h

theorem Doc.bounded_object {start level : Nat} {fields : Fields} (h : fields.Bounded) :
    (Doc.object start level fields).Bounded := by
  refine Doc.bounded_of_parts (fun _ _ h => nomatch h) (fun _ _ _ h => nomatch h) ?_
  rintro _ _ _ ⟨⟩
  exact h

theorem Items.bounded_item {start : Nat} {value : Doc} {rest : Items} (hvalue : value.Bounded)
    (hrest : rest.Bounded) : (Items.item start value rest).Bounded := by
  intro kept hkeep
  cases kept with
  | nil => exact fun item hitem => nomatch hitem
  | cons json kept =>
      obtain ⟨_, _, _, ⟨⟩, hjson, hmore⟩ := Items.item_of_keep hkeep
      exact List.forall_mem_cons.2 ⟨hvalue json hjson, hrest kept hmore⟩

-- Whether no item follows.
def Items.isEnd : Items → Bool
  | .item _ _ _ => false
  | _ => true

theorem Items.bounded_end {items : Items} (h : items.isEnd = true) : items.Bounded := by
  intro kept hkeep
  cases items with
  | closed stop =>
      obtain rfl := Except.ok.inj hkeep
      exact fun item hitem => nomatch hitem
  | item start value rest => cases h
  | unclosed start => cases hkeep
  | stray start => cases hkeep
  | dangling start ended => cases hkeep

theorem Fields.bounded_field {comma settled : Nat} {name : Lexeme String} {colon : Option Fault}
    {value : Doc} {rest : Fields} (hvalue : value.Bounded) (hrest : rest.Bounded) :
    (Fields.field comma name settled colon value rest).Bounded := by
  intro kept hkeep
  cases kept with
  | nil => exact fun field hfield => nomatch hfield
  | cons entry kept =>
      obtain ⟨_, _, _, _, _, ⟨⟩, -, hjson, hmore⟩ := Fields.field_of_keep hkeep
      exact List.forall_mem_cons.2 ⟨hvalue _ hjson, hrest kept hmore⟩

def Fields.isEnd : Fields → Bool
  | .field _ _ _ _ _ _ => false
  | _ => true

theorem Fields.bounded_end {fields : Fields} (h : fields.isEnd = true) : fields.Bounded := by
  intro kept hkeep
  cases fields with
  | closed stop =>
      obtain rfl := Except.ok.inj hkeep
      exact fun field hfield => nomatch hfield
  | field comma name settled colon value rest => cases h
  | unclosed start => cases hkeep
  | stray start => cases hkeep
  | dangling comma start ended => cases hkeep
  | nameless comma start => cases hkeep

theorem scanNamed_bounded {word : List Char} {make : Nat → Nat → Doc}
    (hmake : ∀ start stop, (make start stop).Bounded) (cs : List Char) (start : Nat) :
    (scanNamed word make cs start).1.Bounded := by
  unfold scanNamed
  split
  · exact hmake _ _
  · exact Doc.bounded_plain rfl

theorem scanNumber_bounded (cs : List Char) (start : Nat) :
    (Doc.number (scanNumber cs start).1).Bounded := by
  refine Doc.bounded_of_parts ?_ (fun _ _ _ h => nomatch h) fun _ _ _ h => nomatch h
  rintro lexeme n ⟨⟩ hvalue
  unfold scanNumber at hvalue
  split at hvalue
  · exact (Numeral.sized_number hvalue).isFinite
  · cases hvalue

-- What is scanned with so many steps left, by each part of the scanner.
structure ScansBounded (fuel : Nat) : Prop where
  value : ∀ level cs o, (scanValue fuel level cs o).1.Bounded
  items : ∀ level cs o, (scanItems fuel level cs o).1.Bounded
  item : ∀ level cs o, (scanItem fuel level cs o).1.Bounded
  moreItems : ∀ level cs o, (scanMoreItems fuel level cs o).1.Bounded
  fields : ∀ level cs o, (scanFields fuel level cs o).1.Bounded
  field : ∀ level comma cs o, (scanField fuel level comma cs o).1.Bounded
  moreFields : ∀ level cs o, (scanMoreFields fuel level cs o).1.Bounded

theorem scansBounded (fuel : Nat) : ScansBounded fuel := by
  induction fuel with
  | zero =>
      refine ⟨fun _ _ _ => ?_, fun _ _ _ => ?_, fun _ _ _ => ?_, fun _ _ _ => ?_, fun _ _ _ => ?_,
        fun _ _ _ _ => ?_, fun _ _ _ => ?_⟩
      · exact Doc.bounded_plain (by rw [scanValue]; rfl)
      · exact Items.bounded_end (by rw [scanItems]; rfl)
      · exact Items.bounded_end (by rw [scanItem]; rfl)
      · exact Items.bounded_end (by rw [scanMoreItems]; rfl)
      · exact Fields.bounded_end (by rw [scanFields]; rfl)
      · exact Fields.bounded_end (by rw [scanField]; rfl)
      · exact Fields.bounded_end (by rw [scanMoreFields]; rfl)
  | succ fuel ih =>
      constructor
      case value =>
          intro level cs o
          rw [scanValue]
          split
          · exact Doc.bounded_plain rfl
          · exact scanNamed_bounded (fun _ _ => Doc.bounded_plain rfl) _ _
          · exact scanNamed_bounded (fun _ _ => Doc.bounded_plain rfl) _ _
          · exact scanNamed_bounded (fun _ _ => Doc.bounded_plain rfl) _ _
          · exact Doc.bounded_plain rfl
          · exact Doc.bounded_array (ih.items _ _ _)
          · exact Doc.bounded_object (ih.fields _ _ _)
          · split
            · exact scanNumber_bounded _ _
            · exact Doc.bounded_plain rfl
      case items =>
          intro level cs o
          rw [scanItems]
          split
          · exact Items.bounded_end rfl
          · exact Items.bounded_end rfl
          · exact ih.item _ _ _
      case item =>
          intro level cs o
          rw [scanItem]
          exact Items.bounded_item (ih.value _ _ _) (ih.moreItems _ _ _)
      case moreItems =>
          intro level cs o
          rw [scanMoreItems]
          split
          · exact Items.bounded_end rfl
          · exact Items.bounded_end rfl
          · split
            · exact Items.bounded_end rfl
            · exact Items.bounded_end rfl
            · exact ih.item _ _ _
          · exact Items.bounded_end rfl
      case fields =>
          intro level cs o
          rw [scanFields]
          split
          · exact Fields.bounded_end rfl
          · exact Fields.bounded_end rfl
          · exact ih.field _ _ _ _
      case field =>
          intro level comma cs o
          rw [scanField.eq_def]
          dsimp only
          split
          · exact Fields.bounded_field (ih.value _ _ _) (ih.moreFields _ _ _)
          · exact Fields.bounded_end rfl
      case moreFields =>
          intro level cs o
          rw [scanMoreFields]
          split
          · exact Fields.bounded_end rfl
          · exact Fields.bounded_end rfl
          · split
            · exact Fields.bounded_end rfl
            · exact Fields.bounded_end rfl
            · exact ih.field _ _ _ _
          · exact Fields.bounded_end rfl

end Patchbay.Json
