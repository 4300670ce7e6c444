import Patchbay.Proofs.Json.RoundTrip

namespace Patchbay.Json

def Refused {α : Type} (result : Except Fault α) : Prop := ∀ a, result ≠ .ok a

theorem Doc.refused_array {start level : Nat} {items : Items}
    (h : depthLimit < level ∨ Refused items.keep) :
    Refused (Doc.array start level items).keep := by
  intro json hkeep
  have hbears := Doc.bears_of_keep hkeep
  cases json with
  | array kept =>
      obtain ⟨_, _, _, ⟨⟩, hlevel, hitems⟩ := hbears
      exact h.elim (Nat.not_lt.2 hlevel) fun hrefused => hrefused kept hitems
  | null => obtain ⟨_, _, ⟨⟩⟩ := hbears
  | bool b => obtain ⟨_, _, ⟨⟩⟩ := hbears
  | number n => obtain ⟨_, ⟨⟩, -⟩ := hbears
  | string s => obtain ⟨_, ⟨⟩, -⟩ := hbears
  | object kept => obtain ⟨_, _, _, ⟨⟩, -⟩ := hbears

theorem Doc.refused_object {start level : Nat} {fields : Fields}
    (h : depthLimit < level ∨ Refused fields.keep) :
    Refused (Doc.object start level fields).keep := by
  intro json hkeep
  have hbears := Doc.bears_of_keep hkeep
  cases json with
  | object kept =>
      obtain ⟨_, _, _, ⟨⟩, hlevel, hfields⟩ := hbears
      exact h.elim (Nat.not_lt.2 hlevel) fun hrefused => hrefused kept hfields
  | null => obtain ⟨_, _, ⟨⟩⟩ := hbears
  | bool b => obtain ⟨_, _, ⟨⟩⟩ := hbears
  | number n => obtain ⟨_, ⟨⟩, -⟩ := hbears
  | string s => obtain ⟨_, ⟨⟩, -⟩ := hbears
  | array kept => obtain ⟨_, _, _, ⟨⟩, -⟩ := hbears

theorem Items.refused_item {start : Nat} {value : Doc} {rest : Items}
    (h : Refused value.keep ∨ Refused rest.keep) : Refused (Items.item start value rest).keep := by
  intro kept hkeep
  cases kept with
  | nil => obtain ⟨stop, ⟨⟩⟩ := Items.closed_of_keep hkeep
  | cons json kept =>
      obtain ⟨_, _, _, ⟨⟩, hvalue, hrest⟩ := Items.item_of_keep hkeep
      exact h.elim (fun hrefused => hrefused json hvalue) fun hrefused => hrefused kept hrest

theorem Fields.refused_field {comma settled : Nat} {name : Lexeme String} {colon : Option Fault}
    {value : Doc} {rest : Fields} (h : Refused value.keep ∨ Refused rest.keep) :
    Refused (Fields.field comma name settled colon value rest).keep := by
  intro kept hkeep
  cases kept with
  | nil => obtain ⟨stop, ⟨⟩⟩ := Fields.closed_of_keep hkeep
  | cons entry kept =>
      obtain ⟨_, _, _, _, _, ⟨⟩, -, hvalue, hrest⟩ := Fields.field_of_keep hkeep
      exact h.elim (fun hrefused => hrefused _ hvalue) fun hrefused => hrefused _ hrest

-- The value is refused at any place from which it goes too deep.
def Overruns (json : Json) : Prop :=
  ∀ (level fuel : Nat) (cs rest : List Char) (o : Nat),
    level ≤ depthLimit → depthLimit < level + json.depth → 3 * (render json).length ≤ fuel →
    bare cs = bare ((render json).toList ++ rest) → Stops rest →
    Refused (scanValue fuel level cs o).1.keep

def OverrunsItems (items : List Json) : Prop :=
  ∀ (level fuel : Nat) (cs rest : List Char) (o : Nat),
    level ≤ depthLimit → depthLimit < level + depthItems items →
    3 * (renderItems items).length ≤ fuel → bare cs = (renderItems items).toList ++ rest →
    Refused (scanMoreItems fuel level cs o).1.keep

def OverrunsFields (fields : List (String × Json)) : Prop :=
  ∀ (level fuel : Nat) (cs rest : List Char) (o : Nat),
    level ≤ depthLimit → depthLimit < level + depthFields fields →
    3 * (renderFields fields).length ≤ fuel → bare cs = (renderFields fields).toList ++ rest →
    Refused (scanMoreFields fuel level cs o).1.keep

-- Either the item itself goes too deep, or it is passed and one of the others does.
theorem scanItem_overruns {level fuel : Nat} {item : Json} {items : List Json}
    (hread : ∀ n ∈ item.numbers, Readable n) (hitem : Overruns item) (hitems : OverrunsItems items)
    (hlevel : level ≤ depthLimit) (hdepth : depthLimit < level + depthItems (item :: items))
    (hfuel : 3 * ((render item).length + (renderItems items).length) < fuel) {cs rest : List Char}
    (hcs : bare cs = bare ((render item).toList ++ ((renderItems items).toList ++ rest)))
    (o : Nat) :
    Refused (scanItem fuel level cs o).1.keep := by
  obtain ⟨fuel, rfl⟩ := Nat.exists_eq_succ_of_ne_zero (Nat.ne_of_gt (Nat.zero_lt_of_lt hfuel))
  rw [depthItems] at hdepth
  rw [scanItem]
  refine Items.refused_item ?_
  by_cases hdeep : depthLimit < level + item.depth
  · exact .inl (hitem level fuel cs _ o hlevel hdeep (by omega) hcs (stops_renderItems items rest))
  · right
    obtain ⟨value, left, next, hvalue, hleft, -⟩ := scansValue item hread level fuel cs _ o (by omega)
      (by omega) hcs (stops_renderItems items rest)
    rw [bare_renderItems] at hleft
    rw [hvalue]
    exact hitems level fuel left rest next hlevel (by omega) (by omega) hleft

theorem scanField_overruns {level fuel : Nat} {name : String} {value : Json}
    {fields : List (String × Json)} (hread : ∀ n ∈ value.numbers, Readable n)
    (hvalue : Overruns value) (hfields : OverrunsFields fields) (hlevel : level ≤ depthLimit)
    (hdepth : depthLimit < level + depthFields ((name, value) :: fields))
    (hfuel : 3 * ((renderField (name, value)).length + (renderFields fields).length) < fuel)
    (comma : Nat) (rest : List Char) (o : Nat) :
    Refused (scanField fuel level comma
      ((renderField (name, value)).toList ++ ((renderFields fields).toList ++ rest)) o).1.keep := by
  obtain ⟨fuel, rfl⟩ := Nat.exists_eq_succ_of_ne_zero (Nat.ne_of_gt (Nat.zero_lt_of_lt hfuel))
  obtain ⟨after, hname⟩ := scanText_spelling name
    (':' :: ((render value).toList ++ ((renderFields fields).toList ++ rest))) o
  have hcolon : isSpace ':' = false := by decide
  have hlength := length_lt_renderField name value
  rw [depthFields] at hdepth
  rw [renderField_append, scanField, hname]
  simp only [skipSpace_cons hcolon, scanColon]
  refine Fields.refused_field ?_
  by_cases hdeep : depthLimit < level + value.depth
  · exact .inl (hvalue level fuel _ _ _ hlevel hdeep (by omega) rfl (stops_renderFields fields rest))
  · right
    obtain ⟨doc, left, next, hscan, hleft, -⟩ := scansValue value hread level fuel
      ((render value).toList ++ ((renderFields fields).toList ++ rest)) _ (after + 1) (by omega)
      (by omega) rfl (stops_renderFields fields rest)
    rw [bare_renderFields] at hleft
    rw [hscan]
    exact hfields level fuel left rest next hlevel (by omega) (by omega) hleft

theorem overruns_scalar {json : Json} (h : json.depth = 0) : Overruns json := by
  intro level fuel cs rest o hlevel hdepth
  omega

theorem overruns_array_nil : Overruns (.array []) := by
  intro level fuel cs rest o _ hdepth hfuel hcs _
  have hlength : (render (.array [])).length = 2 := rfl
  have htext : (render (.array [])).toList ++ rest = '[' :: ']' :: rest := rfl
  obtain ⟨fuel, rfl⟩ : ∃ f, fuel = f + 1 := ⟨fuel - 1, by omega⟩
  rw [htext] at hcs
  obtain ⟨start, hscan⟩ := scanValue_bracket hcs o
  rw [hscan]
  exact Doc.refused_array (.inl hdepth)

theorem overruns_object_nil : Overruns (.object []) := by
  intro level fuel cs rest o _ hdepth hfuel hcs _
  have hlength : (render (.object [])).length = 2 := rfl
  have htext : (render (.object [])).toList ++ rest = '\x7b' :: '\x7d' :: rest := rfl
  obtain ⟨fuel, rfl⟩ : ∃ f, fuel = f + 1 := ⟨fuel - 1, by omega⟩
  rw [htext] at hcs
  obtain ⟨start, hscan⟩ := scanValue_brace hcs o
  rw [hscan]
  exact Doc.refused_object (.inl hdepth)

theorem overruns_array_cons {first : Json} {rest : List Json}
    (hread : ∀ n ∈ first.numbers, Readable n) (hfirst : Overruns first)
    (hrest : OverrunsItems rest) : Overruns (.array (first :: rest)) := by
  intro level fuel cs tail o _ hdepth hfuel hcs _
  rw [length_array_cons] at hfuel
  obtain ⟨fuel, rfl⟩ : ∃ f, fuel = f + 2 := ⟨fuel - 2, by omega⟩
  rw [toList_array_cons] at hcs
  rw [depth] at hdepth
  obtain ⟨start, hscan⟩ := scanValue_bracket hcs o
  rw [hscan]
  refine Doc.refused_array ?_
  by_cases hfull : depthLimit < level + 1
  · exact .inl hfull
  · right
    obtain ⟨more, next, hmore, hscan⟩ := scanItems_cons hread (start + 1)
    rw [hscan]
    exact scanItem_overruns hread hfirst hrest (by omega) (by omega) (by omega) hmore next

theorem overruns_object_cons {name : String} {value : Json} {rest : List (String × Json)}
    (hread : ∀ n ∈ value.numbers, Readable n) (hvalue : Overruns value)
    (hrest : OverrunsFields rest) : Overruns (.object ((name, value) :: rest)) := by
  intro level fuel cs tail o _ hdepth hfuel hcs _
  rw [length_object_cons] at hfuel
  obtain ⟨fuel, rfl⟩ : ∃ f, fuel = f + 2 := ⟨fuel - 2, by omega⟩
  rw [toList_object_cons] at hcs
  rw [depth] at hdepth
  obtain ⟨start, hscan⟩ := scanValue_brace hcs o
  rw [hscan]
  refine Doc.refused_object ?_
  by_cases hfull : depthLimit < level + 1
  · exact .inl hfull
  · right
    rw [scanFields_cons]
    exact scanField_overruns hread hvalue hrest (by omega) (by omega) (by omega) _ _ _

theorem overrunsItems_nil : OverrunsItems [] := by
  intro level fuel cs rest o hlevel hdepth
  rw [depthItems] at hdepth
  omega

theorem overrunsFields_nil : OverrunsFields [] := by
  intro level fuel cs rest o hlevel hdepth
  rw [depthFields] at hdepth
  omega

theorem overrunsItems_cons {item : Json} {items : List Json}
    (hread : ∀ n ∈ item.numbers, Readable n) (hitem : Overruns item)
    (hitems : OverrunsItems items) : OverrunsItems (item :: items) := by
  intro level fuel cs rest o hlevel hdepth hfuel hcs
  rw [length_items_cons] at hfuel
  obtain ⟨fuel, rfl⟩ : ∃ f, fuel = f + 1 := ⟨fuel - 1, by omega⟩
  obtain ⟨more, next, hmore, hscan⟩ := scanMoreItems_cons hread hcs o
  rw [hscan]
  exact scanItem_overruns hread hitem hitems hlevel hdepth (by omega) hmore next

theorem overrunsFields_cons {name : String} {value : Json} {fields : List (String × Json)}
    (hread : ∀ n ∈ value.numbers, Readable n) (hvalue : Overruns value)
    (hfields : OverrunsFields fields) : OverrunsFields ((name, value) :: fields) := by
  intro level fuel cs rest o hlevel hdepth hfuel hcs
  rw [length_fields_cons] at hfuel
  obtain ⟨fuel, rfl⟩ : ∃ f, fuel = f + 1 := ⟨fuel - 1, by omega⟩
  obtain ⟨comma, next, hscan⟩ := scanMoreFields_cons hcs o
  rw [hscan]
  exact scanField_overruns hread hvalue hfields hlevel hdepth (by omega) comma rest next

mutual
theorem overruns : ∀ json : Json, (∀ n ∈ json.numbers, Readable n) → Overruns json
  | .null, _ => overruns_scalar rfl
  | .bool _, _ => overruns_scalar rfl
  | .number _, _ => overruns_scalar rfl
  | .string _, _ => overruns_scalar rfl
  | .array [], _ => overruns_array_nil
  | .array (first :: rest), h => by
      rw [numbers] at h
      obtain ⟨hread, hmore⟩ := forall_numbersItems.1 h
      exact overruns_array_cons hread (overruns first hread) (overrunsItems rest hmore)
  | .object [], _ => overruns_object_nil
  | .object ((name, value) :: rest), h => by
      rw [numbers] at h
      obtain ⟨hread, hmore⟩ := forall_numbersFields.1 h
      exact overruns_object_cons hread (overruns value hread) (overrunsFields rest hmore)

theorem overrunsItems :
    ∀ items : List Json, (∀ n ∈ numbersItems items, Readable n) → OverrunsItems items
  | [], _ => overrunsItems_nil
  | item :: rest, h => by
      obtain ⟨hread, hmore⟩ := forall_numbersItems.1 h
      exact overrunsItems_cons hread (overruns item hread) (overrunsItems rest hmore)

theorem overrunsFields :
    ∀ fields : List (String × Json), (∀ n ∈ numbersFields fields, Readable n) →
    OverrunsFields fields
  | [], _ => overrunsFields_nil
  | (name, value) :: rest, h => by
      obtain ⟨hread, hmore⟩ := forall_numbersFields.1 h
      exact overrunsFields_cons hread (overruns value hread) (overrunsFields rest hmore)
end

-- The text of a value is read only if the value goes no deeper than readers do.
theorem depth_le_of_ofText {json found : Json} (hread : ∀ n ∈ json.numbers, Readable n)
    (h : ofText json.render = .ok found) : json.depth ≤ depthLimit := by
  by_contra hdeep
  obtain ⟨hkeep, -⟩ := ofText_eq_ok_iff.1 h
  obtain ⟨⟨root, left, stop⟩, hvalue⟩ : ∃ value,
    scanValue (3 * json.render.toList.length + 3) 0 json.render.toList 0 = value := ⟨_, rfl⟩
  have hrefused := overruns json hread 0 (3 * json.render.toList.length + 3) json.render.toList [] 0
    (Nat.zero_le _) (by omega) (by rw [String.length_toList]; omega) (by rw [List.append_nil])
    Stops.nil
  rw [hvalue] at hrefused
  rw [(scan_of_scanValue hvalue).1] at hkeep
  exact hrefused found hkeep

end Patchbay.Json
