import Mathlib.Data.List.DropRight
import Patchbay.Json.InPlace
import Patchbay.Json.Render

namespace Patchbay.Json

mutual
-- The containers around the innermost value.
def depth : Json → Nat
  | .array items => depthItems items + 1
  | .object fields => depthFields fields + 1
  | _ => 0

def depthItems : List Json → Nat
  | [] => 0
  | item :: rest => max (depth item) (depthItems rest)

def depthFields : List (String × Json) → Nat
  | [] => 0
  | (_, value) :: rest => max (depth value) (depthFields rest)
end

mutual
def numbers : Json → List Number
  | .number n => [n]
  | .array items => numbersItems items
  | .object fields => numbersFields fields
  | _ => []

def numbersItems : List Json → List Number
  | [] => []
  | item :: rest => numbers item ++ numbersItems rest

def numbersFields : List (String × Json) → List Number
  | [] => []
  | (_, value) :: rest => numbers value ++ numbersFields rest
end

theorem forall_numbersItems {p : Number → Prop} {first : Json} {rest : List Json} :
    (∀ n ∈ numbersItems (first :: rest), p n) ↔
      (∀ n ∈ first.numbers, p n) ∧ ∀ n ∈ numbersItems rest, p n := by
  rw [numbersItems, List.forall_mem_append]

theorem forall_numbersFields {p : Number → Prop} {name : String} {value : Json}
    {rest : List (String × Json)} : (∀ n ∈ numbersFields ((name, value) :: rest), p n) ↔
      (∀ n ∈ value.numbers, p n) ∧ ∀ n ∈ numbersFields rest, p n := by
  rw [numbersFields, List.forall_mem_append]

mutual
def mapNumbers (f : Number → Number) : Json → Json
  | .number n => .number (f n)
  | .array items => .array (mapItems f items)
  | .object fields => .object (mapFields f fields)
  | .null => .null
  | .bool b => .bool b
  | .string s => .string s

def mapItems (f : Number → Number) : List Json → List Json
  | [] => []
  | item :: rest => mapNumbers f item :: mapItems f rest

def mapFields (f : Number → Number) : List (String × Json) → List (String × Json)
  | [] => []
  | (name, value) :: rest => (name, mapNumbers f value) :: mapFields f rest
end

-- The number that a text stands for; none when it is not one number.
def numberOf? (text : String) : Option Number :=
  match ofText text with
  | .ok (.number n) => some n
  | _ => none

def Readable (n : Number) : Prop := (numberOf? (renderNumber n)).isSome

-- What the text of a number reads as.
def reread (n : Number) : Number := (numberOf? (renderNumber n)).getD n

theorem skipSpace_cons {c : Char} (h : isSpace c = false) (rest : List Char) (o : Nat) :
    skipSpace (c :: rest) o = (c :: rest, o) := by
  simp [skipSpace, h]

def bare (cs : List Char) : List Char := cs.dropWhile isSpace

theorem exists_skipSpace (cs : List Char) (o : Nat) : ∃ stop, skipSpace cs o = (bare cs, stop) := by
  induction cs generalizing o with
  | nil => exact ⟨o, rfl⟩
  | cons c cs ih =>
      by_cases hc : isSpace c = true
      · obtain ⟨stop, hstop⟩ := ih (o + 1)
        exact ⟨stop, by simpa [skipSpace, bare, hc] using hstop⟩
      · exact ⟨o, by simp [skipSpace, bare, hc]⟩

theorem bare_of_skipSpace {cs tail : List Char} {o stop : Nat}
    (h : skipSpace cs o = (tail, stop)) : bare cs = tail := by
  obtain ⟨stop', hstop⟩ := exists_skipSpace cs o
  rw [hstop] at h
  exact congrArg Prod.fst h

theorem bare_cons {c : Char} (h : isSpace c = false) (rest : List Char) :
    bare (c :: rest) = c :: rest := by
  simp [bare, h]

theorem bare_bare (cs : List Char) : bare (bare cs) = bare cs := List.dropWhile_idempotent _ _

theorem bare_append {cs : List Char} (h : bare cs ≠ []) (rest : List Char) :
    bare (cs ++ rest) = bare cs ++ rest := by
  induction cs with
  | nil => simp [bare] at h
  | cons c cs ih =>
      by_cases hc : isSpace c = true
      · simpa [bare, hc] using ih (by simpa [bare, hc] using h)
      · simp [bare, hc]

theorem bare_append_of_nil {cs : List Char} (h : bare cs = []) (rest : List Char) :
    bare (cs ++ rest) = bare rest := by
  induction cs with
  | nil => rfl
  | cons c cs ih =>
      by_cases hc : isSpace c = true
      · simpa [bare, hc] using ih (by simpa [bare, hc] using h)
      · simp [bare, hc] at h

-- What may follow a number without becoming part of it.
def Stops (rest : List Char) : Prop :=
  ∀ c ∈ rest.head?, c.isDigit = false ∧ c ≠ '.' ∧ c ≠ 'e' ∧ c ≠ 'E'

theorem Stops.nil : Stops [] := by simp [Stops]

theorem spanDigits_append {rest : List Char} (hrest : Stops rest) (cs : List Char) :
    spanDigits (cs ++ rest) = ((spanDigits cs).1, (spanDigits cs).2 ++ rest) := by
  induction cs with
  | nil =>
      cases rest with
      | nil => rfl
      | cons c rest =>
          have hc : c.isDigit = false := (hrest c (by simp)).1
          simp [spanDigits, hc]
  | cons c cs ih =>
      cases hc : c.isDigit with
      | false => simp [spanDigits, hc]
      | true =>
          simp only [spanDigits, List.cons_append, List.takeWhile_cons, List.dropWhile_cons, hc,
            if_true, List.map_cons, Prod.mk.injEq, List.cons.injEq] at ih ⊢
          exact ⟨⟨trivial, ih.1⟩, ih.2⟩

theorem scanWhole_append {cs tail : List Char} {digits : List Nat} {o stop : Nat}
    (h : scanWhole cs o = .ok (digits, tail, stop)) {rest : List Char} (hrest : Stops rest)
    (p : Nat) : ∃ stop', scanWhole (cs ++ rest) p = .ok (digits, tail ++ rest, stop') := by
  unfold scanWhole at h
  split at h
  · simp at h
  · next more =>
      split at h
      · next d more =>
          split at h
          · simp at h
          · next hd =>
              simp only [Except.ok.injEq, Prod.mk.injEq] at h
              obtain ⟨rfl, rfl, rfl⟩ := h
              exact ⟨p + 1, by simp [scanWhole, hd]⟩
      · simp only [Except.ok.injEq, Prod.mk.injEq] at h
        obtain ⟨rfl, rfl, rfl⟩ := h
        cases rest with
        | nil => exact ⟨p + 1, rfl⟩
        | cons c rest =>
            have hc : c.isDigit = false := (hrest c (by simp)).1
            exact ⟨p + 1, by simp [scanWhole, hc]⟩
  · next c more hzero =>
      split at h
      · next hc =>
          simp only [Except.ok.injEq, Prod.mk.injEq] at h
          obtain ⟨rfl, rfl, rfl⟩ := h
          refine ⟨p + (spanDigits (c :: more)).1.length, ?_⟩
          have hspan := spanDigits_append hrest (c :: more)
          rw [List.cons_append] at hspan ⊢
          unfold scanWhole
          split
          · contradiction
          · next heq => exact absurd (List.cons.inj heq).1 (by rintro rfl; exact hzero rfl)
          · next heq =>
              obtain ⟨rfl, rfl⟩ := List.cons.inj heq
              rw [if_pos hc, hspan]
      · simp at h

theorem scanFraction_append {cs tail : List Char} {digits : List Nat} {o stop : Nat}
    (h : scanFraction cs o = .ok (digits, tail, stop)) {rest : List Char} (hrest : Stops rest)
    (p : Nat) : ∃ stop', scanFraction (cs ++ rest) p = .ok (digits, tail ++ rest, stop') := by
  unfold scanFraction at h
  split at h
  · next more =>
      have hspan := spanDigits_append hrest more
      split at h
      · simp at h
      · simp at h
      · next found left hempty hnone heq =>
          simp only [Except.ok.injEq, Prod.mk.injEq] at h
          obtain ⟨rfl, rfl, rfl⟩ := h
          rw [heq] at hspan
          refine ⟨p + 1 + found.length, ?_⟩
          simp only [scanFraction, List.cons_append, hspan]
          split <;> simp_all
  · next hpoint =>
      simp only [Except.ok.injEq, Prod.mk.injEq] at h
      obtain ⟨rfl, rfl, rfl⟩ := h
      refine ⟨p, ?_⟩
      unfold scanFraction
      split
      · next more heq =>
          cases cs with
          | nil => exact absurd rfl (hrest '.' (by simp_all)).2.1
          | cons c cs => exact absurd (by simpa using (List.cons.inj heq).1) (hpoint cs)
      · rfl

-- The sign of an exponent and its digits, of which there is at least one.
def powerSign (cs : List Char) (o : Nat) : Bool × List Char × Nat :=
  match cs with
  | '+' :: rest => (false, rest, o + 2)
  | '-' :: rest => (true, rest, o + 2)
  | _ => (false, cs, o + 1)

def scanPower (below : Bool) (cs : List Char) (o : Nat) : Scanned (Option (Bool × List Nat)) :=
  match spanDigits cs with
  | ([], []) => .error (.ended o)
  | ([], _) => .error (.at (o + 1))
  | (digits, rest) => .ok (some (below, digits), rest, o + digits.length)

theorem scanExponent_cons {e : Char} (he : e = 'e' ∨ e = 'E') (cs : List Char) (o : Nat) :
    scanExponent (e :: cs) o =
      scanPower (powerSign cs o).1 (powerSign cs o).2.1 (powerSign cs o).2.2 := by
  simp only [scanExponent, if_pos he]
  rfl

theorem scanPower_append {below : Bool} {cs tail : List Char} {o stop : Nat}
    {exponent : Option (Bool × List Nat)}
    (h : scanPower below cs o = .ok (exponent, tail, stop)) {rest : List Char}
    (hrest : Stops rest) (p : Nat) :
    ∃ stop', scanPower below (cs ++ rest) p = .ok (exponent, tail ++ rest, stop') := by
  simp only [scanPower, spanDigits_append hrest cs] at h ⊢
  split at h
  · simp at h
  · simp at h
  · next found left hempty hnone heq =>
      simp only [Except.ok.injEq, Prod.mk.injEq] at h
      obtain ⟨rfl, rfl, rfl⟩ := h
      refine ⟨p + found.length, ?_⟩
      rw [heq]
      split <;> simp_all

theorem powerSign_append (c : Char) (cs rest : List Char) (o p : Nat) :
    ∃ stop, powerSign (c :: cs ++ rest) p =
      ((powerSign (c :: cs) o).1, (powerSign (c :: cs) o).2.1 ++ rest, stop) := by
  unfold powerSign
  simp only [List.cons_append]
  split <;> split <;> simp_all

theorem scanExponent_append {cs tail : List Char} {o stop : Nat}
    {exponent : Option (Bool × List Nat)}
    (h : scanExponent cs o = .ok (exponent, tail, stop)) {rest : List Char} (hrest : Stops rest)
    (p : Nat) : ∃ stop', scanExponent (cs ++ rest) p = .ok (exponent, tail ++ rest, stop') := by
  cases cs with
  | nil =>
      simp only [scanExponent, Except.ok.injEq, Prod.mk.injEq] at h
      obtain ⟨rfl, rfl, rfl⟩ := h
      cases rest with
      | nil => exact ⟨p, rfl⟩
      | cons c rest =>
          have hc := hrest c (by simp)
          exact ⟨p, by simp [scanExponent, hc.2.2.1, hc.2.2.2]⟩
  | cons e more =>
      by_cases he : e = 'e' ∨ e = 'E'
      · rw [List.cons_append, scanExponent_cons he]
        rw [scanExponent_cons he] at h
        cases more with
        | nil => simp [powerSign, scanPower, spanDigits] at h
        | cons c more =>
            obtain ⟨start, hsign⟩ := powerSign_append c more rest o p
            rw [hsign]
            exact scanPower_append h hrest start
      · simp only [scanExponent, if_neg he, Except.ok.injEq, Prod.mk.injEq] at h
        obtain ⟨rfl, rfl, rfl⟩ := h
        exact ⟨p, by simp [scanExponent, he]⟩

theorem scanSign_append (c : Char) (cs rest : List Char) (o p : Nat) :
    ∃ stop, scanSign (c :: cs ++ rest) p =
      ((scanSign (c :: cs) o).1, (scanSign (c :: cs) o).2.1 ++ rest, stop) := by
  unfold scanSign
  simp only [List.cons_append]
  split <;> split <;> simp_all

theorem scanNumeral_append {c : Char} {cs tail : List Char} {o stop : Nat} {numeral : Numeral}
    (h : scanNumeral (c :: cs) o = .ok (numeral, tail, stop)) {rest : List Char}
    (hrest : Stops rest) (p : Nat) :
    ∃ stop', scanNumeral (c :: cs ++ rest) p = .ok (numeral, tail ++ rest, stop') := by
  obtain ⟨start, hsign⟩ := scanSign_append c cs rest o p
  simp only [scanNumeral, hsign] at h ⊢
  cases hwhole : scanWhole (scanSign (c :: cs) o).2.1 (scanSign (c :: cs) o).2.2 with
  | error bad => simp [hwhole, bind, Except.bind] at h
  | ok whole =>
      obtain ⟨digits, left, next⟩ := whole
      obtain ⟨next', hwhole'⟩ := scanWhole_append hwhole hrest start
      simp only [hwhole, hwhole', bind, Except.bind] at h ⊢
      cases hfraction : scanFraction left next with
      | error bad => simp [hfraction] at h
      | ok fraction =>
          obtain ⟨decimals, left, next⟩ := fraction
          obtain ⟨next', hfraction'⟩ := scanFraction_append hfraction hrest next'
          simp only [hfraction, hfraction'] at h ⊢
          cases hexponent : scanExponent left next with
          | error bad => simp [hexponent] at h
          | ok exponent =>
              obtain ⟨exponent, left, next⟩ := exponent
              obtain ⟨next', hexponent'⟩ := scanExponent_append hexponent hrest next'
              simp only [hexponent, hexponent', pure, Except.pure, Except.ok.injEq,
                Prod.mk.injEq] at h ⊢
              obtain ⟨rfl, rfl, rfl⟩ := h
              exact ⟨next', rfl, rfl, rfl⟩

-- Where a number stands shows in its faults only.
theorem Numeral.real_moved {numeral : Numeral} {n : Number} {stop : Nat}
    (h : numeral.real stop = .ok n) (stop' : Nat) : numeral.real stop' = .ok n := by
  obtain ⟨negative, whole, fraction, exponent⟩ := numeral
  cases exponent with
  | none =>
      simp only [Numeral.real] at h ⊢
      split at h
      · exact h
      · contradiction
  | some exponent =>
      simp only [Numeral.real] at h ⊢
      split at h
      · split at h
        · contradiction
        · next hlost => rw [if_neg hlost]; exact h
      · split at h
        · exact h
        · contradiction

theorem Numeral.number_moved {numeral : Numeral} {n : Number} {stop : Nat}
    (h : numeral.number stop = .ok n) (stop' : Nat) : numeral.number stop' = .ok n := by
  simp only [Numeral.number] at h ⊢
  split at h
  · next hwhole => rw [if_pos hwhole]; exact h
  · next hreal => rw [if_neg hreal]; exact Numeral.real_moved h stop'

-- The first character of a number.
def Leads (c : Char) : Prop := c.isDigit ∨ c = '-'

theorem Leads.not_opening {c : Char} (h : Leads c) :
    c ≠ 'n' ∧ c ≠ 't' ∧ c ≠ 'f' ∧ c ≠ '"' ∧ c ≠ '[' ∧ c ≠ '\x7b' := by
  refine ⟨?_, ?_, ?_, ?_, ?_, ?_⟩ <;> rintro rfl <;> simp [Leads] at h

theorem scanValue_number {fuel level : Nat} {cs tail : List Char} {o stop : Nat}
    {lexeme : Lexeme Number} {n : Number}
    (h : scanValue (fuel + 1) level cs o = (.number lexeme, tail, stop))
    (hvalue : lexeme.value = .ok n) :
    ∃ c rest start numeral, skipSpace cs o = (c :: rest, start) ∧ Leads c ∧
      scanNumeral (c :: rest) start = .ok (numeral, tail, stop) ∧ numeral.number stop = .ok n := by
  rw [scanValue] at h
  split at h
  all_goals try (simp [scanNamed] at h; done)
  · simp only [scanNamed] at h
    split at h <;> simp at h
  · simp only [scanNamed] at h
    split at h <;> simp at h
  · simp only [scanNamed] at h
    split at h <;> simp at h
  · next c rest start _ _ _ _ _ _ hskip =>
      split at h
      · next hleads =>
          simp only [scanNumber] at h
          split at h
          · next numeral left last hnumeral =>
              simp only [Prod.mk.injEq, Doc.number.injEq] at h
              obtain ⟨rfl, rfl, rfl⟩ := h
              exact ⟨c, rest, start, numeral, hskip, hleads, hnumeral, hvalue⟩
          · simp only [Prod.mk.injEq, Doc.number.injEq] at h
            obtain ⟨rfl, -, -⟩ := h
            simp at hvalue
      · simp at h

theorem scanValue_numeral {fuel level : Nat} {cs : List Char} {o : Nat} {c : Char}
    {rest : List Char} {start : Nat} (hskip : skipSpace cs o = (c :: rest, start))
    (hc : Leads c) : scanValue (fuel + 1) level cs o =
      (.number (scanNumber (c :: rest) start).1, (scanNumber (c :: rest) start).2) := by
  obtain ⟨h1, h2, h3, h4, h5, h6⟩ := hc.not_opening
  rw [scanValue, hskip]
  simp only [Leads] at hc
  simp [hc]

theorem ofText_eq_ok_iff {text : String} {json : Json} :
    ofText text = .ok json ↔ (scan text).root.keep = .ok json ∧ (scan text).trailing = none := by
  have hkeep : (Source.keep (scan text).root : Decode Json) = liftExcept (scan text).root.keep := rfl
  simp only [ofText, wholeText, hkeep]
  cases (scan text).root.keep with
  | error fault =>
      change Except.error fault = .ok json ↔ _
      simp
  | ok found =>
      cases (scan text).trailing with
      | some start =>
          change Except.error (Fault.peeking .trailingCharacters start) = .ok json ↔ _
          simp
      | none =>
          change Except.ok found = .ok json ↔ _
          simp

theorem scan_of_scanValue {text : String} {root : Doc} {rest : List Char} {o : Nat}
    (h : scanValue (3 * text.toList.length + 3) 0 text.toList 0 = (root, rest, o)) :
    (scan text).root = root ∧
      ((scan text).trailing = none ↔ ∃ stop, skipSpace rest o = ([], stop)) := by
  simp only [scan, h]
  split
  · next hend => exact ⟨rfl, by simp [hend]⟩
  · next hmore heq =>
      exact ⟨rfl, by simpa [heq] using hmore⟩

-- What a value was scanned as that is kept as `json`.
def Doc.Bears (doc : Doc) : Json → Prop
  | .null => ∃ start stop, doc = .null start stop
  | .bool b => ∃ start stop, doc = .bool b start stop
  | .number n => ∃ lexeme, doc = .number lexeme ∧ lexeme.value = .ok n
  | .string s => ∃ lexeme, doc = .string lexeme ∧ lexeme.value = .ok s
  | .array kept => ∃ start level items, doc = .array start level items ∧ level ≤ depthLimit ∧
      items.keep = .ok kept
  | .object kept => ∃ start level fields, doc = .object start level fields ∧ level ≤ depthLimit ∧
      fields.keep = .ok kept

theorem Doc.bears_of_keep {doc : Doc} {json : Json} (h : doc.keep = .ok json) : doc.Bears json := by
  cases doc with
  | absent start => simp [Doc.keep] at h
  | broken start fault => simp [Doc.keep] at h
  | null start stop =>
      obtain rfl : Json.null = json := by simpa [Doc.keep] using h
      exact ⟨start, stop, rfl⟩
  | bool b start stop =>
      obtain rfl : Json.bool b = json := by simpa [Doc.keep] using h
      exact ⟨start, stop, rfl⟩
  | number lexeme =>
      cases hvalue : lexeme.value with
      | error fault => simp [Doc.keep, hvalue, bind, Except.bind] at h
      | ok n =>
          obtain rfl : Json.number n = json := by
            simpa [Doc.keep, hvalue, bind, Except.bind, pure, Except.pure] using h
          exact ⟨lexeme, rfl, hvalue⟩
  | string lexeme =>
      cases hvalue : lexeme.value with
      | error fault => simp [Doc.keep, hvalue, bind, Except.bind] at h
      | ok s =>
          obtain rfl : Json.string s = json := by
            simpa [Doc.keep, hvalue, bind, Except.bind, pure, Except.pure] using h
          exact ⟨lexeme, rfl, hvalue⟩
  | array start level items =>
      rw [Doc.keep] at h
      split at h
      · simp at h
      · next hlevel =>
          cases hitems : items.keep with
          | error fault => simp [hitems, bind, Except.bind] at h
          | ok kept =>
              obtain rfl : Json.array kept = json := by
                simpa [hitems, bind, Except.bind, pure, Except.pure] using h
              exact ⟨start, level, items, rfl, Nat.not_lt.mp hlevel, hitems⟩
  | object start level fields =>
      rw [Doc.keep] at h
      split at h
      · simp at h
      · next hlevel =>
          cases hfields : fields.keep with
          | error fault => simp [hfields, bind, Except.bind] at h
          | ok kept =>
              obtain rfl : Json.object kept = json := by
                simpa [hfields, bind, Except.bind, pure, Except.pure] using h
              exact ⟨start, level, fields, rfl, Nat.not_lt.mp hlevel, hfields⟩

theorem Fields.closed_of_keep {fields : Fields} (h : fields.keep = .ok []) :
    ∃ stop, fields = .closed stop := by
  cases fields with
  | closed stop => exact ⟨stop, rfl⟩
  | field comma name settled colon value rest =>
      cases hname : name.value with
      | error fault => simp [Fields.keep, hname, bind, Except.bind] at h
      | ok key =>
          cases colon with
          | some fault => simp [Fields.keep, hname, bind, Except.bind] at h
          | none =>
              cases hvalue : value.keep <;> cases hrest : rest.keep <;>
                simp [Fields.keep, hname, hvalue, hrest, bind, Except.bind, pure, Except.pure] at h
  | _ => simp [Fields.keep] at h

theorem Fields.field_of_keep {fields : Fields} {key : String} {json : Json}
    {kept : List (String × Json)} (h : fields.keep = .ok ((key, json) :: kept)) :
    ∃ comma name settled value rest, fields = .field comma name settled none value rest ∧
      name.value = .ok key ∧ value.keep = .ok json ∧ rest.keep = .ok kept := by
  cases fields with
  | field comma name settled colon value rest =>
      cases hname : name.value with
      | error fault => simp [Fields.keep, hname, bind, Except.bind] at h
      | ok found =>
          cases colon with
          | some fault => simp [Fields.keep, hname, bind, Except.bind] at h
          | none =>
              cases hvalue : value.keep with
              | error fault => simp [Fields.keep, hname, hvalue, bind, Except.bind] at h
              | ok value' =>
                  cases hrest : rest.keep with
                  | error fault =>
                      simp [Fields.keep, hname, hvalue, hrest, bind, Except.bind] at h
                  | ok rest' =>
                      simp only [Fields.keep, hname, hvalue, hrest, bind, Except.bind, pure,
                        Except.pure, Except.ok.injEq, List.cons.injEq, Prod.mk.injEq] at h
                      obtain ⟨⟨rfl, rfl⟩, rfl⟩ := h
                      exact ⟨comma, name, settled, value, rest, rfl, hname, hvalue, hrest⟩
  | _ => simp [Fields.keep] at h

theorem Items.closed_of_keep {items : Items} (h : items.keep = .ok []) :
    ∃ stop, items = .closed stop := by
  cases items with
  | closed stop => exact ⟨stop, rfl⟩
  | item start value rest =>
      cases hvalue : value.keep <;> cases hrest : rest.keep <;>
        simp [Items.keep, hvalue, hrest, bind, Except.bind, pure, Except.pure] at h
  | _ => simp [Items.keep] at h

theorem Items.item_of_keep {items : Items} {json : Json} {kept : List Json}
    (h : items.keep = .ok (json :: kept)) :
    ∃ start value rest, items = .item start value rest ∧ value.keep = .ok json ∧
      rest.keep = .ok kept := by
  cases items with
  | item start value rest =>
      cases hvalue : value.keep <;> cases hrest : rest.keep <;>
        simp only [Items.keep, hvalue, hrest, bind, Except.bind, pure, Except.pure, Except.ok.injEq,
          List.cons.injEq, reduceCtorEq] at h
      obtain ⟨rfl, rfl⟩ := h
      exact ⟨start, value, rest, rfl, hvalue, hrest⟩
  | _ => simp [Items.keep] at h

-- A number that reads back alone reads back before anything that does not prolong it.
theorem Readable.spelled {n : Number} (h : Readable n) :
    ∃ c cs tail numeral, bare (renderNumber n).toList = c :: cs ∧ Leads c ∧ bare tail = [] ∧
      (∀ rest, Stops rest → ∀ o, ∃ stop,
        scanNumeral (c :: cs ++ rest) o = .ok (numeral, tail ++ rest, stop)) ∧
      ∀ stop, numeral.number stop = .ok (reread n) := by
  obtain ⟨found, hfound⟩ := Option.isSome_iff_exists.mp h
  have hreread : reread n = found := by simp [reread, hfound]
  have htext : ofText (renderNumber n) = .ok (.number found) := by
    unfold numberOf? at hfound
    split at hfound
    · simp_all
    · contradiction
  obtain ⟨hkeep, htrailing⟩ := ofText_eq_ok_iff.mp htext
  obtain ⟨root, tail, last, hscan⟩ : ∃ root tail last,
      scanValue (3 * (renderNumber n).toList.length + 3) 0 (renderNumber n).toList 0 =
        (root, tail, last) := ⟨_, _, _, rfl⟩
  obtain ⟨hroot, hend⟩ := scan_of_scanValue hscan
  rw [hroot] at hkeep
  obtain ⟨lexeme, rfl, hvalue⟩ := Doc.bears_of_keep hkeep
  obtain ⟨c, cs, start, numeral, hskip, hc, hnumeral, hnumber⟩ := scanValue_number hscan hvalue
  obtain ⟨stop, hblank⟩ := hend.mp htrailing
  refine ⟨c, cs, tail, numeral, bare_of_skipSpace hskip, hc, bare_of_skipSpace hblank,
    fun rest hrest o => scanNumeral_append hnumeral hrest o, fun stop => ?_⟩
  rw [hreread]
  exact Numeral.number_moved hnumber stop

theorem scanValue_renderNumber {n : Number} (h : Readable n) (fuel level : Nat)
    {cs rest : List Char} (hcs : bare cs = bare ((renderNumber n).toList ++ rest))
    (hrest : Stops rest) (o : Nat) :
    ∃ lexeme left stop, scanValue (fuel + 1) level cs o = (.number lexeme, left, stop) ∧
      bare left = bare rest ∧ lexeme.value = .ok (reread n) := by
  obtain ⟨c, more, tail, numeral, htext, hc, htail, hscan, hnumber⟩ := h.spelled
  obtain ⟨start, hskip⟩ := exists_skipSpace cs o
  rw [hcs, bare_append (by simp [htext]), htext] at hskip
  obtain ⟨stop, hstop⟩ := hscan rest hrest start
  refine ⟨⟨start, numeral.number stop, none, stop⟩, tail ++ rest, stop, ?_,
    bare_append_of_nil htail rest, hnumber stop⟩
  rw [List.cons_append] at hskip hstop
  rw [scanValue_numeral hskip hc]
  simp only [scanNumber, hstop]

-- The digits after the letter of an escaped control character.
def controlDigits (n : Nat) : List Char := '0' :: '0' :: (hexByte n).toList

theorem controlDigits_read : ∀ n < 32, (controlDigits n).length = 4 ∧
    Text.byteSize (controlDigits n) = 4 ∧
    (controlDigits n).mapM hexValue = some [0, 0, n / 16, n % 16] := by
  decide

theorem scanHex_control {n : Nat} (h : n < 32) (rest : List Char) (o : Nat) :
    scanHex (controlDigits n ++ rest) o = .ok (n, rest, o + 4) := by
  obtain ⟨hlength, hsize, hvalue⟩ := controlDigits_read n h
  have hvalues : [0, 0, n / 16, n % 16].foldl (fun n d => n * 16 + d) 0 = n := by
    simp only [List.foldl_cons, List.foldl_nil]
    omega
  rw [scanHex, ← hlength, List.take_left, List.drop_left, hlength, hsize, hvalue]
  simp only [Nat.lt_irrefl, if_false, hvalues]

-- One more character is known when its escape has been passed.
theorem scanString_escapedChar (start fuel : Nat) (spelling : Spelling) (c : Char)
    (rest : List Char) (o : Nat) :
    ∃ stop, scanString start (fuel + 1) spelling ((escapedChar c).toList ++ rest) o =
      scanString start fuel (spelling.push c) rest stop := by
  unfold escapedChar
  split
  · next h => subst h; exact ⟨o + 2, by simp [scanString, simpleEscape]⟩
  split
  · next h => subst h; exact ⟨o + 2, by simp [scanString, simpleEscape]⟩
  split
  · next h => subst h; exact ⟨o + 2, by simp [scanString, simpleEscape]⟩
  split
  · next h => subst h; exact ⟨o + 2, by simp [scanString, simpleEscape]⟩
  split
  · next h => subst h; exact ⟨o + 2, by simp [scanString, simpleEscape]⟩
  split
  · next h =>
      have hc : c = '\x08' := Char.toNat_inj.mp h
      subst hc; exact ⟨o + 2, by simp [scanString, simpleEscape]⟩
  split
  · next h =>
      have hc : c = '\x0c' := Char.toNat_inj.mp h
      subst hc; exact ⟨o + 2, by simp [scanString, simpleEscape]⟩
  split
  · next h =>
      have hlow : isLow c.toNat = false := by simp [isLow]; omega
      have hhigh : isHigh c.toNat = false := by simp [isHigh]; omega
      have htext : ("\\u00" ++ hexByte c.toNat).toList = '\\' :: 'u' :: controlDigits c.toNat := by
        simp [controlDigits]
      refine ⟨o + 2 + 4, ?_⟩
      rw [htext]
      simp only [List.cons_append]
      rw [scanString, scanHex_control h]
      simp [hlow, hhigh]
  · next hquote hslash _ _ _ _ _ hcontrol =>
      refine ⟨o + c.utf8Size, ?_⟩
      simp [scanString, hslash, hcontrol]

theorem escapedChar_ne_nil (c : Char) : (escapedChar c).toList ≠ [] := by
  unfold escapedChar
  repeat' split
  all_goals simp

-- The text of a string after its opening quote.
def spelling (s : String) : List Char := s.toList.flatMap fun c => (escapedChar c).toList

theorem renderString_toList (s : String) :
    (renderString s).toList = '"' :: spelling s ++ ['"'] := by
  simp [renderString, spelling, String.toList_join, List.flatMap, Function.comp_def]

theorem length_le_spelling (s : String) : s.toList.length ≤ (spelling s).length := by
  unfold spelling
  induction s.toList with
  | nil => simp
  | cons c cs ih =>
      have hc : 0 < (escapedChar c).toList.length :=
        List.length_pos_of_ne_nil (escapedChar_ne_nil c)
      simp only [List.flatMap_cons, List.length_append, List.length_cons]
      omega

theorem scanString_spelling (start : Nat) (cs known rest : List Char) (fuel : Nat)
    (hfuel : cs.length < fuel) (o : Nat) :
    ∃ stop, scanString start fuel (.ok known)
        ((cs.flatMap fun c => (escapedChar c).toList) ++ '"' :: rest) o =
      (⟨start, .ok (String.ofList (known.reverse ++ cs)), none, stop⟩, rest, stop) := by
  induction cs generalizing known fuel o with
  | nil =>
      obtain ⟨fuel, rfl⟩ := Nat.exists_eq_add_of_lt hfuel
      exact ⟨o + 1, by simp [scanString, Except.map]⟩
  | cons c cs ih =>
      obtain ⟨fuel, rfl⟩ := Nat.exists_eq_succ_of_ne_zero (Nat.ne_of_gt (Nat.zero_lt_of_lt hfuel))
      obtain ⟨next, hnext⟩ := scanString_escapedChar start fuel (.ok known) c
        ((cs.flatMap fun c => (escapedChar c).toList) ++ '"' :: rest) o
      obtain ⟨stop, hstop⟩ := ih (c :: known) fuel (by simpa using hfuel) next
      refine ⟨stop, ?_⟩
      rw [List.flatMap_cons, List.append_assoc, hnext]
      simpa [Spelling.push, Except.map] using hstop

theorem scanText_spelling (s : String) (rest : List Char) (start : Nat) :
    ∃ stop, scanText (spelling s ++ '"' :: rest) start =
      (⟨start, .ok s, none, stop⟩, rest, stop) := by
  have hlength : s.toList.length < (spelling s ++ '"' :: rest).length + 1 := by
    have hspelling := length_le_spelling s
    simp only [List.length_append]
    omega
  obtain ⟨stop, hstop⟩ := scanString_spelling start s.toList [] rest _ hlength (start + 1)
  exact ⟨stop, by simpa [scanText, spelling] using hstop⟩

theorem stops_cons {c : Char} (h : c = ',' ∨ c = ']' ∨ c = '\x7d') (rest : List Char) :
    Stops (c :: rest) := by
  rintro d hd
  obtain rfl : c = d := by simpa using hd
  obtain rfl | rfl | rfl := h <;> decide

theorem stops_renderItems (items : List Json) (rest : List Char) :
    Stops ((renderItems items).toList ++ rest) := by
  cases items <;> simp [renderItems, stops_cons]

theorem stops_renderFields (fields : List (String × Json)) (rest : List Char) :
    Stops ((renderFields fields).toList ++ rest) := by
  cases fields <;> simp [renderFields, stops_cons]

theorem bare_render {json : Json} (h : ∀ n ∈ json.numbers, Readable n) :
    ∃ c cs, bare (render json).toList = c :: cs ∧ c ≠ ']' := by
  cases json with
  | null => exact ⟨'n', _, rfl, by decide⟩
  | bool b => cases b <;> exact ⟨_, _, rfl, by decide⟩
  | number n =>
      obtain ⟨c, cs, -, -, htext, hc, -⟩ := (h n (by simp [numbers])).spelled
      refine ⟨c, cs, htext, ?_⟩
      rintro rfl
      simp [Leads] at hc
  | string s =>
      refine ⟨'"', spelling s ++ ['"'], ?_, by decide⟩
      rw [render, renderString_toList, List.cons_append, bare_cons (by decide)]
  | array items =>
      cases items with
      | nil => exact ⟨'[', _, rfl, by decide⟩
      | cons first rest =>
          refine ⟨'[', (render first).toList ++ (renderItems rest).toList, ?_, by decide⟩
          simp [render, bare_cons (show isSpace '[' = false by decide)]
  | object fields =>
      cases fields with
      | nil => exact ⟨'\x7b', _, rfl, by decide⟩
      | cons first rest =>
          refine ⟨'\x7b', (renderField first).toList ++ (renderFields rest).toList, ?_, by decide⟩
          simp [render, bare_cons (show isSpace '\x7b' = false by decide)]

def ScansValue (json : Json) : Prop :=
  ∀ (level fuel : Nat) (cs rest : List Char) (o : Nat),
    level + json.depth ≤ depthLimit → 3 * (render json).length ≤ fuel →
    bare cs = bare ((render json).toList ++ rest) → Stops rest →
    ∃ doc left stop, scanValue fuel level cs o = (doc, left, stop) ∧ bare left = bare rest ∧
      doc.keep = .ok (json.mapNumbers reread)

def ScansItems (items : List Json) : Prop :=
  ∀ (level fuel : Nat) (cs rest : List Char) (o : Nat),
    level + depthItems items ≤ depthLimit → 3 * (renderItems items).length ≤ fuel →
    bare cs = (renderItems items).toList ++ rest →
    ∃ doc stop, scanMoreItems fuel level cs o = (doc, rest, stop) ∧
      doc.keep = .ok (mapItems reread items)

def ScansFields (fields : List (String × Json)) : Prop :=
  ∀ (level fuel : Nat) (cs rest : List Char) (o : Nat),
    level + depthFields fields ≤ depthLimit → 3 * (renderFields fields).length ≤ fuel →
    bare cs = (renderFields fields).toList ++ rest →
    ∃ doc stop, scanMoreFields fuel level cs o = (doc, rest, stop) ∧
      doc.keep = .ok (mapFields reread fields)

theorem bare_renderItems (items : List Json) (rest : List Char) :
    bare ((renderItems items).toList ++ rest) = (renderItems items).toList ++ rest := by
  cases items with
  | nil => exact bare_cons (by decide) rest
  | cons first items =>
      simp [renderItems, bare_cons (show isSpace ',' = false by decide)]

theorem bare_renderFields (fields : List (String × Json)) (rest : List Char) :
    bare ((renderFields fields).toList ++ rest) = (renderFields fields).toList ++ rest := by
  cases fields with
  | nil => exact bare_cons (by decide) rest
  | cons first fields =>
      simp [renderFields, bare_cons (show isSpace ',' = false by decide)]

theorem scanItem_render (level fuel : Nat) {item : Json} {items : List Json}
    (hitem : ScansValue item) (hitems : ScansItems items)
    (hdepth : level + depthItems (item :: items) ≤ depthLimit)
    (hfuel : 3 * ((render item).length + (renderItems items).length) < fuel)
    {cs rest : List Char}
    (hcs : bare cs = bare ((render item).toList ++ ((renderItems items).toList ++ rest)))
    (o : Nat) :
    ∃ doc stop, scanItem fuel level cs o = (doc, rest, stop) ∧
      doc.keep = .ok (mapItems reread (item :: items)) := by
  simp only [depthItems] at hdepth
  obtain ⟨fuel, rfl⟩ := Nat.exists_eq_succ_of_ne_zero (Nat.ne_of_gt (Nat.zero_lt_of_lt hfuel))
  obtain ⟨value, left, next, hvalue, hleft, hkeep⟩ := hitem level fuel cs _ o (by omega) (by omega)
    hcs (stops_renderItems items rest)
  rw [bare_renderItems] at hleft
  obtain ⟨more, stop, hmore, hkeeps⟩ := hitems level fuel left rest next (by omega) (by omega) hleft
  refine ⟨.item o value more, stop, by simp only [scanItem, hvalue, hmore], ?_⟩
  simp [Items.keep, mapItems, hkeep, hkeeps, bind, Except.bind, pure, Except.pure]

theorem renderField_append (name : String) (value : Json) (rest : List Char) :
    (renderField (name, value)).toList ++ rest =
      '"' :: (spelling name ++ '"' :: ':' :: ((render value).toList ++ rest)) := by
  simp [renderField, renderString_toList]

theorem length_lt_renderField (name : String) (value : Json) :
    (render value).length < (renderField (name, value)).length := by
  have hmark : ":".length = 1 := rfl
  simp only [renderField, String.length_append]
  omega

theorem scanField_render (level fuel : Nat) (name : String) {value : Json}
    {fields : List (String × Json)} (hvalue : ScansValue value) (hfields : ScansFields fields)
    (hdepth : level + depthFields ((name, value) :: fields) ≤ depthLimit)
    (hfuel : 3 * ((renderField (name, value)).length + (renderFields fields).length) < fuel)
    (comma : Nat) (rest : List Char) (o : Nat) :
    ∃ doc stop,
      scanField fuel level comma
          ((renderField (name, value)).toList ++ ((renderFields fields).toList ++ rest)) o =
        (doc, rest, stop) ∧
      doc.keep = .ok (mapFields reread ((name, value) :: fields)) := by
  simp only [depthFields] at hdepth
  obtain ⟨fuel, rfl⟩ := Nat.exists_eq_succ_of_ne_zero (Nat.ne_of_gt (Nat.zero_lt_of_lt hfuel))
  obtain ⟨after, hname⟩ := scanText_spelling name
    (':' :: ((render value).toList ++ ((renderFields fields).toList ++ rest))) o
  have hcolon : isSpace ':' = false := by decide
  have hlength := length_lt_renderField name value
  obtain ⟨doc, left, next, hscan, hleft, hkeep⟩ := hvalue level fuel
    ((render value).toList ++ ((renderFields fields).toList ++ rest)) _ (after + 1)
    (by omega) (by omega) rfl (stops_renderFields fields rest)
  rw [bare_renderFields] at hleft
  obtain ⟨more, stop, hmore, hkeeps⟩ := hfields level fuel left rest next (by omega) (by omega) hleft
  refine ⟨.field comma ⟨o, .ok name, none, after⟩ after none doc more, stop, ?_, ?_⟩
  · rw [renderField_append]
    simp [scanField, hname, skipSpace_cons hcolon, scanColon, hscan, hmore]
  · simp [Fields.keep, mapFields, hkeep, hkeeps, bind, Except.bind, pure, Except.pure]

-- A reader of items that comes to a value sees that the list does not end there.
theorem reach_render {json : Json} (h : ∀ n ∈ json.numbers, Readable n) (rest : List Char)
    (o : Nat) :
    ∃ c more stop, skipSpace ((render json).toList ++ rest) o = (c :: more, stop) ∧ c ≠ ']' ∧
      bare (c :: more) = bare ((render json).toList ++ rest) := by
  obtain ⟨c, more, hopen, hc⟩ := bare_render h
  obtain ⟨stop, hskip⟩ := exists_skipSpace ((render json).toList ++ rest) o
  have hbare : bare ((render json).toList ++ rest) = c :: (more ++ rest) := by
    rw [bare_append (by simp [hopen]), hopen, List.cons_append]
  refine ⟨c, more ++ rest, stop, by rw [hskip, hbare], hc, ?_⟩
  rw [← hbare, bare_bare]

-- A text whose first character is not blank is met at that character.
theorem exists_skipSpace_cons {c : Char} (hc : isSpace c = false) {cs rest : List Char}
    (hcs : bare cs = bare (c :: rest)) (o : Nat) :
    ∃ stop, skipSpace cs o = (c :: rest, stop) := by
  rw [bare_cons hc] at hcs
  rw [← hcs]
  exact exists_skipSpace cs o

theorem toList_array_cons (first : Json) (rest : List Json) (tail : List Char) :
    (render (.array (first :: rest))).toList ++ tail =
      '[' :: ((render first).toList ++ ((renderItems rest).toList ++ tail)) := by
  simp [render]

theorem toList_object_cons (first : String × Json) (rest : List (String × Json))
    (tail : List Char) :
    (render (.object (first :: rest))).toList ++ tail =
      '\x7b' :: ((renderField first).toList ++ ((renderFields rest).toList ++ tail)) := by
  simp [render]

theorem toList_items_cons (item : Json) (items : List Json) (tail : List Char) :
    (renderItems (item :: items)).toList ++ tail =
      ',' :: ((render item).toList ++ ((renderItems items).toList ++ tail)) := by
  simp [renderItems]

theorem toList_fields_cons (field : String × Json) (fields : List (String × Json))
    (tail : List Char) :
    (renderFields (field :: fields)).toList ++ tail =
      ',' :: ((renderField field).toList ++ ((renderFields fields).toList ++ tail)) := by
  simp [renderFields]

theorem length_array_cons (first : Json) (rest : List Json) :
    (render (.array (first :: rest))).length =
      1 + ((render first).length + (renderItems rest).length) := by
  have hmark : "[".length = 1 := rfl
  simp only [render, String.length_append]
  omega

theorem length_object_cons (first : String × Json) (rest : List (String × Json)) :
    (render (.object (first :: rest))).length =
      1 + ((renderField first).length + (renderFields rest).length) := by
  have hmark : "\x7b".length = 1 := rfl
  simp only [render, String.length_append]
  omega

theorem length_items_cons (item : Json) (items : List Json) :
    (renderItems (item :: items)).length =
      1 + ((render item).length + (renderItems items).length) := by
  have hmark : ",".length = 1 := rfl
  simp only [renderItems, String.length_append]
  omega

theorem length_fields_cons (field : String × Json) (fields : List (String × Json)) :
    (renderFields (field :: fields)).length =
      1 + ((renderField field).length + (renderFields fields).length) := by
  have hmark : ",".length = 1 := rfl
  simp only [renderFields, String.length_append]
  omega

section Steps

variable {fuel level : Nat} {cs tail : List Char}

theorem scanValue_bracket {rest : List Char} (hcs : bare cs = bare ('[' :: rest)) (o : Nat) :
    ∃ start, scanValue (fuel + 1) level cs o =
      (.array start (level + 1) (scanItems fuel (level + 1) rest (start + 1)).1,
        (scanItems fuel (level + 1) rest (start + 1)).2) := by
  obtain ⟨start, hskip⟩ := exists_skipSpace_cons (show isSpace '[' = false by decide) hcs o
  refine ⟨start, ?_⟩
  rw [scanValue, hskip]
  rfl

theorem scanValue_brace {rest : List Char} (hcs : bare cs = bare ('\x7b' :: rest)) (o : Nat) :
    ∃ start, scanValue (fuel + 1) level cs o =
      (.object start (level + 1) (scanFields fuel (level + 1) rest (start + 1)).1,
        (scanFields fuel (level + 1) rest (start + 1)).2) := by
  obtain ⟨start, hskip⟩ := exists_skipSpace_cons (show isSpace '\x7b' = false by decide) hcs o
  refine ⟨start, ?_⟩
  rw [scanValue, hskip]
  rfl

theorem scanItems_cons {item : Json} {items : List Json} (hread : ∀ n ∈ item.numbers, Readable n)
    (o : Nat) :
    ∃ more next, bare more =
        bare ((render item).toList ++ ((renderItems items).toList ++ tail)) ∧
      scanItems (fuel + 1) level
          ((render item).toList ++ ((renderItems items).toList ++ tail)) o =
        scanItem fuel level more next := by
  obtain ⟨c, more, next, hnext, hc, hbare⟩ :=
    reach_render hread ((renderItems items).toList ++ tail) o
  refine ⟨c :: more, next, hbare, ?_⟩
  rw [scanItems, hnext]
  simp [hc]

theorem scanMoreItems_cons {item : Json} {items : List Json}
    (hread : ∀ n ∈ item.numbers, Readable n)
    (hcs : bare cs = (renderItems (item :: items)).toList ++ tail) (o : Nat) :
    ∃ more next, bare more =
        bare ((render item).toList ++ ((renderItems items).toList ++ tail)) ∧
      scanMoreItems (fuel + 1) level cs o = scanItem fuel level more next := by
  obtain ⟨start, hskip⟩ := exists_skipSpace cs o
  rw [hcs, toList_items_cons] at hskip
  obtain ⟨c, more, next, hnext, hc, hbare⟩ :=
    reach_render hread ((renderItems items).toList ++ tail) (start + 1)
  refine ⟨c :: more, next, hbare, ?_⟩
  rw [scanMoreItems, hskip]
  simp [hnext, hc]

theorem scanFields_cons (name : String) (value : Json) (fields : List (String × Json)) (o : Nat) :
    scanFields (fuel + 1) level
        ((renderField (name, value)).toList ++ ((renderFields fields).toList ++ tail)) o =
      scanField fuel level o
        ((renderField (name, value)).toList ++ ((renderFields fields).toList ++ tail)) o := by
  rw [renderField_append, scanFields, skipSpace_cons (show isSpace '"' = false by decide)]
  rfl

theorem scanMoreFields_cons {name : String} {value : Json} {fields : List (String × Json)}
    (hcs : bare cs = (renderFields ((name, value) :: fields)).toList ++ tail) (o : Nat) :
    ∃ comma next, scanMoreFields (fuel + 1) level cs o = scanField fuel level comma
      ((renderField (name, value)).toList ++ ((renderFields fields).toList ++ tail)) next := by
  obtain ⟨start, hskip⟩ := exists_skipSpace cs o
  rw [hcs, toList_fields_cons] at hskip
  refine ⟨start, start + 1, ?_⟩
  rw [renderField_append] at hskip ⊢
  rw [scanMoreFields, hskip]
  simp [skipSpace_cons (show isSpace '"' = false by decide)]

end Steps

theorem scanWord_append (word rest : List Char) (o : Nat) :
    scanWord word (word ++ rest) o = .ok (rest, o + word.length) := by
  induction word generalizing o with
  | nil => simp [scanWord]
  | cons c word ih => simp [scanWord, ih, Nat.add_assoc, Nat.add_comm 1]

-- A value whose text is one word.
theorem scansValue_named {json : Json} (c : Char) (word : List Char) (make : Nat → Nat → Doc)
    (hc : isSpace c = false) (htext : (render json).toList = c :: word)
    (hscan : ∀ (fuel level : Nat) (cs rest : List Char) (o start : Nat),
      skipSpace cs o = (c :: rest, start) →
      scanValue (fuel + 1) level cs o = scanNamed word make rest start)
    (hkeep : ∀ start stop, (make start stop).keep = .ok (json.mapNumbers reread)) :
    ScansValue json := by
  intro level fuel cs rest o _ hfuel hcs _
  have hlength : 0 < (render json).length := by
    rw [← String.length_toList, htext]
    exact Nat.succ_pos _
  obtain ⟨fuel, rfl⟩ : ∃ f, fuel = f + 1 := ⟨fuel - 1, by omega⟩
  rw [htext, List.cons_append] at hcs
  obtain ⟨start, hskip⟩ := exists_skipSpace_cons hc hcs o
  refine ⟨make start (start + 1 + word.length), rest, start + 1 + word.length, ?_, rfl, hkeep _ _⟩
  rw [hscan fuel level cs (word ++ rest) o start hskip, scanNamed, scanWord_append]

theorem scansValue_null : ScansValue .null := by
  refine scansValue_named 'n' ['u', 'l', 'l'] .null (by decide) rfl ?_ fun _ _ => rfl
  intro fuel level cs rest o start hskip
  rw [scanValue, hskip]
  rfl

theorem scansValue_bool (b : Bool) : ScansValue (.bool b) := by
  cases b with
  | true =>
      refine scansValue_named 't' ['r', 'u', 'e'] (.bool true) (by decide) rfl ?_ fun _ _ => rfl
      intro fuel level cs rest o start hskip
      rw [scanValue, hskip]
      rfl
  | false =>
      refine scansValue_named 'f' ['a', 'l', 's', 'e'] (.bool false) (by decide) rfl ?_ fun _ _ => rfl
      intro fuel level cs rest o start hskip
      rw [scanValue, hskip]
      rfl

theorem scansValue_number {n : Number} (h : Readable n) : ScansValue (.number n) := by
  intro level fuel cs rest o _ hfuel hcs hrest
  have hlength : 0 < (renderNumber n).length := by
    obtain ⟨c, more, -, -, htext, -⟩ := h.spelled
    rw [← String.length_toList]
    cases hchars : (renderNumber n).toList with
    | nil => simp [hchars, bare] at htext
    | cons c more => simp
  rw [render] at hfuel hcs
  obtain ⟨fuel, rfl⟩ : ∃ f, fuel = f + 1 := ⟨fuel - 1, by omega⟩
  obtain ⟨lexeme, left, stop, hscan, hleft, hvalue⟩ :=
    scanValue_renderNumber h fuel level hcs hrest o
  refine ⟨.number lexeme, left, stop, hscan, hleft, ?_⟩
  simp [Doc.keep, hvalue, mapNumbers, bind, Except.bind, pure, Except.pure]

theorem scansValue_string (s : String) : ScansValue (.string s) := by
  intro level fuel cs rest o _ hfuel hcs _
  have htext : (render (.string s)).toList ++ rest = '"' :: (spelling s ++ '"' :: rest) := by
    simp [render, renderString_toList]
  have hlength : 0 < (render (.string s)).length := by
    rw [← String.length_toList, render, renderString_toList]
    simp
  obtain ⟨fuel, rfl⟩ : ∃ f, fuel = f + 1 := ⟨fuel - 1, by omega⟩
  rw [htext] at hcs
  obtain ⟨start, hskip⟩ := exists_skipSpace_cons (show isSpace '"' = false by decide) hcs o
  obtain ⟨stop, hscan⟩ := scanText_spelling s rest start
  refine ⟨.string ⟨start, .ok s, none, stop⟩, rest, stop, ?_, rfl, ?_⟩
  · rw [scanValue, hskip]
    simp only [hscan]
  · simp [Doc.keep, mapNumbers, bind, Except.bind, pure, Except.pure]

theorem scansValue_array_nil : ScansValue (.array []) := by
  intro level fuel cs rest o hdepth hfuel hcs _
  have htext : (render (.array [])).toList ++ rest = '[' :: ']' :: rest := rfl
  have hlength : (render (.array [])).length = 2 := rfl
  obtain ⟨fuel, rfl⟩ : ∃ f, fuel = f + 2 := ⟨fuel - 2, by omega⟩
  rw [htext] at hcs
  obtain ⟨start, hvalue⟩ := scanValue_bracket hcs o
  simp only [depth, depthItems] at hdepth
  refine ⟨.array start (level + 1) (.closed (start + 2)), rest, start + 2, ?_, rfl, ?_⟩
  · rw [hvalue]
    simp [scanItems, skipSpace_cons (show isSpace ']' = false by decide)]
  · simp [Doc.keep, Items.keep, mapNumbers, mapItems, Nat.not_lt.mpr hdepth, bind, Except.bind,
      pure, Except.pure]

theorem scansValue_object_nil : ScansValue (.object []) := by
  intro level fuel cs rest o hdepth hfuel hcs _
  have htext : (render (.object [])).toList ++ rest = '\x7b' :: '\x7d' :: rest := rfl
  have hlength : (render (.object [])).length = 2 := rfl
  obtain ⟨fuel, rfl⟩ : ∃ f, fuel = f + 2 := ⟨fuel - 2, by omega⟩
  rw [htext] at hcs
  obtain ⟨start, hvalue⟩ := scanValue_brace hcs o
  simp only [depth, depthFields] at hdepth
  refine ⟨.object start (level + 1) (.closed (start + 2)), rest, start + 2, ?_, rfl, ?_⟩
  · rw [hvalue]
    simp [scanFields, skipSpace_cons (show isSpace '\x7d' = false by decide)]
  · simp [Doc.keep, Fields.keep, mapNumbers, mapFields, Nat.not_lt.mpr hdepth, bind, Except.bind,
      pure, Except.pure]

theorem scansValue_array_cons {first : Json} {rest : List Json}
    (hread : ∀ n ∈ first.numbers, Readable n) (hfirst : ScansValue first)
    (hrest : ScansItems rest) : ScansValue (.array (first :: rest)) := by
  intro level fuel cs tail o hdepth hfuel hcs _
  rw [length_array_cons] at hfuel
  rw [toList_array_cons] at hcs
  rw [depth] at hdepth
  obtain ⟨fuel, rfl⟩ : ∃ f, fuel = f + 2 := ⟨fuel - 2, by omega⟩
  obtain ⟨start, hvalue⟩ := scanValue_bracket hcs o
  obtain ⟨more, next, hbare, hitems⟩ := scanItems_cons hread (start + 1)
  obtain ⟨doc, stop, hscan, hkeep⟩ := scanItem_render (level + 1) fuel hfirst hrest (by omega)
    (by omega) hbare next
  refine ⟨.array start (level + 1) doc, tail, stop, by rw [hvalue, hitems, hscan], rfl, ?_⟩
  have hlevel : ¬ depthLimit < level + 1 := by omega
  simp [Doc.keep, hlevel, hkeep, mapNumbers, bind, Except.bind, pure, Except.pure]

theorem scansValue_object_cons {name : String} {value : Json} {rest : List (String × Json)}
    (hvalue : ScansValue value) (hrest : ScansFields rest) :
    ScansValue (.object ((name, value) :: rest)) := by
  intro level fuel cs tail o hdepth hfuel hcs _
  rw [length_object_cons] at hfuel
  rw [toList_object_cons] at hcs
  rw [depth] at hdepth
  obtain ⟨fuel, rfl⟩ : ∃ f, fuel = f + 2 := ⟨fuel - 2, by omega⟩
  obtain ⟨start, hobject⟩ := scanValue_brace hcs o
  obtain ⟨doc, stop, hscan, hkeep⟩ := scanField_render (level + 1) fuel name hvalue hrest (by omega)
    (by omega) (start + 1) tail (start + 1)
  refine ⟨.object start (level + 1) doc, tail, stop, by rw [hobject, scanFields_cons, hscan], rfl, ?_⟩
  have hlevel : ¬ depthLimit < level + 1 := by omega
  simp [Doc.keep, hlevel, hkeep, mapNumbers, bind, Except.bind, pure, Except.pure]

theorem scansItems_nil : ScansItems [] := by
  intro level fuel cs rest o _ hfuel hcs
  have htext : (renderItems []).toList ++ rest = ']' :: rest := rfl
  have hlength : (renderItems []).length = 1 := rfl
  obtain ⟨fuel, rfl⟩ : ∃ f, fuel = f + 1 := ⟨fuel - 1, by omega⟩
  obtain ⟨start, hskip⟩ := exists_skipSpace cs o
  rw [hcs, htext] at hskip
  refine ⟨.closed (start + 1), start + 1, ?_, rfl⟩
  rw [scanMoreItems, hskip]
  rfl

theorem scansFields_nil : ScansFields [] := by
  intro level fuel cs rest o _ hfuel hcs
  have htext : (renderFields []).toList ++ rest = '\x7d' :: rest := rfl
  have hlength : (renderFields []).length = 1 := rfl
  obtain ⟨fuel, rfl⟩ : ∃ f, fuel = f + 1 := ⟨fuel - 1, by omega⟩
  obtain ⟨start, hskip⟩ := exists_skipSpace cs o
  rw [hcs, htext] at hskip
  refine ⟨.closed (start + 1), start + 1, ?_, rfl⟩
  rw [scanMoreFields, hskip]
  rfl

theorem scansItems_cons {item : Json} {items : List Json} (hread : ∀ n ∈ item.numbers, Readable n)
    (hitem : ScansValue item) (hitems : ScansItems items) : ScansItems (item :: items) := by
  intro level fuel cs rest o hdepth hfuel hcs
  rw [length_items_cons] at hfuel
  obtain ⟨fuel, rfl⟩ : ∃ f, fuel = f + 1 := ⟨fuel - 1, by omega⟩
  obtain ⟨more, next, hbare, hmore⟩ := scanMoreItems_cons hread hcs o
  obtain ⟨doc, stop, hscan, hkeep⟩ := scanItem_render level fuel hitem hitems hdepth (by omega)
    hbare next
  exact ⟨doc, stop, hmore.trans hscan, hkeep⟩

theorem scansFields_cons {name : String} {value : Json} {fields : List (String × Json)}
    (hvalue : ScansValue value) (hfields : ScansFields fields) :
    ScansFields ((name, value) :: fields) := by
  intro level fuel cs rest o hdepth hfuel hcs
  rw [length_fields_cons] at hfuel
  obtain ⟨fuel, rfl⟩ : ∃ f, fuel = f + 1 := ⟨fuel - 1, by omega⟩
  obtain ⟨comma, next, hmore⟩ := scanMoreFields_cons hcs o
  obtain ⟨doc, stop, hscan, hkeep⟩ := scanField_render level fuel name hvalue hfields hdepth
    (by omega) comma rest next
  exact ⟨doc, stop, hmore.trans hscan, hkeep⟩

mutual
theorem scansValue : ∀ json : Json, (∀ n ∈ json.numbers, Readable n) → ScansValue json
  | .null, _ => scansValue_null
  | .bool b, _ => scansValue_bool b
  | .number n, h => scansValue_number (h n (by simp [numbers]))
  | .string s, _ => scansValue_string s
  | .array [], _ => scansValue_array_nil
  | .array (first :: rest), h => by
      rw [numbers] at h
      obtain ⟨hread, hmore⟩ := forall_numbersItems.1 h
      exact scansValue_array_cons hread (scansValue first hread) (scansItems rest hmore)
  | .object [], _ => scansValue_object_nil
  | .object ((name, value) :: rest), h => by
      rw [numbers] at h
      obtain ⟨hread, hmore⟩ := forall_numbersFields.1 h
      exact scansValue_object_cons (scansValue value hread) (scansFields rest hmore)

theorem scansItems :
    ∀ items : List Json, (∀ n ∈ numbersItems items, Readable n) → ScansItems items
  | [], _ => scansItems_nil
  | item :: rest, h => by
      obtain ⟨hread, hmore⟩ := forall_numbersItems.1 h
      exact scansItems_cons hread (scansValue item hread) (scansItems rest hmore)

theorem scansFields :
    ∀ fields : List (String × Json), (∀ n ∈ numbersFields fields, Readable n) → ScansFields fields
  | [], _ => scansFields_nil
  | (name, value) :: rest, h => by
      obtain ⟨hread, hmore⟩ := forall_numbersFields.1 h
      exact scansFields_cons (scansValue value hread) (scansFields rest hmore)
end

-- The text of a value is read as that value, each number as what its own text reads as.
theorem ofText_render {json : Json} (hread : ∀ n ∈ json.numbers, Readable n)
    (hdepth : json.depth ≤ depthLimit) : ofText json.render = .ok (json.mapNumbers reread) := by
  obtain ⟨doc, left, stop, hscan, hleft, hkeep⟩ := scansValue json hread 0
    (3 * json.render.toList.length + 3) json.render.toList [] 0 (by omega)
    (by rw [String.length_toList]; omega) (by rw [List.append_nil]) Stops.nil
  obtain ⟨hroot, htrailing⟩ := scan_of_scanValue hscan
  obtain ⟨last, hlast⟩ := exists_skipSpace left stop
  have hend : skipSpace left stop = ([], last) := by rw [hlast, hleft]; rfl
  exact ofText_eq_ok_iff.mpr ⟨by rw [hroot, hkeep], htrailing.mpr ⟨last, hend⟩⟩

end Patchbay.Json
