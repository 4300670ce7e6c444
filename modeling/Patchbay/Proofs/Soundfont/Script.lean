import Mathlib.Data.List.Infix
import Mathlib.Data.List.Nodup
import Patchbay.Proofs.Soundfont.Base64
import Patchbay.Proofs.Keyed
import Patchbay.Proofs.Pitch.Names
import Patchbay.Proofs.Json.RoundTrip
import Patchbay.Soundfont.Script

namespace Patchbay

namespace Json

open Soundfont (readTexts)

def textField (field : String × String) : List Char :=
  '"' :: (spelling field.1 ++ '"' :: ':' :: ' ' :: '"' :: (spelling field.2 ++ ['"']))

-- Fields behind others, and fields from the first on, each with the same blanks before it.
def moreTexts (gap : List Char) (fields : List (String × String)) : List Char :=
  fields.flatMap fun field => ',' :: (gap ++ textField field)

def texts (gap : List Char) : List (String × String) → List Char
  | [] => []
  | field :: fields => gap ++ (textField field ++ moreTexts gap fields)

-- A reader of texts finds these fields.
def Tells (fields : List (String × String)) (scanned : Fields × List Char × Nat) (rest : List Char) :
    Prop :=
  readTexts scanned.1 = pure fields ∧ scanned.2.1 = rest

variable {fuel : Nat} {gap rest : List Char} {fields : List (String × String)}

theorem scanValue_text (value : String) (fuel level : Nat) (rest : List Char) (o : Nat) :
    ∃ lexeme stop, scanValue (fuel + 1) level (' ' :: '"' :: (spelling value ++ '"' :: rest)) o =
      (.string lexeme, rest, stop) ∧ lexeme.value = .ok value := by
  obtain ⟨stop, hscan⟩ := scanText_spelling value rest (o + 1)
  refine ⟨⟨o + 1, .ok value, none, stop⟩, stop, ?_, rfl⟩
  have hskip : skipSpace (' ' :: '"' :: (spelling value ++ '"' :: rest)) o =
      ('"' :: (spelling value ++ '"' :: rest), o + 1) := by
    rw [skipSpace, if_pos (by decide), skipSpace_cons (by decide)]
  rw [scanValue, hskip]
  simp only [hscan]

theorem scanField_text (field : String × String) {level : Nat} {cs : List Char} (hfuel : 0 < fuel)
    (hmore : ∀ o, Tells fields (scanMoreFields fuel level cs o) rest) (comma o : Nat) :
    Tells (field :: fields) (scanField (fuel + 1) level comma (textField field ++ cs) o) rest := by
  obtain ⟨name, value⟩ := field
  obtain ⟨fuel, rfl⟩ := Nat.exists_eq_succ_of_ne_zero (Nat.ne_of_gt hfuel)
  obtain ⟨after, hname⟩ := scanText_spelling name
    (':' :: ' ' :: '"' :: (spelling value ++ '"' :: cs)) o
  obtain ⟨lexeme, stop, hvalue, htext⟩ := scanValue_text value fuel level cs (after + 1)
  obtain ⟨hread, hleft⟩ := hmore stop
  have hcolon : isSpace ':' = false := by decide
  have hcs : textField (name, value) ++ cs =
      '"' :: (spelling name ++ '"' :: ':' :: ' ' :: '"' :: (spelling value ++ '"' :: cs)) := by
    simp [textField]
  rw [hcs]
  unfold Tells
  simp only [scanField, hname, skipSpace_cons hcolon, scanColon, hvalue]
  refine ⟨?_, hleft⟩
  simp [readTexts, liftExcept, Decode.refuse, Source.text, htext, hread]

-- Past its blanks a field starts with a quote.
theorem exists_skipSpace_textField (hgap : bare gap = []) (field : String × String) (cs : List Char)
    (o : Nat) : ∃ more stop, skipSpace (gap ++ (textField field ++ cs)) o = ('"' :: more, stop) ∧
      textField field ++ cs = '"' :: more := by
  have hquote : isSpace '"' = false := by decide
  obtain ⟨stop, hstop⟩ := exists_skipSpace_cons hquote (bare_append_of_nil hgap _) o
  exact ⟨_, stop, hstop, rfl⟩

-- A field takes two units of fuel, one for itself and one for what follows it.
theorem exists_fuel {field : String × String} (h : 2 * (field :: fields).length < fuel) :
    ∃ left, fuel = left + 2 ∧ 2 * fields.length < left := by
  rw [List.length_cons] at h
  exact ⟨fuel - 2, by omega, by omega⟩

theorem scanMoreFields_texts (hgap : bare gap = []) (hfuel : 2 * fields.length < fuel)
    (level : Nat) (rest : List Char) (o : Nat) :
    Tells fields (scanMoreFields fuel level (moreTexts gap fields ++ '\x7d' :: rest) o) rest := by
  induction fields generalizing fuel o with
  | nil =>
      obtain ⟨fuel, rfl⟩ := Nat.exists_eq_succ_of_ne_zero (Nat.ne_of_gt hfuel)
      have hclose : isSpace '\x7d' = false := by decide
      simp [Tells, moreTexts, scanMoreFields, skipSpace_cons hclose, readTexts, Decode.refuse,
        Fields.ending]
  | cons field fields ih =>
      obtain ⟨fuel, rfl, hless⟩ := exists_fuel hfuel
      have hcomma : isSpace ',' = false := by decide
      obtain ⟨more, start, hskip, hmore⟩ := exists_skipSpace_textField hgap field
        (moreTexts gap fields ++ '\x7d' :: rest) (o + 1)
      have hcs : moreTexts gap (field :: fields) ++ '\x7d' :: rest =
          ',' :: (gap ++ (textField field ++ (moreTexts gap fields ++ '\x7d' :: rest))) := by
        simp [moreTexts]
      rw [hcs, scanMoreFields, skipSpace_cons hcomma]
      simp only [hskip]
      rw [← hmore]
      exact scanField_text field (Nat.zero_lt_of_lt hless) (fun o => ih hless o) o start

theorem scanFields_texts (hgap : bare gap = []) (hfuel : 2 * fields.length < fuel)
    (level : Nat) (rest : List Char) (o : Nat) :
    Tells fields (scanFields fuel level (texts gap fields ++ '\x7d' :: rest) o) rest := by
  cases fields with
  | nil =>
      obtain ⟨fuel, rfl⟩ := Nat.exists_eq_succ_of_ne_zero (Nat.ne_of_gt hfuel)
      have hclose : isSpace '\x7d' = false := by decide
      simp [Tells, texts, scanFields, skipSpace_cons hclose, readTexts, Decode.refuse, Fields.ending]
  | cons field fields =>
      obtain ⟨fuel, rfl, hless⟩ := exists_fuel hfuel
      obtain ⟨more, start, hskip, hmore⟩ := exists_skipSpace_textField hgap field
        (moreTexts gap fields ++ '\x7d' :: rest) o
      have hcs : texts gap (field :: fields) ++ '\x7d' :: rest =
          gap ++ (textField field ++ (moreTexts gap fields ++ '\x7d' :: rest)) := by
        simp [texts]
      rw [hcs, scanFields, hskip, ← hmore]
      exact scanField_text field (Nat.zero_lt_of_lt hless)
        (fun o => scanMoreFields_texts hgap hless level rest o) start start

theorem length_le_texts (gap : List Char) (fields : List (String × String)) :
    fields.length ≤ (texts gap fields).length := by
  have hmore (fields : List (String × String)) : fields.length ≤ (moreTexts gap fields).length := by
    induction fields with
    | nil => exact Nat.le_refl 0
    | cons field fields ih =>
        simp only [moreTexts, List.flatMap_cons, List.length_append, List.length_cons] at ih ⊢
        omega
  cases fields with
  | nil => exact Nat.le_refl 0
  | cons field fields =>
      have hfields := hmore fields
      simp only [texts, textField, List.length_append, List.length_cons]
      omega

-- Fields end with a quote, so that neither a comma nor a blank at the end is theirs.
theorem getLast?_texts (gap : List Char) (fields : List (String × String)) :
    ∀ c ∈ (texts gap fields).getLast?, c = '"' := by
  have hmore (field : String × String) (fields : List (String × String)) :
      (textField field ++ moreTexts gap fields).getLast? = some '"' := by
    induction fields generalizing field with
    | nil => simp [textField, moreTexts, List.getLast?_cons]
    | cons next fields ih =>
        have hsplit : moreTexts gap (next :: fields) =
            (',' :: gap) ++ (textField next ++ moreTexts gap fields) := by simp [moreTexts]
        rw [hsplit, List.getLast?_append, List.getLast?_append, ih]
        rfl
  cases fields with
  | nil => simp [texts]
  | cons field fields =>
      rw [texts, List.getLast?_append, hmore]
      simp

theorem intercalate_textField (gap : List Char) (fields : List (String × String)) :
    [','].intercalate (fields.map fun field => gap ++ textField field) = texts gap fields := by
  induction fields with
  | nil => rfl
  | cons field fields ih =>
      cases fields with
      | nil => simp [texts, moreTexts]
      | cons next fields =>
          rw [List.map_cons] at ih
          rw [List.map_cons, List.map_cons, List.intercalate_cons_cons, ih]
          simp [texts, moreTexts]

theorem scanValue_object (fuel level : Nat) (cs : List Char) (o : Nat) :
    scanValue (fuel + 1) level ('\x7b' :: cs) o =
      (.object o (level + 1) (scanFields fuel (level + 1) cs (o + 1)).1,
        (scanFields fuel (level + 1) cs (o + 1)).2) := by
  rw [scanValue, skipSpace_cons (by decide)]
  rfl

-- An object of texts is read as its fields.
theorem wholeText_texts (hgap : bare gap = []) {text : String}
    (htext : text.toList = '\x7b' :: (texts gap fields ++ ['\x7d'])) :
    wholeText Soundfont.readEntries text = pure fields := by
  have hfuel : 2 * fields.length < 3 * text.toList.length + 2 := by
    have hlength := length_le_texts gap fields
    simp only [htext, List.length_append, List.length_cons]
    omega
  obtain ⟨hread, hleft⟩ := scanFields_texts hgap hfuel 1 [] 1
  have hscan : scanValue (3 * text.toList.length + 3) 0 text.toList 0 = (.object 0 1
      (scanFields (3 * text.toList.length + 2) 1 (texts gap fields ++ ['\x7d']) 1).1, [],
      (scanFields (3 * text.toList.length + 2) 1 (texts gap fields ++ ['\x7d']) 1).2.2) := by
    generalize text.toList.length = n at hleft ⊢
    rw [htext, scanValue_object]
    exact congrArg (Prod.mk _) (Prod.ext hleft rfl)
  obtain ⟨hroot, htrailing⟩ := scan_of_scanValue hscan
  simp [wholeText, hroot, htrailing.2 ⟨_, rfl⟩, Soundfont.readEntries, hread]

end Json

theorem toList_loop (bytes : ByteArray) (i : Nat) (known : List UInt8) :
    ByteArray.toList.loop bytes i known = known.reverse ++ bytes.data.toList.drop i := by
  fun_induction ByteArray.toList.loop bytes i known with
  | case1 i known h ih =>
      have hsize : i < bytes.data.toList.length := by simpa using h
      have hget : bytes.get! i = bytes.data.toList[i] := by simp [ByteArray.get!, h]
      rw [ih, List.drop_eq_getElem_cons hsize, hget]
      simp
  | case2 i known h =>
      have hsize : bytes.data.toList.length ≤ i := by simpa using h
      simp [List.drop_eq_nil_of_le hsize]

theorem toList_toByteArray (bytes : List UInt8) : bytes.toByteArray.toList = bytes := by
  rw [ByteArray.toList, toList_loop]
  simp

namespace Json

-- Characters that stand for themselves between quotes.
def Plain (c : Char) : Prop := escapedChar c = String.ofList [c]

instance : DecidablePred Plain := fun c => inferInstanceAs (Decidable (escapedChar c = _))

theorem spelling_of_plain {s : String} (h : ∀ c ∈ s.toList, Plain c) : spelling s = s.toList := by
  have hcs (cs : List Char) (h : ∀ c ∈ cs, Plain c) :
      (cs.flatMap fun c => (escapedChar c).toList) = cs := by
    induction cs with
    | nil => rfl
    | cons c cs ih =>
        rw [List.flatMap_cons, h c List.mem_cons_self,
          ih fun other hother => h other (List.mem_cons_of_mem _ hother)]
        simp
  exact hcs s.toList h

end Json

namespace Soundfont

-- A pattern whose first character does not come back in it starts at its first place or not at all.
theorem dropTo_append {p : Char} {ps before : List Char} (hp : p ∉ ps)
    (h : ¬ p :: ps <:+: before) (rest : List Char) :
    dropTo (p :: ps) (before ++ (p :: ps ++ rest)) = some (p :: ps ++ rest) := by
  induction before with
  | nil =>
      have hprefix : (p :: ps).isPrefixOf (p :: (ps ++ rest)) = true :=
        List.isPrefixOf_iff_prefix.2 (List.prefix_append (p :: ps) rest)
      rw [List.nil_append, List.cons_append, dropTo, if_pos hprefix]
  | cons c before ih =>
      -- A pattern that starts here lies within what is before, or reaches into the one behind it, and
      -- then its first character stands in it once more.
      have hnot : ¬ p :: ps <+: c :: before ++ (p :: ps ++ rest) := by
        rintro ⟨tail, htail⟩
        rcases List.append_eq_append_iff.1 htail with ⟨more, heq, -⟩ | ⟨more, heq, hmore⟩
        · exact h (heq ▸ (List.prefix_append _ _).isInfix)
        cases more with
        | nil => exact h (by rw [heq, List.append_nil])
        | cons next more =>
            obtain rfl : p = next := (List.cons.inj hmore).1
            exact hp ((List.cons.inj heq).2 ▸ by simp)
      have hprefix : ¬(p :: ps).isPrefixOf (c :: before ++ (p :: ps ++ rest)) = true :=
        fun hpre => hnot (List.isPrefixOf_iff_prefix.1 hpre)
      rw [List.cons_append] at hprefix ⊢
      rw [dropTo, if_neg hprefix]
      exact ih fun hinfix => h (List.infix_cons_iff.2 (.inr hinfix))

theorem upToBrace_append {after : List Char} (h : '\x7d' ∉ after) (body : List Char) :
    upToBrace (body ++ '\x7d' :: after) = some body := by
  have hdrop : (body ++ '\x7d' :: after).reverse.dropWhile (· != '\x7d') =
      '\x7d' :: body.reverse := by
    rw [List.reverse_append, List.reverse_cons, List.append_assoc,
      List.dropWhile_append_of_pos (fun c hc => by
        have hne : c ≠ '\x7d' := fun heq => h (heq ▸ List.mem_reverse.1 hc)
        simpa using hne)]
    rfl
  rw [upToBrace, hdrop]
  simp

theorem trimEndChars_append {close : List Char} (h : ∀ c ∈ close, Text.isBlank c = true)
    (cs : List Char) : Text.trimEndChars (cs ++ close) = Text.trimEndChars cs := by
  rw [Text.trimEndChars, List.reverse_append,
    List.dropWhile_append_of_pos fun c hc => h c (List.mem_reverse.1 hc)]
  rfl

theorem trimEndChars_concat {c : Char} (h : Text.isBlank c = false) (cs : List Char) :
    Text.trimEndChars (cs ++ [c]) = cs ++ [c] := by
  simp [Text.trimEndChars, h]

theorem dropComma_trimEndChars {cs close : List Char} (hclose : ∀ c ∈ close, Text.isBlank c = true)
    (hlast : ∀ c ∈ cs.getLast?, c ≠ ',' ∧ Text.isBlank c = false) (comma : Bool) :
    dropComma (Text.trimEndChars (cs ++ ((if comma then [','] else []) ++ close))) = cs := by
  rw [← List.append_assoc, trimEndChars_append hclose]
  cases comma with
  | true =>
      rw [if_pos rfl, trimEndChars_concat (by decide)]
      simp [dropComma]
  | false =>
      rw [if_neg (by decide), List.append_nil]
      cases cs using List.reverseRecOn with
      | nil => rfl
      | append_singleton cs c =>
          obtain ⟨hcomma, hblank⟩ := hlast c (by simp)
          rw [trimEndChars_concat hblank]
          simp [dropComma, hcomma]

-- The signs of base 64, padding included, are letters, digits and marks of one byte.
theorem symbols_plain : ∀ c ∈ '=' :: Base64.alphabet, Json.Plain c ∧ Text.isBlank c = false ∧
    String.utf8EncodeChar c = [Base64.code c] :=
  List.forall_iff_forall_mem.1 (by decide +kernel)

theorem noteName_plain {n : Nat} (h : n < 256) :
    ∀ c ∈ (Pitch.noteName n).toList, Json.Plain c := by
  -- Classes and octaves are few enough to be looked at one by one.
  have hnames : ∀ k < 12, (Pitch.names.getD k "").toList.Forall Json.Plain := by decide +kernel
  have hoctaves : ∀ octave < 22, (toString ((octave : Nat) - 1 : Int)).toList.Forall Json.Plain := by
    decide +kernel
  intro c hc
  rw [Pitch.noteName, String.toList_append] at hc
  rcases List.mem_append.1 hc with hc | hc
  · exact List.forall_iff_forall_mem.1 (hnames _ (by omega)) c hc
  · exact List.forall_iff_forall_mem.1 (hoctaves (n / 12) (by omega)) c (by simpa using hc)

theorem noteOf_noteName {n : Nat} (h : n < 256) : noteOf (Pitch.noteName n) = some n := by
  have hword : Pitch.Word n := by
    unfold Pitch.Word
    omega
  rw [noteOf, Pitch.noteNumber_noteName (by omega), Option.map_some, hword.toInt_ofInt]
  exact if_pos h

def uriHead : String := "data:audio/mp3;base64,"

-- Where the encoded audio of a note stands.
def uri (bytes : List UInt8) : String := uriHead ++ String.ofList (Base64.encode bytes)

theorem uri_toList (bytes : List UInt8) :
    (uri bytes).toList = uriHead.toList ++ Base64.encode bytes := by
  rw [uri, String.toList_append, String.toList_ofList]

theorem uri_plain (bytes : List UInt8) : ∀ c ∈ (uri bytes).toList, Json.Plain c := by
  have hhead : ∀ c ∈ uriHead.toList, Json.Plain c :=
    List.forall_iff_forall_mem.1 (by decide +kernel)
  intro c hc
  rw [uri_toList] at hc
  rcases List.mem_append.1 hc with hc | hc
  · exact hhead c hc
  · exact (symbols_plain c (Base64.mem_encode bytes c hc)).1

theorem trim_ofList {cs : List Char} (h : ∀ c ∈ cs, Text.isBlank c = false) :
    Text.trim (String.ofList cs) = String.ofList cs := by
  have hdrop (cs : List Char) (h : ∀ c ∈ cs, Text.isBlank c = false) :
      cs.dropWhile Text.isBlank = cs := by
    cases cs with
    | nil => rfl
    | cons c cs => simp [h c List.mem_cons_self]
  rw [Text.trim, String.toList_ofList, hdrop cs h, Text.trimEndChars,
    hdrop cs.reverse fun c hc => h c (List.mem_reverse.1 hc), List.reverse_reverse]

theorem toUTF8_ofList {cs : List Char}
    (h : ∀ c ∈ cs, String.utf8EncodeChar c = [Base64.code c]) :
    (String.ofList cs).toUTF8.toList = cs.map Base64.code := by
  rw [String.toUTF8, String.toByteArray_ofList, List.utf8Encode, toList_toByteArray,
    List.flatMap_congr h, List.map_eq_flatMap]

theorem decode_uri (bytes : List UInt8) :
    Base64.decode (Text.trim (uriData (uri bytes))).toUTF8.toList = .ok bytes := by
  have hdata : uriData (uri bytes) = String.ofList (Base64.encode bytes) := by
    rw [uriData, uri_toList]
    simp [uriHead]
  have hsymbols (c : Char) (hc : c ∈ Base64.encode bytes) :=
    symbols_plain c (Base64.mem_encode bytes c hc)
  rw [hdata, trim_ofList fun c hc => (hsymbols c hc).2.1,
    toUTF8_ofList fun c hc => (hsymbols c hc).2.2, Base64.decode_encode]

-- The note and the audio that a field is read as.
def entryOf? (field : String × String) : Option (Nat × List UInt8) :=
  (noteOf field.1).bind fun note =>
    match Base64.decode (Text.trim (uriData field.2)).toUTF8.toList with
    | .ok bytes => some (note, bytes)
    | .error _ => none

-- Where every field is that of an entry, the entries are put in order one after the other.
theorem decodeEntries_of_entryOf? {fields : List (String × String)}
    (h : ∀ field ∈ fields, (entryOf? field).isSome) (notes : List (Nat × List UInt8)) :
    decodeEntries fields notes = pure ((fields.filterMap entryOf?).foldl
      (fun notes entry => Keyed.insert entry.1 entry.2 notes) notes) := by
  induction fields generalizing notes with
  | nil => rfl
  | cons field fields ih =>
      obtain ⟨name, uri⟩ := field
      obtain ⟨hfirst, hrest⟩ := List.forall_mem_cons.1 h
      obtain ⟨⟨note, bytes⟩, hentry⟩ := Option.isSome_iff_exists.1 hfirst
      obtain ⟨found, hname, huri⟩ := Option.bind_eq_some_iff.1 hentry
      simp only at hname huri
      cases hbytes : Base64.decode (Text.trim (uriData uri)).toUTF8.toList with
      | error fault => simp only [hbytes, reduceCtorEq] at huri
      | ok audio =>
          simp only [hbytes, Option.some.injEq, Prod.mk.injEq] at huri
          obtain ⟨rfl, rfl⟩ := huri
          simp only [decodeEntries, hname, hbytes, List.filterMap_cons, hentry, List.foldl_cons]
          exact ih hrest _

theorem header_eq : header = 'M' :: "IDI.Soundfont.".toList := by
  unfold header
  simp

theorem isBlank_of_isSpace {c : Char} (h : Json.isSpace c = true) : Text.isBlank c = true := by
  simp only [Json.isSpace, Bool.or_eq_true, beq_iff_eq] at h
  rcases h with ((rfl | rfl) | rfl) | rfl <;> decide

def field (entry : Nat × List UInt8) : String × String := (Pitch.noteName entry.1, uri entry.2)

theorem entryOf?_field {entry : Nat × List UInt8} (h : entry.1 < 256) :
    entryOf? (field entry) = some entry := by
  simp only [entryOf?, field, noteOf_noteName h, Option.bind_some, decode_uri]

def entryText (entry : Nat × List UInt8) : String :=
  "\"" ++ Pitch.noteName entry.1 ++ "\": \"" ++ uri entry.2 ++ "\""

theorem entryText_toList {entry : Nat × List UInt8} (h : entry.1 < 256) :
    (entryText entry).toList = Json.textField (field entry) := by
  simp [entryText, Json.textField, field, Json.spelling_of_plain (noteName_plain h),
    Json.spelling_of_plain (uri_plain entry.2)]

-- A script that assigns notes with their audio, each note once, in any order. What stands before the
-- assignment does not look like one, and the braces around the entries are the first behind the name
-- and the last of all.
structure Script where
  before : String
  name : String
  entries : List (Nat × List UInt8)
  -- The blanks before each entry, and those before the closing brace.
  gap : String
  close : String
  -- Whether a comma stands behind the last entry.
  comma : Bool
  after : String
  before_free : ¬ header <:+: before.toList
  name_free : '\x7b' ∉ name.toList
  after_free : '\x7d' ∉ after.toList
  gap_blank : ∀ c ∈ gap.toList, Json.isSpace c = true
  close_blank : ∀ c ∈ close.toList, Json.isSpace c = true
  notes : ∀ entry ∈ entries, entry.1 < 256
  once : (entries.map Prod.fst).Nodup

namespace Script

def text (script : Script) : String :=
  script.before ++ "MIDI.Soundfont." ++ script.name ++ " = \x7b" ++
    ",".intercalate (script.entries.map fun entry => script.gap ++ entryText entry) ++
    (if script.comma then "," else "") ++ script.close ++ "\x7d" ++ script.after

variable (script : Script)

def fields : List (String × String) := script.entries.map field

-- What stands between the braces.
def body : List Char :=
  Json.texts script.gap.toList script.fields ++
    ((if script.comma then [','] else []) ++ script.close.toList)

theorem text_toList : script.text.toList = script.before.toList ++ (header ++
    (script.name.toList ++ " = ".toList ++
      '\x7b' :: (script.body ++ '\x7d' :: script.after.toList))) := by
  have hentries : (script.entries.map fun entry => script.gap ++ entryText entry).map String.toList =
      script.fields.map fun field => script.gap.toList ++ Json.textField field := by
    rw [fields, List.map_map, List.map_map]
    refine List.map_congr_left fun entry hentry => ?_
    simp [entryText_toList (script.notes entry hentry)]
  have hbody : (",".intercalate
      (script.entries.map fun entry => script.gap ++ entryText entry)).toList =
      Json.texts script.gap.toList script.fields := by
    simp only [String.toList_intercalate, hentries]
    exact Json.intercalate_textField ..
  have hcomma : (if script.comma then "," else "").toList = if script.comma then [','] else [] := by
    cases script.comma <;> simp
  have hheader : "MIDI.Soundfont.".toList = header := rfl
  have hopen : " = \x7b".toList = " = ".toList ++ ['\x7b'] := by simp
  have hclose : "\x7d".toList = ['\x7d'] := by simp
  simp only [text, String.toList_append, hbody, hcomma, hheader, hopen, hclose, body,
    List.append_assoc, List.cons_append, List.nil_append]

-- The entries are found between the first brace behind the name and the last one of all, without the
-- comma and the blanks behind them.
theorem entriesText_text : ∃ text, entriesText script.text = some text ∧
    text.toList = '\x7b' :: (Json.texts script.gap.toList script.fields ++ ['\x7d']) := by
  refine ⟨String.ofList _, ?_, String.toList_ofList⟩
  have hassigned (rest : List Char) :
      dropTo header (script.before.toList ++ (header ++ rest)) = some (header ++ rest) := by
    have hbefore := script.before_free
    rw [header_eq] at hbefore ⊢
    exact dropTo_append (by simp) hbefore rest
  have hopened (rest : List Char) : dropTo ['\x7b']
      (header ++ (script.name.toList ++ " = ".toList ++ '\x7b' :: rest)) = some ('\x7b' :: rest) := by
    have hname : ¬ ['\x7b'] <:+: header ++ (script.name.toList ++ " = ".toList) := by
      simp [List.singleton_infix_iff, header_eq, script.name_free]
    rw [← List.append_assoc]
    exact dropTo_append (by simp) hname rest
  have hbody : dropComma (Text.trimEndChars script.body) =
      Json.texts script.gap.toList script.fields := by
    refine dropComma_trimEndChars
      (fun c hc => isBlank_of_isSpace (script.close_blank c hc)) (fun c hc => ?_) script.comma
    obtain rfl := Json.getLast?_texts _ _ c hc
    decide
  rw [entriesText, text_toList, hassigned]
  simp only [Option.bind_eq_bind, Option.bind_some, hopened, List.drop_one, List.tail_cons,
    upToBrace_append script.after_free, hbody]
  rfl

-- Notes have different names since the note is read back from its name.
theorem names_nodup : (script.fields.map Prod.fst).Nodup := by
  have hnumbers : (script.fields.map Prod.fst).map noteOf =
      (script.entries.map Prod.fst).map some := by
    rw [fields, List.map_map, List.map_map, List.map_map]
    exact List.map_congr_left fun entry hentry => noteOf_noteName (script.notes entry hentry)
  refine List.Nodup.of_map noteOf ?_
  rw [hnumbers]
  exact script.once.map (Option.some_injective _)

theorem filterMap_fields : script.fields.filterMap entryOf? = script.entries := by
  have hsome : script.entries.filterMap (entryOf? ∘ field) = script.entries.filterMap some :=
    List.filterMap_congr fun entry hentry => entryOf?_field (script.notes entry hentry)
  rw [fields, List.filterMap_map, hsome, List.filterMap_some]

theorem isSome_of_mem_fields : ∀ found ∈ script.fields, (entryOf? found).isSome := by
  intro found h
  obtain ⟨entry, hentry, rfl⟩ := List.mem_map.1 h
  rw [entryOf?_field (script.notes entry hentry)]
  rfl

end Script

-- The notes of a script are read back as they were written, in ascending order, and nothing is said
-- about them.
theorem parse_text (script : Script) (warnings : List Warning) :
    ∃ notes, parse script.text warnings = .ok notes warnings ∧ notes.Perm script.entries ∧
      notes.Pairwise fun a b => a.1 < b.1 := by
  have hgap : Json.bare script.gap.toList = [] := List.dropWhile_eq_nil_iff.2 script.gap_blank
  obtain ⟨text, htext, hchars⟩ := script.entriesText_text
  have hread : (Json.wholeText readEntries text).run [] = .ok script.fields [] := by
    rw [Json.wholeText_texts hgap hchars]
    rfl
  -- The object is read in the order of its names, which is not that of the notes.
  have hfields := Keyed.ofList_perm script.names_nodup
  have hentries : ((Keyed.ofList script.fields).filterMap entryOf?).Perm script.entries :=
    (hfields.filterMap entryOf?).trans (.of_eq script.filterMap_fields)
  refine ⟨Keyed.ofList ((Keyed.ofList script.fields).filterMap entryOf?), ?_, ?_,
    Keyed.ascends_ofList _⟩
  · simp only [parse, htext, hread, decodeEntries_of_entryOf? fun found h =>
      script.isSome_of_mem_fields found (hfields.mem_iff.1 h)]
    rfl
  · exact (Keyed.ofList_perm ((hentries.map Prod.fst).nodup_iff.2 script.once)).trans hentries

-- Two notes that are not in order, with a comma too many.
def marimba : Script where
  before := "if (typeof(MIDI) === 'undefined') var MIDI = \x7b\x7d;\n"
  name := "marimba"
  entries := [(22, [3, 4, 5]), (21, [0, 1])]
  gap := "\n"
  close := "\n"
  comma := true
  after := "\n"
  before_free := by decide +kernel
  name_free := by decide +kernel
  after_free := by decide +kernel
  gap_blank := by simp [Json.isSpace]
  close_blank := by simp [Json.isSpace]
  notes := by decide
  once := by decide

theorem marimba_parsed :
    marimba.text = "if (typeof(MIDI) === 'undefined') var MIDI = \x7b\x7d;\n" ++
      "MIDI.Soundfont.marimba = \x7b\n\"Bb0\": \"data:audio/mp3;base64,AwQF\",\n" ++
      "\"A0\": \"data:audio/mp3;base64,AAE=\",\n\x7d\n" ∧
    ∃ notes, parse marimba.text [] = .ok notes [] ∧ notes.Perm marimba.entries ∧
      notes.Pairwise fun a b => a.1 < b.1 :=
  ⟨by decide +kernel, parse_text marimba []⟩

end Soundfont

end Patchbay
