import Mathlib.Data.List.Pairwise
import Patchbay.Proofs.Json.RoundTrip
import Patchbay.Settings.Bank
import Patchbay.Settings.Reverb
import Patchbay.Settings.SampleVoice
import Patchbay.Settings.Subtractive
import Patchbay.Soundfont.Location

namespace Patchbay.Json

variable {δ α γ : Type}

namespace Decode

-- The reader gives a value, and no warning.
def gives (read : Decode α) : Bool :=
  match read.run [] with
  | .ok _ [] => true
  | _ => false

variable {read : Decode α} {a : α} {w w' : List Warning}

theorem gives_iff : read.gives ↔ ∃ a, read.run [] = .ok a [] := by
  unfold gives
  split
  · next a hread => simp [hread]
  · next hnot => simpa using hnot

theorem run_bind {next : α → Decode γ} (h : read.run w = .ok a w') :
    (read >>= next).run w = (next a).run w' := by
  change EStateM.bind read next w = next a w'
  rw [EStateM.bind, show read w = .ok a w' from h]

theorem ok_of_bind {next : α → Decode γ} {c : γ} (h : (read >>= next).run w = .ok c w') :
    ∃ a w'', read.run w = .ok a w'' ∧ (next a).run w'' = .ok c w' := by
  change EStateM.bind read next w = .ok c w' at h
  unfold EStateM.bind at h
  split at h
  · next a w'' hread => exact ⟨a, w'', hread, h⟩
  · contradiction

theorem run_map (h : read.run w = .ok a w') (f : α → γ) : (f <$> read).run w = .ok (f a) w' := by
  change EStateM.map f read w = _
  rw [EStateM.map, show read w = .ok a w' from h]

theorem run_placed (h : read.run w = .ok a w') (offset : Nat) :
    (read.placed offset).run w = .ok a w' := by
  change read.placed offset w = _
  rw [placed, show read w = .ok a w' from h]

end Decode

-- The names a member goes by, how its value is read, and where the record has it.
structure Slot (δ α : Type) where
  {β : Type}
  name : String
  aliases : List String
  read : δ → Decode β
  get : α → β
  set : β → α → α
  get_set : ∀ b a, get (set b a) = b

namespace Slot

def names (slot : Slot δ α) : List String := slot.name :: slot.aliases

def field (slot : Slot δ α) : Field δ α :=
  ⟨slot.name, slot.aliases, false, fun d => slot.set <$> slot.read d⟩

-- What is given for the member, under whichever of its names.
def found (slot : Slot δ α) (given : List (String × δ)) : List δ :=
  (given.filter fun (key, _) => key ∈ slot.names).map Prod.snd

-- The member is not given, or it is given once and can be read.
def readable (slot : Slot δ α) (given : List (String × δ)) : Bool :=
  match slot.found given with
  | [] => true
  | [d] => (slot.read d).gives
  | _ => false

-- The record has the member's value from what is given, or else from the base.
def Takes (slot : Slot δ α) (base : α) (given : List (String × δ)) (a : α) : Prop :=
  match slot.found given with
  | [] => slot.get a = slot.get base
  | [d] => (slot.read d).run [] = .ok (slot.get a) []
  | _ => False

-- No name is shared, and neither is touched when the other is set.
structure Apart (slot other : Slot δ α) : Prop where
  names : slot.names.Disjoint other.names
  left : ∀ b a, other.get (slot.set b a) = other.get a
  right : ∀ b a, slot.get (other.set b a) = slot.get a

-- A number that goes by one name.
def float [Source δ] (name : String) (get : α → Float) (set : Float → α → α)
    (get_set : ∀ x a, get (set x a) = x) : Slot δ α :=
  ⟨name, [], Source.float, get, set, get_set⟩

-- The member of a part, as a member of the whole.
def within (get : γ → α) (set : α → γ → γ) (get_set : ∀ a c, get (set a c) = a)
    (slot : Slot δ α) : Slot δ γ where
  name := slot.name
  aliases := slot.aliases
  read := slot.read
  get c := slot.get (get c)
  set b c := set (slot.set b (get c)) c
  get_set b c := by rw [get_set, slot.get_set]

end Slot

namespace Slot

variable {slot other : Slot δ α} {base a : α} {key : String} {d : δ} {given : List (String × δ)}

instance : Std.Symm (Apart (δ := δ) (α := α)) where
  symm _ _ h := ⟨List.disjoint_symm h.names, h.right, h.left⟩

theorem answers_field : slot.field.answers key = true ↔ key ∈ slot.names := by
  simp only [Field.answers, field, names, Bool.or_eq_true, beq_iff_eq, List.contains_iff_mem,
    List.mem_cons, @eq_comm _ key]

theorem found_cons_of_mem (h : key ∈ slot.names) :
    slot.found ((key, d) :: given) = d :: slot.found given := by
  simp [found, h]

theorem found_cons_of_not_mem (h : key ∉ slot.names) :
    slot.found ((key, d) :: given) = slot.found given := by
  simp [found, h]

theorem found_append (more : List (String × δ)) :
    slot.found (given ++ more) = slot.found given ++ slot.found more := by
  simp [found]

theorem mem_found (hd : (key, d) ∈ given) (hkey : key ∈ slot.names) : d ∈ slot.found given :=
  List.mem_map.mpr ⟨(key, d), List.mem_filter.mpr ⟨hd, by simpa using hkey⟩, rfl⟩

@[simp] theorem readable_within (get : α → γ) (set : γ → α → α) (get_set)
    (slot : Slot δ γ) : (slot.within get set get_set).readable given = slot.readable given := rfl

@[simp] theorem takes_within (get : α → γ) (set : γ → α → α) (get_set)
    (slot : Slot δ γ) : (slot.within get set get_set).Takes base given a ↔
      slot.Takes (get base) given (get a) := Iff.rfl

-- A record has a member whatever its other members are.
theorem takes_congr {base' a' : α} (hbase : slot.get base = slot.get base')
    (ha : slot.get a = slot.get a') : slot.Takes base given a ↔ slot.Takes base' given a' := by
  simp only [Takes, hbase, ha]

theorem takes_of_not_given (h : slot.found given = []) :
    slot.Takes base given a ↔ slot.get a = slot.get base := by
  rw [Takes, h]

theorem takes_of_given (h : slot.found given = [d]) :
    slot.Takes base given a ↔ (slot.read d).run [] = .ok (slot.get a) [] := by
  rw [Takes, h]

-- A member is given at most once, and then it can be read.
theorem given_of_readable (h : slot.readable given) :
    slot.found given = [] ∨ ∃ d b, slot.found given = [d] ∧ (slot.read d).run [] = .ok b [] := by
  unfold readable at h
  split at h
  · next hnone => exact .inl hnone
  · next d hone =>
      obtain ⟨b, hread⟩ := Decode.gives_iff.mp h
      exact .inr ⟨d, b, hone, hread⟩
  · contradiction

-- Nothing more is given for a member that was given before.
theorem found_tail (h : slot.readable ((key, d) :: given)) (hkey : key ∈ slot.names) :
    slot.found given = [] ∧ ∃ b, (slot.read d).run [] = .ok b [] := by
  obtain hnone | ⟨d, b, hone, hread⟩ := given_of_readable h
  · rw [found_cons_of_mem hkey] at hnone
    contradiction
  · rw [found_cons_of_mem hkey] at hone
    obtain ⟨rfl, hnil⟩ := List.cons.inj hone
    exact ⟨hnil, b, hread⟩

theorem found_tail_nil (h : slot.found ((key, d) :: given) = []) : slot.found given = [] := by
  by_cases hkey : key ∈ slot.names
  · rw [found_cons_of_mem hkey] at h
    contradiction
  · rwa [found_cons_of_not_mem hkey] at h

theorem readable_tail (h : slot.readable ((key, d) :: given)) : slot.readable given := by
  by_cases hkey : key ∈ slot.names
  · rw [readable, (found_tail h hkey).1]
  · rwa [readable, found_cons_of_not_mem hkey] at h

theorem takes_cons_of_not_mem (hkey : key ∉ slot.names) :
    slot.Takes base ((key, d) :: given) a ↔ slot.Takes base given a := by
  rw [Takes, found_cons_of_not_mem hkey, Takes]

end Slot

def tableOf (slots : List (Slot δ α)) : List (Field δ α) := slots.map Slot.field

section Entries

variable {slots : List (Slot δ α)} {key : String} {given : List (String × δ)}

theorem eq_or_apart (hapart : slots.Pairwise Slot.Apart) {slot other : Slot δ α}
    (hslot : slot ∈ slots) (hother : other ∈ slots) : slot = other ∨ slot.Apart other := by
  by_cases heq : slot = other
  · exact .inl heq
  · exact .inr (hapart.forall hslot hother heq)

theorem firstMissing_tableOf (slots : List (Slot δ α)) (seen : List String) :
    firstMissing (tableOf slots) seen = none := by
  simp [firstMissing, tableOf, Slot.field]

theorem slot_of_find {field : Field δ α}
    (h : (tableOf slots).find? (Field.answers key) = some field) :
    ∃ slot ∈ slots, field = slot.field ∧ key ∈ slot.names := by
  obtain ⟨slot, hslot, rfl⟩ := List.mem_map.mp (List.mem_of_find?_eq_some h)
  exact ⟨slot, hslot, rfl, Slot.answers_field.mp (List.find?_some h)⟩

theorem find_eq_none : (tableOf slots).find? (Field.answers key) = none ↔
    ∀ slot ∈ slots, key ∉ slot.names := by
  simp [tableOf, List.find?_eq_none, Slot.answers_field]

section Found

variable {slot : Slot δ α} {d : δ} {seen : List String} {base a : α} {b : slot.β}

-- A member that is given is new, and nothing more is given for it or for those seen before.
theorem gone_of_given (hapart : slots.Pairwise Slot.Apart) (hslot : slot ∈ slots)
    (hkey : key ∈ slot.names) (hlast : slot.found given = [])
    (hseen : ∀ slot ∈ slots, slot.name ∈ seen → slot.found ((key, d) :: given) = []) :
    slot.name ∉ seen ∧
      ∀ other ∈ slots, other.name ∈ slot.name :: seen → other.found given = [] := by
  refine ⟨fun hname => ?_, fun other hother hname => ?_⟩
  · have hnone := hseen slot hslot hname
    rw [Slot.found_cons_of_mem hkey] at hnone
    contradiction
  · obtain rfl | hapart := eq_or_apart hapart hslot hother
    · exact hlast
    · have hne : other.name ≠ slot.name := fun hsame =>
        hapart.names (hsame ▸ List.mem_cons_self) List.mem_cons_self
      have hbefore := (List.mem_cons.mp hname).resolve_left hne
      exact Slot.found_tail_nil (hseen other hother hbefore)

-- It is set in the draft, and the rest is taken over that.
theorem takes_cons_of_set (hapart : slots.Pairwise Slot.Apart) (hslot : slot ∈ slots)
    (hkey : key ∈ slot.names) (hlast : slot.found given = [])
    (hread : (slot.read d).run [] = .ok b [])
    (htakes : ∀ other ∈ slots, other.Takes (slot.set b base) given a) :
    ∀ other ∈ slots, other.Takes base ((key, d) :: given) a := by
  intro other hother
  obtain rfl | hapart := eq_or_apart hapart hslot hother
  · have hone : slot.found ((key, d) :: given) = [d] := by
      rw [Slot.found_cons_of_mem hkey, hlast]
    have hvalue := (Slot.takes_of_not_given hlast).mp (htakes slot hslot)
    rw [slot.get_set] at hvalue
    rwa [Slot.takes_of_given hone, hvalue]
  · refine (Slot.takes_cons_of_not_mem fun hmem => hapart.names hkey hmem).mpr ?_
    exact (Slot.takes_congr (hapart.left b base) rfl).mp (htakes other hother)

end Found

-- By induction on the entries, over the draft so far and the members already seen, for which
-- nothing more is given.
theorem readEntries_takes (hapart : slots.Pairwise Slot.Apart)
    (hgiven : ∀ slot ∈ slots, slot.readable given) (seen : List String)
    (hseen : ∀ slot ∈ slots, slot.name ∈ seen → slot.found given = []) (base : α) :
    ∃ a, (readEntries (tableOf slots) seen base given).run [] = .ok a [] ∧
      ∀ slot ∈ slots, slot.Takes base given a := by
  induction given generalizing seen base with
  | nil =>
      refine ⟨base, ?_, fun slot _ => (Slot.takes_of_not_given rfl).mpr rfl⟩
      rw [readEntries, firstMissing_tableOf]
      rfl
  | cons entry given ih =>
      obtain ⟨key, d⟩ := entry
      have hrest : ∀ slot ∈ slots, slot.readable given := fun slot hslot =>
        Slot.readable_tail (hgiven slot hslot)
      rw [readEntries]
      cases hfind : (tableOf slots).find? (Field.answers key) with
      | none =>
          have hgone : ∀ slot ∈ slots, slot.name ∈ seen → slot.found given = [] :=
            fun slot hslot hname => Slot.found_tail_nil (hseen slot hslot hname)
          obtain ⟨a, hrun, htakes⟩ := ih hrest seen hgone base
          refine ⟨a, hrun, fun slot hslot => ?_⟩
          exact (Slot.takes_cons_of_not_mem (find_eq_none.mp hfind slot hslot)).mpr
            (htakes slot hslot)
      | some field =>
          obtain ⟨slot, hslot, rfl, hkey⟩ := slot_of_find hfind
          obtain ⟨hlast, b, hread⟩ := Slot.found_tail (hgiven slot hslot) hkey
          obtain ⟨hnew, hgone⟩ := gone_of_given hapart hslot hkey hlast hseen
          obtain ⟨a, hrun, htakes⟩ := ih hrest (slot.name :: seen) hgone (slot.set b base)
          refine ⟨a, ?_, takes_cons_of_set hapart hslot hkey hlast hread htakes⟩
          have hset : (slot.field.read d).run [] = .ok (slot.set b) [] := Decode.run_map hread _
          have hcontains : seen.contains slot.field.name = false := by
            simpa [Slot.field] using hnew
          simp only [hcontains, Bool.false_eq_true, if_false]
          rw [Decode.run_bind hset]
          exact hrun

end Entries

-- The names and values of an object that holds together and whose names can be read.
def Fields.pairs? : Fields → Option (List (String × Doc))
  | .closed _ => some []
  | .field _ name _ none value rest =>
    match name.value with
    | .ok key => rest.pairs?.map ((key, value) :: ·)
    | .error _ => none
  | _ => none

-- The object that a text consists of.
def objectOf? (text : String) : Option (List (String × Doc)) :=
  match scan text with
  | ⟨.object _ _ fields, none⟩ => fields.pairs?
  | _ => none

theorem Fields.closed_of_pairs {fields : Fields} (h : fields.pairs? = some []) :
    ∃ stop, fields = .closed stop := by
  unfold pairs? at h
  split at h
  · next stop => exact ⟨stop, rfl⟩
  · split at h <;> simp at h
  · contradiction

theorem Fields.field_of_pairs {fields : Fields} {key : String} {d : Doc}
    {given : List (String × Doc)} (h : fields.pairs? = some ((key, d) :: given)) :
    ∃ comma name settled rest, fields = .field comma name settled none d rest ∧
      name.value = .ok key ∧ rest.pairs? = some given := by
  unfold pairs? at h
  split at h
  · simp at h
  · next comma name settled value rest =>
      split at h
      · next found hname =>
          simp only [Option.map_eq_some_iff, List.cons.injEq, Prod.mk.injEq] at h
          obtain ⟨pairs, hrest, ⟨rfl, rfl⟩, rfl⟩ := h
          exact ⟨comma, name, settled, rest, rfl, hname, hrest⟩
      · contradiction
  · contradiction

-- What is left of an entry that the table does not know and that is not passed over.
def leftOf (table : List (Field Doc α)) (pass : Doc → Except Fault (Option Json)) :
    String × Doc → List (String × Json)
  | (key, d) =>
    match table.find? (Field.answers key), pass d with
    | none, .ok json => (json.map (key, ·)).toList
    | _, _ => []

def unclaimed (table : List (Field Doc α)) (pass : Doc → Except Fault (Option Json))
    (given : List (String × Doc)) : List (String × Json) :=
  given.flatMap (leftOf table pass)

-- Fields are read in place as their entries are.
theorem Fields.entries_run {table : List (Field Doc α)} {pass : Doc → Except Fault (Option Json)}
    {fields : Fields} {given : List (String × Doc)} (hpairs : fields.pairs? = some given)
    (hpass : ∀ entry ∈ given, table.find? (Field.answers entry.1) = none →
      ∃ json, pass entry.2 = .ok json)
    {seen : List String} {draft a : α} {w w' : List Warning}
    (hread : (readEntries table seen draft given).run w = .ok a w')
    (others : List (String × Json)) :
    ∃ mark, (fields.entries table pass seen draft others).run w =
      .ok (a, others ++ unclaimed table pass given, mark) w' := by
  induction given generalizing fields seen draft others w with
  | nil =>
      obtain ⟨stop, rfl⟩ := closed_of_pairs hpairs
      refine ⟨stop, ?_⟩
      rw [readEntries] at hread
      have hending : Decode.refuse (closed stop).ending = pure () := rfl
      rw [entries, hending, pure_bind]
      · cases hmissing : firstMissing table seen with
        | none =>
            simp only [hmissing] at hread
            obtain ⟨rfl, rfl⟩ : draft = a ∧ w = w' := by simpa using hread
            simp [unclaimed, mark]
        | some name =>
            simp only [hmissing] at hread
            contradiction
      · simp
  | cons entry given ih =>
      obtain ⟨key, d⟩ := entry
      obtain ⟨comma, name, settled, rest, rfl, hname, hrest⟩ := field_of_pairs hpairs
      have hmore : ∀ entry ∈ given, table.find? (Field.answers entry.1) = none →
          ∃ json, pass entry.2 = .ok json := fun entry h => hpass entry (List.mem_cons_of_mem _ h)
      have hkey : liftExcept name.value = pure key := by rw [hname]; rfl
      have hcolon : Decode.refuse none = pure () := rfl
      rw [readEntries] at hread
      rw [entries, hkey, pure_bind]
      cases hfind : table.find? (Field.answers key) with
      | none =>
          obtain ⟨json, hjson⟩ := hpass (key, d) List.mem_cons_self hfind
          simp only [hfind] at hread
          obtain ⟨mark, hmark⟩ := ih hrest hmore hread
            (others ++ (json.map (key, ·)).toList)
          refine ⟨mark, ?_⟩
          have hpassed : liftExcept (pass d) = pure json := by rw [hjson]; rfl
          simp only [hcolon, pure_bind, hpassed, hmark]
          simp [unclaimed, leftOf, hfind, hjson]
      | some field =>
          simp only [hfind] at hread
          split at hread
          · contradiction
          · next hnew =>
              obtain ⟨set, w'', hset, hread⟩ := Decode.ok_of_bind hread
              obtain ⟨mark, hmark⟩ := ih hrest hmore hread others
              refine ⟨mark, ?_⟩
              simp only [hnew, Bool.false_eq_true, if_false, hcolon, pure_bind]
              rw [Decode.run_bind (Decode.run_placed hset _), hmark]
              simp [unclaimed, leftOf, hfind]

theorem scanNamed_ne_object {word : List Char} {make : Nat → Nat → Doc} {cs rest : List Char}
    {o stop start level : Nat} {fields : Fields}
    (hmake : ∀ start' stop, make start' stop ≠ .object start level fields) :
    scanNamed word make cs o ≠ (.object start level fields, rest, stop) := by
  unfold scanNamed
  split
  · intro h
    exact hmake _ _ (congrArg Prod.fst h)
  · simp

-- The level of an object counts the containers around it, and the object.
theorem level_of_scanValue {fuel outer : Nat} {cs rest : List Char} {o stop start level : Nat}
    {fields : Fields}
    (h : scanValue fuel outer cs o = (.object start level fields, rest, stop)) :
    level = outer + 1 := by
  cases fuel with
  | zero => simp [scanValue] at h
  | succ fuel =>
      rw [scanValue] at h
      split at h
      · simp at h
      · exact absurd h (scanNamed_ne_object (by simp))
      · exact absurd h (scanNamed_ne_object (by simp))
      · exact absurd h (scanNamed_ne_object (by simp))
      · simp at h
      · simp at h
      · simp only [Prod.mk.injEq, Doc.object.injEq] at h
        exact h.1.2.1.symm
      · split at h <;> simp at h

theorem object_of_objectOf {text : String} {given : List (String × Doc)}
    (h : objectOf? text = some given) :
    ∃ start fields, scan text = ⟨.object start 1 fields, none⟩ ∧ fields.pairs? = some given := by
  unfold objectOf? at h
  split at h
  · next start level fields hscan =>
      obtain ⟨⟨root, rest, stop⟩, hvalue⟩ : ∃ value,
        scanValue (3 * text.toList.length + 3) 0 text.toList 0 = value := ⟨_, rfl⟩
      have hroot : (scan text).root = root := (scan_of_scanValue hvalue).1
      rw [hscan] at hroot
      subst hroot
      obtain rfl : level = 1 := level_of_scanValue hvalue
      exact ⟨start, fields, hscan, h⟩
  · contradiction

theorem wholeText_run {read : Doc → Decode α} {text : String} {root : Doc} {a : α}
    (hscan : scan text = ⟨root, none⟩) (hread : (read root).run [] = .ok a []) :
    (wholeText read text).run [] = .ok a [] := by
  simp only [wholeText, hscan]
  rw [Decode.run_bind hread]
  rfl

theorem record_object (expected : String) (table : List (Field Doc α)) (base : α)
    (start level : Nat) (fields : Fields) :
    Source.record expected table base (Doc.object start level fields) =
      guardDepth start level >>= fun _ =>
        fields.entries table passOver [] base [] >>= fun read => pure read.1 := rfl

theorem openRecord_object (expected : String) (table : List (Field Doc α)) (base : α)
    (finish : α → List (String × Json) → Decode α) (start level : Nat) (fields : Fields) :
    Source.openRecord expected table base finish (Doc.object start level fields) =
      guardDepth start level >>= fun _ =>
        fields.entries table setAside [] base [] >>= fun read =>
          Decode.placed read.2.2 (finish read.1 read.2.1) := rfl

theorem guardDepth_eq {start level : Nat} (h : level ≤ depthLimit) : guardDepth start level = pure () :=
  if_neg (Nat.not_lt.mpr h)

-- A number reads the same whether it stands in the text or was set aside.
theorem float_of_keep {d : Doc} {json : Json} (hkeep : d.keep = .ok json) {x : Float} :
    (Source.float d : Decode Float).run [] = .ok x [] ↔
      (Source.float (Kept.mk json) : Decode Float).run [] = .ok x [] := by
  cases json with
  | number n =>
      obtain ⟨lexeme, rfl, hvalue⟩ := Doc.bears_of_keep hkeep
      have hread : (Source.float (Doc.number lexeme) : Decode Float) = pure n.toFloat := by
        simp only [Source.float, hvalue, liftExcept, pure_bind]
      rw [hread]
      rfl
  | null | bool b =>
      obtain ⟨start, stop, rfl⟩ := Doc.bears_of_keep hkeep
      exact ⟨nofun, nofun⟩
  | string text =>
      obtain ⟨lexeme, rfl, hvalue⟩ := Doc.bears_of_keep hkeep
      exact ⟨nofun, nofun⟩
  | array kept | object kept =>
      obtain ⟨start, level, content, rfl, hlevel, hcontent⟩ := Doc.bears_of_keep hkeep
      exact ⟨nofun, nofun⟩

theorem keep_of_float {d : Doc} {x : Float}
    (hread : (Source.float d : Decode Float).run [] = .ok x []) : ∃ json, d.keep = .ok json := by
  cases d with
  | number lexeme =>
      cases hvalue : lexeme.value with
      | ok n => exact ⟨.number n, by rw [Doc.keep, hvalue]; rfl⟩
      | error fault =>
          have hfail : (Source.float (Doc.number lexeme) : Decode Float) = throw fault := by
            simp only [Source.float, hvalue, liftExcept]
            rfl
          rw [hfail] at hread
          contradiction
  | _ => contradiction

theorem setAside_iff {d : Doc} :
    (∃ json, setAside d = .ok json) ↔ ∃ json, d.keep = .ok json := by
  cases hkeep : d.keep with
  | ok json => simp [setAside, hkeep, Except.map]
  | error fault => simp [setAside, hkeep, Except.map]

theorem keep_of_readable {name : String} {get : γ → Float} {set : Float → γ → γ}
    {get_set : ∀ x c, get (set x c) = x} {given : List (String × Doc)}
    (hread : (Slot.float name get set get_set).readable given) {d : Doc} (hd : (name, d) ∈ given) :
    ∃ json, d.keep = .ok json := by
  have hmem : d ∈ (Slot.float name get set get_set).found given :=
    Slot.mem_found hd List.mem_cons_self
  obtain hnone | ⟨d, x, hone, hread⟩ := Slot.given_of_readable hread
  · rw [hnone] at hmem
    contradiction
  · rw [hone] at hmem
    obtain rfl := List.mem_singleton.mp hmem
    exact keep_of_float hread

section Kept

variable {table : List (Field Doc α)} {given : List (String × Doc)}

theorem entries_unclaimed_cons (key : String) (d : Doc) :
    Kept.entries (unclaimed table setAside ((key, d) :: given)) =
      Kept.entries (leftOf table setAside (key, d)) ++
        Kept.entries (unclaimed table setAside given) := by
  simp [Kept.entries, unclaimed]

theorem found_leftOf {slot : Slot Kept γ} {key : String} (hkey : key ∉ slot.names) (d : Doc) :
    slot.found (Kept.entries (leftOf table setAside (key, d))) = [] := by
  simp only [leftOf]
  split
  · next json _ _ =>
      cases json with
      | none => rfl
      | some json => exact Slot.found_cons_of_not_mem hkey
  · rfl

-- What the table does not know is set aside in its order.
theorem found_unclaimed {slot : Slot Doc γ} {kept : Slot Kept γ} (hnames : slot.names = kept.names)
    (hslot : ∀ key ∈ slot.names, table.find? (Field.answers key) = none)
    (hkeep : ∀ entry ∈ given, table.find? (Field.answers entry.1) = none →
      ∃ json, entry.2.keep = .ok json) :
    List.Forall₂ (fun (d : Doc) (k : Kept) => d.keep = .ok k.json) (slot.found given)
      (kept.found (Kept.entries (unclaimed table setAside given))) := by
  induction given with
  | nil => exact .nil
  | cons entry given ih =>
      obtain ⟨key, d⟩ := entry
      have hrest := ih fun entry h => hkeep entry (List.mem_cons_of_mem _ h)
      rw [entries_unclaimed_cons, Slot.found_append]
      by_cases hkey : key ∈ slot.names
      · have hnone := hslot key hkey
        obtain ⟨json, hjson⟩ : ∃ json, d.keep = .ok json := hkeep (key, d) List.mem_cons_self hnone
        have hleft : Kept.entries (leftOf table setAside (key, d)) = [(key, ⟨json⟩)] := by
          simp [Kept.entries, leftOf, hnone, setAside, hjson, Except.map]
        rw [hleft, Slot.found_cons_of_mem hkey, Slot.found_cons_of_mem (hnames ▸ hkey)]
        exact .cons hjson hrest
      · rw [Slot.found_cons_of_not_mem hkey, found_leftOf (hnames ▸ hkey)]
        exact hrest

variable {name : String} {get : γ → Float} {set : Float → γ → γ}
  {get_set : ∀ x c, get (set x c) = x} (hname : table.find? (Field.answers name) = none)
  (hkeep : ∀ entry ∈ given, table.find? (Field.answers entry.1) = none →
    ∃ json, entry.2.keep = .ok json)

include hname hkeep

theorem float_found_unclaimed (get_set) :
    List.Forall₂ (fun (d : Doc) (k : Kept) => d.keep = .ok k.json)
      ((Slot.float name get set get_set).found given)
      ((Slot.float name get set get_set).found
        (Kept.entries (unclaimed table setAside given))) := by
  refine found_unclaimed rfl (fun key hkey => ?_) hkeep
  obtain rfl : key = name := List.mem_singleton.mp hkey
  exact hname

theorem takes_unclaimed (base c : γ) :
    (Slot.float name get set get_set).Takes base (Kept.entries (unclaimed table setAside given)) c ↔
      (Slot.float name get set get_set).Takes base given c := by
  have hfound := float_found_unclaimed hname hkeep get_set
  unfold Slot.Takes
  generalize (Slot.float (δ := Doc) name get set get_set).found given = ds at hfound ⊢
  generalize (Slot.float (δ := Kept) name get set get_set).found _ = ks at hfound ⊢
  cases hfound with
  | nil => rfl
  | cons hjson hrest =>
      cases hrest with
      | nil => exact (float_of_keep hjson).symm
      | cons _ _ => rfl

theorem readable_unclaimed (hread : (Slot.float name get set get_set).readable given) :
    (Slot.float name get set get_set).readable
      (Kept.entries (unclaimed table setAside given)) := by
  have hfound := float_found_unclaimed hname hkeep get_set
  unfold Slot.readable
  obtain hnone | ⟨d, x, hone, hread⟩ := Slot.given_of_readable hread
  · rw [hnone] at hfound
    generalize (Slot.float (δ := Kept) name get set get_set).found _ = ks at hfound ⊢
    cases hfound
    rfl
  · rw [hone] at hfound
    generalize (Slot.float (δ := Kept) name get set get_set).found _ = ks at hfound ⊢
    cases hfound with
    | cons hjson hrest =>
        cases hrest
        exact Decode.gives_iff.mpr ⟨x, (float_of_keep hjson).mp hread⟩

end Kept

-- The members that make up a record.
structure Layout (α : Type) where
  slots : List (Slot Doc α)
  apart : slots.Pairwise Slot.Apart := by
    simp only [List.pairwise_cons, List.forall_mem_cons, List.not_mem_nil, false_imp_iff,
      implies_true, List.Pairwise.nil, and_true]
    and_intros <;> exact ⟨by simp [Slot.names, Slot.float], fun _ _ => rfl, fun _ _ => rfl⟩
  ext : ∀ a b, (∀ slot ∈ slots, slot.get a = slot.get b) → a = b := by
    intro a b h
    cases a
    cases b
    simpa [Slot.float] using h

namespace Layout

variable {layout : Layout α} {base a : α} {given : List (String × Doc)}

def knows (layout : Layout α) (key : String) : Bool := layout.slots.any fun slot => key ∈ slot.names

-- The values of the members are all there is to a record.
theorem takes_unique {b : α} (ha : ∀ slot ∈ layout.slots, slot.Takes base given a)
    (hb : ∀ slot ∈ layout.slots, slot.Takes base given b) : a = b := by
  refine layout.ext a b fun slot hslot => ?_
  have hleft := ha slot hslot
  have hright := hb slot hslot
  unfold Slot.Takes at hleft hright
  split at hleft
  · next hnone =>
      rw [hnone] at hright
      exact hleft.trans hright.symm
  · next d hone =>
      rw [hone] at hright
      have hread := hleft.symm.trans hright
      simpa using hread
  · contradiction

theorem record_takes {level : Nat} (hlevel : level ≤ depthLimit) {fields : Fields}
    (hpairs : fields.pairs? = some given) (hgiven : ∀ slot ∈ layout.slots, slot.readable given)
    (hpass : ∀ entry ∈ given, layout.knows entry.1 = false → ∃ json, passOver entry.2 = .ok json)
    (expected : String) (base : α) (start : Nat) :
    ∃ a, (Source.record expected (tableOf layout.slots) base (Doc.object start level fields)).run [] =
        .ok a [] ∧ ∀ slot ∈ layout.slots, slot.Takes base given a := by
  obtain ⟨a, hread, htakes⟩ :=
    readEntries_takes layout.apart hgiven [] (fun _ _ h => nomatch h) base
  have hothers : ∀ entry ∈ given, (tableOf layout.slots).find? (Field.answers entry.1) = none →
      ∃ json, passOver entry.2 = .ok json := by
    intro entry hentry hnone
    refine hpass entry hentry ?_
    simpa [knows] using find_eq_none.mp hnone
  obtain ⟨mark, hrun⟩ := Fields.entries_run hpairs hothers hread []
  refine ⟨a, ?_, htakes⟩
  rw [record_object, guardDepth_eq hlevel, pure_bind, Decode.run_bind hrun]
  rfl

end Layout

end Patchbay.Json

namespace Patchbay

open Json

namespace Adsr

def slots [Source δ] : List (Slot δ Adsr) := [
  .float "attack" attack (fun x c => { c with attack := x }) fun _ _ => rfl,
  .float "decay" decay (fun x c => { c with decay := x }) fun _ _ => rfl,
  .float "sustain" sustain (fun x c => { c with sustain := x }) fun _ _ => rfl,
  .float "release" release (fun x c => { c with release := x }) fun _ _ => rfl]

theorem slots_apart [Source δ] : (slots : List (Slot δ Adsr)).Pairwise Slot.Apart := by
  simp only [slots, List.pairwise_cons, List.forall_mem_cons, List.not_mem_nil, false_imp_iff,
    implies_true, List.Pairwise.nil, and_true]
  and_intros <;> exact ⟨by simp [Slot.names, Slot.float], fun _ _ => rfl, fun _ _ => rfl⟩

def layout : Layout Adsr where
  slots := slots
  apart := slots_apart
  ext := by
    rintro ⟨_, _, _, _⟩ ⟨_, _, _, _⟩ h
    simpa [slots, Slot.float] using h

end Adsr

def FilterSettings.layout : Layout FilterSettings where
  slots := [
    ⟨"type", [], FilterType.read, type, fun x c => { c with type := x }, fun _ _ => rfl⟩,
    .float "frequency" frequency (fun x c => { c with frequency := x }) fun _ _ => rfl,
    ⟨"Q", ["q"], Source.option Source.float, q, fun x c => { c with q := x }, fun _ _ => rfl⟩,
    ⟨"detune", [], Source.option Source.float, detune, fun x c => { c with detune := x },
      fun _ _ => rfl⟩]

def ReverbSettings.layout : Layout ReverbSettings where
  slots := [
    .float "amount" amount (fun x c => { c with amount := x }) fun _ _ => rfl,
    .float "duration" duration (fun x c => { c with duration := x }) fun _ _ => rfl,
    ⟨"decay", [], Source.option Source.float, decay, fun x c => { c with decay := x },
      fun _ _ => rfl⟩,
    ⟨"reverse", [], Source.bool, reverse, fun x c => { c with reverse := x }, fun _ _ => rfl⟩]

def BankSettings.layout : Layout BankSettings where
  slots := [
    .float "frequency" frequency (fun x c => { c with frequency := x }) fun _ _ => rfl,
    ⟨"gains", [], Source.list Source.float, gains, fun x c => { c with gains := x },
      fun _ _ => rfl⟩,
    ⟨"waveforms", [], Source.list Waveform.read, waveforms, fun x c => { c with waveforms := x },
      fun _ _ => rfl⟩,
    ⟨"normalize", [], Source.bool, normalize, fun x c => { c with normalize := x },
      fun _ _ => rfl⟩]

def SweptFilter.layout : Layout SweptFilter where
  slots := [
    ⟨"type", [], FilterType.read, type, fun x c => { c with type := x }, fun _ _ => rfl⟩,
    ⟨"frequency", [], Source.option Cutoff.read, frequency, fun x c => { c with frequency := x },
      fun _ _ => rfl⟩,
    ⟨"Q", ["q"], Source.option Source.float, q, fun x c => { c with q := x }, fun _ _ => rfl⟩,
    ⟨"envelope", [], Source.option Adsr.read, envelope, fun x c => { c with envelope := x },
      fun _ _ => rfl⟩,
    .float "octaves" octaves (fun x c => { c with octaves := x }) fun _ _ => rfl]

def SubtractiveSettings.layout : Layout SubtractiveSettings where
  slots := [
    .float "frequency" frequency (fun x c => { c with frequency := x }) fun _ _ => rfl,
    ⟨"type", [], Waveform.read, waveform, fun x c => { c with waveform := x }, fun _ _ => rfl⟩,
    ⟨"adsr", [], Adsr.read, envelope, fun x c => { c with envelope := x }, fun _ _ => rfl⟩,
    ⟨"filter", [], SweptFilter.read, filter, fun x c => { c with filter := x }, fun _ _ => rfl⟩,
    .float "gain" gain (fun x c => { c with gain := x }) fun _ _ => rfl]

def Soundfont.LoadOptions.layout : Layout Soundfont.LoadOptions where
  slots := [
    ⟨"soundfont", [], Soundfont.Library.read, library, fun x c => { c with library := x },
      fun _ _ => rfl⟩,
    ⟨"format", [], Soundfont.Format.read, format, fun x c => { c with format := x },
      fun _ _ => rfl⟩]

namespace SampleVoice

def ownSlots : List (Slot Doc SampleVoice) := [
  .float "gain" gain (fun x c => { c with gain := x }) fun _ _ => rfl,
  ⟨"filter", [], FilterSettings.read, filter, fun x c => { c with filter := x }, fun _ _ => rfl⟩]

-- The envelope's members stand among the voice's.
def envelopeSlots : List (Slot Doc SampleVoice) :=
  Adsr.slots.map (Slot.within envelope (fun x c => { c with envelope := x }) fun _ _ => rfl)

def layout : Layout SampleVoice where
  slots := ownSlots ++ envelopeSlots
  apart := by
    simp only [ownSlots, envelopeSlots, Adsr.slots, List.map_cons, List.map_nil, List.cons_append,
      List.nil_append, List.pairwise_cons, List.forall_mem_cons, List.not_mem_nil, false_imp_iff,
      implies_true, List.Pairwise.nil, and_true]
    and_intros <;>
      exact ⟨by simp [Slot.names, Slot.float, Slot.within], fun _ _ => rfl, fun _ _ => rfl⟩
  ext := by
    rintro ⟨_, _, ⟨_, _, _, _⟩⟩ ⟨_, _, ⟨_, _, _, _⟩⟩ h
    simpa [ownSlots, envelopeSlots, Adsr.slots, Slot.within, Slot.float, and_assoc] using h

-- What stands for a voice when nothing is given: all as in `standard`, but for the release, which
-- the envelope has from its own defaults.
def bare : SampleVoice := { standard with envelope := .standard }

theorem get_bare : ∀ slot ∈ ownSlots, slot.get bare = slot.get standard := by
  simp [ownSlots, bare, Slot.float]

theorem get_envelope : ∀ slot ∈ ownSlots, ∀ (c : SampleVoice) (envelope : Adsr),
    slot.get { c with envelope } = slot.get c := by
  simp [ownSlots, Slot.float]

theorem keep_of_envelope {slot : Slot Doc SampleVoice} (hslot : slot ∈ envelopeSlots)
    {given : List (String × Doc)} (hread : slot.readable given) {key : String} {d : Doc}
    (hd : (key, d) ∈ given) (hkey : key ∈ slot.names) : ∃ json, d.keep = .ok json := by
  simp only [envelopeSlots, Adsr.slots, List.map_cons, List.map_nil, List.mem_cons,
    List.not_mem_nil, or_false] at hslot
  obtain rfl | rfl | rfl | rfl := hslot <;>
    · obtain rfl := List.mem_singleton.mp hkey
      exact keep_of_readable hread hd

section Envelope

variable {given : List (String × Doc)}
  (hkeep : ∀ entry ∈ given, (tableOf ownSlots).find? (Field.answers entry.1) = none →
    ∃ json, entry.2.keep = .ok json)

include hkeep

theorem readable_envelope (hgiven : ∀ slot ∈ envelopeSlots, slot.readable given) :
    ∀ slot ∈ Adsr.slots,
      slot.readable (Kept.entries (unclaimed (tableOf ownSlots) setAside given)) := by
  simp only [Adsr.slots, envelopeSlots, List.map_cons, List.map_nil, List.forall_mem_cons,
    List.not_mem_nil, false_imp_iff, implies_true, and_true, Slot.readable_within] at hgiven ⊢
  obtain ⟨hattack, hdecay, hsustain, hrelease⟩ := hgiven
  exact ⟨readable_unclaimed rfl hkeep hattack, readable_unclaimed rfl hkeep hdecay,
    readable_unclaimed rfl hkeep hsustain, readable_unclaimed rfl hkeep hrelease⟩

theorem takes_envelope {base envelope : Adsr} (htakes : ∀ slot ∈ Adsr.slots,
      slot.Takes base (Kept.entries (unclaimed (tableOf ownSlots) setAside given)) envelope) :
    ∀ slot ∈ Adsr.slots, slot.Takes base given envelope := by
  simp only [Adsr.slots, List.forall_mem_cons, List.not_mem_nil, false_imp_iff, implies_true,
    and_true] at htakes ⊢
  obtain ⟨hattack, hdecay, hsustain, hrelease⟩ := htakes
  exact ⟨(takes_unclaimed rfl hkeep _ _).mp hattack, (takes_unclaimed rfl hkeep _ _).mp hdecay,
    (takes_unclaimed rfl hkeep _ _).mp hsustain, (takes_unclaimed rfl hkeep _ _).mp hrelease⟩

end Envelope

theorem read_takes {level : Nat} (hlevel : level ≤ depthLimit) {fields : Fields}
    {given : List (String × Doc)} (hpairs : fields.pairs? = some given)
    (hgiven : ∀ slot ∈ layout.slots, slot.readable given)
    (hpass : ∀ entry ∈ given, layout.knows entry.1 = false → ∃ json, setAside entry.2 = .ok json)
    (start : Nat) : ∃ c, (read (Doc.object start level fields)).run [] = .ok c [] ∧
      ∀ slot ∈ layout.slots, slot.Takes bare given c := by
  have hown : ∀ slot ∈ ownSlots, slot.readable given := fun slot hslot =>
    hgiven slot (List.mem_append_left _ hslot)
  have henvelope : ∀ slot ∈ envelopeSlots, slot.readable given := fun slot hslot =>
    hgiven slot (List.mem_append_right _ hslot)
  have hkeep : ∀ entry ∈ given, (tableOf ownSlots).find? (Field.answers entry.1) = none →
      ∃ json, entry.2.keep = .ok json := by
    rintro ⟨key, d⟩ hentry hnone
    cases hknows : layout.knows key with
    | true =>
        simp only [Layout.knows, layout, List.any_append, Bool.or_eq_true, List.any_eq_true,
          decide_eq_true_eq] at hknows
        obtain ⟨slot, hslot, hkey⟩ | ⟨slot, hslot, hkey⟩ := hknows
        · exact absurd hkey (find_eq_none.mp hnone slot hslot)
        · exact keep_of_envelope hslot (henvelope slot hslot) hentry hkey
    | false => exact setAside_iff.mp (hpass (key, d) hentry hknows)
  have hapart : ownSlots.Pairwise Slot.Apart := (List.pairwise_append.mp layout.apart).1
  obtain ⟨voice, hread, htakes⟩ :=
    readEntries_takes hapart hown [] (fun _ _ h => nomatch h) standard
  obtain ⟨mark, hrun⟩ := Fields.entries_run hpairs
    (fun entry hentry hnone => setAside_iff.mpr (hkeep entry hentry hnone)) hread []
  obtain ⟨envelope, hset, hholds⟩ :=
    readEntries_takes Adsr.slots_apart (readable_envelope hkeep henvelope) []
      (fun _ _ h => nomatch h) Adsr.standard
  refine ⟨{ voice with envelope }, ?_, ?_⟩
  · change (Source.openRecord _ (tableOf ownSlots) standard _ _).run [] = _
    rw [openRecord_object, guardDepth_eq hlevel, pure_bind, Decode.run_bind hrun]
    refine Decode.run_placed ?_ mark
    have htable : Adsr.fields = tableOf (Adsr.slots : List (Slot Kept Adsr)) := rfl
    rw [List.nil_append, htable, Decode.run_bind hset]
    rfl
  · intro slot hslot
    obtain hslot | hslot := List.mem_append.mp hslot
    · exact (Slot.takes_congr (get_bare slot hslot) (get_envelope slot hslot voice envelope)).mpr
        (htakes slot hslot)
    · obtain ⟨part, hpart, rfl⟩ := List.mem_map.mp hslot
      rw [Slot.takes_within, bare]
      exact takes_envelope hkeep hholds part hpart

end SampleVoice

-- A kind of settings: how it is read, what stands for it when nothing is given, what becomes of
-- values it does not know, and what it is made of.
structure Settings where
  {α : Type}
  read : Doc → Decode α
  base : α
  pass : Doc → Except Fault (Option Json)
  layout : Layout α

namespace Settings

def adsr : Settings := ⟨Adsr.read, .standard, passOver, Adsr.layout⟩

def filter : Settings := ⟨FilterSettings.read, .standard, passOver, FilterSettings.layout⟩

def reverb : Settings := ⟨ReverbSettings.read, .standard, passOver, ReverbSettings.layout⟩

def bank : Settings := ⟨BankSettings.read, .standard, passOver, BankSettings.layout⟩

def sweptFilter : Settings := ⟨SweptFilter.read, .standard, passOver, SweptFilter.layout⟩

def subtractive : Settings :=
  ⟨SubtractiveSettings.read, .standard, passOver, SubtractiveSettings.layout⟩

def loadOptions : Settings :=
  ⟨Soundfont.LoadOptions.read, .standard, passOver, Soundfont.LoadOptions.layout⟩

def sampleVoice : Settings := ⟨SampleVoice.read, SampleVoice.bare, setAside, SampleVoice.layout⟩

def kinds : List Settings :=
  [adsr, filter, reverb, bank, sweptFilter, subtractive, loadOptions, sampleVoice]

-- An object is read as a record that takes from it what is given there.
theorem object_takes {kind : Settings} (hkind : kind ∈ kinds) {level : Nat}
    (hlevel : level ≤ depthLimit) {fields : Fields} {given : List (String × Doc)}
    (hpairs : fields.pairs? = some given) (hgiven : ∀ slot ∈ kind.layout.slots, slot.readable given)
    (hpass : ∀ entry ∈ given, kind.layout.knows entry.1 = false →
      ∃ json, kind.pass entry.2 = .ok json) (start : Nat) :
    ∃ c, (kind.read (.object start level fields)).run [] = .ok c [] ∧
      ∀ slot ∈ kind.layout.slots, slot.Takes kind.base given c := by
  simp only [kinds, List.mem_cons, List.not_mem_nil, or_false] at hkind
  obtain rfl | rfl | rfl | rfl | rfl | rfl | rfl | rfl := hkind
  case inr.inr.inr.inr.inr.inr.inr =>
    exact SampleVoice.read_takes hlevel hpairs hgiven hpass start
  all_goals exact Layout.record_takes hlevel hpairs hgiven hpass _ _ start

theorem read_takes {kind : Settings} (hkind : kind ∈ kinds) {text : String}
    {given : List (String × Doc)} (htext : objectOf? text = some given)
    (hgiven : ∀ slot ∈ kind.layout.slots, slot.readable given)
    (hpass : ∀ entry ∈ given, kind.layout.knows entry.1 = false →
      ∃ json, kind.pass entry.2 = .ok json) :
    ∃ c, (wholeText kind.read text).run [] = .ok c [] ∧
      ∀ slot ∈ kind.layout.slots, slot.Takes kind.base given c := by
  obtain ⟨start, fields, hscan, hpairs⟩ := object_of_objectOf htext
  have hlevel : 1 ≤ depthLimit := by decide
  obtain ⟨c, hread, htakes⟩ := object_takes hkind hlevel hpairs hgiven hpass start
  exact ⟨c, wholeText_run hscan hread, htakes⟩

-- An object in which every member is given at most once and can be read, and whatever else there is
-- can be passed over, is read as the one value that has what is given from it and all other members
-- from the base.
theorem given_over_base {kind : Settings} (hkind : kind ∈ kinds) {text : String}
    {given : List (String × Doc)} (htext : objectOf? text = some given)
    (hgiven : ∀ slot ∈ kind.layout.slots, slot.readable given)
    (hpass : ∀ entry ∈ given, kind.layout.knows entry.1 = false →
      ∃ json, kind.pass entry.2 = .ok json) :
    ∃ c, (wholeText kind.read text).run [] = .ok c [] ∧
      (∀ d, (∀ slot ∈ kind.layout.slots, slot.Takes kind.base given d) ↔ d = c) ∧
      (given = [] → c = kind.base) := by
  obtain ⟨c, hread, htakes⟩ := read_takes hkind htext hgiven hpass
  refine ⟨c, hread, fun d => ⟨fun hd => kind.layout.takes_unique hd htakes, ?_⟩, ?_⟩
  · rintro rfl
    exact htakes
  · rintro rfl
    exact kind.layout.takes_unique htakes fun slot _ => (Slot.takes_of_not_given rfl).mpr rfl

def partVoice : String :=
  "\x7b\"gain\": 0.5, \"colour\": [1], \"release\": 1, \"filter\": \x7b\"q\": 2\x7d\x7d"

theorem partVoice_over_base : ∃ given, objectOf? partVoice = some given ∧
    ∃ c, (wholeText SampleVoice.read partVoice).run [] = .ok c [] ∧
      (∀ d, (∀ slot ∈ SampleVoice.layout.slots, slot.Takes SampleVoice.bare given d) ↔ d = c) ∧
      (given = [] → c = SampleVoice.bare) := by
  have hobject : (objectOf? partVoice).isSome := by decide +kernel
  obtain ⟨given, hgiven⟩ := Option.isSome_iff_exists.mp hobject
  have hread : (objectOf? partVoice).all fun given =>
      SampleVoice.layout.slots.all fun slot => slot.readable given := by decide +kernel
  have hpass : (objectOf? partVoice).all fun given => given.all fun (key, d) =>
      SampleVoice.layout.knows key || (setAside d).isOk := by decide +kernel
  simp only [hgiven, Option.all_some, List.all_eq_true] at hread hpass
  have hkind : sampleVoice ∈ kinds := by simp [kinds]
  refine ⟨given, hgiven, given_over_base hkind hgiven hread ?_⟩
  intro entry hentry hunknown
  have hset : (setAside entry.2).isOk :=
    (Bool.or_eq_true_iff.mp (hpass entry hentry)).resolve_left (Bool.eq_false_iff.mp hunknown)
  cases hjson : setAside entry.2 with
  | ok json => exact ⟨json, hjson⟩
  | error fault =>
      rw [hjson] at hset
      contradiction

-- The release that a voice has by default is lost when it is read.
theorem empty_voice_not_standard :
    ∃ c, (wholeText SampleVoice.read "\x7b\x7d").run [] = .ok c [] ∧ c ≠ SampleVoice.standard := by
  have hempty : (objectOf? "\x7b\x7d").map List.isEmpty = some true := by decide +kernel
  obtain ⟨given, htext, hgiven⟩ := Option.map_eq_some_iff.mp hempty
  obtain rfl := List.isEmpty_iff.mp hgiven
  have hkind : sampleVoice ∈ kinds := by simp [kinds]
  obtain ⟨c, hread, htakes⟩ := read_takes hkind htext (fun _ _ => rfl) (fun _ h => nomatch h)
  refine ⟨c, hread, ?_⟩
  rintro rfl
  have hbare : SampleVoice.standard = SampleVoice.bare :=
    SampleVoice.layout.takes_unique htakes fun slot _ => (Slot.takes_of_not_given rfl).mpr rfl
  have hrelease : SampleVoice.standard.envelope.release ≠ SampleVoice.bare.envelope.release := by
    decide +kernel
  exact hrelease (congrArg (·.envelope.release) hbare)

end Settings

end Patchbay
