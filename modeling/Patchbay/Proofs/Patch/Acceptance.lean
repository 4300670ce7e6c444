import Patchbay.Proofs.Json.DepthLimit
import Patchbay.Proofs.Patch.Renewal

namespace Patchbay

open Json (Decode Doc Items)

theorem Patch.readable_numbers {patch : Patch} (h : ∀ x ∈ patch.numbers, x.isFinite = true) :
    ∀ n ∈ patch.toJson.numbers, Json.Readable n := by
  intro n hn
  rw [patch.numbers_toJson, List.mem_map] at hn
  obtain ⟨x, hx, rfl⟩ := hn
  obtain ⟨y, hy, -⟩ := Json.reprints_finite (h x hx)
  exact Option.isSome_iff_exists.2 ⟨_, hy⟩

-- The normal form of a patch with finite numbers is read again if it is not too deep.
theorem Patch.ofText_render_again {patch : Patch} (h : ∀ x ∈ patch.numbers, x.isFinite = true)
    (hdepth : patch.toJson.depth ≤ Json.depthLimit) :
    ∃ again, Patch.ofText patch.render = pure again := by
  obtain ⟨again, hagain⟩ := Patch.exists_again patch h
  obtain ⟨hkeep, htrailing⟩ :=
    Json.ofText_eq_ok_iff.1 (Json.ofText_render (Patch.readable_numbers h) hdepth)
  rw [← hagain, ← Json.mapNumbers_id again.toJson] at hkeep
  exact ⟨again, Patch.ofText_of_kept (fun _ _ => rfl) hkeep htrailing⟩

theorem Patch.run_ofText_of_parse {source : String} {patch : Patch} {before after : List Warning}
    (h : (Patch.parse source).run before = .ok patch after) :
    (Patch.ofText source).run before = .ok patch after := by
  change Patch.parse source before = .ok patch after at h
  unfold Patch.parse at h
  split at h
  · next hread =>
      obtain ⟨rfl, rfl⟩ := EStateM.Result.ok.inj h
      exact hread
  · cases h

theorem Patch.parse_of_ofText {source : String} {patch : Patch}
    (h : Patch.ofText source = pure patch) (warnings : List Warning) :
    (Patch.parse source).run warnings = .ok patch warnings := by
  change Patch.parse source warnings = _
  rw [Patch.parse, h]
  rfl

theorem Patch.parse_render_iff {patch : Patch} (h : ∀ x ∈ patch.numbers, x.isFinite = true)
    (warnings : List Warning) :
    (∃ again after, (Patch.parse patch.render).run warnings = .ok again after) ↔
      patch.toJson.depth ≤ Json.depthLimit := by
  constructor
  · rintro ⟨again, after, hparse⟩
    obtain ⟨json, hjson, -⟩ := Patch.within_of_ofText (Patch.run_ofText_of_parse hparse)
    exact Json.depth_le_of_ofText (Patch.readable_numbers h) hjson
  · intro hdepth
    obtain ⟨again, hagain⟩ := Patch.ofText_render_again h hdepth
    exact ⟨again, warnings, Patch.parse_of_ofText hagain warnings⟩

theorem Patch.finite_numbers {patch : Patch} {bound : Nat} (h : patch.toJson.Within bound) :
    ∀ x ∈ patch.numbers, x.isFinite = true := by
  intro x hx
  have hn : Number.real x ∈ patch.toJson.numbers := by
    rw [patch.numbers_toJson]
    exact List.mem_map_of_mem hx
  have hfinite := h.finite _ hn
  rwa [Number.toFloat] at hfinite

-- The normal form of whatever is accepted is accepted but where it goes deeper than readers do,
-- and it goes at most one container deeper than what was accepted.
theorem Patch.normal_form_accepted {source : String} {patch : Patch} {before after : List Warning}
    (h : (Patch.parse source).run before = .ok patch after) :
    (∃ json, Json.ofText source = .ok json ∧ patch.toJson.depth ≤ json.depth + 1) ∧
      ∀ warnings, (∃ again after, (Patch.parse patch.render).run warnings = .ok again after) ↔
        patch.toJson.depth ≤ Json.depthLimit := by
  obtain ⟨json, hjson, hwithin⟩ := Patch.within_of_ofText (Patch.run_ofText_of_parse h)
  exact ⟨⟨json, hjson, hwithin.depth⟩, Patch.parse_render_iff (Patch.finite_numbers hwithin)⟩

def Patch.memoized : Nat → Patch
  | 0 => .connect .serial []
  | n + 1 => .memoize "a" (Patch.memoized n)

-- The patch as short as it can be written.
def Json.memoized : Nat → Json
  | 0 => .array [.string "connect"]
  | n + 1 => .array [.string "memoize", .string "a", Json.memoized n]

theorem Json.depth_memoized (n : Nat) : (Json.memoized n).depth = n + 1 := by
  induction n with
  | zero => rfl
  | succ n ih => simp [Json.memoized, Json.depth, Json.depthItems, ih]

theorem Json.numbers_memoized (n : Nat) : (Json.memoized n).numbers = [] := by
  induction n with
  | zero => rfl
  | succ n ih => simp [Json.memoized, Json.numbers, Json.numbersItems, ih]

theorem Json.mapNumbers_memoized (f : Number → Number) (n : Nat) :
    (Json.memoized n).mapNumbers f = Json.memoized n := by
  induction n with
  | zero => rfl
  | succ n ih => simp [Json.memoized, Json.mapNumbers, Json.mapItems, ih]

-- What is left out in the source is written as an empty list.
theorem Patch.depth_memoized (n : Nat) : (Patch.memoized n).toJson.depth = n + 2 := by
  induction n with
  | zero => rfl
  | succ n ih => simp [Patch.memoized, Patch.toJson, Json.depth, Json.depthFields, ih]

theorem Patch.numbers_memoized (n : Nat) : (Patch.memoized n).numbers = [] := by
  induction n with
  | zero => rfl
  | succ n ih => simp [Patch.memoized, Patch.numbers, ih]

theorem Patch.reading_items {name : String} {kind : Patch.Kind} {items : List Json}
    (hkind : Patch.Kind.ofJson (.string name) = pure kind) :
    (Patch.reading (.array (.string name :: items))).patch =
      (Patch.Content.items (Patch.readings items)).patch kind := by
  have hread : (Patch.reading (.array (.string name :: items))).patch =
      Patch.Kind.ofJson (.string name) >>= (Patch.Content.items (Patch.readings items)).patch := rfl
  rw [hread, hkind, pure_bind]

theorem Patch.reading_memoized (n : Nat) :
    (Patch.reading (Json.memoized n)).patch = pure (Patch.memoized n) := by
  induction n with
  | zero =>
      have hkind : Patch.Kind.ofJson (.string "connect") = pure .connect := rfl
      rw [Json.memoized, Patch.reading_items hkind]
      rfl
  | succ n ih =>
      have hkind : Patch.Kind.ofJson (.string "memoize") = pure .memoize := rfl
      rw [Json.memoized, Patch.reading_items hkind]
      simp [Patch.Content.patch, Patch.Content.record, Patch.memoizeFields, Patch.readings,
        Json.readPositions, Json.Field.needed, Patch.Reading.kept, Patch.reading_json, ih,
        Patch.memoized]

theorem Patch.readDoc_array {doc : Doc} {name : String} {kind : Patch.Kind} {items : List Json}
    (hkeep : doc.keep = .ok (.array (.string name :: items)))
    (hkind : Patch.Kind.ofJson (.string name) = pure kind) :
    Patch.readDoc doc = (Patch.Content.items (Patch.readings items)).patch kind := by
  obtain ⟨start, level, read, rfl, hlevel, hread⟩ := Json.Doc.bears_of_keep hkeep
  obtain ⟨first, value, rest, rfl, hvalue, hrest⟩ := Json.Items.item_of_keep hread
  obtain ⟨lexeme, rfl, hname⟩ := Json.Doc.bears_of_keep hvalue
  have hguard : Json.guardDepth start level = pure () := if_neg (Nat.not_lt.2 hlevel)
  have hchoice : Json.chooseName Patch.Kind.names name = pure kind := hkind
  have htext : Patch.Kind.ofText (.string lexeme) = pure kind := by
    rw [Patch.Kind.ofText, hname]
    simp only [Json.liftExcept, pure_bind, hchoice]
    rfl
  have hnext : (Items.item first (.string lexeme) rest).next Patch.Kind.ofText =
      pure (some kind, rest) := by
    rw [Items.next, htext]
    rfl
  have hothers : Json.liftExcept rest.keep = pure items := by
    rw [hrest]
    rfl
  simp only [Patch.readDoc, hguard, hnext, hothers, pure_bind]

theorem Patch.readDoc_memoized {doc : Doc} {n : Nat} (hkeep : doc.keep = .ok (Json.memoized n)) :
    Patch.readDoc doc = pure (Patch.memoized n) := by
  have hpatch := Patch.reading_memoized n
  cases n with
  | zero =>
      have hkind : Patch.Kind.ofJson (.string "connect") = pure .connect := rfl
      rw [Json.memoized] at hkeep hpatch
      rw [Patch.readDoc_array hkeep hkind, ← Patch.reading_items hkind, hpatch]
  | succ n =>
      have hkind : Patch.Kind.ofJson (.string "memoize") = pure .memoize := rfl
      rw [Json.memoized] at hkeep hpatch
      rw [Patch.readDoc_array hkeep hkind, ← Patch.reading_items hkind, hpatch]

theorem Patch.parse_memoized {n : Nat} (h : n < Json.depthLimit) (warnings : List Warning) :
    (Patch.parse (Json.memoized n).render).run warnings = .ok (Patch.memoized n) warnings := by
  have hread : ∀ m ∈ (Json.memoized n).numbers, Json.Readable m := by simp [Json.numbers_memoized]
  have hdepth : (Json.memoized n).depth ≤ Json.depthLimit := by rwa [Json.depth_memoized]
  obtain ⟨hkeep, htrailing⟩ := Json.ofText_eq_ok_iff.1 (Json.ofText_render hread hdepth)
  rw [Json.mapNumbers_memoized] at hkeep
  refine Patch.parse_of_ofText ?_ warnings
  simp only [Patch.ofText, Json.wholeText, Patch.readDoc_memoized hkeep, pure_bind, htrailing]

-- As deep as a source may go, its normal form goes too deep.
theorem Patch.normal_form_too_deep :
    (Patch.parse (Json.memoized 126).render).run [] = .ok (Patch.memoized 126) [] ∧
      ¬∃ again after, (Patch.parse (Patch.memoized 126).render).run [] = .ok again after := by
  have hfinite : ∀ x ∈ (Patch.memoized 126).numbers, x.isFinite = true := by
    rw [Patch.numbers_memoized]
    exact fun x hx => nomatch hx
  refine ⟨Patch.parse_memoized (by decide) [], fun h => ?_⟩
  have hdepth := (Patch.parse_render_iff hfinite []).1 h
  rw [Patch.depth_memoized] at hdepth
  exact absurd hdepth (by decide)

-- One container less, and it does not.
theorem Patch.normal_form_accepted_deepest :
    (Patch.parse (Json.memoized 125).render).run [] = .ok (Patch.memoized 125) [] ∧
      ∃ again after, (Patch.parse (Patch.memoized 125).render).run [] = .ok again after := by
  have hparse : (Patch.parse (Json.memoized 125).render).run [] = .ok (Patch.memoized 125) [] :=
    Patch.parse_memoized (by decide) []
  have hdepth : (Patch.memoized 125).toJson.depth ≤ Json.depthLimit := by
    rw [Patch.depth_memoized]
    decide
  exact ⟨hparse, ((Patch.normal_form_accepted hparse).2 []).2 hdepth⟩

end Patchbay
