import Mathlib.Data.List.Induction
import Patchbay.Keyed

namespace Patchbay.Keyed

section

variable {κ α : Type} [Ord κ] {key : κ} {value : α} {entries : List (κ × α)}

theorem mem_insert {entry : κ × α} (h : entry ∈ insert key value entries) :
    entry = (key, value) ∨ entry ∈ entries := by
  induction entries with
  | nil => exact .inl (by simpa [insert] using h)
  | cons first rest ih =>
      rw [insert] at h
      split at h
      · exact (List.mem_cons.1 h).imp_right id
      · exact (List.mem_cons.1 h).imp_right (List.mem_cons_of_mem _)
      · rcases List.mem_cons.1 h with rfl | h
        · exact .inr List.mem_cons_self
        · exact (ih h).imp_right (List.mem_cons_of_mem _)

theorem mem_of_get? (h : get? entries key = some value) : ∃ entry ∈ entries, entry.2 = value := by
  obtain ⟨entry, hentry, rfl⟩ := Option.map_eq_some_iff.1 h
  exact ⟨entry, List.mem_of_find?_eq_some hentry, rfl⟩

variable [Std.LawfulEqOrd κ]

theorem get?_insert [DecidableEq κ] (key other : κ) (value : α) (entries : List (κ × α)) :
    get? (insert key value entries) other =
      if key = other then some value else get? entries other := by
  have hcons (k : κ) (v : α) (rest : List (κ × α)) :
      get? ((k, v) :: rest) other = if k = other then some v else get? rest other := by
    by_cases heq : k = other
    · simp [get?, heq]
    · have hne : (compare k other == .eq) = false := by simp [heq]
      simp [get?, hne, heq]
  induction entries with
  | nil => exact hcons key value []
  | cons entry rest ih =>
      obtain ⟨k, v⟩ := entry
      rw [insert]
      split
      case h_1 => exact hcons key value _
      case h_2 heq =>
          obtain rfl := Std.compare_eq_iff_eq.1 heq
          rw [hcons, hcons]
          split <;> rfl
      case h_3 hgt =>
          have hne : key ≠ k := by
            rintro rfl
            simp at hgt
          rw [hcons, ih, hcons]
          by_cases hk : k = other
          · simp [hk ▸ hne, hk]
          · simp [hk]

theorem insert_perm (h : key ∉ entries.map Prod.fst) :
    (insert key value entries).Perm ((key, value) :: entries) := by
  induction entries with
  | nil => exact .refl _
  | cons entry rest ih =>
      obtain ⟨k, v⟩ := entry
      simp only [List.map_cons, List.mem_cons, not_or] at h
      rw [insert]
      split
      case h_1 => exact .refl _
      case h_2 heq => exact absurd (Std.LawfulEqOrd.eq_of_compare heq) h.1
      case h_3 => exact ((ih h.2).cons (k, v)).trans (.swap ..)

theorem not_mem_of_get? (h : get? entries key = none) : key ∉ entries.map Prod.fst := by
  intro hmem
  obtain ⟨entry, hentry, rfl⟩ := List.mem_map.1 hmem
  simpa using List.find?_eq_none.1 (Option.map_eq_none_iff.1 h) entry hentry

theorem length_insert (h : get? entries key = none) :
    (insert key value entries).length = entries.length + 1 :=
  (insert_perm (not_mem_of_get? h)).length_eq

-- What is listed once under each key stays as it is but for the order.
theorem ofList_perm (h : (entries.map Prod.fst).Nodup) : (ofList entries).Perm entries := by
  induction entries using List.reverseRecOn with
  | nil => exact .refl _
  | append_singleton entries entry ih =>
      rw [List.map_append, List.nodup_append] at h
      have hrest := ih h.1
      have hnew : entry.1 ∉ (ofList entries).map Prod.fst := by
        rw [(hrest.map Prod.fst).mem_iff]
        exact fun hmem => h.2.2 _ hmem _ (by simp) rfl
      have hinsert : ofList (entries ++ [entry]) = insert entry.1 entry.2 (ofList entries) := by
        rw [ofList, List.foldl_append]
        rfl
      rw [hinsert]
      exact (insert_perm hnew).trans ((hrest.cons entry).trans (List.perm_append_singleton _ _).symm)

end

-- Keys stand in ascending order.
def Ascends {α : Type} (entries : List (Nat × α)) : Prop := entries.Pairwise fun a b => a.1 < b.1

theorem ascends_insert {α : Type} {entries : List (Nat × α)} (h : Ascends entries) (key : Nat)
    (value : α) : Ascends (insert key value entries) := by
  induction entries with
  | nil => exact List.pairwise_singleton _ _
  | cons entry rest ih =>
      obtain ⟨k, v⟩ := entry
      obtain ⟨hbelow, hrest⟩ := List.pairwise_cons.1 h
      rw [insert]
      split
      case h_1 hlt =>
          have hkey := Nat.compare_eq_lt.1 hlt
          refine List.pairwise_cons.2 ⟨fun other hother => ?_, h⟩
          rcases List.mem_cons.1 hother with rfl | hother
          · exact hkey
          · exact Nat.lt_trans hkey (hbelow other hother)
      case h_2 heq =>
          obtain rfl := Nat.compare_eq_eq.1 heq
          exact List.pairwise_cons.2 ⟨hbelow, hrest⟩
      case h_3 hgt =>
          refine List.pairwise_cons.2 ⟨fun other hother => ?_, ih hrest⟩
          rcases mem_insert hother with rfl | hother
          · exact Nat.compare_eq_gt.1 hgt
          · exact hbelow other hother

theorem ascends_ofList {α : Type} (entries : List (Nat × α)) : Ascends (ofList entries) := by
  induction entries using List.reverseRecOn with
  | nil => exact List.Pairwise.nil
  | append_singleton entries entry ih =>
      rw [ofList, List.foldl_append]
      exact ascends_insert ih entry.1 entry.2

end Patchbay.Keyed
