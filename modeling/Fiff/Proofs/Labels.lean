import Fiff.Proofs.NamedRead

/-!
# Label lists as one text

A label list travels as one string tag, its labels joined by `:`, and is read back by splitting
the text at every `:`. As character lists the two are `List.intercalate [':']` and
`List.splitOn ':'` (`Labels.toList_join`, `Labels.split_eq`). Splitting undoes joining on every
non-empty list of labels free of `:`, lists of empty labels included; joining undoes splitting
on every text, whose pieces form a non-empty list of colon-free labels. Joining cannot tell the
empty list from `[""]`: the writer writes no tag for an empty list and the reader gives an empty
list for a block without one, so every colon-free list comes back as it was
(`label_list_codec`).
-/

set_option autoImplicit false

namespace Fiff

namespace Labels

theorem toList_join (names : List String) :
    (join names).toList = [':'].intercalate (names.map String.toList) := by
  simp [join, String.toList_intercalate]

theorem split_eq (s : String) : split s = (s.toList.splitOn ':').map String.ofList := by
  rw [split, String.toList_split_char]

theorem not_mem_of_mem_splitOn {xs w : List Char} {c : Char} (h : w ∈ xs.splitOn c) : c ∉ w := by
  induction xs generalizing w with
  | nil =>
    rw [List.splitOn_nil, List.mem_singleton] at h
    rw [h]
    exact List.not_mem_nil
  | cons x xs ih =>
    rw [List.splitOn_cons_eq_if_modifyHead] at h
    split at h
    · rcases List.mem_cons.mp h with rfl | hTail
      · exact List.not_mem_nil
      · exact ih hTail
    · rename_i hx
      obtain ⟨first, rest, hSplit⟩ := List.exists_cons_of_ne_nil (List.splitOn_ne_nil c xs)
      rw [hSplit, List.modifyHead_cons] at h
      rcases List.mem_cons.mp h with rfl | hRest
      · intro hMem
        rcases List.mem_cons.mp hMem with hEq | hFirst
        · exact hx (by rw [hEq, beq_self_eq_true])
        · exact ih (hSplit ▸ List.mem_cons_self) hFirst
      · exact ih (hSplit ▸ List.mem_cons_of_mem first hRest)

theorem split_join {names : List String} (hNames : names ≠ [])
    (hColon : ∀ s ∈ names, ':' ∉ s.toList) : split (join names) = names := by
  rw [split_eq, toList_join, List.splitOn_intercalate ':' (by simpa using hColon)
    (by simpa using hNames), List.map_map]
  conv => rhs; rw [← List.map_id names]
  exact List.map_congr_left fun s _ => String.ofList_toList

example : split (join ["", ""]) = ["", ""] := by cbv

theorem split_ne_nil (s : String) : split s ≠ [] := by
  rw [split_eq]
  simp

theorem colon_free_of_mem_split {s p : String} (h : p ∈ split s) : ':' ∉ p.toList := by
  rw [split_eq] at h
  obtain ⟨piece, hPiece, rfl⟩ := List.mem_map.mp h
  rw [String.toList_ofList]
  exact not_mem_of_mem_splitOn hPiece

theorem join_split (s : String) : join (split s) = s := by
  rw [← String.toList_inj, toList_join, split_eq, List.map_map]
  conv => rhs; rw [← @List.intercalate_splitOn Char s.toList _ _ ':']
  congr 1
  conv => rhs; rw [← List.map_id (s.toList.splitOn ':')]
  exact List.map_congr_left fun piece _ => String.toList_ofList

end Labels

theorem NamedMatrix.head?_labelCall (κ : Int32) (names : List String) :
    ((NamedMatrix.labelCall κ names).map Call.tag).head? =
      if names = [] then none else some ⟨κ, .string (Labels.join names)⟩ := by
  by_cases hNames : names = []
  · simp [NamedMatrix.labelCall, hNames]
  · have hNotEmpty : names.isEmpty = false := List.isEmpty_eq_false_iff.mpr hNames
    simp [NamedMatrix.labelCall, hNotEmpty, hNames, Call.tag, Labels.join]

/-- The label-list codec. Splitting at `:` undoes joining with `:` on every non-empty list of
colon-free labels; joining undoes splitting on every text, whose pieces are a non-empty list of
colon-free labels; and a label read of a block, whose search finds what the writer wrote for a
colon-free list (nothing, for an empty list), gives that list back. -/
theorem label_list_codec :
    (∀ names : List String, names ≠ [] → (∀ s ∈ names, ':' ∉ s.toList) →
      Labels.split (Labels.join names) = names) ∧
    (∀ s : String, Labels.split s ≠ [] ∧ (∀ p ∈ Labels.split s, ':' ∉ p.toList) ∧
      Labels.join (Labels.split s) = s) ∧
    (∀ {ρ : Type} [TagRead ρ] (n : Node) (κ : Int32) (names : List String) (r r' : ρ),
      (∀ s ∈ names, ':' ∉ s.toList) →
      (TagRead.findTag n κ).run r = .ok (((NamedMatrix.labelCall κ names).map Call.tag).head?) r' →
      (readNames n κ : EStateM MatrixError ρ (List String)).run r = .ok names r') := by
  refine ⟨fun names hNames hColon => Labels.split_join hNames hColon,
    fun s => ⟨Labels.split_ne_nil s, fun p hp => Labels.colon_free_of_mem_split hp,
      Labels.join_split s⟩, ?_⟩
  intro ρ _ n κ names r r' hColon hFind
  rw [NamedMatrix.head?_labelCall] at hFind
  exact readNames_of_findTag hColon hFind

end Fiff
