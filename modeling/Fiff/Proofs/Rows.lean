import Fiff.Proofs.Transpose
import Fiff.Schema

/-!
# Matrices as lists of rows

A matrix is written as the list of its rows and read back from a list of rows, its width taken
from the first row. Reading accepts exactly the lists whose rows all have the first row's length
(`exists_ofRows_eq_ok_iff`); any other list is refused with the index and length of the first row
whose length differs, and with the first row's length as the one expected
(`toMatrix_eq_error_iff`). What is read is written back as the same rows (`toRows_ofRows`). The
rows of a matrix do not record its width when there are none, so the `0 × c` matrices all read
back as the `0 × 0` matrix, and every other matrix reads back unchanged (`ofRows_toRows`).
-/

set_option autoImplicit false

namespace Fiff

namespace Matrix

def firstWidth (rs : List (List Binary32)) : Nat := (rs.head?.map List.length).getD 0

theorem default_eq : (default : Matrix) = ⟨0, 0, [], rfl⟩ := rfl

theorem flatten_map_range_chunks {α : Type} (xs : List α) (w n : Nat) :
    ((List.range n).map fun i => (xs.drop (i * w)).take w).flatten = xs.take (n * w) := by
  induction n with
  | zero => simp
  | succ n ih =>
    rw [List.range_succ, List.map_append, List.flatten_append, ih, Nat.succ_mul, List.take_add]
    simp

theorem map_range_chunks_flatten {α : Type} (rs : List (List α)) (w : Nat)
    (h : ∀ r ∈ rs, r.length = w) :
    (List.range rs.length).map (fun i => (rs.flatten.drop (i * w)).take w) = rs := by
  induction rs with
  | nil => rfl
  | cons r rs ih =>
    have hr : r.length = w := h r List.mem_cons_self
    have hTail := ih fun x hx => h x (List.mem_cons_of_mem r hx)
    rw [List.length_cons, List.range_succ_eq_map, List.map_cons, List.map_map]
    congr 1
    · rw [Nat.zero_mul, List.drop_zero, List.flatten_cons, List.take_left' hr]
    · conv => rhs; rw [← hTail]
      refine List.map_congr_left fun i _ => ?_
      simp only [Function.comp_apply, List.flatten_cons, Nat.succ_mul]
      rw [Nat.add_comm, ← List.drop_drop, List.drop_left' hr]

theorem length_toRows (m : Matrix) : m.toRows.length = m.rows := by
  simp [toRows]

theorem length_of_mem_toRows {m : Matrix} {r : List Binary32} (h : r ∈ m.toRows) :
    r.length = m.cols := by
  obtain ⟨i, hi, rfl⟩ := List.mem_map.mp h
  have hRow : i * m.cols + m.cols ≤ m.entries.length := by
    rw [m.length_entries, ← Nat.succ_mul]
    exact Nat.mul_le_mul_right _ (List.mem_range.mp hi)
  simp only [List.length_take, List.length_drop]
  omega

theorem flatten_toRows (m : Matrix) : m.toRows.flatten = m.entries := by
  rw [toRows, flatten_map_range_chunks, ← m.length_entries, List.take_length]

theorem firstWidth_toRows (m : Matrix) :
    firstWidth m.toRows = if m.rows = 0 then 0 else m.cols := by
  split
  · rename_i hRows
    rw [List.eq_nil_of_length_eq_zero ((length_toRows m).trans hRows)]
    rfl
  · obtain ⟨r, rs, hCons⟩ := List.exists_cons_of_length_pos
      (by rw [length_toRows]; omega : 0 < m.toRows.length)
    rw [firstWidth, hCons]
    exact length_of_mem_toRows (hCons ▸ List.mem_cons_self)

theorem ofRows_of_width {rs : List (List Binary32)} (h : ∀ r ∈ rs, r.length = firstWidth rs) :
    ofRows rs = .ok ⟨rs.length, firstWidth rs, rs.flatten, length_flatten_of_width rs _ h⟩ := by
  have hFirst : ∀ r ∈ rs, r.length = (rs.head?.map List.length).getD 0 := h
  unfold ofRows
  dsimp only
  rw [dif_pos hFirst]
  rfl

theorem ofRows_of_ragged {rs : List (List Binary32)} (h : ¬ ∀ r ∈ rs, r.length = firstWidth rs) :
    ofRows rs = .error ((raggedRow? rs).getD (0, 0)) := by
  have hFirst : ¬ ∀ r ∈ rs, r.length = (rs.head?.map List.length).getD 0 := h
  unfold ofRows
  dsimp only
  rw [dif_neg hFirst]

/-- A list of rows reads as a matrix exactly when every row has the first row's length. -/
theorem exists_ofRows_eq_ok_iff (rs : List (List Binary32)) :
    (∃ m, ofRows rs = .ok m) ↔ ∀ r ∈ rs, r.length = firstWidth rs := by
  constructor
  · rintro ⟨m, hm⟩
    by_contra hRagged
    rw [ofRows_of_ragged hRagged] at hm
    cases hm
  · intro h
    exact ⟨_, ofRows_of_width h⟩

def FirstOtherWidth (rs : List (List Binary32)) (w i : Nat) : Prop :=
  ∃ hi : i < rs.length, rs[i].length ≠ w ∧ ∀ j (hj : j < i), rs[j].length = w

theorem FirstOtherWidth.unique {rs : List (List Binary32)} {w i i' : Nat}
    (h : FirstOtherWidth rs w i) (h' : FirstOtherWidth rs w i') : i = i' := by
  obtain ⟨hi, hOther, hBefore⟩ := h
  obtain ⟨hi', hOther', hBefore'⟩ := h'
  rcases Nat.lt_trichotomy i i' with hLt | hEq | hGt
  · exact absurd (hBefore' i hLt) hOther
  · exact hEq
  · exact absurd (hBefore i' hGt) hOther'

theorem exists_firstOtherWidth {rs : List (List Binary32)} {w : Nat}
    (h : ¬ ∀ r ∈ rs, r.length = w) : ∃ i, FirstOtherWidth rs w i := by
  have hSome : ∃ i, ∃ hi : i < rs.length, rs[i].length ≠ w := by
    simp only [not_forall] at h
    obtain ⟨r, hr, hOther⟩ := h
    obtain ⟨i, hi, rfl⟩ := List.getElem_of_mem hr
    exact ⟨i, hi, hOther⟩
  classical
  refine ⟨Nat.find hSome, (Nat.find_spec hSome).1, (Nat.find_spec hSome).2, fun j hj => ?_⟩
  by_contra hOther
  exact Nat.find_min hSome hj ⟨_, hOther⟩

theorem raggedRow?_eq_some {rs : List (List Binary32)} {i : Nat}
    (h : FirstOtherWidth rs (firstWidth rs) i) :
    ∃ hi : i < rs.length, raggedRow? rs = some (i, rs[i].length) := by
  obtain ⟨hi, hOther, hBefore⟩ := h
  refine ⟨hi, ?_⟩
  simp only [raggedRow?]
  rw [show (rs.head?.map List.length).getD 0 = firstWidth rs from rfl, Option.map_eq_some_iff]
  refine ⟨(rs[i], i), ?_, rfl⟩
  rw [List.find?_eq_some_iff_getElem]
  refine ⟨by simpa using hOther, i, by simpa using hi, by simp, fun j hj => ?_⟩
  simpa using hBefore j hj

/-- A matrix's rows read back as the matrix, except that a matrix with no rows reads back as
`0 × 0`. -/
theorem ofRows_toRows (m : Matrix) : ofRows m.toRows = .ok (if m.rows = 0 then default else m) := by
  have hWidth : ∀ r ∈ m.toRows, r.length = firstWidth m.toRows := by
    intro r hr
    have hPos : m.rows ≠ 0 := by
      intro hZero
      rw [List.eq_nil_of_length_eq_zero ((length_toRows m).trans hZero)] at hr
      cases hr
    rw [firstWidth_toRows, if_neg hPos]
    exact length_of_mem_toRows hr
  rw [ofRows_of_width hWidth]
  congr 1
  split
  · rename_i hRows
    have hEmpty : m.entries = [] := by
      rw [← List.length_eq_zero_iff, m.length_entries, hRows, Nat.zero_mul]
    exact ext ((length_toRows m).trans hRows) ((firstWidth_toRows m).trans (if_pos hRows))
      ((flatten_toRows m).trans hEmpty)
  · rename_i hRows
    exact ext (length_toRows m) (by simp [firstWidth_toRows, hRows]) (flatten_toRows m)

/-- A matrix read from rows writes back as those rows. -/
theorem toRows_ofRows {rs : List (List Binary32)} {m : Matrix} (h : ofRows rs = .ok m) :
    m.toRows = rs := by
  have hWidth : ∀ r ∈ rs, r.length = firstWidth rs := (exists_ofRows_eq_ok_iff rs).mp ⟨m, h⟩
  rw [ofRows_of_width hWidth] at h
  cases h
  exact map_range_chunks_flatten rs _ hWidth

end Matrix

def Datum.ofRows (rs : List (List Binary32)) : List Datum :=
  rs.map fun r => .list (r.map .single)

theorem Datum.toMatrix_ofRows_of_width {rs : List (List Binary32)}
    (h : ∀ r ∈ rs, r.length = Matrix.firstWidth rs) :
    Datum.toMatrix (Datum.ofRows rs) = .ok ⟨rs.length, Matrix.firstWidth rs, rs.flatten,
      Matrix.length_flatten_of_width rs _ h⟩ := by
  simp [Datum.toMatrix, Datum.ofRows, Function.comp_def, Matrix.ofRows_of_width h]

theorem Datum.toMatrix_ofRows_of_ragged {rs : List (List Binary32)}
    (h : ¬ ∀ r ∈ rs, r.length = Matrix.firstWidth rs) :
    Datum.toMatrix (Datum.ofRows rs) = .error (.raggedRow ((Matrix.raggedRow? rs).getD (0, 0)).1
      ((Matrix.raggedRow? rs).getD (0, 0)).2 (Matrix.firstWidth rs)) := by
  simp [Datum.toMatrix, Datum.ofRows, Function.comp_def, Matrix.ofRows_of_ragged h,
    Matrix.firstWidth]

theorem Datum.toMatrix_ofRows_eq_ok_iff (rs : List (List Binary32)) (m : Matrix) :
    Datum.toMatrix (Datum.ofRows rs) = .ok m ↔ Matrix.ofRows rs = .ok m := by
  by_cases hWidth : ∀ r ∈ rs, r.length = Matrix.firstWidth rs
  · rw [Datum.toMatrix_ofRows_of_width hWidth, Matrix.ofRows_of_width hWidth,
      Except.ok.injEq, Except.ok.injEq]
  · rw [Datum.toMatrix_ofRows_of_ragged hWidth, Matrix.ofRows_of_ragged hWidth]
    simp

/-- Rows read as a matrix are refused exactly when some row's length differs from the first
row's, and the error names the first such row, its length and the length expected. -/
theorem Datum.toMatrix_eq_error_iff (rs : List (List Binary32)) (e : DataError) :
    Datum.toMatrix (Datum.ofRows rs) = .error e ↔
      ∃ i, Matrix.FirstOtherWidth rs (Matrix.firstWidth rs) i ∧
        ∃ hi : i < rs.length, e = .raggedRow i rs[i].length (Matrix.firstWidth rs) := by
  by_cases hWidth : ∀ r ∈ rs, r.length = Matrix.firstWidth rs
  · rw [Datum.toMatrix_ofRows_of_width hWidth]
    simp only [reduceCtorEq, false_iff, not_exists, not_and]
    intro i hFirst
    obtain ⟨hi, hOther, -⟩ := hFirst
    exact absurd (hWidth _ (List.getElem_mem hi)) hOther
  · obtain ⟨i, hFirst⟩ := Matrix.exists_firstOtherWidth hWidth
    obtain ⟨hi, hRagged⟩ := Matrix.raggedRow?_eq_some hFirst
    rw [Datum.toMatrix_ofRows_of_ragged hWidth, hRagged]
    simp only [Option.getD_some, Except.error.injEq]
    constructor
    · rintro rfl
      exact ⟨i, hFirst, hi, rfl⟩
    · rintro ⟨i', hFirst', hi', rfl⟩
      obtain rfl := hFirst.unique hFirst'
      rfl

end Fiff
