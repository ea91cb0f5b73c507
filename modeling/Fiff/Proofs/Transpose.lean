import Fiff.Proofs.NamedWrite
import Mathlib.Data.List.GetD

/-!
# Transposition is the logical transpose

A matrix's entries are its values row by row (`Matrix.grid`), so an entry is found by its row
and column alone (`Matrix.get`). Transposing swaps the shape and puts entry `(i, j)` at
`(j, i)`; the payload of the result is then the row-major listing of that logical transpose, and
transposing twice gives the matrix back. On a labelled matrix the counts and label lists are
swapped too, with no check, so transposition keeps a matrix fit for writing exactly when it was.
-/

set_option autoImplicit false

namespace Fiff

namespace Matrix

/-- The values `f i j` of a `rows × cols` grid, row by row. -/
def grid (rows cols : Nat) (f : Nat → Nat → Binary32) : List Binary32 :=
  (List.range rows).flatMap fun i => (List.range cols).map fun j => f i j

/-- The payload of the `rows × cols` matrix whose entry `(i, j)` is `f i j`: the values row by
row, each a big-endian pattern, then the column count, the row count and the rank. -/
def rowMajor (rows cols : Nat) (f : Nat → Nat → Binary32) : List UInt8 :=
  Word.ofUInt32s ((grid rows cols f).map Binary32.bits) ++ Word.bytes 4 cols ++
    Word.bytes 4 rows ++ Word.ofInt32 2

theorem ext {a b : Matrix} (hRows : a.rows = b.rows) (hCols : a.cols = b.cols)
    (hEntries : a.entries = b.entries) : a = b := by
  cases a
  cases b
  simp_all

@[simp] theorem length_grid (rows cols : Nat) (f : Nat → Nat → Binary32) :
    (grid rows cols f).length = rows * cols := by
  rw [grid, length_flatMap_of_width _ _ cols (fun _ _ => by simp), List.length_range]

theorem grid_succ (rows cols : Nat) (f : Nat → Nat → Binary32) :
    grid (rows + 1) cols f = grid rows cols f ++ (List.range cols).map fun j => f rows j := by
  simp [grid, List.range_succ, List.flatMap_append]

theorem grid_congr {rows cols : Nat} {f g : Nat → Nat → Binary32}
    (h : ∀ i < rows, ∀ j < cols, f i j = g i j) : grid rows cols f = grid rows cols g := by
  unfold grid
  refine List.flatMap_congr fun i hi => List.map_congr_left fun j hj => ?_
  exact h i (List.mem_range.mp hi) j (List.mem_range.mp hj)

theorem getD_grid {rows cols i j : Nat} (f : Nat → Nat → Binary32) (d : Binary32)
    (hi : i < rows) (hj : j < cols) : (grid rows cols f).getD (i * cols + j) d = f i j := by
  induction rows with
  | zero => omega
  | succ rows ih =>
    rw [grid_succ]
    by_cases hLast : i = rows
    · subst hLast
      rw [List.getD_append_right _ _ _ _ (by simp)]
      simp [hj]
    · have hBefore : i * cols + j < rows * cols := by
        have : i + 1 ≤ rows := by omega
        calc i * cols + j < (i + 1) * cols := by rw [Nat.succ_mul]; omega
          _ ≤ rows * cols := Nat.mul_le_mul_right cols this
      rw [List.getD_append _ _ _ _ (by simpa using hBefore)]
      exact ih (by omega)

theorem entries_eq_grid (m : Matrix) : m.entries = grid m.rows m.cols m.get := by
  apply List.ext_getElem (by rw [length_grid, m.length_entries])
  intro k hk hk'
  have hCols : 0 < m.cols := by
    rw [m.length_entries] at hk
    exact Nat.pos_of_ne_zero (by rintro h; simp [h] at hk)
  have hRow : k / m.cols < m.rows := by
    rw [m.length_entries] at hk
    exact Nat.div_lt_of_lt_mul (by rwa [Nat.mul_comm] at hk)
  have hSplit : k / m.cols * m.cols + k % m.cols = k := by
    rw [Nat.mul_comm]
    exact Nat.div_add_mod k m.cols
  have hGrid := getD_grid m.get default hRow (Nat.mod_lt k hCols)
  rw [hSplit, List.getD_eq_getElem _ _ hk'] at hGrid
  rw [hGrid, get, hSplit, List.getD_eq_getElem _ _ hk]

theorem encode_eq_rowMajor (m : Matrix) : m.encode = rowMajor m.rows m.cols m.get := by
  rw [encode, rowMajor, ← entries_eq_grid]

@[simp] theorem transpose_rows (m : Matrix) : m.transpose.rows = m.cols := rfl

@[simp] theorem transpose_cols (m : Matrix) : m.transpose.cols = m.rows := rfl

theorem transpose_entries (m : Matrix) :
    m.transpose.entries = grid m.cols m.rows fun j i => m.get i j := rfl

theorem get_transpose (m : Matrix) {i j : Nat} (hi : i < m.rows) (hj : j < m.cols) :
    m.transpose.get j i = m.get i j := by
  rw [get, transpose_entries]
  exact getD_grid (fun j i => m.get i j) default hj hi

theorem encode_transpose (m : Matrix) :
    m.transpose.encode = rowMajor m.cols m.rows fun j i => m.get i j := by
  rw [encode_eq_rowMajor, transpose_rows, transpose_cols, rowMajor, rowMajor,
    grid_congr (f := m.transpose.get) fun j _ i _ => get_transpose m ‹_› ‹_›]

theorem transpose_transpose (m : Matrix) : m.transpose.transpose = m := by
  refine ext rfl rfl ?_
  rw [transpose_entries, entries_eq_grid m]
  exact grid_congr fun i hi j hj => get_transpose m hi hj

end Matrix

namespace NamedMatrix

theorem transpose_transpose (m : NamedMatrix) : m.transpose.transpose = m := by
  simp [transpose, Matrix.transpose_transpose]

theorem wellFormed_transpose_iff (m : NamedMatrix) : m.transpose.WellFormed ↔ m.WellFormed := by
  constructor
  · rintro ⟨hRows, hCols, hNrow, hNcol, hRn, hCn⟩
    exact ⟨hCols, hRows, hNcol, hNrow, hCn, hRn⟩
  · rintro ⟨hRows, hCols, hNrow, hNcol, hRn, hCn⟩
    exact ⟨hCols, hRows, hNcol, hNrow, hCn, hRn⟩

theorem payloadsFit_transpose_iff (m : NamedMatrix) : m.transpose.PayloadsFit ↔ m.PayloadsFit := by
  have hData : m.transpose.data.encode.length = m.data.encode.length := by
    rw [transpose, Matrix.length_encode, Matrix.length_encode, Matrix.length_entries,
      Matrix.length_entries, Matrix.transpose_rows, Matrix.transpose_cols]
    ring
  constructor
  · rintro ⟨hd, hRn, hCn⟩
    exact ⟨hData ▸ hd, hCn, hRn⟩
  · rintro ⟨hd, hRn, hCn⟩
    exact ⟨hData ▸ hd, hCn, hRn⟩

end NamedMatrix

open NamedMatrix in
/-- Transposing a labelled matrix, whatever its counts and labels: counts and label lists are
swapped, the data of shape `(r, c)` becomes data of shape `(c, r)` whose entry `(j, i)` is entry
`(i, j)`, and its payload is the row-major listing of that logical transpose. Transposing twice
gives the matrix back, and a transpose is well formed, and has payloads that fit a header,
exactly when the matrix has. -/
theorem transpose_is_logical (m : NamedMatrix) :
    m.transpose.nrow = m.ncol ∧ m.transpose.ncol = m.nrow ∧
      m.transpose.rowNames = m.colNames ∧ m.transpose.colNames = m.rowNames ∧
      m.transpose.data.rows = m.data.cols ∧ m.transpose.data.cols = m.data.rows ∧
      (∀ i < m.data.rows, ∀ j < m.data.cols, m.transpose.data.get j i = m.data.get i j) ∧
      (TagData.floatMatrix m.transpose.data).encode =
        Matrix.rowMajor m.data.cols m.data.rows (fun j i => m.data.get i j) ∧
      m.transpose.transpose = m ∧
      (m.transpose.WellFormed ↔ m.WellFormed) ∧ (m.transpose.PayloadsFit ↔ m.PayloadsFit) := by
  exact ⟨rfl, rfl, rfl, rfl, rfl, rfl, fun i hi j hj => Matrix.get_transpose m.data hi hj,
    Matrix.encode_transpose m.data, transpose_transpose m, wellFormed_transpose_iff m,
    payloadsFit_transpose_iff m⟩

open NamedMatrix in
/-- A labelled two-by-three matrix: its last entry moves to row `2`, column `1`, and its
transpose is well formed. -/
theorem transpose_is_logical_labelled :
    let m : NamedMatrix := ⟨2, 3, ["r1", "r2"], ["c1", "c2", "c3"],
      ⟨2, 3, [⟨1⟩, ⟨2⟩, ⟨3⟩, ⟨4⟩, ⟨5⟩, ⟨6⟩], rfl⟩⟩
    m.transpose.data.get 2 1 = m.data.get 1 2 ∧ m.data.get 1 2 = ⟨6⟩ ∧ m.transpose.WellFormed := by
  intro m
  obtain ⟨-, -, -, -, -, -, hGet, -, -, hWell, -⟩ := transpose_is_logical m
  have hm : m.WellFormed :=
    ⟨rfl, rfl, by decide, by decide, .inr ⟨rfl, by decide⟩, .inr ⟨rfl, by decide⟩⟩
  exact ⟨hGet 1 (by decide) 2 (by decide), by decide, hWell.mpr hm⟩

end Fiff
