import Fiff.Float.Binary

/-!
# Dense single-precision matrices

A matrix is a shape and its entries in row-major order; the entry count always equals the
product of the dimensions. Rows may be read off as lists (`toRows`) and a list of rows becomes a
matrix when no row differs in length from the first (`ofRows`). `transpose` swaps the axes and
reorders the entries, so its entries are again in row-major order of the new shape.
-/

set_option autoImplicit false

namespace Fiff

/-- A dense matrix of single-precision values, entries in row-major order. -/
structure Matrix where
  rows : Nat
  cols : Nat
  entries : List Binary32
  length_entries : entries.length = rows * cols

namespace Matrix

instance : Inhabited Matrix := ⟨⟨0, 0, [], rfl⟩⟩

instance : DecidableEq Matrix := fun a b =>
  if h : a.rows = b.rows ∧ a.cols = b.cols ∧ a.entries = b.entries then
    isTrue (by cases a; cases b; simp_all)
  else
    isFalse (by intro e; subst e; exact h ⟨rfl, rfl, rfl⟩)

def get (m : Matrix) (i j : Nat) : Binary32 :=
  m.entries.getD (i * m.cols + j) default

def ofShape? (rows cols : Nat) (entries : List Binary32) : Option Matrix :=
  if h : entries.length = rows * cols then some ⟨rows, cols, entries, h⟩ else none

def raggedRow? (rs : List (List Binary32)) : Option (Nat × Nat) :=
  let width := (rs.head?.map List.length).getD 0
  (rs.zipIdx.find? (fun (r, _) => r.length != width)).map fun (r, i) => (i, r.length)

theorem length_flatten_of_width (rs : List (List Binary32)) (w : Nat)
    (h : ∀ r ∈ rs, r.length = w) : rs.flatten.length = rs.length * w := by
  induction rs with
  | nil => simp
  | cons r rs ih =>
    simp only [List.flatten_cons, List.length_append, List.length_cons]
    rw [h r (by simp), ih (fun x hx => h x (by simp [hx]))]
    rw [Nat.succ_mul, Nat.add_comm]

/-- A matrix from its rows, or the index and length of the first row whose length differs from
row `0`'s. No rows give the `0 × 0` matrix. -/
def ofRows (rs : List (List Binary32)) : Except (Nat × Nat) Matrix :=
  let width := (rs.head?.map List.length).getD 0
  if h : ∀ r ∈ rs, r.length = width then
    .ok ⟨rs.length, width, rs.flatten, length_flatten_of_width rs width h⟩
  else
    .error ((raggedRow? rs).getD (0, 0))

/-- The rows of a matrix, top to bottom. -/
def toRows (m : Matrix) : List (List Binary32) :=
  (List.range m.rows).map fun i => (m.entries.drop (i * m.cols)).take m.cols

theorem length_flatMap_of_width {α β : Type} (l : List α) (f : α → List β) (n : Nat)
    (h : ∀ a ∈ l, (f a).length = n) : (l.flatMap f).length = l.length * n := by
  induction l with
  | nil => simp
  | cons x l ih =>
    rw [List.flatMap_cons, List.length_append, h x List.mem_cons_self,
      ih (fun a ha => h a (List.mem_cons_of_mem x ha)), List.length_cons, Nat.succ_mul, Nat.add_comm]

/-- The transposed matrix: entry `(j, i)` of the result is entry `(i, j)` of `m`. -/
def transpose (m : Matrix) : Matrix where
  rows := m.cols
  cols := m.rows
  entries := (List.range m.cols).flatMap fun j => (List.range m.rows).map fun i => m.get i j
  length_entries := by
    rw [length_flatMap_of_width _ _ m.rows (fun _ _ => by simp), List.length_range, Nat.mul_comm]

end Matrix

end Fiff
