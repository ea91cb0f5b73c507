import Fiff.Proofs.JsonRecord
import Fiff.Proofs.InterchangeText
import Fiff.Proofs.Rows
import Mathlib

/-!
# Labelled matrices through their JSON text

A matrix is written as the list of its rows and read back by cutting at the first row's width;
a labelled matrix is written as a JSON object of its counts, its labels and those rows. Read
back from its compact text, a labelled matrix is itself, with one exception that the rows force:
data with no rows is read back as the `0 × 0` matrix, whatever its column count
(`NamedMatrix.ofJson_toJson`). Each value is read back from its interchange text exactly when its
shortest decimal rounds back to it (`Binary32.ReadsBack`); infinities and not-a-numbers are
written as `null` and are not read at all.
-/

set_option autoImplicit false

namespace Fiff

open Fiff.Json

section Compact

theorem compactItems_eq_map (items : List Value) :
    compactItems items = items.map Value.compact := by
  induction items with
  | nil => rfl
  | cons v rest ih => rw [compactItems, ih, List.map_cons]

theorem compactMembers_eq_map (members : List (String × Value)) :
    compactMembers members = members.map fun kv => quote kv.1 ++ ":" ++ kv.2.compact := by
  induction members with
  | nil => rfl
  | cons kv rest ih =>
    obtain ⟨k, v⟩ := kv
    rw [compactMembers, ih, List.map_cons]

theorem toList_compact_array (items : List Value) :
    (Value.array items).compact.toList =
      '[' :: [','].intercalate (items.map fun v => v.compact.toList) ++ [']'] := by
  simp [Value.compact, compactItems_eq_map, String.toList_intercalate, Function.comp_def]

theorem toList_compact_object (members : List (String × Value)) :
    (Value.object members).compact.toList =
      '\x7b' :: [','].intercalate (members.map fun kv => memberText kv.1 kv.2.compact.toList) ++
        ['\x7d'] := by
  simp [Value.compact, compactMembers_eq_map, String.toList_intercalate, memberText,
    Function.comp_def]

end Compact

theorem opensValue_quote (s : String) : OpensValue (quote s).toList :=
  ⟨'"', _, toList_quote s, by decide, by decide, by decide⟩

theorem reads_labels (fuel : Nat) (names : List String) :
    ReadsValue (shaped (fuel + 2) (.seq .string)) (Labels.toJson names).compact.toList
      (.list (names.map .string)) := by
  rw [Labels.toJson, toList_compact_array, List.map_map]
  exact reads_seq (fuel + 1) .string names fun s _ => ⟨reads_string fuel s, opensValue_quote s⟩

theorem reads_rows (fuel : Nat) {rs : List (List Binary32)}
    (hx : ∀ r ∈ rs, ∀ x ∈ r, x.ReadsBack) {m : Matrix}
    (hm : Datum.toMatrix (Datum.ofRows rs) = .ok m) :
    ReadsValue (shaped (fuel + 3) .rows)
      (Value.array (rs.map fun r => .array (r.map Binary32.toJson))).compact.toList
      (.matrix m) := by
  have hRows : ∀ r ∈ rs, ReadsValue (shaped (fuel + 2) (.seq .single))
      (Value.array (r.map Binary32.toJson)).compact.toList (.list (r.map .single)) ∧
      OpensValue (Value.array (r.map Binary32.toJson)).compact.toList := by
    intro r hr
    rw [toList_compact_array, List.map_map]
    exact ⟨reads_seq (fuel + 1) .single r fun x hxr =>
      ⟨reads_single fuel (hx r hr x hxr), (hx r hr x hxr).opensValue⟩,
      ⟨'[', _, rfl, by decide, by decide, by decide⟩⟩
  intro text p rest h hAfter
  rw [toList_compact_array, List.map_map] at h
  rw [shaped]
  apply place_of_ok
  rw [bind_ok (reads_list rs hRows text p rest h hAfter)]
  rw [show rs.map (fun y => Datum.list (y.map Datum.single)) = Datum.ofRows rs from rfl, hm,
    toList_compact_array, List.map_map]
  rfl

theorem stringsOf_strings (names : List String) :
    NamedMatrix.stringsOf (.list (names.map .string)) = names := by
  simp [NamedMatrix.stringsOf, List.filterMap_map]

namespace NamedMatrix

/-- The members of the JSON form: each field of `record`, the text of its value, and the value
the field reads from that text. -/
def jsonMembers (m : NamedMatrix) : List Member :=
  [(⟨"nrow", .usize, none⟩, (Decimal.digits m.nrow).toList, .nat m.nrow),
    (⟨"ncol", .usize, none⟩, (Decimal.digits m.ncol).toList, .nat m.ncol),
    (⟨"row_names", .seq .string, some (.list [])⟩, (Labels.toJson m.rowNames).compact.toList,
      .list (m.rowNames.map .string)),
    (⟨"col_names", .seq .string, some (.list [])⟩, (Labels.toJson m.colNames).compact.toList,
      .list (m.colNames.map .string)),
    (⟨"data", .rows, none⟩,
      (Value.array (m.data.toRows.map fun r => .array (r.map Binary32.toJson))).compact.toList,
      .matrix (if m.data.rows = 0 then default else m.data))]

theorem toList_compact_toJson (m : NamedMatrix) :
    m.toJson.compact.toList = objectText m.jsonMembers := by
  rw [toJson, toList_compact_object]
  rfl

theorem record_fields (m : NamedMatrix) : record.fields = m.jsonMembers.map (·.1) := rfl

theorem nodup_jsonMembers_names (m : NamedMatrix) : (m.jsonMembers.map (·.1.name)).Nodup := by
  simp [jsonMembers]

theorem reads_jsonMembers {m : NamedMatrix} (hRow : m.nrow ≤ usizeMax) (hCol : m.ncol ≤ usizeMax)
    (hx : ∀ x ∈ m.data.entries, x.ReadsBack) (fuel : Nat) :
    ∀ e ∈ m.jsonMembers, ReadsValue (shaped (fuel + 3) e.1.shape) e.2.1 e.2.2 := by
  have hEntries : ∀ r ∈ m.data.toRows, ∀ x ∈ r, x.ReadsBack := fun r hr x hxr =>
    hx x (Matrix.flatten_toRows m.data ▸ List.mem_flatten.mpr ⟨r, hr, hxr⟩)
  intro e he
  simp only [jsonMembers, List.mem_cons, List.not_mem_nil, or_false] at he
  rcases he with rfl | rfl | rfl | rfl | rfl
  · rw [Decimal.toList_digits]
    exact reads_usize (fuel + 2) hRow
  · rw [Decimal.toList_digits]
    exact reads_usize (fuel + 2) hCol
  · exact reads_labels (fuel + 1) m.rowNames
  · exact reads_labels (fuel + 1) m.colNames
  · exact reads_rows fuel hEntries
      ((Datum.toMatrix_ofRows_eq_ok_iff _ _).mpr (Matrix.ofRows_toRows m.data))

theorem ofFields_jsonMembers (m : NamedMatrix) :
    ofFields (m.jsonMembers.map (·.2.2)) =
      { m with data := if m.data.rows = 0 then default else m.data } := by
  simp only [jsonMembers, List.map_cons, List.map_nil, ofFields, natOf, stringsOf_strings]

/-- A labelled matrix whose counts fit a machine word and whose values read back is read from
its compact JSON text as itself, except that data with no rows comes back as `0 × 0`. -/
theorem ofJson_toJson {m : NamedMatrix} (hRow : m.nrow ≤ usizeMax) (hCol : m.ncol ≤ usizeMax)
    (hx : ∀ x ∈ m.data.entries, x.ReadsBack) :
    ofJson m.toJson.compact =
      .ok { m with data := if m.data.rows = 0 then default else m.data } := by
  have hText := toList_compact_toJson m
  obtain ⟨fuel, hFuel⟩ : ∃ fuel, m.toJson.compact.length + 2 = fuel + 3 := by
    have hPos : 0 < m.toJson.compact.length := by
      rw [← String.length_toList, hText, objectText]
      simp
    exact ⟨m.toJson.compact.length - 1, by omega⟩
  have hReads := reads_jsonMembers hRow hCol hx fuel
  rw [← hFuel] at hReads
  rw [ofJson, readRecord_objectText (record_fields m) (nodup_jsonMembers_names m) hText hReads]
  exact congrArg Except.ok (ofFields_jsonMembers m)

end NamedMatrix

theorem nested_rows_round_trip :
    (∀ a : Matrix,
      Datum.toMatrix (Datum.ofRows a.toRows) = .ok (if a.rows = 0 then default else a)) ∧
    (∀ rs : List (List Binary32),
      ((∃ a, Datum.toMatrix (Datum.ofRows rs) = .ok a) ↔
        ∀ r ∈ rs, r.length = Matrix.firstWidth rs) ∧
      (∀ e, Datum.toMatrix (Datum.ofRows rs) = .error e ↔
        ∃ i, Matrix.FirstOtherWidth rs (Matrix.firstWidth rs) i ∧
          ∃ hi : i < rs.length, e = .raggedRow i rs[i].length (Matrix.firstWidth rs)) ∧
      ∀ a, Datum.toMatrix (Datum.ofRows rs) = .ok a → a.toRows = rs) ∧
    ∀ m : NamedMatrix, m.nrow ≤ usizeMax → m.ncol ≤ usizeMax →
      (∀ x ∈ m.data.entries, x.ReadsBack) →
      NamedMatrix.ofJson m.toJson.compact =
        .ok { m with data := if m.data.rows = 0 then default else m.data } := by
  refine ⟨fun a => (Datum.toMatrix_ofRows_eq_ok_iff _ _).mpr (Matrix.ofRows_toRows a),
    fun rs => ⟨?_, Datum.toMatrix_eq_error_iff rs, fun a ha =>
      Matrix.toRows_ofRows ((Datum.toMatrix_ofRows_eq_ok_iff _ _).mp ha)⟩,
    fun m hRow hCol hx => NamedMatrix.ofJson_toJson hRow hCol hx⟩
  simp only [Datum.toMatrix_ofRows_eq_ok_iff]
  exact Matrix.exists_ofRows_eq_ok_iff rs

theorem nested_rows_round_trip_labelled_column :
    NamedMatrix.ofJson
        (⟨2, 1, ["a", "b"], ["x"], ⟨2, 1, [⟨0x3FC00000⟩, ⟨0⟩], rfl⟩⟩ : NamedMatrix).toJson.compact =
      .ok ⟨2, 1, ["a", "b"], ["x"], ⟨2, 1, [⟨0x3FC00000⟩, ⟨0⟩], rfl⟩⟩ :=
  nested_rows_round_trip.2.2 _ (by decide) (by decide) (by decide)

/-- Three columns of no rows come back as no columns. -/
theorem NamedMatrix.rowless_json_loses_columns :
    NamedMatrix.ofJson (⟨0, 3, [], [], ⟨0, 3, [], rfl⟩⟩ : NamedMatrix).toJson.compact ≠
      .ok ⟨0, 3, [], [], ⟨0, 3, [], rfl⟩⟩ := by
  rw [NamedMatrix.ofJson_toJson (by decide) (by decide) (by decide)]
  intro h
  injection h with hm
  have hCols := congrArg (fun n : NamedMatrix => n.data.cols) hm
  exact absurd hCols (by decide)

end Fiff
