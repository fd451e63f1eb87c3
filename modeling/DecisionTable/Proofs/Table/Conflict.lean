import DecisionTable.Proofs.Table.Build

/-!
# Rows that cannot be built together

Whether rows can be built is decided by single rows and by pairs: two rows conflict when, at the
first column in which they are read differently, their intervals overlap, or when they are read
alike in all columns of a table with unique results.

* `Schema.Conflict` : two rows that cannot be in one table;
* `compatible_view_iff` : the branches of two rows are compatible unless the rows conflict;
* `build_succeeds_iff` : when a build succeeds.
-/

namespace DecisionTable

open View (Compatible)

variable {P : Type} {schema : Schema} {config : BuildConfig} {rows : List (Row P)}
  {row row' : Row P}

/-- Two rows conflict at the first column in which they are read differently, when they are read
there as overlapping intervals; or when there is no such column and results are unique. -/
def Schema.Conflict (schema : Schema) (row row' : Row P) : Prop :=
  (schema.reading row.keys).Clash (schema.reading row'.keys) ∨
    schema.reading row.keys = schema.reading row'.keys ∧ schema.policy = .unique

/-! ## Pairs of rows -/

/-- Keys that fit a column lead down from the same kind of level. -/
theorem above_readings {columns : List Column} {keys keys' : List ColumnKey}
    (h : List.Forall₂ Column.Fits columns keys) (h' : List.Forall₂ Column.Fits columns keys') :
    List.Forall₂ (fun s t => (Label.above s : Label P) = .above t)
      (List.zipWith Column.reading columns keys) (List.zipWith Column.reading columns keys') := by
  induction h generalizing keys' with
  | nil => exact .nil
  | cons hkey _ ih =>
      cases h' with
      | cons hkey' hkeys' =>
          exact .cons ((above_reading hkey).trans (above_reading hkey').symm) (ih hkeys')

theorem leaf_meets_iff {policy : Policy} (h : policy = .unique → row.payload.isSome) (n n' : Nat) :
    (row.leaf policy n).Meets (row'.leaf policy n') ↔ ¬ policy = .unique := by
  obtain ⟨keys, payload⟩ := row
  obtain ⟨keys', payload'⟩ := row'
  cases policy with
  | unique =>
      obtain ⟨value, rfl⟩ := Option.isSome_iff_exists.mp (h rfl)
      cases payload' <;> simp [Row.leaf, Label.Meets]
  | multi => simp [Row.leaf, Label.Meets]

/-- The branches of two rows are compatible unless the rows conflict. -/
theorem compatible_view_iff (h : schema.Admits config row) (h' : schema.Admits config row')
    (n n' : Nat) : Compatible (row.view schema n) (row'.view schema n') ↔
      ¬ schema.Conflict row row' := by
  have habove : List.Forall₂ (fun s t => (Label.above s : Label P) = .above t)
      (schema.reading row.keys) (schema.reading row'.keys) :=
    above_readings (Schema.fits_of_validateRow h.keys) (Schema.fits_of_validateRow h'.keys)
  unfold Row.view Schema.Conflict
  rw [View.compatible_branch_iff habove, leaf_meets_iff h.payload, not_or, not_and]

/-! ## Builds -/

theorem buildable_iff : Buildable schema config rows ↔
    (∀ row ∈ rows, schema.Admits config row) ∧
      rows.Pairwise fun row row' => ¬ schema.Conflict row row' := by
  have hpairs (h : ∀ row ∈ rows, schema.Admits config row) :
      (schema.views rows).Pairwise Compatible ↔
        rows.Pairwise fun row row' => ¬ schema.Conflict row row' := by
    conv_rhs => rw [← List.zipIdx_map_fst 0 rows]
    rw [Schema.views, List.pairwise_map, List.pairwise_map]
    apply List.Pairwise.iff_of_mem
    intro a b ha hb
    have hadmits := h a.1 (List.fst_mem_of_mem_zipIdx ha)
    have hadmits' := h b.1 (List.fst_mem_of_mem_zipIdx hb)
    exact compatible_view_iff hadmits hadmits' a.2 b.2
  constructor
  · intro h
    exact ⟨h.admitted, (hpairs h.admitted).mp h.compatible⟩
  · rintro ⟨hadmitted, hconflict⟩
    exact ⟨hadmitted, (hpairs hadmitted).mpr hconflict⟩

/-- Rows can be built together when each of them can, and each two of them. -/
theorem buildable_iff_pairs : Buildable schema config rows ↔
    (∀ row ∈ rows, Buildable schema config [row]) ∧
      rows.Pairwise fun row row' => Buildable schema config [row, row'] := by
  have hone : ∀ row : Row P, Buildable schema config [row] ↔ schema.Admits config row := by
    simp [buildable_iff]
  have htwo : ∀ row row' : Row P, Buildable schema config [row, row'] ↔
      (schema.Admits config row ∧ schema.Admits config row') ∧ ¬ schema.Conflict row row' := by
    simp [buildable_iff]
  simp only [hone, htwo]
  rw [buildable_iff]
  refine and_congr_right fun hrows => List.Pairwise.iff_of_mem fun hrow hrow' => ?_
  constructor
  · intro h
    exact ⟨⟨hrows _ hrow, hrows _ hrow'⟩, h⟩
  · exact And.right

/-- A build succeeds exactly when the column names are non-empty and distinct, every row is valid
and has a payload where one is required, and no two rows conflict. So pairs of rows decide. -/
theorem build_succeeds_iff [Payload P] (schema : Schema) (config : BuildConfig)
    (rows : List (Row P)) :
    ((∃ table, (Table.build schema config rows).value = .ok table) ↔
      ((∀ column ∈ schema.columns, column.name ≠ "") ∧ schema.columnNames.Nodup) ∧
      (∀ row ∈ rows, schema.validateRow row.keys config.checkKeyTypes = .ok () ∧
        (schema.policy = .unique → row.payload.isSome)) ∧
      rows.Pairwise fun row row' => ¬ schema.Conflict row row') ∧
    ((∃ table, (Table.build schema config rows).value = .ok table) ↔
      schema.validate = .ok () ∧
      (∀ row ∈ rows, ∃ table, (Table.build schema config [row]).value = .ok table) ∧
      rows.Pairwise fun row row' =>
        ∃ table, (Table.build schema config [row, row']).value = .ok table) := by
  simp only [exists_table_iff]
  constructor
  · rw [Schema.validate_eq_ok_iff, buildable_iff]
    simp only [Schema.admits_iff]
  · by_cases hvalid : schema.validate = .ok ()
    · simp only [hvalid, true_and]
      exact buildable_iff_pairs
    · simp [hvalid]

end DecisionTable
