import DecisionTable.Table.Builder
import DecisionTable.Proofs.Tree.Chain

/-!
# What a build comes to

While rows are inserted, the tree of the builder shows as the overlay of their branches. A row can
be inserted when it is admitted by the schema and its branch is compatible with those before it, so
rows can be built when each is admitted and their branches are pairwise compatible.

* `Buildable` : rows that can be built together;
* `Builder.Holds`, `Table.Over` : the state of a builder, and a table, after rows;
* `Grown` : what can come of inserting a row, and why;
* `push_cases`, `extend_cases`, `build_cases` : what inserting a row, rows, and a whole build do.
-/

namespace DecisionTable

open View (Compatible overlay)

variable {P : Type}

def Schema.views (schema : Schema) (rows : List (Row P)) : List (View P) :=
  rows.zipIdx.map fun entry => entry.1.view schema entry.2

/-- A row that can be inserted on its own. -/
@[mk_iff admits_iff]
structure Schema.Admits (schema : Schema) (config : BuildConfig) (row : Row P) : Prop where
  keys : schema.validateRow row.keys config.checkKeyTypes = .ok ()
  payload : schema.policy = .unique → row.payload.isSome

/-- Rows that can be built together. -/
structure Buildable (schema : Schema) (config : BuildConfig) (rows : List (Row P)) : Prop where
  admitted : ∀ row ∈ rows, schema.Admits config row
  compatible : (schema.views rows).Pairwise Compatible

def RootOf [Payload P] (schema : Schema) (rows : List (Row P)) : Option (Tree P) → Prop
  | none => rows = []
  | some tree => rows ≠ [] ∧ tree.Sound ∧ tree.view = overlay (schema.views rows)

/-- A builder that has accepted rows, and no others. -/
structure Builder.Holds [Payload P] (schema : Schema) (config : BuildConfig) (rows : List (Row P))
    (builder : Builder P) : Prop where
  schema_eq : builder.schema = schema
  config_eq : builder.config = config
  failure : builder.failure = none
  count : builder.rows = rows.length
  buildable : Buildable schema config rows
  root : RootOf schema rows builder.root

structure Table.Over [Payload P] (schema : Schema) (config : BuildConfig) (rows : List (Row P))
    (table : Table P) : Prop where
  schema_eq : table.schema = schema
  config_eq : table.config = config
  count : table.rows = rows.length
  buildable : Buildable schema config rows
  root : RootOf schema rows table.root

variable {schema : Schema} {config : BuildConfig} {rows : List (Row P)} {row : Row P}

/-! ## Rows and one more -/

theorem views_concat (schema : Schema) (rows : List (Row P)) (row : Row P) :
    schema.views (rows ++ [row]) = schema.views rows ++ [row.view schema rows.length] := by
  simp [Schema.views, List.zipIdx_append]

theorem mem_views_iff {v : View P} :
    v ∈ schema.views rows ↔ ∃ (n : Nat) (row : Row P), rows[n]? = some row ∧
      row.view schema n = v := by
  rw [Schema.views, List.mem_map]
  constructor
  · rintro ⟨⟨row, n⟩, hentry, rfl⟩
    exact ⟨n, row, List.mem_zipIdx_iff_getElem?.mp hentry, rfl⟩
  · rintro ⟨n, row, hrow, rfl⟩
    exact ⟨(row, n), List.mem_zipIdx_iff_getElem?.mpr hrow, rfl⟩

theorem exists_row_of_mem_views {v : View P} (hv : v ∈ schema.views rows) :
    ∃ row ∈ rows, ∃ n, row.view schema n = v := by
  obtain ⟨n, row, hrow, hview⟩ := mem_views_iff.mp hv
  exact ⟨row, List.mem_of_getElem? hrow, n, hview⟩

/-- What some branch does, some row does, if the position of the row does not matter. -/
theorem exists_mem_views {Q : View P → Prop} {R : Row P → Prop}
    (hQ : ∀ row ∈ rows, ∀ n, Q (row.view schema n) ↔ R row) :
    (∃ v ∈ schema.views rows, Q v) ↔ ∃ row ∈ rows, R row := by
  constructor
  · rintro ⟨v, hv, hQv⟩
    obtain ⟨row, hrow, n, rfl⟩ := exists_row_of_mem_views hv
    exact ⟨row, hrow, (hQ row hrow n).mp hQv⟩
  · rintro ⟨row, hrow, hR⟩
    rw [← List.zipIdx_map_fst 0 rows] at hrow
    obtain ⟨⟨row, n⟩, hn, rfl⟩ := List.mem_map.mp hrow
    exact ⟨_, List.mem_map_of_mem hn, (hQ row (List.fst_mem_of_mem_zipIdx hn) n).mpr hR⟩

theorem Buildable.of_append {more : List (Row P)} (h : Buildable schema config (rows ++ more)) :
    Buildable schema config rows where
  admitted row hrow := h.admitted row (List.mem_append_left _ hrow)
  compatible := by
    have hcompat := h.compatible
    rw [Schema.views, List.zipIdx_append, List.map_append] at hcompat
    exact (List.pairwise_append.mp hcompat).1

theorem buildable_concat_iff (h : Buildable schema config rows) (row : Row P) :
    Buildable schema config (rows ++ [row]) ↔ schema.Admits config row ∧
      Compatible (overlay (schema.views rows)) (row.view schema rows.length) := by
  constructor
  · intro hmore
    have hcompat := hmore.compatible
    rw [views_concat] at hcompat
    refine ⟨hmore.admitted row (by simp), (View.compatible_overlay h.compatible).mpr ?_⟩
    intro v hv
    exact (List.pairwise_append.mp hcompat).2.2 v hv _ (by simp)
  · rintro ⟨hrow, hcompat⟩
    constructor
    · intro other hother
      rcases List.mem_append.mp hother with hother | hother
      · exact h.admitted other hother
      · exact List.mem_singleton.mp hother ▸ hrow
    · rw [views_concat]
      refine List.pairwise_append.mpr ⟨h.compatible, List.pairwise_singleton _ _, ?_⟩
      simpa using (View.compatible_overlay h.compatible).mp hcompat

variable [Payload P]

/-! ## Inserting -/

variable {builder : Builder P}

/-- What comes of inserting a row after others: it is invalid, it lacks a payload, it conflicts with
what is there, or there is a tree with it. -/
inductive Grown (schema : Schema) (config : BuildConfig) (rows : List (Row P)) (row : Row P) :
    Except TableError (Tree P) → Prop where
  | invalid {e : TableError} (h : schema.validateRow row.keys config.checkKeyTypes = .error e) :
      Grown schema config rows row (.error e)
  | missing (hkeys : schema.validateRow row.keys config.checkKeyTypes = .ok ())
      (hpolicy : schema.policy = .unique) (hpayload : row.payload = none) :
      Grown schema config rows row
        (.error (.invalidResult "unique result requires a payload" none))
  | conflict (admits : schema.Admits config row) {p : Position} {report : KeyPath → TableError}
      (h : View.Conflict (overlay (schema.views rows)) (row.view schema rows.length) p report) :
      Grown schema config rows row
        (.error (report ((KeyPath.forColumns schema.columnNames).follow p)))
  | tree (admits : schema.Admits config row) {tree : Tree P}
      (compatible : Compatible (overlay (schema.views rows)) (row.view schema rows.length))
      (sound : tree.Sound) (view : tree.view = overlay (schema.views (rows ++ [row]))) :
      Grown schema config rows row (.ok tree)

theorem Grown.of_merged {act : Merging (Tree P)} (admits : schema.Admits config row)
    (hact : Tree.Merged Tree.Sound (overlay (schema.views rows)) (row.view schema rows.length)
      (KeyPath.forColumns schema.columnNames) (act (KeyPath.forColumns schema.columnNames))) :
    Grown schema config rows row (act.runAt (KeyPath.forColumns schema.columnNames)) := by
  unfold Merging.runAt
  generalize act (KeyPath.forColumns schema.columnNames) = result at hact
  cases hact with
  | done compatible sound view =>
      refine .tree admits compatible sound ?_
      rw [view, views_concat, View.overlay_concat]
  | clash conflict => exact .conflict admits conflict

theorem grow_grown (h : builder.Holds schema config rows) (row : Row P) :
    Grown schema config rows row (builder.grow row) := by
  simp only [Builder.grow, h.schema_eq, h.config_eq, h.count]
  cases hkeys : schema.validateRow row.keys config.checkKeyTypes with
  | error e => exact .invalid hkeys
  | ok _ =>
      by_cases hpayload : schema.policy = .unique → row.payload.isSome
      · obtain ⟨chain, hchain, sound, view⟩ :=
          Tree.chain_ok (Schema.fits_of_validateRow hkeys) hpayload rows.length
        have hroot := h.root
        rw [hchain]
        cases hb : builder.root with
        | none =>
            rw [hb] at hroot
            obtain rfl : rows = [] := hroot
            refine .tree ⟨hkeys, hpayload⟩ (View.compatible_none _).symm sound ?_
            rw [view, views_concat, View.overlay_concat]
            exact (View.none_join _).symm
        | some root =>
            rw [hb] at hroot
            obtain ⟨-, hsound, hview⟩ := hroot
            have hmerge := Tree.merge_merged hsound sound (KeyPath.forColumns schema.columnNames)
            rw [hview, view] at hmerge
            exact Grown.of_merged ⟨hkeys, hpayload⟩ hmerge
      · obtain ⟨hunique, hnone⟩ := Classical.not_imp.mp hpayload
        rw [Bool.not_eq_true, Option.isSome_eq_false_iff, Option.isNone_iff_eq_none] at hnone
        rw [Tree.chain_missing hunique hnone]
        exact .missing hkeys hunique hnone

theorem Grown.not_buildable {cause : TableError} (h : Buildable schema config rows)
    (hgrown : Grown schema config rows row (.error cause)) :
    ¬ Buildable schema config (rows ++ [row]) := by
  rw [buildable_concat_iff h]
  rintro ⟨admits, compatible⟩
  cases hgrown with
  | invalid hkeys => cases hkeys.symm.trans admits.keys
  | missing hkeys hpolicy hpayload => simpa [hpayload] using admits.payload hpolicy
  | conflict _ hconflict => exact hconflict.not_compatible compatible

/-- Inserting a row keeps the tree that of the rows, or spoils the builder. -/
theorem push_cases (h : builder.Holds schema config rows) (row : Row P) :
    (∃ builder', (builder.push row).value = (.ok (), builder') ∧
      builder'.Holds schema config (rows ++ [row])) ∨
    ¬ Buildable schema config (rows ++ [row]) ∧
      ∃ error builder', (builder.push row).value = (.error error, builder') := by
  have hgrown := grow_grown h row
  simp only [Builder.push, h.failure]
  cases hg : builder.grow row with
  | error cause =>
      rw [hg] at hgrown
      exact Or.inr ⟨hgrown.not_buildable h.buildable, _, _, rfl⟩
  | ok root =>
      rw [hg] at hgrown
      cases hgrown with
      | tree admits compatible sound view =>
          have hmore := (buildable_concat_iff h.buildable row).mpr ⟨admits, compatible⟩
          refine Or.inl ⟨_, rfl, h.schema_eq, h.config_eq, rfl, ?_, hmore, by simp, sound, view⟩
          simp [h.count]

theorem extend_cases (h : builder.Holds schema config rows) (more : List (Row P)) :
    (∃ builder', (builder.extend more).value = (.ok (), builder') ∧
      builder'.Holds schema config (rows ++ more)) ∨
    ¬ Buildable schema config (rows ++ more) ∧
      ∃ error builder', (builder.extend more).value = (.error error, builder') := by
  induction more generalizing rows builder with
  | nil => exact Or.inl ⟨builder, rfl, by rwa [List.append_nil]⟩
  | cons row more ih =>
      have hsplit : rows ++ row :: more = (rows ++ [row]) ++ more := by simp
      rw [Builder.extend, Logged.value_bind, hsplit]
      rcases push_cases h row with ⟨builder', hpush, hholds⟩ | ⟨hnot, error, builder', hpush⟩
      · rw [hpush]
        exact ih hholds
      · rw [hpush]
        refine Or.inr ⟨?_, error, builder', rfl⟩
        intro hall
        exact hnot hall.of_append

/-! ## Building -/

/-- Without rows there is nothing to hold. -/
theorem holds_nil (schema : Schema) (config : BuildConfig) :
    ({ schema, config } : Builder P).Holds schema config [] :=
  ⟨rfl, rfl, rfl, rfl, ⟨nofun, List.Pairwise.nil⟩, rfl⟩

theorem finish_over (h : builder.Holds schema config rows) :
    ∃ table, builder.finish.value = .ok table ∧ table.Over schema config rows := by
  have hover : Table.Over schema config rows
      { schema := builder.schema, config := builder.config, root := builder.root
        rows := builder.rows } :=
    ⟨h.schema_eq, h.config_eq, h.count, h.buildable, h.root⟩
  refine ⟨_, ?_, hover⟩
  simp only [Builder.finish, h.failure]
  split <;> rfl

/-- A build succeeds for rows that can be built together, with the table of these rows. -/
theorem build_cases (schema : Schema) (config : BuildConfig) (rows : List (Row P)) :
    (schema.validate = .ok () ∧ ∃ table, (Table.build schema config rows).value = .ok table ∧
      table.Over schema config rows) ∨
    ¬ (schema.validate = .ok () ∧ Buildable schema config rows) ∧
      ∃ error, (Table.build schema config rows).value = .error error := by
  rw [Table.build, Logged.value_bind, Builder.start]
  cases hvalid : schema.validate with
  | error e =>
      refine Or.inr ⟨?_, e, rfl⟩
      rintro ⟨h, -⟩
      cases h
  | ok _ =>
      simp only [Logged.value_bind, Logged.value_pure]
      rcases extend_cases (holds_nil schema config) rows with
        ⟨builder, hextend, h⟩ | ⟨hnot, error, builder, hextend⟩
      · rw [hextend]
        exact Or.inl ⟨trivial, finish_over h⟩
      · rw [hextend]
        refine Or.inr ⟨?_, error, rfl⟩
        rintro ⟨-, h⟩
        exact hnot h

theorem exists_table_iff (schema : Schema) (config : BuildConfig) (rows : List (Row P)) :
    (∃ table, (Table.build schema config rows).value = .ok table) ↔
      schema.validate = .ok () ∧ Buildable schema config rows := by
  rcases build_cases schema config rows with ⟨hvalid, table, hbuild, hover⟩ | ⟨hnot, e, hbuild⟩
  · apply iff_of_true
    · exact ⟨table, hbuild⟩
    · exact ⟨hvalid, hover.buildable⟩
  · apply iff_of_false
    · rintro ⟨table, h⟩
      cases hbuild.symm.trans h
    · exact hnot

theorem over_of_build {table : Table P} (h : (Table.build schema config rows).value = .ok table) :
    table.Over schema config rows := by
  rcases build_cases schema config rows with ⟨-, table', hbuild, hover⟩ | ⟨-, e, hbuild⟩
  · cases hbuild.symm.trans h
    exact hover
  · cases hbuild.symm.trans h

/-- A table of some rows has a tree. -/
theorem Table.Over.exists_root {table : Table P} (h : table.Over schema config rows)
    (hne : rows ≠ []) : ∃ tree, table.root = some tree ∧ RootOf schema rows (some tree) := by
  have hroot := h.root
  cases hr : table.root with
  | none =>
      rw [hr] at hroot
      exact absurd hroot hne
  | some tree => exact ⟨tree, rfl, hr ▸ hroot⟩

end DecisionTable
