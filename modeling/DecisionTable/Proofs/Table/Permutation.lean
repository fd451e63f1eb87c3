import DecisionTable.Proofs.Table.Build
import DecisionTable.Proofs.Tree.Congruence
import DecisionTable.Sample.Rates

/-!
# The order of rows

Apart from the rows that unique leaves came from, the tree of a table shows as the overlay of
branches that do not depend on where the rows stand. So rows in another order can be built as well,
and give an equal tree, with the same answers and statistics.

* `Buildable.perm`, `agree_of_perm` : rows in another order;
* `build_perm` : the tables of rows in two orders.
-/

namespace DecisionTable

open View (Compatible overlay)

variable {P : Type} {schema : Schema} {config : BuildConfig} {rows rows' : List (Row P)}

/-! ## Branches without positions -/

theorem anonymous_views (schema : Schema) (rows : List (Row P)) :
    (schema.views rows).map View.anonymous = rows.map fun row => (row.view schema 0).anonymous := by
  conv_rhs => rw [← List.zipIdx_map_fst 0 rows]
  rw [Schema.views, List.map_map, List.map_map]
  exact List.map_congr_left fun entry _ => anonymous_view schema entry.1 entry.2 0

theorem compatible_views_iff : (schema.views rows).Pairwise Compatible ↔
    (rows.map fun row => (row.view schema 0).anonymous).Pairwise Compatible := by
  rw [← anonymous_views, List.pairwise_map]
  simp only [View.compatible_anonymous]

theorem anonymous_overlay_views (schema : Schema) (rows : List (Row P)) :
    (overlay (schema.views rows)).anonymous =
      overlay (rows.map fun row => (row.view schema 0).anonymous) := by
  rw [View.anonymous_overlay, anonymous_views]

/-! ## Rows in another order -/

theorem Buildable.perm (h : Buildable schema config rows) (hperm : rows.Perm rows') :
    Buildable schema config rows' where
  admitted row hrow := h.admitted row (hperm.mem_iff.mpr hrow)
  compatible := by
    rw [compatible_views_iff]
    exact (compatible_views_iff.mp h.compatible).perm (hperm.map _) Compatible.symm

theorem overlay_views_perm (h : Buildable schema config rows) (hperm : rows.Perm rows') :
    (overlay (schema.views rows)).anonymous = (overlay (schema.views rows')).anonymous := by
  rw [anonymous_overlay_views, anonymous_overlay_views]
  exact View.overlay_perm (hperm.map _) (compatible_views_iff.mp h.compatible)

variable [Payload P] {table table' : Table P}

/-- The trees of rows in two orders are equal. -/
theorem agree_of_perm (h : table.Over schema config rows) (h' : table'.Over schema config rows')
    (hperm : rows.Perm rows') : table.rootLookup.Agree table'.rootLookup := by
  have hroot := h.root
  have hroot' := h'.root
  unfold Lookup.Agree Table.rootLookup
  cases hr : table.root with
  | none =>
      rw [hr] at hroot
      obtain rfl : rows = [] := hroot
      cases hr' : table'.root with
      | none => exact .none
      | some tree' =>
          rw [hr'] at hroot'
          exact absurd hperm.nil_eq.symm hroot'.1
  | some tree =>
      rw [hr] at hroot
      cases hr' : table'.root with
      | none =>
          rw [hr'] at hroot'
          exact absurd (hroot' ▸ hperm).eq_nil hroot.1
      | some tree' =>
          rw [hr'] at hroot'
          obtain ⟨-, hsound, hview⟩ := hroot
          obtain ⟨-, hsound', hview'⟩ := hroot'
          refine .some ⟨hsound, Tree.agrees_of_view_anonymous hsound hsound' ?_⟩
          rw [hview, hview', overlay_views_perm h.buildable hperm]

/-! ## Tables -/

theorem stats_of_agree (hcount : table.rows = table'.rows)
    (hagree : table.rootLookup.Agree table'.rootLookup) : table.stats = table'.stats := by
  unfold Table.stats
  unfold Lookup.Agree Table.rootLookup at hagree
  rw [hcount]
  generalize table.root = root at hagree
  generalize table'.root = root' at hagree
  cases hagree with
  | none => rfl
  | some hab =>
      rw [TableStats.ofTree, TableStats.ofTree, Tree.shape_of_agrees hab.1 hab.2,
        Tree.values_of_agrees hab.1 hab.2]

/-- Full queries are answered alike, or refused with the same error. -/
theorem queries_of_agree (hschema : table.schema = table'.schema)
    (hconfig : table.config = table'.config) (hagree : table.rootLookup.Agree table'.rootLookup)
    (keys : List KeyValue) :
    table.values keys = table'.values keys ∧ table.uniqueValue keys = table'.uniqueValue keys ∧
      ∀ default, table.uniqueValueOr keys default = table'.uniqueValueOr keys default := by
  have halike := (hagree.descendAll keys).answersAlike
  unfold Table.values Table.uniqueValue Table.uniqueValueOr Table.lookup
  rw [hschema, hconfig]
  cases table'.schema.validateQuery keys table'.config.checkKeyTypes with
  | error e => exact ⟨rfl, rfl, fun _ => rfl⟩
  | ok _ =>
      exact ⟨congrArg Except.ok halike.values, halike.uniqueValue, halike.uniqueValueOr⟩

/-- Rows in another order can be built as well, and give an equal tree, with the same answers and
the same statistics. -/
theorem build_perm (hperm : rows.Perm rows') (schema : Schema) (config : BuildConfig) :
    ((∃ table, (Table.build schema config rows).value = .ok table) ↔
      ∃ table', (Table.build schema config rows').value = .ok table') ∧
    ∀ table table', (Table.build schema config rows).value = .ok table →
      (Table.build schema config rows').value = .ok table' →
      Option.Rel Tree.Agree table.root table'.root ∧
      (∀ keys, (table.rootLookup.descendAll keys).AnswersAlike
        (table'.rootLookup.descendAll keys)) ∧
      (∀ keys, table.values keys = table'.values keys ∧
        table.uniqueValue keys = table'.uniqueValue keys ∧
        ∀ default, table.uniqueValueOr keys default = table'.uniqueValueOr keys default) ∧
      table.stats = table'.stats := by
  constructor
  · rw [exists_table_iff, exists_table_iff]
    apply and_congr_right
    intro _
    constructor
    · intro h
      exact h.perm hperm
    · intro h
      exact h.perm hperm.symm
  · intro table table' hbuild hbuild'
    have h := over_of_build hbuild
    have h' := over_of_build hbuild'
    have hagree := agree_of_perm h h' hperm
    have hschema : table.schema = table'.schema := h.schema_eq.trans h'.schema_eq.symm
    have hconfig : table.config = table'.config := h.config_eq.trans h'.config_eq.symm
    have hcount : table.rows = table'.rows := by
      rw [h.count, h'.count, hperm.length_eq]
    refine ⟨hagree.rel, ?_, queries_of_agree hschema hconfig hagree, stats_of_agree hcount hagree⟩
    intro keys
    exact (hagree.descendAll keys).answersAlike

theorem build_perm_scenarioRows :
    Sample.scenarioRows.Perm Sample.scenarioRows.reverse ∧
    ∃ table table', Sample.scenarioTable.value = .ok table ∧
      (Table.build (Sample.rateSchema .unique) {} Sample.scenarioRows.reverse).value = .ok table' ∧
      Option.Rel Tree.Agree table.root table'.root ∧ table.stats = table'.stats := by
  have hperm := (List.reverse_perm Sample.scenarioRows).symm
  have hlaw := build_perm hperm (Sample.rateSchema .unique) {}
  have hok : Sample.scenarioTable.value.isOk = true := by decide +kernel
  cases hbuild : Sample.scenarioTable.value with
  | error e =>
      rw [hbuild] at hok
      cases hok
  | ok table =>
      obtain ⟨table', hbuild'⟩ := hlaw.1.mp ⟨table, hbuild⟩
      obtain ⟨hroot, -, -, hstats⟩ := hlaw.2 table table' hbuild hbuild'
      exact ⟨hperm, table, table', rfl, hbuild', hroot, hstats⟩

end DecisionTable
