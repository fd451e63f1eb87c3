import DecisionTable.Proofs.Table.Build
import DecisionTable.Proofs.Tree.Payloads
import DecisionTable.Table.Basic

/-!
# Queries and rows

A query against the tree of a table gives what narrowing its rows down gives, one key at a time: at
every position of the tree, the rows that are left are those whose keys lead there.

* `Schema.remaining` : the rows that match keys, found by looking at rows only;
* `Lookup.Answers` : a lookup that stands for rows;
* `Schema.under` : the rows whose keys, as they are read, start with a position;
* `leads` : what one key does, at a position and to the rows under it;
* `answers_descendAll` : any number of keys.
-/

namespace DecisionTable

open Ordered

variable {P : Type}

/-! ## Narrowing rows down -/

/-- Whether a key of a range column holds a value. A catch-all key is the interval of all keys. -/
def ColumnKey.admits (value : KeyValue) : ColumnKey → Bool
  | .range i => i.contains value
  | .any => Interval.unbounded.contains value
  | .exact _ => false

/-- A key that fits a range column is read as the interval that it admits. -/
theorem exists_interval_of_fits {column : Column} {reach : Reach}
    (hmatching : column.matching = .range reach) {key : ColumnKey} (hfits : column.Fits key)
    (value : KeyValue) :
    ∃ i, column.reading key = .range i ∧ key.admits value = i.contains value := by
  unfold Column.Fits at hfits
  unfold Column.reading
  rw [hmatching] at hfits ⊢
  cases key with
  | exact _ => cases hfits
  | range i => exact ⟨i, rfl, rfl⟩
  | any => exact ⟨.unbounded, rfl, rfl⟩

/-- The rows that match a value in the column at a position. On an exact column, rows with that very
key come before rows with a catch-all key. -/
def narrow (column : Column) (position : Nat) (value : KeyValue) (rows : List (Row P)) :
    List (Row P) :=
  match column.matching with
  | .exact =>
    let own := rows.filter fun row => row.keys[position]? = some (.exact value)
    if own.isEmpty then rows.filter fun row => row.keys[position]? = some .any else own
  | .range _ => rows.filter fun row => row.keys[position]?.any (·.admits value)

/-- The rows that match values, one for each column from a position on. Further values change
nothing. -/
def narrowAll (position : Nat) : List Column → List KeyValue → List (Row P) → List (Row P)
  | column :: columns, value :: values, rows =>
    narrowAll (position + 1) columns values (narrow column position value rows)
  | _, _, rows => rows

theorem narrowAll_no_values (n : Nat) (columns : List Column) (rows : List (Row P)) :
    narrowAll n columns [] rows = rows := by
  cases columns <;> rfl

theorem narrowAll_no_columns (n : Nat) (values : List KeyValue) (rows : List (Row P)) :
    narrowAll n [] values rows = rows := by
  cases values <;> rfl

theorem narrowAll_no_rows (n : Nat) (columns : List Column) (values : List KeyValue) :
    narrowAll n columns values ([] : List (Row P)) = [] := by
  induction columns generalizing n values with
  | nil => exact narrowAll_no_columns n values []
  | cons column columns ih =>
      cases values with
      | nil => rfl
      | cons value values =>
          have hnarrow : narrow column n value ([] : List (Row P)) = [] := by
            unfold narrow
            split <;> rfl
          rw [narrowAll, hnarrow, ih]

def Schema.remaining (schema : Schema) (values : List KeyValue) (rows : List (Row P)) :
    List (Row P) :=
  narrowAll 0 schema.columns values rows

/-- A lookup stands for rows: it is empty when there are none, and gives their set of payloads. -/
structure Lookup.Answers [Ord P] (lookup : Lookup P) (rows : List (Row P)) : Prop where
  isEmpty : lookup.isEmpty = true ↔ rows = []
  values : lookup.values = Distinct.ofList (rows.filterMap Row.payload)

namespace Lookup

theorem descendAll_cons (lookup : Lookup P) (value : KeyValue) (values : List KeyValue) :
    lookup.descendAll (value :: values) = (lookup.descend value).descendAll values := rfl

theorem descendAll_empty (values : List KeyValue) :
    (empty : Lookup P).descendAll values = empty := by
  induction values with
  | nil => rfl
  | cons value values ih => exact ih

theorem answers_empty [Ord P] : (empty : Lookup P).Answers ([] : List (Row P)) :=
  ⟨iff_of_true rfl rfl, rfl⟩

end Lookup

/-! ## Rows under a position -/

/-- The rows whose keys, as they are read, start with a position. -/
def Schema.under (schema : Schema) (rows : List (Row P)) (p : Position) : List (Row P) :=
  rows.filter fun row => p <+: schema.reading row.keys

variable {schema : Schema} {config : BuildConfig} {rows : List (Row P)} {row : Row P}
  {p : Position} {column : Column}

theorem mem_under : row ∈ schema.under rows p ↔ row ∈ rows ∧ p <+: schema.reading row.keys := by
  simp [Schema.under]

theorem under_nil : schema.under rows [] = rows :=
  List.filter_eq_self.mpr fun _ _ => decide_eq_true List.nil_prefix

/-- One step further down are the rows that are read as that step. -/
theorem under_concat (s : ColumnKey) : schema.under rows (p ++ [s]) =
    (schema.under rows p).filter fun row => (schema.reading row.keys)[p.length]? = some s := by
  simp [Schema.under, List.filter_filter, View.concat_prefix_iff, Bool.and_comm]

variable [Payload P] {tree node : Tree P}

section Under

variable (hroot : RootOf schema rows (some tree))
include hroot

/-- There is a structure where some row leads. -/
theorem isSome_view_iff : (tree.view p).isSome ↔ schema.under rows p ≠ [] := by
  rw [hroot.2.2, View.isSome_overlay,
    exists_mem_views (R := fun row => p <+: schema.reading row.keys)
      fun _ _ _ => View.isSome_branch]
  simp [Schema.under]

variable (hnode : tree.at? p = some node)
include hnode

theorem isSome_child?_iff (s : ColumnKey) :
    (node.child? s).isSome ↔ schema.under rows (p ++ [s]) ≠ [] := by
  rw [← isSome_view_iff hroot, ← Tree.view_at hnode, Tree.isSome_view_singleton]

theorem under_eq_nil_of_child? {s : ColumnKey} (hchild : node.child? s = none) :
    schema.under rows (p ++ [s]) = [] := by
  have hiff := isSome_child?_iff hroot hnode s
  rw [hchild] at hiff
  simpa using hiff

/-- A structure is of the kind that some row has there. -/
theorem exists_row_at : ∃ row ∈ rows, ∃ n m, row.view schema n p = some m ∧
    p <+: schema.reading row.keys ∧ node.label.kind = m.kind := by
  have hlabel : tree.view p = some node.label := by
    rw [← Tree.view_nil, Tree.view_at hnode, List.append_nil]
  rw [hroot.2.2] at hlabel
  obtain ⟨v, hv, m, hm, hkind⟩ := View.exists_kind_of_overlay hlabel
  obtain ⟨row, hrow, n, rfl⟩ := exists_row_of_mem_views hv
  refine ⟨row, hrow, n, m, hm, ?_, hkind⟩
  rw [← View.isSome_branch, ← Row.view, hm]
  rfl

variable (hrows : Buildable schema config rows)
include hrows

/-- At a column stands a level of that column. -/
theorem label_of_column (hcolumn : schema.columns[p.length]? = some column) :
    node.label = column.level := by
  obtain ⟨row, hrow, n, m, hm, -, hkind⟩ := exists_row_at hroot hnode
  have hkeys := Schema.fits_of_validateRow (hrows.admitted row hrow).keys
  rcases Row.view_cases hkeys hm with ⟨column', hcolumn', rfl⟩ | ⟨hnone, -⟩
  · obtain rfl : column = column' := Option.some.inj (hcolumn.symm.trans hcolumn')
    exact eq_level_of_kind hkind
  · cases hcolumn.symm.trans hnone

/-- After the last column stands a leaf of some row. -/
theorem exists_leaf_at (hcolumn : schema.columns[p.length]? = none) :
    ∃ row ∈ rows, ∃ n, node.kind = (row.leaf schema.policy n).kind := by
  obtain ⟨row, hrow, n, m, hm, -, hkind⟩ := exists_row_at hroot hnode
  have hkeys := Schema.fits_of_validateRow (hrows.admitted row hrow).keys
  rcases Row.view_cases hkeys hm with ⟨column, hcolumn', -⟩ | ⟨-, -, rfl⟩
  · cases hcolumn.symm.trans hcolumn'
  · rw [Tree.kind_label] at hkind
    exact ⟨row, hrow, n, hkind⟩

theorem isLeaf_of_no_column (hcolumn : schema.columns[p.length]? = none) : node.isLeaf = true := by
  obtain ⟨row, -, n, hkind⟩ := exists_leaf_at hroot hnode hrows hcolumn
  exact isLeaf_of_kind_leaf hkind

theorem answers_under : (⟨some node⟩ : Lookup P).Answers (schema.under rows p) where
  isEmpty := by
    have hsome : (tree.view p).isSome := by simp [Tree.view, hnode]
    simpa [Lookup.isEmpty] using (isSome_view_iff hroot).mp hsome
  values := by
    refine Tree.values_eq_ofList (hroot.2.1.at hnode) fun x => ?_
    have hrow : ∀ row ∈ rows, ∀ n,
        (∃ q l, row.view schema n (p ++ q) = some l ∧ x ∈ l.payloads) ↔
          p <+: schema.reading row.keys ∧ row.payload = some x := by
      intro row _ n
      unfold Row.view
      simp only [View.mem_payloads_branch, mem_payloads_leaf]
      constructor
      · rintro ⟨q, hq, hx⟩
        exact ⟨⟨q, hq⟩, hx⟩
      · rintro ⟨⟨q, hq⟩, hx⟩
        exact ⟨q, hq, hx⟩
    simp only [Tree.view_at hnode, hroot.2.2, View.mem_payloads_overlay hrows.compatible]
    rw [exists_comm]
    simp only [exists_and_left]
    rw [exists_mem_views (Q := fun v => ∃ q l, v (p ++ q) = some l ∧ x ∈ l.payloads) hrow]
    simp [mem_under, and_assoc]

/-! ## One key -/

/-- What a key does at a position: it leads one step down, to the rows under that step, or it leads
nowhere and no row is left. -/
def Leads (schema : Schema) (rows : List (Row P)) (p : Position) (node : Tree P) (column : Column)
    (value : KeyValue) : Prop :=
  (∃ s c, node.child? s = some c ∧ node.descend value = ⟨some c⟩ ∧
    narrow column p.length value (schema.under rows p) = schema.under rows (p ++ [s])) ∨
  node.descend value = .empty ∧ narrow column p.length value (schema.under rows p) = []

theorem leads_exact (hcolumn : schema.columns[p.length]? = some column)
    (hmatching : column.matching = .exact) (value : KeyValue) :
    Leads schema rows p node column value := by
  have hlabel := label_of_column hroot hnode hrows hcolumn
  have hunder : ∀ s, (schema.under rows p).filter (fun row => row.keys[p.length]? = some s) =
      schema.under rows (p ++ [s]) := by
    intro s
    rw [under_concat]
    refine List.filter_congr fun row hrow => ?_
    obtain ⟨key, hkey, -, hreading⟩ := reading_getElem?
      (Schema.fits_of_validateRow (hrows.admitted row (mem_under.mp hrow).1).keys) hcolumn
    rw [Schema.reading, hkey, hreading, Column.reading_of_exact hmatching]
  cases node with
  | exact level =>
      have hdescend : (Tree.exact level).descend value =
          ⟨((Tree.exact level).child? (.exact value)).or ((Tree.exact level).child? .any)⟩ := rfl
      unfold Leads
      simp only [narrow, hmatching, hunder, hdescend]
      cases hown : (Tree.exact level).child? (.exact value) with
      | some c =>
          have hne := (isSome_child?_iff hroot hnode (.exact value)).mp (by rw [hown]; rfl)
          refine Or.inl ⟨.exact value, c, hown, rfl, ?_⟩
          rw [if_neg (by simpa using hne)]
      | none =>
          have hnil := under_eq_nil_of_child? hroot hnode hown
          rw [if_pos (by simp [hnil])]
          cases hany : (Tree.exact level).child? .any with
          | some c => exact Or.inl ⟨.any, c, hany, rfl, rfl⟩
          | none => exact Or.inr ⟨rfl, under_eq_nil_of_child? hroot hnode hany⟩
  | range level => simp [Tree.label, Column.level, hmatching] at hlabel
  | unique v row => simp [Tree.label, Column.level, hmatching] at hlabel
  | multi vs => simp [Tree.label, Column.level, hmatching] at hlabel

theorem leads_range {reach : Reach} (hcolumn : schema.columns[p.length]? = some column)
    (hmatching : column.matching = .range reach) (value : KeyValue) :
    Leads schema rows p node column value := by
  have hlabel := label_of_column hroot hnode hrows hcolumn
  cases node with
  | range level =>
      have hsound : level.Sound := (hroot.2.1.at hnode).of_range
      have hband : ∀ row ∈ schema.under rows p, ∃ j c, (schema.reading row.keys)[p.length]? =
          some (.range j) ∧ level.getExact? j = some c ∧
          row.keys[p.length]?.any (·.admits value) = j.contains value := by
        intro row hrow
        obtain ⟨hmem, hstart⟩ := mem_under.mp hrow
        obtain ⟨key, hkey, hfits, hreading⟩ := reading_getElem?
          (Schema.fits_of_validateRow (hrows.admitted row hmem).keys) hcolumn
        obtain ⟨j, hj, hadmits⟩ := exists_interval_of_fits hmatching hfits value
        rw [hj] at hreading
        have hchild := (isSome_child?_iff hroot hnode (.range j)).mpr
          (List.ne_nil_of_mem (mem_under.mpr ⟨hmem, View.concat_prefix_iff.mpr ⟨hstart, hreading⟩⟩))
        obtain ⟨c, hc⟩ := Option.isSome_iff_exists.mp hchild
        exact ⟨j, c, hreading, hc, by rw [hkey, Option.any_some, hadmits]⟩
      unfold Leads
      simp only [narrow, hmatching]
      cases hget : level.get? value with
      | some c =>
          obtain ⟨i, hi, hcontains⟩ := (RangeLevel.get?_eq_some_iff hsound).mp hget
          refine Or.inl ⟨.range i, c, hi, congrArg Lookup.mk hget, ?_⟩
          rw [under_concat]
          refine List.filter_congr fun row hrow => ?_
          obtain ⟨j, d, hreading, hj, hadmits⟩ := hband row hrow
          rw [hadmits, hreading, Bool.eq_iff_iff, decide_eq_true_eq, Option.some.injEq,
            ColumnKey.range.injEq]
          have hmem : ∀ {k d}, level.getExact? k = some d → k ∈ level.intervals := by
            intro k d hk
            rw [RangeLevel.mem_intervals_iff, hk]
            rfl
          constructor
          · intro hj'
            rcases hsound.eq_or_disjoint (hmem hj) (hmem hi) with hji | hdisjoint
            · exact hji
            · simp [Interval.overlaps_of_contains hj' hcontains] at hdisjoint
          · rintro rfl
            exact hcontains
      | none =>
          refine Or.inr ⟨congrArg Lookup.mk hget, List.filter_eq_nil_iff.mpr fun row hrow => ?_⟩
          obtain ⟨j, d, hreading, hj, hadmits⟩ := hband row hrow
          rw [hadmits]
          intro hcontains
          cases hget.symm.trans ((RangeLevel.get?_eq_some_iff hsound).mpr ⟨j, hj, hcontains⟩)
  | exact level => simp [Tree.label, Column.level, hmatching] at hlabel
  | unique v row => simp [Tree.label, Column.level, hmatching] at hlabel
  | multi vs => simp [Tree.label, Column.level, hmatching] at hlabel

theorem leads (hcolumn : schema.columns[p.length]? = some column) (value : KeyValue) :
    Leads schema rows p node column value := by
  cases hmatching : column.matching with
  | exact => exact leads_exact hroot hnode hrows hcolumn hmatching value
  | range reach => exact leads_range hroot hnode hrows hcolumn hmatching value

/-! ## Any number of keys -/

/-- Going down from a position stands for the rows under it, narrowed down. -/
theorem answers_descendAll (values : List KeyValue) :
    ((⟨some node⟩ : Lookup P).descendAll values).Answers
      (narrowAll p.length (schema.columns.drop p.length) values (schema.under rows p)) := by
  induction values generalizing p node with
  | nil =>
      rw [narrowAll_no_values]
      exact answers_under hroot hnode hrows
  | cons value values ih =>
      cases hcolumn : schema.columns[p.length]? with
      | none =>
          have hleaf := isLeaf_of_no_column hroot hnode hrows hcolumn
          have hdescend : (⟨some node⟩ : Lookup P).descend value = ⟨some node⟩ := by
            cases node <;> first | rfl | cases hleaf
          have hdrop : schema.columns.drop p.length = [] :=
            List.drop_eq_nil_of_le (List.getElem?_eq_none_iff.mp hcolumn)
          have hrest := ih hnode
          rw [Lookup.descendAll_cons, hdescend, hdrop, narrowAll_no_columns]
          rwa [hdrop, narrowAll_no_columns] at hrest
      | some column =>
          obtain ⟨hlt, rfl⟩ := List.getElem?_eq_some_iff.mp hcolumn
          rw [Lookup.descendAll_cons, List.drop_eq_getElem_cons hlt, narrowAll]
          rcases leads hroot hnode hrows hcolumn value with ⟨s, c, hchild, hdescend, hnarrow⟩ |
            ⟨hdescend, hnarrow⟩
          · have hrest := ih (Tree.at?_concat_of_child hnode hchild)
            rw [List.length_append, List.length_singleton] at hrest
            rw [hnarrow, Lookup.descend]
            simp only [hdescend]
            exact hrest
          · rw [hnarrow, narrowAll_no_rows, Lookup.descend]
            simp only [hdescend]
            rw [Lookup.descendAll_empty]
            exact Lookup.answers_empty

end Under

/-! ## Tables -/

variable {table : Table P}

theorem Table.Over.answers (h : table.Over schema config rows) (values : List KeyValue) :
    (table.rootLookup.descendAll values).Answers (schema.remaining values rows) := by
  have hroot := h.root
  unfold Table.rootLookup Schema.remaining
  cases hr : table.root with
  | none =>
      rw [hr] at hroot
      obtain rfl : rows = [] := hroot
      rw [narrowAll_no_rows]
      exact Lookup.descendAll_empty (P := P) values ▸ Lookup.answers_empty
  | some tree =>
      rw [hr] at hroot
      have hanswers := answers_descendAll (p := []) hroot rfl h.buildable values
      rwa [under_nil] at hanswers

omit [Payload P] in
theorem lookup_eq {keys : List KeyValue} {lookup : Lookup P} (h : table.lookup keys = .ok lookup) :
    lookup = table.rootLookup.descendAll keys := by
  obtain ⟨_, -, hlookup⟩ := bind_eq_ok_iff.mp h
  exact (Except.ok.inj hlookup).symm

/-- Every lookup in a table that was built stands for the rows that match the keys. -/
theorem build_answers (h : (Table.build schema config rows).value = .ok table)
    (keys : List KeyValue) :
    (table.rootLookup.descendAll keys).Answers (schema.remaining keys rows) ∧
      ∀ lookup, table.lookup keys = .ok lookup → lookup.Answers (schema.remaining keys rows) := by
  have hanswers := (over_of_build h).answers keys
  exact ⟨hanswers, fun lookup hlookup => lookup_eq hlookup ▸ hanswers⟩

/-- Fees by region and amount. One row has no payload, and one is for all other regions. -/
def feeRows : List (Row String) :=
  [{ keys := [.exact (.text "EU"), .range (.below (.integer 10))], payload := some "small" },
    { keys := [.exact (.text "EU"), .range (.atLeast (.integer 10))] },
    { keys := [.any, .any], payload := some "other" }]

def feeSchema : Schema where
  columns := [.exact "region", .openRange "amount"]
  policy := .multi

theorem build_answers_feeRows : ∃ table, (Table.build feeSchema {} feeRows).value = .ok table ∧
    (table.rootLookup.descendAll [.text "EU", .integer 12]).isEmpty = false ∧
    (table.rootLookup.descendAll [.text "EU", .integer 12]).values = [] ∧
    (table.rootLookup.descendAll [.text "US"]).values = ["other"] := by
  have hok : (Table.build feeSchema {} feeRows).value.isOk = true := by decide +kernel
  cases hbuild : (Table.build feeSchema {} feeRows).value with
  | error e =>
      rw [hbuild] at hok
      cases hok
  | ok table =>
      have heu := (build_answers hbuild [.text "EU", .integer 12]).1
      have hus := (build_answers hbuild [.text "US"]).1
      refine ⟨table, rfl, ?_, ?_, ?_⟩
      · rw [← Bool.not_eq_true, heu.isEmpty]
        decide +kernel
      · rw [heu.values]
        decide +kernel
      · rw [hus.values]
        decide +kernel

end DecisionTable
