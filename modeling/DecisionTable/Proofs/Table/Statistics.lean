import DecisionTable.Proofs.Table.Follows
import DecisionTable.Proofs.Table.Rejection
import DecisionTable.Proofs.Tree.Shape

/-!
# The statistics of a table

In the tree of rows stands one structure for each distinct prefix of their keys, as these are read.
What stands there is told by the column that comes next, so the statistics are sums, over columns of
one sort, of numbers of distinct prefixes.

* `Schema.prefixes` : the distinct prefixes of the keys of rows, of some length;
* `mem_places_iff` : what stands at a prefix;
* `encard_places_columns`, `encard_places_leaves`, `encard_reached_columns` : levels, leaves and
  steps in numbers of prefixes;
* `stats_of_build` : the statistics of a table.
-/

namespace DecisionTable

open Ordered

variable {P : Type} {schema : Schema} {config : BuildConfig} {rows : List (Row P)} {p : Position}

/-! ## Prefixes -/

/-- The distinct prefixes of some length of the keys of rows, as the columns read them. -/
def Schema.prefixes (schema : Schema) (rows : List (Row P)) (length : Nat) : Finset Position :=
  (rows.map fun row => (schema.reading row.keys).take length).toFinset

def Schema.columnsWhere (schema : Schema) (matched : Matching → Bool) : Finset Nat :=
  {n ∈ Finset.range schema.arity | schema.columns[n]?.any fun column => matched column.matching}

def Schema.exactColumns (schema : Schema) : Finset Nat := schema.columnsWhere (· = .exact)

def Schema.rangeColumns (schema : Schema) : Finset Nat := schema.columnsWhere (· ≠ .exact)

theorem mem_columnsWhere {matched : Matching → Bool} {n : Nat} :
    n ∈ schema.columnsWhere matched ↔
      ∃ column, schema.columns[n]? = some column ∧ matched column.matching = true := by
  rw [Schema.columnsWhere, Finset.mem_filter, Option.any_eq_true, Finset.mem_range]
  refine and_iff_right_of_imp ?_
  rintro ⟨column, hcolumn, -⟩
  exact (List.getElem?_eq_some_iff.mp hcolumn).1

theorem mem_prefixes {n : Nat} : p ∈ schema.prefixes rows n ↔
    ∃ row ∈ rows, (schema.reading row.keys).take n = p := by
  simp [Schema.prefixes]

theorem length_of_mem_prefixes (h : Buildable schema config rows) {n : Nat}
    (hn : n ≤ schema.arity) (hp : p ∈ schema.prefixes rows n) : p.length = n := by
  obtain ⟨row, hrow, rfl⟩ := mem_prefixes.mp hp
  rw [List.length_take, length_reading (Schema.fits_of_validateRow (h.admitted row hrow).keys)]
  exact Nat.min_eq_left hn

theorem mem_prefixes_length : p ∈ schema.prefixes rows p.length ↔
    ∃ row ∈ rows, p <+: schema.reading row.keys := by
  simp only [mem_prefixes, List.prefix_iff_eq_take, eq_comm]

theorem length_le_of_mem_prefixes (h : Buildable schema config rows)
    (hp : p ∈ schema.prefixes rows p.length) : p.length ≤ schema.arity := by
  obtain ⟨row, hrow, hprefix⟩ := mem_prefixes_length.mp hp
  rw [Schema.arity, ← length_reading (Schema.fits_of_validateRow (h.admitted row hrow).keys)]
  exact hprefix.length_le

/-- A prefix that takes in a column ends in a key for that column. -/
theorem exists_last_key (h : Buildable schema config rows) {n : Nat} {column : Column}
    (hcolumn : schema.columns[n]? = some column) (hp : p ∈ schema.prefixes rows (n + 1)) :
    ∃ s, p.getLast? = some s ∧ (Label.above s : Label P) = column.level := by
  obtain ⟨row, hrow, rfl⟩ := mem_prefixes.mp hp
  obtain ⟨key, -, hfits, hreading⟩ :=
    reading_getElem? (Schema.fits_of_validateRow (h.admitted row hrow).keys) hcolumn
  refine ⟨column.reading key, ?_, above_reading hfits⟩
  have hlength := length_of_mem_prefixes h (List.getElem?_eq_some_iff.mp hcolumn).1 hp
  rw [List.getLast?_eq_getElem?, hlength, Nat.succ_sub_one, List.getElem?_take_of_lt n.lt_succ_self]
  exact hreading

/-- A prefix that ends in a key takes in the column of that key, and ends there. -/
theorem exists_last_column (h : Buildable schema config rows)
    (hp : p ∈ schema.prefixes rows p.length) {s : ColumnKey} (hs : p.getLast? = some s) :
    ∃ n column, schema.columns[n]? = some column ∧ p ∈ schema.prefixes rows (n + 1) ∧
      (Label.above s : Label P) = column.level := by
  obtain ⟨q, rfl⟩ := List.getLast?_eq_some_iff.mp hs
  have hle := length_le_of_mem_prefixes h hp
  rw [List.length_append, List.length_singleton] at hp hle
  have hcolumn := List.getElem?_eq_getElem hle
  obtain ⟨t, ht, hlevel⟩ := exists_last_key h hcolumn hp
  obtain rfl : s = t := Option.some.inj (hs.symm.trans ht)
  exact ⟨q.length, _, hcolumn, hp, hlevel⟩

/-- In a table with unique results, no two rows are read alike. -/
theorem card_prefixes_of_unique (h : Buildable schema config rows)
    (hpolicy : schema.policy = .unique) :
    (schema.prefixes rows schema.arity).card = rows.length := by
  have hfull : ∀ row ∈ rows,
      (schema.reading row.keys).take schema.arity = schema.reading row.keys := by
    intro row hrow
    apply List.take_of_length_le
    exact (length_reading (Schema.fits_of_validateRow (h.admitted row hrow).keys)).le
  rw [Schema.prefixes, List.toFinset_card_of_nodup, List.length_map]
  rw [List.Nodup, List.pairwise_map]
  refine (buildable_iff.mp h).2.imp_of_mem fun hrow hrow' hconflict heq => hconflict ?_
  rw [hfull _ hrow, hfull _ hrow'] at heq
  exact Or.inr ⟨heq, hpolicy⟩

theorem length_ofList [Payload P] (xs : List P) :
    (Distinct.ofList xs).length = {x | x ∈ xs}.ncard := by
  classical
  have hset : {x | x ∈ xs} = ((Distinct.ofList xs).toFinset : Set P) := by
    ext x
    simp [Distinct.mem_ofList]
  rw [hset, Set.ncard_coe_finset, List.toFinset_card_of_nodup (Distinct.ascending_ofList xs).nodup]

/-- Intervals lead on from range columns, and nothing else does. -/
theorem isRange_iff_of_above {s : ColumnKey} {column : Column}
    (h : (Label.above s : Label P) = column.level) :
    (∃ i, s = .range i) ↔ column.matching ≠ .exact := by
  obtain ⟨name, type, matching⟩ := column
  cases s <;> cases matching <;> cases h <;> simp

/-- A set of positions that falls into parts by length has as many members as the parts together. -/
theorem encard_by_length {T : Set Position} {S : Finset Nat} {F : Nat → Finset Position} (d : Nat)
    (hT : ∀ p, p ∈ T ↔ ∃ n ∈ S, p ∈ F n) (hlength : ∀ n ∈ S, ∀ p ∈ F n, p.length = n + d) :
    T.encard = (∑ n ∈ S, (F n).card : Nat) := by
  have hunion : T = S.biUnion F := by
    ext p
    simp [hT]
  rw [hunion, Set.encard_coe_eq_coe_finsetCard, Finset.card_biUnion]
  refine fun m hm n hn hne => Finset.disjoint_left.mpr fun p hp hp' => ?_
  have hsame := (hlength m hm p hp).symm.trans (hlength n hn p hp')
  omega

/-! ## Labels and depth -/

namespace Tree

variable {policy : Policy} {checkTypes : Bool} {columns : List Column} {a : Tree P}

theorem Follows.label_exact (h : a.Follows policy checkTypes columns) :
    a.label = .exact ↔ ∃ column, columns[0]? = some column ∧ column.matching = .exact := by
  cases h <;> simp_all [label]

theorem Follows.label_range (h : a.Follows policy checkTypes columns) :
    a.label = .range ↔ ∃ column, columns[0]? = some column ∧ column.matching ≠ .exact := by
  cases h <;> simp_all [label]

theorem Follows.label_unique (h : a.Follows policy checkTypes columns) :
    a.label.IsUnique ↔ columns[0]? = none ∧ policy = .unique := by
  cases h <;> simp_all [label, Label.IsUnique]

theorem Follows.label_multi (h : a.Follows policy checkTypes columns) :
    a.label.IsMulti ↔ columns[0]? = none ∧ policy = .multi := by
  cases h <;> simp_all [label, Label.IsMulti]

/-- A tree is as deep as there are columns. -/
theorem Follows.depth_eq (h : a.Follows policy checkTypes columns) :
    a.shape.depth = columns.length := by
  induction h with
  | unique | multi =>
      rw [shape]
      rfl
  | @exact column columns level _ inhabited _ _ ih =>
      refine depth_of_steps (fun hnil => ?_) fun entry hentry => ih entry.2 ?_
      · have hnone : level.children = [] ∧ level.fallback = none := by simpa [steps] using hnil
        simp [ExactLevel.isEmpty, hnone] at inhabited
      · simp only [steps, List.mem_append, List.mem_map] at hentry
        rcases hentry with ⟨child, hchild, rfl⟩ | ⟨child, hchild, rfl⟩
        · exact List.mem_append_left _ (List.mem_map_of_mem hchild)
        · exact List.mem_append_right _ hchild
  | @range column columns reach level _ inhabited _ _ ih =>
      refine depth_of_steps (fun hnil => ?_) fun entry hentry => ?_
      · have hnone : level.bands = #[] := by simpa [steps, RangeLevel.entries] using hnil
        simp [RangeLevel.isEmpty, hnone] at inhabited
      · obtain ⟨⟨i, child⟩, hband, rfl⟩ := List.mem_map.mp hentry
        exact ih ⟨i, child⟩ (RangeLevel.mem_entries_iff.mp hband)

end Tree

section Rows

variable [Payload P] {tree : Tree P} (hroot : RootOf schema rows (some tree))
include hroot

/-- The positions in the tree of rows are the prefixes of their keys. -/
theorem isSome_view_iff_mem_prefixes :
    (tree.view p).isSome ↔ p ∈ schema.prefixes rows p.length := by
  rw [isSome_view_iff hroot, mem_prefixes_length, Schema.under, ne_eq, List.filter_eq_nil_iff]
  simp

variable (hrows : Buildable schema config rows)
include hrows

/-- What stands at a prefix is told by the column that comes next, if there is one. -/
theorem mem_places_iff {K : Label P → Prop} {Q : Option Column → Prop}
    (hK : ∀ (node : Tree P) (columns : List Column),
      node.Follows schema.policy config.checkKeyTypes columns → (K node.label ↔ Q columns[0]?)) :
    p ∈ tree.places K ↔ p ∈ schema.prefixes rows p.length ∧ Q schema.columns[p.length]? := by
  have hnode : ∀ node, tree.at? p = some node → (K node.label ↔ Q schema.columns[p.length]?) := by
    intro node hnode
    have hfollows := hK node _ (hroot.follows_at hrows hnode)
    rwa [List.getElem?_drop, Nat.add_zero] at hfollows
  rw [← isSome_view_iff_mem_prefixes hroot, Tree.places, Tree.view, Option.isSome_map]
  cases hat : tree.at? p with
  | none => simp [Tree.view, hat]
  | some node => simp [Tree.view, hat, hnode node hat]

/-- The structures at columns of one sort are as many as the prefixes up to such a column. -/
theorem encard_places_columns (matched : Matching → Bool) {K : Label P → Prop}
    (hK : ∀ (node : Tree P) (columns : List Column),
      node.Follows schema.policy config.checkKeyTypes columns →
        (K node.label ↔ ∃ column, columns[0]? = some column ∧ matched column.matching = true)) :
    (tree.places K).encard =
      (∑ n ∈ schema.columnsWhere matched, (schema.prefixes rows n).card : Nat) := by
  have hlength : ∀ n ∈ schema.columnsWhere matched, ∀ p ∈ schema.prefixes rows n, p.length = n := by
    intro n hn p hp
    obtain ⟨column, hcolumn, -⟩ := mem_columnsWhere.mp hn
    exact length_of_mem_prefixes hrows (List.getElem?_eq_some_iff.mp hcolumn).1.le hp
  refine encard_by_length 0 (fun p => ?_) hlength
  rw [mem_places_iff hroot hrows
    (Q := fun next => ∃ column, next = some column ∧ matched column.matching = true) hK,
    ← mem_columnsWhere]
  constructor
  · rintro ⟨hp, hn⟩
    exact ⟨_, hn, hp⟩
  · rintro ⟨n, hn, hp⟩
    obtain rfl := hlength n hn p hp
    exact ⟨hp, hn⟩

/-- The leaves of a policy, if that is the policy, are as many as the distinct keys of rows. -/
theorem encard_places_leaves {K : Label P → Prop} {policy : Policy}
    (hK : ∀ (node : Tree P) (columns : List Column),
      node.Follows schema.policy config.checkKeyTypes columns →
        (K node.label ↔ columns[0]? = none ∧ schema.policy = policy)) :
    (tree.places K).encard =
      (if schema.policy = policy then (schema.prefixes rows schema.arity).card else 0 : Nat) := by
  have hplaces : tree.places K =
      if schema.policy = policy then ↑(schema.prefixes rows schema.arity) else ∅ := by
    ext p
    rw [mem_places_iff hroot hrows (Q := fun next => next = none ∧ schema.policy = policy) hK]
    split
    · next hpolicy =>
        simp only [hpolicy, and_true, List.getElem?_eq_none_iff, SetLike.mem_coe]
        constructor
        · rintro ⟨hp, hle⟩
          rwa [Nat.le_antisymm (length_le_of_mem_prefixes hrows hp) hle] at hp
        · intro hp
          have hlength := length_of_mem_prefixes hrows (Nat.le_refl _) hp
          exact ⟨hlength ▸ hp, hlength.ge⟩
    · next hpolicy => simp [hpolicy]
  rw [hplaces]
  split
  · rw [Set.encard_coe_eq_coe_finsetCard]
  · rw [Set.encard_empty, Nat.cast_zero]

/-- The steps of one sort, which lead on from columns of one sort only, are as many as the prefixes
that end in such a step. -/
theorem encard_reached_columns (matched : Matching → Bool) {K : ColumnKey → Prop}
    (hK : ∀ (s : ColumnKey) (column : Column), (Label.above s : Label P) = column.level → K s →
      matched column.matching = true) {F : Nat → Finset Position}
    (hF : ∀ n ∈ schema.columnsWhere matched, ∀ p,
      p ∈ F n ↔ p ∈ schema.prefixes rows (n + 1) ∧ ∃ s ∈ p.getLast?, K s) :
    (tree.reached K).encard = (∑ n ∈ schema.columnsWhere matched, (F n).card : Nat) := by
  have hlength : ∀ n ∈ schema.columnsWhere matched, ∀ p ∈ F n, p.length = n + 1 := by
    intro n hn p hp
    obtain ⟨column, hcolumn, -⟩ := mem_columnsWhere.mp hn
    exact length_of_mem_prefixes hrows (List.getElem?_eq_some_iff.mp hcolumn).1
      ((hF n hn p).mp hp).1
  refine encard_by_length 1 (fun p => ?_) hlength
  rw [Tree.reached, Set.mem_ofPred_eq, isSome_view_iff_mem_prefixes hroot]
  constructor
  · rintro ⟨hp, s, hs, hKs⟩
    obtain ⟨n, column, hcolumn, hmem, hlevel⟩ := exists_last_column hrows hp hs
    have hn := mem_columnsWhere.mpr ⟨column, hcolumn, hK s column hlevel hKs⟩
    exact ⟨n, hn, (hF n hn p).mpr ⟨hmem, s, hs, hKs⟩⟩
  · rintro ⟨n, hn, hp⟩
    obtain ⟨hmem, hlast⟩ := (hF n hn p).mp hp
    exact ⟨hlength n hn p hp ▸ hmem, hlast⟩

/-! ## The counts -/

theorem exactLevels_eq : tree.shape.exactLevels =
    ∑ n ∈ schema.exactColumns, (schema.prefixes rows n).card := by
  have hcount := encard_places_columns hroot hrows (· = .exact) (K := (· = .exact))
    fun _ _ h => by simpa using h.label_exact
  rw [Tree.encard_exactLevels hroot.2.1] at hcount
  exact Nat.cast_inj.mp hcount

theorem rangeLevels_eq : tree.shape.rangeLevels =
    ∑ n ∈ schema.rangeColumns, (schema.prefixes rows n).card := by
  have hcount := encard_places_columns hroot hrows (· ≠ .exact) (K := (· = .range))
    fun _ _ h => by simpa using h.label_range
  rw [Tree.encard_rangeLevels hroot.2.1] at hcount
  exact Nat.cast_inj.mp hcount

theorem bands_eq : tree.shape.bands =
    ∑ n ∈ schema.rangeColumns, (schema.prefixes rows (n + 1)).card := by
  have hcount := encard_reached_columns hroot hrows (· ≠ .exact) (K := fun s => ∃ i, s = .range i)
    (F := fun n => schema.prefixes rows (n + 1)) ?_ ?_
  · rw [Tree.encard_bands hroot.2.1] at hcount
    exact Nat.cast_inj.mp hcount
  · intro s column hlevel hs
    exact decide_eq_true ((isRange_iff_of_above hlevel).mp hs)
  · intro n hn p
    refine (and_iff_left_of_imp fun hp => ?_).symm
    obtain ⟨column, hcolumn, hmatched⟩ := mem_columnsWhere.mp hn
    obtain ⟨s, hs, hlevel⟩ := exists_last_key hrows hcolumn hp
    exact ⟨s, hs, (isRange_iff_of_above hlevel).mpr (of_decide_eq_true hmatched)⟩

theorem fallbacks_eq : tree.shape.fallbacks = ∑ n ∈ schema.exactColumns,
    {p ∈ schema.prefixes rows (n + 1) | p.getLast? = some .any}.card := by
  have hcount := encard_reached_columns hroot hrows (· = .exact) (K := (· = .any))
    (F := fun n => {p ∈ schema.prefixes rows (n + 1) | p.getLast? = some .any}) ?_
    fun n _ p => by simp
  · rw [Tree.encard_fallbacks hroot.2.1] at hcount
    exact Nat.cast_inj.mp hcount
  · rintro _ column hlevel rfl
    by_contra hmatched
    obtain ⟨i, hi⟩ := (isRange_iff_of_above hlevel).mpr (by simpa using hmatched)
    cases hi

theorem uniqueLeaves_eq :
    tree.shape.uniqueLeaves = if schema.policy = .unique then rows.length else 0 := by
  have hcount := encard_places_leaves hroot hrows (K := Label.IsUnique) fun _ _ h => h.label_unique
  rw [Tree.encard_uniqueLeaves hroot.2.1] at hcount
  rw [Nat.cast_inj.mp hcount]
  split
  · next hpolicy => exact card_prefixes_of_unique hrows hpolicy
  · rfl

theorem multiLeaves_eq : tree.shape.multiLeaves =
    if schema.policy = .multi then (schema.prefixes rows schema.arity).card else 0 := by
  have hcount := encard_places_leaves hroot hrows (K := Label.IsMulti) fun _ _ h => h.label_multi
  rw [Tree.encard_multiLeaves hroot.2.1] at hcount
  exact Nat.cast_inj.mp hcount

theorem length_values : tree.values.length = {v | ∃ row ∈ rows, row.payload = some v}.ncard := by
  have hvalues : tree.values = Distinct.ofList (rows.filterMap Row.payload) := by
    have hanswers := (answers_under hroot (p := []) rfl hrows).values
    rwa [under_nil] at hanswers
  rw [hvalues, length_ofList]
  simp

theorem depth_eq : tree.shape.depth = schema.arity :=
  (hroot.follows_at hrows (p := []) rfl).depth_eq

end Rows

variable [Payload P] {table : Table P}

/-- The statistics of a table are numbers of distinct prefixes of the keys of its rows. -/
theorem stats_of_build (h : (Table.build schema config rows).value = .ok table) :
    table.stats =
      { rows := rows.length
        exactNodes := ∑ n ∈ schema.exactColumns, (schema.prefixes rows n).card
        rangeNodes := ∑ n ∈ schema.rangeColumns, (schema.prefixes rows n).card
        intervals := ∑ n ∈ schema.rangeColumns, (schema.prefixes rows (n + 1)).card
        defaultBranches := ∑ n ∈ schema.exactColumns,
          {p ∈ schema.prefixes rows (n + 1) | p.getLast? = some .any}.card
        uniqueLeaves := if schema.policy = .unique then rows.length else 0
        multiLeaves :=
          if schema.policy = .multi then (schema.prefixes rows schema.arity).card else 0
        payloads := {v | ∃ row ∈ rows, row.payload = some v}.ncard
        maxDepth := if rows = [] then 0 else schema.arity } ∧
    (rows = [] → table.stats = {}) := by
  have hover := over_of_build h
  have hroot := hover.root
  cases hr : table.root with
  | none =>
      rw [hr] at hroot
      obtain rfl : rows = [] := hroot
      have hzero : table.stats = {} := by
        rw [Table.stats, hr, hover.count]
        rfl
      refine ⟨?_, fun _ => hzero⟩
      rw [hzero]
      simp [Schema.prefixes]
  | some tree =>
      rw [hr] at hroot
      have hrows := hover.buildable
      refine ⟨?_, fun hnil => absurd hnil hroot.1⟩
      rw [Table.stats, hr, hover.count, if_neg hroot.1, ← exactLevels_eq hroot hrows,
        ← rangeLevels_eq hroot hrows, ← bands_eq hroot hrows, ← fallbacks_eq hroot hrows,
        ← uniqueLeaves_eq hroot hrows, ← multiLeaves_eq hroot hrows, ← length_values hroot hrows,
        ← depth_eq hroot hrows]
      rfl

theorem stats_of_build_feeRows : ∃ table, (Table.build feeSchema {} feeRows).value = .ok table ∧
    table.stats =
      { rows := 3, exactNodes := 1, rangeNodes := 2, intervals := 3, defaultBranches := 1
        multiLeaves := 3, payloads := 2, maxDepth := 2 } := by
  have hpayloads : {v | ∃ row ∈ feeRows, row.payload = some v}.ncard = 2 := by
    have hset : {v | ∃ row ∈ feeRows, row.payload = some v} = {"small", "other"} := by
      ext v
      simp [feeRows, eq_comm]
    rw [hset, Set.ncard_pair (by decide)]
  obtain ⟨table, hbuild⟩ : ∃ table, (Table.build feeSchema {} feeRows).value = .ok table :=
    exists_of_isOk (by decide +kernel)
  refine ⟨table, hbuild, ?_⟩
  rw [(stats_of_build hbuild).1, hpayloads]
  decide +kernel

end DecisionTable
