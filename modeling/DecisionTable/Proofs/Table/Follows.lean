import DecisionTable.Proofs.Table.Query

/-!
# The tree that a schema prescribes

The tree of a builder has one level per column, of the kind of the column, and below the last one
leaves of the policy. What its levels are keyed by was checked when the rows were inserted: a row
that holds anything else never gets as far as the tree.

* `Tree.Follows` : the trees that columns and a policy prescribe;
* `Builder.After` : a builder after rows, each of which was accepted;
* `RootOf.follows` : the tree of rows follows their schema;
* `after_follows` : so does the tree of a builder, as long as no row has failed.
-/

namespace DecisionTable

variable {P : Type} {schema : Schema} {config : BuildConfig} {rows : List (Row P)} {row : Row P}
  {p : Position} {column : Column}

/-! ## Prescribed trees -/

/-- The trees that columns prescribe, level by level, and a policy, for the leaves. No level is
empty, and each is keyed by what its column takes. -/
inductive Tree.Follows (policy : Policy) (checkTypes : Bool) : List Column → Tree P → Prop where
  | unique (value : P) (row : Option Nat) (hpolicy : policy = .unique) :
      Follows policy checkTypes [] (.unique value row)
  | multi (values : List P) (hpolicy : policy = .multi) :
      Follows policy checkTypes [] (.multi values)
  | exact {column : Column} {columns : List Column} {level : ExactLevel (Tree P)}
      (matching : column.matching = .exact) (inhabited : level.isEmpty = false)
      (keys : ∀ key ∈ level.keys, column.AcceptsValue checkTypes key)
      (children : ∀ child ∈ level.childList, Follows policy checkTypes columns child) :
      Follows policy checkTypes (column :: columns) (.exact level)
  | range {column : Column} {columns : List Column} {reach : Reach} {level : RangeLevel (Tree P)}
      (matching : column.matching = .range reach) (inhabited : level.isEmpty = false)
      (intervals : ∀ i ∈ level.intervals, column.AcceptsInterval checkTypes reach i)
      (children : ∀ band ∈ level.bands.toList, Follows policy checkTypes columns band.child) :
      Follows policy checkTypes (column :: columns) (.range level)

open Ordered

namespace Tree

variable {policy : Policy} {checkTypes : Bool} {columns : List Column} {a c : Tree P}
  {s : ColumnKey}

theorem Follows.child (h : a.Follows policy checkTypes columns) (hc : a.child? s = some c) :
    ∃ column columns', columns = column :: columns' ∧ c.Follows policy checkTypes columns' := by
  cases h with
  | unique | multi => cases hc
  | @exact column columns level _ _ _ children =>
      refine ⟨column, columns, rfl, children c ?_⟩
      unfold ExactLevel.childList
      cases s with
      | exact key =>
          exact List.mem_append_left _ (List.mem_map_of_mem (Entries.mem_of_lookup hc))
      | any => exact List.mem_append_right _ (Option.mem_toList.mpr hc)
      | range i => cases hc
  | @range column columns reach level _ _ _ children =>
      cases s with
      | exact | any => cases hc
      | range i =>
          obtain ⟨band, hband, -, rfl⟩ := mem_of_child?_range hc
          exact ⟨column, columns, rfl, children band hband⟩

/-- Leaves stand after as many steps as there are columns. -/
theorem Follows.isLeaf_iff (h : a.Follows policy checkTypes columns) (hc : a.at? p = some c) :
    c.isLeaf = true ↔ p.length = columns.length := by
  induction p generalizing a columns with
  | nil =>
      obtain rfl : a = c := Option.some.inj hc
      cases h with
      | unique | multi => exact iff_of_true rfl rfl
      | exact | range => exact iff_of_false nofun nofun
  | cons s p ih =>
      obtain ⟨b, hb, hbc⟩ := Option.bind_eq_some_iff.mp hc
      obtain ⟨column, columns', rfl, hfollows⟩ := h.child hb
      rw [ih hfollows hbc, List.length_cons, List.length_cons, Nat.succ_inj]

section Sound

variable [Payload P]

/-- A sound exact level follows its column when its steps and the children there do. -/
theorem follows_exact {level : ExactLevel (Tree P)} (hsound : (exact level).Sound)
    (matching : column.matching = .exact) (hc : (exact level).child? s = some c)
    (hkeys : ∀ key c, (exact level).child? (.exact key) = some c →
      column.AcceptsValue checkTypes key)
    (hbelow : ∀ t d, (exact level).child? t = some d → d.Follows policy checkTypes columns) :
    (exact level).Follows policy checkTypes (column :: columns) := by
  have hentry : ∀ entry ∈ level.children, (exact level).child? (.exact entry.1) = some entry.2 := by
    intro entry hentry
    cases hsound with
    | exact ascending => exact Entries.lookup_of_mem (Entries.nodup_keys ascending) hentry
  refine .exact matching ?_ (fun key hkey => ?_) (fun child hchild => ?_)
  · obtain ⟨_ | ⟨entry, rest⟩, _ | last⟩ := level
    · cases s <;> cases hc
    · rfl
    · rfl
    · rfl
  · obtain ⟨entry, he, rfl⟩ := List.mem_map.mp hkey
    exact hkeys _ _ (hentry entry he)
  · rcases List.mem_append.mp hchild with hchild | hchild
    · obtain ⟨entry, he, rfl⟩ := List.mem_map.mp hchild
      exact hbelow _ _ (hentry entry he)
    · exact hbelow .any child (Option.mem_toList.mp hchild)

/-- A sound range level follows its column when its steps and the children there do. -/
theorem follows_range {reach : Reach} {level : RangeLevel (Tree P)}
    (hsound : (range level).Sound) (matching : column.matching = .range reach)
    (hc : (range level).child? s = some c)
    (hintervals : ∀ i c, (range level).child? (.range i) = some c →
      column.AcceptsInterval checkTypes reach i)
    (hbelow : ∀ t d, (range level).child? t = some d → d.Follows policy checkTypes columns) :
    (range level).Follows policy checkTypes (column :: columns) := by
  have hband : ∀ band ∈ level.bands.toList,
      (range level).child? (.range band.interval) = some band.child :=
    fun band hband => (RangeLevel.getExact?_eq_some_iff hsound.of_range).mpr hband
  refine .range matching ?_ (fun i hi => ?_) (fun band hmem => hbelow _ _ (hband band hmem))
  · obtain ⟨⟨_ | ⟨band, rest⟩⟩⟩ := level
    · cases s <;> cases hc
    · rfl
  · obtain ⟨band, hmem, rfl⟩ := List.mem_map.mp hi
    exact hintervals _ _ (hband band hmem)

end Sound

end Tree

/-! ## The tree of rows -/

/-- What is read as a value of an exact column is a value that it takes. -/
theorem Column.AcceptsKey.value {checkTypes : Bool} {key : ColumnKey} {value : KeyValue}
    (h : column.AcceptsKey checkTypes key) (hmatching : column.matching = .exact)
    (hread : column.reading key = .exact value) : column.AcceptsValue checkTypes value := by
  rw [Column.reading_of_exact hmatching] at hread
  subst hread
  unfold Column.AcceptsKey at h
  rwa [hmatching] at h

/-- What is read as an interval of a range column is an interval that it takes. -/
theorem Column.AcceptsKey.interval {checkTypes : Bool} {reach : Reach} {key : ColumnKey}
    {i : Interval} (h : column.AcceptsKey checkTypes key)
    (hmatching : column.matching = .range reach) (hread : column.reading key = .range i) :
    column.AcceptsInterval checkTypes reach i := by
  unfold Column.AcceptsKey at h
  unfold Column.reading at hread
  rw [hmatching] at h hread
  cases key with
  | exact value => cases h
  | range j =>
      obtain rfl : j = i := ColumnKey.range.inj hread
      exact h
  | any =>
      obtain rfl : Interval.unbounded = i := ColumnKey.range.inj hread
      obtain rfl : reach = .openEnded := h
      exact ⟨rfl, nofun, nofun, nofun⟩

/-- The leaf of a row follows the policy. -/
theorem follows_leaf (hpayload : schema.policy = .unique → row.payload.isSome) {n : Nat}
    {node : Tree P} (hkind : node.kind = (row.leaf schema.policy n).kind) (checkTypes : Bool) :
    node.Follows schema.policy checkTypes [] := by
  cases hpolicy : schema.policy with
  | unique =>
      obtain ⟨value, hvalue⟩ := Option.isSome_iff_exists.mp (hpayload hpolicy)
      simp only [Row.leaf, hpolicy, hvalue] at hkind
      cases node with
      | unique value' row' => exact .unique value' row' rfl
      | exact | range | multi => simp [Tree.kind, Label.kind] at hkind
  | multi =>
      simp only [Row.leaf, hpolicy] at hkind
      cases node with
      | multi values => exact .multi values rfl
      | exact | range | unique => simp [Tree.kind, Label.kind] at hkind

section Rows

variable [Payload P] {tree node : Tree P}

/-- Something leads on from a level. -/
theorem exists_child_at (hroot : RootOf schema rows (some tree)) (hnode : tree.at? p = some node)
    (hrows : Buildable schema config rows) (hcolumn : schema.columns[p.length]? = some column) :
    ∃ s c, node.child? s = some c := by
  obtain ⟨row, hrow, -, -, -, hstart, -⟩ := exists_row_at hroot hnode
  obtain ⟨key, -, -, hreading⟩ :=
    reading_getElem? (Schema.fits_of_validateRow (hrows.admitted row hrow).keys) hcolumn
  have hunder : row ∈ schema.under rows (p ++ [column.reading key]) :=
    mem_under.mpr ⟨hrow, View.concat_prefix_iff.mpr ⟨hstart, hreading⟩⟩
  exact ⟨_, Option.isSome_iff_exists.mp
    ((isSome_child?_iff hroot hnode _).mpr (List.ne_nil_of_mem hunder))⟩

/-- A step that leads on is the key of some row, as it is read. -/
theorem exists_key_at (hroot : RootOf schema rows (some tree)) (hnode : tree.at? p = some node)
    (hrows : Buildable schema config rows) (hcolumn : schema.columns[p.length]? = some column)
    {s : ColumnKey} {c : Tree P} (hc : node.child? s = some c) :
    ∃ key, column.AcceptsKey config.checkKeyTypes key ∧ column.reading key = s := by
  have hne := (isSome_child?_iff hroot hnode s).mp (by rw [hc]; rfl)
  obtain ⟨row, hrow⟩ := List.exists_mem_of_ne_nil _ hne
  obtain ⟨hmem, hprefix⟩ := mem_under.mp hrow
  obtain ⟨-, hs⟩ := View.concat_prefix_iff.mp hprefix
  have haccepts := Schema.validateRow_eq_ok_iff.mp (hrows.admitted row hmem).keys
  obtain ⟨key, -, hkey, hreading⟩ := reading_getElem? haccepts hcolumn
  exact ⟨key, hkey, Option.some.inj (hreading.symm.trans hs)⟩

/-- At every position of the tree of rows stands what the columns from there on prescribe. -/
theorem RootOf.follows_at (hroot : RootOf schema rows (some tree))
    (hrows : Buildable schema config rows) (hnode : tree.at? p = some node) :
    node.Follows schema.policy config.checkKeyTypes (schema.columns.drop p.length) := by
  have hsound : node.Sound := hroot.2.1.at hnode
  induction hsound using Tree.Sound.induction generalizing p with
  | step node hsound ih =>
      cases hcolumn : schema.columns[p.length]? with
      | none =>
          rw [List.drop_eq_nil_of_le (List.getElem?_eq_none_iff.mp hcolumn)]
          obtain ⟨row, hrow, n, hkind⟩ := exists_leaf_at hroot hnode hrows hcolumn
          exact follows_leaf (hrows.admitted row hrow).payload hkind config.checkKeyTypes
      | some column =>
          obtain ⟨hlt, rfl⟩ := List.getElem?_eq_some_iff.mp hcolumn
          rw [List.drop_eq_getElem_cons hlt]
          have hbelow : ∀ s c, node.child? s = some c → c.Follows schema.policy
              config.checkKeyTypes (schema.columns.drop (p.length + 1)) := by
            intro s c hc
            have hfollows := ih s c hc (Tree.at?_concat_of_child hnode hc)
            rwa [List.length_append, List.length_singleton] at hfollows
          have hlabel := label_of_column hroot hnode hrows hcolumn
          obtain ⟨s, c, hc⟩ := exists_child_at hroot hnode hrows hcolumn
          cases hmatching : schema.columns[p.length].matching with
          | exact =>
              rw [Column.level, hmatching] at hlabel
              cases node with
              | exact level =>
                  refine Tree.follows_exact hsound hmatching hc (fun value c hvalue => ?_) hbelow
                  obtain ⟨key, hkey, hread⟩ := exists_key_at hroot hnode hrows hcolumn hvalue
                  exact hkey.value hmatching hread
              | range | unique | multi => cases hlabel
          | range reach =>
              rw [Column.level, hmatching] at hlabel
              cases node with
              | range level =>
                  refine Tree.follows_range hsound hmatching hc (fun i c hi => ?_) hbelow
                  obtain ⟨key, hkey, hread⟩ := exists_key_at hroot hnode hrows hcolumn hi
                  exact hkey.interval hmatching hread
              | exact | unique | multi => cases hlabel

/-! ## The tree of a builder -/

variable {builder builder' : Builder P}

/-- A builder after rows, each of which it was given and has accepted. -/
inductive Builder.After (schema : Schema) (config : BuildConfig) :
    List (Row P) → Builder P → Prop where
  | start {builder : Builder P} (h : (Builder.start schema config).value = .ok builder) :
      After schema config [] builder
  | push {rows : List (Row P)} {row : Row P} {builder builder' : Builder P}
      (h : After schema config rows builder)
      (hpush : (builder.push row).value = (.ok (), builder')) :
      After schema config (rows ++ [row]) builder'

theorem Builder.After.holds (h : Builder.After schema config rows builder) :
    builder.Holds schema config rows := by
  induction h with
  | @start builder h =>
      unfold Builder.start at h
      cases hvalid : schema.validate with
      | error e =>
          rw [hvalid] at h
          cases h
      | ok _ =>
          rw [hvalid] at h
          cases h
          exact holds_nil schema config
  | @push rows row builder builder' _ hpush ih =>
      rcases push_cases ih row with ⟨next, hnext, hholds⟩ | ⟨-, e, next, hnext⟩
      · cases hnext.symm.trans hpush
        exact hholds
      · cases hnext.symm.trans hpush

/-- Inserting rows one after another is a matter of inserting each. -/
theorem Builder.After.extend (h : Builder.After schema config rows builder) {more : List (Row P)}
    (hextend : (builder.extend more).value = (.ok (), builder')) :
    Builder.After schema config (rows ++ more) builder' := by
  induction more generalizing rows builder with
  | nil =>
      obtain rfl : builder = builder' := congrArg Prod.snd hextend
      rwa [List.append_nil]
  | cons row more ih =>
      rw [Builder.extend, Logged.value_bind] at hextend
      rcases hpush : (builder.push row).value with ⟨_ | ⟨⟩, next⟩
      · rw [hpush] at hextend
        cases hextend
      · rw [hpush] at hextend
        have hall := ih (h.push hpush) hextend
        rwa [List.append_assoc] at hall

/-- As long as no row has failed, a builder has a tree once it has rows, and the tree is the one
that the schema prescribes, with all leaves as deep as there are columns. -/
theorem after_follows (h : Builder.After schema config rows builder) :
    (builder.root = none ↔ builder.rows = 0) ∧
    ∀ tree, builder.root = some tree →
      tree.Follows schema.policy config.checkKeyTypes schema.columns ∧
      ∀ p node, tree.at? p = some node → (node.isLeaf = true ↔ p.length = schema.arity) := by
  have hholds := h.holds
  have hroot := hholds.root
  cases hr : builder.root with
  | none =>
      rw [hr] at hroot
      obtain rfl : rows = [] := hroot
      exact ⟨iff_of_true rfl hholds.count, nofun⟩
  | some tree =>
      rw [hr] at hroot
      have hfollows := hroot.follows_at hholds.buildable (p := []) rfl
      refine ⟨iff_of_false nofun ?_, ?_⟩
      · rw [hholds.count, List.length_eq_zero_iff]
        exact hroot.1
      · rintro _ ⟨rfl⟩
        exact ⟨hfollows, fun p node hnode => hfollows.isLeaf_iff hnode⟩

end Rows

theorem after_follows_feeRows : ∃ (builder : Builder String) (tree : Tree String),
    Builder.After feeSchema {} feeRows builder ∧ builder.rows = 3 ∧ builder.root = some tree ∧
      tree.Follows .multi true [.exact "region", .openRange "amount"] ∧
      ∀ p node, tree.at? p = some node → (node.isLeaf = true ↔ p.length = 2) := by
  have hstart : Builder.After feeSchema {} []
      ({ schema := feeSchema, config := {} } : Builder String) := .start rfl
  have hok : (({ schema := feeSchema, config := {} } : Builder String).extend
      feeRows).value.1.isOk = true := by decide +kernel
  rcases hextend : (({ schema := feeSchema, config := {} } : Builder String).extend
      feeRows).value with ⟨e | ⟨⟩, builder⟩
  · rw [hextend] at hok
    cases hok
  · have hafter := hstart.extend hextend
    have hcount : builder.rows = 3 := hafter.holds.count
    obtain ⟨hroot, hfollows⟩ := after_follows hafter
    obtain ⟨tree, htree⟩ : ∃ tree, builder.root = some tree := by
      refine Option.ne_none_iff_exists'.mp fun hnone => ?_
      rw [hroot.mp hnone] at hcount
      cases hcount
    obtain ⟨hprescribed, hleaf⟩ := hfollows tree htree
    exact ⟨builder, tree, hafter, hcount, htree, hprescribed, hleaf⟩

end DecisionTable
