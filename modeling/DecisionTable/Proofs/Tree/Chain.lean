import DecisionTable.Proofs.Tree.Overlay
import DecisionTable.Proofs.Tree.Strand

/-!
# The view of a row

The tree of a row whose keys fit their columns is a strand, and a strand shows as a branch: its path
is what the columns read in the keys, and its leaf is that of the policy.

* `Column.reading`, `Schema.reading` : the keys of a row as the columns read them;
* `Row.view` : the branch of a row;
* `Strand.shows` : a strand is sound and shows as a branch;
* `chain_ok` : the chain of a row is a tree with that view.
-/

namespace DecisionTable

/-! ## Reading keys -/

/-- A key as its column reads it. On a range column a catch-all key is the interval of all keys. -/
def Column.reading (column : Column) (key : ColumnKey) : ColumnKey :=
  match column.matching, key with
  | .range _, .any => .range .unbounded
  | _, key => key

theorem Column.reading_of_exact {column : Column} (h : column.matching = .exact) (key : ColumnKey) :
    column.reading key = key := by
  simp [reading, h]

def Schema.reading (schema : Schema) (keys : List ColumnKey) : Position :=
  List.zipWith Column.reading schema.columns keys

variable {P : Type}

def Column.level (column : Column) : Label P :=
  match column.matching with
  | .exact => .exact
  | .range _ => .range

theorem eq_level_of_kind {column : Column} {l : Label P}
    (h : l.kind = (column.level : Label P).kind) : l = column.level := by
  obtain ⟨name, type, matching⟩ := column
  cases matching <;> cases l <;> first | rfl | simp [Column.level, Label.kind] at h

theorem above_reading {column : Column} {key : ColumnKey} (h : column.Fits key) :
    (Label.above (column.reading key) : Label P) = column.level := by
  obtain ⟨name, type, matching⟩ := column
  cases matching <;> cases key <;> first | rfl | cases h

/-- Where there is a column, there is a key for it, and it is read. -/
theorem reading_getElem? {R : Column → ColumnKey → Prop} {columns : List Column}
    {keys : List ColumnKey} {n : Nat} {column : Column} (h : List.Forall₂ R columns keys)
    (hcolumn : columns[n]? = some column) :
    ∃ key, keys[n]? = some key ∧ R column key ∧
      (List.zipWith Column.reading columns keys)[n]? = some (column.reading key) := by
  induction h generalizing n with
  | nil => cases hcolumn
  | @cons first key columns keys hkey _ ih =>
      cases n with
      | zero =>
          obtain rfl : first = column := Option.some.inj hcolumn
          exact ⟨key, rfl, hkey, rfl⟩
      | succ n => exact ih hcolumn

theorem length_reading {schema : Schema} {keys : List ColumnKey}
    (h : List.Forall₂ Column.Fits schema.columns keys) :
    (schema.reading keys).length = schema.columns.length := by
  rw [Schema.reading, List.length_zipWith, ← h.length_eq, Nat.min_self]

/-- The label of the leaf of a row, which is the row at this position. -/
def Row.leaf (row : Row P) (policy : Policy) (position : Nat) : Label P :=
  match policy, row.payload with
  | .unique, some value => .unique value (some position)
  | _, payload => .multi {value | payload = some value}

theorem mem_payloads_leaf {row : Row P} {policy : Policy} {n : Nat} {x : P} :
    x ∈ (row.leaf policy n).payloads ↔ row.payload = some x := by
  obtain ⟨keys, payload⟩ := row
  cases policy <;> cases payload <;> simp [Row.leaf, Label.payloads, eq_comm]

theorem isLeaf_of_kind_leaf {row : Row P} {policy : Policy} {n : Nat} {tree : Tree P}
    (h : tree.kind = (row.leaf policy n).kind) : tree.isLeaf = true := by
  obtain ⟨keys, payload⟩ := row
  cases policy <;> cases payload <;> cases tree <;>
    first | rfl | simp [Row.leaf, Label.kind, Tree.kind] at h

def Row.view (schema : Schema) (row : Row P) (position : Nat) : View P :=
  View.branch (row.leaf schema.policy position) (schema.reading row.keys)

theorem Row.isSome_view_concat {schema : Schema} {row : Row P} {n : Nat} {p : Position}
    {s : ColumnKey} : (row.view schema n (p ++ [s])).isSome ↔
      p <+: schema.reading row.keys ∧ (schema.reading row.keys)[p.length]? = some s := by
  rw [Row.view, View.isSome_branch, View.concat_prefix_iff]

/-- A branch has a level at each column, and its leaf after the last one. -/
theorem Row.view_cases {schema : Schema} {row : Row P} {n : Nat} {p : Position} {m : Label P}
    (hkeys : List.Forall₂ Column.Fits schema.columns row.keys)
    (hm : row.view schema n p = some m) :
    (∃ column, schema.columns[p.length]? = some column ∧ m = column.level) ∨
    schema.columns[p.length]? = none ∧ p = schema.reading row.keys ∧
      m = row.leaf schema.policy n := by
  obtain ⟨q, hq⟩ : p <+: schema.reading row.keys := View.isSome_branch.mp (by
    rw [← Row.view, hm]
    rfl)
  have hlength := length_reading hkeys
  cases q with
  | nil =>
      rw [List.append_nil] at hq
      subst hq
      rw [Row.view, View.branch_self] at hm
      exact Or.inr ⟨List.getElem?_eq_none hlength.ge, rfl, (Option.some.inj hm).symm⟩
  | cons s q =>
      have hlt : p.length < schema.columns.length := by
        rw [← hlength, ← hq, List.length_append, List.length_cons]
        omega
      obtain ⟨key, -, hfits, hreading⟩ :=
        reading_getElem? hkeys (List.getElem?_eq_getElem hlt)
      rw [← Schema.reading, ← hq] at hreading
      obtain rfl : s = (schema.columns[p.length]).reading key := by simpa using hreading
      rw [Row.view, ← hq, View.branch_append_cons] at hm
      refine Or.inl ⟨_, List.getElem?_eq_getElem hlt, ?_⟩
      rw [← above_reading hfits]
      exact (Option.some.inj hm).symm

/-- But for the row that its leaf came from, a branch does not depend on the position of the row. -/
theorem anonymous_view (schema : Schema) (row : Row P) (n n' : Nat) :
    (row.view schema n).anonymous = (row.view schema n').anonymous := by
  have hleaf : (row.leaf schema.policy n).anonymous = (row.leaf schema.policy n').anonymous := by
    unfold Row.leaf
    split <;> rfl
  rw [Row.view, Row.view, View.anonymous_branch, View.anonymous_branch, hleaf]

namespace Tree

open Ordered
open View (branch graft root)

variable [Payload P] {column : Column} {columns : List Column} {key : ColumnKey}
  {keys : List ColumnKey} {policy : Policy} {row : Row P} {tree below leaf : Tree P} {l : Label P}

/-! ## One level -/

omit [Payload P] in
/-- A level without children, with a child more, is a graft of this child. -/
theorem Grows.view_eq_graft {a a' : Tree P} {s : ColumnKey} (hgrow : Grows a s below a')
    (hnone : ∀ t, a.child? t = none) : a'.view = graft a.label s below.view := by
  rw [hgrow.view, view_eq_root hnone, View.root_join_graft]

theorem band_shows {i : Interval} (hi : i.isEmpty = false) (hbelow : below.Sound) :
    (range ⟨#[⟨i, below⟩]⟩).Sound ∧
      (range ⟨#[⟨i, below⟩]⟩).view = graft .range (.range i) below.view := by
  have hlevel : (RangeLevel.mk #[⟨i, below⟩]).Sound :=
    ⟨List.forall_mem_singleton.mpr hi, List.pairwise_singleton _ _, List.pairwise_singleton _ _⟩
  exact ⟨.range hlevel (List.forall_mem_singleton.mpr hbelow),
    (grows_band hlevel).view_eq_graft fun t => by cases t <;> rfl⟩

/-- A level with one key shows as a graft at the key as its column reads it. -/
theorem HoldsKey.shows (h : HoldsKey column below key tree) (hkey : column.Fits key)
    (hbelow : below.Sound) : tree.Sound ∧
      tree.view = graft (.above (column.reading key)) (column.reading key) below.view := by
  unfold Column.Fits at hkey
  unfold Column.reading
  cases h with
  | value matching value =>
      rw [matching]
      have hgrow : Grows (exact ⟨[], none⟩) (.exact value) below (exact ⟨[(value, below)], none⟩) :=
        grows_child (List.nodup_singleton value)
      exact ⟨.exact (List.pairwise_singleton _ _) (List.forall_mem_singleton.mpr hbelow) nofun,
        hgrow.view_eq_graft fun t => by cases t <;> rfl⟩
  | fallback matching =>
      rw [matching]
      exact ⟨.exact List.Pairwise.nil nofun fun child hchild => Option.some.inj hchild ▸ hbelow,
        (grows_fallback []).view_eq_graft fun t => by cases t <;> rfl⟩
  | interval matching i =>
      rw [matching] at hkey ⊢
      exact band_shows hkey hbelow
  | everything matching =>
      rw [matching]
      exact band_shows rfl hbelow

/-! ## All levels -/

/-- A strand shows as a branch. -/
theorem Strand.shows (h : Strand leaf columns keys tree)
    (hkeys : List.Forall₂ Column.Fits columns keys) (hleaf : leaf.Sound)
    (hview : leaf.view = root l) :
    tree.Sound ∧ tree.view = branch l (List.zipWith Column.reading columns keys) := by
  induction h with
  | leaf => exact ⟨hleaf, hview⟩
  | level holds _ ih =>
      obtain ⟨hkey, hkeys⟩ := List.forall₂_cons.mp hkeys
      obtain ⟨sound, view⟩ := ih hkeys
      obtain ⟨sound', view'⟩ := holds.shows hkey sound
      refine ⟨sound', ?_⟩
      rw [view', view]
      rfl

theorem HoldsPayload.shows {position : Nat} (h : HoldsPayload policy row position leaf) :
    leaf.Sound ∧ leaf.view = root (row.leaf policy position) := by
  obtain ⟨keys, payload⟩ := row
  cases h with
  | @unique value hpolicy hpayload =>
      subst hpolicy
      obtain rfl : payload = some value := hpayload
      exact ⟨.unique .., view_eq_root fun _ => rfl⟩
  | multi hpolicy =>
      subst hpolicy
      have hascending : Distinct.Ascending payload.toList := by
        cases payload with
        | none => exact List.Pairwise.nil
        | some value => exact List.pairwise_singleton _ _
      refine ⟨.multi hascending, ?_⟩
      rw [view_eq_root fun _ => rfl]
      exact congrArg root (congrArg Label.multi (Set.ext fun v => Option.mem_toList))

/-- The chain of a row shows as its branch. -/
theorem chain_ok {schema : Schema} {row : Row P}
    (hkeys : List.Forall₂ Column.Fits schema.columns row.keys)
    (hpayload : schema.policy = .unique → row.payload.isSome) (position : Nat) :
    ∃ tree, chain schema row position = .ok tree ∧ tree.Sound ∧
      tree.view = row.view schema position := by
  obtain ⟨tree, leaf, htree, strand, payload⟩ := chain_strand hkeys hpayload position
  obtain ⟨hleaf, hview⟩ := payload.shows
  exact ⟨tree, htree, strand.shows hkeys hleaf hview⟩

end Tree

end DecisionTable
