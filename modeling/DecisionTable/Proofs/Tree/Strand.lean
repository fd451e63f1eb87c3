import DecisionTable.Proofs.Tree.Clash
import DecisionTable.Proofs.Tree.Shape

/-!
# The tree of a single row

The tree of a row is a strand: one level per column, each with the key of its column and with
nothing else, above a leaf with the payload. A level is made for every key that fits its column,
whatever stands below, so a row whose keys were found valid has its strand unless it lacks a payload
that its table requires.

* `HoldsKey` : a level with one key of its column;
* `Strand` : such a level for each column;
* `HoldsPayload` : the leaf of a row;
* `wrap_holdsKey`, `wrapAll_strand` : the level of a column, and of each column;
* `chain_of_valid_row` : the tree of a row that passes the checks.
-/

namespace DecisionTable

/-! ## The first band of a level -/

namespace RangeLevel

variable {α : Type}

theorem place_empty (i : Interval) : (empty : RangeLevel α).place i = .vacant 0 := rfl

theorem insertBand_empty (band : Band α) :
    (empty : RangeLevel α).insertBand 0 band = ⟨#[band]⟩ := by
  have hsplit : (empty : RangeLevel α).bands.toList = [] ++ [] := rfl
  exact eq_of_toList (bands_insertBand hsplit band)

end RangeLevel

namespace Tree

variable {P : Type} {policy : Policy} {schema : Schema} {row : Row P} {column : Column}
  {columns : List Column} {key : ColumnKey} {keys : List ColumnKey} {tree below leaf : Tree P}

/-! ## Strands -/

/-- A level that holds one key of its column, above one structure. On an exact column a catch-all
key is the fallback, and on a range column it is the interval of all keys. -/
inductive HoldsKey (column : Column) (below : Tree P) : ColumnKey → Tree P → Prop where
  | value (matching : column.matching = .exact) (value : KeyValue) :
      HoldsKey column below (.exact value) (.exact ⟨[(value, below)], none⟩)
  | fallback (matching : column.matching = .exact) :
      HoldsKey column below .any (.exact ⟨[], some below⟩)
  | interval {reach : Reach} (matching : column.matching = .range reach) (i : Interval) :
      HoldsKey column below (.range i) (.range ⟨#[⟨i, below⟩]⟩)
  | everything {reach : Reach} (matching : column.matching = .range reach) :
      HoldsKey column below .any (.range ⟨#[⟨.unbounded, below⟩]⟩)

/-- A tree with one level per column, each of which holds the key of its column, above a leaf. -/
inductive Strand (leaf : Tree P) : List Column → List ColumnKey → Tree P → Prop where
  | leaf : Strand leaf [] [] leaf
  | level {column : Column} {key : ColumnKey} {columns : List Column} {keys : List ColumnKey}
      {tree below : Tree P} (holds : HoldsKey column below key tree)
      (strand : Strand leaf columns keys below) : Strand leaf (column :: columns) (key :: keys) tree

/-- A leaf that holds the payload of a row: a unique one with the position of the row, or a multi one
with the payload if there is any. -/
inductive HoldsPayload (policy : Policy) (row : Row P) (position : Nat) : Tree P → Prop where
  | unique {value : P} (hpolicy : policy = .unique) (payload : row.payload = some value) :
      HoldsPayload policy row position (.unique value (some position))
  | multi (hpolicy : policy = .multi) :
      HoldsPayload policy row position (.multi row.payload.toList)

theorem HoldsKey.singlePath (h : HoldsKey column below key tree) (hbelow : below.SinglePath) :
    tree.SinglePath := by
  cases h with
  | value _ value => exact .key value hbelow
  | fallback => exact .fallback hbelow
  | interval _ i => exact .band i hbelow
  | everything => exact .band .unbounded hbelow

theorem HoldsKey.depth_eq (h : HoldsKey column below key tree) :
    tree.shape.depth = below.shape.depth + 1 := by
  obtain ⟨s, hsteps⟩ : ∃ s, tree.steps = [(s, below)] := by
    cases h <;> exact ⟨_, rfl⟩
  refine depth_of_steps (by simp [hsteps]) ?_
  rw [hsteps]
  exact List.forall_mem_singleton.mpr rfl

theorem Strand.singlePath (h : Strand leaf columns keys tree) (hleaf : leaf.SinglePath) :
    tree.SinglePath := by
  induction h with
  | leaf => exact hleaf
  | level holds _ ih => exact holds.singlePath ih

/-- A strand is as deep as there are columns. -/
theorem Strand.depth_eq (h : Strand leaf columns keys tree) (hleaf : leaf.shape.depth = 0) :
    tree.shape.depth = columns.length := by
  induction h with
  | leaf => exact hleaf
  | level holds _ ih => rw [holds.depth_eq, ih, List.length_cons]

theorem HoldsPayload.singlePath {position : Nat} (h : HoldsPayload policy row position leaf) :
    leaf.SinglePath := by
  cases h with
  | unique => exact .unique ..
  | multi => exact .multi _

theorem HoldsPayload.depth_eq {position : Nat} (h : HoldsPayload policy row position leaf) :
    leaf.shape.depth = 0 := by
  cases h <;> rw [shape]

/-! ## Making a strand -/

theorem rangeOf_insert {meet : Tree P → Merging (Tree P)} {i : Interval} (hi : i.isEmpty = false) :
    rangeOf (RangeLevel.insert empty meet i below) = .ok (.range ⟨#[⟨i, below⟩]⟩) := by
  unfold rangeOf Merging.runAt
  rw [map_run, Filling.into_run, RangeLevel.insert_run _ _ _ _ hi, RangeLevel.place_empty]
  simp only [RangeLevel.insertBand_empty]

variable [Payload P]

/-- Where a key fits its column there is a level that holds it, whatever stands below. -/
theorem wrap_holdsKey (index : Nat) (hkey : column.Fits key) (below : Tree P) :
    ∃ tree, wrap index column key below = .ok tree ∧ HoldsKey column below key tree := by
  obtain ⟨name, type, matching⟩ := column
  cases matching with
  | exact =>
      cases key with
      | exact value => exact ⟨_, rfl, .value rfl value⟩
      | any => exact ⟨_, rfl, .fallback rfl⟩
      | range i => cases hkey
  | range reach =>
      cases key with
      | exact value => cases hkey
      | any => exact ⟨_, rangeOf_insert rfl, .everything rfl⟩
      | range i => exact ⟨_, rangeOf_insert hkey, .interval rfl i⟩

/-- Where all keys fit their columns there is a strand above any leaf. -/
theorem wrapAll_strand (index : Nat) (hkeys : List.Forall₂ Column.Fits columns keys)
    (leaf : Tree P) :
    ∃ tree, wrapAll index columns keys leaf = .ok tree ∧ Strand leaf columns keys tree := by
  induction hkeys generalizing index with
  | nil => exact ⟨leaf, rfl, .leaf⟩
  | @cons column key columns keys hkey _ ih =>
      -- the first column comes last: its level is made once the strand below it is there
      obtain ⟨below, hbelow, strand⟩ := ih (index + 1)
      obtain ⟨tree, htree, holds⟩ := wrap_holdsKey index hkey below
      refine ⟨tree, ?_, .level holds strand⟩
      rw [wrapAll, hbelow]
      exact htree

theorem leaf_holdsPayload (hpayload : policy = .unique → row.payload.isSome) (position : Nat) :
    ∃ leaf, Tree.leaf policy row.payload position = .ok leaf ∧
      leaf.HoldsPayload policy row position := by
  cases policy with
  | unique =>
      obtain ⟨value, hvalue⟩ := Option.isSome_iff_exists.mp (hpayload rfl)
      rw [hvalue]
      exact ⟨_, rfl, .unique rfl hvalue⟩
  | multi =>
      refine ⟨_, ?_, .multi rfl⟩
      cases row.payload <;> rfl

/-- A row whose keys fit their columns has a strand, if it has the payload that is required. -/
theorem chain_strand (hkeys : List.Forall₂ Column.Fits schema.columns row.keys)
    (hpayload : schema.policy = .unique → row.payload.isSome) (position : Nat) :
    ∃ tree leaf, chain schema row position = .ok tree ∧
      Strand leaf schema.columns row.keys tree ∧
      leaf.HoldsPayload schema.policy row position := by
  obtain ⟨leaf, hleaf, payload⟩ := leaf_holdsPayload hpayload position
  obtain ⟨tree, htree, strand⟩ := wrapAll_strand 0 hkeys leaf
  refine ⟨tree, leaf, ?_, strand, payload⟩
  rw [chain, hleaf]
  exact htree

/-- Where a payload is required, a row without one has no chain. -/
theorem chain_missing (hpolicy : schema.policy = .unique) (hpayload : row.payload = none)
    (position : Nat) : chain schema row position =
      .error (.invalidResult "unique result requires a payload" none) := by
  rw [chain, hpolicy, hpayload]
  rfl

/-! ## The tree of a valid row -/

/-- The checks of a row and the construction of its tree agree. For a row that passes the checks a
level can be made of each column and its key, whatever stands below. The tree fails to be made just
where a required payload is missing, and is reported so; otherwise it is the strand of the row, a
single path with as many levels as there are columns. -/
theorem chain_of_valid_row {checkTypes : Bool}
    (h : schema.validateRow row.keys checkTypes = .ok ()) (position : Nat) :
    List.Forall₂ (fun column key => ∀ (index : Nat) (below : Tree P),
      ∃ tree, wrap index column key below = .ok tree) schema.columns row.keys ∧
    (∀ e, chain schema row position = .error e ↔
      (schema.policy = .unique ∧ row.payload = none) ∧
        e = .invalidResult "unique result requires a payload" none) ∧
    (¬ (schema.policy = .unique ∧ row.payload = none) →
      ∃ tree leaf, chain schema row position = .ok tree ∧
        Strand leaf schema.columns row.keys tree ∧
        leaf.HoldsPayload schema.policy row position ∧
        tree.SinglePath ∧ tree.shape.depth = schema.arity) := by
  have hkeys := Schema.fits_of_validateRow h
  have hpresent : ¬ (schema.policy = .unique ∧ row.payload = none) →
      schema.policy = .unique → row.payload.isSome := by
    intro hpayload hpolicy
    exact Option.isSome_iff_ne_none.mpr fun hnone => hpayload ⟨hpolicy, hnone⟩
  refine ⟨hkeys.imp fun column key hkey index below => ?_, fun e => ?_, fun hpayload => ?_⟩
  · obtain ⟨tree, htree, -⟩ := wrap_holdsKey index hkey below
    exact ⟨tree, htree⟩
  · by_cases hpayload : schema.policy = .unique ∧ row.payload = none
    · rw [chain_missing hpayload.1 hpayload.2, Except.error.injEq, eq_comm]
      exact (and_iff_right hpayload).symm
    · obtain ⟨tree, leaf, htree, -⟩ := chain_strand hkeys (hpresent hpayload) position
      rw [htree]
      exact iff_of_false nofun fun hmissing => hpayload hmissing.1
  · obtain ⟨tree, leaf, htree, strand, payload⟩ :=
      chain_strand hkeys (hpresent hpayload) position
    exact ⟨tree, leaf, htree, strand, payload, strand.singlePath payload.singlePath,
      strand.depth_eq payload.depth_eq⟩

def tariffSchema : Schema where
  columns := [(Column.exact "region").withType .text, .exact "kind", .range "weight",
    .openRange "amount"]

def tariffRow (payload : Option String) : Row String where
  keys := [.exact (.text "EU"), .any, .range ⟨some (.integer 0), some (.integer 10)⟩, .any]
  payload

theorem chain_of_valid_row_tariff :
    tariffSchema.validateRow (tariffRow none).keys true = .ok () ∧
    (∃ tree, chain tariffSchema (tariffRow (some "low")) 7 = .ok tree ∧
      Strand (.unique "low" (some 7)) tariffSchema.columns (tariffRow (some "low")).keys tree ∧
      tree.SinglePath ∧ tree.shape.depth = 4) ∧
    chain tariffSchema (tariffRow none) 7 =
      .error (.invalidResult "unique result requires a payload" none) := by
  have hvalid : ∀ payload, tariffSchema.validateRow (tariffRow payload).keys true = .ok () :=
    fun _ => rfl
  refine ⟨hvalid none, ?_, ?_⟩
  · obtain ⟨-, -, hstrand⟩ := chain_of_valid_row (hvalid (some "low")) 7
    obtain ⟨tree, leaf, htree, strand, payload, single, depth⟩ := hstrand fun h => nomatch h.2
    cases payload with
    | unique _ hvalue =>
        cases hvalue
        exact ⟨tree, htree, strand, single, depth⟩
    | multi hpolicy => cases hpolicy
  · obtain ⟨-, hfails, -⟩ := chain_of_valid_row (hvalid none) 7
    exact (hfails _).mpr ⟨⟨rfl, rfl⟩, rfl⟩

end Tree

end DecisionTable
