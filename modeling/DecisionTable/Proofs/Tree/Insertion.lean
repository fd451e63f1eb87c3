import DecisionTable.Proofs.Tree.Node
import DecisionTable.Proofs.Tree.Walk

/-!
# Inserting into a range level

What an insertion comes to is said of all intervals that are there, although it looks at two of them
only. An interval that is empty or overlaps another one is refused, and nothing has changed then.
One that is there already has its child merged with the new one, and any other interval is added
where the order wants it. A success ends at the key path where it began.

* `Inserted` : what an insertion comes to, case by case;
* `insert_of_node` : inserting into a node.
-/

namespace DecisionTable

namespace Tree

variable {P : Type} [Payload P]

/-! ## What an insertion comes to -/

variable {level : RangeLevel (Tree P)} {i : Interval} {child : Tree P} {path : KeyPath}

/-- What inserting a child for an interval into a range level comes to, by the intervals that are
there. The cases exclude each other and leave none out. -/
structure Inserted (level : RangeLevel (Tree P)) (i : Interval) (child : Tree P) (path : KeyPath)
    (result : EStateM.Result TableError (Site (RangeLevel (Tree P))) Unit) : Prop where
  /-- An empty interval is refused. -/
  ofEmpty : i.isEmpty = true →
    result = .error (.invalidKey path.depth s!"empty interval {i.display} at {path.display}" none)
      ⟨level, path⟩
  /-- One that overlaps another interval is refused, and the error names an obstacle. -/
  ofOverlap : i.isEmpty = false → (∃ j ∈ level.intervals, j ≠ i ∧ j.overlaps i = true) →
    ∃ j, j ≠ i ∧ level.Obstacle i j ∧
      result = .error (.overlappingRange path.display j.display i.display none) ⟨level, path⟩
  /-- Where the interval is there, its child is merged; a failure leaves it without payloads. -/
  ofMem : i ∈ level.intervals →
    ∃ front existing back, level.bands.toList = front ++ ⟨i, existing⟩ :: back ∧
      result = match existing.merge child (path.push i.display) with
        | .ok merged _ => .ok () ⟨⟨⟨front ++ ⟨i, merged⟩ :: back⟩⟩, path⟩
        | .error e path' => .error e ⟨⟨⟨front ++ ⟨i, empty⟩ :: back⟩⟩, path'⟩
  /-- Any other interval is added, among those that are there. -/
  ofApart : i.isEmpty = false → (∀ j ∈ level.intervals, j.overlaps i = false) →
    ∃ front back, level.bands.toList = front ++ back ∧
      result = .ok () ⟨⟨⟨front ++ ⟨i, child⟩ :: back⟩⟩, path⟩

theorem settle_setChild {front back : List (Band (Tree P))} {existing : Tree P}
    (hsplit : level.bands.toList = front ++ ⟨i, existing⟩ :: back) :
    Filling.settle (level.setChild front.length) (level.setChild front.length empty)
      (existing.merge child (path.push i.display)) =
    match existing.merge child (path.push i.display) with
    | .ok merged _ => .ok () ⟨⟨⟨front ++ ⟨i, merged⟩ :: back⟩⟩, path⟩
    | .error e path' => .error e ⟨⟨⟨front ++ ⟨i, empty⟩ :: back⟩⟩, path'⟩ := by
  have hset : ∀ c, level.setChild front.length c = ⟨⟨front ++ ⟨i, c⟩ :: back⟩⟩ :=
    fun c => RangeLevel.eq_of_toList (RangeLevel.bands_setChild hsplit c)
  cases hmerge : existing.merge child (path.push i.display) with
  | ok merged path' =>
      obtain rfl := merge_returns existing child _ _ _ hmerge
      rw [Filling.settle, KeyPath.pop_push, hset]
  | error e path' => rw [Filling.settle, hset]

/-- Inserting into a range level that insertions and merges made. -/
theorem insert_of_node (h : (range level).IsNode) (i : Interval) (child : Tree P) (path : KeyPath) :
    Inserted level i child path
      (RangeLevel.insert empty (fun existing => existing.merge child) i child ⟨level, path⟩) where
  ofEmpty hi := RangeLevel.insert_of_isEmpty empty _ child path hi
  ofOverlap hi hother := by
    obtain ⟨j, hne, hobstacle, hplace⟩ := RangeLevel.place_of_overlap h.orderly hi hother
    refine ⟨j, hne, hobstacle, ?_⟩
    rw [RangeLevel.insert_run _ _ _ _ hi, hplace]
  ofMem hmem := by
    have hsound : level.Sound := h.orderly
    obtain ⟨front, existing, back, hsplit, hplace⟩ := RangeLevel.place_of_mem hsound hmem
    refine ⟨front, existing, back, hsplit, ?_⟩
    rw [RangeLevel.insert_run _ _ _ _ (hsound.nonempty i hmem), hplace]
    exact settle_setChild hsplit
  ofApart hi hapart := by
    obtain ⟨front, back, hsplit, hplace⟩ := RangeLevel.place_of_apart h.orderly hi hapart
    have hgrown := RangeLevel.bands_insertBand hsplit ⟨i, child⟩
    refine ⟨front, back, hsplit, ?_⟩
    rw [RangeLevel.insert_run _ _ _ _ hi, hplace]
    simp only [RangeLevel.eq_of_toList hgrown]

theorem insert_of_node_spoiledParcels : (range spoiledParcels).IsNode ∧
    ∃ j, j ≠ .unbounded ∧ spoiledParcels.Obstacle .unbounded j ∧
      RangeLevel.insert empty (fun existing => existing.merge (.unique 7 none)) .unbounded
        (.unique 7 none) ⟨spoiledParcels, .root⟩ =
      .error (.overlappingRange "<root>" j.display "(-inf, +inf)" none) ⟨spoiledParcels, .root⟩ :=
  ⟨isNode_spoiledParcels,
    (insert_of_node isNode_spoiledParcels .unbounded (.unique 7 none) .root).ofOverlap rfl
      ⟨ordinaryParcels, List.mem_cons_self, by decide, rfl⟩⟩

end Tree

end DecisionTable
