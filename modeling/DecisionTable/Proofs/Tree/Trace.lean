import DecisionTable.Proofs.Tree.Clash
import DecisionTable.Proofs.Tree.Leftover
import DecisionTable.Proofs.Tree.Walk

/-!
# The key path of a merge

A merge that succeeds comes back to the key path where it began. One that fails stays at the path of
a conflict, which is the old path with the keys that lead there, and its error names that path. This
holds of every merge and every insertion, of trees in whatever order.

* `KeyPath.extend` : a path with the keys of a position appended;
* `Collision` : two structures at a position that do not go together;
* `Traced` : what the end of a merge says of its key path;
* `merge_traced` : every merge is traced;
* `merge_only` : an insertion is the merge of a tree with one child.
-/

namespace DecisionTable

namespace KeyPath

/-- The path with the keys of a position appended. Each is labelled with the column name of its
depth, if there is one. -/
def extend (path : KeyPath) (p : Position) : KeyPath :=
  { path with segments := path.segments ++
      p.mapIdx fun index s => labelled path.columns (path.depth + index) s.display }

theorem follow_eq_extend (path : KeyPath) (p : Position) : path.follow p = path.extend p := by
  induction p generalizing path with
  | nil => simp [follow, extend]
  | cons s p ih =>
      have hfollow : path.follow (s :: p) = (path.push s.display).follow p := rfl
      rw [hfollow, ih]
      simp [extend, push, depth, List.mapIdx_cons, Nat.add_assoc, Nat.add_comm 1]

end KeyPath

def TableError.path? : TableError → Option String
  | .uniqueKeyViolation path .. | .overlappingRange path .. | .inconsistentLeafKind path .. =>
    some path
  | _ => none

namespace Tree

variable {P : Type} [Payload P] {a b c d : Tree P} {s : ColumnKey} {p : Position}
  {report : KeyPath → TableError} {path : KeyPath}

/-! ## Collisions -/

/-- Two structures at a position that do not go together, an incoming one and one that was there.
The latter belongs to the existing tree; only a tree that is not lawful may collide with itself. -/
def Collision (a b : Tree P) (p : Position) (report : KeyPath → TableError) : Prop :=
  ∃ c d, (a.Has p c ∨ b.Has p c) ∧ (a.Lawful → b.Lawful → a.Has p c) ∧ b.Has p d ∧
    Clash c d report

/-- What the end of a merge of `b` into `a`, or of filling `a` with the children of `b`, says of the
key path where it began. -/
structure Traced (a b : Tree P) (path : KeyPath)
    (result : EStateM.Result TableError KeyPath (Tree P)) : Prop where
  /-- A success ends at the path where it began. -/
  returns : ∀ c last, result = .ok c last → last = path
  /-- The error of a conflict is a collision at some position. The path ends there, with the keys
  that lead there appended, and the error names it. -/
  stays : ∀ e last text, result = .error e last → e.path? = some text →
    ∃ p report, Collision a b p report ∧ last = path.extend p ∧ e = report last ∧
      text = last.display
  /-- Any other error is due to an empty interval in the incoming tree. -/
  hollow : ∀ e last, result = .error e last → e.path? = none →
    ∃ p i d, b.Has (p ++ [.range i]) d ∧ i.isEmpty = true ∧ last = path.extend p ∧
      e = .invalidKey last.depth s!"empty interval {i.display} at {last.display}" none

theorem Clash.path? (h : Clash c d report) (path : KeyPath) :
    (report path).path? = some path.display := by
  cases h <;> rfl

/-- What blocks a merge is a collision, or an empty interval. -/
theorem Blocked.cases (h : Blocked (fun p c => a.Has p c ∨ b.Has p c) b p report) :
    (∃ c d, (a.Has p c ∨ b.Has p c) ∧ b.Has p d ∧ Clash c d report) ∨
      ∃ i d, b.Has (p ++ [.range i]) d ∧ i.isEmpty = true ∧ report = fun path =>
        .invalidKey path.depth s!"empty interval {i.display} at {path.display}" none := by
  cases h with
  | kind hc hd hne => exact Or.inl ⟨_, _, hc, hd, .kind hne⟩
  | unique hc hd => exact Or.inl ⟨_, _, hc, hd, .unique ..⟩
  | @overlap i j _ _ hi hj hne hij =>
      obtain ⟨level', hlevel', hj⟩ := hj.exists_level
      rcases hi with hi | hi
      · obtain ⟨level, hlevel, hi⟩ := hi.exists_level
        exact Or.inl ⟨_, _, Or.inl hlevel, hlevel', .overlap hi hj hne hij⟩
      · obtain ⟨level, hlevel, hi⟩ := hi.exists_level
        exact Or.inl ⟨_, _, Or.inr hlevel, hlevel', .overlap hi hj hne hij⟩
  | hollow hd hi => exact Or.inr ⟨_, _, hd, hi, rfl⟩

theorem traced_ok (a b c : Tree P) (path : KeyPath) : Traced a b path (.ok c path) := by
  refine ⟨?_, nofun, nofun⟩
  rintro _ _ ⟨⟩
  rfl

theorem traced_of_collision (h : Collision a b p report) :
    Traced a b path (.error (report (path.follow p)) (path.follow p)) := by
  have hnamed : (report (path.follow p)).path? = some (path.follow p).display := by
    obtain ⟨c, d, -, -, -, hclash⟩ := h
    exact hclash.path? _
  refine ⟨nofun, ?_, ?_⟩
  · rintro e path' text ⟨⟩ htext
    have htext' := Option.some.inj (htext.symm.trans hnamed)
    exact ⟨p, report, h, path.follow_eq_extend p, rfl, htext'⟩
  · rintro e path' ⟨⟩ hnone
    cases hnone.symm.trans hnamed

/-- Every merge is traced. Lawful trees collide with one another only, and that is known of them
from their views. -/
theorem merge_traced (a b : Tree P) (path : KeyPath) : Traced a b path (a.merge b path) := by
  by_cases hlawful : a.Lawful ∧ b.Lawful
  · obtain ⟨ha, hb⟩ := hlawful
    have hmerge := merge_kept kept_readable ha.readable hb hb.readable path
    generalize a.merge b path = result at hmerge
    cases hmerge with
    | @done c => exact traced_ok a b c path
    | clash conflict =>
        obtain ⟨c, d, hshared, hclash⟩ := conflict_iff_clashAt.mp conflict
        obtain ⟨hc, hd⟩ := shared_iff.mp hshared
        exact traced_of_collision
          ⟨c, d, Or.inl (has_of_at? hc), fun _ _ => has_of_at? hc, has_of_at? hd, hclash⟩
  · have hends : Ends (fun p c => a.Has p c ∨ b.Has p c) b path (a.merge b path) :=
      merge_ends b (fun p c hc => ⟨c, Or.inl hc, rfl⟩) fun p c hc => Or.inr hc
    generalize a.merge b path = result at hends
    cases hends with
    | @done c => exact traced_ok a b c path
    | blocked h =>
        rcases h.cases with ⟨c, d, hc, hd, hclash⟩ | ⟨i, d, hd, hi, rfl⟩
        · exact traced_of_collision
            ⟨c, d, hc, fun ha hb => absurd ⟨ha, hb⟩ hlawful, hd, hclash⟩
        · refine ⟨nofun, ?_, ?_⟩
          · rintro e path' text ⟨⟩ htext
            cases htext
          · rintro e path' ⟨⟩ -
            exact ⟨_, i, d, hd, hi, path.follow_eq_extend _, rfl⟩

/-! ## Insertions as merges -/

def only : ColumnKey → Tree P → Tree P
  | .exact key, c => .exact ⟨[(key, c)], none⟩
  | .any, c => .exact ⟨[], some c⟩
  | .range i, c => .range ⟨#[⟨i, c⟩]⟩

/-- An insertion that changed a node in place, as a merge that gives the changed node. -/
def settled : EStateM.Result TableError (Site (Tree P)) Unit →
    EStateM.Result TableError KeyPath (Tree P)
  | .ok _ site => .ok site.level site.path
  | .error e site => .error e site.path

/-- Inserting a child is merging the tree with that child. -/
theorem merge_only {result : EStateM.Result TableError (Site (Tree P)) Unit}
    (h : a.insertAt s c path = some result) : a.merge (only s c) path = settled result := by
  cases a with
  | exact level =>
      cases s with
      | exact key =>
          cases h
          rw [only, merge, absorbChildren, absorbChildren, bind_pure_unit, map_run,
            Filling.into_run]
          cases ExactLevel.insert (fun existing => existing.merge c) key c ⟨level, path⟩ <;> rfl
      | any =>
          cases h
          rw [only, merge, absorbChildren, pure_bind, map_run, Filling.into_run]
          cases ExactLevel.insertFallback (fun existing => existing.merge c) c ⟨level, path⟩ <;> rfl
      | range i => cases h
  | range level =>
      cases s with
      | range i =>
          cases h
          rw [only, merge, absorbBands, absorbBands, bind_pure_unit, map_run, Filling.into_run]
          cases RangeLevel.insert empty (fun existing => existing.merge c) i c ⟨level, path⟩ <;> rfl
      | exact | any => cases h
  | unique | multi => cases s <;> cases h

/-- Every merge, and every insertion into a node, comes back to the key path where it began, or
stays at the path of a collision and names it. -/
theorem merge_and_insertAt_traced (a b c : Tree P) (s : ColumnKey) (path : KeyPath) :
    Traced a b path (a.merge b path) ∧
      ∀ result, a.insertAt s c path = some result → Traced a (only s c) path (settled result) := by
  refine ⟨merge_traced a b path, fun result h => ?_⟩
  rw [← merge_only h]
  exact merge_traced a (only s c) path

/-- Fees for parcels at home by speed, of which the express one is there already: the fee of
ordinary ones is merged before, and its key is off the path again. -/
theorem merge_and_insertAt_traced_parcelFees :
    let path := KeyPath.forColumns ["home", "express"]
    let path' : KeyPath := ⟨["home", "express"], ["home=true", "express=true"]⟩
    ∃ after, parcelFees.insertAt (.exact (.bool true)) moreHomeFees path =
      some (.error (.uniqueKeyViolation "home=true / express=true" "6" "8" (some 1) (some 3))
        ⟨after, path'⟩) ∧
      ∃ p report, Collision parcelFees (only (.exact (.bool true)) moreHomeFees) p report ∧
        path' = path.extend p := by
  intro path path'
  have hrun : parcelFees.insertAt (.exact (.bool true)) moreHomeFees path =
      some (.error (.uniqueKeyViolation "home=true / express=true" "6" "8" (some 1) (some 3))
        ⟨parcelFees.vacated (.exact (.bool true)), path'⟩) := rfl
  obtain ⟨-, hinsert⟩ := merge_and_insertAt_traced parcelFees .empty moreHomeFees
    (.exact (.bool true)) path
  obtain ⟨p, report, hcollision, hpath, -⟩ := (hinsert _ hrun).stays _ _ _ rfl rfl
  exact ⟨_, hrun, p, report, hcollision, hpath⟩

end Tree

end DecisionTable
