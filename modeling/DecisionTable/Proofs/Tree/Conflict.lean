import DecisionTable.Error
import DecisionTable.Key.Path
import DecisionTable.Payload
import DecisionTable.Proofs.Tree.View

/-!
# Conflicts

Where two views cannot be merged, there is a conflict at some position: structures of two kinds, two
unique leaves, or intervals that overlap. A merge that works through one operand part by part meets
the conflicts of the whole, because the parts share nothing but their root.

* `View.Beside` : views that share nothing but their root;
* `View.Conflict` : a position at which two views cannot be merged, and the error it calls for;
* `Conflict.join_right`, `Conflict.of_join_left` : conflicts with one part after another.
-/

namespace DecisionTable

def KeyPath.follow (path : KeyPath) (position : Position) : KeyPath :=
  position.foldl (fun path step => path.push step.display) path

namespace View

variable {P : Type} {f g h : View P} {s : ColumnKey} {p : Position}

/-! ## Views that share only their root -/

structure Beside (f g : View P) : Prop where
  root : ∃ l : Label P, l.Meets l ∧ f [] = some l ∧ g [] = some l
  apart : ∀ s, f.below s = none ∨ g.below s = none
  disjoint : ∀ i j, (f [.range i]).isSome → (g [.range j]).isSome → i.overlaps j = false

theorem Beside.symm (hfg : Beside f g) : Beside g f where
  root := let ⟨l, hl, hf, hg⟩ := hfg.root; ⟨l, hl, hg, hf⟩
  apart s := (hfg.apart s).symm
  disjoint i j hi hj := Interval.overlaps_comm i j ▸ hfg.disjoint j i hj hi

theorem Beside.compatible (hfg : Beside f g) : Compatible f g where
  meets p l m hl hm := by
    cases p with
    | nil =>
        obtain ⟨k, hk, hf, hg⟩ := hfg.root
        obtain rfl : k = l := Option.some.inj (hf.symm.trans hl)
        obtain rfl : k = m := Option.some.inj (hg.symm.trans hm)
        exact hk
    | cons s p =>
        rcases hfg.apart s with hs | hs
        · cases (congrFun hs p).symm.trans hl
        · cases (congrFun hs p).symm.trans hm
  disjoint p i j hi hj := by
    cases p with
    | nil => exact Or.inr (hfg.disjoint i j hi hj)
    | cons s p =>
        rcases hfg.apart s with hs | hs
        · rw [List.cons_append, show f _ = .none from congrFun hs _] at hi
          cases hi
        · rw [List.cons_append, show g _ = .none from congrFun hs _] at hj
          cases hj

/-- Where one of the two has something, the join has the same. -/
theorem Beside.join_left (hfg : Beside f g) (hp : (f p).isSome) : (f.join g) p = f p := by
  cases p with
  | nil =>
      obtain ⟨l, -, hf, hg⟩ := hfg.root
      unfold join
      rw [hf, hg]
      exact congrArg some l.join_self
  | cons s p =>
      rcases hfg.apart s with hs | hs
      · rw [show f _ = .none from congrFun hs p] at hp
        cases hp
      · unfold join
        rw [show g _ = .none from congrFun hs p, Option.merge_none_right]

theorem Beside.join_right (hfg : Beside f g) (hp : (g p).isSome) : (f.join g) p = g p := by
  rw [join_comm hfg.compatible, hfg.symm.join_left hp]

/-! ## Conflicts -/

variable [Payload P] {e : KeyPath → TableError}

/-- A position at which two views cannot be merged, and the error it calls for at the key path that
leads there. -/
inductive Conflict (f g : View P) : Position → (KeyPath → TableError) → Prop where
  | kind {p : Position} {l m : Label P} (hl : f p = some l) (hm : g p = some m)
      (hne : l.kind ≠ m.kind) :
      Conflict f g p fun path => .inconsistentLeafKind path.display l.kind m.kind .none
  | unique {p : Position} {v w : P} {row row' : Option Nat} (hl : f p = some (.unique v row))
      (hm : g p = some (.unique w row')) :
      Conflict f g p fun path =>
        .uniqueKeyViolation path.display (Payload.display v) (Payload.display w) row row'
  | overlap {p : Position} {i j : Interval} (hl : f p = some .range) (hm : g p = some .range)
      (hi : (f (p ++ [.range i])).isSome) (hj : (g (p ++ [.range j])).isSome) (hne : i ≠ j)
      (hij : i.overlaps j = true) :
      Conflict f g p fun path => .overlappingRange path.display i.display j.display .none

theorem Conflict.not_compatible (hconf : Conflict f g p e) : ¬ Compatible f g := by
  intro hfg
  cases hconf with
  | kind hl hm hne => exact hne (hfg.meets _ _ _ hl hm).kind_eq
  | unique hl hm => exact hfg.meets _ _ _ hl hm
  | overlap _ _ hi hj hne hij =>
      rcases hfg.disjoint _ _ _ hi hj with heq | hij'
      · exact hne heq
      · simp [hij'] at hij

theorem Conflict.of_below (hconf : Conflict (f.below s) (g.below s) p e) :
    Conflict f g (s :: p) e := by
  cases hconf with
  | kind hl hm hne => exact .kind (p := s :: p) hl hm hne
  | unique hl hm => exact .unique (p := s :: p) hl hm
  | overlap hl hm hi hj hne hij => exact .overlap (p := s :: p) hl hm hi hj hne hij

/-- A conflict with a part is a conflict with the whole. -/
theorem Conflict.join_right (hgh : Beside g h) (hconf : Conflict f g p e) :
    Conflict f (g.join h) p e := by
  cases hconf with
  | kind hl hm hne => exact .kind hl ((hgh.join_left (by simp [hm])).trans hm) hne
  | unique hl hm => exact .unique hl ((hgh.join_left (by simp [hm])).trans hm)
  | overlap hl hm hi hj hne hij =>
      refine .overlap hl ((hgh.join_left (by simp [hm])).trans hm) hi ?_ hne hij
      rw [hgh.join_left hj]
      exact hj

/-- Once one part has been merged, a conflict with the other part is a conflict of the whole with
what was there before, since the two parts leave each other alone. -/
theorem Conflict.of_join_left (hgh : Beside g h) (hroot : f [] = g [])
    (hconf : Conflict (f.join g) h p e) : Conflict f (g.join h) p e := by
  obtain ⟨k, hk, hg, hh⟩ := hgh.root
  have hold : ∀ {s q}, (h (s :: q)).isSome → ∀ r, (f.join g) (s :: r) = f (s :: r) := by
    intro s q hq r
    rcases hgh.apart s with hs | hs
    · unfold join
      rw [show g (s :: r) = .none from congrFun hs r, Option.merge_none_right]
    · rw [show h (s :: q) = .none from congrFun hs q] at hq
      cases hq
  have hfroot : (f.join g) [] = some k := by
    unfold join
    rw [hroot, hg]
    exact congrArg some k.join_self
  cases hconf with
  | @kind l m hl hm hne =>
      cases p with
      | nil =>
          obtain rfl : k = l := Option.some.inj (hfroot.symm.trans hl)
          obtain rfl : k = m := Option.some.inj (hh.symm.trans hm)
          exact absurd rfl hne
      | cons s q =>
          rw [hold (q := q) (by simp [hm])] at hl
          exact .kind hl ((hgh.join_right (by simp [hm])).trans hm) hne
  | unique hl hm =>
      cases p with
      | nil =>
          obtain rfl := Option.some.inj (hfroot.symm.trans hl)
          cases hk
      | cons s q =>
          rw [hold (q := q) (by simp [hm])] at hl
          exact .unique hl ((hgh.join_right (by simp [hm])).trans hm)
  | @overlap i j hl hm hi hj hne hij =>
      have hm' := (hgh.join_right (by simp [hm])).trans hm
      have hj' : ((g.join h) (p ++ [.range j])).isSome := by
        rw [hgh.join_right hj]
        exact hj
      cases p with
      | nil =>
          rw [isSome_join, Bool.or_eq_true] at hi
          rcases hi with hi | hi
          · rw [hfroot] at hl
            exact .overlap (hroot.trans (hg.trans hl)) hm' hi hj' hne hij
          · simp [hgh.disjoint i j hi hj] at hij
      | cons s q =>
          rw [hold (q := q) (by simp [hm])] at hl
          rw [List.cons_append, hold (q := q) (by simp [hm])] at hi
          exact .overlap hl hm' hi hj' hne hij

end View

end DecisionTable
