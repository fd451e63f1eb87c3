import DecisionTable.Key.Column
import DecisionTable.Tree.Basic
import DecisionTable.Proofs.Key.Interval
import Mathlib.Data.Set.Insert
import Mathlib.Data.Option.Basic

/-!
# Trees as views

A tree is described by what stands at each of its positions: the kind of the level, or the contents
of the leaf. Such a description is a `View`, a partial function on positions. What merging two trees
does, and when it can be done, is said position by position, so that the order in which a merge
walks through its operands does not show.

* `Position` : the column keys that lead down from the root;
* `View.Compatible`, `View.join` : when two views can be merged, and to what. On compatible views
  the join is commutative and associative, and what is compatible with both parts of a join is
  compatible with the join (`compatible_join_left`), so that a list of views has a join as soon as
  its members are pairwise compatible;
* `View.root`, `View.graft` : a structure without children, and a level with one child.
-/

namespace DecisionTable

/-! ## Positions -/

/-- The way from the root down to a structure. -/
abbrev Position := List ColumnKey

/-! ## What stands at a position -/

inductive Label (P : Type) where
  | exact
  | range
  | unique (value : P) (row : Option Nat)
  | multi (values : Set P)

namespace Label

variable {P : Type} {l m n : Label P}

def kind : Label P → String
  | .exact => "exact node"
  | .range => "range node"
  | .unique .. => "unique result"
  | .multi _ => "multi result"

def IsUnique : Label P → Prop
  | .unique .. => True
  | _ => False

def IsMulti : Label P → Prop
  | .multi _ => True
  | _ => False

def payloads : Label P → Set P
  | .exact | .range => ∅
  | .unique value _ => {value}
  | .multi values => values

/-- The label without the row that a unique leaf came from. -/
def anonymous : Label P → Label P
  | .unique value _ => .unique value none
  | l => l

/-- Whether structures of two labels can be merged, as far as they themselves are concerned. -/
def Meets : Label P → Label P → Prop
  | .exact, .exact | .range, .range | .multi _, .multi _ => True
  | _, _ => False

def join : Label P → Label P → Label P
  | .multi values, .multi values' => .multi (values ∪ values')
  | l, _ => l

theorem Meets.symm (h : l.Meets m) : m.Meets l := by
  cases l <;> cases m <;> trivial

theorem Meets.kind_eq (h : l.Meets m) : l.kind = m.kind := by
  cases l <;> cases m <;> first | rfl | cases h

/-- A unique leaf cannot be merged with anything. -/
theorem Meets.not_isUnique (h : l.Meets m) : ¬ l.IsUnique := by
  intro hunique
  cases l <;> cases hunique
  cases m <;> cases h

theorem Meets.not_isUnique_join (h : l.Meets m) : ¬ (l.join m).IsUnique := by
  intro hunique
  cases l <;> cases m <;> first | exact False.elim h | cases hunique

theorem join_meets (h : l.Meets m) : (l.join m).Meets n ↔ l.Meets n ∧ m.Meets n := by
  cases l <;> cases m <;> cases n <;> simp_all [Meets, join]

theorem join_self (l : Label P) : l.join l = l := by
  cases l <;> simp [join]

theorem join_comm (h : l.Meets m) : l.join m = m.join l := by
  cases l <;> cases m <;> simp_all [Meets, join, Set.union_comm]

theorem join_assoc (hlm : l.Meets m) (hmn : m.Meets n) :
    (l.join m).join n = l.join (m.join n) := by
  cases l <;> cases m <;> cases n <;> simp_all [Meets, join, Set.union_assoc]

theorem join_right_comm (l : Label P) (hmn : m.Meets n) :
    (l.join m).join n = (l.join n).join m := by
  cases l <;> cases m <;> cases n <;> simp_all [Meets, join, Set.union_right_comm]

theorem kind_join (l m : Label P) : (l.join m).kind = l.kind := by
  cases l <;> cases m <;> rfl

theorem payloads_join (h : l.Meets m) : (l.join m).payloads = l.payloads ∪ m.payloads := by
  cases l <;> cases m <;> simp_all [Meets, join, payloads]

theorem anonymous_meets : l.anonymous.Meets m.anonymous ↔ l.Meets m := by
  cases l <;> cases m <;> rfl

theorem anonymous_join (l m : Label P) : (l.join m).anonymous = l.anonymous.join m.anonymous := by
  cases l <;> cases m <;> rfl

/-- Apart from rows, a label is its kind and its payloads. -/
theorem anonymous_eq_iff :
    l.anonymous = m.anonymous ↔ l.kind = m.kind ∧ l.payloads = m.payloads := by
  cases l <;> cases m <;> simp [anonymous, kind, payloads]

end Label

/-! ## Views -/

/-- What stands at each position; nothing stands at a position outside of the tree. -/
abbrev View (P : Type) := Position → Option (Label P)

namespace View

variable {P : Type} {f g h : View P} {s : ColumnKey} {p : Position}

def none : View P := fun _ => .none

def below (f : View P) (s : ColumnKey) : View P := fun p => f (s :: p)

def anonymous (f : View P) : View P := fun p => (f p).map Label.anonymous

/-! ### Joining -/

def join (f g : View P) : View P := fun p => Option.merge Label.join (f p) (g p)

/-- At no position do two structures meet that cannot be merged, and intervals at one position are
identical or disjoint. -/
structure Compatible (f g : View P) : Prop where
  meets : ∀ p l m, f p = some l → g p = some m → l.Meets m
  disjoint : ∀ p i j, (f (p ++ [.range i])).isSome → (g (p ++ [.range j])).isSome →
    i = j ∨ i.overlaps j = false

theorem mem_payloads_join (hfg : Compatible f g) {x : P} :
    (∃ l, f.join g p = some l ∧ x ∈ l.payloads) ↔
      (∃ l, f p = some l ∧ x ∈ l.payloads) ∨ ∃ l, g p = some l ∧ x ∈ l.payloads := by
  unfold join
  cases hl : f p with
  | none => simp
  | some l =>
      cases hm : g p with
      | none => simp
      | some m => simp [Label.payloads_join (hfg.meets p l m hl hm)]

theorem Compatible.below (hfg : Compatible f g) (s : ColumnKey) :
    Compatible (f.below s) (g.below s) where
  meets p := hfg.meets (s :: p)
  disjoint p := hfg.disjoint (s :: p)

theorem isSome_join (f g : View P) (p : Position) :
    ((f.join g) p).isSome = ((f p).isSome || (g p).isSome) := by
  unfold join
  cases f p <;> cases g p <;> rfl

theorem none_join (f : View P) : none.join f = f := by
  funext p
  unfold join none
  cases f p <;> rfl

theorem join_none (f : View P) : f.join none = f := by
  funext p
  exact Option.merge_none_right

theorem Compatible.symm (hfg : Compatible f g) : Compatible g f where
  meets p l m hl hm := (hfg.meets p m l hm hl).symm
  disjoint p i j hi hj := by
    rcases hfg.disjoint p j i hj hi with rfl | hij
    · exact Or.inl rfl
    · exact Or.inr (Interval.overlaps_comm i j ▸ hij)

instance : Std.Symm (Compatible : View P → View P → Prop) := ⟨fun _ _ => Compatible.symm⟩

theorem compatible_none (f : View P) : Compatible f none where
  meets _ _ _ _ hm := by cases hm
  disjoint _ _ _ _ hj := by cases hj

theorem join_comm (hfg : Compatible f g) : f.join g = g.join f := by
  funext p
  unfold join
  cases hl : f p with
  | none => cases g p <;> rfl
  | some l =>
      cases hm : g p with
      | none => rfl
      | some m => exact congrArg some (Label.join_comm (hfg.meets p l m hl hm))

theorem join_assoc (hfg : Compatible f g) (hgh : Compatible g h) :
    (f.join g).join h = f.join (g.join h) := by
  funext p
  unfold join
  cases hl : f p with
  | none => cases g p <;> cases h p <;> rfl
  | some l =>
      cases hm : g p with
      | none => cases h p <;> rfl
      | some m =>
          cases hn : h p with
          | none => rfl
          | some n =>
              exact congrArg some
                (Label.join_assoc (hfg.meets p l m hl hm) (hgh.meets p m n hm hn))

/-- What can be merged with a join is what can be merged with both of its parts. -/
theorem compatible_join_left (hfg : Compatible f g) :
    Compatible (f.join g) h ↔ Compatible f h ∧ Compatible g h := by
  constructor
  · intro hjoin
    refine ⟨⟨fun p l n hl hn => ?_, fun p i j hi hj => ?_⟩,
      ⟨fun p m n hm hn => ?_, fun p i j hi hj => ?_⟩⟩
    · cases hm : g p with
      | none => exact hjoin.meets p l n (by simp [join, hl, hm]) hn
      | some m =>
          exact ((Label.join_meets (hfg.meets p l m hl hm)).mp
            (hjoin.meets p _ n (by simp [join, hl, hm]) hn)).1
    · exact hjoin.disjoint p i j (by simp [isSome_join, hi]) hj
    · cases hl : f p with
      | none => exact hjoin.meets p m n (by simp [join, hl, hm]) hn
      | some l =>
          exact ((Label.join_meets (hfg.meets p l m hl hm)).mp
            (hjoin.meets p _ n (by simp [join, hl, hm]) hn)).2
    · exact hjoin.disjoint p i j (by simp [isSome_join, hi]) hj
  · rintro ⟨hf, hg⟩
    refine ⟨fun p k n hk hn => ?_, fun p i j hi hj => ?_⟩
    · unfold join at hk
      cases hl : f p with
      | none =>
          rw [hl, Option.merge_none_left] at hk
          exact hg.meets p k n hk hn
      | some l =>
          cases hm : g p with
          | none =>
              rw [hl, hm, Option.merge_none_right] at hk
              exact hf.meets p k n (hl.trans hk) hn
          | some m =>
              rw [hl, hm] at hk
              obtain rfl : l.join m = k := Option.some.inj hk
              exact (Label.join_meets (hfg.meets p l m hl hm)).mpr
                ⟨hf.meets p l n hl hn, hg.meets p m n hm hn⟩
    · rw [isSome_join, Bool.or_eq_true] at hi
      rcases hi with hi | hi
      · exact hf.disjoint p i j hi hj
      · exact hg.disjoint p i j hi hj

theorem compatible_join_right (hgh : Compatible g h) :
    Compatible f (g.join h) ↔ Compatible f g ∧ Compatible f h := by
  constructor
  · intro hjoin
    obtain ⟨hg, hh⟩ := (compatible_join_left hgh).mp hjoin.symm
    exact ⟨hg.symm, hh.symm⟩
  · rintro ⟨hg, hh⟩
    exact ((compatible_join_left hgh).mpr ⟨hg.symm, hh.symm⟩).symm

/-! ### Rows do not matter -/

theorem isSome_anonymous (f : View P) (p : Position) : (f.anonymous p).isSome = (f p).isSome :=
  Option.isSome_map

theorem compatible_anonymous : Compatible f.anonymous g.anonymous ↔ Compatible f g := by
  constructor
  · intro h
    refine ⟨fun p l m hl hm => ?_, fun p i j hi hj => h.disjoint p i j ?_ ?_⟩
    · apply Label.anonymous_meets.mp
      apply h.meets p
      · rw [anonymous, hl, Option.map_some]
      · rw [anonymous, hm, Option.map_some]
    · rwa [isSome_anonymous]
    · rwa [isSome_anonymous]
  · intro h
    refine ⟨fun p l' m' hl hm => ?_, fun p i j hi hj => h.disjoint p i j ?_ ?_⟩
    · obtain ⟨l, hfp, rfl⟩ := Option.map_eq_some_iff.mp hl
      obtain ⟨m, hgp, rfl⟩ := Option.map_eq_some_iff.mp hm
      exact Label.anonymous_meets.mpr (h.meets p l m hfp hgp)
    · rwa [isSome_anonymous] at hi
    · rwa [isSome_anonymous] at hj

theorem anonymous_join (f g : View P) : (f.join g).anonymous = f.anonymous.join g.anonymous := by
  funext p
  cases hl : f p <;> cases hm : g p <;> simp [anonymous, join, hl, hm, Label.anonymous_join]

/-! ### Grafting -/

def root (l : Label P) : View P
  | [] => some l
  | _ :: _ => .none

theorem compatible_root {l m : Label P} (hroot : f [] = some l) (hlm : l.Meets m) :
    Compatible f (root m) where
  meets p k n hk hn := by
    cases p with
    | nil =>
        obtain rfl : l = k := Option.some.inj (hroot.symm.trans hk)
        obtain rfl : m = n := Option.some.inj hn
        exact hlm
    | cons s p => cases hn
  disjoint p i j _ hj := by
    cases p with
    | nil => cases hj
    | cons s p => cases hj

theorem join_root {l : Label P} (hroot : f [] = some l) : f.join (root l) = f := by
  funext p
  cases p with
  | nil =>
      unfold join
      rw [hroot]
      exact congrArg some l.join_self
  | cons s p => exact Option.merge_none_right

def graft (l : Label P) (s : ColumnKey) (f : View P) : View P
  | [] => some l
  | t :: p => if t = s then f p else .none

theorem root_join_graft (l : Label P) (s : ColumnKey) (f : View P) :
    (root l).join (graft l s f) = graft l s f := by
  funext p
  cases p with
  | nil => exact congrArg some l.join_self
  | cons t p => exact Option.merge_none_left

theorem below_graft (l : Label P) (s : ColumnKey) (f : View P) : (graft l s f).below s = f := by
  funext p
  exact if_pos rfl

theorem below_graft_of_ne (l : Label P) {s t : ColumnKey} (f : View P) (hne : t ≠ s) :
    (graft l s f).below t = none := by
  funext p
  exact if_neg hne

/-- A view merges with a graft when the roots do, the intervals leave each other alone, and the part
of the view below the step merges with the grafted one. -/
theorem compatible_graft {l m : Label P} (hroot : f [] = some l) (hlm : l.Meets m)
    (hdisjoint : ∀ i j, (f [.range i]).isSome → s = .range j → i = j ∨ i.overlaps j = false)
    (hbelow : Compatible (f.below s) g) : Compatible f (graft m s g) where
  meets p k n hk hn := by
    cases p with
    | nil =>
        obtain rfl : l = k := Option.some.inj (hroot.symm.trans hk)
        obtain rfl : m = n := Option.some.inj hn
        exact hlm
    | cons t p =>
        by_cases ht : t = s
        · subst ht
          exact hbelow.meets p k n hk ((if_pos rfl).symm.trans hn)
        · cases (if_neg ht).symm.trans hn
  disjoint p i j hi hj := by
    cases p with
    | nil =>
        by_cases hs : .range j = s
        · exact hdisjoint i j hi hs.symm
        · simp [graft, hs] at hj
    | cons t p =>
        by_cases ht : t = s
        · subst ht
          exact hbelow.disjoint p i j hi (by simpa [graft] using hj)
        · simp [graft, ht] at hj

end View

end DecisionTable
