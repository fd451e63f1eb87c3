import DecisionTable.Proofs.Tree.RangeLevel
import DecisionTable.Proofs.Tree.View

/-!
# Sound trees

A tree is sound when its exact levels and payload sets are kept in ascending order, the one form
that a map or a set has, and its range levels hold non-empty, ascending, disjoint intervals.

* `child?`, `at?` : the structure one step down, and at a position;
* `view` : what stands at each position of a tree;
* `Sound` : the invariant, which every structure below a sound tree shares;
* `Orderly` : as much of it as concerns the root alone.
-/

namespace DecisionTable

open Ordered

def ExactLevel.Ascending {α : Type} (level : ExactLevel α) : Prop :=
  Entries.Ascending level.children

namespace Tree

variable {P : Type} {a b c : Tree P} {s : ColumnKey} {p : Position}

/-! ## The view of a tree -/

def label : Tree P → Label P
  | .exact _ => .exact
  | .range _ => .range
  | .unique value row => .unique value row
  | .multi values => .multi {value | value ∈ values}

def child? : Tree P → ColumnKey → Option (Tree P)
  | .exact level, .exact value => level.getExact? value
  | .exact level, .any => level.fallback
  | .range level, .range i => level.getExact? i
  | _, _ => none

def at? (tree : Tree P) : Position → Option (Tree P)
  | [] => some tree
  | s :: p => (tree.child? s).bind (at? · p)

def view (tree : Tree P) : View P := fun p => (tree.at? p).map label

theorem kind_label (a : Tree P) : a.label.kind = a.kind := by
  cases a <;> rfl

theorem view_nil (a : Tree P) : a.view [] = some a.label := rfl

theorem below_view_of_child (h : a.child? s = some c) : a.view.below s = c.view := by
  funext p
  simp [View.below, view, at?, h]

theorem below_view_of_no_child (h : a.child? s = none) : a.view.below s = View.none := by
  funext p
  simp [View.below, view, at?, h, View.none]

theorem view_cons (h : a.child? s = some c) : a.view (s :: p) = c.view p :=
  congrFun (below_view_of_child h) p

/-- A structure without children is all there is to see. -/
theorem view_eq_root (h : ∀ s, a.child? s = none) : a.view = View.root a.label := by
  funext p
  cases p with
  | nil => rfl
  | cons s p => exact congrFun (below_view_of_no_child (h s)) p

theorem isSome_view_singleton (a : Tree P) (s : ColumnKey) :
    (a.view [s]).isSome = (a.child? s).isSome := by
  cases h : a.child? s <;> simp [view, at?, h]

theorem at?_append (a : Tree P) (p q : Position) : a.at? (p ++ q) = (a.at? p).bind (at? · q) := by
  induction p generalizing a with
  | nil => rfl
  | cons s p ih =>
      simp only [List.cons_append, at?]
      cases a.child? s with
      | none => rfl
      | some c => exact ih c

theorem at?_concat (a : Tree P) (p : Position) (s : ColumnKey) :
    a.at? (p ++ [s]) = (a.at? p).bind (child? · s) := by
  have hlast : ∀ c : Tree P, c.at? [s] = c.child? s := fun c => Option.bind_fun_some (c.child? s)
  rw [at?_append, funext hlast]

theorem at?_concat_of_child (hb : a.at? p = some b) (hc : b.child? s = some c) :
    a.at? (p ++ [s]) = some c := by
  rw [at?_concat, hb, Option.bind_some, hc]

theorem view_at (h : a.at? p = some c) (q : Position) : c.view q = a.view (p ++ q) := by
  rw [view, view, at?_append, h, Option.bind_some]

/-! ## Soundness -/

/-- Entries and sets ascend, as those of an ordered map or set do; intervals are not empty, ascend
and are pairwise disjoint. -/
inductive Sound [Ord P] : Tree P → Prop where
  | exact {level : ExactLevel (Tree P)} (ascending : Entries.Ascending level.children)
      (children : ∀ entry ∈ level.children, Sound entry.2)
      (fallback : ∀ child ∈ level.fallback, Sound child) : Sound (.exact level)
  | range {level : RangeLevel (Tree P)} (sound : level.Sound)
      (children : ∀ band ∈ level.bands.toList, Sound band.child) : Sound (.range level)
  | unique (value : P) (row : Option Nat) : Sound (.unique value row)
  | multi {values : List P} (ascending : Distinct.Ascending values) : Sound (.multi values)

/-- The root of a tree is in order: the keys of an exact level ascend, and the bands of a range level
are sound. -/
def Orderly : Tree P → Prop
  | .exact level => level.Ascending
  | .range level => level.Sound
  | .unique .. | .multi _ => True

theorem Sound.orderly [Ord P] (h : a.Sound) : a.Orderly := by
  cases h with
  | exact ascending _ _ => exact ascending
  | range sound _ => exact sound
  | unique | multi => trivial

theorem mem_of_child?_range {level : RangeLevel (Tree P)} {i : Interval}
    (hc : (range level).child? (.range i) = some c) :
    ∃ band ∈ level.bands.toList, band.interval = i ∧ band.child = c := by
  obtain ⟨band, hband, heq⟩ := List.mem_map.mp (Entries.mem_of_lookup hc)
  cases heq
  exact ⟨band, hband, rfl, rfl⟩

variable [Payload P]

theorem Sound.exact_of_children {level : ExactLevel (Tree P)}
    (ascending : Entries.Ascending level.children)
    (h : ∀ s c, (Tree.exact level).child? s = some c → c.Sound) : (Tree.exact level).Sound := by
  refine .exact ascending (fun entry he => ?_) (fun c hc => h .any c hc)
  exact h (.exact entry.1) _ (Entries.lookup_of_mem (Entries.nodup_keys ascending) he)

theorem Sound.range_of_children {level : RangeLevel (Tree P)} (sound : level.Sound)
    (h : ∀ s c, (Tree.range level).child? s = some c → c.Sound) : (Tree.range level).Sound := by
  refine .range sound fun band hband => h (.range band.interval) _ ?_
  refine Entries.lookup_of_mem (level.keys_entries ▸ sound.nodup) ?_
  exact List.mem_map.mpr ⟨band, hband, rfl⟩

theorem Sound.of_range {level : RangeLevel (Tree P)} (h : (Tree.range level).Sound) :
    level.Sound := by
  cases h with
  | range sound _ => exact sound

theorem Sound.of_multi {values : List P} (h : (Tree.multi values).Sound) :
    Distinct.Ascending values := by
  cases h with
  | multi ascending => exact ascending

theorem Sound.child (h : a.Sound) (hc : a.child? s = some c) : c.Sound := by
  cases h with
  | exact _ children fallback =>
      cases s with
      | exact value => exact children _ (Entries.mem_of_lookup hc)
      | any => exact fallback c hc
      | range i => cases hc
  | range _ children =>
      cases s with
      | exact value => cases hc
      | any => cases hc
      | range i =>
          obtain ⟨band, hband, -, rfl⟩ := mem_of_child?_range hc
          exact children band hband
  | unique value row => cases hc
  | multi _ => cases hc

theorem Sound.at (h : a.Sound) (hc : a.at? p = some c) : c.Sound := by
  induction p generalizing a with
  | nil => exact Option.some.inj hc ▸ h
  | cons s p ih =>
      obtain ⟨d, hd, hdc⟩ := Option.bind_eq_some_iff.mp hc
      exact ih (h.child hd) hdc

/-- Induction on a sound tree, from its children to the tree. -/
theorem Sound.induction {motive : ∀ a : Tree P, a.Sound → Prop}
    (step : ∀ a (ha : a.Sound),
      (∀ s c (hc : a.child? s = some c), motive c (ha.child hc)) → motive a ha)
    {a : Tree P} (ha : a.Sound) : motive a ha := by
  induction ha with
  | @exact level ascending children fallback ihc ihf =>
      refine step _ (.exact ascending children fallback) fun s c hc => ?_
      cases s with
      | exact value => exact ihc _ (Entries.mem_of_lookup hc)
      | any => exact ihf c hc
      | range i => cases hc
  | @range level sound children ih =>
      refine step _ (.range sound children) fun s c hc => ?_
      cases s with
      | exact value => cases hc
      | any => cases hc
      | range i =>
          obtain ⟨band, hband, -, rfl⟩ := mem_of_child?_range hc
          exact ih band hband
  | unique value row => exact step _ (.unique value row) fun s c hc => by cases hc
  | multi ascending => exact step _ (.multi ascending) fun s c hc => by cases hc

end Tree

end DecisionTable
