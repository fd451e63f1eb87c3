import DecisionTable.Tree.Shape
import DecisionTable.Proofs.Tree.Sound
import Mathlib.Algebra.BigOperators.Ring.Finset
import Mathlib.Data.Set.Card

/-!
# Counting positions

The counts in the shape of a sound tree are numbers of positions: those at which a structure of some
kind stands, or those that some kind of step leads to. Each position is counted once, because the
steps that lead on from a structure are distinct.

* `steps` : the structures one step down, with the steps that lead there;
* `own`, `shape_eq`, `depth_of_steps` : the shape of a structure is its own one beside those below;
* `Shape.Additive` : counts that add up over structures side by side;
* `encard_places`, `encard_reached` : such a count as a number of positions.
-/

namespace DecisionTable

open Ordered

namespace Shape

/-- Counts that add up over structures side by side and do not depend on depths. -/
structure Additive (count : Shape → Nat) : Prop where
  beside : ∀ a b, count (a.beside b) = count a + count b
  depth : ∀ a depth, count { a with depth } = count a

theorem Additive.nothing {count : Shape → Nat} (h : Additive count) : count {} = 0 := by
  have hself : count {} = count {} + count {} := h.beside {} {}
  omega

theorem beside_assoc (a b c : Shape) : (a.beside b).beside c = a.beside (b.beside c) := by
  simp only [beside, Nat.add_assoc, Nat.max_assoc]

theorem nothing_beside (a : Shape) : Shape.beside {} a = a := by
  simp [beside]

end Shape

namespace Tree

variable {P : Type} {a c : Tree P} {s : ColumnKey} {p : Position}

/-! ## One level at a time -/

def steps : Tree P → List (ColumnKey × Tree P)
  | .exact level =>
    level.children.map (fun entry => (.exact entry.1, entry.2)) ++
      level.fallback.toList.map fun child => (.any, child)
  | .range level => level.entries.map fun entry => (.range entry.1, entry.2)
  | .unique .. | .multi _ => []

def own : Tree P → Shape
  | .exact level => { exactLevels := 1, fallbacks := level.fallback.toList.length }
  | .range level => { rangeLevels := 1, bands := level.size }
  | .unique .. => { uniqueLeaves := 1 }
  | .multi _ => { multiLeaves := 1 }

def besideAll (steps : List (ColumnKey × Tree P)) : Shape :=
  steps.foldr (fun entry shape => (shapeBelow entry.2).beside shape) {}

theorem besideAll_cons (e : ColumnKey × Tree P) (es : List (ColumnKey × Tree P)) :
    besideAll (e :: es) = (shapeBelow e.2).beside (besideAll es) := rfl

theorem besideAll_append (es es' : List (ColumnKey × Tree P)) :
    besideAll (es ++ es') = (besideAll es).beside (besideAll es') := by
  induction es with
  | nil => exact (Shape.nothing_beside _).symm
  | cons e es ih => rw [List.cons_append, besideAll_cons, besideAll_cons, ih, Shape.beside_assoc]

theorem shapeOfChildren_eq (children : List (KeyValue × Tree P)) : shapeOfChildren children =
    besideAll (children.map fun entry => (.exact entry.1, entry.2)) := by
  induction children with
  | nil =>
      rw [shapeOfChildren]
      rfl
  | cons entry rest ih => rw [shapeOfChildren, ih, List.map_cons, besideAll_cons]

theorem shapeOfBands_eq (bands : List (Band (Tree P))) : shapeOfBands bands =
    besideAll (bands.map fun band => (.range band.interval, band.child)) := by
  induction bands with
  | nil =>
      rw [shapeOfBands]
      rfl
  | cons band rest ih => rw [shapeOfBands, ih, List.map_cons, besideAll_cons]

/-- The shape of a tree is that of its root beside those one step down. -/
theorem shape_eq (a : Tree P) : a.shape = a.own.beside (besideAll a.steps) := by
  cases a with
  | exact level =>
      obtain ⟨children, fallback⟩ := level
      rw [steps, besideAll_append, ← shapeOfChildren_eq]
      cases fallback with
      | none =>
          rw [shape]
          simp [own, besideAll, Shape.beside, Nat.add_comm]
      | some c =>
          rw [shape]
          simp [own, besideAll, Shape.beside, Nat.add_comm]
  | range level =>
      obtain ⟨⟨bands⟩⟩ := level
      rw [steps, RangeLevel.entries, List.map_map, shape, shapeOfBands_eq]
      simp [own, RangeLevel.size, Shape.beside, Nat.add_comm, Function.comp_def]
  | unique value row =>
      rw [shape]
      rfl
  | multi values =>
      rw [shape]
      rfl

theorem count_shape {count : Shape → Nat} (h : Shape.Additive count) (a : Tree P) :
    count a.shape = count a.own + (a.steps.map fun entry => count entry.2.shape).sum := by
  have hbelow : ∀ es : List (ColumnKey × Tree P),
      count (besideAll es) = (es.map fun entry => count entry.2.shape).sum := by
    intro es
    induction es with
    | nil => exact h.nothing
    | cons e es ih =>
        rw [besideAll_cons, h.beside, ih, shapeBelow, h.depth, List.map_cons, List.sum_cons]
  rw [shape_eq, h.beside, hbelow]

/-- Above structures that are equally deep, the depth is one more. -/
theorem depth_besideAll {es : List (ColumnKey × Tree P)} {n : Nat} (hne : es ≠ [])
    (h : ∀ entry ∈ es, entry.2.shape.depth = n) : (besideAll es).depth = n + 1 := by
  induction es with
  | nil => exact absurd rfl hne
  | cons e es ih =>
      obtain ⟨he, hes⟩ := List.forall_mem_cons.mp h
      have hdepth : (besideAll (e :: es)).depth =
          max (e.2.shape.depth + 1) (besideAll es).depth := by
        rw [besideAll_cons, shapeBelow]
        rfl
      rw [hdepth, he]
      cases es with
      | nil => rfl
      | cons e' es => rw [ih (List.cons_ne_nil _ _) hes, Nat.max_self]

/-- A structure is one level deeper than those one step down, if these are equally deep. -/
theorem depth_of_steps {n : Nat} (hne : a.steps ≠ [])
    (h : ∀ entry ∈ a.steps, entry.2.shape.depth = n) : a.shape.depth = n + 1 := by
  have hown : a.own.depth = 0 := by
    cases a <;> rfl
  have hbeside : (a.own.beside (besideAll a.steps)).depth =
      max a.own.depth (besideAll a.steps).depth := rfl
  rw [shape_eq, hbeside, hown, depth_besideAll hne h, Nat.zero_max]

/-! ## All positions -/

section Positions

variable [Payload P]

theorem mem_steps_iff (ha : a.Sound) : (s, c) ∈ a.steps ↔ a.child? s = some c := by
  cases ha with
  | @exact level ascending _ _ =>
      have hget : ∀ key c, level.getExact? key = some c ↔ (key, c) ∈ level.children :=
        fun key c => ⟨Entries.mem_of_lookup, Entries.lookup_of_mem (Entries.nodup_keys ascending)⟩
      cases s with
      | exact key => simp [steps, child?, hget]
      | any => simp [steps, child?]
      | range i => simp [steps, child?]
  | @range level sound _ =>
      have hget : ∀ i c, level.getExact? i = some c ↔ (i, c) ∈ level.entries :=
        fun i c => (RangeLevel.getExact?_eq_some_iff sound).trans RangeLevel.mem_entries_iff.symm
      cases s with
      | range i => simp [steps, child?, hget]
      | exact | any => simp [steps, child?]
  | unique value row => simp [steps, child?]
  | multi _ => simp [steps, child?]

/-- No step leads on twice. -/
theorem nodup_steps (ha : a.Sound) : (a.steps.map Prod.fst).Nodup := by
  cases ha with
  | @exact level ascending _ _ =>
      have hsteps : (exact level).steps.map Prod.fst =
          (level.children.map Prod.fst).map ColumnKey.exact ++
            level.fallback.toList.map fun _ => .any := by
        simp [steps, Function.comp_def]
      have hkeys : ((level.children.map Prod.fst).map ColumnKey.exact).Nodup :=
        (Entries.nodup_keys ascending).map fun _ _ => ColumnKey.exact.inj
      rw [hsteps]
      cases level.fallback with
      | none => simpa using hkeys
      | some c =>
          refine List.nodup_append.mpr ⟨hkeys, List.nodup_singleton _, fun s hs t ht => ?_⟩
          obtain ⟨key, -, rfl⟩ := List.mem_map.mp hs
          simp [List.mem_singleton.mp ht]
  | @range level sound _ =>
      have hsteps : (range level).steps.map Prod.fst = level.intervals.map ColumnKey.range := by
        rw [← RangeLevel.keys_entries]
        simp [steps, Function.comp_def]
      rw [hsteps]
      exact sound.nodup.map fun _ _ => ColumnKey.range.inj
  | unique | multi => exact List.nodup_nil

omit [Payload P] in
/-- Sets of positions below distinct steps add up. -/
theorem encard_below {es : List (ColumnKey × Tree P)} (hnodup : (es.map Prod.fst).Nodup)
    (T : Set Position) : {p | ∃ entry ∈ es, ∃ q, p = entry.1 :: q ∧ p ∈ T}.encard =
      (es.map fun entry => {q | entry.1 :: q ∈ T}.encard).sum := by
  induction es with
  | nil => simp
  | cons e es ih =>
      obtain ⟨hnot, hrest⟩ := List.nodup_cons.mp hnodup
      have hunion : {p | ∃ entry ∈ e :: es, ∃ q, p = entry.1 :: q ∧ p ∈ T} =
          (e.1 :: ·) '' {q | e.1 :: q ∈ T} ∪
            {p | ∃ entry ∈ es, ∃ q, p = entry.1 :: q ∧ p ∈ T} := by
        ext p
        simp only [Set.mem_ofPred_eq, Set.mem_union, Set.mem_image, List.mem_cons, or_and_right,
          exists_or, exists_eq_left]
        refine or_congr_left ⟨?_, ?_⟩
        · rintro ⟨q, rfl, hp⟩
          exact ⟨q, hp, rfl⟩
        · rintro ⟨q, hp, rfl⟩
          exact ⟨q, rfl, hp⟩
      rw [hunion, Set.encard_union_eq, (List.cons_injective).encard_image, ih hrest,
        List.map_cons, List.sum_cons]
      rw [Set.disjoint_left]
      rintro _ ⟨q, -, rfl⟩ ⟨entry, hentry, q', heq, -⟩
      exact hnot ((List.cons.inj heq).1 ▸ List.mem_map_of_mem hentry)

/-- A set of positions of a tree consists of the root, if it is in there, and of what is in there
below each step. -/
theorem encard_eq_sum (ha : a.Sound) {T : Set Position} (hT : ∀ p ∈ T, (a.view p).isSome) :
    T.encard = (T ∩ {[]}).encard +
      (a.steps.map fun entry => {q | entry.1 :: q ∈ T}.encard).sum := by
  have hunion : T = T ∩ {[]} ∪ {p | ∃ entry ∈ a.steps, ∃ q, p = entry.1 :: q ∧ p ∈ T} := by
    ext p
    constructor
    · intro hp
      cases p with
      | nil => exact Or.inl ⟨hp, rfl⟩
      | cons s q =>
          cases hc : a.child? s with
          | none =>
              have hsome := hT _ hp
              rw [show a.view (s :: q) = none from congrFun (below_view_of_no_child hc) q] at hsome
              cases hsome
          | some c => exact Or.inr ⟨(s, c), (mem_steps_iff ha).mpr hc, q, rfl, hp⟩
    · rintro (⟨hp, -⟩ | ⟨_, -, _, -, hp⟩) <;> exact hp
  conv_lhs => rw [hunion]
  rw [Set.encard_union_eq, encard_below (nodup_steps ha)]
  rw [Set.disjoint_left]
  rintro _ ⟨-, rfl⟩ ⟨entry, -, q, heq, -⟩
  cases heq

/-- The positions at which a structure of some sort stands. -/
def places (a : Tree P) (K : Label P → Prop) : Set Position := {p | ∃ l, a.view p = some l ∧ K l}

def reached (a : Tree P) (K : ColumnKey → Prop) : Set Position :=
  {p | (a.view p).isSome ∧ ∃ s ∈ p.getLast?, K s}

variable {count : Shape → Nat}

/-- A count of structures of some sort is the number of their positions. -/
theorem encard_places (hcount : Shape.Additive count) {K : Label P → Prop}
    (hown : ∀ a : Tree P, K a.label ∧ count a.own = 1 ∨ ¬ K a.label ∧ count a.own = 0)
    (ha : a.Sound) : (a.places K).encard = count a.shape := by
  induction ha using Sound.induction with
  | step a ha ih =>
      have hroot : (a.places K ∩ {[]}).encard = count a.own := by
        have hmem : [] ∈ a.places K ↔ K a.label := by simp [places, view_nil]
        rcases hown a with ⟨hK, hone⟩ | ⟨hK, hzero⟩
        · rw [Set.inter_eq_right.mpr (Set.singleton_subset_iff.mpr (hmem.mpr hK)), hone,
            Set.encard_singleton, Nat.cast_one]
        · rw [Set.inter_singleton_eq_empty.mpr (mt hmem.mp hK), hzero, Set.encard_empty,
            Nat.cast_zero]
      have hbelow : (a.steps.map fun entry => {q | entry.1 :: q ∈ a.places K}.encard) =
          (a.steps.map fun entry => count entry.2.shape).map Nat.cast := by
        rw [List.map_map]
        refine List.map_congr_left fun ⟨s, c⟩ hc => ?_
        rw [mem_steps_iff ha] at hc
        have hset : {q | s :: q ∈ a.places K} = c.places K := by
          ext q
          simp only [places, Set.mem_ofPred_eq, view_cons hc]
        exact hset ▸ ih s c hc
      have hsome : ∀ p ∈ a.places K, (a.view p).isSome := by
        rintro p ⟨l, hl, -⟩
        rw [hl]
        rfl
      rw [encard_eq_sum ha hsome, hroot, hbelow, count_shape hcount, Nat.cast_add,
        Nat.cast_list_sum]

/-- A count of steps of some sort is the number of the positions they lead to. -/
theorem encard_reached (hcount : Shape.Additive count) {K : ColumnKey → Prop} [DecidablePred K]
    (hown : ∀ a : Tree P,
      count a.own = (a.steps.map fun entry => if K entry.1 then 1 else 0).sum)
    (ha : a.Sound) : (a.reached K).encard = count a.shape := by
  induction ha using Sound.induction with
  | step a ha ih =>
      have hroot : a.reached K ∩ {[]} = ∅ := by
        refine Set.inter_singleton_eq_empty.mpr ?_
        rintro ⟨-, s, hs, -⟩
        cases hs
      have hbelow : ∀ s c, a.child? s = some c → {q | s :: q ∈ a.reached K}.encard =
          ((if K s then 1 else 0) + count c.shape : Nat) := by
        intro s c hc
        have hset : {q | s :: q ∈ a.reached K} = {q | q = [] ∧ K s} ∪ c.reached K := by
          ext q
          cases q with
          | nil => simp [reached, view_cons hc, view_nil]
          | cons t q => simp [reached, view_cons hc]
        have hend : {q : Position | q = [] ∧ K s}.encard = (if K s then 1 else 0 : Nat) := by
          split
          · next hK => simp [hK]
          · next hK => simp [hK]
        rw [hset, Set.encard_union_eq, hend, ih s c hc, Nat.cast_add]
        rw [Set.disjoint_left]
        rintro _ ⟨rfl, -⟩ ⟨-, t, ht, -⟩
        cases ht
      have hsum : (a.steps.map fun entry => {q | entry.1 :: q ∈ a.reached K}.encard) =
          (a.steps.map fun entry => (if K entry.1 then 1 else 0) + count entry.2.shape).map
            Nat.cast := by
        rw [List.map_map]
        exact List.map_congr_left fun ⟨s, c⟩ hc => hbelow s c ((mem_steps_iff ha).mp hc)
      rw [encard_eq_sum ha fun _ hp => hp.1, hroot, hsum, ← Nat.cast_list_sum, List.sum_map_add,
        ← hown, ← count_shape hcount, Set.encard_empty, zero_add]

/-! ## The counts of a shape -/

theorem encard_exactLevels (ha : a.Sound) :
    (a.places (· = .exact)).encard = a.shape.exactLevels :=
  encard_places ⟨fun _ _ => rfl, fun _ _ => rfl⟩ (fun a => by cases a <;> simp [label, own]) ha

theorem encard_rangeLevels (ha : a.Sound) :
    (a.places (· = .range)).encard = a.shape.rangeLevels :=
  encard_places ⟨fun _ _ => rfl, fun _ _ => rfl⟩ (fun a => by cases a <;> simp [label, own]) ha

theorem encard_uniqueLeaves (ha : a.Sound) :
    (a.places Label.IsUnique).encard = a.shape.uniqueLeaves :=
  encard_places ⟨fun _ _ => rfl, fun _ _ => rfl⟩
    (fun a => by cases a <;> simp [label, own, Label.IsUnique]) ha

theorem encard_multiLeaves (ha : a.Sound) :
    (a.places Label.IsMulti).encard = a.shape.multiLeaves :=
  encard_places ⟨fun _ _ => rfl, fun _ _ => rfl⟩
    (fun a => by cases a <;> simp [label, own, Label.IsMulti]) ha

theorem encard_bands (ha : a.Sound) :
    (a.reached fun s => ∃ i, s = .range i).encard = a.shape.bands := by
  classical
  refine encard_reached ⟨fun _ _ => rfl, fun _ _ => rfl⟩ (fun a => ?_) ha
  cases a with
  | exact level => simp [own, steps, Function.comp_def]
  | range level => simp [own, steps, RangeLevel.size, RangeLevel.entries, Function.comp_def]
  | unique | multi => rfl

theorem encard_fallbacks (ha : a.Sound) : (a.reached (· = .any)).encard = a.shape.fallbacks := by
  refine encard_reached ⟨fun _ _ => rfl, fun _ _ => rfl⟩ (fun a => ?_) ha
  cases a with
  | exact level => simp [own, steps, Function.comp_def]
  | range level => simp [own, steps, Function.comp_def]
  | unique | multi => rfl

end Positions

end Tree

end DecisionTable
