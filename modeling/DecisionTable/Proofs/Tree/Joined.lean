import DecisionTable.Proofs.Tree.Clash
import DecisionTable.Proofs.Tree.Congruence
import DecisionTable.Proofs.Tree.MergeLaws
import DecisionTable.Proofs.Tree.Payloads
import DecisionTable.Proofs.Tree.Shape

/-!
# What a merged tree holds

A merged tree has at each key, and at each interval, what its operands have there: the structure of
the one that has any, or what the two of them merge to. So nothing is lost on the way, nothing is
added, and a key that leads somewhere in an operand leads there in the merged tree.

* `Joined` : what is there in either of two places, and what becomes of two;
* `joined_child?` : the structures one step down;
* `joined_find?` : the bands that hold a value;
* `Merges.values`, `Merges.uniqueLeaves` : the payloads and the unique leaves;
* `Lookup.Joins.descendAll` : what any number of keys lead to, where there are no fallbacks;
* `merge_joins` : all of it together.
-/

namespace DecisionTable

open Ordered

/-- What is there in the first place, in the second, and in the two places joined. What is there in
one of them only is kept, and two things are joined by a relation. -/
inductive Joined {α : Type} (R : α → α → α → Prop) : Option α → Option α → Option α → Prop where
  | none : Joined R none none none
  | left (x : α) : Joined R (some x) none (some x)
  | right (y : α) : Joined R none (some y) (some y)
  | both {x y z : α} (h : R x y z) : Joined R (some x) (some y) (some z)

namespace Joined

variable {α β : Type} {R : α → α → α → Prop} {S : β → β → β → Prop} {x y z : Option α}

theorem map (h : Joined R x y z) {f : α → β} (hf : ∀ x y z, R x y z → S (f x) (f y) (f z)) :
    Joined S (x.map f) (y.map f) (z.map f) := by
  cases h with
  | none => exact .none
  | left x => exact .left _
  | right y => exact .right _
  | both h => exact .both (hf _ _ _ h)

theorem imp_of_eq_some {T : α → α → α → Prop} (h : Joined R x y z)
    (hT : ∀ a b c, x = some a → y = some b → R a b c → T a b c) : Joined T x y z := by
  cases h with
  | none => exact .none
  | left x => exact .left x
  | right y => exact .right y
  | both h => exact .both (hT _ _ _ rfl rfl h)

theorem keep_left (x : Option α) : Joined R x .none x := by
  cases x with
  | none => exact .none
  | some x => exact .left x

theorem keep_right (y : Option α) : Joined R .none y y := by
  cases y with
  | none => exact .none
  | some y => exact .right y

theorem eq_none (h : Joined R .none .none z) : z = .none := by
  cases h
  rfl

theorem isSome_iff (h : Joined R x y z) : z.isSome ↔ x.isSome ∨ y.isSome := by
  cases h <;> simp

end Joined

namespace Tree

open View (Compatible)

variable {P : Type} [Payload P] {a b c : Tree P} {s : ColumnKey}

/-- The first tree, with the second merged into it, is the third. -/
def Merges (a b c : Tree P) : Prop := a.merged b = .ok c

/-! ## One step down -/

/-- The merged tree is sound, and shows as both of its operands at once. -/
theorem Merges.view (ha : a.Sound) (hb : b.Sound) (h : Merges a b c) :
    Compatible a.view b.view ∧ c.Sound ∧ c.view = a.view.join b.view := by
  have hgives := merged_gives ha hb
  rw [show a.merged b = .ok c from h] at hgives
  cases hgives with
  | ok compatible sound view => exact ⟨compatible, sound, view⟩

theorem Merges.label (ha : a.Sound) (hb : b.Sound) (h : Merges a b c) :
    a.label.Meets b.label ∧ c.label = a.label.join b.label := by
  obtain ⟨hcompat, -, hview⟩ := h.view ha hb
  exact ⟨hcompat.meets [] _ _ rfl rfl, Option.some.inj (congrFun hview [])⟩

omit [Payload P] in
theorem child?_eq_none_of_view (h : c.view.below s = View.none) : c.child? s = none := by
  cases hd : c.child? s with
  | none => rfl
  | some d =>
      rw [below_view_of_child hd] at h
      cases congrFun h []

/-- A sound structure that shows below a step is the one that stands there. -/
theorem child?_eq_some_of_view {d : Tree P} (hc : c.Sound) (hd : d.Sound)
    (h : c.view.below s = d.view) : c.child? s = some d := by
  cases hchild : c.child? s with
  | none =>
      rw [below_view_of_no_child hchild] at h
      cases congrFun h []
  | some e =>
      rw [below_view_of_child hchild] at h
      rw [eq_of_view (hc.child hchild) hd h]

/-- One step down stands what stands there in one of the operands, or what the structures there
merge to. -/
theorem joined_child? (ha : a.Sound) (hb : b.Sound) (h : Merges a b c) (s : ColumnKey) :
    Joined Merges (a.child? s) (b.child? s) (c.child? s) := by
  obtain ⟨hcompat, hc, hview⟩ := h.view ha hb
  have hbelow : c.view.below s = (a.view.below s).join (b.view.below s) :=
    congrArg (View.below · s) hview
  have hcompat := hcompat.below s
  cases hx : a.child? s with
  | none =>
      rw [below_view_of_no_child hx, View.none_join] at hbelow
      cases hy : b.child? s with
      | none =>
          rw [below_view_of_no_child hy] at hbelow
          rw [child?_eq_none_of_view hbelow]
          exact .none
      | some y =>
          rw [below_view_of_child hy] at hbelow
          rw [child?_eq_some_of_view hc (hb.child hy) hbelow]
          exact .right y
  | some x =>
      rw [below_view_of_child hx] at hbelow hcompat
      cases hy : b.child? s with
      | none =>
          rw [below_view_of_no_child hy, View.join_none] at hbelow
          rw [child?_eq_some_of_view hc (ha.child hx) hbelow]
          exact .left x
      | some y =>
          rw [below_view_of_child hy] at hbelow hcompat
          obtain ⟨z, hz, hsound, hzview⟩ :=
            (merged_gives (ha.child hx) (hb.child hy)).exists_ok hcompat
          rw [child?_eq_some_of_view hc hsound (hbelow.trans hzview.symm)]
          exact .both hz

/-! ## Levels at the root -/

/-- The children of merged exact levels are joined key by key, and so are the fallbacks. -/
theorem Merges.exact {level level' : ExactLevel (Tree P)} (ha : (exact level).Sound)
    (hb : (exact level').Sound) (h : Merges (exact level) (exact level') c) :
    ∃ joined, c = .exact joined ∧
      (∀ key, Joined Merges (level.getExact? key) (level'.getExact? key)
        (joined.getExact? key)) ∧
      Joined Merges level.fallback level'.fallback joined.fallback := by
  have hlabel := (h.label ha hb).2
  cases c with
  | exact joined =>
      have hchild := joined_child? ha hb h
      exact ⟨joined, rfl, fun key => hchild (.exact key), hchild .any⟩
  | range | unique | multi => cases hlabel

def BandsMerge (x y z : Band (Tree P)) : Prop :=
  x.interval = y.interval ∧ z.interval = x.interval ∧ Merges x.child y.child z.child

/-- The band that holds a value in merged range levels is joined from those of the operands. -/
theorem joined_find? {level level' joined : RangeLevel (Tree P)} (ha : (range level).Sound)
    (hb : (range level').Sound) (h : Merges (range level) (range level') (range joined))
    (value : KeyValue) :
    Joined BandsMerge (level.find? value) (level'.find? value) (joined.find? value) := by
  have hc : joined.Sound := (h.view ha hb).2.1.of_range
  have hget : ∀ i, Joined Merges (level.getExact? i) (level'.getExact? i) (joined.getExact? i) :=
    fun i => joined_child? ha hb h (.range i)
  have hleft : ∀ i, (level.getExact? i).isSome → (joined.getExact? i).isSome :=
    fun i hi => (hget i).isSome_iff.mpr (Or.inl hi)
  have hright : ∀ i, (level'.getExact? i).isSome → (joined.getExact? i).isSome :=
    fun i hi => (hget i).isSome_iff.mpr (Or.inr hi)
  by_cases hex : ∃ i, (joined.getExact? i).isSome ∧ i.contains value = true
  · obtain ⟨i, hsome, hi⟩ := hex
    have honly : ∀ j, (joined.getExact? j).isSome → j.contains value = true → j = i := by
      intro j hj hvalue
      rcases hc.eq_or_disjoint (RangeLevel.mem_intervals_iff.mpr hj)
        (RangeLevel.mem_intervals_iff.mpr hsome) with hji | hdisjoint
      · exact hji
      · simp [Interval.overlaps_of_contains hvalue hi] at hdisjoint
    rw [RangeLevel.find?_eq_map ha.of_range hi fun j hj => honly j (hleft j hj),
      RangeLevel.find?_eq_map hb.of_range hi fun j hj => honly j (hright j hj),
      RangeLevel.find?_eq_map hc hi honly]
    exact (hget i).map fun x y z hxyz => ⟨rfl, rfl, hxyz⟩
  · have hnone : ∀ j, (joined.getExact? j).isSome → j.contains value = false := by
      simpa using hex
    rw [RangeLevel.find?_eq_none ha.of_range fun j hj => hnone j (hleft j hj),
      RangeLevel.find?_eq_none hb.of_range fun j hj => hnone j (hright j hj),
      RangeLevel.find?_eq_none hc hnone]
    exact .none

theorem Merges.range {level level' : RangeLevel (Tree P)} (ha : (range level).Sound)
    (hb : (range level').Sound) (h : Merges (range level) (range level') c) :
    ∃ joined, c = .range joined ∧
      ∀ value, Joined BandsMerge (level.find? value) (level'.find? value)
        (joined.find? value) := by
  have hlabel := (h.label ha hb).2
  cases c with
  | range joined => exact ⟨joined, rfl, joined_find? ha hb h⟩
  | exact | unique | multi => cases hlabel

/-! ## Payloads and leaves -/

/-- The payloads of a merged tree are those of its operands. -/
theorem Merges.values (ha : a.Sound) (hb : b.Sound) (h : Merges a b c) :
    c.values = Distinct.union a.values b.values := by
  obtain ⟨hcompat, hc, hview⟩ := h.view ha hb
  refine Distinct.eq_of_mem_iff (Distinct.ascending_ofList _)
    (Distinct.ascending_union (Distinct.ascending_ofList _)) fun v => ?_
  rw [Distinct.mem_union, Tree.values, Tree.values, Tree.values, Distinct.mem_ofList,
    Distinct.mem_ofList, Distinct.mem_ofList, mem_payloads_iff ha, mem_payloads_iff hb,
    mem_payloads_iff hc, hview, ← exists_or]
  exact exists_congr fun q => View.mem_payloads_join hcompat

/-- Each unique leaf of a merged tree stands in one of the operands, and in no more than one. -/
theorem Merges.uniqueLeaves (ha : a.Sound) (hb : b.Sound) (h : Merges a b c) :
    c.shape.uniqueLeaves = a.shape.uniqueLeaves + b.shape.uniqueLeaves := by
  obtain ⟨hcompat, hc, hview⟩ := h.view ha hb
  have hunion : c.places Label.IsUnique = a.places Label.IsUnique ∪ b.places Label.IsUnique := by
    ext p
    simp only [places, Set.mem_ofPred_eq, Set.mem_union, hview, View.join]
    cases hl : a.view p with
    | none => simp
    | some l =>
        cases hm : b.view p with
        | none => simp
        | some m =>
            -- two structures at one position have merged, which unique leaves never do
            have hlm := hcompat.meets p l m hl hm
            simp [hlm.not_isUnique, hlm.symm.not_isUnique, hlm.not_isUnique_join]
  have hdisjoint : Disjoint (a.places Label.IsUnique) (b.places Label.IsUnique) := by
    rw [Set.disjoint_left]
    rintro p ⟨l, hl, hunique⟩ ⟨m, hm, -⟩
    exact (hcompat.meets p l m hl hm).not_isUnique hunique
  have hsum := Set.encard_union_eq hdisjoint
  rw [← hunion, encard_uniqueLeaves ha, encard_uniqueLeaves hb, encard_uniqueLeaves hc,
    ← Nat.cast_add] at hsum
  exact Nat.cast_inj.mp hsum

/-! ## Keys -/

def WithoutFallbacks (a : Tree P) : Prop :=
  ∀ p level, a.at? p = some (.exact level) → level.fallback = none

omit [Payload P] in
theorem WithoutFallbacks.at {p : Position} (h : a.WithoutFallbacks) (hc : a.at? p = some c) :
    c.WithoutFallbacks := by
  intro q level hq
  exact h (p ++ q) level (by rw [at?_append, hc]; exact hq)

/-- Sound trees without fallbacks of which the second, merged into the first, gives the third. -/
structure MergesPlainly (a b c : Tree P) : Prop where
  left : a.Sound ∧ a.WithoutFallbacks
  right : b.Sound ∧ b.WithoutFallbacks
  merges : Merges a b c

/-- Without fallbacks, a key leads to what it leads to in one of the operands, or to what the
structures there merge to. -/
theorem MergesPlainly.joined_descend (h : MergesPlainly a b c) (key : KeyValue) :
    Joined Merges (a.descend key).node (b.descend key).node (c.descend key).node := by
  obtain ⟨⟨ha, hfa⟩, ⟨hb, hfb⟩, hmerges⟩ := h
  obtain ⟨hmeets, hlabel⟩ := hmerges.label ha hb
  cases a with
  | exact level =>
      cases b with
      | exact level' =>
          obtain ⟨joined, rfl, hkeys, hfallback⟩ := hmerges.exact ha hb
          have hplain : level.fallback = none := hfa [] level rfl
          have hplain' : level'.fallback = none := hfb [] level' rfl
          rw [hplain, hplain'] at hfallback
          have hplain'' : joined.fallback = none := hfallback.eq_none
          have hget : ∀ l : ExactLevel (Tree P), l.fallback = none →
              ((Tree.exact l).descend key).node = l.getExact? key := by
            intro l hl
            rw [Tree.descend, ExactLevel.get?, hl, Option.or_none]
          rw [hget _ hplain, hget _ hplain', hget _ hplain'']
          exact hkeys key
      | range | unique | multi => cases hmeets
  | range level =>
      cases b with
      | range level' =>
          obtain ⟨joined, rfl, hbands⟩ := hmerges.range ha hb
          exact (hbands key).map fun x y z hxyz => hxyz.2.2
      | exact | unique | multi => cases hmeets
  | unique value row => cases b <;> cases hmeets
  | multi values =>
      cases b with
      | multi values' =>
          cases c with
          | multi values'' => exact .both hmerges
          | exact | range | unique => cases hlabel
      | exact | range | unique => cases hmeets

theorem MergesPlainly.descend (h : MergesPlainly a b c) (key : KeyValue) :
    Joined MergesPlainly (a.descend key).node (b.descend key).node (c.descend key).node := by
  refine (h.joined_descend key).imp_of_eq_some fun x y z hx hy hmerges => ?_
  obtain ⟨p, hp⟩ := exists_at?_of_descend h.left.1 hx
  obtain ⟨q, hq⟩ := exists_at?_of_descend h.right.1 hy
  exact ⟨⟨h.left.1.at hp, h.left.2.at hp⟩, ⟨h.right.1.at hq, h.right.2.at hq⟩, hmerges⟩

end Tree

namespace Lookup

variable {P : Type} [Payload P] {x y z : Lookup P}

/-- Where lookups in two trees lead, a lookup in the merged tree leads. -/
def Joins (x y z : Lookup P) : Prop := Joined Tree.MergesPlainly x.node y.node z.node

theorem Joins.descend (h : Joins x y z) (key : KeyValue) :
    Joins (x.descend key) (y.descend key) (z.descend key) := by
  obtain ⟨x⟩ := x
  obtain ⟨y⟩ := y
  obtain ⟨z⟩ := z
  cases h with
  | none => exact .none
  | left a => exact .keep_left _
  | right b => exact .keep_right _
  | both hmerges => exact hmerges.descend key

theorem Joins.descendAll (h : Joins x y z) (keys : List KeyValue) :
    Joins (x.descendAll keys) (y.descendAll keys) (z.descendAll keys) := by
  induction keys generalizing x y z with
  | nil => exact h
  | cons key keys ih => exact ih (h.descend key)

theorem Joins.values (h : Joins x y z) : z.values = Distinct.union x.values y.values := by
  obtain ⟨x⟩ := x
  obtain ⟨y⟩ := y
  obtain ⟨z⟩ := z
  cases h with
  | none => rfl
  | left a => rfl
  | right b => exact (Distinct.ofList_congr fun _ => Distinct.mem_ofList).symm
  | both hmerges => exact hmerges.merges.values hmerges.left.1 hmerges.right.1

end Lookup

namespace Tree

variable {P : Type} [Payload P] {a b c : Tree P}

/-- In a merged tree, everything is from one of the operands or merged from both: the children of
exact levels, the bands of range levels, the payloads, the unique leaves, and, where there are no
fallbacks, what any number of keys lead to. -/
theorem merge_joins (ha : a.Sound) (hb : b.Sound) (h : Merges a b c) :
    (∀ level level', a = .exact level → b = .exact level' → ∃ joined, c = .exact joined ∧
      (∀ key, Joined Merges (level.getExact? key) (level'.getExact? key)
        (joined.getExact? key)) ∧
      Joined Merges level.fallback level'.fallback joined.fallback) ∧
    (∀ level level', a = .range level → b = .range level' → ∃ joined, c = .range joined ∧
      (∀ value, Joined BandsMerge (level.find? value) (level'.find? value)
        (joined.find? value)) ∧
      ∀ l ∈ [level, level', joined], ∀ value band, l.find? value = some band ↔
        band ∈ l.bands.toList ∧ band.interval.contains value = true) ∧
    c.values = Distinct.union a.values b.values ∧
    c.shape.uniqueLeaves = a.shape.uniqueLeaves + b.shape.uniqueLeaves ∧
    (a.WithoutFallbacks → b.WithoutFallbacks → ∀ keys,
      ((Lookup.ofTree c).descendAll keys).values =
        Distinct.union ((Lookup.ofTree a).descendAll keys).values
          ((Lookup.ofTree b).descendAll keys).values) := by
  refine ⟨?_, ?_, h.values ha hb, h.uniqueLeaves ha hb, ?_⟩
  · rintro level level' rfl rfl
    exact h.exact ha hb
  · rintro level level' rfl rfl
    obtain ⟨joined, rfl, hbands⟩ := h.range ha hb
    refine ⟨joined, rfl, hbands, fun l hl value band => RangeLevel.find?_eq_some_iff ?_⟩
    have hsound : ∀ l ∈ [level, level', joined], l.Sound := by
      simpa using ⟨ha.of_range, hb.of_range, (h.view ha hb).2.1.of_range⟩
    exact hsound l hl
  · intro hfa hfb keys
    have hjoins : Lookup.Joins (Lookup.ofTree a) (Lookup.ofTree b) (Lookup.ofTree c) :=
      .both ⟨⟨ha, hfa⟩, ⟨hb, hfb⟩, h⟩
    exact (hjoins.descendAll keys).values

/-! ## Fees of two kinds -/

omit [Payload P] in
theorem withoutFallbacks_of_children (hroot : ∀ level, a = exact level → level.fallback = none)
    (h : ∀ s c, a.child? s = some c → c.WithoutFallbacks) : a.WithoutFallbacks := by
  intro p level hp
  cases p with
  | nil => exact hroot level (Option.some.inj hp)
  | cons s p =>
      obtain ⟨c, hc, hp⟩ := Option.bind_eq_some_iff.mp hp
      exact h s c hc p level hp

/-- An exact level without a fallback, above range levels with one band each. -/
theorem plain_oneBands {children : List (KeyValue × Tree String)}
    (ascending : Entries.Ascending children)
    (h : ∀ entry ∈ children, ∃ i value row, i.isEmpty = false ∧ entry.2 = oneBand i value row) :
    (exact ⟨children, none⟩).Sound ∧ (exact ⟨children, none⟩).WithoutFallbacks := by
  constructor
  · refine .exact ascending (fun entry hentry => ?_) nofun
    obtain ⟨i, value, row, hi, hband⟩ := h entry hentry
    exact hband ▸ sound_oneBand hi value row
  · have hleaf : ∀ value row, (unique value row : Tree String).WithoutFallbacks :=
      fun value row => withoutFallbacks_of_children nofun nofun
    refine withoutFallbacks_of_children (by rintro _ ⟨⟩; rfl) fun s c hc => ?_
    cases s with
    | exact key =>
        obtain ⟨i, value, row, -, rfl⟩ := h (key, c) (Entries.mem_of_lookup hc)
        refine withoutFallbacks_of_children nofun fun t d hd => ?_
        rw [(child?_only_band hd).2]
        exact hleaf value (some row)
    | any | range => cases hc

def lowFees : Tree String :=
  .exact ⟨[(.bool true, oneBand (.below (.integer 0)) "low" 0)], none⟩

def highFees : Tree String :=
  .exact ⟨[(.bool false, oneBand .unbounded "abroad" 1),
    (.bool true, oneBand (.atLeast (.integer 9)) "high" 2)], none⟩

theorem merge_joins_lowFees :
    ((lowFees.Sound ∧ lowFees.WithoutFallbacks) ∧ highFees.Sound ∧ highFees.WithoutFallbacks) ∧
    ∃ c, Merges lowFees highFees c ∧ c.values = ["abroad", "high", "low"] ∧
      c.shape.uniqueLeaves = 3 ∧
      ((Lookup.ofTree c).descendAll [.bool false, .integer 5]).values = ["abroad"] ∧
      ((Lookup.ofTree c).descendAll [.bool true, .integer 5]).values = [] ∧
      ((Lookup.ofTree c).descendAll [.bool true, .integer 9]).values = ["high"] := by
  have hlow : lowFees.Sound ∧ lowFees.WithoutFallbacks := by
    refine plain_oneBands (List.pairwise_singleton _ _) ?_
    exact List.forall_mem_singleton.mpr ⟨_, _, _, rfl, rfl⟩
  have hhigh : highFees.Sound ∧ highFees.WithoutFallbacks := by
    refine plain_oneBands (List.pairwise_pair.mpr rfl) (List.forall_mem_cons.mpr ⟨?_, ?_⟩)
    · exact ⟨_, _, _, rfl, rfl⟩
    · exact List.forall_mem_singleton.mpr ⟨_, _, _, rfl, rfl⟩
  obtain ⟨c, hc⟩ : ∃ c, lowFees.merged highFees = .ok c := exists_of_isOk (by decide +kernel)
  obtain ⟨-, -, hvalues, hleaves, hkeys⟩ := merge_joins hlow.1 hhigh.1 hc
  refine ⟨⟨hlow, hhigh⟩, c, hc, ?_, ?_, ?_, ?_, ?_⟩
  · rw [hvalues]
    decide +kernel
  · rw [hleaves]
    simp [lowFees, highFees, oneBand, shape, shapeOfChildren, shapeOfBands, shapeBelow,
      Shape.beside]
  · rw [hkeys hlow.2 hhigh.2]
    decide +kernel
  · rw [hkeys hlow.2 hhigh.2]
    decide +kernel
  · rw [hkeys hlow.2 hhigh.2]
    decide +kernel

end Tree

end DecisionTable
