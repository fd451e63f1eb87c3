import DecisionTable.Proofs.Tree.Sound

/-!
# Payloads below a tree

The payloads below a sound tree are those of its leaves, which are found at its positions. So trees
with the same view have the same set of payloads.

* `mem_payloads_iff_child`, `mem_payloads_iff` : the payloads below a tree, by step and by position;
* `values_eq_ofList` : the set of payloads below a tree.
-/

namespace DecisionTable

open Ordered

namespace Tree

variable {P : Type} {a : Tree P} {v : P}

/-! ## One level -/

theorem payloadsOfChildren_eq (children : List (KeyValue × Tree P)) :
    payloadsOfChildren children = children.flatMap fun entry => entry.2.payloads := by
  induction children with
  | nil => rfl
  | cons entry rest ih => rw [payloadsOfChildren, ih, List.flatMap_cons]

theorem payloadsOfBands_eq (bands : List (Band (Tree P))) :
    payloadsOfBands bands = bands.flatMap fun band => band.child.payloads := by
  induction bands with
  | nil => rfl
  | cons band rest ih => rw [payloadsOfBands, ih, List.flatMap_cons]

theorem payloads_exact (level : ExactLevel (Tree P)) : (exact level).payloads =
    (level.children.flatMap fun entry => entry.2.payloads) ++
      level.fallback.toList.flatMap payloads := by
  obtain ⟨children, fallback⟩ := level
  cases fallback <;> simp [payloads, payloadsOfChildren_eq]

theorem mem_payloads_iff_child (h : a.Orderly) :
    v ∈ a.payloads ↔ v ∈ a.label.payloads ∨ ∃ s c, a.child? s = some c ∧ v ∈ c.payloads := by
  cases a with
  | exact level =>
      rw [payloads_exact, List.mem_append, List.mem_flatMap, List.mem_flatMap]
      simp only [label, Label.payloads, Set.mem_empty_iff_false, false_or]
      constructor
      · rintro (⟨entry, hentry, hv⟩ | ⟨c, hc, hv⟩)
        · have hget := Entries.lookup_of_mem (Entries.nodup_keys h) hentry
          exact ⟨.exact entry.1, entry.2, hget, hv⟩
        · exact ⟨.any, c, Option.mem_toList.mp hc, hv⟩
      · rintro ⟨s, c, hc, hv⟩
        cases s with
        | exact key => exact Or.inl ⟨_, Entries.mem_of_lookup hc, hv⟩
        | any => exact Or.inr ⟨c, Option.mem_toList.mpr hc, hv⟩
        | range i => cases hc
  | range level =>
      have hsound : level.Sound := h
      have hpayloads : (range level).payloads =
          level.bands.toList.flatMap fun band => band.child.payloads := payloadsOfBands_eq _
      rw [hpayloads, List.mem_flatMap]
      simp only [label, Label.payloads, Set.mem_empty_iff_false, false_or]
      constructor
      · rintro ⟨band, hband, hv⟩
        exact ⟨.range band.interval, band.child,
          (RangeLevel.getExact?_eq_some_iff hsound).mpr hband, hv⟩
      · rintro ⟨s, c, hc, hv⟩
        cases s with
        | exact key => cases hc
        | any => cases hc
        | range i => exact ⟨_, (RangeLevel.getExact?_eq_some_iff hsound).mp hc, hv⟩
  | unique value row => simp [payloads, label, Label.payloads, child?]
  | multi _ => simp [payloads, label, Label.payloads, child?]

/-! ## All positions -/

theorem exists_view_iff {Q : Label P → Prop} : (∃ q l, a.view q = some l ∧ Q l) ↔
    Q a.label ∨ ∃ s c, a.child? s = some c ∧ ∃ q l, c.view q = some l ∧ Q l := by
  constructor
  · rintro ⟨q, l, hl, hQ⟩
    cases q with
    | nil => exact Or.inl (Option.some.inj hl ▸ hQ)
    | cons s q =>
        cases hc : a.child? s with
        | none => cases (congrFun (below_view_of_no_child hc) q).symm.trans hl
        | some c =>
            exact Or.inr ⟨s, c, hc, q, l, (congrFun (below_view_of_child hc) q).symm.trans hl, hQ⟩
  · rintro (hQ | ⟨s, c, hc, q, l, hl, hQ⟩)
    · exact ⟨[], a.label, rfl, hQ⟩
    · exact ⟨s :: q, l, (congrFun (below_view_of_child hc) q).trans hl, hQ⟩

variable [Payload P]

/-- The payloads below a sound tree are those that stand at its positions. -/
theorem mem_payloads_iff (h : a.Sound) :
    v ∈ a.payloads ↔ ∃ q l, a.view q = some l ∧ v ∈ l.payloads := by
  induction h using Sound.induction with
  | step a ha ih =>
      rw [mem_payloads_iff_child ha.orderly, exists_view_iff]
      refine or_congr_right (exists_congr fun s => exists_congr fun c => ?_)
      exact and_congr_right fun hc => ih s c hc

theorem values_eq_ofList (h : a.Sound) {xs : List P}
    (hxs : ∀ v, v ∈ xs ↔ ∃ q l, a.view q = some l ∧ v ∈ l.payloads) :
    a.values = Distinct.ofList xs :=
  Distinct.ofList_congr fun v => by rw [mem_payloads_iff h, hxs]

end Tree

end DecisionTable
