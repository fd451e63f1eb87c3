import DecisionTable.Tree.Lookup
import DecisionTable.Proofs.Tree.Node
import DecisionTable.Proofs.Tree.Payloads

/-!
# What a failed insertion leaves

A child is taken out of its node to be merged with a new one. Where that fails, at whatever depth,
neither the child nor anything of the new one comes back: an exact level is left without the key or
the fallback, and a range level with an empty leaf in the place of the child. Everything else in the
node is as it was.

* `vacated` : a node without its child at a step;
* `step?` : the step that a key takes from the root of a tree;
* `LeftBehind` : what is left of a node, its lookups and its payloads;
* `insertAt_leaves` : what an insertion leaves when merging with the child that is there fails.
-/

namespace DecisionTable

open Ordered

/-! ## Range levels -/

namespace RangeLevel

variable {α : Type} {level : RangeLevel α} {i j : Interval} {c : α}

def refill (i : Interval) (c : α) (band : Band α) : Band α :=
  if band.interval = i then { band with child := c } else band

def replace (level : RangeLevel α) (i : Interval) (c : α) : RangeLevel α :=
  ⟨level.bands.map (refill i c)⟩

theorem interval_refill (band : Band α) : (refill i c band).interval = band.interval := by
  unfold refill
  split <;> rfl

theorem intervals_replace : (level.replace i c).intervals = level.intervals := by
  simp [intervals, replace, interval_refill]

theorem Sound.replace (h : level.Sound) (i : Interval) (c : α) : (level.replace i c).Sound :=
  h.of_intervals_eq intervals_replace

theorem getExact?_replace : (level.replace i c).getExact? j =
    (level.getExact? j).map fun d => if j = i then c else d := by
  have hentries : (level.replace i c).entries = level.entries.map fun entry =>
      (entry.1, if entry.1 = i then c else entry.2) := by
    simp only [entries, replace, Array.toList_map, List.map_map]
    refine List.map_congr_left fun band _ => ?_
    simp only [Function.comp_apply, refill]
    split <;> rfl
  rw [getExact?, hentries, Entries.lookup_map fun j d => if j = i then c else d]
  rfl

theorem find?_replace (h : level.Sound) (key : KeyValue) :
    (level.replace i c).find? key = (level.find? key).map (refill i c) := by
  rw [find?_eq_scan (h.replace i c), find?_eq_scan h]
  simp only [scan, replace, Array.toList_map, List.find?_map, Function.comp_def, interval_refill]

theorem setChild_eq_replace (h : level.Sound) {front back : List (Band α)} {d : α}
    (hsplit : level.bands.toList = front ++ ⟨i, d⟩ :: back) (c : α) :
    level.setChild front.length c = level.replace i c := by
  have hothers : ∀ {bands : List (Band α)}, (∀ band ∈ bands, band ∈ front ++ back) →
      bands.map (refill i c) = bands := by
    intro bands hbands
    refine (List.map_congr_left fun band hband => ?_).trans (List.map_id' bands)
    exact if_neg (h.ne_of_split hsplit (hbands band hband))
  have hreplace : (level.replace i c).bands.toList = front ++ ⟨i, c⟩ :: back := by
    rw [replace, Array.toList_map, hsplit, List.map_append, List.map_cons,
      hothers fun band => List.mem_append_left back, hothers fun band => List.mem_append_right front,
      refill, if_pos rfl]
  rw [eq_of_toList (bands_setChild hsplit c), eq_of_toList hreplace]

end RangeLevel

/-! ## Exact levels -/

theorem ExactLevel.getExact?_remove {α : Type} (level : ExactLevel α) (key key' : KeyValue) :
    (level.remove key).getExact? key' = if key' = key then none else level.getExact? key' :=
  Entries.lookup_remove key key' level.children

namespace Tree

variable {P : Type} {node c : Tree P} {s t : ColumnKey} {key : KeyValue}

/-! ## Nodes without a child -/

/-- The node without its child at a step. A range level keeps the band, with nothing in it. -/
def vacated (node : Tree P) (s : ColumnKey) : Tree P :=
  match node, s with
  | .exact level, .exact key => .exact (level.remove key)
  | .exact level, .any => .exact { level with fallback := none }
  | .range level, .range i => .range (level.replace i empty)
  | node, _ => node

theorem Orderly.vacated (h : node.Orderly) (s : ColumnKey) : (node.vacated s).Orderly := by
  cases node with
  | exact level =>
      cases s with
      | exact key => exact ExactLevel.Ascending.remove h key
      | any => exact h
      | range i => exact h
  | range level =>
      cases s with
      | range i => exact RangeLevel.Sound.replace h i empty
      | exact key => exact h
      | any => exact h
  | unique value row => trivial
  | multi values => trivial

theorem child?_vacated_of_ne (ht : t ≠ s) : (node.vacated s).child? t = node.child? t := by
  cases node with
  | exact level =>
      cases s with
      | exact key =>
          cases t with
          | exact key' =>
              have hne : key' ≠ key := fun h => ht (h ▸ rfl)
              exact (level.getExact?_remove key key').trans (if_neg hne)
          | any | range => rfl
      | any =>
          cases t with
          | any => exact absurd rfl ht
          | exact | range => rfl
      | range i => rfl
  | range level =>
      cases s with
      | range i =>
          cases t with
          | range j =>
              have hne : j ≠ i := fun h => ht (h ▸ rfl)
              show (level.replace i empty).getExact? j = level.getExact? j
              simp [RangeLevel.getExact?_replace, hne]
          | exact | any => rfl
      | exact | any => rfl
  | unique | multi => cases s <;> rfl

theorem eq_empty_of_child?_vacated (hc : (node.vacated s).child? s = some c) : c = empty := by
  cases node with
  | exact level =>
      cases s with
      | exact key =>
          have hnone := (level.getExact?_remove key key).trans (if_pos rfl)
          cases hnone.symm.trans hc
      | any | range => cases hc
  | range level =>
      cases s with
      | range i =>
          replace hc : (level.replace i empty).getExact? i = some c := hc
          rw [RangeLevel.getExact?_replace] at hc
          obtain ⟨d, -, hd⟩ := Option.map_eq_some_iff.mp hc
          exact hd.symm.trans (if_pos rfl)
      | exact | any => cases hc
  | unique | multi => cases s <;> cases hc

/-! ## Lookups -/

/-- The step that a key takes from the root of a tree: to its own child or else to the fallback, or
to the band that holds it. -/
def step? (node : Tree P) (key : KeyValue) : Option ColumnKey :=
  match node with
  | .exact level =>
    ((level.getExact? key).map fun _ => .exact key).or (level.fallback.map fun _ => .any)
  | .range level => (level.find? key).map fun band => .range band.interval
  | .unique .. | .multi _ => none

theorem descend_eq (h : node.Orderly) (hnode : node.isLeaf = false) :
    node.descend key = ⟨(node.step? key).bind node.child?⟩ := by
  cases node with
  | exact level =>
      simp only [descend, step?, ExactLevel.get?]
      cases hget : level.getExact? key with
      | some c => simp [child?, hget]
      | none => cases hfallback : level.fallback <;> simp [child?, hfallback]
  | range level =>
      simp only [descend, step?, RangeLevel.get?]
      cases hfind : level.find? key with
      | none => rfl
      | some band =>
          have hband := ((RangeLevel.find?_eq_some_iff h).mp hfind).1
          have hget := (RangeLevel.getExact?_eq_some_iff h).mpr hband
          simp [child?, hget]
  | unique value row => cases hnode
  | multi values => cases hnode

theorem isLeaf_vacated : (node.vacated s).isLeaf = node.isLeaf := by
  cases node <;> cases s <;> rfl

theorem step?_vacated (h : node.Orderly) (hne : node.step? key ≠ some s) :
    (node.vacated s).step? key = node.step? key := by
  cases node with
  | exact level =>
      cases s with
      | exact key' =>
          have hget : (level.remove key').getExact? key = level.getExact? key := by
            rw [ExactLevel.getExact?_remove]
            split
            · rename_i heq
              subst heq
              cases hget : level.getExact? key with
              | none => rfl
              | some c => exact absurd (by simp [step?, hget]) hne
            · rfl
          simp only [Tree.vacated, step?, hget]
          rfl
      | any =>
          have hown : ∀ fallback, (ExactLevel.mk level.children fallback).getExact? key =
              level.getExact? key := fun _ => rfl
          cases hget : level.getExact? key with
          | some c => simp [Tree.vacated, step?, hown, hget]
          | none =>
              cases hfallback : level.fallback with
              | none => simp [Tree.vacated, step?, hown, hfallback]
              | some c => exact absurd (by simp [step?, hget, hfallback]) hne
      | range i => rfl
  | range level =>
      cases s with
      | range i =>
          simp only [Tree.vacated, step?, RangeLevel.find?_replace h, Option.map_map,
            Function.comp_def, RangeLevel.interval_refill]
      | exact | any => rfl
  | unique | multi => cases s <;> rfl

theorem descend_vacated (h : node.Orderly) (hnode : node.isLeaf = false)
    (hne : node.step? key ≠ some s) : (node.vacated s).descend key = node.descend key := by
  rw [descend_eq (h.vacated s) (isLeaf_vacated.trans hnode), descend_eq h hnode, step?_vacated h hne]
  cases hstep : node.step? key with
  | none => rfl
  | some t =>
      have ht : t ≠ s := fun hts => hne (hstep.trans (congrArg some hts))
      exact congrArg Lookup.mk (child?_vacated_of_ne ht)

/-! ## Payloads -/

theorem label_payloads_of_not_isLeaf (hnode : node.isLeaf = false) : node.label.payloads = ∅ := by
  cases node with
  | exact | range => rfl
  | unique | multi => cases hnode

theorem mem_payloads_vacated (h : node.Orderly) (hnode : node.isLeaf = false) {v : P} :
    v ∈ (node.vacated s).payloads ↔ ∃ t c, t ≠ s ∧ node.child? t = some c ∧ v ∈ c.payloads := by
  rw [mem_payloads_iff_child (h.vacated s),
    label_payloads_of_not_isLeaf (isLeaf_vacated.trans hnode), Set.mem_empty_iff_false, false_or]
  constructor
  · rintro ⟨t, c, hc, hv⟩
    by_cases ht : t = s
    · subst ht
      rw [eq_empty_of_child?_vacated hc] at hv
      cases hv
    · exact ⟨t, c, ht, child?_vacated_of_ne ht ▸ hc, hv⟩
  · rintro ⟨t, c, ht, hc, hv⟩
    exact ⟨t, c, (child?_vacated_of_ne ht).trans hc, hv⟩

/-! ## What is left -/

variable [Payload P] {existing child : Tree P} {path path' : KeyPath} {e : TableError}

theorem insertAt_of_error (h : node.Orderly) (hstored : node.child? s = some existing)
    (hfails : existing.merge child (path.push s.display) = .error e path') :
    node.insertAt s child path = some (.error e ⟨node.vacated s, path'⟩) := by
  cases node with
  | exact level =>
      cases s with
      | exact key =>
          have hget : level.getExact? key = some existing := hstored
          have hmerge : existing.merge child (path.push key.display) = .error e path' := hfails
          simp only [insertAt, ExactLevel.insert_run, hget, hmerge]
          rfl
      | any =>
          have hget : level.fallback = some existing := hstored
          have hmerge : existing.merge child (path.push "*") = .error e path' := hfails
          simp only [insertAt, ExactLevel.insertFallback_run, hget, hmerge]
          rfl
      | range i => cases hstored
  | range level =>
      cases s with
      | range i =>
          have hsound : level.Sound := h
          have hget : level.getExact? i = some existing := hstored
          have hmerge : existing.merge child (path.push i.display) = .error e path' := hfails
          have hmem : i ∈ level.intervals := RangeLevel.mem_intervals_iff.mpr (by simp [hget])
          obtain ⟨front, existing', back, hsplit, hplace⟩ := RangeLevel.place_of_mem hsound hmem
          obtain rfl : existing = existing' :=
            Option.some.inj (hget.symm.trans (RangeLevel.getExact?_of_split hsound hsplit))
          have hi := hsound.nonempty i hmem
          simp only [insertAt, RangeLevel.insert_run _ _ _ _ hi, hplace, hmerge,
            RangeLevel.setChild_eq_replace hsound hsplit]
          rfl
      | exact key => cases hstored
      | any => cases hstored
  | unique value row => cases hstored
  | multi values => cases hstored

/-- What is left of a node whose child at a step is lost. -/
structure LeftBehind (node : Tree P) (s : ColumnKey) (after : Tree P) : Prop where
  vacated : after = node.vacated s
  others : ∀ t, t ≠ s → after.child? t = node.child? t
  answers : ∀ key keys, node.step? key ≠ some s →
    (Lookup.ofTree after).descendAll (key :: keys) = (Lookup.ofTree node).descendAll (key :: keys)
  reached : ∀ key c, (after.descend key).node = some c →
    c = empty ∨ ∃ t, t ≠ s ∧ node.child? t = some c
  values : ∀ v, v ∈ after.values ↔ ∃ t c, t ≠ s ∧ node.child? t = some c ∧ v ∈ c.values
  shrinks : after.values ⊆ node.values

theorem leftBehind_vacated (h : node.Orderly) (hnode : node.isLeaf = false) :
    LeftBehind node s (node.vacated s) where
  vacated := rfl
  others t ht := child?_vacated_of_ne ht
  answers key keys hne := by
    show ((node.vacated s).descend key).descendAll keys = (node.descend key).descendAll keys
    rw [descend_vacated h hnode hne]
  reached key c hc := by
    rw [descend_eq (h.vacated s) (isLeaf_vacated.trans hnode)] at hc
    obtain ⟨t, -, hc⟩ := Option.bind_eq_some_iff.mp hc
    by_cases ht : t = s
    · exact Or.inl (eq_empty_of_child?_vacated (ht ▸ hc))
    · exact Or.inr ⟨t, ht, (child?_vacated_of_ne ht).symm.trans hc⟩
  values v := by
    simp only [Tree.values, Distinct.mem_ofList]
    exact mem_payloads_vacated h hnode
  shrinks v hv := by
    simp only [Tree.values, Distinct.mem_ofList] at hv ⊢
    obtain ⟨t, c, -, hc, hv⟩ := (mem_payloads_vacated h hnode).mp hv
    exact (mem_payloads_iff_child h).mpr (Or.inr ⟨t, c, hc, hv⟩)

/-- Where merging with the child that is there fails, an insertion into a node loses that child and
leaves everything else. -/
theorem insertAt_leaves (h : node.IsNode) (hstored : node.child? s = some existing)
    (hfails : existing.merge child (path.push s.display) = .error e path') :
    ∃ after, node.insertAt s child path = some (.error e ⟨after, path'⟩) ∧
      LeftBehind node s after := by
  have hnode : node.isLeaf = false := by
    cases node with
    | exact | range => rfl
    | unique | multi => cases hstored
  exact ⟨node.vacated s, insertAt_of_error h.orderly hstored hfails,
    leftBehind_vacated h.orderly hnode⟩

def homeFees : Tree Nat := exact ⟨[(.bool true, .unique 6 (some 1))], none⟩

def moreHomeFees : Tree Nat :=
  exact ⟨[(.bool false, .unique 7 (some 2)), (.bool true, .unique 8 (some 3))], none⟩

def parcelFees : Tree Nat :=
  exact ⟨[(.bool false, .unique 3 (some 0)), (.bool true, homeFees)], none⟩

theorem isNode_parcelFees : parcelFees.IsNode := by
  have hhome : (exact .empty).insertAt (.exact (.bool true)) homeFees .root =
      some (.ok () ⟨exact ⟨[(.bool true, homeFees)], none⟩, .root⟩) := rfl
  have habroad : (exact ⟨[(.bool true, homeFees)], none⟩).insertAt (.exact (.bool false))
      (.unique 3 (some 0)) .root = some (.ok () ⟨parcelFees, .root⟩) := rfl
  exact (IsNode.exact.insert hhome).insert habroad

/-- The fee of ordinary parcels is merged already when that of express ones fails. -/
theorem insertAt_leaves_parcelFees : parcelFees.IsNode ∧
    ∃ after, parcelFees.insertAt (.exact (.bool true)) moreHomeFees .root =
      some (.error (.uniqueKeyViolation "true / true" "6" "8" (some 1) (some 3))
        ⟨after, (KeyPath.root.push "true").push "true"⟩) ∧
      LeftBehind parcelFees (.exact (.bool true)) after := by
  have hstored : parcelFees.child? (.exact (.bool true)) = some homeFees := rfl
  exact ⟨isNode_parcelFees, insertAt_leaves isNode_parcelFees hstored rfl⟩

end Tree

end DecisionTable
