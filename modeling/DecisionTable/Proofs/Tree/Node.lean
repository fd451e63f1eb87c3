import DecisionTable.Proofs.Tree.Merge

/-!
# Nodes

A level of a tree starts empty and is filled child by child. An insertion that fails may have changed
the level, and so may a merge of the children, whatever they are; but the bands of a range level
never come out of order, and the keys of an exact level never repeat. That needs no more of the
children than of an interval or a key: neither is trusted to be in order.

* `Tree.insertAt` : inserting a child into a node;
* `Tree.IsNode` : the nodes that insertions and merges make of empty levels;
* `IsNode.orderly` : the root of every node is in order, by what one insertion and one merge keep;
* `bands_of_node` : the bands of a node, and why checking neighbours is enough;
* `find?_of_node` : bisection in a node finds what a scan of all bands finds.
-/

namespace DecisionTable

open Ordered

/-! ## Range levels -/

namespace RangeLevel

variable {α : Type} {level : RangeLevel α}

/-- Inserting a child leaves the bands sound, whatever the interval and the child are. -/
theorem insert_keeps (standIn : α) (merge : α → Merging α) (i : Interval) (child : α) :
    Filling.Keeps RangeLevel.Sound (insert standIn merge i child) := by
  rintro ⟨level, path⟩ h
  cases hi : i.isEmpty with
  | true =>
      rw [insert_of_isEmpty standIn merge child path hi]
      exact h
  | false =>
      rcases insert_cases standIn merge child path h hi with ⟨existing, put, -, hput, hrun⟩ |
        ⟨j, -, -, -, hrun⟩ | ⟨-, -, grown, hgrown, -, hrun⟩
      · rw [hrun]
        exact Filling.level_settle (fun c => (hput c).1) (hput standIn).1 _
      · rw [hrun]
        exact h
      · rw [hrun]
        exact hgrown

theorem sound_empty : (empty : RangeLevel α).Sound :=
  ⟨nofun, List.Pairwise.nil, List.Pairwise.nil⟩

/-! ## Checking neighbours -/

/-- Non-empty intervals each of which precedes the next one all precede the ones after them. -/
theorem pairwise_precedes_of_adjacent {is : List Interval} (hne : ∀ i ∈ is, i.isEmpty = false)
    (h : ∀ pair ∈ is.zip is.tail, pair.1.Precedes pair.2) : is.Pairwise Interval.Precedes := by
  induction is with
  | nil => exact List.Pairwise.nil
  | cons i rest ih =>
      cases rest with
      | nil => exact List.pairwise_singleton _ _
      | cons j rest =>
          have hpairs := List.forall_mem_cons.mp h
          have hrest := ih (fun k hk => hne k (List.mem_cons_of_mem _ hk)) hpairs.2
          refine List.pairwise_cons.mpr ⟨fun k hk => ?_, hrest⟩
          rcases List.mem_cons.mp hk with rfl | hk
          · exact hpairs.1
          · have hj : j.isEmpty = false := hne j (by simp)
            exact hpairs.1.trans hj ((List.pairwise_cons.mp hrest).1 k hk)

theorem pairwise_of_mem_zip_tail {β : Type} {r : β → β → Prop} {xs : List β} (h : xs.Pairwise r) :
    ∀ pair ∈ xs.zip xs.tail, r pair.1 pair.2 := by
  induction xs with
  | nil => simp
  | cons x rest ih =>
      obtain ⟨hx, hrest⟩ := List.pairwise_cons.mp h
      cases rest with
      | nil => simp
      | cons y rest => exact List.forall_mem_cons.mpr ⟨hx y List.mem_cons_self, ih hrest⟩

/-- Among intervals that are not empty, neighbours tell whether all start in ascending order and
none overlap. -/
theorem isSortedAndDisjoint_iff (hne : ∀ i ∈ level.intervals, i.isEmpty = false) :
    level.isSortedAndDisjoint = true ↔ level.Sound := by
  simp only [isSortedAndDisjoint, List.all_eq_true, Bool.and_eq_true, Bool.not_eq_true']
  constructor
  · intro h
    refine Sound.of_precedes hne (pairwise_precedes_of_adjacent hne fun pair hpair => ?_)
    obtain ⟨hlt, hdisjoint⟩ := h pair hpair
    have hsnd : pair.2 ∈ level.intervals := List.mem_of_mem_tail (List.of_mem_zip hpair).2
    exact Interval.precedes_of_compareLower (hne _ hsnd) hdisjoint hlt
  · intro h pair hpair
    exact ⟨pairwise_of_mem_zip_tail h.ascending pair hpair,
      pairwise_of_mem_zip_tail h.disjoint pair hpair⟩

-- An empty interval stands apart from both of its neighbours, although these overlap.
example :
    let low : Interval := ⟨some (.integer 0), some (.integer 9)⟩
    let hollow : Interval := ⟨some (.integer 5), some (.integer 0)⟩
    let high : Interval := .atLeast (.integer 6)
    (RangeLevel.mk #[⟨low, ()⟩, ⟨hollow, ()⟩, ⟨high, ()⟩]).isSortedAndDisjoint = true ∧
      low.overlaps high = true := by
  decide

/-! ## Scanning all bands -/

def scan (level : RangeLevel α) (key : KeyValue) : Option (Band α) :=
  level.bands.toList.find? fun band => band.interval.contains key

theorem find?_eq_scan (h : level.Sound) (key : KeyValue) : level.find? key = level.scan key := by
  cases hscan : level.scan key with
  | some band =>
      have hmem : band ∈ level.bands.toList := List.mem_of_find?_eq_some hscan
      have hcontains : band.interval.contains key = true :=
        List.find?_some (p := fun band : Band α => band.interval.contains key) hscan
      exact (find?_eq_some_iff h).mpr ⟨hmem, hcontains⟩
  | none =>
      refine find?_eq_none h fun i hi => ?_
      obtain ⟨band, hband, rfl⟩ := List.mem_map.mp (mem_intervals_iff.mpr hi)
      exact Bool.eq_false_iff.mpr (List.find?_eq_none.mp hscan band hband)

/-- At most one band of a sound level holds a key. -/
theorem length_filter_contains_le_one (h : level.Sound) (key : KeyValue) :
    (level.bands.toList.filter fun band => band.interval.contains key).length ≤ 1 := by
  have hdisjoint : level.bands.toList.Pairwise fun a b => a.interval.overlaps b.interval = false :=
    List.pairwise_map.mp h.disjoint
  have hfilter := hdisjoint.sublist
    (List.filter_sublist (p := fun band : Band α => band.interval.contains key))
  generalize hheld : level.bands.toList.filter _ = held at hfilter
  have hcontains : ∀ band ∈ held, band.interval.contains key = true := by
    intro band hband
    rw [← hheld] at hband
    exact (List.mem_filter.mp hband).2
  match held with
  | [] | [_] => simp
  | a :: b :: _ =>
      have hab := (List.pairwise_cons.mp hfilter).1 b (by simp)
      rw [Interval.overlaps_of_contains (hcontains a (by simp)) (hcontains b (by simp))] at hab
      cases hab

end RangeLevel

/-! ## Exact levels -/

namespace ExactLevel

variable {α : Type}

theorem Ascending.put {level : ExactLevel α} (h : level.Ascending) (key : KeyValue) (child : α) :
    (level.put key child).Ascending :=
  Entries.ascending_put h

theorem Ascending.remove {level : ExactLevel α} (h : level.Ascending) (key : KeyValue) :
    (level.remove key).Ascending :=
  List.Pairwise.filter _ h

variable (merge : α → Merging α) (child : α)

theorem insert_keeps (key : KeyValue) : Filling.Keeps Ascending (insert merge key child) := by
  rintro ⟨level, path⟩ h
  rw [insert_run]
  cases level.getExact? key with
  | none => exact h.put key child
  | some existing => exact Filling.level_settle (fun c => h.put key c) (h.remove key) _

theorem insertFallback_keeps : Filling.Keeps Ascending (insertFallback merge child) := by
  rintro ⟨level, path⟩ h
  rw [insertFallback_run]
  cases level.fallback with
  | none => exact h
  | some existing =>
      have hchildren : ∀ fallback, (ExactLevel.mk level.children fallback).Ascending := fun _ => h
      exact Filling.level_settle (fun c => hchildren (some c)) (hchildren none) _

end ExactLevel

/-! ## Nodes -/

namespace Tree

variable {P : Type} [Payload P] {a b c node child : Tree P} {s : ColumnKey} {path : KeyPath}

def rooted {L : Type} (wrap : L → Tree P) :
    EStateM.Result TableError (Site L) Unit → EStateM.Result TableError (Site (Tree P)) Unit
  | .ok _ site => .ok () ⟨wrap site.level, site.path⟩
  | .error e site => .error e ⟨wrap site.level, site.path⟩

/-- Inserts a child into a node, at a key or as the fallback of an exact level and for an interval
of a range level. A child that is there already is merged with the new one. -/
def insertAt (node : Tree P) (s : ColumnKey) (child : Tree P) (path : KeyPath) :
    Option (EStateM.Result TableError (Site (Tree P)) Unit) :=
  let meet (existing : Tree P) := existing.merge child
  match node, s with
  | .exact level, .exact key =>
    some (rooted .exact (ExactLevel.insert meet key child ⟨level, path⟩))
  | .exact level, .any => some (rooted .exact (ExactLevel.insertFallback meet child ⟨level, path⟩))
  | .range level, .range i =>
    some (rooted .range (RangeLevel.insert empty meet i child ⟨level, path⟩))
  | _, _ => none

/-- A node is made of an empty level by insertions, whether they succeed or fail, and by merges. The
children are arbitrary. -/
inductive IsNode : Tree P → Prop where
  | exact : IsNode (.exact .empty)
  | range : IsNode (.range .empty)
  | insert {node child : Tree P} {s : ColumnKey} {path : KeyPath}
      {result : EStateM.Result TableError (Site (Tree P)) Unit} (h : IsNode node)
      (hrun : node.insertAt s child path = some result) : IsNode (Filling.siteAfter result).level
  | merge {a b c : Tree P} {path path' : KeyPath} (ha : IsNode a) (hb : IsNode b)
      (hrun : a.merge b path = .ok c path') : IsNode c

omit [Payload P] in
theorem orderly_rooted {L : Type} {wrap : L → Tree P} {Q : L → Prop}
    (hwrap : ∀ level, (wrap level).Orderly ↔ Q level)
    {result : EStateM.Result TableError (Site L) Unit} (h : Q (Filling.siteAfter result).level) :
    (Filling.siteAfter (rooted wrap result)).level.Orderly := by
  cases result with
  | ok _ site => exact (hwrap _).mpr h
  | error e site => exact (hwrap _).mpr h

/-- What one insertion leaves is in order. -/
theorem Orderly.insertAt (h : node.Orderly)
    {result : EStateM.Result TableError (Site (Tree P)) Unit}
    (hrun : node.insertAt s child path = some result) :
    (Filling.siteAfter result).level.Orderly := by
  cases node with
  | exact level =>
      cases s with
      | exact key =>
          cases hrun
          exact orderly_rooted (fun _ => Iff.rfl) (ExactLevel.insert_keeps _ child key _ h)
      | any =>
          cases hrun
          exact orderly_rooted (fun _ => Iff.rfl) (ExactLevel.insertFallback_keeps _ child _ h)
      | range i => cases hrun
  | range level =>
      cases s with
      | range i =>
          cases hrun
          exact orderly_rooted (fun _ => Iff.rfl) (RangeLevel.insert_keeps empty _ i child _ h)
      | exact | any => cases hrun
  | unique | multi => cases s <;> cases hrun

theorem absorbChildren_keeps (children : List (KeyValue × Tree P)) :
    Filling.Keeps ExactLevel.Ascending (absorbChildren children) := by
  induction children with
  | nil => exact Filling.keeps_pure
  | cons entry rest ih =>
      rw [absorbChildren]
      exact (ExactLevel.insert_keeps _ _ _).seq ih

theorem absorbBands_keeps (bands : List (Band (Tree P))) :
    Filling.Keeps RangeLevel.Sound (absorbBands bands) := by
  induction bands with
  | nil => exact Filling.keeps_pure
  | cons band rest ih =>
      rw [absorbBands]
      exact (RangeLevel.insert_keeps _ _ _ _).seq ih

omit [Payload P] in
theorem orderly_of_into {L : Type} {wrap : L → Tree P} {Q : L → Prop}
    (hwrap : ∀ level, (wrap level).Orderly ↔ Q level) {level : L} {fill : Filling L Unit}
    (hfill : Filling.Keeps Q fill) (h : Q level) {path' : KeyPath}
    (hrun : (wrap <$> Filling.into level fill : Merging (Tree P)) path = .ok c path') :
    c.Orderly := by
  have hafter := hfill ⟨level, path⟩ h
  rw [map_run, Filling.into_run] at hrun
  cases hresult : fill ⟨level, path⟩ with
  | ok _ site =>
      rw [hresult] at hrun hafter
      cases hrun
      exact (hwrap _).mpr hafter
  | error e site =>
      rw [hresult] at hrun
      cases hrun

/-- What one merge makes of a tree is in order, whether or not the incoming tree is. -/
theorem Orderly.merge (h : a.Orderly) {path' : KeyPath} (hrun : a.merge b path = .ok c path') :
    c.Orderly := by
  by_cases hkind : a.kind = b.kind
  · cases b with
    | exact level' =>
        obtain ⟨children, fallback⟩ := level'
        cases a with
        | exact level =>
            cases fallback with
            | none =>
                rw [Tree.merge] at hrun
                exact orderly_of_into (fun _ => Iff.rfl) (absorbChildren_keeps children) h hrun
            | some fallback =>
                rw [Tree.merge] at hrun
                exact orderly_of_into (fun _ => Iff.rfl) ((absorbChildren_keeps children).seq
                  (ExactLevel.insertFallback_keeps _ fallback)) h hrun
        | range | unique | multi => simp [kind] at hkind
    | range level' =>
        obtain ⟨⟨bands⟩⟩ := level'
        cases a with
        | range level =>
            rw [Tree.merge] at hrun
            exact orderly_of_into (fun _ => Iff.rfl) (absorbBands_keeps bands) h hrun
        | exact | unique | multi => simp [kind] at hkind
    | unique value' row' =>
        cases a with
        | unique value row =>
            rw [Tree.merge] at hrun
            cases hrun
        | exact | range | multi => simp [kind] at hkind
    | multi values' =>
        cases a with
        | multi values =>
            rw [Tree.merge] at hrun
            cases hrun
            trivial
        | exact | range | unique => simp [kind] at hkind
  · rw [merge_of_kind_ne hkind] at hrun
    cases hrun

/-- Every node is in order. -/
theorem IsNode.orderly (h : a.IsNode) : a.Orderly := by
  induction h with
  | exact => exact List.Pairwise.nil
  | range => exact RangeLevel.sound_empty
  | insert _ hrun ih => exact ih.insertAt hrun
  | merge _ _ hrun ih _ => exact ih.merge hrun

/-! ## The bands of a node -/

variable {level : RangeLevel (Tree P)}

/-- Whatever insertions and merges made a range level, its bands are not empty, start in ascending
order and do not overlap. So it passes its own check, and passes it right after a band is added; and
among intervals that are not empty that check, which compares neighbours, is enough for all. -/
theorem bands_of_node (h : (range level).IsNode) :
    level.Sound ∧ level.isSortedAndDisjoint = true ∧
    (∀ i child index, i.isEmpty = false → level.place i = .vacant index →
      (level.insertBand index ⟨i, child⟩).isSortedAndDisjoint = true) ∧
    ∀ other : RangeLevel (Tree P), (∀ i ∈ other.intervals, i.isEmpty = false) →
      (other.isSortedAndDisjoint = true ↔ other.Sound) := by
  have hsound : level.Sound := h.orderly
  have hcheck : ∀ {other : RangeLevel (Tree P)}, other.Sound → other.isSortedAndDisjoint = true :=
    fun hother => (RangeLevel.isSortedAndDisjoint_iff hother.nonempty).mpr hother
  refine ⟨hsound, hcheck hsound, fun i child index hi hplace => ?_, fun other hother =>
    RangeLevel.isSortedAndDisjoint_iff hother⟩
  have hkeeps := RangeLevel.insert_keeps empty (fun existing => existing.merge child) i child
    ⟨level, .root⟩ hsound
  rw [RangeLevel.insert_run _ _ _ _ hi, hplace] at hkeeps
  exact hcheck hkeeps

def ordinaryParcels : Interval := ⟨some (.bool false), some (.bool true)⟩

def expressParcels : Interval := .atLeast (.bool true)

def parcelBands (ordinary : Tree Nat) : RangeLevel (Tree Nat) :=
  ⟨#[⟨ordinaryParcels, ordinary⟩, ⟨expressParcels, .unique 9 (some 1)⟩]⟩

def spoiledParcels : RangeLevel (Tree Nat) := parcelBands empty

theorem isNode_spoiledParcels : (range spoiledParcels).IsNode := by
  have hexpress : (range .empty).insertAt (.range expressParcels) (.unique 9 (some 1)) .root =
      some (.ok () ⟨range ⟨#[⟨expressParcels, .unique 9 (some 1)⟩]⟩, .root⟩) := by
    rw [insertAt, RangeLevel.insert_run _ _ _ _ rfl]
    cbv
  have hordinary : (range ⟨#[⟨expressParcels, .unique 9 (some 1)⟩]⟩).insertAt
      (.range ordinaryParcels) (.unique 5 (some 0)) .root =
      some (.ok () ⟨range (parcelBands (.unique 5 (some 0))), .root⟩) := by
    rw [insertAt, RangeLevel.insert_run _ _ _ _ rfl]
    cbv
  have hall : (range (parcelBands (.unique 5 (some 0)))).insertAt (.range .unbounded)
      (.unique 7 (some 2)) .root =
      some (.error (.overlappingRange "<root>" "[false, true)" "(-inf, +inf)" none)
        ⟨range (parcelBands (.unique 5 (some 0))), .root⟩) := rfl
  have hagain : (range (parcelBands (.unique 5 (some 0)))).insertAt (.range ordinaryParcels)
      (.unique 6 (some 3)) .root =
      some (.error (.uniqueKeyViolation "[false, true)" "5" "6" (some 0) (some 3))
        ⟨range spoiledParcels, KeyPath.root.push "[false, true)"⟩) := by
    rw [insertAt, RangeLevel.insert_run _ _ _ _ rfl]
    rfl
  exact (((IsNode.range.insert hexpress).insert hordinary).insert hall).insert hagain

theorem bands_of_node_spoiledParcels : (range spoiledParcels).IsNode ∧ spoiledParcels.Sound ∧
    spoiledParcels.isSortedAndDisjoint = true ∧
    (spoiledParcels.insertBand 0 ⟨.below (.bool false), empty⟩).isSortedAndDisjoint = true := by
  obtain ⟨hsound, hcheck, hadded, -⟩ := bands_of_node isNode_spoiledParcels
  exact ⟨isNode_spoiledParcels, hsound, hcheck, hadded _ _ 0 rfl rfl⟩

/-- Bisection in a range level that insertions and merges made finds what a scan of all bands finds:
the band that holds the key, of which there is never more than one. -/
theorem find?_of_node (h : (range level).IsNode) (key : KeyValue) :
    level.find? key = level.scan key ∧ level.get? key = (level.scan key).map Band.child ∧
    (level.bands.toList.filter fun band => band.interval.contains key).length ≤ 1 := by
  have hsound : level.Sound := h.orderly
  refine ⟨RangeLevel.find?_eq_scan hsound key, ?_,
    RangeLevel.length_filter_contains_le_one hsound key⟩
  rw [RangeLevel.get?, RangeLevel.find?_eq_scan hsound]

theorem find?_of_node_spoiledParcels : (range spoiledParcels).IsNode ∧
    spoiledParcels.get? (.integer 0) = some (.unique 9 (some 1)) ∧
    (spoiledParcels.bands.toList.filter fun band =>
      band.interval.contains (.integer 0)).length ≤ 1 := by
  obtain ⟨-, hget, hlength⟩ := find?_of_node isNode_spoiledParcels (.integer 0)
  exact ⟨isNode_spoiledParcels, hget.trans rfl, hlength⟩

end Tree

end DecisionTable
