import DecisionTable.Tree.RangeLevel
import DecisionTable.Proofs.Key.Interval
import DecisionTable.Proofs.Ordered
import DecisionTable.Proofs.Tree.Merging
import Mathlib.Data.List.Pairwise

/-!
# Laws of range levels

A sound level holds non-empty intervals that start in strictly ascending order and do not overlap.
Only the bands around the place of an interval are looked at, and in a sound level they decide:
what precedes a band precedes everything after it.

* `Obstacle` : the interval that keeps another one out of a level;
* `place_cases` : where an interval goes, and what that says about all bands;
* `insert_cases` : what inserting does, in each of the cases;
* `find?_eq_some_iff` : the band found for a key is the one whose interval contains it.
-/

namespace DecisionTable

open Ordered

theorem Interval.compareLower_isLT_trans {i j k : Interval} (hij : (i.compareLower j).isLT = true)
    (hjk : (j.compareLower k).isLT = true) : (i.compareLower k).isLT = true := by
  obtain ⟨a, _⟩ := i
  obtain ⟨b, _⟩ := j
  obtain ⟨c, _⟩ := k
  cases a <;> cases b <;> cases c <;> simp_all [compareLower, Std.compare_eq_lt]
  grind

namespace RangeLevel

variable {α : Type} {level : RangeLevel α} {i j : Interval}

def entries (level : RangeLevel α) : List (Interval × α) :=
  level.bands.toList.map fun band => (band.interval, band.child)

def getExact? (level : RangeLevel α) (i : Interval) : Option α :=
  level.entries.lookup i

theorem keys_entries (level : RangeLevel α) : level.entries.map Prod.fst = level.intervals := by
  simp [entries, intervals]

theorem eq_of_entries {level' : RangeLevel α} (h : level.entries = level'.entries) :
    level = level' := by
  have hinj : Function.Injective fun band : Band α => (band.interval, band.child) := by
    rintro ⟨i, c⟩ ⟨j, d⟩ ⟨rfl, rfl⟩
    rfl
  obtain ⟨⟨bands⟩⟩ := level
  obtain ⟨⟨bands'⟩⟩ := level'
  exact congrArg (fun bands => RangeLevel.mk ⟨bands⟩) (List.map_injective_iff.mpr hinj h)

/-- The intervals are not empty, start in strictly ascending order and do not overlap. -/
structure Sound (level : RangeLevel α) : Prop where
  nonempty : ∀ i ∈ level.intervals, i.isEmpty = false
  ascending : level.intervals.Pairwise fun i j => (i.compareLower j).isLT = true
  disjoint : level.intervals.Pairwise fun i j => i.overlaps j = false

/-- The bands of a sound level lie one before the other. -/
theorem Sound.precedes (h : level.Sound) : level.intervals.Pairwise Interval.Precedes := by
  have hboth := h.ascending.and h.disjoint
  refine hboth.imp_of_mem fun {i j} _ hj hij => ?_
  exact Interval.precedes_of_compareLower (h.nonempty j hj) hij.2 hij.1

theorem Sound.of_precedes (hne : ∀ i ∈ level.intervals, i.isEmpty = false)
    (h : level.intervals.Pairwise Interval.Precedes) : level.Sound where
  nonempty := hne
  ascending := h.imp_of_mem fun {i _} hi _ hij => hij.compareLower (hne i hi)
  disjoint := h.imp fun hij => hij.overlaps

theorem Sound.of_intervals_eq {level' : RangeLevel α} (h : level.Sound)
    (heq : level'.intervals = level.intervals) : level'.Sound :=
  ⟨heq ▸ h.nonempty, heq ▸ h.ascending, heq ▸ h.disjoint⟩

theorem Sound.nodup (h : level.Sound) : level.intervals.Nodup :=
  h.precedes.imp_of_mem fun {i _} hi _ hij => hij.ne (h.nonempty i hi)

theorem Sound.of_cons {band : Band α} {rest : List (Band α)}
    (h : (RangeLevel.mk ⟨band :: rest⟩).Sound) : (RangeLevel.mk ⟨rest⟩).Sound where
  nonempty i hi := h.nonempty i (List.mem_cons_of_mem _ hi)
  ascending := (List.pairwise_cons.mp h.ascending).2
  disjoint := (List.pairwise_cons.mp h.disjoint).2

/-- No other band has the interval of a band. -/
theorem Sound.ne_of_split (h : level.Sound) {front back : List (Band α)} {c : α} {band : Band α}
    (hsplit : level.bands.toList = front ++ ⟨i, c⟩ :: back) (hband : band ∈ front ++ back) :
    band.interval ≠ i := by
  have hnodup := h.nodup
  rw [intervals, hsplit, List.map_append, List.map_cons, List.nodup_middle] at hnodup
  have hmem : band.interval ∈ (front ++ back).map Band.interval := List.mem_map_of_mem hband
  rintro rfl
  rw [List.map_append] at hmem
  exact (List.nodup_cons.mp hnodup).1 hmem

theorem mem_intervals {band : Band α} (h : band ∈ level.bands.toList) :
    band.interval ∈ level.intervals :=
  List.mem_map_of_mem h

theorem mem_intervals_iff : i ∈ level.intervals ↔ (level.getExact? i).isSome := by
  rw [getExact?, ← Entries.mem_keys_iff, keys_entries]

/-- Two intervals of a sound level are identical or disjoint. -/
theorem Sound.eq_or_disjoint (h : level.Sound) {j : Interval} (hi : i ∈ level.intervals)
    (hj : j ∈ level.intervals) : i = j ∨ i.overlaps j = false := by
  by_cases hij : i = j
  · exact Or.inl hij
  · exact Or.inr (h.disjoint.forall hi hj hij)

/-! ## The place of an interval -/

theorem before?_length {front back : List (Band α)} (h : level.bands.toList = front ++ back) :
    level.before? front.length = front.getLast? := by
  rcases List.eq_nil_or_concat front with rfl | ⟨init, last, rfl⟩
  · rfl
  · have hlast : level.bands.toList[init.length]? = some last := by
      simp [h]
    rw [Array.getElem?_toList] at hlast
    simp [before?, hlast]

theorem bands_getElem?_length {front back : List (Band α)}
    (h : level.bands.toList = front ++ back) : level.bands[front.length]? = back.head? := by
  rw [← Array.getElem?_toList, h, List.getElem?_append_right (Nat.le_refl _), Nat.sub_self,
    List.head?_eq_getElem?]

/-- What comes after the last of a row of bands comes after all of them. -/
theorem precedes_of_getLast? {front : List (Band α)}
    (hprec : front.Pairwise fun a b => a.interval.Precedes b.interval)
    (hne : ∀ band ∈ front, band.interval.isEmpty = false)
    (hlast : ∀ last ∈ front.getLast?, last.interval.Precedes i) :
    ∀ band ∈ front, band.interval.Precedes i := by
  rcases List.eq_nil_or_concat front with rfl | ⟨init, last, rfl⟩
  · simp
  · have hi := hlast last (by simp)
    intro band hband
    rw [List.concat_eq_append] at hband hprec hne
    rcases List.mem_append.mp hband with hband | hband
    · have hbefore := (List.pairwise_append.mp hprec).2.2 band hband last (by simp)
      exact hbefore.trans (hne last (by simp)) hi
    · obtain rfl := List.mem_singleton.mp hband
      exact hi

/-- What comes before the first of a row of bands comes before all of them. -/
theorem precedes_of_head? {back : List (Band α)}
    (hprec : back.Pairwise fun a b => a.interval.Precedes b.interval)
    (hne : ∀ band ∈ back, band.interval.isEmpty = false)
    (hhead : ∀ head ∈ back.head?, i.Precedes head.interval) :
    ∀ band ∈ back, i.Precedes band.interval := by
  cases back with
  | nil => simp
  | cons head rest =>
      have hi := hhead head rfl
      intro band hband
      rcases List.mem_cons.mp hband with rfl | hband
      · exact hi
      · exact hi.trans (hne head List.mem_cons_self) ((List.pairwise_cons.mp hprec).1 band hband)

/-- An interval overlaps the last of the bands in front of it, or else all of them precede it. -/
theorem front_cases {front : List (Band α)}
    (hprec : front.Pairwise fun a b => a.interval.Precedes b.interval)
    (hne : ∀ band ∈ front, band.interval.isEmpty = false) (hi : i.isEmpty = false)
    (hfront : ∀ band ∈ front, (band.interval.compareLower i).isLT = true) :
    (∃ last ∈ front.getLast?, last.interval.overlaps i = true) ∨
      (∀ last ∈ front.getLast?, last.interval.overlaps i = false) ∧
        ∀ band ∈ front, band.interval.Precedes i := by
  cases hlast : front.getLast? with
  | none => exact Or.inr ⟨nofun, precedes_of_getLast? hprec hne (by simp [hlast])⟩
  | some last =>
      cases ho : last.interval.overlaps i with
      | true => exact Or.inl ⟨last, rfl, ho⟩
      | false =>
          refine Or.inr ⟨by simpa using ho, precedes_of_getLast? hprec hne ?_⟩
          intro b hb
          obtain rfl : last = b := Option.some.inj (hlast.symm.trans hb)
          exact Interval.precedes_of_compareLower hi ho (hfront last (List.mem_of_getLast? hlast))

/-- An interval overlaps the first of the bands behind it, or else it precedes all of them. -/
theorem back_cases {back : List (Band α)}
    (hprec : back.Pairwise fun a b => a.interval.Precedes b.interval)
    (hne : ∀ band ∈ back, band.interval.isEmpty = false)
    (hback : ∀ band ∈ back, (band.interval.compareLower i).isLT = false) :
    (∃ head ∈ back.head?, head.interval.overlaps i = true) ∨
      (∀ head ∈ back.head?, head.interval.overlaps i = false) ∧
        ∀ band ∈ back, i.Precedes band.interval := by
  cases hhead : back.head? with
  | none => exact Or.inr ⟨nofun, precedes_of_head? hprec hne (by simp [hhead])⟩
  | some head =>
      have hmem := List.mem_of_head? hhead
      cases ho : head.interval.overlaps i with
      | true => exact Or.inl ⟨head, rfl, ho⟩
      | false =>
          refine Or.inr ⟨by simpa using ho, precedes_of_head? hprec hne ?_⟩
          intro b hb
          obtain rfl : head = b := Option.some.inj (hhead.symm.trans hb)
          exact Interval.precedes_of_not_compareLower (hne head hmem) ho (hback head hmem)

/-- The interval that keeps `i` out of a level overlaps it. It is the first of those that do and do
not start below `i`, or else the last of those that start below it. -/
inductive Obstacle (level : RangeLevel α) (i j : Interval) : Prop where
  | next (mem : j ∈ level.intervals) (overlaps : j.overlaps i = true)
      (start : (j.compareLower i).isLT = false)
      (least : ∀ k ∈ level.intervals, k.overlaps i = true → (k.compareLower i).isLT = false →
        (k.compareLower j).isLT = false)
  | predecessor (mem : j ∈ level.intervals) (overlaps : j.overlaps i = true)
      (start : (j.compareLower i).isLT = true)
      (apart : ∀ k ∈ level.intervals, (k.compareLower i).isLT = false → k.overlaps i = false)
      (greatest : ∀ k ∈ level.intervals, (k.compareLower i).isLT = true →
        (j.compareLower k).isLT = false)

theorem Obstacle.mem (h : level.Obstacle i j) : j ∈ level.intervals := by
  cases h <;> assumption

theorem Obstacle.overlaps (h : level.Obstacle i j) : j.overlaps i = true := by
  cases h <;> assumption

theorem obstacle_next (h : level.Sound) {front rest : List Interval}
    (hsplit : level.intervals = front ++ j :: rest)
    (hfront : ∀ k ∈ front, (k.compareLower i).isLT = true)
    (hstart : (j.compareLower i).isLT = false) (ho : j.overlaps i = true) :
    level.Obstacle i j := by
  have hrest := (List.pairwise_append.mp (hsplit ▸ h.ascending)).2.1
  refine .next (by simp [hsplit]) ho hstart fun k hk _ hkstart => ?_
  rcases List.mem_append.mp (hsplit ▸ hk) with hk | hk
  · cases (hfront k hk).symm.trans hkstart
  · rcases List.mem_cons.mp hk with rfl | hk
    · simp [Interval.compareLower_self]
    · exact Interval.compareLower_isLT_asymm ((List.pairwise_cons.mp hrest).1 k hk)

theorem obstacle_predecessor (h : level.Sound) {init back : List Interval}
    (hsplit : level.intervals = init ++ j :: back) (hstart : (j.compareLower i).isLT = true)
    (hback : ∀ k ∈ back, (k.compareLower i).isLT = false)
    (hapart : ∀ k ∈ back, k.overlaps i = false) (ho : j.overlaps i = true) :
    level.Obstacle i j := by
  have hbefore : ∀ k ∈ init, (k.compareLower j).isLT = true := fun k hk =>
    (List.pairwise_append.mp (hsplit ▸ h.ascending)).2.2 k hk j List.mem_cons_self
  have hmem : ∀ {k}, k ∈ level.intervals → k ∈ init ∨ k = j ∨ k ∈ back := by
    intro k hk
    simpa [hsplit] using hk
  refine .predecessor (by simp [hsplit]) ho hstart (fun k hk hkstart => ?_) fun k hk hkstart => ?_
  · rcases hmem hk with hk | rfl | hk
    · cases (Interval.compareLower_isLT_trans (hbefore k hk) hstart).symm.trans hkstart
    · cases hstart.symm.trans hkstart
    · exact hapart k hk
  · rcases hmem hk with hk | rfl | hk
    · exact Interval.compareLower_isLT_asymm (hbefore k hk)
    · simp [Interval.compareLower_self]
    · cases (hback k hk).symm.trans hkstart

theorem overlaps_of_vacant {front back : List (Band α)} (hsplit : level.bands.toList = front ++ back)
    (hfront : ∀ band ∈ front, band.interval.Precedes i)
    (hback : ∀ band ∈ back, i.Precedes band.interval) (hj : j ∈ level.intervals) :
    j.overlaps i = false := by
  obtain ⟨band, hband, rfl⟩ := List.mem_map.mp hj
  rcases List.mem_append.mp (hsplit ▸ hband) with hb | hb
  · exact (hfront band hb).overlaps
  · exact Interval.overlaps_comm i _ ▸ (hback band hb).overlaps

/-- Where the band behind lies apart, the one in front decides. -/
theorem place_eq_of_skip {front back : List (Band α)} (hsplit : level.bands.toList = front ++ back)
    (hindex : partitionPoint (fun band : Band α => (band.interval.compareLower i).isLT)
      level.bands = front.length)
    (hskip : ∀ head ∈ back.head?, head.interval ≠ i ∧ head.interval.overlaps i = false) :
    level.place i = front.getLast?.elim (.vacant front.length) fun last =>
      if last.interval.overlaps i then .overlapping last.interval else .vacant front.length := by
  simp only [place, hindex, before?_length hsplit, bands_getElem?_length hsplit]
  cases hhead : back.head? with
  | none => cases front.getLast? <;> rfl
  | some head =>
      obtain ⟨hne, ho⟩ := hskip head hhead
      cases front.getLast? <;> simp [hne, ho]

/-- An interval is placed at the bands that start below it: it is the first of the others, or it
overlaps that one or the last in front of it, or it overlaps no band at all. -/
theorem place_cases (h : level.Sound) (hi : i.isEmpty = false) :
    (∃ front child back, level.bands.toList = front ++ ⟨i, child⟩ :: back ∧
      level.place i = .identical front.length child) ∨
    (∃ j, j ≠ i ∧ level.Obstacle i j ∧ level.place i = .overlapping j) ∨
    ∃ front back, level.bands.toList = front ++ back ∧
      (∀ band ∈ front, band.interval.Precedes i) ∧ (∀ band ∈ back, i.Precedes band.interval) ∧
      level.place i = .vacant front.length := by
  have hprec : level.bands.toList.Pairwise fun a b => a.interval.Precedes b.interval :=
    List.pairwise_map.mp h.precedes
  have hne : ∀ band ∈ level.bands.toList, band.interval.isEmpty = false := by
    intro band hband
    exact h.nonempty _ (mem_intervals hband)
  have hmono : level.bands.toList.Pairwise fun a b =>
      (b.interval.compareLower i).isLT = true → (a.interval.compareLower i).isLT = true :=
    (List.pairwise_map.mp h.ascending).imp Interval.compareLower_isLT_trans
  obtain ⟨front, back, hsplit, hindex, hfront, hback⟩ := exists_split_partitionPoint hmono
  have hintervals : level.intervals = front.map Band.interval ++ back.map Band.interval := by
    rw [intervals, hsplit, List.map_append]
  rw [hsplit] at hprec hne ⊢
  obtain ⟨hpfront, hpback, -⟩ := List.pairwise_append.mp hprec
  rcases back_cases hpback (fun b hb => hne b (by simp [hb])) hback with
    ⟨head, hhead, ho⟩ | ⟨hhead, hbefore⟩
  · obtain ⟨rest, rfl⟩ := List.head?_eq_some_iff.mp hhead
    simp only [place, hindex, bands_getElem?_length hsplit, List.head?_cons]
    by_cases heq : head.interval = i
    · exact Or.inl ⟨front, head.child, rest, by rw [← heq], by simp [heq]⟩
    · have hobstacle : level.Obstacle i head.interval :=
        obstacle_next h hintervals (by simpa using hfront) (hback head List.mem_cons_self) ho
      exact Or.inr (Or.inl ⟨head.interval, heq, hobstacle, by simp [heq, ho]⟩)
  · have hskip : ∀ head ∈ back.head?, head.interval ≠ i ∧ head.interval.overlaps i = false := by
      intro head hh
      refine ⟨?_, hhead head hh⟩
      rintro rfl
      have hself := hhead head hh
      rw [Interval.overlaps_self, hi] at hself
      cases hself
    rw [place_eq_of_skip hsplit hindex hskip]
    rcases front_cases hpfront (fun b hb => hne b (by simp [hb])) hi hfront with
      ⟨last, hlast, ho⟩ | ⟨hlast, hafter⟩
    · obtain ⟨init, rfl⟩ := List.getLast?_eq_some_iff.mp hlast
      have hstart := hfront last (by simp)
      have hne : last.interval ≠ i := by
        rintro rfl
        simp [Interval.compareLower_self] at hstart
      have hapart : ∀ band ∈ back, band.interval.overlaps i = false := fun band hband =>
        Interval.overlaps_comm i _ ▸ (hbefore band hband).overlaps
      have hobstacle : level.Obstacle i last.interval :=
        obstacle_predecessor h (by simpa using hintervals) hstart (by simpa using hback)
          (by simpa using hapart) ho
      exact Or.inr (Or.inl ⟨last.interval, hne, hobstacle, by simp [ho]⟩)
    · refine Or.inr (Or.inr ⟨front, back, rfl, hafter, hbefore, ?_⟩)
      cases hl : front.getLast? with
      | none => rfl
      | some last => simp [hlast last hl]

theorem place_of_overlap (h : level.Sound) (hi : i.isEmpty = false)
    (hother : ∃ j ∈ level.intervals, j ≠ i ∧ j.overlaps i = true) :
    ∃ j, j ≠ i ∧ level.Obstacle i j ∧ level.place i = .overlapping j := by
  obtain ⟨j, hj, hne, ho⟩ := hother
  rcases place_cases h hi with ⟨front, child, back, hsplit, -⟩ | hplace |
    ⟨front, back, hsplit, hfront, hback, -⟩
  · have hmem : i ∈ level.intervals := by simp [intervals, hsplit]
    rcases h.eq_or_disjoint hj hmem with rfl | hdisjoint
    · exact absurd rfl hne
    · cases hdisjoint.symm.trans ho
  · exact hplace
  · cases (overlaps_of_vacant hsplit hfront hback hj).symm.trans ho

theorem place_of_mem (h : level.Sound) (hmem : i ∈ level.intervals) :
    ∃ front child back, level.bands.toList = front ++ ⟨i, child⟩ :: back ∧
      level.place i = .identical front.length child := by
  have hi := h.nonempty i hmem
  rcases place_cases h hi with hplace | ⟨j, hne, hobstacle, -⟩ |
    ⟨front, back, hsplit, hfront, hback, -⟩
  · exact hplace
  · rcases h.eq_or_disjoint hobstacle.mem hmem with rfl | hdisjoint
    · exact absurd rfl hne
    · cases hdisjoint.symm.trans hobstacle.overlaps
  · have hself := overlaps_of_vacant hsplit hfront hback hmem
    rw [Interval.overlaps_self, hi] at hself
    cases hself

theorem place_of_apart (h : level.Sound) (hi : i.isEmpty = false)
    (hapart : ∀ j ∈ level.intervals, j.overlaps i = false) :
    ∃ front back, level.bands.toList = front ++ back ∧ level.place i = .vacant front.length := by
  rcases place_cases h hi with ⟨front, child, back, hsplit, -⟩ | ⟨j, -, hobstacle, -⟩ |
    ⟨front, back, hsplit, -, -, hplace⟩
  · have hself := hapart i (by simp [intervals, hsplit])
    rw [Interval.overlaps_self, hi] at hself
    cases hself
  · cases (hapart j hobstacle.mem).symm.trans hobstacle.overlaps
  · exact ⟨front, back, hsplit, hplace⟩

/-- What the place of an interval says of any level, whatever the order of its bands: a band with the
same interval, another interval that overlaps, or an index. -/
theorem place_of_any (level : RangeLevel α) (i : Interval) :
    (∃ front child back, level.bands.toList = front ++ ⟨i, child⟩ :: back ∧
      level.place i = .identical front.length child) ∨
    (∃ j ∈ level.intervals, j ≠ i ∧ j.overlaps i = true ∧ level.place i = .overlapping j) ∨
    ∃ front back, level.bands.toList = front ++ back ∧ level.place i = .vacant front.length := by
  have hcut : ∀ n ≤ level.bands.size, ∃ front back, level.bands.toList = front ++ back ∧
      n = front.length := by
    intro n hn
    refine ⟨_, _, (List.take_append_drop n _).symm, ?_⟩
    rw [List.length_take, Array.length_toList, Nat.min_eq_left hn]
  obtain ⟨front, back, hsplit, hindex⟩ := hcut _
    (partitionPoint_le_size (fun band => (band.interval.compareLower i).isLT) level.bands)
  have hintervals : ∀ band, band ∈ front ++ back → band.interval ∈ level.intervals :=
    fun band hband => mem_intervals (hsplit ▸ hband)
  by_cases hskip : ∀ head ∈ back.head?, head.interval ≠ i ∧ head.interval.overlaps i = false
  · rw [place_eq_of_skip hsplit hindex hskip]
    cases hlast : front.getLast? with
    | none => exact Or.inr (Or.inr ⟨front, back, hsplit, rfl⟩)
    | some last =>
        cases ho : last.interval.overlaps i with
        | false => exact Or.inr (Or.inr ⟨front, back, hsplit, by simp [ho]⟩)
        | true =>
            obtain ⟨init, rfl⟩ := List.getLast?_eq_some_iff.mp hlast
            refine Or.inr (Or.inl ⟨last.interval, hintervals last (by simp), ?_, ho, by simp [ho]⟩)
            have hbefore := any_of_partitionPoint_eq_succ (hindex.trans List.length_append)
            rw [← Array.getElem?_toList, hsplit] at hbefore
            rintro rfl
            simp [Interval.compareLower_self] at hbefore
  · simp only [not_forall] at hskip
    obtain ⟨head, hhead, hmeets⟩ := hskip
    obtain ⟨rest, rfl⟩ := List.head?_eq_some_iff.mp hhead
    simp only [place, hindex, bands_getElem?_length hsplit, List.head?_cons]
    by_cases heq : head.interval = i
    · exact Or.inl ⟨front, head.child, rest, by rw [hsplit, ← heq], by simp [heq]⟩
    · have ho : head.interval.overlaps i = true := by
        simpa [heq] using hmeets
      exact Or.inr (Or.inl ⟨head.interval, hintervals head (by simp), heq, ho, by simp [heq, ho]⟩)

/-! ## Changing a level -/

theorem modify_append_length {front back : List α} {a : α} (f : α → α) :
    (front ++ a :: back).modify front.length f = front ++ f a :: back := by
  induction front with
  | nil => rfl
  | cons b front ih => simp [ih]

theorem insertIdx_append_length {front back : List α} {a : α} :
    (front ++ back).insertIdx front.length a = front ++ a :: back := by
  induction front with
  | nil => rfl
  | cons b front ih => simp [ih]

theorem eq_of_toList {bands : List (Band α)} (h : level.bands.toList = bands) :
    level = ⟨⟨bands⟩⟩ := by
  obtain ⟨⟨bands'⟩⟩ := level
  cases h
  rfl

theorem bands_setChild {front back : List (Band α)} {c : α}
    (hsplit : level.bands.toList = front ++ ⟨i, c⟩ :: back) (c' : α) :
    (level.setChild front.length c').bands.toList = front ++ ⟨i, c'⟩ :: back := by
  rw [setChild, Array.toList_modify, hsplit, modify_append_length]

theorem bands_insertBand {front back : List (Band α)} (hsplit : level.bands.toList = front ++ back)
    (band : Band α) :
    (level.insertBand front.length band).bands.toList = front ++ band :: back := by
  have hle : front.length ≤ level.bands.size := by
    rw [← Array.length_toList, hsplit, List.length_append]
    exact Nat.le_add_right _ _
  rw [insertBand, Array.insertIdxIfInBounds, dif_pos hle, Array.toList_insertIdx, hsplit,
    insertIdx_append_length]

/-- With another child at a band, the level is as sound as before and leads elsewhere only there. -/
theorem setChild_spec (h : level.Sound) {front back : List (Band α)} {c : α}
    (hsplit : level.bands.toList = front ++ ⟨i, c⟩ :: back) (c' : α) :
    (level.setChild front.length c').Sound ∧
      ∀ j, (level.setChild front.length c').getExact? j =
        if j = i then some c' else level.getExact? j := by
  have hintervals : (level.setChild front.length c').intervals = level.intervals := by
    simp [intervals, bands_setChild hsplit, hsplit]
  have hnot : i ∉ (front.map fun band => (band.interval, band.child)).map Prod.fst := by
    simp only [List.map_map, List.mem_map, Function.comp_def, not_exists, not_and]
    exact fun band hband => h.ne_of_split hsplit (List.mem_append_left back hband)
  refine ⟨h.of_intervals_eq hintervals, fun j => ?_⟩
  simp only [getExact?, entries, bands_setChild hsplit, hsplit, List.map_append, List.map_cons]
  rw [Entries.lookup_between hnot, Entries.lookup_between hnot]
  split <;> rfl

/-- With a band more, between those that precede it and those that it precedes, the level is sound
and leads elsewhere only there. -/
theorem insertBand_spec (h : level.Sound) (hi : i.isEmpty = false) {front back : List (Band α)}
    (hsplit : level.bands.toList = front ++ back)
    (hfront : ∀ band ∈ front, band.interval.Precedes i)
    (hback : ∀ band ∈ back, i.Precedes band.interval) (c : α) :
    (level.insertBand front.length ⟨i, c⟩).Sound ∧
      ∀ j, (level.insertBand front.length ⟨i, c⟩).getExact? j =
        if j = i then some c else level.getExact? j := by
  have hprec := h.precedes
  have hne := h.nonempty
  simp only [intervals, hsplit, List.map_append] at hprec hne
  obtain ⟨hpfront, hpback, hcross⟩ := List.pairwise_append.mp hprec
  have hnot : i ∉ (front.map fun band => (band.interval, band.child)).map Prod.fst := by
    simp only [List.map_map, List.mem_map, Function.comp_def, not_exists, not_and]
    intro band hband
    exact (hfront band hband).ne (hne _ (by simp; exact Or.inl ⟨band, hband, rfl⟩))
  refine ⟨Sound.of_precedes ?_ ?_, fun j => ?_⟩
  · intro j hj
    simp only [intervals, bands_insertBand hsplit, List.map_append, List.map_cons] at hj
    rcases List.mem_append.mp hj with hj | hj
    · exact hne j (List.mem_append_left _ hj)
    · rcases List.mem_cons.mp hj with rfl | hj
      · exact hi
      · exact hne j (List.mem_append_right _ hj)
  · simp only [intervals, bands_insertBand hsplit, List.map_append, List.map_cons]
    refine List.pairwise_append.mpr ⟨hpfront, List.pairwise_cons.mpr ⟨?_, hpback⟩, ?_⟩
    · simpa using hback
    · intro j hj k hk
      rcases List.mem_cons.mp hk with rfl | hk
      · obtain ⟨band, hband, rfl⟩ := List.mem_map.mp hj
        exact hfront band hband
      · exact hcross j hj k hk
  · simp only [getExact?, entries, bands_insertBand hsplit, hsplit, List.map_append, List.map_cons]
    rw [Entries.lookup_between hnot]

/-! ## Finding a key -/

theorem mem_entries_iff {c : α} :
    (i, c) ∈ level.entries ↔ ⟨i, c⟩ ∈ level.bands.toList := by
  constructor
  · intro h
    obtain ⟨band, hband, heq⟩ := List.mem_map.mp h
    cases heq
    exact hband
  · exact fun h => List.mem_map.mpr ⟨⟨i, c⟩, h, rfl⟩

theorem getExact?_eq_some_iff (h : level.Sound) {c : α} :
    level.getExact? i = some c ↔ ⟨i, c⟩ ∈ level.bands.toList := by
  rw [← mem_entries_iff]
  exact ⟨Entries.mem_of_lookup, Entries.lookup_of_mem (keys_entries level ▸ h.nodup)⟩

/-- The band found for a key is the one whose interval contains it. -/
theorem find?_eq_some_iff (h : level.Sound) {key : KeyValue} {band : Band α} :
    level.find? key = some band ↔
      band ∈ level.bands.toList ∧ band.interval.contains key = true := by
  have hprec : level.bands.toList.Pairwise fun a b => a.interval.Precedes b.interval :=
    List.pairwise_map.mp h.precedes
  have hne : ∀ band ∈ level.bands.toList, band.interval.isEmpty = false := by
    intro band hband
    exact h.nonempty _ (mem_intervals hband)
  have hmono : level.bands.toList.Pairwise fun a b =>
      b.interval.startsAtOrBefore key = true → a.interval.startsAtOrBefore key = true :=
    hprec.imp_of_mem fun ha _ hab => hab.startsAtOrBefore (hne _ ha)
  obtain ⟨front, back, hsplit, hindex, hfront, hback⟩ := exists_split_partitionPoint hmono
  have hpfront : front.Pairwise fun a b => a.interval.Precedes b.interval :=
    (List.pairwise_append.mp (hsplit ▸ hprec)).1
  simp only [find?, hindex, before?_length hsplit, Option.filter_eq_some_iff, Interval.contains,
    Bool.and_eq_true]
  constructor
  · rintro ⟨hlast, hends⟩
    have hmem := List.mem_of_getLast? hlast
    exact ⟨by simp [hsplit, hmem], hfront band hmem, hends⟩
  · rintro ⟨hmem, hstarts, hends⟩
    refine ⟨?_, hends⟩
    rcases List.mem_append.mp (hsplit ▸ hmem) with hmem | hmem
    · rcases List.eq_nil_or_concat front with rfl | ⟨init, last, rfl⟩
      · cases hmem
      · rw [List.concat_eq_append] at hmem hpfront hfront ⊢
        rcases List.mem_append.mp hmem with hmem | hmem
        · have hbefore := (List.pairwise_append.mp hpfront).2.2 band hmem last (by simp)
          simp [hbefore.endsAfter (hfront last (by simp))] at hends
        · obtain rfl := List.mem_singleton.mp hmem
          simp
    · simp [hback band hmem] at hstarts

/-- The band found for a key is the one of an interval that contains it, if no other does. -/
theorem find?_eq_map (h : level.Sound) {key : KeyValue} (hi : i.contains key = true)
    (hother : ∀ j, (level.getExact? j).isSome → j.contains key = true → j = i) :
    level.find? key = (level.getExact? i).map (Band.mk i) := by
  ext ⟨j, c⟩
  rw [find?_eq_some_iff h, ← getExact?_eq_some_iff h, Option.map_eq_some_iff]
  constructor
  · rintro ⟨hc, hj⟩
    obtain rfl := hother j (by rw [hc]; rfl) hj
    exact ⟨c, hc, rfl⟩
  · rintro ⟨_, hc, ⟨⟩⟩
    exact ⟨hc, hi⟩

theorem find?_eq_none (h : level.Sound) {key : KeyValue}
    (hnone : ∀ j, (level.getExact? j).isSome → j.contains key = false) :
    level.find? key = none := by
  rw [Option.eq_none_iff_forall_ne_some]
  rintro ⟨j, c⟩ hband
  rw [find?_eq_some_iff h, ← getExact?_eq_some_iff h] at hband
  simp [hnone j (by simp [hband.1])] at hband

theorem get?_eq_some_iff (h : level.Sound) {key : KeyValue} {c : α} :
    level.get? key = some c ↔ ∃ i, level.getExact? i = some c ∧ i.contains key = true := by
  simp only [get?, Option.map_eq_some_iff, find?_eq_some_iff h, getExact?_eq_some_iff h]
  constructor
  · rintro ⟨⟨i, c⟩, ⟨hmem, hcontains⟩, rfl⟩
    exact ⟨i, hmem, hcontains⟩
  · rintro ⟨i, hmem, hcontains⟩
    exact ⟨⟨i, c⟩, ⟨hmem, hcontains⟩, rfl⟩

/-! ## Inserting -/

theorem getExact?_of_split (h : level.Sound) {front back : List (Band α)} {c : α}
    (hsplit : level.bands.toList = front ++ ⟨i, c⟩ :: back) : level.getExact? i = some c :=
  (getExact?_eq_some_iff h).mpr (by simp [hsplit])

variable (standIn : α) (merge : α → Merging α) (child : α) (path : KeyPath)

theorem insert_of_isEmpty (hi : i.isEmpty = true) : insert standIn merge i child ⟨level, path⟩ =
    .error (.invalidKey path.depth s!"empty interval {i.display} at {path.display}" none)
      ⟨level, path⟩ := by
  simp only [insert, bind_run, get_run, hi, if_true]
  rfl

theorem insert_run (hi : i.isEmpty = false) : insert standIn merge i child ⟨level, path⟩ =
    match level.place i with
    | .overlapping j =>
      .error (.overlappingRange path.display j.display i.display none) ⟨level, path⟩
    | .vacant index => .ok () ⟨level.insertBand index ⟨i, child⟩, path⟩
    | .identical index existing =>
      Filling.settle (level.setChild index) (level.setChild index standIn)
        (merge existing (path.push i.display)) := by
  simp only [insert, bind_run, get_run, hi, Bool.false_eq_true, if_false]
  cases level.place i with
  | overlapping j => rfl
  | vacant index => rfl
  | identical index existing =>
      simp only [bind_run, Filling.push_run, Filling.setLevel_run, Filling.merging_run]
      cases merge existing (path.push i.display) <;> rfl

/-- Inserting at an interval that is there already replaces its child by the merged one, or leaves
the stand-in where the merge fails; an interval that overlaps another one is refused; any other
interval is added. -/
theorem insert_cases (h : level.Sound) (hi : i.isEmpty = false) :
    (∃ existing, ∃ put : α → RangeLevel α, level.getExact? i = some existing ∧
      (∀ c, (put c).Sound ∧
        ∀ j, (put c).getExact? j = if j = i then some c else level.getExact? j) ∧
      insert standIn merge i child ⟨level, path⟩ =
        Filling.settle put (put standIn) (merge existing (path.push i.display))) ∨
    (∃ j, (level.getExact? j).isSome ∧ j ≠ i ∧ j.overlaps i = true ∧
      insert standIn merge i child ⟨level, path⟩ =
        .error (.overlappingRange path.display j.display i.display none) ⟨level, path⟩) ∨
    (level.getExact? i = none ∧ (∀ j, (level.getExact? j).isSome → j.overlaps i = false) ∧
      ∃ grown : RangeLevel α, grown.Sound ∧
        (∀ j, grown.getExact? j = if j = i then some child else level.getExact? j) ∧
        insert standIn merge i child ⟨level, path⟩ = .ok () ⟨grown, path⟩) := by
  rw [insert_run standIn merge child path hi]
  rcases place_cases h hi with ⟨front, existing, back, hsplit, hplace⟩ |
    ⟨j, hne, hobstacle, hplace⟩ | ⟨front, back, hsplit, hfront, hback, hplace⟩
  · refine Or.inl ⟨existing, level.setChild front.length, getExact?_of_split h hsplit,
      setChild_spec h hsplit, ?_⟩
    simp only [hplace]
  · refine Or.inr (Or.inl ⟨j, mem_intervals_iff.mp hobstacle.mem, hne, hobstacle.overlaps, ?_⟩)
    simp only [hplace]
  · obtain ⟨hsound, hget⟩ := insertBand_spec h hi hsplit hfront hback child
    have hdisjoint : ∀ j, (level.getExact? j).isSome → j.overlaps i = false := fun j hj =>
      overlaps_of_vacant hsplit hfront hback (mem_intervals_iff.mpr hj)
    refine Or.inr (Or.inr ⟨?_, hdisjoint, _, hsound, hget, ?_⟩)
    · rw [Option.eq_none_iff_forall_ne_some]
      intro c hc
      have hover := hdisjoint i (by simp [hc])
      rw [Interval.overlaps_self, hi] at hover
      cases hover
    · simp only [hplace]

end RangeLevel

end DecisionTable
