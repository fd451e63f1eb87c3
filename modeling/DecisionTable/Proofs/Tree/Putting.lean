import DecisionTable.Proofs.Tree.Conflict
import DecisionTable.Proofs.Tree.Sound

/-!
# Putting a child into a level

A merge changes the tree that it merges into one child of one level at a time. What such a change
does to the view of a tree does not depend on how the entries of exact levels are listed; so it is
enough to know of the changed tree that its range levels are sound, and of the other one that it
lists each key once.

* `PutsAt`, `Grows` : a level with another child at one step, and with a child more;
* `Kept` : properties of trees that such changes keep;
* `Readable` : the range levels of a tree are sound, as far as steps lead to them;
* `Lawful` : the range levels of a tree are sound and its exact levels list each key once, in
  whatever order.
-/

namespace DecisionTable.Tree

open Ordered
open View (Beside graft)

variable {P : Type} {a b c : Tree P} {s : ColumnKey} {p : Position}

/-! ## Putting a child -/

/-- The level with another child at one step, and nothing else changed. -/
structure PutsAt (a : Tree P) (s : ColumnKey) (c a' : Tree P) : Prop where
  label : a'.label = a.label
  child : ∀ t, a'.child? t = if t = s then some c else a.child? t

theorem PutsAt.child_cases {a' d : Tree P} {t : ColumnKey} (hput : PutsAt a s c a')
    (hd : a'.child? t = some d) : c = d ∨ a.child? t = some d := by
  rw [hput.child] at hd
  split at hd
  · exact Or.inl (Option.some.inj hd)
  · exact Or.inr hd

theorem PutsAt.view {a' : Tree P} (hput : PutsAt a s c a') {v : View P}
    (hc : c.view = (a.view.below s).join v) : a'.view = a.view.join (graft a.label s v) := by
  funext p
  cases p with
  | nil =>
      unfold View.join
      rw [view_nil, view_nil, hput.label]
      exact congrArg some a.label.join_self.symm
  | cons t p =>
      have ht := hput.child t
      by_cases hts : t = s
      · subst hts
        rw [if_pos rfl] at ht
        have hbelow := congrFun (below_view_of_child ht) p
        rw [hc] at hbelow
        unfold View.join at hbelow ⊢
        simpa [graft, View.below] using hbelow
      · rw [if_neg hts] at ht
        have hbelow : a'.view.below t = a.view.below t := by
          cases h : a.child? t with
          | none => rw [below_view_of_no_child h, below_view_of_no_child (ht.trans h)]
          | some d => rw [below_view_of_child h, below_view_of_child (ht.trans h)]
        unfold View.join
        rw [show a'.view (t :: p) = a.view (t :: p) from congrFun hbelow p]
        simp [graft, hts]

structure Grows (a : Tree P) (s : ColumnKey) (c a' : Tree P) : Prop extends PutsAt a s c a' where
  vacant : a.child? s = none
  meets : a.label.Meets a.label
  disjoint : ∀ i j, (a.child? (.range i)).isSome → s = .range j → i.overlaps j = false

theorem Grows.view {a' : Tree P} (hgrow : Grows a s c a') :
    a'.view = a.view.join (graft a.label s c.view) := by
  refine hgrow.toPutsAt.view ?_
  rw [below_view_of_no_child hgrow.vacant, View.none_join]

theorem Grows.beside {a' : Tree P} (hgrow : Grows a s c a') :
    Beside a.view (graft a.label s c.view) where
  root := ⟨a.label, hgrow.meets, rfl, rfl⟩
  apart t := by
    by_cases hts : t = s
    · exact Or.inl (hts ▸ below_view_of_no_child hgrow.vacant)
    · exact Or.inr (View.below_graft_of_ne a.label c.view hts)
  disjoint i j hi hj := by
    refine hgrow.disjoint i j (isSome_view_singleton a _ ▸ hi) ?_
    by_contra hs
    simp [graft, Ne.symm hs] at hj

/-! ## Putting at a key, a fallback or an interval -/

theorem putsAt_key (level : ExactLevel (Tree P)) (key : KeyValue) (c : Tree P) :
    PutsAt (exact level) (.exact key) c (exact (level.put key c)) where
  label := rfl
  child t := by
    cases t with
    | exact value =>
        simp only [child?, ExactLevel.getExact?, ExactLevel.put, Entries.lookup_put,
          ColumnKey.exact.injEq]
    | any => rfl
    | range i => rfl

theorem putsAt_fallback (level : ExactLevel (Tree P)) (c : Tree P) :
    PutsAt (exact level) .any c (exact { level with fallback := some c }) where
  label := rfl
  child t := by cases t <;> rfl

theorem putsAt_interval {level level' : RangeLevel (Tree P)} {i : Interval}
    (hget : ∀ j, level'.getExact? j = if j = i then some c else level.getExact? j) :
    PutsAt (range level) (.range i) c (range level') where
  label := rfl
  child t := by
    cases t with
    | exact value => rfl
    | any => rfl
    | range j => simp only [child?, hget, ColumnKey.range.injEq]

/-! ## Properties that are kept -/

/-- A property of trees that passes to children, makes range levels sound, and is kept where a child
is put into a level or payloads are added to a leaf. -/
structure Kept [Ord P] (Q : Tree P → Prop) : Prop where
  child : ∀ {a c : Tree P} {s : ColumnKey}, Q a → a.child? s = some c → Q c
  bands : ∀ {level : RangeLevel (Tree P)}, Q (range level) → level.Sound
  putKey : ∀ {level : ExactLevel (Tree P)} {c : Tree P} (key : KeyValue), Q (exact level) → Q c →
    Q (exact (level.put key c))
  putFallback : ∀ {level : ExactLevel (Tree P)} {c : Tree P}, Q (exact level) → Q c →
    Q (exact { level with fallback := some c })
  putInterval : ∀ {level level' : RangeLevel (Tree P)} {c : Tree P} {s : ColumnKey},
    Q (range level) → Q c → level'.Sound → PutsAt (range level) s c (range level') →
    Q (range level')
  union : ∀ {values : List P} (values' : List P), Q (multi values) →
    Q (multi (Distinct.union values values'))

theorem Kept.ofChildren [Ord P] {Q : Tree P → Prop} (kept : Kept Q)
    {level : ExactLevel (Tree P)} (h : Q (exact level)) (distinct : level.keys.Nodup) :
    ∀ entry ∈ level.children, Q entry.2 :=
  fun _ he => kept.child (s := .exact _) h (Entries.lookup_of_mem distinct he)

theorem Kept.ofBands [Ord P] {Q : Tree P → Prop} (kept : Kept Q)
    {level : RangeLevel (Tree P)} (h : Q (range level)) :
    ∀ band ∈ level.bands.toList, Q band.child := by
  intro band hband
  have hget := (RangeLevel.getExact?_eq_some_iff (kept.bands h)).mpr hband
  exact kept.child (s := .range band.interval) h hget

theorem kept_sound [Payload P] : Kept (P := P) Sound where
  child := Sound.child
  bands := Sound.of_range
  putKey {level c} key h hc := by
    cases h with
    | exact ascending children fallback =>
        refine .exact_of_children (Entries.ascending_put ascending) fun t d hd => ?_
        rcases (putsAt_key level key c).child_cases hd with rfl | hd
        · exact hc
        · exact (Sound.exact ascending children fallback).child hd
  putFallback {level c} h hc := by
    cases h with
    | exact ascending children fallback =>
        refine .exact ascending children ?_
        rintro d ⟨rfl⟩
        exact hc
  putInterval h hc hsound hput := by
    apply Sound.range_of_children hsound
    intro t d hd
    rcases hput.child_cases hd with rfl | hd
    · exact hc
    · exact h.child hd
  union values' h := by
    cases h with
    | multi ascending => exact .multi (Distinct.ascending_union ascending)

/-! ## Readable trees -/

/-- The range levels of a tree are sound, as far as steps lead to them. -/
def Readable (a : Tree P) : Prop := ∀ p level, a.at? p = some (range level) → level.Sound

theorem Readable.child (h : a.Readable) (hc : a.child? s = some c) : c.Readable := by
  intro p level hp
  exact h (s :: p) level (by rw [at?, hc]; exact hp)

theorem readable_of_children (hroot : ∀ level, a = range level → level.Sound)
    (h : ∀ s c, a.child? s = some c → c.Readable) : a.Readable := by
  intro p level hp
  cases p with
  | nil => exact hroot level (Option.some.inj hp)
  | cons s p =>
      obtain ⟨c, hc, hp⟩ := Option.bind_eq_some_iff.mp hp
      exact h s c hc p level hp

theorem PutsAt.readable {a' : Tree P} (hput : PutsAt a s c a')
    (hroot : ∀ level, a' = range level → level.Sound) (ha : a.Readable) (hc : c.Readable) :
    a'.Readable := by
  refine readable_of_children hroot fun t d hd => ?_
  rcases hput.child_cases hd with rfl | hd
  · exact hc
  · exact ha.child hd

theorem kept_readable [Ord P] : Kept (P := P) Readable where
  child := Readable.child
  bands h := h [] _ rfl
  putKey {level c} key h hc := (putsAt_key level key c).readable nofun h hc
  putFallback {level c} h hc := (putsAt_fallback level c).readable nofun h hc
  putInterval h hc hsound hput := by
    refine hput.readable (fun level heq => ?_) h hc
    cases heq
    exact hsound
  union _ _ := readable_of_children nofun nofun

/-! ## Lawful trees -/

/-- Exact levels list each key once, in whatever order; the intervals of range levels are not empty,
ascend and are pairwise disjoint. -/
inductive Lawful : Tree P → Prop where
  | exact {level : ExactLevel (Tree P)} (distinct : level.keys.Nodup)
      (children : ∀ entry ∈ level.children, Lawful entry.2)
      (fallback : ∀ child ∈ level.fallback, Lawful child) : Lawful (.exact level)
  | range {level : RangeLevel (Tree P)} (sound : level.Sound)
      (children : ∀ band ∈ level.bands.toList, Lawful band.child) : Lawful (.range level)
  | unique (value : P) (row : Option Nat) : Lawful (.unique value row)
  | multi (values : List P) : Lawful (.multi values)

theorem Sound.lawful [Ord P] (h : a.Sound) : a.Lawful := by
  induction h with
  | exact ascending _ _ ihc ihf => exact .exact (Entries.nodup_keys ascending) ihc ihf
  | range sound _ ih => exact .range sound ih
  | unique value row => exact .unique value row
  | multi _ => exact .multi _

theorem Lawful.readable (h : a.Lawful) : a.Readable := by
  induction h with
  | exact _ _ _ ihc ihf =>
      refine readable_of_children nofun fun s c hc => ?_
      cases s with
      | exact key => exact ihc _ (Entries.mem_of_lookup hc)
      | any => exact ihf c hc
      | range i => cases hc
  | @range level sound _ ih =>
      refine readable_of_children (fun level' heq => ?_) fun s c hc => ?_
      · cases heq
        exact sound
      · cases s with
        | exact key => cases hc
        | any => cases hc
        | range i =>
            obtain ⟨band, hband, -, rfl⟩ := mem_of_child?_range hc
            exact ih band hband
  | unique value row => exact readable_of_children nofun nofun
  | multi values => exact readable_of_children nofun nofun

end DecisionTable.Tree
