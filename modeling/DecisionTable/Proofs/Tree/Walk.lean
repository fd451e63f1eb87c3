import DecisionTable.Proofs.Tree.Merge

/-!
# The walk of a merge

A merge steps down along a key path and up again, one child after another. What it finds on its way
comes from the two trees that it started with, and what stops it is found at a position of both, or
of the incoming tree alone if that is not in order. None of this needs levels to be in order: a
level may list a key twice, and bands may stand in any order.

* `Leads`, `Has` : the structures at a position of any tree;
* `Drawn` : the structures of a tree are all like given ones;
* `Blocked` : why a merge goes no further at a position;
* `Ends`, `FillEnds` : how a merge, and the filling of a level, ends, with one lemma per step;
* `merge_ends` : how every merge ends, by induction on the incoming tree.
-/

namespace DecisionTable

open Ordered

namespace Tree

variable {P L : Type} {a b c d : Tree P} {s : ColumnKey} {p : Position}

/-! ## Structures at a position -/

/-- A step leads to a child. Two children may be listed under one step. -/
inductive Leads : Tree P → ColumnKey → Tree P → Prop where
  | key {level : ExactLevel (Tree P)} {key : KeyValue} {c : Tree P}
      (h : (key, c) ∈ level.children) : Leads (.exact level) (.exact key) c
  | fallback {level : ExactLevel (Tree P)} {c : Tree P} (h : level.fallback = some c) :
      Leads (.exact level) .any c
  | band {level : RangeLevel (Tree P)} {i : Interval} {c : Tree P}
      (h : ⟨i, c⟩ ∈ level.bands.toList) : Leads (.range level) (.range i) c

inductive Has : Tree P → Position → Tree P → Prop where
  | root (a : Tree P) : Has a [] a
  | step {a b c : Tree P} {s : ColumnKey} {p : Position} (hb : a.Leads s b) (hc : b.Has p c) :
      Has a (s :: p) c

theorem leads_of_child? (h : a.child? s = some c) : a.Leads s c := by
  cases a with
  | exact level =>
      cases s with
      | exact key => exact .key (Entries.mem_of_lookup h)
      | any => exact .fallback h
      | range i => cases h
  | range level =>
      cases s with
      | range i =>
          obtain ⟨band, hband, rfl, rfl⟩ := mem_of_child?_range h
          exact .band hband
      | exact | any => cases h
  | unique | multi => cases h

theorem has_of_at? (h : a.at? p = some c) : a.Has p c := by
  induction p generalizing a with
  | nil => exact Option.some.inj h ▸ .root a
  | cons s p ih =>
      obtain ⟨b, hb, hc⟩ := Option.bind_eq_some_iff.mp h
      exact .step (leads_of_child? hb) (ih hc)

/-- A structure under an interval is below a range level with that interval. -/
theorem Has.exists_level {i : Interval} (h : a.Has (p ++ [.range i]) c) :
    ∃ level, a.Has p (.range level) ∧ i ∈ level.intervals := by
  induction p generalizing a with
  | nil =>
      cases h with
      | step hb _ =>
          cases hb with
          | band hband => exact ⟨_, .root _, RangeLevel.mem_intervals hband⟩
  | cons s p ih =>
      cases h with
      | step hb hc =>
          obtain ⟨level, hlevel, hi⟩ := ih hc
          exact ⟨level, .step hb hlevel, hi⟩

/-! ## Where structures come from -/

/-- A structure without its children, and without the payloads of a multi leaf. -/
def mark : Tree P → Label P
  | .multi _ => .multi ∅
  | a => a.label

theorem kind_mark (a : Tree P) : a.mark.kind = a.kind := by
  cases a <;> rfl

theorem eq_of_mark_unique {value : P} {row : Option Nat} (h : a.mark = .unique value row) :
    a = .unique value row := by
  cases a <;> cases h
  rfl

variable {S : Position → Tree P → Prop}

/-- Whatever a tree has at a position is like one of the structures that are given for it. -/
def Drawn (S : Position → Tree P → Prop) (a : Tree P) : Prop :=
  ∀ p c, a.Has p c → ∃ d, S p d ∧ d.mark = c.mark

theorem Drawn.child (h : Drawn S a) (hc : a.Leads s c) : Drawn (fun p => S (s :: p)) c :=
  fun p d hd => h (s :: p) d (.step hc hd)

/-- A tree stays drawn from given structures when a child drawn from them is put at a step. -/
theorem Drawn.put {a' : Tree P} (h : Drawn S a) (hc : Drawn (fun p => S (s :: p)) c)
    (hmark : a'.mark = a.mark) (hleads : ∀ t d, a'.Leads t d → t = s ∧ d = c ∨ a.Leads t d) :
    Drawn S a' := by
  intro p d hd
  cases hd with
  | root =>
      rw [hmark]
      exact h [] a (.root a)
  | step hb hd =>
      rcases hleads _ _ hb with ⟨rfl, rfl⟩ | hb
      · exact hc _ d hd
      · exact h _ d (.step hb hd)

theorem Drawn.putKey {level : ExactLevel (Tree P)} (h : Drawn S (exact level)) {key : KeyValue}
    (hc : Drawn (fun p => S (.exact key :: p)) c) : Drawn S (exact (level.put key c)) := by
  refine h.put hc rfl fun t d hd => ?_
  cases hd with
  | key hmem =>
      rcases Entries.mem_put hmem with heq | hmem
      · cases heq
        exact Or.inl ⟨rfl, rfl⟩
      · exact Or.inr (.key hmem)
  | fallback hfallback => exact Or.inr (.fallback hfallback)

theorem Drawn.putFallback {level : ExactLevel (Tree P)} (h : Drawn S (exact level))
    (hc : Drawn (fun p => S (.any :: p)) c) :
    Drawn S (exact { level with fallback := some c }) := by
  refine h.put hc rfl fun t d hd => ?_
  cases hd with
  | key hmem => exact Or.inr (.key hmem)
  | fallback hfallback => exact Or.inl ⟨rfl, (Option.some.inj hfallback).symm⟩

theorem Drawn.putBand {level level' : RangeLevel (Tree P)} (h : Drawn S (range level))
    {i : Interval} (hc : Drawn (fun p => S (.range i :: p)) c)
    (hbands : ∀ band ∈ level'.bands.toList, band = ⟨i, c⟩ ∨ band ∈ level.bands.toList) :
    Drawn S (range level') := by
  refine h.put hc rfl fun t d hd => ?_
  cases hd with
  | band hmem =>
      rcases hbands _ hmem with heq | hmem
      · cases heq
        exact Or.inl ⟨rfl, rfl⟩
      · exact Or.inr (.band hmem)

/-! ## How a merge ends -/

variable [Payload P] {report : KeyPath → TableError} {path : KeyPath}

/-- Why a merge of a tree goes no further at a position, where the structures that are there already
come from given ones, and how that is reported at a key path. -/
inductive Blocked (S : Position → Tree P → Prop) (b : Tree P) :
    Position → (KeyPath → TableError) → Prop where
  | kind {p : Position} {c d : Tree P} (hc : S p c) (hd : b.Has p d) (hne : c.kind ≠ d.kind) :
      Blocked S b p fun path => .inconsistentLeafKind path.display c.kind d.kind none
  | unique {p : Position} {value value' : P} {row row' : Option Nat} (hc : S p (.unique value row))
      (hd : b.Has p (.unique value' row')) :
      Blocked S b p fun path =>
        .uniqueKeyViolation path.display (Payload.display value) (Payload.display value') row row'
  | overlap {p : Position} {i j : Interval} {c d : Tree P} (hi : S (p ++ [.range i]) c)
      (hj : b.Has (p ++ [.range j]) d) (hne : i ≠ j) (hij : i.overlaps j = true) :
      Blocked S b p fun path => .overlappingRange path.display i.display j.display none
  | hollow {p : Position} {i : Interval} {d : Tree P} (hd : b.Has (p ++ [.range i]) d)
      (hi : i.isEmpty = true) :
      Blocked S b p fun path =>
        .invalidKey path.depth s!"empty interval {i.display} at {path.display}" none

/-- What goes no further below a child goes no further. -/
theorem Blocked.below (hchild : b.Leads s c) (h : Blocked (fun p => S (s :: p)) c p report) :
    Blocked S b (s :: p) report := by
  cases h with
  | kind hc hd hne => exact .kind (p := s :: p) hc (.step hchild hd) hne
  | unique hc hd => exact .unique (p := s :: p) hc (.step hchild hd)
  | overlap hi hj hne hij => exact .overlap (p := s :: p) hi (.step hchild hj) hne hij
  | hollow hd hi => exact .hollow (p := s :: p) (.step hchild hd) hi

/-- A merge of `b` into a tree that is drawn from given structures ends at its own path, with a tree
that is drawn from them, or at the path of a position where it is blocked. -/
inductive Ends (S : Position → Tree P → Prop) (b : Tree P) (path : KeyPath) :
    EStateM.Result TableError KeyPath (Tree P) → Prop where
  | done {c : Tree P} (drawn : Drawn S c) : Ends S b path (.ok c path)
  | blocked {p : Position} {report : KeyPath → TableError} (h : Blocked S b p report) :
      Ends S b path (.error (report (path.follow p)) (path.follow p))

inductive FillEnds (S : Position → Tree P → Prop) (wrap : L → Tree P) (b : Tree P)
    (path : KeyPath) : EStateM.Result TableError (Site L) Unit → Prop where
  | done {level : L} (drawn : Drawn S (wrap level)) : FillEnds S wrap b path (.ok () ⟨level, path⟩)
  | blocked {p : Position} {report : KeyPath → TableError} {level : L} (h : Blocked S b p report) :
      FillEnds S wrap b path (.error (report (path.follow p)) ⟨level, path.follow p⟩)

variable {wrap : L → Tree P}

theorem FillEnds.into {level : L} {act : Filling L Unit}
    (hact : FillEnds S wrap b path (act ⟨level, path⟩)) :
    Ends S b path ((wrap <$> Filling.into level act : Merging (Tree P)) path) := by
  rw [map_run, Filling.into_run]
  generalize act ⟨level, path⟩ = result at hact
  cases hact with
  | done drawn => exact .done drawn
  | blocked h => exact .blocked h

theorem FillEnds.seq {act act' : Filling L Unit} {site : Site L}
    (hact : FillEnds S wrap b path (act site))
    (hact' : ∀ level, Drawn S (wrap level) → FillEnds S wrap b path (act' ⟨level, path⟩)) :
    FillEnds S wrap b path ((do act; act') site) := by
  rw [bind_run]
  generalize act site = result at hact
  cases hact with
  | done drawn => exact hact' _ drawn
  | blocked h => exact .blocked h

/-- A child is merged one step down; on success the path comes back. -/
theorem FillEnds.settle {put : Tree P → L} {spoiled : L} (hchild : b.Leads s d)
    (hput : ∀ c, Drawn (fun p => S (s :: p)) c → Drawn S (wrap (put c)))
    {result : EStateM.Result TableError KeyPath (Tree P)}
    (hmerge : Ends (fun p => S (s :: p)) d (path.push s.display) result) :
    FillEnds S wrap b path (Filling.settle put spoiled result) := by
  cases hmerge with
  | @done c drawn =>
      rw [Filling.settle, KeyPath.pop_push]
      exact .done (hput c drawn)
  | blocked h => exact .blocked (h.below hchild)

/-! ## Insertions -/

section Insert

variable {meet : Tree P → Merging (Tree P)}
  (hmeet : ∀ {S : Position → Tree P → Prop} {existing : Tree P} {path : KeyPath}, Drawn S existing →
    (∀ p c, d.Has p c → S p c) → Ends S d path (meet existing path))
  (hb : ∀ p c, b.Has p c → S p c)
include hmeet hb

theorem insert_fillEnds {level : ExactLevel (Tree P)} (h : Drawn S (exact level)) {key : KeyValue}
    (hd : b.Leads (.exact key) d) :
    FillEnds S exact b path (ExactLevel.insert meet key d ⟨level, path⟩) := by
  have hbelow : ∀ p c, d.Has p c → S (.exact key :: p) c := fun p c hc => hb _ c (.step hd hc)
  rw [ExactLevel.insert_run]
  cases hget : level.getExact? key with
  | none => exact .done (h.putKey fun p c hc => ⟨c, hbelow p c hc, rfl⟩)
  | some existing =>
      have hleads : (exact level).Leads (.exact key) existing := leads_of_child? hget
      exact .settle hd (fun c hc => h.putKey hc) (hmeet (h.child hleads) hbelow)

theorem insertFallback_fillEnds {level : ExactLevel (Tree P)} (h : Drawn S (exact level))
    (hd : b.Leads .any d) :
    FillEnds S exact b path (ExactLevel.insertFallback meet d ⟨level, path⟩) := by
  have hbelow : ∀ p c, d.Has p c → S (.any :: p) c := fun p c hc => hb _ c (.step hd hc)
  rw [ExactLevel.insertFallback_run]
  cases hget : level.fallback with
  | none => exact .done (h.putFallback fun p c hc => ⟨c, hbelow p c hc, rfl⟩)
  | some existing =>
      exact .settle hd (fun c hc => h.putFallback hc) (hmeet (h.child (.fallback hget)) hbelow)

theorem insertRange_fillEnds {level : RangeLevel (Tree P)} (h : Drawn S (range level))
    {i : Interval} (hd : b.Leads (.range i) d) :
    FillEnds S range b path (RangeLevel.insert empty meet i d ⟨level, path⟩) := by
  have hbelow : ∀ p c, d.Has p c → S (.range i :: p) c := fun p c hc => hb _ c (.step hd hc)
  cases hi : i.isEmpty with
  | true =>
      rw [RangeLevel.insert_of_isEmpty empty meet d path hi]
      exact .blocked (p := []) (.hollow (.step hd (.root d)) hi)
  | false =>
      rw [RangeLevel.insert_run empty meet d path hi]
      rcases level.place_of_any i with ⟨front, existing, back, hsplit, hplace⟩ |
        ⟨j, hj, hne, hij, hplace⟩ | ⟨front, back, hsplit, hplace⟩
      · rw [hplace]
        have hleads : (range level).Leads (.range i) existing := .band (by simp [hsplit])
        refine .settle hd (fun c hc => h.putBand hc fun band hband => ?_)
          (hmeet (h.child hleads) hbelow)
        rw [RangeLevel.bands_setChild hsplit] at hband
        rw [hsplit]
        simp only [List.mem_append, List.mem_cons] at hband ⊢
        rcases hband with hfront | heq | hback
        · exact Or.inr (Or.inl hfront)
        · exact Or.inl heq
        · exact Or.inr (Or.inr (Or.inr hback))
      · rw [hplace]
        obtain ⟨band, hband, rfl⟩ := List.mem_map.mp hj
        have hleads : (range level).Leads (.range band.interval) band.child := .band hband
        obtain ⟨c, hc, -⟩ := h _ _ (.step hleads (.root _))
        exact .blocked (p := []) (.overlap hc (.step hd (.root d)) hne hij)
      · rw [hplace]
        refine .done (h.putBand (fun p c hc => ⟨c, hbelow p c hc, rfl⟩) fun band hband => ?_)
        rw [RangeLevel.bands_insertBand hsplit] at hband
        rw [hsplit]
        simp only [List.mem_append, List.mem_cons] at hband ⊢
        rcases hband with hfront | heq | hback
        · exact Or.inr (Or.inl hfront)
        · exact Or.inl heq
        · exact Or.inr (Or.inr hback)

end Insert

/-! ## Merges -/

theorem ends_of_kind_ne (ha : Drawn S a) (hne : a.kind ≠ b.kind) :
    Ends S b path (a.merge b path) := by
  rw [merge_of_kind_ne hne]
  obtain ⟨c, hc, hmark⟩ := ha [] a (.root a)
  rw [← kind_mark, ← hmark, kind_mark] at hne ⊢
  exact .blocked (p := []) (.kind hc (.root b) hne)

mutual

/-- Every merge into a tree that is drawn from given structures, which include those of the incoming
tree, ends like that. -/
theorem merge_ends : ∀ (b : Tree P) {S : Position → Tree P → Prop} {a : Tree P} {path : KeyPath},
    Drawn S a → (∀ p c, b.Has p c → S p c) → Ends S b path (a.merge b path)
  | .exact ⟨children, fallback⟩, S, a, path, ha, hb => by
    have hchildren : ∀ entry ∈ children,
        (exact ⟨children, fallback⟩).Leads (.exact entry.1) entry.2 := fun _ he => .key he
    cases a with
    | exact level =>
        cases fallback with
        | none =>
            rw [merge]
            exact (absorbChildren_ends children ha hb hchildren).into
        | some fallback =>
            rw [merge]
            refine ((absorbChildren_ends children ha hb hchildren).seq fun level h => ?_).into
            exact insertFallback_fillEnds (merge_ends fallback) hb h (.fallback rfl)
    | range | unique | multi => exact ends_of_kind_ne ha (by simp [kind])
  | .range ⟨⟨bands⟩⟩, S, a, path, ha, hb => by
    have hbands : ∀ band ∈ bands, (range ⟨⟨bands⟩⟩).Leads (.range band.interval) band.child :=
      fun _ hband => .band hband
    cases a with
    | range level =>
        rw [merge]
        exact (absorbBands_ends bands ha hb hbands).into
    | exact | unique | multi => exact ends_of_kind_ne ha (by simp [kind])
  | .unique value row, S, a, path, ha, hb => by
    cases a with
    | unique value' row' =>
        rw [merge]
        obtain ⟨c, hc, hmark⟩ := ha [] _ (.root _)
        obtain rfl := eq_of_mark_unique hmark
        exact .blocked (p := []) (.unique hc (.root _))
    | exact | range | multi => exact ends_of_kind_ne ha (by simp [kind])
  | .multi values, S, a, path, ha, hb => by
    cases a with
    | multi values' =>
        rw [merge]
        refine .done fun p c hc => ?_
        cases hc with
        | root =>
            obtain ⟨d, hd, hmark⟩ := ha [] _ (.root (multi values'))
            exact ⟨d, hd, hmark⟩
        | step hleads _ => cases hleads
    | exact | range | unique => exact ends_of_kind_ne ha (by simp [kind])

theorem absorbChildren_ends : ∀ (children : List (KeyValue × Tree P)) {b : Tree P}
    {S : Position → Tree P → Prop} {level : ExactLevel (Tree P)} {path : KeyPath},
    Drawn S (exact level) → (∀ p c, b.Has p c → S p c) →
    (∀ entry ∈ children, b.Leads (.exact entry.1) entry.2) →
    FillEnds S exact b path (absorbChildren children ⟨level, path⟩)
  | [], b, S, level, path, h, hb, hchildren => .done h
  | (key, child) :: rest, b, S, level, path, h, hb, hchildren => by
    rw [absorbChildren]
    refine (insert_fillEnds (merge_ends child) hb h (hchildren _ List.mem_cons_self)).seq ?_
    intro level h
    exact absorbChildren_ends rest h hb fun entry he => hchildren entry (List.mem_cons_of_mem _ he)

theorem absorbBands_ends : ∀ (bands : List (Band (Tree P))) {b : Tree P}
    {S : Position → Tree P → Prop} {level : RangeLevel (Tree P)} {path : KeyPath},
    Drawn S (range level) → (∀ p c, b.Has p c → S p c) →
    (∀ band ∈ bands, b.Leads (.range band.interval) band.child) →
    FillEnds S range b path (absorbBands bands ⟨level, path⟩)
  | [], b, S, level, path, h, hb, hbands => .done h
  | ⟨i, child⟩ :: rest, b, S, level, path, h, hb, hbands => by
    rw [absorbBands]
    refine (insertRange_fillEnds (merge_ends child) hb h (hbands _ List.mem_cons_self)).seq ?_
    intro level h
    exact absorbBands_ends rest h hb fun band hband => hbands band (List.mem_cons_of_mem _ hband)

end

/-- A merge that succeeds ends at the path where it began. -/
theorem merge_returns (a b : Tree P) : (a.merge b).Returns := by
  intro path c path' hrun
  have hends : Ends (fun _ _ => True) b path (a.merge b path) :=
    merge_ends b (fun _ c _ => ⟨c, trivial, rfl⟩) fun _ _ _ => trivial
  rw [hrun] at hends
  cases hends
  rfl

end Tree

end DecisionTable
