import DecisionTable.Tree.Merge
import DecisionTable.Proofs.Tree.Merging
import DecisionTable.Proofs.Tree.Putting

/-!
# What merging does

Merging trees succeeds exactly when their views are compatible, and then gives a tree whose view is
the join of the two; where it fails, it fails at a conflict of the two views, with the error that
the conflict calls for at the key path that leads there. That holds in whatever order the incoming
tree lists the children of its exact levels.

* `Merged`, `Filled` : this outcome, for a merge and for filling one level, with a property of trees
  that is kept;
* `Filled.seq` : filling with one part after another, where the parts share only their root;
* `merge_kept` : the outcome of merging;
* `merge_merged` : the outcome of merging sound trees, which is a sound tree.
-/

namespace DecisionTable

open Ordered
open View (Compatible Conflict Beside graft)

/-! ## Exact levels -/

namespace ExactLevel

variable {α : Type} {level : ExactLevel α} {meet : α → Merging α} {child : α} {path : KeyPath}

theorem insert_run (key : KeyValue) : insert meet key child ⟨level, path⟩ =
    match level.getExact? key with
    | some existing =>
      Filling.settle (level.put key) (level.remove key) (meet existing (path.push key.display))
    | none => .ok () ⟨level.put key child, path⟩ := by
  simp only [insert, bind_run, Filling.push_run, get_run]
  cases level.getExact? key with
  | none => simp only [bind_run, Filling.pop_run, Filling.setLevel_run, KeyPath.pop_push]
  | some existing =>
      simp only [bind_run, Filling.setLevel_run, Filling.merging_run]
      cases meet existing (path.push key.display) <;> rfl

theorem insertFallback_run : insertFallback meet child ⟨level, path⟩ =
    match level.fallback with
    | some existing =>
      Filling.settle (fun merged => { level with fallback := some merged })
        { level with fallback := none } (meet existing (path.push "*"))
    | none => .ok () ⟨{ level with fallback := some child }, path⟩ := by
  simp only [insertFallback, bind_run, Filling.push_run, get_run]
  cases level.fallback with
  | none => simp only [bind_run, Filling.pop_run, Filling.setLevel_run, KeyPath.pop_push]
  | some existing =>
      simp only [bind_run, Filling.setLevel_run, Filling.merging_run]
      cases meet existing (path.push "*") <;> rfl

end ExactLevel

variable {P L : Type} [Payload P]

namespace Tree

/-! ## Outcomes -/

/-- Merging a tree with view `g` into one with view `f`, at a key path, with a result that has the
property `Q`. -/
inductive Merged (Q : Tree P → Prop) (f g : View P) (path : KeyPath) :
    EStateM.Result TableError KeyPath (Tree P) → Prop where
  | done {c : Tree P} (compatible : Compatible f g) (kept : Q c) (view : c.view = f.join g) :
      Merged Q f g path (.ok c path)
  | clash {p : Position} {e : KeyPath → TableError} (conflict : Conflict f g p e) :
      Merged Q f g path (.error (e (path.follow p)) (path.follow p))

/-- Filling a level with view `f` with children so that a level with view `g` is merged into it. -/
inductive Filled (Q : Tree P → Prop) (wrap : L → Tree P) (f g : View P) (path : KeyPath) :
    EStateM.Result TableError (Site L) Unit → Prop where
  | done {level : L} (compatible : Compatible f g) (kept : Q (wrap level))
      (view : (wrap level).view = f.join g) : Filled Q wrap f g path (.ok () ⟨level, path⟩)
  | clash {p : Position} {e : KeyPath → TableError} {level : L} (conflict : Conflict f g p e) :
      Filled Q wrap f g path (.error (e (path.follow p)) ⟨level, path.follow p⟩)

variable {Q : Tree P → Prop} {wrap : L → Tree P} {f g h : View P} {path : KeyPath} {a b c : Tree P}
  {s : ColumnKey}

theorem Filled.into {level : L} {act : Filling L Unit}
    (hact : Filled Q wrap f g path (act ⟨level, path⟩)) :
    Merged Q f g path ((wrap <$> Filling.into level act : Merging (Tree P)) path) := by
  rw [map_run, Filling.into_run]
  generalize act ⟨level, path⟩ = result at hact
  cases hact with
  | done compatible kept view => exact .done compatible kept view
  | clash conflict => exact .clash conflict

/-- Filling with one part after another fills with both. -/
theorem Filled.seq {act act' : Filling L Unit} {site : Site L} (hgh : Beside g h)
    (hroot : f [] = g []) (hact : Filled Q wrap f g path (act site))
    (hact' : ∀ level, Q (wrap level) → (wrap level).view = f.join g →
      Filled Q wrap (f.join g) h path (act' ⟨level, path⟩)) :
    Filled Q wrap f (g.join h) path ((do act; act') site) := by
  rw [bind_run]
  generalize act site = result at hact
  cases hact with
  | @done level hfg kept view =>
      have hrest := hact' level kept view
      simp only
      generalize act' ⟨level, path⟩ = result at hrest
      cases hrest with
      | done hfgh kept' view' =>
          obtain ⟨hfh, hgh'⟩ := (View.compatible_join_left hfg).mp hfgh
          refine .done ((View.compatible_join_right hgh').mpr ⟨hfg, hfh⟩) kept' ?_
          rw [view', View.join_assoc hfg hgh']
      | clash conflict => exact .clash (conflict.of_join_left hgh hroot)
  | clash conflict => exact .clash (conflict.join_right hgh)

/-! ## Filling at one step -/

/-- Filling with a child at a step that leads nowhere yet. -/
theorem Filled.vacant {wrap : L → Tree P} {level grown : L}
    (hgrow : Grows (wrap level) s c (wrap grown)) (kept : Q (wrap grown)) :
    Filled Q wrap (wrap level).view (graft (wrap level).label s c.view) path
      (.ok () ⟨grown, path⟩) :=
  .done hgrow.beside.compatible kept hgrow.view

/-- Filling with a child at a step that leads to another one: the two are merged. -/
theorem Filled.occupied (wrap : L → Tree P) {level : L}
    (hmeets : (wrap level).label.Meets (wrap level).label)
    (hdisjoint : ∀ i j, ((wrap level).child? (.range i)).isSome → s = .range j →
      i = j ∨ i.overlaps j = false)
    {existing : Tree P} {put : Tree P → L} {spoiled : L} {v : View P}
    {result : EStateM.Result TableError KeyPath (Tree P)}
    (hput : ∀ c, PutsAt (wrap level) s c (wrap (put c)))
    (hkept : ∀ c, Q c → Q (wrap (put c)))
    (hsome : (wrap level).child? s = some existing)
    (hmerge : Merged Q existing.view v (path.push s.display) result) :
    Filled Q wrap (wrap level).view (graft (wrap level).label s v) path
      (Filling.settle put spoiled result) := by
  have hbelow := below_view_of_child hsome
  cases hmerge with
  | @done merged compatible kept view =>
      rw [Filling.settle, KeyPath.pop_push]
      rw [← hbelow] at compatible view
      refine .done ?_ (hkept merged kept) ((hput merged).view view)
      apply View.compatible_graft (view_nil _) hmeets _ compatible
      intro i j hi hj
      exact hdisjoint i j (isSome_view_singleton (wrap level) _ ▸ hi) hj
  | @clash p e conflict =>
      refine Filled.clash (Conflict.of_below (s := s) (p := p) ?_)
      rw [hbelow, View.below_graft]
      exact conflict

/-! ## Inserting into a level -/

section Exact

variable {level : ExactLevel (Tree P)} {meet : Tree P → Merging (Tree P)} {child : Tree P}

theorem insert_filled (kept : Kept Q) (h : Q (exact level)) (hchild : Q child)
    (hmeet : ∀ existing : Tree P, Q existing → ∀ path,
      Merged Q existing.view child.view path (meet existing path)) (key : KeyValue) :
    Filled Q exact (exact level).view (graft .exact (.exact key) child.view) path
      (ExactLevel.insert meet key child ⟨level, path⟩) := by
  rw [ExactLevel.insert_run]
  cases hget : level.getExact? key with
  | none =>
      refine .vacant ⟨putsAt_key level key child, hget, trivial, fun _ _ _ hs => by cases hs⟩ ?_
      exact kept.putKey key h hchild
  | some existing =>
      exact .occupied exact trivial (fun _ _ _ hs => by cases hs) (putsAt_key level key)
        (fun _ => kept.putKey key h) hget
        (hmeet existing (kept.child (s := .exact key) h hget) _)

theorem insertFallback_filled (kept : Kept Q) (h : Q (exact level)) (hchild : Q child)
    (hmeet : ∀ existing : Tree P, Q existing → ∀ path,
      Merged Q existing.view child.view path (meet existing path)) :
    Filled Q exact (exact level).view (graft .exact .any child.view) path
      (ExactLevel.insertFallback meet child ⟨level, path⟩) := by
  rw [ExactLevel.insertFallback_run]
  cases hget : level.fallback with
  | none =>
      refine .vacant ⟨putsAt_fallback level child, hget, trivial, fun _ _ _ hs => by cases hs⟩ ?_
      exact kept.putFallback h hchild
  | some existing =>
      exact .occupied exact trivial (fun _ _ _ hs => by cases hs) (putsAt_fallback level)
        (fun _ => kept.putFallback h) hget (hmeet existing (kept.child (s := .any) h hget) _)

end Exact

section Range

variable {level : RangeLevel (Tree P)} {i : Interval} {meet : Tree P → Merging (Tree P)}
  {child : Tree P}

theorem insertRange_filled (kept : Kept Q) (h : Q (range level)) (hi : i.isEmpty = false)
    (hchild : Q child)
    (hmeet : ∀ existing : Tree P, Q existing → ∀ path,
      Merged Q existing.view child.view path (meet existing path)) :
    Filled Q range (range level).view (graft .range (.range i) child.view) path
      (RangeLevel.insert empty meet i child ⟨level, path⟩) := by
  have hbands := kept.bands h
  rcases RangeLevel.insert_cases empty meet child path hbands hi with
    ⟨existing, put, hexisting, hput, hrun⟩ | ⟨j, hj, hne, hij, hrun⟩ |
      ⟨hnone, hdisjoint, grown, hsound, hget, hrun⟩
  · rw [hrun]
    have hmem : i ∈ level.intervals := RangeLevel.mem_intervals_iff.mpr (by simp [hexisting])
    have hdisjoint : ∀ j k, ((range level).child? (.range j)).isSome →
        ColumnKey.range i = .range k → j = k ∨ j.overlaps k = false := by
      rintro j _ hj ⟨rfl⟩
      exact hbands.eq_or_disjoint (RangeLevel.mem_intervals_iff.mpr hj) hmem
    have hputs : ∀ c, PutsAt (range level) (.range i) c (range (put c)) :=
      fun c => putsAt_interval (hput c).2
    have hkept : ∀ c, Q c → Q (range (put c)) :=
      fun c hc => kept.putInterval h hc (hput c).1 (hputs c)
    have hexistingKept : Q existing := kept.child (s := .range i) h hexisting
    exact .occupied range trivial hdisjoint hputs hkept hexisting (hmeet existing hexistingKept _)
  · rw [hrun]
    refine .clash (p := []) (.overlap rfl rfl ?_ ?_ hne hij)
    · exact isSome_view_singleton _ _ ▸ hj
    · simp [graft, view_nil]
  · rw [hrun]
    have hputs : PutsAt (range level) (.range i) child (range grown) := putsAt_interval hget
    refine .vacant ⟨hputs, hnone, trivial, fun j k hj hk => ?_⟩
      (kept.putInterval h hchild hsound hputs)
    cases hk
    exact hdisjoint j hj

end Range

/-! ## Inserting all children -/

section Absorb

omit [Payload P]

theorem grows_child {key : KeyValue} {rest : List (KeyValue × Tree P)}
    (distinct : (((key, c) :: rest).map Prod.fst).Nodup) :
    Grows (exact ⟨rest, none⟩) (.exact key) c (exact ⟨(key, c) :: rest, none⟩) where
  label := rfl
  child t := by
    cases t with
    | exact value =>
        simp only [child?, ExactLevel.getExact?, ColumnKey.exact.injEq]
        by_cases hv : value = key
        · subst hv
          simp
        · rw [Entries.lookup_cons_of_ne hv, if_neg hv]
    | any => rfl
    | range i => rfl
  vacant := Entries.lookup_eq_none_of_not_mem (List.nodup_cons.mp distinct).1
  meets := trivial
  disjoint _ _ _ hs := by cases hs

theorem grows_fallback (children : List (KeyValue × Tree P)) :
    Grows (exact ⟨children, none⟩) .any c (exact ⟨children, some c⟩) where
  label := rfl
  child t := by cases t <;> rfl
  vacant := rfl
  meets := trivial
  disjoint _ _ _ hs := by cases hs

theorem grows_band {i : Interval} {rest : List (Band (Tree P))}
    (hlevel : (RangeLevel.mk ⟨⟨i, c⟩ :: rest⟩).Sound) :
    Grows (range ⟨⟨rest⟩⟩) (.range i) c (range ⟨⟨⟨i, c⟩ :: rest⟩⟩) where
  label := rfl
  child t := by
    cases t with
    | range j =>
        simp only [child?, RangeLevel.getExact?, RangeLevel.entries, List.map_cons,
          ColumnKey.range.injEq]
        by_cases hj : j = i
        · subst hj
          simp
        · rw [Entries.lookup_cons_of_ne hj, if_neg hj]
    | any => rfl
    | exact value => rfl
  vacant := by
    have hnodup := hlevel.nodup
    rw [← RangeLevel.keys_entries] at hnodup
    exact Entries.lookup_eq_none_of_not_mem (List.nodup_cons.mp hnodup).1
  meets := trivial
  disjoint j k hj hk := by
    cases hk
    have hmem : j ∈ (RangeLevel.mk ⟨rest⟩).intervals := RangeLevel.mem_intervals_iff.mpr hj
    rw [Interval.overlaps_comm]
    exact (List.pairwise_cons.mp hlevel.disjoint).1 j hmem

end Absorb

theorem absorbChildren_filled (kept : Kept Q) {children : List (KeyValue × Tree P)}
    (distinct : (children.map Prod.fst).Nodup) (hchildren : ∀ entry ∈ children, Q entry.2)
    (hmeet : ∀ entry ∈ children, ∀ existing : Tree P, Q existing → ∀ path,
      Merged Q existing.view entry.2.view path (existing.merge entry.2 path))
    {level : ExactLevel (Tree P)} (h : Q (exact level)) :
    Filled Q exact (exact level).view (exact ⟨children, none⟩).view path
      (absorbChildren children ⟨level, path⟩) := by
  induction children generalizing level with
  | nil =>
      rw [view_eq_root (a := exact ⟨[], none⟩) fun s => by cases s <;> rfl]
      exact .done (View.compatible_root rfl trivial) h (View.join_root rfl).symm
  | cons entry rest ih =>
      obtain ⟨key, c⟩ := entry
      have hgrow := grows_child distinct
      rw [hgrow.view, View.join_comm hgrow.beside.compatible]
      refine .seq hgrow.beside.symm rfl ?_ ?_
      · exact insert_filled kept h (hchildren _ List.mem_cons_self)
          (hmeet _ List.mem_cons_self) key
      · intro level' h' hview
        rw [← hview]
        exact ih (List.nodup_cons.mp distinct).2
          (fun e he => hchildren e (List.mem_cons_of_mem _ he))
          (fun e he => hmeet e (List.mem_cons_of_mem _ he)) h'

theorem absorbBands_filled (kept : Kept Q) {bands : List (Band (Tree P))}
    (sound : (RangeLevel.mk ⟨bands⟩).Sound) (hbands : ∀ band ∈ bands, Q band.child)
    (hmeet : ∀ band ∈ bands, ∀ existing : Tree P, Q existing → ∀ path,
      Merged Q existing.view band.child.view path (existing.merge band.child path))
    {level : RangeLevel (Tree P)} (h : Q (range level)) :
    Filled Q range (range level).view (range ⟨⟨bands⟩⟩).view path
      (absorbBands bands ⟨level, path⟩) := by
  induction bands generalizing level with
  | nil =>
      rw [view_eq_root (a := range ⟨⟨[]⟩⟩) fun s => by cases s <;> rfl]
      exact .done (View.compatible_root rfl trivial) h (View.join_root rfl).symm
  | cons band rest ih =>
      obtain ⟨i, c⟩ := band
      have hgrow := grows_band sound
      rw [hgrow.view, View.join_comm hgrow.beside.compatible]
      refine .seq hgrow.beside.symm rfl ?_ ?_
      · exact insertRange_filled kept h (sound.nonempty i List.mem_cons_self)
          (hbands _ List.mem_cons_self) (hmeet _ List.mem_cons_self)
      · intro level' h' hview
        rw [← hview]
        exact ih sound.of_cons (fun b hb => hbands b (List.mem_cons_of_mem _ hb))
          (fun b hb => hmeet b (List.mem_cons_of_mem _ hb)) h'

/-! ## Merging -/

theorem merge_of_kind_ne (hne : a.kind ≠ b.kind) (path : KeyPath) :
    a.merge b path = .error (.inconsistentLeafKind path.display a.kind b.kind none) path := by
  cases a <;> cases b <;> first | exact absurd rfl hne | (rw [merge] <;> first | rfl | simp)

theorem merged_of_kind_ne (hne : a.kind ≠ b.kind) (path : KeyPath) :
    Merged Q a.view b.view path (a.merge b path) := by
  rw [merge_of_kind_ne hne, ← kind_label a, ← kind_label b]
  exact .clash (p := []) (.kind rfl rfl (by rwa [kind_label, kind_label]))

/-- Merging joins the views of two trees, or fails at a conflict of the two. -/
theorem merge_kept (kept : Kept Q) (ha : Q a) (hb : b.Lawful) (hkept : Q b) (path : KeyPath) :
    Merged Q a.view b.view path (a.merge b path) := by
  induction hb generalizing a path with
  | @exact level' distinct _ _ ihc ihf =>
      cases a with
      | exact level =>
          have hentries := kept.ofChildren hkept distinct
          have hlast : ∀ last ∈ level'.fallback, Q last :=
            fun last hlast => kept.child (s := .any) hkept hlast
          obtain ⟨entries, last⟩ := level'
          have hfilled := @absorbChildren_filled _ _ _ path kept _ distinct hentries
            (fun entry he existing hexisting => ihc entry he hexisting (hentries entry he)) _ ha
          cases last with
          | none =>
              rw [merge]
              exact hfilled.into
          | some last =>
              have hgrow := grows_fallback (c := last) entries
              rw [merge, hgrow.view]
              refine Filled.into (.seq hgrow.beside rfl hfilled ?_)
              intro filled h hview
              rw [← hview]
              exact insertFallback_filled kept h (hlast last rfl)
                fun existing hexisting => ihf last rfl hexisting (hlast last rfl)
      | range | unique | multi => exact merged_of_kind_ne (by simp [kind]) path
  | @range level' sound _ ih =>
      cases a with
      | range level =>
          have hbands := kept.ofBands hkept
          obtain ⟨⟨bands⟩⟩ := level'
          rw [merge]
          exact (absorbBands_filled kept sound hbands
            (fun band hband existing hexisting => ih band hband hexisting (hbands band hband))
            ha).into
      | exact | unique | multi => exact merged_of_kind_ne (by simp [kind]) path
  | unique value row =>
      cases a with
      | unique value' row' =>
          rw [merge]
          exact .clash (p := []) (.unique rfl rfl)
      | exact | range | multi => exact merged_of_kind_ne (by simp [kind]) path
  | multi values =>
      cases a with
      | multi values' =>
          rw [merge]
          have hview : (multi values).view = View.root (.multi {v | v ∈ values}) :=
            view_eq_root fun _ => rfl
          rw [hview]
          refine .done (View.compatible_root rfl trivial) (kept.union values ha) ?_
          funext p
          cases p with
          | nil =>
              have hunion : {v | v ∈ Distinct.union values' values} =
                  {v | v ∈ values'} ∪ {v | v ∈ values} := by
                ext v
                exact Distinct.mem_union
              exact congrArg (fun vs => some (Label.multi vs)) hunion
          | cons s p => rfl
      | exact | range | unique => exact merged_of_kind_ne (by simp [kind]) path

/-- Merging sound trees gives a sound tree, or fails at a conflict of the two. -/
theorem merge_merged (ha : a.Sound) (hb : b.Sound) (path : KeyPath) :
    Merged Sound a.view b.view path (a.merge b path) :=
  merge_kept kept_sound ha hb.lawful hb path

end Tree

end DecisionTable
