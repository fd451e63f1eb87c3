import DecisionTable.Proofs.Tree.Sound

/-!
# Equality of trees

Trees that are equal apart from the rows of their unique leaves have the same kinds, payloads and
children, and so the same view (`view_anonymous_of_agrees`). For sound trees the converse holds,
because the entries of a level stand in the order of their keys (`agrees_of_view_anonymous`); and
with rows, a sound tree is determined by its view (`eq_of_view`).
-/

namespace DecisionTable

open Ordered

namespace Tree

variable {P : Type} [Payload P] {a b c : Tree P}

/-- Equality of trees, apart from the rows of their unique leaves. -/
def Agree (a b : Tree P) : Prop := a.agrees b = true

/-! ## One level at a time -/

theorem childrenAgree_iff {cs cs' : List (KeyValue × Tree P)} : childrenAgree cs cs' = true ↔
    Entries.Correspond Agree cs cs' := by
  induction cs generalizing cs' with
  | nil => cases cs' <;> simp [childrenAgree]
  | cons e rest ih => cases cs' <;> simp [childrenAgree, ih, Agree]

theorem bandsAgree_iff {bands bands' : List (Band (Tree P))} : bandsAgree bands bands' = true ↔
    Entries.Correspond Agree
      (bands.map fun band => (band.interval, band.child))
      (bands'.map fun band => (band.interval, band.child)) := by
  induction bands generalizing bands' with
  | nil => cases bands' <;> simp [bandsAgree]
  | cons band rest ih => cases bands' <;> simp [bandsAgree, ih, Agree]

theorem exact_agrees_iff {level level' : ExactLevel (Tree P)} :
    Agree (exact level) (exact level') ↔
      Entries.Correspond Agree level.children level'.children ∧
        Option.Rel Agree level.fallback level'.fallback := by
  obtain ⟨children, fallback⟩ := level
  obtain ⟨children', fallback'⟩ := level'
  cases fallback <;> cases fallback' <;> simp [agrees, childrenAgree_iff, Agree]

theorem range_agrees_iff {level level' : RangeLevel (Tree P)} :
    Agree (range level) (range level') ↔
      Entries.Correspond Agree level.entries level'.entries :=
  bandsAgree_iff

theorem unique_agrees_iff {v w : P} {row row' : Option Nat} :
    Agree (unique v row) (unique w row') ↔ v = w := by
  simp [Agree, agrees]

theorem multi_agrees_iff {vs ws : List P} : Agree (multi vs) (multi ws) ↔ vs = ws := by
  simp [Agree, agrees]

/-- Trees that agree are of one kind, with equal contents or with children that agree. -/
theorem agrees_cases (h : Agree a b) :
    (∃ level level', a = exact level ∧ b = exact level' ∧
      Entries.Correspond Agree level.children level'.children ∧
      Option.Rel Agree level.fallback level'.fallback) ∨
    (∃ level level', a = range level ∧ b = range level' ∧
      Entries.Correspond Agree level.entries level'.entries) ∨
    (∃ v row row', a = unique v row ∧ b = unique v row') ∨ ∃ vs, a = multi vs ∧ b = multi vs := by
  cases a with
  | exact level =>
      cases b with
      | exact level' =>
          obtain ⟨hc, hf⟩ := exact_agrees_iff.mp h
          exact Or.inl ⟨level, level', rfl, rfl, hc, hf⟩
      | range | unique | multi =>
          obtain ⟨children, fallback⟩ := level
          cases fallback <;> simp [Agree, agrees] at h
  | range level =>
      cases b with
      | range level' => exact Or.inr (Or.inl ⟨level, level', rfl, rfl, range_agrees_iff.mp h⟩)
      | exact | unique | multi => simp [Agree, agrees] at h
  | unique v row =>
      cases b with
      | unique w row' =>
          rw [unique_agrees_iff] at h
          exact Or.inr (Or.inr (Or.inl ⟨v, row, row', rfl, h ▸ rfl⟩))
      | exact | range | multi => simp [Agree, agrees] at h
  | multi vs =>
      cases b with
      | multi ws =>
          rw [multi_agrees_iff] at h
          exact Or.inr (Or.inr (Or.inr ⟨vs, rfl, h ▸ rfl⟩))
      | exact | range | unique => simp [Agree, agrees] at h

theorem label_anonymous_of_agrees (h : Agree a b) :
    a.label.anonymous = b.label.anonymous := by
  rcases agrees_cases h with ⟨_, _, rfl, rfl, _⟩ | ⟨_, _, rfl, rfl, _⟩ | ⟨_, _, _, rfl, rfl⟩ |
    ⟨_, rfl, rfl⟩ <;> rfl

theorem child?_of_agrees (h : Agree a b) (s : ColumnKey) :
    Option.Rel Agree (a.child? s) (b.child? s) := by
  rcases agrees_cases h with ⟨level, level', rfl, rfl, hc, hf⟩ | ⟨level, level', rfl, rfl, hc⟩ |
    ⟨v, row, row', rfl, rfl⟩ | ⟨vs, rfl, rfl⟩
  · cases s with
    | exact value => exact hc.lookup value
    | any => exact hf
    | range i => exact Option.Rel.none
  · cases s with
    | exact value => exact Option.Rel.none
    | any => exact Option.Rel.none
    | range i => exact hc.lookup i
  · exact Option.Rel.none
  · exact Option.Rel.none

/-- What agrees with a sound tree is sound. -/
theorem Sound.of_agrees (ha : a.Sound) (h : Agree a b) : b.Sound := by
  induction ha using Sound.induction generalizing b with
  | step a ha ih =>
      have hchildren : ∀ s c', b.child? s = some c' → c'.Sound := by
        intro s c' hc'
        have hs := child?_of_agrees h s
        rw [hc'] at hs
        obtain ⟨c, hc, hcc'⟩ := Entries.exists_of_rel_some_right hs
        exact ih s c hc hcc'
      rcases agrees_cases h with ⟨level, level', rfl, rfl, hc, -⟩ | ⟨level, level', rfl, rfl, hc⟩ |
        ⟨v, row, row', rfl, rfl⟩ | ⟨vs, rfl, rfl⟩
      · cases ha with
        | exact ascending =>
            refine .exact_of_children ?_ hchildren
            rw [Entries.ascending_iff, ← hc.keys_eq]
            exact Entries.ascending_iff.mp ascending
      · cases ha with
        | range sound =>
            have hkeys := hc.keys_eq
            rw [RangeLevel.keys_entries, RangeLevel.keys_entries] at hkeys
            exact .range_of_children (sound.of_intervals_eq hkeys.symm) hchildren
      · exact .unique v row'
      · exact ha

/-! ## All positions at once -/

theorem view_anonymous_of_agrees (h : Agree a b) : a.view.anonymous = b.view.anonymous := by
  funext p
  induction p generalizing a b with
  | nil => exact congrArg some (label_anonymous_of_agrees h)
  | cons s p ih =>
      have hs := child?_of_agrees h s
      unfold View.anonymous view at ih ⊢
      simp only [at?]
      generalize a.child? s = x at hs
      generalize b.child? s = y at hs
      cases hs with
      | none => rfl
      | some hcd => exact ih hcd

omit [Payload P] in
/-- Trees with the same labels, up to `f`, have children at the same steps, and there again the same
labels up to `f`. -/
theorem rel_child? {f : Label P → Label P} {R : Tree P → Tree P → Prop}
    (h : ∀ p, (a.view p).map f = (b.view p).map f)
    (hR : ∀ s c d, a.child? s = some c → b.child? s = some d →
      (∀ p, (c.view p).map f = (d.view p).map f) → R c d) (s : ColumnKey) :
    Option.Rel R (a.child? s) (b.child? s) := by
  have hbelow : ∀ p, ((a.view.below s) p).map f = ((b.view.below s) p).map f :=
    fun p => h (s :: p)
  cases hc : a.child? s with
  | none =>
      cases hd : b.child? s with
      | none => exact Option.Rel.none
      | some d =>
          rw [below_view_of_no_child hc, below_view_of_child hd] at hbelow
          cases hbelow []
  | some c =>
      cases hd : b.child? s with
      | none =>
          rw [below_view_of_child hc, below_view_of_no_child hd] at hbelow
          cases hbelow []
      | some d =>
          rw [below_view_of_child hc, below_view_of_child hd] at hbelow
          exact Option.Rel.some (hR s c d hc hd hbelow)

/-- Exact levels with related children have them in the same order. -/
theorem correspond_of_exact {R : Tree P → Tree P → Prop} {level level' : ExactLevel (Tree P)}
    (ha : (exact level).Sound) (hb : (exact level').Sound)
    (h : ∀ s, Option.Rel R ((exact level).child? s) ((exact level').child? s)) :
    Entries.Correspond R level.children level'.children := by
  cases ha with
  | exact ascending =>
      cases hb with
      | exact ascending' =>
          refine Entries.correspond_of_lookup (fun k k' hlt hgt => ?_)
            (Entries.ascending_iff.mp ascending) (Entries.ascending_iff.mp ascending')
            fun value => h (.exact value)
          rw [Std.OrientedCmp.gt_of_lt hlt] at hgt
          cases hgt

/-- Range levels with related children have them in the same order. -/
theorem correspond_of_range {R : Tree P → Tree P → Prop} {level level' : RangeLevel (Tree P)}
    (ha : (range level).Sound) (hb : (range level').Sound)
    (h : ∀ s, Option.Rel R ((range level).child? s) ((range level').child? s)) :
    Entries.Correspond R level.entries level'.entries := by
  refine Entries.correspond_of_lookup (r := fun i j => (i.compareLower j).isLT = true)
    (fun i j hij hji => ?_) ?_ ?_ fun i => h (.range i)
  · simp [Interval.compareLower_isLT_asymm hij] at hji
  · rw [RangeLevel.keys_entries]
    exact ha.of_range.ascending
  · rw [RangeLevel.keys_entries]
    exact hb.of_range.ascending

theorem agrees_of_view_anonymous (ha : a.Sound) (hb : b.Sound)
    (h : a.view.anonymous = b.view.anonymous) : Agree a b := by
  induction ha using Sound.induction generalizing b with
  | step a ha ih =>
      have hchildren : ∀ s, Option.Rel Agree (a.child? s) (b.child? s) :=
        rel_child? (f := Label.anonymous) (congrFun h)
          fun s c d hc hd hcd => ih s c hc (hb.child hd) (funext hcd)
      have hlabel : a.label.anonymous = b.label.anonymous := Option.some.inj (congrFun h [])
      have hkind : a.kind = b.kind := by
        rw [← kind_label, ← kind_label]
        exact (Label.anonymous_eq_iff.mp hlabel).1
      cases a with
      | exact level =>
          cases b with
          | exact level' =>
              exact exact_agrees_iff.mpr ⟨correspond_of_exact ha hb hchildren, hchildren .any⟩
          | range | unique | multi => simp [kind] at hkind
      | range level =>
          cases b with
          | range level' => exact range_agrees_iff.mpr (correspond_of_range ha hb hchildren)
          | exact | unique | multi => simp [kind] at hkind
      | unique v row =>
          cases b with
          | unique w row' =>
              rw [unique_agrees_iff]
              simpa [label, Label.anonymous] using hlabel
          | exact | range | multi => simp [kind] at hkind
      | multi vs =>
          cases b with
          | multi ws =>
              rw [multi_agrees_iff]
              have hsets := (Label.anonymous_eq_iff.mp hlabel).2
              exact Distinct.eq_of_mem_iff ha.of_multi hb.of_multi (Set.ext_iff.mp hsets)
          | exact | range | unique => simp [kind] at hkind

/-- Sound trees are equal, rows and all, when the same stands at each position. -/
theorem eq_of_view (ha : a.Sound) (hb : b.Sound) (h : a.view = b.view) : a = b := by
  induction ha using Sound.induction generalizing b with
  | step a ha ih =>
      have hchildren : ∀ s, Option.Rel Eq (a.child? s) (b.child? s) := by
        refine rel_child? (f := id) (fun p => congrArg (Option.map id) (congrFun h p)) ?_
        intro s c d hc hd hcd
        refine ih s c hc (hb.child hd) (funext fun p => ?_)
        simpa using hcd p
      have hlabel : a.label = b.label := Option.some.inj (congrFun h [])
      cases a with
      | exact level =>
          cases b with
          | exact level' =>
              obtain ⟨children, fallback⟩ := level
              obtain ⟨children', fallback'⟩ := level'
              have hentries := (correspond_of_exact ha hb hchildren).eq
              have hfallback := Entries.eq_of_rel (hchildren .any)
              exact congrArg exact (ExactLevel.mk.injEq .. ▸ ⟨hentries, hfallback⟩)
          | range | unique | multi => cases hlabel
      | range level =>
          cases b with
          | range level' =>
              have hentries := (correspond_of_range ha hb hchildren).eq
              rw [RangeLevel.eq_of_entries hentries]
          | exact | unique | multi => cases hlabel
      | unique v row =>
          cases b with
          | unique w row' =>
              cases hlabel
              rfl
          | exact | range | multi => cases hlabel
      | multi vs =>
          cases b with
          | multi ws =>
              have hsets : {v | v ∈ vs} = {v | v ∈ ws} := Label.multi.inj hlabel
              rw [Distinct.eq_of_mem_iff ha.of_multi hb.of_multi (Set.ext_iff.mp hsets)]
          | exact | range | unique => cases hlabel

end Tree

end DecisionTable
