import DecisionTable.Tree.Lookup
import DecisionTable.Tree.Shape
import DecisionTable.Proofs.Tree.Agreement
import DecisionTable.Proofs.Tree.Payloads

/-!
# Equal trees answer alike

What a tree is asked for does not depend on the rows of its unique leaves: equal trees have the same
payloads and the same shape, and a key leads to equal trees below them.

* `values_of_agrees`, `uniqueValue_of_agrees`, `shape_of_agrees` : what is read off a tree;
* `Lookup.Agree` : lookups at equal trees, from which any keys lead to such lookups again;
* `Lookup.AnswersAlike` : lookups that give the same answers.
-/

namespace DecisionTable

open Ordered

variable {P : Type} [Payload P]

namespace Tree

variable {a b c : Tree P}

/-! ## Payloads -/

theorem values_of_agrees (ha : a.Sound) (h : Agree a b) : a.values = b.values := by
  refine Distinct.ofList_congr fun v => ?_
  rw [mem_payloads_iff ha, mem_payloads_iff (ha.of_agrees h)]
  have hview : ∀ {a b : Tree P}, a.view.anonymous = b.view.anonymous →
      (∃ q l, a.view q = some l ∧ v ∈ l.payloads) → ∃ q l, b.view q = some l ∧ v ∈ l.payloads := by
    rintro a b hab ⟨q, l, hl, hv⟩
    have hq := congrFun hab q
    rw [View.anonymous, View.anonymous, hl] at hq
    obtain ⟨m, hm, hlm⟩ := Option.map_eq_some_iff.mp hq.symm
    exact ⟨q, m, hm, (Label.anonymous_eq_iff.mp hlm).2 ▸ hv⟩
  exact ⟨hview (view_anonymous_of_agrees h), hview (view_anonymous_of_agrees h).symm⟩

theorem uniqueValue_of_agrees (ha : a.Sound) (h : Agree a b) : a.uniqueValue = b.uniqueValue := by
  have hvalues := values_of_agrees ha h
  rcases agrees_cases h with ⟨_, _, rfl, rfl, _⟩ | ⟨_, _, rfl, rfl, _⟩ | ⟨_, _, _, rfl, rfl⟩ |
    ⟨_, rfl, rfl⟩
  · exact congrArg single hvalues
  · exact congrArg single hvalues
  · rfl
  · rfl

/-! ## Shapes -/

omit [Payload P] in
theorem shapeOfChildren_congr {cs cs' : List (KeyValue × Tree P)}
    (h : Entries.Correspond (fun c c' => c.shape = c'.shape) cs cs') :
    shapeOfChildren cs = shapeOfChildren cs' := by
  induction h with
  | nil => rfl
  | @cons e e' rest rest' hhead _ ih =>
      rw [shapeOfChildren, shapeOfChildren, shapeBelow, shapeBelow, hhead.2, ih]

omit [Payload P] in
theorem shapeOfBands_congr {bands bands' : List (Band (Tree P))}
    (h : Entries.Correspond (fun c c' => c.shape = c'.shape)
      (bands.map fun band => (band.interval, band.child))
      (bands'.map fun band => (band.interval, band.child))) :
    shapeOfBands bands = shapeOfBands bands' := by
  induction bands generalizing bands' with
  | nil =>
      cases bands' with
      | nil => rfl
      | cons => simp at h
  | cons band rest ih =>
      cases bands' with
      | nil => simp at h
      | cons band' rest' =>
          obtain ⟨hhead, hrest⟩ := Entries.correspond_cons.mp h
          rw [shapeOfBands, shapeOfBands, shapeBelow, shapeBelow, hhead.2, ih hrest]

theorem shape_of_agrees (ha : a.Sound) (h : Agree a b) : a.shape = b.shape := by
  induction ha using Sound.induction generalizing b with
  | step a ha ih =>
      rcases agrees_cases h with ⟨level, level', rfl, rfl, hc, hf⟩ | ⟨level, level', rfl, rfl, hc⟩ |
        ⟨v, row, row', rfl, rfl⟩ | ⟨vs, rfl, rfl⟩
      · obtain ⟨children, fallback⟩ := level
        obtain ⟨children', fallback'⟩ := level'
        have hchildren : shapeOfChildren children = shapeOfChildren children' := by
          cases ha with
          | exact ascending =>
              refine shapeOfChildren_congr (hc.imp_of_mem fun e he c' hec' => ?_)
              have hget := Entries.lookup_of_mem (Entries.nodup_keys ascending) he
              exact ih (.exact e.1) e.2 hget hec'
        cases hf with
        | none => rw [shape, shape, hchildren]
        | some hcc' => rw [shape, shape, shapeBelow, shapeBelow, hchildren, ih .any _ rfl hcc']
      · obtain ⟨⟨bands⟩⟩ := level
        obtain ⟨⟨bands'⟩⟩ := level'
        have hbands : shapeOfBands bands = shapeOfBands bands' := by
          cases ha with
          | range sound =>
              refine shapeOfBands_congr (hc.imp_of_mem fun e he c' hec' => ?_)
              refine ih (.range e.1) e.2 ((RangeLevel.getExact?_eq_some_iff sound).mpr ?_) hec'
              exact RangeLevel.mem_entries_iff.mp he
        have hlength : bands.length = bands'.length := by
          simpa [RangeLevel.entries] using hc.length_eq
        rw [shape, shape, hbands, hlength]
      · rw [shape, shape]
      · rfl

/-! ## Keys -/

/-- A key leads to a structure of the tree. -/
theorem exists_at?_of_descend (ha : a.Sound) {key : KeyValue}
    (hc : (a.descend key).node = some c) : ∃ p, a.at? p = some c := by
  have hchild : ∀ {s}, a.child? s = some c → ∃ p, a.at? p = some c :=
    fun {s} hs => ⟨[s], by rw [at?, hs]; rfl⟩
  cases a with
  | exact level =>
      rcases Option.or_eq_some_iff.mp hc with hc | ⟨-, hc⟩
      · exact hchild (s := .exact key) hc
      · exact hchild (s := .any) hc
  | range level =>
      obtain ⟨i, hi, -⟩ := (RangeLevel.get?_eq_some_iff ha.of_range).mp hc
      exact hchild (s := .range i) hi
  | unique v row => exact ⟨[], hc⟩
  | multi vs => exact ⟨[], hc⟩

theorem Sound.descend (ha : a.Sound) {key : KeyValue} (hc : (a.descend key).node = some c) :
    c.Sound := by
  obtain ⟨p, hp⟩ := exists_at?_of_descend ha hc
  exact ha.at hp

/-- In levels with equal intervals, a key leads to equal bands. -/
theorem get?_of_correspond {level level' : RangeLevel (Tree P)} (hsound : level.Sound)
    (hsound' : level'.Sound) (h : Entries.Correspond Agree level.entries level'.entries)
    (key : KeyValue) : Option.Rel Agree (level.get? key) (level'.get? key) := by
  have hlookup : ∀ i, Option.Rel Agree (level.getExact? i) (level'.getExact? i) := h.lookup
  cases hget : level.get? key with
  | some c =>
      obtain ⟨i, hi, hcontains⟩ := (RangeLevel.get?_eq_some_iff hsound).mp hget
      have hrel := hlookup i
      rw [hi] at hrel
      obtain ⟨d, hd, hcd⟩ := Entries.exists_of_rel_some_left hrel
      rw [(RangeLevel.get?_eq_some_iff hsound').mpr ⟨i, hd, hcontains⟩]
      exact .some hcd
  | none =>
      have hnone : level'.get? key = none := by
        rw [Option.eq_none_iff_forall_ne_some]
        intro d hd
        obtain ⟨i, hi, hcontains⟩ := (RangeLevel.get?_eq_some_iff hsound').mp hd
        have hrel := hlookup i
        rw [hi] at hrel
        obtain ⟨c, hc, -⟩ := Entries.exists_of_rel_some_right hrel
        cases hget.symm.trans ((RangeLevel.get?_eq_some_iff hsound).mpr ⟨i, hc, hcontains⟩)
      rw [hnone]
      exact .none

theorem descend_of_agrees (ha : a.Sound) (h : Agree a b) (key : KeyValue) :
    Option.Rel Agree (a.descend key).node (b.descend key).node := by
  have hb := ha.of_agrees h
  rcases agrees_cases h with ⟨level, level', rfl, rfl, hc, hf⟩ | ⟨level, level', rfl, rfl, hc⟩ |
    ⟨v, row, row', rfl, rfl⟩ | ⟨vs, rfl, rfl⟩
  · have hown := hc.lookup key
    show Option.Rel Agree ((level.children.lookup key).or level.fallback)
      ((level'.children.lookup key).or level'.fallback)
    generalize level.children.lookup key = x at hown
    generalize level'.children.lookup key = y at hown
    cases hown with
    | none => exact hf
    | some hcd => exact .some hcd
  · exact get?_of_correspond ha.of_range hb.of_range hc key
  · exact .some h
  · exact .some h

end Tree

/-! ## Lookups -/

namespace Lookup

variable {x y : Lookup P}

def Agree (x y : Lookup P) : Prop :=
  Option.Rel (fun a b => a.Sound ∧ Tree.Agree a b) x.node y.node

/-- Lookups that give the same answers. -/
structure AnswersAlike (x y : Lookup P) : Prop where
  isEmpty : x.isEmpty = y.isEmpty
  values : x.values = y.values
  uniqueValue : x.uniqueValue = y.uniqueValue
  uniqueValueOr : ∀ default, x.uniqueValueOr default = y.uniqueValueOr default

theorem Agree.rel (h : x.Agree y) : Option.Rel Tree.Agree x.node y.node := by
  obtain ⟨node⟩ := x
  obtain ⟨node'⟩ := y
  cases h with
  | none => exact .none
  | some hab => exact .some hab.2

theorem Agree.descend (h : x.Agree y) (key : KeyValue) : (x.descend key).Agree (y.descend key) := by
  obtain ⟨node⟩ := x
  obtain ⟨node'⟩ := y
  cases h with
  | none => exact .none
  | @some a b hab =>
      obtain ⟨ha, hab⟩ := hab
      have hrel := Tree.descend_of_agrees ha hab key
      have hsound : ∀ c, (a.descend key).node = some c → c.Sound := fun c => ha.descend
      show Option.Rel _ (a.descend key).node (b.descend key).node
      generalize (a.descend key).node = u at hrel hsound
      generalize (b.descend key).node = v at hrel
      cases hrel with
      | none => exact .none
      | some hcd => exact .some ⟨hsound _ rfl, hcd⟩

theorem Agree.descendAll (h : x.Agree y) (keys : List KeyValue) :
    (x.descendAll keys).Agree (y.descendAll keys) := by
  induction keys generalizing x y with
  | nil => exact h
  | cons key keys ih => exact ih (h.descend key)

theorem Agree.answersAlike (h : x.Agree y) : x.AnswersAlike y := by
  obtain ⟨node⟩ := x
  obtain ⟨node'⟩ := y
  cases h with
  | none => exact ⟨rfl, rfl, rfl, fun _ => rfl⟩
  | some hab =>
      have hvalue := Tree.uniqueValue_of_agrees hab.1 hab.2
      exact ⟨rfl, Tree.values_of_agrees hab.1 hab.2, hvalue,
        fun default => congrArg (Tree.recoverNotFound default) hvalue⟩

end Lookup

end DecisionTable
