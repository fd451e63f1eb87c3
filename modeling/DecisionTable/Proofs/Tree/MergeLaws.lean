import DecisionTable.Tree.Chain
import DecisionTable.Proofs.Tree.Agreement
import DecisionTable.Proofs.Tree.Merge

/-!
# Laws of merging

Merging commutes and associates, up to equality of trees, and equal trees merge alike. Whether it
succeeds and what it comes to is said by the views of the operands, whose joins commute and
associate; and a view without its rows is what equality of trees is about.

* `Gives` : success under a condition, with a tree of a certain view;
* `SameOutcome` : both fail, or both give trees that are equal apart from rows;
* `merge_laws` : commutativity, associativity and congruence.
-/

namespace DecisionTable.Tree

open View (Compatible)

variable {P : Type} [Payload P]

def merged (existing incoming : Tree P) : Except TableError (Tree P) :=
  (existing.merge incoming).runAt .root

/-- Both fail, or both give trees that are equal apart from rows. -/
inductive SameOutcome : Except TableError (Tree P) → Except TableError (Tree P) → Prop where
  | ok {tree tree' : Tree P} (h : Agree tree tree') : SameOutcome (.ok tree) (.ok tree')
  | error (e e' : TableError) : SameOutcome (.error e) (.error e')

/-! ## Success and result -/

/-- Success under a condition, and then a sound tree of a certain view. -/
inductive Gives (condition : Prop) (v : View P) : Except TableError (Tree P) → Prop where
  | ok {tree : Tree P} (h : condition) (sound : tree.Sound) (view : tree.view = v) :
      Gives condition v (.ok tree)
  | error (h : ¬ condition) (e : TableError) : Gives condition v (.error e)

variable {a a' b b' c : Tree P} {p q : Prop} {v w : View P} {x y : Except TableError (Tree P)}

theorem Merged.gives {path : KeyPath} {act : Merging (Tree P)}
    (hact : Merged Sound v w path (act path)) : Gives (Compatible v w) (v.join w) (act.runAt path) := by
  unfold Merging.runAt
  generalize act path = result at hact
  cases hact with
  | done compatible sound view => exact .ok compatible sound view
  | clash conflict => exact .error conflict.not_compatible _

theorem merged_gives (ha : a.Sound) (hb : b.Sound) :
    Gives (Compatible a.view b.view) (a.view.join b.view) (a.merged b) :=
  (merge_merged ha hb .root).gives

theorem Gives.exists_ok (hx : Gives p v x) (hp : p) :
    ∃ tree, x = .ok tree ∧ tree.Sound ∧ tree.view = v := by
  cases hx with
  | ok _ sound view => exact ⟨_, rfl, sound, view⟩
  | error h _ => exact absurd hp h

theorem Gives.bind (hx : Gives p v x) {f : Tree P → Except TableError (Tree P)}
    (hf : ∀ a, a.Sound → a.view = v → Gives q w (f a)) : Gives (p ∧ q) w (x >>= f) := by
  cases hx with
  | @ok a hp sound view =>
      have hfa := hf a sound view
      change Gives (p ∧ q) w (f a)
      generalize f a = y at hfa
      cases hfa with
      | ok hq sound' view' => exact .ok ⟨hp, hq⟩ sound' view'
      | error hq e => exact .error (fun h => hq h.2) e
  | error hp e => exact .error (fun h => hp h.1) e

/-- Under one condition, with views that are equal apart from rows, outcomes are the same. -/
theorem Gives.sameOutcome (hx : Gives p v x) (hy : Gives q w y) (hpq : p ↔ q)
    (hvw : p → v.anonymous = w.anonymous) : SameOutcome x y := by
  cases hx with
  | ok hp sound view =>
      cases hy with
      | ok _ sound' view' =>
          refine .ok (agrees_of_view_anonymous sound sound' ?_)
          rw [view, view', hvw hp]
      | error hq e => exact absurd (hpq.mp hp) hq
  | error hp e =>
      cases hy with
      | ok hq _ _ => exact absurd (hpq.mpr hq) hp
      | error _ e' => exact .error e e'

/-! ## The laws -/

theorem merged_comm (ha : a.Sound) (hb : b.Sound) : SameOutcome (a.merged b) (b.merged a) := by
  refine (merged_gives ha hb).sameOutcome (merged_gives hb ha) ⟨.symm, .symm⟩ fun h => ?_
  rw [View.join_comm h]

theorem merged_assoc (ha : a.Sound) (hb : b.Sound) (hc : c.Sound) :
    SameOutcome (do (← a.merged b).merged c) (do a.merged (← b.merged c)) := by
  have hleft : Gives (Compatible a.view b.view ∧ Compatible (a.view.join b.view) c.view)
      ((a.view.join b.view).join c.view) (do (← a.merged b).merged c) :=
    (merged_gives ha hb).bind fun ab hab hview => hview ▸ merged_gives hab hc
  have hright : Gives (Compatible b.view c.view ∧ Compatible a.view (b.view.join c.view))
      (a.view.join (b.view.join c.view)) (do a.merged (← b.merged c)) :=
    (merged_gives hb hc).bind fun bc hbc hview => hview ▸ merged_gives ha hbc
  refine hleft.sameOutcome hright ⟨?_, ?_⟩ ?_
  · rintro ⟨hab, habc⟩
    obtain ⟨hac, hbc⟩ := (View.compatible_join_left hab).mp habc
    exact ⟨hbc, (View.compatible_join_right hbc).mpr ⟨hab, hac⟩⟩
  · rintro ⟨hbc, habc⟩
    obtain ⟨hab, hac⟩ := (View.compatible_join_right hbc).mp habc
    exact ⟨hab, (View.compatible_join_left hab).mpr ⟨hac, hbc⟩⟩
  · rintro ⟨hab, habc⟩
    rw [View.join_assoc hab ((View.compatible_join_left hab).mp habc).2]

/-- Equal trees merge alike. -/
theorem merged_congr (ha : a.Sound) (hb : b.Sound) (haa' : Agree a a') (hbb' : Agree b b') :
    SameOutcome (a.merged b) (a'.merged b') := by
  have hva := view_anonymous_of_agrees haa'
  have hvb := view_anonymous_of_agrees hbb'
  refine (merged_gives ha hb).sameOutcome (merged_gives (ha.of_agrees haa') (hb.of_agrees hbb'))
    ?_ fun _ => ?_
  · rw [← View.compatible_anonymous, hva, hvb, View.compatible_anonymous]
  · rw [View.anonymous_join, View.anonymous_join, hva, hvb]

/-- Merging is commutative and associative, and respects equality of trees. -/
theorem merge_laws (ha : a.Sound) (hb : b.Sound) (hc : c.Sound) :
    SameOutcome (a.merged b) (b.merged a) ∧
    SameOutcome (do (← a.merged b).merged c) (do a.merged (← b.merged c)) ∧
    ∀ a' b', Agree a a' → Agree b b' → SameOutcome (a.merged b) (a'.merged b') :=
  ⟨merged_comm ha hb, merged_assoc ha hb hc, fun _ _ => merged_congr ha hb⟩

def oneBand (i : Interval) (value : String) (row : Nat) : Tree String :=
  .range ⟨#[⟨i, .unique value (some row)⟩]⟩

theorem sound_oneBand {i : Interval} (hi : i.isEmpty = false) (value : String) (row : Nat) :
    (oneBand i value row).Sound := by
  refine .range ⟨?_, List.pairwise_singleton _ _, List.pairwise_singleton _ _⟩ ?_
  · simpa [RangeLevel.intervals] using hi
  · simpa using Sound.unique value (some row)

theorem merge_laws_oneBand :
    let low := oneBand (.below (.integer 0)) "low" 0
    let mid := oneBand ⟨some (.integer 0), some (.integer 9)⟩ "mid" 1
    let high := oneBand (.atLeast (.integer 9)) "high" 2
    (low.Sound ∧ mid.Sound ∧ high.Sound) ∧
    (do (← low.merged high).merged mid).isOk ∧
    SameOutcome (low.merged mid) (mid.merged low) ∧
    SameOutcome (do (← low.merged mid).merged high) (do low.merged (← mid.merged high)) ∧
    ∀ a' b', Agree low a' → Agree mid b' → SameOutcome (low.merged mid) (a'.merged b') := by
  refine ⟨⟨sound_oneBand rfl _ _, sound_oneBand rfl _ _, sound_oneBand rfl _ _⟩, ?_, ?_⟩
  · decide +kernel
  · exact merge_laws (sound_oneBand rfl _ _) (sound_oneBand rfl _ _) (sound_oneBand rfl _ _)

end DecisionTable.Tree
