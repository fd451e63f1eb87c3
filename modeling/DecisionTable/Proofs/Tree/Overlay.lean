import DecisionTable.Proofs.Tree.View
import Mathlib.Data.List.Induction
import Mathlib.Data.List.Pairwise

/-!
# Branches and overlays

A branch is the view of a tree with one leaf; an overlay is the join of a list of views. An overlay
of pairwise compatible views has a structure exactly where one of them has, and there it has the
kind and the payloads of all of them, so that their order does not matter.

* `overlay_perm`, `overlay_append`, `compatible_overlay`, `isSome_overlay`, `mem_payloads_overlay` :
  laws of overlays;
* `isSome_branch` : a branch has a structure at each prefix of its path;
* `compatible_branch_iff` : branches whose levels are of the same kinds are compatible unless their
  paths part at overlapping intervals, or are equal and end in leaves that do not meet.
-/

namespace DecisionTable

/-- Two positions part at intervals that overlap. -/
def Position.Clash (p q : Position) : Prop :=
  ∃ front i j back back', p = front ++ .range i :: back ∧ q = front ++ .range j :: back' ∧
    i ≠ j ∧ i.overlaps j = true

def Label.above {P : Type} : ColumnKey → Label P
  | .range _ => .range
  | .exact _ | .any => .exact

namespace View

variable {P : Type} {f v w : View P} {vs ws : List (View P)} {p q : Position}

/-! ## Overlays -/

def overlay (vs : List (View P)) : View P := vs.foldl join none

theorem overlay_concat (vs : List (View P)) (v : View P) :
    overlay (vs ++ [v]) = (overlay vs).join v := by
  rw [overlay, List.foldl_append]
  rfl

/-- What can be merged with each of pairwise compatible views can be merged with their overlay. -/
theorem compatible_overlay (h : vs.Pairwise Compatible) :
    Compatible (overlay vs) w ↔ ∀ v ∈ vs, Compatible v w := by
  induction vs using List.reverseRecOn generalizing w with
  | nil =>
      apply iff_of_true
      · exact (compatible_none w).symm
      · simp
  | append_singleton vs v ih =>
      obtain ⟨hvs, -, hv⟩ := List.pairwise_append.mp h
      have hjoin : Compatible (overlay vs) v := (ih hvs).mpr fun u hu => hv u hu v (by simp)
      rw [overlay_concat, compatible_join_left hjoin, ih hvs]
      simp [or_imp, forall_and]

/-- Overlays can be merged when each view of the one can be merged with each view of the other. -/
theorem compatible_overlays (hv : vs.Pairwise Compatible) (hw : ws.Pairwise Compatible) :
    Compatible (overlay vs) (overlay ws) ↔ ∀ v ∈ vs, ∀ w ∈ ws, Compatible v w := by
  rw [compatible_overlay hv]
  refine forall₂_congr fun v _ => ⟨fun h w hmem => ?_, fun h => ?_⟩
  · exact ((compatible_overlay hw).mp h.symm w hmem).symm
  · exact ((compatible_overlay hw).mpr fun w hmem => (h w hmem).symm).symm

/-- The overlay of two lists of views is the join of their overlays. -/
theorem overlay_append (h : (vs ++ ws).Pairwise Compatible) :
    overlay (vs ++ ws) = (overlay vs).join (overlay ws) := by
  induction ws using List.reverseRecOn with
  | nil =>
      rw [List.append_nil]
      exact (join_none _).symm
  | append_singleton ws w ih =>
      rw [← List.append_assoc] at h ⊢
      obtain ⟨hfront, -, hlast⟩ := List.pairwise_append.mp h
      obtain ⟨hvs, hws, hcross⟩ := List.pairwise_append.mp hfront
      have hbehind : Compatible (overlay ws) w :=
        (compatible_overlay hws).mpr fun u hu => hlast u (by simp [hu]) w (by simp)
      rw [overlay_concat, overlay_concat, ih hfront,
        join_assoc ((compatible_overlays hvs hws).mpr hcross) hbehind]

theorem join_right_comm (f : View P) (hvw : Compatible v w) :
    (f.join v).join w = (f.join w).join v := by
  funext p
  cases hf : f p <;> cases hv : v p <;> cases hw : w p <;> simp [join, hf, hv, hw]
  · exact Label.join_comm (hvw.meets p _ _ hv hw)
  · exact Label.join_right_comm _ (hvw.meets p _ _ hv hw)

theorem overlay_perm (hperm : vs.Perm ws) (h : vs.Pairwise Compatible) :
    overlay vs = overlay ws := by
  refine hperm.foldl_eq' (fun v hv w hw f => ?_) none
  by_cases hvw : v = w
  · rw [hvw]
  · exact join_right_comm f (h.forall hv hw hvw)

theorem anonymous_overlay (vs : List (View P)) :
    (overlay vs).anonymous = overlay (vs.map anonymous) := by
  induction vs using List.reverseRecOn with
  | nil => rfl
  | append_singleton vs v ih =>
      rw [overlay_concat, anonymous_join, ih, List.map_append, List.map_singleton, overlay_concat]

theorem isSome_overlay : (overlay vs p).isSome ↔ ∃ v ∈ vs, (v p).isSome := by
  induction vs using List.reverseRecOn with
  | nil => simp [overlay, none]
  | append_singleton vs v ih =>
      rw [overlay_concat, isSome_join, Bool.or_eq_true, ih]
      simp [or_and_right, exists_or]

/-- The payloads at a position of an overlay are those of its views there. -/
theorem mem_payloads_overlay (h : vs.Pairwise Compatible) {x : P} :
    (∃ l, overlay vs p = some l ∧ x ∈ l.payloads) ↔
      ∃ v ∈ vs, ∃ l, v p = some l ∧ x ∈ l.payloads := by
  induction vs using List.reverseRecOn with
  | nil => simp [overlay, none]
  | append_singleton vs v ih =>
      obtain ⟨hvs, -, hv⟩ := List.pairwise_append.mp h
      have hjoin := (compatible_overlay hvs).mpr fun u hu => hv u hu v (by simp)
      rw [overlay_concat, mem_payloads_join hjoin, ih hvs]
      simp [or_and_right, exists_or]

/-- At every position an overlay is of the kind of one of its views. -/
theorem exists_kind_of_overlay {l : Label P} (hl : overlay vs p = some l) :
    ∃ v ∈ vs, ∃ m, v p = some m ∧ l.kind = m.kind := by
  induction vs using List.reverseRecOn generalizing l with
  | nil => cases hl
  | append_singleton vs v ih =>
      rw [overlay_concat] at hl
      unfold join at hl
      cases hm : overlay vs p with
      | none =>
          rw [hm, Option.merge_none_left] at hl
          exact ⟨v, by simp, l, hl, rfl⟩
      | some m =>
          obtain ⟨u, hu, n, hn, hkind⟩ := ih hm
          refine ⟨u, by simp [hu], n, hn, ?_⟩
          rw [hm] at hl
          cases hv : v p with
          | none =>
              rw [hv, Option.merge_none_right, Option.some.injEq] at hl
              rw [← hl, hkind]
          | some m' =>
              rw [hv] at hl
              rw [← Option.some.inj hl, Label.kind_join, hkind]

/-- A unique leaf in an overlay is that of one of its views. -/
theorem exists_unique_of_overlay {value : P} {row : Option Nat}
    (h : overlay vs p = some (.unique value row)) : ∃ v ∈ vs, v p = some (.unique value row) := by
  induction vs using List.reverseRecOn with
  | nil => cases h
  | append_singleton vs v ih =>
      rw [overlay_concat] at h
      unfold join at h
      cases hl : overlay vs p with
      | none =>
          rw [hl, Option.merge_none_left] at h
          exact ⟨v, by simp, h⟩
      | some l =>
          have hunique : l = .unique value row := by
            rw [hl] at h
            cases hm : v p with
            | none =>
                rw [hm, Option.merge_none_right] at h
                exact Option.some.inj h
            | some m =>
                rw [hm] at h
                have hjoin : l.join m = .unique value row := Option.some.inj h
                cases l <;> cases m <;> first | exact hjoin | cases hjoin
          obtain ⟨u, hu, hup⟩ := ih (hunique ▸ hl)
          exact ⟨u, by simp [hu], hup⟩

/-! ## Branches -/

theorem concat_prefix_iff {α : Type} {p path : List α} {s : α} :
    p ++ [s] <+: path ↔ p <+: path ∧ path[p.length]? = some s := by
  constructor
  · rintro ⟨q, rfl⟩
    exact ⟨⟨s :: q, by simp⟩, by simp⟩
  · rintro ⟨⟨q, rfl⟩, hs⟩
    cases q with
    | nil => simp at hs
    | cons t q =>
        obtain rfl : t = s := by simpa using hs
        exact ⟨q, by simp⟩

/-- The view of a tree with one leaf. -/
def branch (leaf : Label P) : Position → View P
  | [] => root leaf
  | s :: path => graft (.above s) s (branch leaf path)

theorem isSome_branch {leaf : Label P} {path : Position} :
    (branch leaf path p).isSome ↔ p <+: path := by
  induction path generalizing p with
  | nil => cases p <;> simp [branch, root]
  | cons s path ih =>
      cases p with
      | nil => simp [branch, graft]
      | cons t p =>
          by_cases hts : t = s
          · simp [branch, graft, hts, ih]
          · simp [branch, graft, hts]

theorem branch_self (leaf : Label P) (path : Position) : branch leaf path path = some leaf := by
  induction path with
  | nil => rfl
  | cons s path ih => simpa [branch, graft] using ih

theorem branch_append_cons (leaf : Label P) (p : Position) (s : ColumnKey) (q : Position) :
    branch leaf (p ++ s :: q) p = some (.above s) := by
  induction p with
  | nil => rfl
  | cons t p ih => simpa [branch, graft] using ih

theorem anonymous_branch (leaf : Label P) (path : Position) :
    (branch leaf path).anonymous = branch leaf.anonymous path := by
  induction path with
  | nil =>
      funext p
      cases p <;> rfl
  | cons s path ih =>
      funext p
      cases p with
      | nil => cases s <;> rfl
      | cons t p =>
          have hp := congrFun ih p
          unfold anonymous at hp ⊢
          simp only [branch, graft]
          split
          · exact hp
          · rfl

/-- Payloads stand at the end of a branch only. -/
theorem mem_payloads_branch {leaf : Label P} {path : Position} {x : P} :
    (∃ l, branch leaf path p = some l ∧ x ∈ l.payloads) ↔ p = path ∧ x ∈ leaf.payloads := by
  constructor
  · rintro ⟨l, hl, hx⟩
    obtain ⟨q, rfl⟩ := isSome_branch.mp (by rw [hl]; rfl)
    cases q with
    | nil =>
        rw [List.append_nil] at hl ⊢
        exact ⟨rfl, Option.some.inj ((branch_self leaf p).symm.trans hl) ▸ hx⟩
    | cons s q =>
        obtain rfl := Option.some.inj ((branch_append_cons leaf p s q).symm.trans hl)
        cases s <;> cases hx
  · rintro ⟨rfl, hx⟩
    exact ⟨leaf, branch_self leaf p, hx⟩

end View

/-! ## Positions that part -/

namespace Position

variable {p q : Position} {s t : ColumnKey}

theorem not_clash_nil : ¬ Clash [] [] := by
  rintro ⟨front, i, j, back, back', h, -⟩
  simp at h

theorem clash_cons_self : Clash (s :: p) (s :: q) ↔ Clash p q := by
  constructor
  · rintro ⟨front, i, j, back, back', hp, hq, hne, hij⟩
    cases front with
    | nil =>
        simp only [List.nil_append, List.cons.injEq] at hp hq
        exact absurd (ColumnKey.range.inj (hp.1.symm.trans hq.1)) hne
    | cons t front =>
        simp only [List.cons_append, List.cons.injEq] at hp hq
        exact ⟨front, i, j, back, back', hp.2, hq.2, hne, hij⟩
  · rintro ⟨front, i, j, back, back', rfl, rfl, hne, hij⟩
    exact ⟨s :: front, i, j, back, back', rfl, rfl, hne, hij⟩

theorem clash_cons_of_ne (hst : s ≠ t) :
    Clash (s :: p) (t :: q) ↔ ∃ i j, s = .range i ∧ t = .range j ∧ i.overlaps j = true := by
  constructor
  · rintro ⟨front, i, j, back, back', hp, hq, -, hij⟩
    cases front with
    | nil =>
        simp only [List.nil_append, List.cons.injEq] at hp hq
        exact ⟨i, j, hp.1, hq.1, hij⟩
    | cons u front =>
        simp only [List.cons_append, List.cons.injEq] at hp hq
        exact absurd (hp.1.trans hq.1.symm) hst
  · rintro ⟨i, j, rfl, rfl, hij⟩
    exact ⟨[], i, j, p, q, rfl, rfl, fun h => hst (h ▸ rfl), hij⟩

end Position

namespace View

variable {P : Type} {f g : View P} {p q : Position} {s t : ColumnKey} {k l m : Label P}

theorem compatible_graft_self (hk : k.Meets k) :
    Compatible (graft k s f) (graft k s g) ↔ Compatible f g := by
  constructor
  · intro h
    have hbelow := h.below s
    rwa [below_graft, below_graft] at hbelow
  · intro h
    refine compatible_graft rfl hk (fun i j hi hj => ?_) (by rwa [below_graft])
    by_cases hij : ColumnKey.range i = s
    · exact Or.inl (ColumnKey.range.inj (hij.trans hj))
    · simp [graft, hij] at hi

theorem compatible_graft_of_ne (hk : k.Meets k) (hst : s ≠ t) (hf : (f []).isSome)
    (hg : (g []).isSome) : Compatible (graft k s f) (graft k t g) ↔
      ¬ ∃ i j, s = .range i ∧ t = .range j ∧ i.overlaps j = true := by
  constructor
  · rintro h ⟨i, j, rfl, rfl, hij⟩
    rcases h.disjoint [] i j (by simpa [graft] using hf) (by simpa [graft] using hg) with rfl | hij'
    · exact hst rfl
    · simp [hij'] at hij
  · intro h
    refine compatible_graft rfl hk (fun i j hi hj => Or.inr ?_) ?_
    · by_cases his : ColumnKey.range i = s
      · rw [← Bool.not_eq_true]
        exact fun hij => h ⟨i, j, his.symm, hj, hij⟩
      · simp [graft, his] at hi
    · rw [below_graft_of_ne k f (Ne.symm hst)]
      exact (compatible_none g).symm

/-- Branches with levels of the same kinds are compatible unless their paths clash, or are equal
and end in leaves that do not meet. -/
theorem compatible_branch_iff
    (h : List.Forall₂ (fun s t => (Label.above s : Label P) = Label.above t) p q) :
    Compatible (branch l p) (branch m q) ↔ ¬ p.Clash q ∧ (p = q → l.Meets m) := by
  have habove : ∀ s, (Label.above s : Label P).Meets (Label.above s) := by
    intro s
    cases s <;> trivial
  induction h with
  | nil =>
      constructor
      · intro h
        exact ⟨Position.not_clash_nil, fun _ => h.meets [] l m rfl rfl⟩
      · rintro ⟨-, hmeets⟩
        exact compatible_root rfl (hmeets rfl)
  | @cons s t p q hst _ ih =>
      unfold branch
      rw [hst]
      by_cases heq : s = t
      · subst heq
        refine (compatible_graft_self (habove s)).trans (Iff.trans ih ?_)
        simp [Position.clash_cons_self]
      · rw [compatible_graft_of_ne (habove t) heq (isSome_branch.mpr List.nil_prefix)
          (isSome_branch.mpr List.nil_prefix), Position.clash_cons_of_ne heq]
        simp [heq]

end View

end DecisionTable
