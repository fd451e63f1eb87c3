import DecisionTable.Tree.Chain
import DecisionTable.Proofs.Schema
import DecisionTable.Proofs.Tree.Merge
import Mathlib.Data.List.Induction

/-!
# Clashes

Where two trees have a structure each at one position, a merge has to make one of the two. It fails
when there are two that do not go together, and only then, with the report of such a clash at the
key path that leads there. Which of several clashes that is depends on the order of the incoming
tree's children; but a tree with a single path clashes at one position at most.

* `Shared` : the positions that two trees share, and the structures there;
* `Clash`, `ClashAt` : two structures that do not go together, and the report of it;
* `SinglePath` : trees without branching;
* `merge_fails_at_clash` : when and how a merge fails.
-/

namespace DecisionTable.Tree

open Ordered
open View (Conflict)

variable {P : Type} {a b c d : Tree P} {s : ColumnKey} {p q : Position}

/-! ## Shared positions -/

/-- The positions that two trees share, with the structures there. They share the root, and from a
shared position on the children under one key, the fallbacks, and the children under one interval. -/
inductive Shared (a b : Tree P) : Position → Tree P → Tree P → Prop where
  | root : Shared a b [] a b
  | key {p : Position} {level level' : ExactLevel (Tree P)} {value : KeyValue} {c d : Tree P}
      (h : Shared a b p (.exact level) (.exact level')) (hc : level.getExact? value = some c)
      (hd : level'.getExact? value = some d) : Shared a b (p ++ [.exact value]) c d
  | fallback {p : Position} {level level' : ExactLevel (Tree P)} {c d : Tree P}
      (h : Shared a b p (.exact level) (.exact level')) (hc : level.fallback = some c)
      (hd : level'.fallback = some d) : Shared a b (p ++ [.any]) c d
  | interval {p : Position} {level level' : RangeLevel (Tree P)} {i : Interval} {c d : Tree P}
      (h : Shared a b p (.range level) (.range level')) (hc : level.getExact? i = some c)
      (hd : level'.getExact? i = some d) : Shared a b (p ++ [.range i]) c d

theorem Shared.child {c' d' : Tree P} (h : Shared a b p c d) (hc : c.child? s = some c')
    (hd : d.child? s = some d') : Shared a b (p ++ [s]) c' d' := by
  cases s with
  | exact value => cases c <;> cases d <;> first | exact .key h hc hd | cases hc | cases hd
  | any => cases c <;> cases d <;> first | exact .fallback h hc hd | cases hc | cases hd
  | range i => cases c <;> cases d <;> first | exact .interval h hc hd | cases hc | cases hd

/-- What two trees share is where both have something. -/
theorem shared_iff : Shared a b p c d ↔ a.at? p = some c ∧ b.at? p = some d := by
  constructor
  · intro h
    induction h with
    | root => exact ⟨rfl, rfl⟩
    | key _ hc hd ih | fallback _ hc hd ih | interval _ hc hd ih =>
        rw [at?_concat, at?_concat, ih.1, ih.2]
        exact ⟨hc, hd⟩
  · rintro ⟨hc, hd⟩
    induction p using List.reverseRecOn generalizing c d with
    | nil =>
        obtain rfl : a = c := Option.some.inj hc
        obtain rfl : b = d := Option.some.inj hd
        exact .root
    | append_singleton p s ih =>
        rw [at?_concat] at hc hd
        obtain ⟨c₀, hc₀, hc⟩ := Option.bind_eq_some_iff.mp hc
        obtain ⟨d₀, hd₀, hd⟩ := Option.bind_eq_some_iff.mp hd
        exact (ih hc₀ hd₀).child hc hd

/-! ## Clashes -/

section Clash

variable [Payload P] {report : KeyPath → TableError}

/-- Two structures that do not go together, an existing and an incoming one, and how that is
reported at a key path: structures of two kinds, two unique leaves, or range levels with intervals
that overlap without being identical. -/
inductive Clash : Tree P → Tree P → (KeyPath → TableError) → Prop where
  | kind {existing incoming : Tree P} (hne : existing.kind ≠ incoming.kind) :
      Clash existing incoming fun path =>
        .inconsistentLeafKind path.display existing.kind incoming.kind none
  | unique (value value' : P) (row row' : Option Nat) :
      Clash (.unique value row) (.unique value' row') fun path =>
        .uniqueKeyViolation path.display (Payload.display value) (Payload.display value') row row'
  | overlap {level level' : RangeLevel (Tree P)} {i j : Interval} (hi : i ∈ level.intervals)
      (hj : j ∈ level'.intervals) (hne : i ≠ j) (hij : i.overlaps j = true) :
      Clash (.range level) (.range level') fun path =>
        .overlappingRange path.display i.display j.display none

def ClashAt (a b : Tree P) (p : Position) (report : KeyPath → TableError) : Prop :=
  ∃ c d, Shared a b p c d ∧ Clash c d report

theorem clashAt_nil : ClashAt a b [] report ↔ Clash a b report := by
  constructor
  · rintro ⟨c, d, hshared, hclash⟩
    obtain ⟨hc, hd⟩ := shared_iff.mp hshared
    obtain rfl : a = c := Option.some.inj hc
    obtain rfl : b = d := Option.some.inj hd
    exact hclash
  · intro hclash
    exact ⟨a, b, .root, hclash⟩

theorem clashAt_cons : ClashAt a b (s :: p) report ↔
    ∃ c d, a.child? s = some c ∧ b.child? s = some d ∧ ClashAt c d p report := by
  constructor
  · rintro ⟨c', d', hshared, hclash⟩
    obtain ⟨hc', hd'⟩ := shared_iff.mp hshared
    obtain ⟨c, hc, hcp⟩ := Option.bind_eq_some_iff.mp hc'
    obtain ⟨d, hd, hdp⟩ := Option.bind_eq_some_iff.mp hd'
    exact ⟨c, d, hc, hd, c', d', shared_iff.mpr ⟨hcp, hdp⟩, hclash⟩
  · rintro ⟨c, d, hc, hd, c', d', hshared, hclash⟩
    obtain ⟨hcp, hdp⟩ := shared_iff.mp hshared
    refine ⟨c', d', shared_iff.mpr ⟨?_, ?_⟩, hclash⟩
    · rw [at?, hc, Option.bind_some, hcp]
    · rw [at?, hd, Option.bind_some, hdp]

omit [Payload P] in
theorem at?_of_view_range (h : a.view p = some .range) :
    ∃ level, a.at? p = some (range level) ∧
      ∀ i, (a.view (p ++ [.range i])).isSome ↔ i ∈ level.intervals := by
  obtain ⟨c, hc, hlabel⟩ := Option.map_eq_some_iff.mp h
  cases c with
  | range level =>
      refine ⟨level, hc, fun i => ?_⟩
      rw [← view_at hc, isSome_view_singleton, RangeLevel.mem_intervals_iff]
      rfl
  | exact | unique | multi => cases hlabel

omit [Payload P] in
theorem at?_of_view_unique {value : P} {row : Option Nat} (h : a.view p = some (.unique value row)) :
    a.at? p = some (unique value row) := by
  obtain ⟨c, hc, hlabel⟩ := Option.map_eq_some_iff.mp h
  cases c with
  | unique value' row' =>
      cases hlabel
      exact hc
  | exact | range | multi => cases hlabel

/-- The conflicts of the views of two trees are the clashes of the trees. -/
theorem conflict_iff_clashAt : Conflict a.view b.view p report ↔ ClashAt a b p report := by
  constructor
  · intro h
    cases h with
    | kind hl hm hne =>
        obtain ⟨c, hc, rfl⟩ := Option.map_eq_some_iff.mp hl
        obtain ⟨d, hd, rfl⟩ := Option.map_eq_some_iff.mp hm
        refine ⟨c, d, shared_iff.mpr ⟨hc, hd⟩, ?_⟩
        rw [kind_label, kind_label] at hne
        simpa only [kind_label] using Clash.kind hne
    | unique hl hm =>
        exact ⟨_, _, shared_iff.mpr ⟨at?_of_view_unique hl, at?_of_view_unique hm⟩, .unique ..⟩
    | overlap hl hm hi hj hne hij =>
        obtain ⟨level, hc, hlevel⟩ := at?_of_view_range hl
        obtain ⟨level', hd, hlevel'⟩ := at?_of_view_range hm
        exact ⟨_, _, shared_iff.mpr ⟨hc, hd⟩,
          .overlap ((hlevel _).mp hi) ((hlevel' _).mp hj) hne hij⟩
  · rintro ⟨c, d, hshared, hclash⟩
    obtain ⟨hc, hd⟩ := shared_iff.mp hshared
    have hl : a.view p = some c.label := congrArg (Option.map label) hc
    have hm : b.view p = some d.label := congrArg (Option.map label) hd
    cases hclash with
    | kind hne =>
        rw [← kind_label c, ← kind_label d] at hne ⊢
        exact .kind hl hm hne
    | unique value value' row row' => exact .unique hl hm
    | overlap hi hj hne hij =>
        refine .overlap hl hm ?_ ?_ hne hij
        · rw [← view_at hc, isSome_view_singleton]
          exact RangeLevel.mem_intervals_iff.mp hi
        · rw [← view_at hd, isSome_view_singleton]
          exact RangeLevel.mem_intervals_iff.mp hj

end Clash

/-! ## Trees with a single path -/

/-- Every level has one child. -/
inductive SinglePath : Tree P → Prop where
  | key {c : Tree P} (value : KeyValue) (h : SinglePath c) :
      SinglePath (.exact ⟨[(value, c)], none⟩)
  | fallback {c : Tree P} (h : SinglePath c) : SinglePath (.exact ⟨[], some c⟩)
  | band {c : Tree P} (i : Interval) (h : SinglePath c) : SinglePath (.range ⟨#[⟨i, c⟩]⟩)
  | unique (value : P) (row : Option Nat) : SinglePath (.unique value row)
  | multi (values : List P) : SinglePath (.multi values)

theorem child?_only_key {value : KeyValue} (h : (exact ⟨[(value, c)], none⟩).child? s = some d) :
    s = .exact value ∧ d = c := by
  cases s with
  | exact key => simpa using Entries.mem_of_lookup h
  | any | range => cases h

theorem child?_only_fallback (h : (exact ⟨[], some c⟩).child? s = some d) : s = .any ∧ d = c := by
  cases s with
  | any => exact ⟨rfl, (Option.some.inj h).symm⟩
  | exact | range => cases h

theorem child?_only_band {i : Interval} (h : (range ⟨#[⟨i, c⟩]⟩).child? s = some d) :
    s = .range i ∧ d = c := by
  cases s with
  | range j =>
      obtain ⟨band, hband, rfl, rfl⟩ := mem_of_child?_range h
      rw [List.mem_singleton.mp hband]
      exact ⟨rfl, rfl⟩
  | exact | any => cases h

/-- At most one step leads on from a structure on a single path, and stays on it. -/
theorem SinglePath.only_child (h : b.SinglePath) (hd : b.child? s = some d) :
    d.SinglePath ∧ ∀ t e, b.child? t = some e → t = s := by
  cases h with
  | key value h =>
      obtain ⟨rfl, rfl⟩ := child?_only_key hd
      exact ⟨h, fun t e he => (child?_only_key he).1⟩
  | fallback h =>
      obtain ⟨rfl, rfl⟩ := child?_only_fallback hd
      exact ⟨h, fun t e he => (child?_only_fallback he).1⟩
  | band i h =>
      obtain ⟨rfl, rfl⟩ := child?_only_band hd
      exact ⟨h, fun t e he => (child?_only_band he).1⟩
  | unique | multi => cases hd

/-- Where a tree with a single path clashes, it shares no position further down: the only interval
of its level would be one of the other level too, where it overlaps no other. -/
theorem SinglePath.not_clash [Payload P] {report : KeyPath → TableError} (hb : b.SinglePath)
    (ha : a.Readable) (hc : a.child? s = some c) (hd : b.child? s = some d) :
    ¬ Clash a b report := by
  intro hclash
  cases hclash with
  | kind hne => cases a <;> cases b <;> cases s <;> first | exact hne rfl | cases hc | cases hd
  | unique => cases hc
  | @overlap level level' i j hi hj hne hij =>
      have hsound : level.Sound := ha [] level rfl
      obtain ⟨e, he⟩ := Option.isSome_iff_exists.mp (RangeLevel.mem_intervals_iff.mp hj)
      obtain rfl : ColumnKey.range j = s := (hb.only_child hd).2 (.range j) e he
      have hj' : j ∈ level.intervals :=
        RangeLevel.mem_intervals_iff.mpr (Option.isSome_iff_exists.mpr ⟨c, hc⟩)
      rcases hsound.eq_or_disjoint hi hj' with heq | hdisjoint
      · exact hne heq
      · simp [hdisjoint] at hij

section Fails

variable [Payload P] {report report' : KeyPath → TableError}

/-- A tree with a single path clashes at one position at most. -/
theorem ClashAt.position_unique (hb : b.SinglePath) (ha : a.Readable) (hp : ClashAt a b p report)
    (hq : ClashAt a b q report') : p = q := by
  induction p generalizing a b q with
  | nil =>
      cases q with
      | nil => rfl
      | cons t q =>
          obtain ⟨c, d, hc, hd, -⟩ := clashAt_cons.mp hq
          exact absurd (clashAt_nil.mp hp) (hb.not_clash ha hc hd)
  | cons s p ih =>
      obtain ⟨c, d, hc, hd, hcd⟩ := clashAt_cons.mp hp
      cases q with
      | nil => exact absurd (clashAt_nil.mp hq) (hb.not_clash ha hc hd)
      | cons t q =>
          obtain ⟨c', d', hc', hd', hcd'⟩ := clashAt_cons.mp hq
          obtain rfl : t = s := (hb.only_child hd).2 t d' hd'
          obtain rfl : c = c' := Option.some.inj (hc.symm.trans hc')
          obtain rfl : d = d' := Option.some.inj (hd.symm.trans hd')
          rw [ih (hb.only_child hd).1 (ha.child hc) hcd hcd']

/-! ## Merging fails at a clash -/

/-- A merge fails just when the two trees clash somewhere, and reports a clash, at the key path that
leads there. A tree with a single path clashes at one position at most. -/
theorem merge_fails_at_clash (ha : a.Lawful) (hb : b.Lawful) (path : KeyPath) :
    ((∃ e, (a.merge b).runAt path = .error e) ↔ ∃ p report, ClashAt a b p report) ∧
    (∀ e, (a.merge b).runAt path = .error e →
      ∃ p report, ClashAt a b p report ∧ e = report (path.follow p)) ∧
    (b.SinglePath → ∀ p q report report', ClashAt a b p report → ClashAt a b q report' → p = q) := by
  have hmerge := merge_kept kept_readable ha.readable hb hb.readable path
  have hreports : ∀ e, (a.merge b).runAt path = .error e →
      ∃ p report, ClashAt a b p report ∧ e = report (path.follow p) := by
    intro e he
    unfold Merging.runAt at he
    generalize a.merge b path = result at hmerge he
    cases hmerge with
    | done => cases he
    | @clash p report conflict =>
        cases he
        exact ⟨p, report, conflict_iff_clashAt.mp conflict, rfl⟩
  refine ⟨⟨?_, ?_⟩, hreports, ?_⟩
  · rintro ⟨e, he⟩
    obtain ⟨p, report, hclash, -⟩ := hreports e he
    exact ⟨p, report, hclash⟩
  · rintro ⟨p, report, hclash⟩
    unfold Merging.runAt
    generalize a.merge b path = result at hmerge
    cases hmerge with
    | done compatible => exact absurd compatible (conflict_iff_clashAt.mpr hclash).not_compatible
    | clash => exact ⟨_, rfl⟩
  · intro hsingle p q report report' hp hq
    exact hp.position_unique hsingle ha.readable hq

end Fails

def feeBands : Tree String :=
  .exact ⟨[(.bool true, .range ⟨#[⟨.below (.integer 10), .unique "low" (some 0)⟩,
    ⟨.atLeast (.integer 10), .unique "high" (some 1)⟩]⟩)], some (.unique "none" (some 2))⟩

def feeChain : Tree String :=
  .exact ⟨[(.bool true,
    .range ⟨#[⟨⟨some (.integer 5), some (.integer 9)⟩, .unique "mid" (some 3)⟩]⟩)], none⟩

theorem lawful_feeBands : feeBands.Lawful := by
  refine .exact (List.nodup_singleton _) ?_ ?_
  · refine List.forall_mem_singleton.mpr (.range ⟨?_, ?_, ?_⟩ ?_)
    · decide +kernel
    · decide +kernel
    · decide +kernel
    · exact List.forall_mem_cons.mpr ⟨.unique .., List.forall_mem_singleton.mpr (.unique ..)⟩
  · rintro child ⟨rfl⟩
    exact .unique ..

theorem lawful_feeChain : feeChain.Lawful := by
  refine .exact (List.nodup_singleton _) ?_ nofun
  refine List.forall_mem_singleton.mpr (.range ⟨?_, ?_, ?_⟩ ?_)
  · decide +kernel
  · exact List.pairwise_singleton _ _
  · exact List.pairwise_singleton _ _
  · exact List.forall_mem_singleton.mpr (.unique ..)

theorem merge_fails_at_clash_feeBands :
    let e : TableError := .overlappingRange "true" "(-inf, 10)" "[5, 9)" none
    (feeBands.Lawful ∧ feeChain.Lawful ∧ feeChain.SinglePath) ∧
    (feeBands.merge feeChain).runAt .root = .error e ∧
    ∃ p report, ClashAt feeBands feeChain p report ∧ e = report (KeyPath.root.follow p) ∧
      ∀ q report', ClashAt feeBands feeChain q report' → q = p := by
  have hsingle : feeChain.SinglePath := .key _ (.band _ (.unique ..))
  have hrun : (feeBands.merge feeChain).runAt .root =
      .error (.overlappingRange "true" "(-inf, 10)" "[5, 9)" none) :=
    eq_error_of_map (f := fun _ => ()) (by decide +kernel)
  obtain ⟨-, hreports, hunique⟩ := merge_fails_at_clash lawful_feeBands lawful_feeChain .root
  obtain ⟨p, report, hclash, he⟩ := hreports _ hrun
  refine ⟨⟨lawful_feeBands, lawful_feeChain, hsingle⟩, hrun, p, report, hclash, he, ?_⟩
  exact fun q report' hq => hunique hsingle q p report' report hq hclash

end DecisionTable.Tree
