import DecisionTable.Proofs.Table.Permutation
import DecisionTable.Proofs.Table.Query
import DecisionTable.Proofs.Tree.MergeLaws

/-!
# Building in parts

Rows can be built in two parts, whose trees are then merged. The branches of all rows are pairwise
compatible when those of either part are, and the overlays of the two parts can be merged; and the
overlay of all of them is then the join of these two.

* `buildable_append_iff`, `overlay_views_append` : rows in two parts;
* `RootOf.gives`, `RootOf.agree_merged` : what the trees of the parts merge to;
* `build_append` : a build at once, and a build in parts.
-/

namespace DecisionTable

open View (Compatible overlay)

variable {P : Type} {schema : Schema} {config : BuildConfig} {rows more : List (Row P)}

/-! ## Rows in two parts -/

/-- Rows in two parts can be built together when those of either part can, and their trees can be
merged. -/
theorem buildable_append_iff : Buildable schema config (rows ++ more) ↔
    Buildable schema config rows ∧ Buildable schema config more ∧
      Compatible (overlay (schema.views rows)) (overlay (schema.views more)) := by
  have hcross (h : (schema.views rows).Pairwise Compatible)
      (h' : (schema.views more).Pairwise Compatible) :
      Compatible (overlay (schema.views rows)) (overlay (schema.views more)) ↔
        ∀ v ∈ rows.map fun row => (row.view schema 0).anonymous,
          ∀ w ∈ more.map fun row => (row.view schema 0).anonymous, Compatible v w := by
    rw [← View.compatible_anonymous, anonymous_overlay_views, anonymous_overlay_views,
      View.compatible_overlays (compatible_views_iff.mp h) (compatible_views_iff.mp h')]
  constructor
  · rintro ⟨hadmitted, hcompat⟩
    rw [compatible_views_iff, List.map_append, List.pairwise_append, ← compatible_views_iff,
      ← compatible_views_iff] at hcompat
    obtain ⟨hrows, hmore, hboth⟩ := hcompat
    obtain ⟨hadmits, hadmits'⟩ := List.forall_mem_append.mp hadmitted
    exact ⟨⟨hadmits, hrows⟩, ⟨hadmits', hmore⟩, (hcross hrows hmore).mpr hboth⟩
  · rintro ⟨⟨hadmits, hrows⟩, ⟨hadmits', hmore⟩, hboth⟩
    refine ⟨List.forall_mem_append.mpr ⟨hadmits, hadmits'⟩, ?_⟩
    rw [compatible_views_iff, List.map_append, List.pairwise_append, ← compatible_views_iff,
      ← compatible_views_iff]
    exact ⟨hrows, hmore, (hcross hrows hmore).mp hboth⟩

/-- Apart from rows, the overlay of all branches is the join of those of the two parts. -/
theorem overlay_views_append (h : Buildable schema config (rows ++ more)) :
    (overlay (schema.views (rows ++ more))).anonymous =
      ((overlay (schema.views rows)).join (overlay (schema.views more))).anonymous := by
  have hcompat := compatible_views_iff.mp h.compatible
  rw [List.map_append] at hcompat
  rw [View.anonymous_join, anonymous_overlay_views, anonymous_overlay_views,
    anonymous_overlay_views, List.map_append, View.overlay_append hcompat]

variable [Payload P] {a b c tree : Tree P}

/-! ## Trees of two parts -/

/-- The trees of two parts can be merged when the branches of the parts are compatible. -/
theorem RootOf.gives (ha : RootOf schema rows (some a)) (hb : RootOf schema more (some b)) :
    Tree.Gives (Compatible (overlay (schema.views rows)) (overlay (schema.views more)))
      ((overlay (schema.views rows)).join (overlay (schema.views more))) (a.merged b) := by
  obtain ⟨-, hsound, hview⟩ := ha
  obtain ⟨-, hsound', hview'⟩ := hb
  rw [← hview, ← hview']
  exact Tree.merged_gives hsound hsound'

/-- Merged from the trees of two parts is the tree of all rows. -/
theorem RootOf.agree_merged (ha : RootOf schema rows (some a)) (hb : RootOf schema more (some b))
    (htree : RootOf schema (rows ++ more) (some tree))
    (hrows : Buildable schema config (rows ++ more)) (hc : a.merged b = .ok c) :
    Tree.Agree c tree := by
  have hgives := ha.gives hb
  rw [hc] at hgives
  cases hgives with
  | ok _ sound view =>
      obtain ⟨-, hsound, hview⟩ := htree
      refine Tree.agrees_of_view_anonymous sound hsound ?_
      rw [view, hview, overlay_views_append hrows]

/-- Rows in two parts can be built at once exactly when either part can be built and the trees of
the two can be merged; and the merged tree is then equal to the tree that is built at once. -/
theorem build_append (schema : Schema) (config : BuildConfig) (hrows : rows ≠ [])
    (hmore : more ≠ []) :
    ((∃ table, (Table.build schema config (rows ++ more)).value = .ok table) ↔
      ∃ left right a b c, (Table.build schema config rows).value = .ok left ∧
        (Table.build schema config more).value = .ok right ∧
        left.root = some a ∧ right.root = some b ∧ a.merged b = .ok c) ∧
    ∀ table left right a b c, (Table.build schema config (rows ++ more)).value = .ok table →
      (Table.build schema config rows).value = .ok left →
      (Table.build schema config more).value = .ok right →
      left.root = some a → right.root = some b → a.merged b = .ok c →
      ∃ tree, table.root = some tree ∧ Tree.Agree c tree := by
  refine ⟨⟨?_, ?_⟩, ?_⟩
  · intro hall
    obtain ⟨hvalid, hbuildable⟩ := (exists_table_iff _ _ _).mp hall
    obtain ⟨hleft, hright, hcompat⟩ := buildable_append_iff.mp hbuildable
    obtain ⟨left, hbuild⟩ := (exists_table_iff _ _ _).mpr ⟨hvalid, hleft⟩
    obtain ⟨right, hbuild'⟩ := (exists_table_iff _ _ _).mpr ⟨hvalid, hright⟩
    obtain ⟨a, ha, hroot⟩ := (over_of_build hbuild).exists_root hrows
    obtain ⟨b, hb, hroot'⟩ := (over_of_build hbuild').exists_root hmore
    obtain ⟨c, hc, -⟩ := (hroot.gives hroot').exists_ok hcompat
    exact ⟨left, right, a, b, c, hbuild, hbuild', ha, hb, hc⟩
  · rintro ⟨left, right, a, b, c, hbuild, hbuild', ha, hb, hc⟩
    obtain ⟨hvalid, hleft⟩ := (exists_table_iff _ _ _).mp ⟨left, hbuild⟩
    obtain ⟨-, hright⟩ := (exists_table_iff _ _ _).mp ⟨right, hbuild'⟩
    have hroot := (over_of_build hbuild).root
    have hroot' := (over_of_build hbuild').root
    rw [ha] at hroot
    rw [hb] at hroot'
    have hgives := hroot.gives hroot'
    rw [hc] at hgives
    cases hgives with
    | ok hcompat =>
        exact (exists_table_iff _ _ _).mpr
          ⟨hvalid, buildable_append_iff.mpr ⟨hleft, hright, hcompat⟩⟩
  · intro table left right a b c hall hbuild hbuild' ha hb hc
    have hover := over_of_build hall
    obtain ⟨tree, htree, hroot⟩ := hover.exists_root (List.append_ne_nil_of_left_ne_nil hrows more)
    have hleft := (over_of_build hbuild).root
    have hright := (over_of_build hbuild').root
    rw [ha] at hleft
    rw [hb] at hright
    exact ⟨tree, htree, hleft.agree_merged hright hroot hover.buildable hc⟩

theorem build_append_feeRows :
    (feeRows.take 2 ≠ [] ∧ feeRows.drop 2 ≠ []) ∧
    ∃ table left right a b c tree, (Table.build feeSchema {} feeRows).value = .ok table ∧
      (Table.build feeSchema {} (feeRows.take 2)).value = .ok left ∧
      (Table.build feeSchema {} (feeRows.drop 2)).value = .ok right ∧
      left.root = some a ∧ right.root = some b ∧ a.merged b = .ok c ∧
      table.root = some tree ∧ Tree.Agree c tree := by
  have hfront : feeRows.take 2 ≠ [] := nofun
  have hback : feeRows.drop 2 ≠ [] := nofun
  have hlaw := build_append feeSchema {} hfront hback
  rw [List.take_append_drop] at hlaw
  obtain ⟨table, hbuild⟩ : ∃ table, (Table.build feeSchema {} feeRows).value = .ok table :=
    exists_of_isOk (by decide +kernel)
  obtain ⟨left, right, a, b, c, hleft, hright, ha, hb, hc⟩ := hlaw.1.mp ⟨table, hbuild⟩
  obtain ⟨tree, htree, hagree⟩ := hlaw.2 table left right a b c hbuild hleft hright ha hb hc
  exact ⟨⟨hfront, hback⟩, table, left, right, a, b, c, tree, hbuild, hleft, hright, ha, hb, hc,
    htree, hagree⟩

end DecisionTable
