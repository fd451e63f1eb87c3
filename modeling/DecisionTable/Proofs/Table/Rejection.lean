import DecisionTable.Proofs.Table.Conflict
import Mathlib.Order.Bounds.Basic

/-!
# Why a build fails

A build stops at the first row that cannot be inserted after those before it, and says why: the row
is invalid, it lacks its payload, it has the keys of an earlier row, or its interval in some column
overlaps that of an earlier row which is read alike in the columns before. Exactly one of these is
the case, and the error names the earlier row or interval and the key path that leads there.

* `Schema.Rejects` : the errors for a row after earlier ones, one case for each cause;
* `Grown.rejects` : an error of inserting a row is one of these;
* `build_rejects` : a build that fails, fails at the first row that cannot be inserted.
-/

namespace DecisionTable

open View (Compatible overlay)

variable {P : Type} {schema : Schema} {config : BuildConfig} {rows : List (Row P)}
  {row other : Row P} {p : Position}

/-! ## Causes -/

def Schema.pathTo (schema : Schema) (p : Position) : String :=
  ((KeyPath.forColumns schema.columnNames).follow p).display

/-- The error for a row that is inserted after earlier ones, which can be built together. The number
of the row is the number of these. -/
inductive Schema.Rejects [Payload P] (schema : Schema) (config : BuildConfig)
    (earlier : List (Row P)) (row : Row P) : TableError → Prop where
  /-- The row is invalid. -/
  | key {column : Nat} {message : String}
      (invalid : schema.validateRow row.keys config.checkKeyTypes =
        .error (.invalidKey column message none)) :
      Rejects schema config earlier row (.invalidKey column message (some earlier.length))
  /-- The row has no payload, where one is required. -/
  | result (valid : schema.validateRow row.keys config.checkKeyTypes = .ok ())
      (policy : schema.policy = .unique) (missing : row.payload = none) :
      Rejects schema config earlier row
        (.invalidResult "unique result requires a payload" (some earlier.length))
  /-- Just one earlier row is read like the row, in a table with unique results. -/
  | duplicate (admits : schema.Admits config row) (policy : schema.policy = .unique)
      {n : Nat} {other : Row P} (hother : earlier[n]? = some other)
      (same : schema.reading other.keys = schema.reading row.keys)
      (only : ∀ m another, earlier[m]? = some another →
        schema.reading another.keys = schema.reading row.keys → m = n)
      {value value' : P} (hvalue : other.payload = some value)
      (hvalue' : row.payload = some value') :
      Rejects schema config earlier row
        (.uniqueKeyViolation (schema.pathTo (schema.reading row.keys)) (Payload.display value)
          (Payload.display value') (some n) (some earlier.length))
  /-- No earlier row is read like the row, but one is up to a column, where the intervals of the two
  overlap. -/
  | overlap (admits : schema.Admits config row)
      (different : ∀ another ∈ earlier, schema.reading another.keys ≠ schema.reading row.keys)
      {other : Row P} (hother : other ∈ earlier) {c : Nat}
      (before : (schema.reading other.keys).take c = (schema.reading row.keys).take c)
      {i j : Interval} (hi : (schema.reading other.keys)[c]? = some (.range i))
      (hj : (schema.reading row.keys)[c]? = some (.range j)) (hne : i ≠ j)
      (hij : i.overlaps j = true) :
      Rejects schema config earlier row
        (.overlappingRange (schema.pathTo ((schema.reading row.keys).take c)) i.display j.display
          (some earlier.length))

/-! ## Conflicts with earlier rows -/

theorem leaf_eq_unique {n : Nat} {value : P} {number : Option Nat}
    (h : row.leaf schema.policy n = .unique value number) :
    schema.policy = .unique ∧ row.payload = some value ∧ number = some n := by
  obtain ⟨keys, payload⟩ := row
  unfold Row.leaf at h
  cases hpolicy : schema.policy <;> cases payload <;> simp_all

/-- Where the branch of a row has a unique leaf, it ends. -/
theorem unique_of_view {n : Nat} {value : P} {number : Option Nat}
    (hkeys : List.Forall₂ Column.Fits schema.columns row.keys)
    (h : row.view schema n p = some (.unique value number)) :
    p = schema.reading row.keys ∧ schema.policy = .unique ∧ row.payload = some value ∧
      number = some n := by
  rcases Row.view_cases hkeys h with ⟨column, -, hlevel⟩ | ⟨-, hp, hleaf⟩
  · obtain ⟨name, type, matching⟩ := column
    cases matching <;> cases hlevel
  · exact ⟨hp, leaf_eq_unique hleaf.symm⟩

/-- At one position, the branches of valid rows have structures of one kind. -/
theorem kind_view_eq {n n' : Nat} {l m : Label P} (hrow : schema.Admits config row)
    (hother : schema.Admits config other) (hl : other.view schema n p = some l)
    (hm : row.view schema n' p = some m) : l.kind = m.kind := by
  rcases Row.view_cases (Schema.fits_of_validateRow hother.keys) hl with
    ⟨column, hcolumn, rfl⟩ | ⟨hnone, -, rfl⟩ <;>
  rcases Row.view_cases (Schema.fits_of_validateRow hrow.keys) hm with
    ⟨column', hcolumn', rfl⟩ | ⟨hnone', -, rfl⟩
  · rw [Option.some.inj (hcolumn.symm.trans hcolumn')]
  · cases hcolumn.symm.trans hnone'
  · cases hnone.symm.trans hcolumn'
  · unfold Row.leaf
    cases hpolicy : schema.policy with
    | multi => rfl
    | unique =>
        obtain ⟨v, hv⟩ := Option.isSome_iff_exists.mp (hother.payload hpolicy)
        obtain ⟨w, hw⟩ := Option.isSome_iff_exists.mp (hrow.payload hpolicy)
        rw [hv, hw]
        rfl

/-- In a table with unique results, no two rows are read alike. -/
theorem Buildable.eq_of_reading_eq (h : Buildable schema config rows)
    (hpolicy : schema.policy = .unique) {m n : Nat} (hrow : rows[m]? = some row)
    (hother : rows[n]? = some other)
    (hsame : schema.reading row.keys = schema.reading other.keys) : m = n := by
  have hpairwise := List.pairwise_iff_getElem.mp (buildable_iff.mp h).2
  obtain ⟨hm, rfl⟩ := List.getElem?_eq_some_iff.mp hrow
  obtain ⟨hn, rfl⟩ := List.getElem?_eq_some_iff.mp hother
  rcases Nat.lt_trichotomy m n with hlt | heq | hlt
  · exact absurd (Or.inr ⟨hsame, hpolicy⟩) (hpairwise m n hm hn hlt)
  · exact heq
  · exact absurd (Or.inr ⟨hsame.symm, hpolicy⟩) (hpairwise n m hn hm hlt)

/-- The intervals of rows at one position are identical or disjoint. -/
theorem Buildable.eq_or_disjoint (h : Buildable schema config rows) {m n : Nat} {i j : Interval}
    (hrow : rows[m]? = some row) (hother : rows[n]? = some other)
    (hi : (row.view schema m (p ++ [.range i])).isSome)
    (hj : (other.view schema n (p ++ [.range j])).isSome) : i = j ∨ i.overlaps j = false := by
  by_cases hviews : row.view schema m = other.view schema n
  · rw [hviews] at hi
    obtain ⟨-, hi⟩ := Row.isSome_view_concat.mp hi
    obtain ⟨-, hj⟩ := Row.isSome_view_concat.mp hj
    exact Or.inl (ColumnKey.range.inj (Option.some.inj (hi.symm.trans hj)))
  · have hcompat := h.compatible.forall (mem_views_iff.mpr ⟨m, row, hrow, rfl⟩)
      (mem_views_iff.mpr ⟨n, other, hother, rfl⟩) hviews
    exact hcompat.disjoint p i j hi hj

variable [Payload P] {report : KeyPath → TableError}

/-- A conflict of a valid row with those before it has one of the causes. -/
theorem Buildable.rejects_of_conflict (h : Buildable schema config rows)
    (admits : schema.Admits config row)
    (hconflict : View.Conflict (overlay (schema.views rows)) (row.view schema rows.length) p
      report) :
    schema.Rejects config rows row
      ((report ((KeyPath.forColumns schema.columnNames).follow p)).atRow rows.length) := by
  have hkeys := Schema.fits_of_validateRow admits.keys
  cases hconflict with
  | kind hl hm hne =>
      obtain ⟨v, hv, l, hvl, hkind⟩ := View.exists_kind_of_overlay hl
      obtain ⟨n, other, hother, rfl⟩ := mem_views_iff.mp hv
      have hadmits := h.admitted other (List.mem_of_getElem? hother)
      exact absurd (hkind.trans (kind_view_eq admits hadmits hvl hm)) hne
  | unique hl hm =>
      obtain ⟨v, hv, hvl⟩ := View.exists_unique_of_overlay hl
      obtain ⟨n, other, hother, rfl⟩ := mem_views_iff.mp hv
      have hadmits := h.admitted other (List.mem_of_getElem? hother)
      obtain ⟨hp, hpolicy, hvalue', rfl⟩ := unique_of_view hkeys hm
      obtain ⟨hp', -, hvalue, rfl⟩ :=
        unique_of_view (Schema.fits_of_validateRow hadmits.keys) hvl
      have hsame := hp'.symm.trans hp
      subst hp
      refine .duplicate admits hpolicy hother hsame (fun m another hanother heq => ?_) hvalue hvalue'
      exact h.eq_of_reading_eq hpolicy hanother hother (heq.trans hsame.symm)
  | @overlap i j hl hm hi hj hne hij =>
      obtain ⟨v, hv, hvi⟩ := View.isSome_overlay.mp hi
      obtain ⟨n, other, hother, rfl⟩ := mem_views_iff.mp hv
      obtain ⟨hp, hi⟩ := Row.isSome_view_concat.mp hvi
      obtain ⟨hp', hj'⟩ := Row.isSome_view_concat.mp hj
      have htake := List.prefix_iff_eq_take.mp hp
      have htake' := List.prefix_iff_eq_take.mp hp'
      have hdifferent : ∀ another ∈ rows,
          schema.reading another.keys ≠ schema.reading row.keys := by
        intro another hmem heq
        obtain ⟨m, hanother⟩ := List.mem_iff_getElem?.mp hmem
        have hview : (another.view schema m (p ++ [.range j])).isSome :=
          Row.isSome_view_concat.mpr (heq ▸ ⟨hp', hj'⟩)
        rcases h.eq_or_disjoint hother hanother hvi hview with heq' | hdisjoint
        · exact hne heq'
        · simp [hdisjoint] at hij
      have hrejects := Schema.Rejects.overlap admits hdifferent (List.mem_of_getElem? hother)
        (htake.symm.trans htake') hi hj' hne hij
      rw [← htake'] at hrejects
      exact hrejects

/-- An error of inserting a row, with the number of the row filled in, has one of the causes. -/
theorem Grown.rejects {cause : TableError} (h : Buildable schema config rows)
    (hgrown : Grown schema config rows row (.error cause)) :
    schema.Rejects config rows row (cause.atRow rows.length) := by
  cases hgrown with
  | invalid hkeys =>
      obtain ⟨column, message, rfl⟩ := Schema.validateRow_error hkeys
      exact .key hkeys
  | missing hkeys hpolicy hpayload => exact .result hkeys hpolicy hpayload
  | conflict admits hconflict => exact h.rejects_of_conflict admits hconflict

/-! ## Builds that fail -/

variable {builder builder' : Builder P} {error : TableError}

theorem push_error (h : builder.Holds schema config rows)
    (hpush : (builder.push row).value = (.error error, builder')) :
    schema.Rejects config rows row error := by
  have hgrown := grow_grown h row
  simp only [Builder.push, h.failure] at hpush
  cases hg : builder.grow row with
  | error cause =>
      rw [hg] at hpush hgrown
      have herror : cause.atRow builder.rows = error :=
        Except.error.inj (congrArg Prod.fst hpush)
      rw [← herror, h.count]
      exact hgrown.rejects h.buildable
  | ok tree =>
      rw [hg] at hpush
      cases hpush

/-- Inserting rows fails at one of them, once those before it have been inserted. -/
theorem extend_error (h : builder.Holds schema config rows) {more : List (Row P)}
    (hextend : (builder.extend more).value = (.error error, builder')) :
    ∃ front row back, more = front ++ row :: back ∧ Buildable schema config (rows ++ front) ∧
      ¬ Buildable schema config (rows ++ front ++ [row]) ∧
      schema.Rejects config (rows ++ front) row error := by
  induction more generalizing rows builder with
  | nil => cases congrArg Prod.fst hextend
  | cons row more ih =>
      rw [Builder.extend, Logged.value_bind] at hextend
      rcases push_cases h row with ⟨next, hpush, hholds⟩ | ⟨hnot, e, next, hpush⟩
      · rw [hpush] at hextend
        obtain ⟨front, first, back, rfl, hfront, hfirst, hrejects⟩ := ih hholds hextend
        have hsplit : rows ++ [row] ++ front = rows ++ row :: front := by simp
        rw [hsplit] at hfront hfirst hrejects
        exact ⟨row :: front, first, back, rfl, hfront, hfirst, hrejects⟩
      · rw [hpush] at hextend
        obtain rfl : e = error := Except.error.inj (congrArg Prod.fst hextend)
        have hrejects := push_error h hpush
        refine ⟨[], row, more, rfl, ?_, ?_, ?_⟩
        · rw [List.append_nil]
          exact h.buildable
        · rw [List.append_nil]
          exact hnot
        · rw [List.append_nil]
          exact hrejects

theorem build_error (hvalid : schema.validate = .ok ())
    (h : (Table.build schema config rows).value = .error error) :
    ∃ front row back, rows = front ++ row :: back ∧ Buildable schema config front ∧
      ¬ Buildable schema config (front ++ [row]) ∧ schema.Rejects config front row error := by
  rw [Table.build, Logged.value_bind, Builder.start, hvalid] at h
  simp only [Logged.value_bind, Logged.value_pure] at h
  rcases extend_cases (holds_nil schema config) rows with
    ⟨builder, hextend, hholds⟩ | ⟨-, e, builder, hextend⟩
  · obtain ⟨table, hfinish, -⟩ := finish_over hholds
    rw [hextend] at h
    cases hfinish.symm.trans h
  · rw [hextend] at h
    obtain rfl : e = error := Except.error.inj h
    exact extend_error (holds_nil schema config) hextend

/-- A build that fails, fails at the first row that cannot be built together with those before it,
and has the error for that row. -/
theorem build_rejects (hvalid : schema.validate = .ok ())
    (h : (Table.build schema config rows).value = .error error) :
    ∃ j row, rows[j]? = some row ∧
      IsLeast {n | n < rows.length ∧
        ¬ ∃ table, (Table.build schema config (rows.take (n + 1))).value = .ok table} j ∧
      schema.Rejects config (rows.take j) row error := by
  obtain ⟨front, row, back, rfl, hfront, hrow, hrejects⟩ := build_error hvalid h
  have htake : (front ++ row :: back).take (front.length + 1) = front ++ [row] := by
    rw [List.take_append, List.take_of_length_le (Nat.le_succ _)]
    simp
  refine ⟨front.length, row, by simp, ⟨⟨by simp, ?_⟩, ?_⟩, by rwa [List.take_left]⟩
  · rw [htake, exists_table_iff]
    exact fun hall => hrow hall.2
  · rintro n ⟨-, hn⟩
    by_contra hlt
    rw [Nat.not_le] at hlt
    have hprefix : (front ++ row :: back).take (n + 1) ++ front.drop (n + 1) = front := by
      rw [List.take_append_of_le_length hlt, List.take_append_drop]
    rw [← hprefix] at hfront
    exact hn ((exists_table_iff _ _ _).mpr ⟨hvalid, hfront.of_append⟩)

/-- Fees of which the third overlaps the first, and the fourth is invalid. -/
def clashingRows : List (Row String) :=
  [{ keys := [.exact (.bool true), .range (.below (.integer 10))], payload := some "low" },
    { keys := [.exact (.bool true), .range (.atLeast (.integer 10))], payload := some "high" },
    { keys := [.exact (.bool true), .range ⟨some (.integer 5), some (.integer 9)⟩]
      payload := some "mid" },
    { keys := [.any], payload := some "short" }]

def clashingSchema : Schema where
  columns := [.exact "domestic", .openRange "amount"]

theorem build_rejects_clashingRows :
    let error : TableError := .overlappingRange "domestic=true" "(-inf, 10)" "[5, 9)" (some 2)
    clashingSchema.validate = .ok () ∧
    (Table.build clashingSchema {} clashingRows).value = .error error ∧
    ∃ j row, clashingRows[j]? = some row ∧
      IsLeast {n | n < clashingRows.length ∧ ¬ ∃ table,
        (Table.build clashingSchema {} (clashingRows.take (n + 1))).value = .ok table} j ∧
      clashingSchema.Rejects {} (clashingRows.take j) row error := by
  have hvalid : clashingSchema.validate = .ok () := by decide +kernel
  have hbuild : (Table.build clashingSchema {} clashingRows).value =
      .error (.overlappingRange "domestic=true" "(-inf, 10)" "[5, 9)" (some 2)) :=
    eq_error_of_map (f := fun _ => ()) (by decide +kernel)
  exact ⟨hvalid, hbuild, build_rejects hvalid hbuild⟩

end DecisionTable
