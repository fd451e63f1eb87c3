import DecisionTable.Proofs.Table.Conflict
import DecisionTable.Proofs.Table.Query
import DecisionTable.Proofs.Tree.Readings

/-!
# Unique results

In a table with unique results every full tuple of keys is answered by one row at most, and a query
gives the payload of that row. Which row that is can be said of the rows alone, without following
the tree: in every column its key takes the value, and a catch-all key takes what no row of the same
branch has as its own key.

* `Row.Takes`, `Row.Answers` : whether a row answers keys, among the rows of a table;
* `mem_remaining_iff` : the rows that are left after keys are those that answer them;
* `Buildable.answers_pairwise` : no two rows answer the same full tuple;
* `build_unique` : what a query for a unique result gives.
-/

namespace DecisionTable

open Ordered

variable {P : Type} {schema : Schema} {config : BuildConfig} {rows : List (Row P)}
  {row other : Row P} {p : Position} {column : Column} {values : List KeyValue}

/-! ## Rows that answer -/

/-- Whether the key of a row in the column at a position takes a value, among all rows. A catch-all
key of an exact column takes the values that no row which is read alike up to there has as its own
key. -/
def Row.Takes (row : Row P) (schema : Schema) (rows : List (Row P)) (column : Column)
    (position : Nat) (value : KeyValue) : Prop :=
  match column.matching with
  | .exact => row.keys[position]? = some (.exact value) ∨ row.keys[position]? = some .any ∧
      ∀ other ∈ rows,
        (schema.reading other.keys).take position = (schema.reading row.keys).take position →
          other.keys[position]? ≠ some (.exact value)
  | .range _ => row.keys[position]?.any (·.admits value) = true

/-- Whether a row answers values, the first of which are for the first columns: it takes each of
them. -/
def Row.Answers (row : Row P) (schema : Schema) (rows : List (Row P)) (values : List KeyValue) :
    Prop :=
  ∀ n column value, schema.columns[n]? = some column → values[n]? = some value →
    row.Takes schema rows column n value

/-- The rows under a position are read alike up to there. -/
theorem mem_under_iff_take (hrow : row ∈ schema.under rows p) : other ∈ schema.under rows p ↔
    other ∈ rows ∧
      (schema.reading other.keys).take p.length = (schema.reading row.keys).take p.length := by
  have hp := List.prefix_iff_eq_take.mp (mem_under.mp hrow).2
  rw [mem_under, ← hp, List.prefix_iff_eq_take, eq_comm]

theorem narrow_sublist (column : Column) (n : Nat) (value : KeyValue) (rows : List (Row P)) :
    (narrow column n value rows).Sublist rows := by
  unfold narrow
  split
  · simp only
    split
    · exact List.filter_sublist
    · exact List.filter_sublist
  · exact List.filter_sublist

/-- Narrowing down the rows under a position leaves those that take the value. -/
theorem mem_narrow_iff (value : KeyValue) :
    row ∈ narrow column p.length value (schema.under rows p) ↔
      row ∈ schema.under rows p ∧ row.Takes schema rows column p.length value := by
  by_cases hrow : row ∈ schema.under rows p
  · unfold narrow Row.Takes
    cases hmatching : column.matching with
    | range reach => exact List.mem_filter
    | exact =>
        have hown : ((schema.under rows p).filter fun row =>
            row.keys[p.length]? = some (.exact value)).isEmpty = true ↔
            ∀ other ∈ rows, (schema.reading other.keys).take p.length =
              (schema.reading row.keys).take p.length →
                other.keys[p.length]? ≠ some (.exact value) := by
          simp only [List.isEmpty_iff, List.filter_eq_nil_iff, mem_under_iff_take hrow,
            decide_eq_true_eq, and_imp, ne_eq]
        simp only [← hown]
        split
        · next hempty =>
            have hnot := hown.mp hempty row (mem_under.mp hrow).1 rfl
            simp [hrow, hempty, hnot]
        · next hempty => simp [hrow, hempty]
  · apply iff_of_false
    · exact fun h => hrow ((narrow_sublist column p.length value _).subset h)
    · exact fun h => hrow h.1

section Remaining

variable [Payload P] {tree node : Tree P}

/-- The rows under a position that are left after values are those that take them. -/
theorem mem_narrowAll_iff (hroot : RootOf schema rows (some tree)) (hnode : tree.at? p = some node)
    (hrows : Buildable schema config rows) :
    row ∈ narrowAll p.length (schema.columns.drop p.length) values (schema.under rows p) ↔
      row ∈ schema.under rows p ∧
        ∀ n column value, schema.columns[p.length + n]? = some column → values[n]? = some value →
          row.Takes schema rows column (p.length + n) value := by
  induction values generalizing p node with
  | nil => simp [narrowAll_no_values]
  | cons value values ih =>
      cases hcolumn : schema.columns[p.length]? with
      | none =>
          have hle := List.getElem?_eq_none_iff.mp hcolumn
          have hafter : ∀ n, schema.columns[p.length + n]? = none :=
            fun n => List.getElem?_eq_none (by omega)
          simp [List.drop_eq_nil_of_le hle, narrowAll_no_columns, hafter]
      | some column =>
          obtain ⟨hlt, rfl⟩ := List.getElem?_eq_some_iff.mp hcolumn
          have hfirst : (∀ n column v, schema.columns[p.length + n]? = some column →
              (value :: values)[n]? = some v → row.Takes schema rows column (p.length + n) v) ↔
              row.Takes schema rows schema.columns[p.length] p.length value ∧
              ∀ n column v, schema.columns[p.length + 1 + n]? = some column →
                values[n]? = some v → row.Takes schema rows column (p.length + 1 + n) v := by
            rw [← Nat.and_forall_add_one]
            simp [hlt, Nat.add_assoc, Nat.add_comm 1]
          rw [hfirst, ← and_assoc, ← mem_narrow_iff, List.drop_eq_getElem_cons hlt, narrowAll]
          rcases leads hroot hnode hrows hcolumn value with ⟨s, c, hchild, -, hnarrow⟩ |
            ⟨-, hnarrow⟩
          · have hrest := ih (Tree.at?_concat_of_child hnode hchild)
            rw [List.length_append, List.length_singleton] at hrest
            rw [hnarrow]
            exact hrest
          · simp [hnarrow, narrowAll_no_rows]

/-- The rows that are left after values are those that answer them. -/
theorem Table.Over.mem_remaining_iff {table : Table P} (h : table.Over schema config rows) :
    row ∈ schema.remaining values rows ↔ row ∈ rows ∧ row.Answers schema rows values := by
  have hroot := h.root
  cases hr : table.root with
  | none =>
      rw [hr] at hroot
      obtain rfl : rows = [] := hroot
      simp [Schema.remaining, narrowAll_no_rows]
  | some tree =>
      rw [hr] at hroot
      have hmem : row ∈ schema.remaining values (schema.under rows []) ↔ _ :=
        mem_narrowAll_iff (p := []) hroot rfl h.buildable
      rw [under_nil] at hmem
      simpa [Row.Answers] using hmem

end Remaining

/-! ## At most one row -/

theorem exists_first_difference {α : Type} {xs ys : List α} (hlength : xs.length = ys.length)
    (hne : xs ≠ ys) : ∃ front x y back back', xs = front ++ x :: back ∧ ys = front ++ y :: back' ∧
      x ≠ y := by
  induction xs generalizing ys with
  | nil => exact absurd (List.length_eq_zero_iff.mp hlength.symm).symm hne
  | cons x xs ih =>
      cases ys with
      | nil => cases hlength
      | cons y ys =>
          by_cases hxy : x = y
          · subst hxy
            obtain ⟨front, u, v, back, back', rfl, rfl, huv⟩ :=
              ih (Nat.succ.inj hlength) fun h => hne (h ▸ rfl)
            exact ⟨x :: front, u, v, back, back', rfl, rfl, huv⟩
          · exact ⟨[], x, y, xs, ys, rfl, rfl, hxy⟩

/-- Keys of two rows that are read alike up to an exact column, and take the same value there, are
the same. -/
theorem Row.Takes.key_eq {n : Nat} {value : KeyValue} {key key' : ColumnKey}
    (hmatching : column.matching = .exact) (hrow : row ∈ rows) (hother : other ∈ rows)
    (htake : (schema.reading row.keys).take n = (schema.reading other.keys).take n)
    (hkey : row.keys[n]? = some key) (hkey' : other.keys[n]? = some key')
    (h : row.Takes schema rows column n value) (h' : other.Takes schema rows column n value) :
    key = key' := by
  unfold Row.Takes at h h'
  rw [hmatching] at h h'
  rw [hkey] at h
  rw [hkey'] at h'
  rcases h with hown | ⟨hany, hnone⟩ <;> rcases h' with hown' | ⟨hany', hnone'⟩
  · exact Option.some.inj (hown.trans hown'.symm)
  · exact absurd (hkey.trans hown) (hnone' row hrow htake)
  · exact absurd (hkey'.trans hown') (hnone other hother htake.symm)
  · exact Option.some.inj (hany.trans hany'.symm)

/-- Keys of two rows that are read alike up to a column, and take the same value there, are read
alike or as intervals that overlap. -/
theorem Row.Takes.overlaps {n : Nat} {value : KeyValue} {key key' : ColumnKey}
    (hrow : row ∈ rows) (hother : other ∈ rows)
    (htake : (schema.reading row.keys).take n = (schema.reading other.keys).take n)
    (hkey : row.keys[n]? = some key) (hkey' : other.keys[n]? = some key')
    (hfits : column.Fits key) (hfits' : column.Fits key')
    (h : row.Takes schema rows column n value) (h' : other.Takes schema rows column n value)
    (hne : column.reading key ≠ column.reading key') :
    ∃ i j, column.reading key = .range i ∧ column.reading key' = .range j ∧
      i.overlaps j = true := by
  cases hmatching : column.matching with
  | exact => exact absurd (key_eq hmatching hrow hother htake hkey hkey' h h' ▸ rfl) hne
  | range reach =>
      obtain ⟨i, hi, hadmits⟩ := exists_interval_of_fits hmatching hfits value
      obtain ⟨j, hj, hadmits'⟩ := exists_interval_of_fits hmatching hfits' value
      simp only [Row.Takes, hmatching, hkey, hkey', Option.any_some, hadmits, hadmits'] at h h'
      exact ⟨i, j, hi, hj, Interval.overlaps_of_contains h h'⟩

/-- Two rows that answer the same full tuple conflict. -/
theorem Schema.conflict_of_answers (hadmits : schema.Admits config row)
    (hadmits' : schema.Admits config other) (hrow : row ∈ rows) (hother : other ∈ rows)
    (hpolicy : schema.policy = .unique) (hlength : values.length = schema.columns.length)
    (h : row.Answers schema rows values) (h' : other.Answers schema rows values) :
    schema.Conflict row other := by
  have hfits := Schema.fits_of_validateRow hadmits.keys
  have hfits' := Schema.fits_of_validateRow hadmits'.keys
  by_cases hreading : schema.reading row.keys = schema.reading other.keys
  · exact Or.inr ⟨hreading, hpolicy⟩
  · -- the first column in which the two are read differently decides
    obtain ⟨front, s, t, back, back', hs, ht, hst⟩ := exists_first_difference
      ((length_reading hfits).trans (length_reading hfits').symm) hreading
    have hlt : front.length < schema.columns.length := by
      rw [← length_reading hfits, hs, List.length_append, List.length_cons]
      omega
    have hcolumn := List.getElem?_eq_getElem hlt
    have hvalue := List.getElem?_eq_getElem (hlength ▸ hlt)
    obtain ⟨key, hkey, hfit, hread⟩ := reading_getElem? hfits hcolumn
    obtain ⟨key', hkey', hfit', hread'⟩ := reading_getElem? hfits' hcolumn
    obtain rfl : s = schema.columns[front.length].reading key := by
      rw [← Schema.reading, hs] at hread
      simpa using hread
    obtain rfl : t = schema.columns[front.length].reading key' := by
      rw [← Schema.reading, ht] at hread'
      simpa using hread'
    have htake : (schema.reading row.keys).take front.length =
        (schema.reading other.keys).take front.length := by
      rw [hs, ht, List.take_left, List.take_left]
    obtain ⟨i, j, hi, hj, hij⟩ := (h _ _ _ hcolumn hvalue).overlaps hrow hother htake hkey hkey'
      hfit hfit' (h' _ _ _ hcolumn hvalue) hst
    rw [hi] at hs hst
    rw [hj] at ht hst
    exact Or.inl ⟨front, i, j, back, back', hs, ht, fun heq => hst (heq ▸ rfl), hij⟩

/-- No two rows of a table with unique results answer the same full tuple. -/
theorem Buildable.answers_pairwise (h : Buildable schema config rows)
    (hpolicy : schema.policy = .unique) (hlength : values.length = schema.columns.length) :
    rows.Pairwise fun row other =>
      ¬ (row.Answers schema rows values ∧ other.Answers schema rows values) := by
  obtain ⟨hadmits, hconflict⟩ := buildable_iff.mp h
  refine hconflict.imp_of_mem fun hrow hother hnot => ?_
  rintro ⟨hanswers, hanswers'⟩
  exact hnot (Schema.conflict_of_answers (hadmits _ hrow) (hadmits _ hother) hrow hother hpolicy
    hlength hanswers hanswers')

/-! ## What a query gives -/

theorem narrowAll_sublist (n : Nat) (columns : List Column) (values : List KeyValue)
    (rows : List (Row P)) : (narrowAll n columns values rows).Sublist rows := by
  induction columns generalizing n values rows with
  | nil => rw [narrowAll_no_columns]
  | cons column columns ih =>
      cases values with
      | nil => exact List.Sublist.refl rows
      | cons value values =>
          exact (ih (n + 1) values _).trans (narrow_sublist column n value rows)

section Query

variable [Payload P] {table : Table P}

def Schema.verdict (schema : Schema) (values : List KeyValue) (rows : List (Row P)) :
    Except TableError P :=
  Tree.single (Distinct.ofList ((schema.remaining values rows).filterMap Row.payload))

/-- A valid query for a unique result gives what the rows that are left have to say. -/
theorem Table.Over.uniqueValue_eq (h : table.Over schema config rows)
    (hquery : schema.validateQuery values config.checkKeyTypes = .ok ()) :
    table.uniqueValue values = schema.verdict values rows ∧ ∀ default,
      table.uniqueValueOr values default =
        Tree.recoverNotFound default (schema.verdict values rows) := by
  have hlookup : table.lookup values = .ok (table.rootLookup.descendAll values) := by
    rw [Table.lookup, h.schema_eq, h.config_eq, hquery]
    rfl
  have hvalue : (table.rootLookup.descendAll values).uniqueValue = schema.verdict values rows := by
    rw [Lookup.uniqueValue_eq, (h.answers values).values, Schema.verdict]
  constructor
  · rw [Table.uniqueValue, hlookup, ← hvalue]
    rfl
  · intro default
    rw [Table.uniqueValueOr, hlookup, ← hvalue]
    rfl

theorem eq_singleton_of_pairwise {α : Type} {A : α → Prop} {xs : List α} {x : α}
    (h : xs.Pairwise fun a b => ¬ (A a ∧ A b)) (hA : ∀ a ∈ xs, A a) (hx : x ∈ xs) : xs = [x] := by
  match xs, h, hA, hx with
  | [a], _, _, hx => rw [List.mem_singleton.mp hx]
  | a :: b :: _, h, hA, _ =>
      have hab := (List.pairwise_cons.mp h).1 b (by simp)
      exact absurd ⟨hA a (by simp), hA b (by simp)⟩ hab

/-- When a row answers a full tuple, only that row is left. -/
theorem Table.Over.remaining_eq (h : table.Over schema config rows)
    (hpolicy : schema.policy = .unique) (hlength : values.length = schema.columns.length)
    (hrow : row ∈ rows) (hanswers : row.Answers schema rows values) :
    schema.remaining values rows = [row] := by
  have hpairwise := (h.buildable.answers_pairwise hpolicy hlength).sublist
    (narrowAll_sublist 0 schema.columns values rows)
  refine eq_singleton_of_pairwise hpairwise (fun other hother => ?_)
    (h.mem_remaining_iff.mpr ⟨hrow, hanswers⟩)
  exact (h.mem_remaining_iff.mp hother).2

theorem Table.Over.remaining_eq_nil (h : table.Over schema config rows)
    (hnone : ∀ row ∈ rows, ¬ row.Answers schema rows values) :
    schema.remaining values rows = [] := by
  refine List.eq_nil_iff_forall_not_mem.mpr fun row hrow => ?_
  obtain ⟨hmem, hanswers⟩ := h.mem_remaining_iff.mp hrow
  exact hnone row hmem hanswers

/-- A table with unique results is never ambiguous. At most one row answers a valid query, which
then gives the payload of that row, and otherwise finds nothing. -/
theorem build_unique (hpolicy : schema.policy = .unique)
    (h : (Table.build schema config rows).value = .ok table)
    (hquery : table.schema.validateQuery values table.config.checkKeyTypes = .ok ()) :
    (rows.Pairwise fun row other =>
      ¬ (row.Answers schema rows values ∧ other.Answers schema rows values)) ∧
    (∀ row ∈ rows, row.Answers schema rows values → ∃ payload, row.payload = some payload ∧
      table.uniqueValue values = .ok payload ∧
      ∀ default, table.uniqueValueOr values default = .ok payload) ∧
    ((∀ row ∈ rows, ¬ row.Answers schema rows values) →
      table.uniqueValue values = .error .notFound ∧
      ∀ default, table.uniqueValueOr values default = .ok default) ∧
    ∀ count, table.uniqueValue values ≠ .error (.ambiguousResult count) := by
  have hover := over_of_build h
  rw [hover.schema_eq, hover.config_eq] at hquery
  have hlength : values.length = schema.columns.length :=
    not_not.mp (throw_if_eq_ok_iff.mp hquery).1
  obtain ⟨hvalue, hvalueOr⟩ := hover.uniqueValue_eq hquery
  have hone : ∀ row ∈ rows, row.Answers schema rows values → ∃ payload,
      row.payload = some payload ∧ schema.verdict values rows = .ok payload := by
    intro row hrow hanswers
    obtain ⟨payload, hpayload⟩ :=
      Option.isSome_iff_exists.mp ((hover.buildable.admitted row hrow).payload hpolicy)
    refine ⟨payload, hpayload, ?_⟩
    rw [Schema.verdict, hover.remaining_eq hpolicy hlength hrow hanswers, List.filterMap_cons_some
      hpayload]
    rfl
  have hnone : (∀ row ∈ rows, ¬ row.Answers schema rows values) →
      schema.verdict values rows = .error .notFound := by
    intro hrows
    rw [Schema.verdict, hover.remaining_eq_nil hrows]
    rfl
  refine ⟨hover.buildable.answers_pairwise hpolicy hlength, ?_, ?_, ?_⟩
  · intro row hrow hanswers
    obtain ⟨payload, hpayload, hverdict⟩ := hone row hrow hanswers
    refine ⟨payload, hpayload, hvalue.trans hverdict, fun default => ?_⟩
    rw [hvalueOr, hverdict]
    rfl
  · intro hrows
    refine ⟨hvalue.trans (hnone hrows), fun default => ?_⟩
    rw [hvalueOr, hnone hrows]
    rfl
  · intro count
    rw [hvalue]
    by_cases hrows : ∃ row ∈ rows, row.Answers schema rows values
    · obtain ⟨row, hrow, hanswers⟩ := hrows
      obtain ⟨payload, -, hverdict⟩ := hone row hrow hanswers
      rw [hverdict]
      nofun
    · rw [hnone fun row hrow hanswers => hrows ⟨row, hrow, hanswers⟩]
      nofun

end Query

def bandedRows : List (Row String) :=
  [{ keys := [.exact (.text "EU"), .range (.below (.integer 10))], payload := some "small" },
    { keys := [.exact (.text "EU"), .range (.atLeast (.integer 20))], payload := some "large" },
    { keys := [.any, .any], payload := some "other" }]

def bandedSchema : Schema where
  columns := [.exact "region", .openRange "amount"]

/-- The row for all other regions does not answer for a gap between the amounts of a region. -/
theorem build_unique_bandedRows :
    ∃ table, (Table.build bandedSchema {} bandedRows).value = .ok table ∧
      table.uniqueValue [.text "EU", .integer 20] = .ok "large" ∧
      table.uniqueValue [.text "US", .integer 15] = .ok "other" ∧
      table.uniqueValueOr [.text "EU", .integer 15] "none" = .ok "none" := by
  have hok : (Table.build bandedSchema {} bandedRows).value.isOk = true := by decide +kernel
  cases hbuild : (Table.build bandedSchema {} bandedRows).value with
  | error e =>
      rw [hbuild] at hok
      cases hok
  | ok table =>
      have hover := over_of_build hbuild
      have hquery : ∀ values, bandedSchema.validateQuery values true = .ok () →
          table.schema.validateQuery values table.config.checkKeyTypes = .ok () := by
        intro values hvalues
        rwa [hover.schema_eq, hover.config_eq]
      have hanswered : ∀ values row payload, bandedSchema.validateQuery values true = .ok () →
          row ∈ bandedSchema.remaining values bandedRows → row.payload = some payload →
          table.uniqueValue values = .ok payload := by
        intro values row payload hvalues hrow hpayload
        obtain ⟨hmem, hanswers⟩ := hover.mem_remaining_iff.mp hrow
        obtain ⟨payload', hpayload', hvalue, -⟩ :=
          (build_unique rfl hbuild (hquery values hvalues)).2.1 row hmem hanswers
        rwa [Option.some.inj (hpayload.symm.trans hpayload')]
      refine ⟨table, rfl, ?_, ?_, ?_⟩
      · exact hanswered _ bandedRows[1] "large" rfl (by decide +kernel) rfl
      · exact hanswered _ bandedRows[2] "other" rfl (by decide +kernel) rfl
      · refine ((build_unique rfl hbuild (hquery _ rfl)).2.2.1 ?_).2 "none"
        intro row hrow hanswers
        have hleft := hover.mem_remaining_iff.mpr ⟨hrow, hanswers⟩
        have hnone : bandedSchema.remaining [.text "EU", .integer 15] bandedRows = [] := by
          decide +kernel
        rw [hnone] at hleft
        cases hleft

end DecisionTable
