import DecisionTable.Schema.Check
import Mathlib.Data.List.Forall2
import Mathlib.Data.List.Nodup

/-!
# What the checks of a schema say

* `validate_eq_ok_iff` : a valid schema has non-empty and pairwise distinct column names;
* `Column.AcceptsKey` : the keys that a column takes;
* `validateRow_eq_ok_iff` : a valid row has one key per column, which the column takes;
* `validateRow_error` : every other row is reported as having an invalid key.
-/

namespace DecisionTable

def Column.Fits (column : Column) (key : ColumnKey) : Prop :=
  match column.matching, key with
  | .exact, .exact _ | .exact, .any | .range _, .any => True
  | .range _, .range i => i.isEmpty = false
  | .exact, .range _ | .range _, .exact _ => False

/-- Whether a column takes a value. Its type matters only where types are checked. -/
def Column.AcceptsValue (checkTypes : Bool) (column : Column) (value : KeyValue) : Prop :=
  checkTypes = true → column.type.accepts value = true

/-- Whether a range column takes an interval: it is not empty, has both bounds where both are
required, and the column takes its bounds. -/
@[mk_iff acceptsInterval_iff]
structure Column.AcceptsInterval (checkTypes : Bool) (column : Column) (reach : Reach)
    (i : Interval) : Prop where
  nonempty : i.isEmpty = false
  bounded : reach = .bounded → i.isBounded = true
  lower : ∀ bound ∈ i.lower, column.AcceptsValue checkTypes bound
  upper : ∀ bound ∈ i.upper, column.AcceptsValue checkTypes bound

def Column.AcceptsKey (checkTypes : Bool) (column : Column) (key : ColumnKey) : Prop :=
  match column.matching, key with
  | .exact, .exact value => column.AcceptsValue checkTypes value
  | .exact, .any => True
  | .range reach, .range i => column.AcceptsInterval checkTypes reach i
  | .range reach, .any => reach = .openEnded
  | .exact, .range _ | .range _, .exact _ => False

theorem Column.AcceptsKey.fits {checkTypes : Bool} {column : Column} {key : ColumnKey}
    (h : column.AcceptsKey checkTypes key) : column.Fits key := by
  unfold AcceptsKey at h
  unfold Fits
  cases hmatching : column.matching <;> cases key <;> simp only [hmatching] at h ⊢
  exact h.nonempty

section Except

variable {ε α β : Type} {x : Except ε α} {b : β} {e e' : ε}

theorem bind_eq_ok_iff {f : α → Except ε β} :
    (x >>= f) = .ok b ↔ ∃ a, x = .ok a ∧ f a = .ok b := by
  cases x with
  | error e =>
      constructor
      · nofun
      · rintro ⟨_, h, _⟩
        cases h
  | ok a =>
      constructor
      · intro h
        exact ⟨a, rfl, h⟩
      · rintro ⟨_, h, hb⟩
        cases h
        exact hb

theorem then_eq_ok_iff {x : Except ε Unit} {y : Except ε β} :
    (do
      x
      y) = .ok b ↔ x = .ok () ∧ y = .ok b := by
  rw [bind_eq_ok_iff]
  constructor
  · rintro ⟨⟨⟩, hx, hy⟩
    exact ⟨hx, hy⟩
  · rintro ⟨hx, hy⟩
    exact ⟨(), hx, hy⟩

/-- A check that throws succeeds when there is no reason to throw and what follows succeeds. -/
theorem throw_if_eq_ok_iff {c : Prop} [Decidable c] {y : Except ε β} :
    (do
      if c then throw e
      y) = .ok b ↔ ¬ c ∧ y = .ok b := by
  by_cases hc : c
  · rw [if_pos hc]
    constructor
    · nofun
    · intro h
      exact absurd hc h.1
  · rw [if_neg hc]
    simp [hc]

theorem bind_eq_error {f : α → Except ε β} (h : (x >>= f) = .error e) :
    x = .error e ∨ ∃ a, f a = .error e := by
  cases x with
  | error e' => exact Or.inl (congrArg Except.error (Except.error.inj h))
  | ok a => exact Or.inr ⟨a, h⟩

theorem throw_if_eq_error {c : Prop} [Decidable c] {y : Except ε β}
    (h : (do
      if c then throw e'
      y) = .error e) : e' = e ∨ y = .error e := by
  by_cases hc : c
  · rw [if_pos hc] at h
    exact Or.inl (Except.error.inj h)
  · rw [if_neg hc] at h
    exact Or.inr h

theorem exists_of_isOk (h : x.isOk = true) : ∃ a, x = .ok a := by
  cases x with
  | error e => cases h
  | ok a => exact ⟨a, rfl⟩

/-- A list is mapped when each of its elements is. -/
theorem mapM_eq_ok_iff {f : α → Except ε β} {as : List α} {bs : List β} :
    as.mapM f = .ok bs ↔ List.Forall₂ (fun a b => f a = .ok b) as bs := by
  induction as generalizing bs with
  | nil => cases bs <;> simp [pure, Except.pure]
  | cons a as ih =>
      rw [List.mapM_cons, bind_eq_ok_iff, List.forall₂_cons_left_iff]
      simp only [bind_eq_ok_iff, ih]
      constructor
      · rintro ⟨b, hb, rest, hrest, hdone⟩
        exact ⟨b, rest, hb, hrest, (Except.ok.inj hdone).symm⟩
      · rintro ⟨b, rest, hb, hrest, rfl⟩
        exact ⟨b, hb, rest, hrest, rfl⟩

/-- Mapping a list fails with the error of the first element that fails. -/
theorem mapM_eq_error_iff {f : α → Except ε β} {as : List α} :
    as.mapM f = .error e ↔ ∃ before a after, as = before ++ a :: after ∧
      (∀ x ∈ before, ∃ b, f x = .ok b) ∧ f a = .error e := by
  induction as with
  | nil =>
      apply iff_of_false nofun
      rintro ⟨before, a, after, h, -⟩
      cases before <;> cases h
  | cons a as ih =>
      rw [List.mapM_cons]
      cases ha : f a with
      | error e' =>
          constructor
          · intro h
            exact ⟨[], a, as, rfl, nofun, ha.trans (congrArg _ (Except.error.inj h))⟩
          · rintro ⟨_ | ⟨a', before⟩, x, after, heq, hbefore, hx⟩
            · cases heq
              exact congrArg Except.error (Except.error.inj (ha.symm.trans hx))
            · cases heq
              obtain ⟨b, hb⟩ := hbefore a List.mem_cons_self
              cases ha.symm.trans hb
      | ok b =>
          have hrest : (do
              let rest ← as.mapM f
              return b :: rest) = .error e ↔ as.mapM f = .error e := by
            cases as.mapM f <;> simp [bind, Except.bind, pure, Except.pure]
          refine hrest.trans (ih.trans ?_)
          constructor
          · rintro ⟨before, x, after, rfl, hbefore, hx⟩
            refine ⟨a :: before, x, after, rfl, ?_, hx⟩
            exact List.forall_mem_cons.mpr ⟨⟨b, ha⟩, hbefore⟩
          · rintro ⟨_ | ⟨a', before⟩, x, after, heq, hbefore, hx⟩
            · cases heq
              cases ha.symm.trans hx
            · cases heq
              exact ⟨before, x, after, rfl, (List.forall_mem_cons.mp hbefore).2, hx⟩

theorem eq_error_of_map {f : α → β} (h : f <$> x = .error e) : x = .error e := by
  cases x with
  | error e' => exact congrArg Except.error (Except.error.inj h)
  | ok a => cases h

end Except

namespace Schema

variable {schema : Schema} {checkTypes : Bool}

/-! ## The schema -/

theorem validateNames_eq_ok_iff {seen : List String} {columns : List Column} :
    validateNames seen columns = .ok () ↔
      (∀ column ∈ columns, column.name ≠ "" ∧ column.name ∉ seen) ∧
        (columns.map Column.name).Nodup := by
  induction columns generalizing seen with
  | nil => simp [validateNames, pure, Except.pure]
  | cons first rest ih =>
      rw [validateNames, throw_if_eq_ok_iff, throw_if_eq_ok_iff, ih]
      simp only [String.isEmpty_iff, List.contains_iff_mem, List.map_cons,
        List.nodup_cons, List.mem_cons, List.mem_map, not_or]
      grind

/-- A valid schema has non-empty and pairwise distinct column names. -/
theorem validate_eq_ok_iff : schema.validate = .ok () ↔
    (∀ column ∈ schema.columns, column.name ≠ "") ∧ schema.columnNames.Nodup := by
  simp [validate, validateNames_eq_ok_iff, columnNames]

/-! ## Valid rows -/

section Column

variable {column : Column} {position : Nat}

theorem checkType_eq_ok_iff {value : KeyValue} :
    checkType checkTypes position column value = .ok () ↔
      column.AcceptsValue checkTypes value := by
  unfold checkType Column.AcceptsValue
  split
  · next h => simp_all
  · next h => simp_all [pure, Except.pure]

theorem checkBound_eq_ok_iff {bound : Option KeyValue} :
    bound.forM (checkType checkTypes position column) = .ok () ↔
      ∀ value ∈ bound, column.AcceptsValue checkTypes value := by
  cases bound with
  | none => exact iff_of_true rfl nofun
  | some value => simpa [Option.forM] using checkType_eq_ok_iff

theorem checkInterval_eq_ok_iff {reach : Reach} {i : Interval} :
    checkInterval checkTypes position column reach i = .ok () ↔
      column.AcceptsInterval checkTypes reach i := by
  unfold checkInterval
  rw [throw_if_eq_ok_iff, throw_if_eq_ok_iff, then_eq_ok_iff, checkBound_eq_ok_iff,
    checkBound_eq_ok_iff, Column.acceptsInterval_iff]
  simp

theorem checkKey_eq_ok_iff {key : ColumnKey} :
    checkKey checkTypes position column key = .ok () ↔ column.AcceptsKey checkTypes key := by
  obtain ⟨name, type, matching⟩ := column
  cases matching with
  | exact =>
      cases key with
      | exact value => exact checkType_eq_ok_iff
      | any => exact iff_of_true rfl trivial
      | range i => exact iff_of_false nofun id
  | range reach =>
      cases key with
      | exact value => cases reach <;> exact iff_of_false nofun id
      | any =>
          cases reach with
          | bounded => exact iff_of_false nofun nofun
          | openEnded => exact iff_of_true rfl rfl
      | range i => cases reach <;> exact checkInterval_eq_ok_iff

end Column

theorem checkKeys_eq_ok_iff {position : Nat} {columns : List Column} {keys : List ColumnKey}
    (hlength : keys.length = columns.length) :
    checkKeys checkTypes position columns keys = .ok () ↔
      List.Forall₂ (Column.AcceptsKey checkTypes) columns keys := by
  induction columns generalizing keys position with
  | nil =>
      obtain rfl := List.length_eq_zero_iff.mp hlength
      exact iff_of_true rfl .nil
  | cons column columns ih =>
      cases keys with
      | nil => cases hlength
      | cons key keys =>
          rw [checkKeys, then_eq_ok_iff, List.forall₂_cons, checkKey_eq_ok_iff,
            ih (Nat.succ.inj hlength)]

/-- A row is valid when it has one key per column and the column takes it. -/
theorem validateRow_eq_ok_iff {keys : List ColumnKey} :
    schema.validateRow keys checkTypes = .ok () ↔
      List.Forall₂ (Column.AcceptsKey checkTypes) schema.columns keys := by
  unfold validateRow
  rw [throw_if_eq_ok_iff, not_not]
  constructor
  · rintro ⟨hlength, hkeys⟩
    exact (checkKeys_eq_ok_iff hlength).mp hkeys
  · intro h
    have hlength := h.length_eq.symm
    exact ⟨hlength, (checkKeys_eq_ok_iff hlength).mpr h⟩

/-- Each key of a valid row fits its column. -/
theorem fits_of_validateRow {keys : List ColumnKey}
    (h : schema.validateRow keys checkTypes = .ok ()) :
    List.Forall₂ Column.Fits schema.columns keys :=
  (validateRow_eq_ok_iff.mp h).imp fun _ _ => Column.AcceptsKey.fits

/-! ## Invalid rows -/

section Invalid

variable {column : Column} {position : Nat} {e : TableError}

theorem checkType_error {value : KeyValue}
    (h : checkType checkTypes position column value = .error e) :
    ∃ message, e = .invalidKey position message none := by
  unfold checkType at h
  split at h
  · exact ⟨_, (Except.error.inj h).symm⟩
  · cases h

theorem checkBound_error {bound : Option KeyValue}
    (h : bound.forM (checkType checkTypes position column) = .error e) :
    ∃ message, e = .invalidKey position message none := by
  cases bound with
  | none => cases h
  | some value => exact checkType_error h

theorem checkKey_error {key : ColumnKey}
    (h : checkKey checkTypes position column key = .error e) :
    ∃ message, e = .invalidKey position message none := by
  unfold checkKey at h
  split at h
  · exact checkType_error h
  · cases h
  · exact ⟨_, (Except.error.inj h).symm⟩
  · rcases throw_if_eq_error h with rfl | h
    · exact ⟨_, rfl⟩
    rcases throw_if_eq_error h with rfl | h
    · exact ⟨_, rfl⟩
    rcases bind_eq_error h with h | ⟨_, h⟩
    · exact checkBound_error h
    · exact checkBound_error h
  · cases h
  · exact ⟨_, (Except.error.inj h).symm⟩
  · exact ⟨_, (Except.error.inj h).symm⟩

theorem checkKeys_error {columns : List Column} {keys : List ColumnKey}
    (h : checkKeys checkTypes position columns keys = .error e) :
    ∃ column message, e = .invalidKey column message none := by
  induction columns generalizing keys position with
  | nil => cases h
  | cons column columns ih =>
      cases keys with
      | nil => cases h
      | cons key keys =>
          rcases bind_eq_error h with h | ⟨_, h⟩
          · exact ⟨position, checkKey_error h⟩
          · exact ih h

/-- An invalid row is reported as having an invalid key. -/
theorem validateRow_error {keys : List ColumnKey}
    (h : schema.validateRow keys checkTypes = .error e) :
    ∃ column message, e = .invalidKey column message none := by
  rcases throw_if_eq_error h with rfl | h
  · exact ⟨_, _, rfl⟩
  · exact checkKeys_error h

end Invalid

end Schema

end DecisionTable
