import DecisionTable.CommandLine.Query
import DecisionTable.Proofs.Table.Rejection
import DecisionTable.Proofs.Tree.Readings

/-!
# Ways to query a table file

The keys of a query are answered with all payloads, with the only one, or with the only one and a
default. Up to the lookup the three go the same way, so they fail alike; from there on they are three
readings of one set of payloads.

* `CommandError.concernsResult`, `concernsFile` : errors that say how many payloads there are, and
  errors of the file itself;
* `Modes` : what the three give, by the number of payloads;
* `ModesAgree` : what each of them says of the others;
* `query_modes` : a query of a table file gives one of these;
* `readings_agree` : all ways of reading a result agree, in a structure and on the command line.
-/

namespace DecisionTable

open Ordered

/-! ## Errors of the earlier steps -/

variable {P : Type}

theorem Schema.isBuildError_of_validateNames {seen : List String} {columns : List Column}
    {error : TableError} (h : validateNames seen columns = .error error) :
    error.isBuildError = true := by
  induction columns generalizing seen with
  | nil => cases h
  | cons column rest ih =>
      rw [validateNames] at h
      rcases throw_if_eq_error h with rfl | h
      · rfl
      · rcases throw_if_eq_error h with rfl | h
        · rfl
        · exact ih h

theorem Schema.isBuildError_of_validate {schema : Schema} {error : TableError}
    (h : schema.validate = .error error) : error.isBuildError = true :=
  isBuildError_of_validateNames h

/-- A build fails for reasons of its own, never for want of a result. -/
theorem Table.isBuildError_of_build [Payload P] {schema : Schema} {config : BuildConfig}
    {rows : List (Row P)} {error : TableError}
    (h : (Table.build schema config rows).value = .error error) : error.isBuildError = true := by
  cases hvalid : schema.validate with
  | error e =>
      rw [Table.build, Logged.value_bind, Builder.start, hvalid] at h
      obtain rfl : e = error := Except.error.inj h
      exact Schema.isBuildError_of_validate hvalid
  | ok =>
      obtain ⟨front, row, back, -, -, -, hrejects⟩ := build_error hvalid h
      cases hrejects <;> rfl

theorem Schema.checkQueryTypes_error {columns : List Column} {keys : List KeyValue}
    {error : TableError} (h : checkQueryTypes columns keys = .error error) :
    ∃ message, error = .invalidQuery message := by
  induction columns generalizing keys with
  | nil => cases h
  | cons column columns ih =>
      cases keys with
      | nil => cases h
      | cons key keys =>
          rw [checkQueryTypes] at h
          rcases throw_if_eq_error h with rfl | h
          · exact ⟨_, rfl⟩
          · exact ih h

theorem Schema.validateQuery_error {schema : Schema} {keys : List KeyValue} {checkTypes : Bool}
    {error : TableError} (h : schema.validateQuery keys checkTypes = .error error) :
    ∃ message, error = .invalidQuery message := by
  rw [validateQuery] at h
  rcases throw_if_eq_error h with rfl | h
  · exact ⟨_, rfl⟩
  · split at h
    · exact checkQueryTypes_error h
    · cases h

namespace CommandLine

def CommandError.concernsResult : CommandError → Bool
  | .table .notFound | .table (.ambiguousResult _) => true
  | _ => false

theorem concernsResult_eq_false_iff {error : CommandError} : error.concernsResult = false ↔
    error ≠ .table .notFound ∧ ∀ count, error ≠ .table (.ambiguousResult count) := by
  unfold CommandError.concernsResult
  split <;> simp_all

/-- Whether an error comes of reading a table file or of building its table. -/
def CommandError.concernsFile : CommandError → Bool
  | .unreadable .. | .malformed .. => true
  | .table error => error.isBuildError
  | .keyCount .. | .invalidKey .. => false

theorem concernsResult_of_concernsFile {error : CommandError} (h : error.concernsFile = true) :
    error.concernsResult = false := by
  cases error with
  | table error => cases error <;> first | rfl | cases h
  | _ => rfl

theorem concernsFile_of_load {path : String} {contents : FileContents} {error : CommandError}
    (h : (load path contents).value = .error error) : error.concernsFile = true := by
  unfold load at h
  split at h
  · cases h
    rfl
  · split at h <;> cases h
    rfl

theorem concernsFile_of_buildFile {file : TableFile} {error : CommandError}
    (h : (buildFile file).value = .error error) : error.concernsFile = true := by
  have hvalue : (buildFile file).value =
      (Table.build file.schema file.config file.rows).value.mapError .table := rfl
  rw [hvalue] at h
  cases hbuild : (Table.build file.schema file.config file.rows).value with
  | error e =>
      rw [hbuild] at h
      cases h
      exact Table.isBuildError_of_build hbuild
  | ok table =>
      rw [hbuild] at h
      cases h

theorem concernsFile_of_loadTable {path : String} {contents : FileContents}
    {error : CommandError} (h : (loadTable path contents).value = .error error) :
    error.concernsFile = true := by
  rw [loadTable, Logged.value_bind] at h
  cases hload : (load path contents).value with
  | error e =>
      rw [hload] at h
      cases h
      exact concernsFile_of_load hload
  | ok file =>
      rw [hload] at h
      exact concernsFile_of_buildFile h

theorem concernsResult_of_parseKey {column : Column} {raw : String} {error : CommandError}
    (h : parseKey column raw = .error error) : error.concernsResult = false := by
  unfold parseKey at h
  split at h <;> cases h
  rfl

theorem concernsResult_of_parseKeys {schema : Schema} {raw : List String} {error : CommandError}
    (h : parseKeys schema raw = .error error) : error.concernsResult = false := by
  rw [parseKeys] at h
  rcases throw_if_eq_error h with rfl | h
  · rfl
  · obtain ⟨_, pair, _, -, -, hpair⟩ := mapM_eq_error_iff.mp h
    exact concernsResult_of_parseKey hpair

theorem concernsResult_of_lookup {table : Table String} {parsed : List KeyValue}
    {error : TableError} (h : table.lookup parsed = .error error) :
    (CommandError.table error).concernsResult = false := by
  rw [Table.lookup] at h
  rcases bind_eq_error h with hquery | ⟨_, hdone⟩
  · obtain ⟨message, rfl⟩ := Schema.validateQuery_error hquery
    rfl
  · cases hdone

/-! ## The answer of a table -/

section Answer

variable {table : Table String} {raw : List String} {parsed : List KeyValue}
  {lookup : Lookup String}

theorem answer_of_parseKeys_error {error : CommandError}
    (hkeys : parseKeys table.schema raw = .error error) (all : Bool) (default : Option String) :
    answer table raw all default = .error error := by
  rw [answer, hkeys]
  rfl

variable (hkeys : parseKeys table.schema raw = .ok parsed)
include hkeys

theorem answer_of_lookup_error {error : TableError} (hlookup : table.lookup parsed = .error error)
    (all : Bool) (default : Option String) :
    answer table raw all default = .error (.table error) := by
  rw [answer, hkeys]
  cases all <;> cases default <;>
    simp [bind, Except.bind, Functor.map, Except.map, Except.mapError, Table.values,
      Table.uniqueValue, Table.uniqueValueOr, hlookup]

variable (hlookup : table.lookup parsed = .ok lookup)
include hlookup

theorem answer_all (ignored : Option String) : answer table raw true ignored =
    if lookup.values = [] then .error (.table .notFound) else .ok lookup.values := by
  rw [answer, hkeys]
  simp only [bind, Except.bind, Functor.map, Except.map, Except.mapError, Table.values, hlookup,
    if_true]
  cases lookup.values <;> rfl

theorem answer_plain : answer table raw false none =
    (fun value => [value]) <$> lookup.uniqueValue.mapError .table := by
  rw [answer, hkeys]
  simp only [bind, Except.bind, Table.uniqueValue, hlookup]
  cases lookup.uniqueValue <;> rfl

theorem answer_default (default : String) : answer table raw false (some default) =
    (fun value => [value]) <$> (lookup.uniqueValueOr default).mapError .table := by
  rw [answer, hkeys]
  simp only [bind, Except.bind, Table.uniqueValueOr, hlookup]
  cases lookup.uniqueValueOr default <;> rfl

end Answer

/-! ## Three modes -/

/-- What a query gives with all payloads, with the only one, and with the only one or a default. Up
to the lookup it fails alike in all three; after it the number of payloads decides. -/
inductive Modes : Except CommandError (List String) → Except CommandError (List String) →
    (String → Except CommandError (List String)) → Prop where
  | failed (error : CommandError) (earlier : error.concernsResult = false) :
      Modes (.error error) (.error error) fun _ => .error error
  | none : Modes (.error (.table .notFound)) (.error (.table .notFound)) fun default => .ok [default]
  | one (value : String) : Modes (.ok [value]) (.ok [value]) fun _ => .ok [value]
  | several (values : List String) (ascending : Distinct.Ascending values)
      (two : 2 ≤ values.length) :
      Modes (.ok values) (.error (.table (.ambiguousResult values.length)))
        fun _ => .error (.table (.ambiguousResult values.length))

/-- What the three modes of a query say of one another. -/
structure ModesAgree (all plain : Except CommandError (List String))
    (orDefault : String → Except CommandError (List String)) : Prop where
  /-- All payloads are listed in strictly ascending order, and there is one at least. -/
  listed : ∀ values, all = .ok values → Distinct.Ascending values ∧ values ≠ []
  /-- The only payload is a list of one. -/
  only : ∀ values, plain = .ok values → ∃ value, values = [value]
  one : ∀ value, all = .ok [value] ↔ plain = .ok [value]
  several : ∀ values, all = .ok values → 2 ≤ values.length →
    plain = .error (.table (.ambiguousResult values.length))
  ambiguous : ∀ count, plain = .error (.table (.ambiguousResult count)) →
    2 ≤ count ∧ ∃ values, all = .ok values ∧ values.length = count
  /-- Listing all payloads is never ambiguous. -/
  unambiguous : ∀ count, all ≠ .error (.table (.ambiguousResult count))
  missing : all = .error (.table .notFound) ↔ plain = .error (.table .notFound)
  /-- A default stands in for an error just where there is no payload. -/
  recovered : ∀ default, plain = .error (.table .notFound) ↔
    orDefault default = .ok [default] ∧ ∃ error, plain = .error error
  kept : plain ≠ .error (.table .notFound) → ∀ default, orDefault default = plain
  /-- Every other error is the same in all modes. -/
  failed : ∀ error, error.concernsResult = false →
    (all = .error error ↔ plain = .error error) ∧
      ∀ default, orDefault default = .error error ↔ plain = .error error

theorem Modes.agree {all plain : Except CommandError (List String)}
    {orDefault : String → Except CommandError (List String)} (h : Modes all plain orDefault) :
    ModesAgree all plain orDefault := by
  cases h with
  | failed error earlier =>
      rw [concernsResult_eq_false_iff] at earlier
      constructor <;> grind
  | none => constructor <;> grind [concernsResult_eq_false_iff]
  | one value =>
      have hascending : Distinct.Ascending [value] := List.pairwise_singleton _ _
      constructor <;> grind [concernsResult_eq_false_iff]
  | several values ascending two => constructor <;> grind [concernsResult_eq_false_iff]

theorem answer_modes (table : Table String) (raw : List String) (ignored : Option String) :
    Modes (answer table raw true ignored) (answer table raw false none)
      fun default => answer table raw false (some default) := by
  cases hkeys : parseKeys table.schema raw with
  | error e =>
      simp only [answer_of_parseKeys_error hkeys]
      exact .failed e (concernsResult_of_parseKeys hkeys)
  | ok parsed =>
      cases hlookup : table.lookup parsed with
      | error e =>
          simp only [answer_of_lookup_error hkeys hlookup]
          exact .failed _ (concernsResult_of_lookup hlookup)
      | ok lookup =>
          have hreadings := lookup.readings
          simp only [answer_all hkeys hlookup, answer_plain hkeys hlookup,
            answer_default hkeys hlookup]
          rcases hvalues : lookup.values with _ | ⟨value, _ | ⟨other, rest⟩⟩
          · have hmissing := hreadings.missing.mpr hvalues
            simp only [hmissing, hreadings.recovered hmissing]
            exact .none
          · have hfound := (hreadings.found value).mpr hvalues
            have hkept := hreadings.kept (by simp [hfound])
            simp only [hkept, hfound]
            exact .one value
          · have hcount := (hreadings.ambiguous _).mpr ⟨by simp [hvalues], rfl⟩
            have hkept := hreadings.kept (by simp [hcount])
            simp only [hkept, hcount]
            rw [← hvalues, if_neg (by simp [hvalues])]
            exact .several _ hreadings.ascending (by simp [hvalues])

/-! ## Table files -/

section File

variable {path : String} {contents : FileContents} {raw : List String}

theorem query_value (path : String) (contents : FileContents) (raw : List String) (all : Bool)
    (default : Option String) : (query path contents raw all default).value =
      (loadTable path contents).value >>= fun table => answer table raw all default :=
  rfl

theorem query_modes (path : String) (contents : FileContents) (raw : List String)
    (ignored : Option String) : Modes (query path contents raw true ignored).value
      (query path contents raw false none).value
      fun default => (query path contents raw false (some default)).value := by
  simp only [query_value]
  cases hload : (loadTable path contents).value with
  | error e =>
      exact .failed e (concernsResult_of_concernsFile (concernsFile_of_loadTable hload))
  | ok table => exact answer_modes table raw ignored

/-- What goes wrong before the lookup goes wrong in every mode. -/
theorem query_of_error {error : CommandError}
    (h : ((loadTable path contents).value >>= fun table => parseKeys table.schema raw) =
      .error error) : error.concernsResult = false ∧
        ∀ all default, (query path contents raw all default).value = .error error := by
  simp only [query_value]
  cases hload : (loadTable path contents).value with
  | error e =>
      rw [hload] at h
      obtain rfl : e = error := Except.error.inj h
      exact ⟨concernsResult_of_concernsFile (concernsFile_of_loadTable hload), fun _ _ => rfl⟩
  | ok table =>
      rw [hload] at h
      exact ⟨concernsResult_of_parseKeys h, answer_of_parseKeys_error h⟩

/-- The list of all payloads is the set of those at the position that the keys lead to. -/
theorem query_all {table : Table String} {parsed : List KeyValue} {lookup : Lookup String}
    (hload : (loadTable path contents).value = .ok table)
    (hkeys : parseKeys table.schema raw = .ok parsed) (hlookup : table.lookup parsed = .ok lookup)
    (ignored : Option String) : (query path contents raw true ignored).value =
      if lookup.values = [] then .error (.table .notFound) else .ok lookup.values := by
  rw [query_value, hload]
  exact answer_all hkeys hlookup ignored

end File

/-- At every position of every structure, a set of payloads, the only payload and the only payload
with a default are readings of one result. So the three modes of a query of a table file agree: they
read the payloads at one position, and what goes wrong earlier goes wrong in all of them. -/
theorem readings_agree [Payload P] (tree : Tree P) (keys : List KeyValue) (path : String)
    (contents : FileContents) (raw : List String) (ignored : Option String) :
    Readings tree.values tree.uniqueValue (fun default => tree.uniqueValueOr default) ∧
    Readings ((Lookup.ofTree tree).descendAll keys).values
      ((Lookup.ofTree tree).descendAll keys).uniqueValue
      (fun default => ((Lookup.ofTree tree).descendAll keys).uniqueValueOr default) ∧
    ModesAgree (query path contents raw true ignored).value
      (query path contents raw false none).value
      (fun default => (query path contents raw false (some default)).value) ∧
    (∀ error, ((loadTable path contents).value >>= fun table => parseKeys table.schema raw) =
      .error error → error.concernsResult = false ∧
        ∀ all default, (query path contents raw all default).value = .error error) ∧
    ∀ table parsed lookup, (loadTable path contents).value = .ok table →
      parseKeys table.schema raw = .ok parsed → table.lookup parsed = .ok lookup →
        (query path contents raw true ignored).value =
          if lookup.values = [] then .error (.table .notFound) else .ok lookup.values :=
  ⟨tree.readings, Lookup.readings _, (query_modes path contents raw ignored).agree,
    fun _ => query_of_error, fun _ _ _ hload hkeys hlookup => query_all hload hkeys hlookup ignored⟩

end CommandLine

end DecisionTable
