import DecisionTable.Proofs.Table.Build
import DecisionTable.Sample.Rates

/-!
# What the configuration of a build changes

The configuration is read where keys are checked, and where a build gives a warning; it does not
enter the tree. So two builds go alike as long as both configurations check every row alike, and
their tables are the same but for the configuration they record. Rows that pass with type checks
pass without, and keys of the declared types are checked alike with and without.

* `Schema.Typed`, `Schema.TypedQuery` : keys whose values are of the declared types;
* `Schema.ChecksAlike` : a row that two configurations check alike;
* `push_withConfig`, `extend_withConfig`, `build_withConfig` : rows inserted under another
  configuration;
* `Table.SameAnswers` : tables that answer a query alike;
* `configs_filter` : what two configurations make of the same rows.
-/

namespace DecisionTable

variable {P : Type} {schema : Schema} {config config' : BuildConfig} {row : Row P}
  {rows : List (Row P)}

/-- The values that a key is made of: its value, or the bounds that it has. -/
def ColumnKey.values : ColumnKey → List KeyValue
  | .exact value => [value]
  | .any => []
  | .range i => i.lower.toList ++ i.upper.toList

namespace Schema

def Typed (schema : Schema) (keys : List ColumnKey) : Prop :=
  ∀ entry ∈ schema.columns.zip keys, ∀ value ∈ entry.2.values, entry.1.type.accepts value = true

def TypedQuery (schema : Schema) (keys : List KeyValue) : Prop :=
  ∀ entry ∈ schema.columns.zip keys, entry.1.type.accepts entry.2 = true

instance (schema : Schema) (keys : List ColumnKey) : Decidable (schema.Typed keys) :=
  inferInstanceAs (Decidable (∀ entry ∈ schema.columns.zip keys, ∀ value ∈ entry.2.values,
    entry.1.type.accepts value = true))

instance (schema : Schema) (keys : List KeyValue) : Decidable (schema.TypedQuery keys) :=
  inferInstanceAs (Decidable (∀ entry ∈ schema.columns.zip keys,
    entry.1.type.accepts entry.2 = true))

/-- Two configurations make the same of the keys of a row. -/
def ChecksAlike (schema : Schema) (config config' : BuildConfig) (row : Row P) : Prop :=
  schema.validateRow row.keys config.checkKeyTypes =
    schema.validateRow row.keys config'.checkKeyTypes

/-! ## Checks with and without types -/

section Types

variable {column : Column}

theorem checkType_of_accepts {value : KeyValue} (h : column.type.accepts value = true)
    (checkTypes : Bool) (position : Nat) :
    checkType checkTypes position column value = .ok () := by
  rw [checkType_eq_ok_iff]
  intro _
  exact h

theorem checkBound_of_accepts {bound : Option KeyValue}
    (h : ∀ value ∈ bound.toList, column.type.accepts value = true) (checkTypes : Bool)
    (position : Nat) : bound.forM (checkType checkTypes position column) = .ok () := by
  cases bound with
  | none => rfl
  | some value => exact checkType_of_accepts (h value (by simp)) checkTypes position

/-- With values of the declared type, a key is checked the same with and without types. -/
theorem checkKey_of_accepts {key : ColumnKey}
    (h : ∀ value ∈ key.values, column.type.accepts value = true) (checkTypes : Bool)
    (position : Nat) :
    checkKey checkTypes position column key = checkKey false position column key := by
  unfold checkKey
  split
  · exact (checkType_of_accepts (h _ (by simp [ColumnKey.values])) _ _).trans
      (checkType_of_accepts (h _ (by simp [ColumnKey.values])) _ _).symm
  · rfl
  · rfl
  · next i _ =>
      have hlower : ∀ value ∈ i.lower.toList, column.type.accepts value = true :=
        fun value hvalue => h value (List.mem_append_left _ hvalue)
      have hupper : ∀ value ∈ i.upper.toList, column.type.accepts value = true :=
        fun value hvalue => h value (List.mem_append_right _ hvalue)
      simp only [checkInterval, checkBound_of_accepts hlower, checkBound_of_accepts hupper]
  · rfl
  · rfl
  · rfl

theorem checkKeys_of_typed {columns : List Column} {keys : List ColumnKey}
    (h : ∀ entry ∈ columns.zip keys, ∀ value ∈ entry.2.values, entry.1.type.accepts value = true)
    (checkTypes : Bool) (position : Nat) :
    checkKeys checkTypes position columns keys = checkKeys false position columns keys := by
  induction columns generalizing keys position with
  | nil => rfl
  | cons column columns ih =>
      cases keys with
      | nil => rfl
      | cons key keys =>
          rw [List.zip_cons_cons, List.forall_mem_cons] at h
          rw [checkKeys, checkKeys, checkKey_of_accepts h.1]
          simp only [ih h.2]

theorem checkQueryTypes_of_typed {columns : List Column} {keys : List KeyValue}
    (h : ∀ entry ∈ columns.zip keys, entry.1.type.accepts entry.2 = true) :
    checkQueryTypes columns keys = .ok () := by
  induction columns generalizing keys with
  | nil => rfl
  | cons column columns ih =>
      cases keys with
      | nil => rfl
      | cons key keys =>
          rw [List.zip_cons_cons, List.forall_mem_cons] at h
          rw [checkQueryTypes, throw_if_eq_ok_iff]
          exact ⟨by simp [h.1], ih h.2⟩

end Types

/-- Rows with keys of the declared types are checked alike under all configurations. -/
theorem Typed.checksAlike (h : schema.Typed row.keys) (config config' : BuildConfig) :
    schema.ChecksAlike config config' row := by
  unfold ChecksAlike validateRow
  rw [checkKeys_of_typed h config.checkKeyTypes, checkKeys_of_typed h config'.checkKeyTypes]

theorem TypedQuery.validateQuery_eq {keys : List KeyValue} (h : schema.TypedQuery keys)
    (checkTypes : Bool) :
    schema.validateQuery keys checkTypes = schema.validateQuery keys false := by
  unfold validateQuery
  rw [checkQueryTypes_of_typed h]
  cases checkTypes <;> rfl

/-- What a column takes with type checks it takes without. -/
theorem acceptsKey_of_checked {column : Column} {key : ColumnKey}
    (h : column.AcceptsKey true key) (checkTypes : Bool) : column.AcceptsKey checkTypes key := by
  have hvalue {value : KeyValue} (hvalue : column.AcceptsValue true value) :
      column.AcceptsValue checkTypes value := fun _ => hvalue rfl
  unfold Column.AcceptsKey at h ⊢
  cases hmatching : column.matching <;> cases key <;> simp only [hmatching] at h ⊢
  · exact hvalue h
  · exact ⟨h.nonempty, h.bounded, fun bound hbound => hvalue (h.lower bound hbound),
      fun bound hbound => hvalue (h.upper bound hbound)⟩
  · exact h

/-- A row that passes with type checks passes under any other configuration. -/
theorem checksAlike_of_checked (hchecks : config.checkKeyTypes = true)
    (h : schema.validateRow row.keys config.checkKeyTypes = .ok ()) (config' : BuildConfig) :
    schema.ChecksAlike config config' row := by
  unfold ChecksAlike
  rw [h]
  rw [hchecks, validateRow_eq_ok_iff] at h
  exact (validateRow_eq_ok_iff.mpr (h.imp fun _ _ hkey => acceptsKey_of_checked hkey _)).symm

theorem checksAlike_of_eq (h : config.checkKeyTypes = config'.checkKeyTypes) (row : Row P) :
    schema.ChecksAlike config config' row := by
  unfold ChecksAlike
  rw [h]

/-- A query that passes with type checks passes without. -/
theorem validateQuery_of_checked {keys : List KeyValue}
    (h : schema.validateQuery keys true = .ok ()) (checkTypes : Bool) :
    schema.validateQuery keys checkTypes = .ok () := by
  cases checkTypes with
  | true => exact h
  | false =>
      unfold validateQuery at h ⊢
      rw [throw_if_eq_ok_iff] at h ⊢
      exact ⟨h.1, rfl⟩

end Schema

/-! ## Rows under another configuration -/

def Builder.withConfig (builder : Builder P) (config : BuildConfig) : Builder P :=
  { builder with config }

def Table.withConfig (table : Table P) (config : BuildConfig) : Table P :=
  { table with config }

theorem Table.validateQuery_of_lookup {table : Table P} {keys : List KeyValue}
    {position : Lookup P} (h : table.lookup keys = .ok position) :
    table.schema.validateQuery keys table.config.checkKeyTypes = .ok () :=
  (then_eq_ok_iff.mp h).1

variable [Payload P] {builder : Builder P}

theorem grow_withConfig (h : builder.schema.ChecksAlike builder.config config' row) :
    (builder.withConfig config').grow row = builder.grow row := by
  unfold Schema.ChecksAlike at h
  simp only [Builder.grow, Builder.withConfig, h]

theorem push_withConfig (h : builder.schema.ChecksAlike builder.config config' row) :
    ((builder.withConfig config').push row).value =
      (builder.push row).value.map id (Builder.withConfig · config') := by
  have hfailure : (builder.withConfig config').failure = builder.failure := rfl
  rw [Builder.push, Builder.push, hfailure, grow_withConfig h]
  cases builder.failure with
  | some error => rfl
  | none => cases builder.grow row <;> rfl

/-- Inserting a row leaves what a builder was started with. -/
theorem push_settings (builder : Builder P) (row : Row P) :
    (builder.push row).value.2.schema = builder.schema ∧
      (builder.push row).value.2.config = builder.config := by
  unfold Builder.push
  cases builder.failure with
  | some error => exact ⟨rfl, rfl⟩
  | none => cases builder.grow row <;> exact ⟨rfl, rfl⟩

theorem extend_withConfig (builder : Builder P)
    (h : ∀ row ∈ rows, builder.schema.ChecksAlike builder.config config' row) :
    ((builder.withConfig config').extend rows).value =
      (builder.extend rows).value.map id (Builder.withConfig · config') := by
  induction rows generalizing builder with
  | nil => rfl
  | cons row rows ih =>
      rw [List.forall_mem_cons] at h
      obtain ⟨hschema, hconfig⟩ := push_settings builder row
      rw [Builder.extend, Builder.extend, Logged.value_bind, Logged.value_bind,
        push_withConfig h.1]
      cases hpush : (builder.push row).value with
      | mk result next =>
          rw [hpush] at hschema hconfig
          cases result with
          | error error => rfl
          | ok _ =>
              apply ih next
              rw [hschema, hconfig]
              exact h.2

theorem finish_withConfig (builder : Builder P) (config' : BuildConfig) :
    (builder.withConfig config').finish.value =
      builder.finish.value.map (Table.withConfig · config') := by
  unfold Builder.finish Builder.withConfig
  cases builder.failure with
  | some error => rfl
  | none =>
      simp only []
      split <;> split <;> rfl

/-- Rows that two configurations check alike come to the same under both: the same error, or tables
that differ in the configuration alone. -/
theorem build_withConfig (h : ∀ row ∈ rows, schema.ChecksAlike config config' row) :
    (Table.build schema config' rows).value =
      (Table.build schema config rows).value.map (Table.withConfig · config') := by
  rw [Table.build, Table.build, Logged.value_bind, Logged.value_bind, Builder.start, Builder.start]
  cases schema.validate with
  | error e => rfl
  | ok _ =>
      have hextend := extend_withConfig { schema, config } h
      simp only [Builder.withConfig] at hextend
      simp only [Logged.value_bind, Logged.value_pure, hextend]
      cases (({ schema, config } : Builder P).extend rows).value with
      | mk result builder =>
          cases result with
          | error error => rfl
          | ok _ => exact finish_withConfig builder config'

/-! ## Answers -/

/-- Tables that give the same answer to a query, or refuse it with the same error. -/
structure Table.SameAnswers (table table' : Table P) (keys : List KeyValue) : Prop where
  lookup : table.lookup keys = table'.lookup keys
  values : table.values keys = table'.values keys
  uniqueValue : table.uniqueValue keys = table'.uniqueValue keys
  uniqueValueOr : ∀ default, table.uniqueValueOr keys default = table'.uniqueValueOr keys default

/-- A query that passes the checks alike under both configurations is answered alike. -/
theorem Table.sameAnswers_withConfig {table : Table P} {keys : List KeyValue}
    (h : table.schema.validateQuery keys table.config.checkKeyTypes =
      table.schema.validateQuery keys config'.checkKeyTypes) :
    table.SameAnswers (table.withConfig config') keys := by
  have hlookup : table.lookup keys = (table.withConfig config').lookup keys := by
    unfold Table.lookup Table.withConfig
    rw [h]
    rfl
  constructor
  · exact hlookup
  · exact congrArg (Lookup.values <$> ·) hlookup
  · exact congrArg (· >>= Lookup.uniqueValue) hlookup
  · intro default
    exact congrArg (· >>= Lookup.uniqueValueOr default) hlookup

/-- A configuration only filters. What is built with type checks is built without, with an equal
tree, and the queries that pass with type checks are answered alike. If rows and queries are of the
declared types, or if the configurations differ in the warning threshold alone, both give the same
error or the same tree, and the same answers. -/
theorem configs_filter (schema : Schema) (rows : List (Row P)) (config config' : BuildConfig) :
    (config.checkKeyTypes = true →
      ∀ table, (Table.build schema config rows).value = .ok table →
        (Table.build schema config' rows).value = .ok (table.withConfig config') ∧
        ∀ keys position, table.lookup keys = .ok position →
          table.SameAnswers (table.withConfig config') keys) ∧
    ((∀ row ∈ rows, schema.Typed row.keys) →
      (Table.build schema config' rows).value =
        (Table.build schema config rows).value.map (Table.withConfig · config') ∧
      ∀ table, (Table.build schema config rows).value = .ok table →
        ∀ keys, schema.TypedQuery keys → table.SameAnswers (table.withConfig config') keys) ∧
    (config.checkKeyTypes = config'.checkKeyTypes →
      (Table.build schema config' rows).value =
        (Table.build schema config rows).value.map (Table.withConfig · config') ∧
      ∀ table, (Table.build schema config rows).value = .ok table →
        ∀ keys, table.SameAnswers (table.withConfig config') keys) := by
  refine ⟨?_, ?_, ?_⟩
  · intro hchecks table hbuild
    have hover := over_of_build hbuild
    have halike : ∀ row ∈ rows, schema.ChecksAlike config config' row := by
      intro row hrow
      exact Schema.checksAlike_of_checked hchecks (hover.buildable.admitted row hrow).keys config'
    constructor
    · rw [build_withConfig halike, hbuild]
      rfl
    · intro keys position hlookup
      apply Table.sameAnswers_withConfig
      have hvalid := Table.validateQuery_of_lookup hlookup
      rw [hvalid]
      rw [hover.config_eq, hchecks] at hvalid
      exact (Schema.validateQuery_of_checked hvalid _).symm
  · intro htyped
    refine ⟨build_withConfig fun row hrow => (htyped row hrow).checksAlike config config', ?_⟩
    intro table hbuild keys hkeys
    apply Table.sameAnswers_withConfig
    rw [(over_of_build hbuild).schema_eq, hkeys.validateQuery_eq, ← hkeys.validateQuery_eq]
  · intro heq
    refine ⟨build_withConfig fun row _ => Schema.checksAlike_of_eq heq row, ?_⟩
    intro table hbuild keys
    apply Table.sameAnswers_withConfig
    rw [(over_of_build hbuild).config_eq, heq]

theorem configs_filter_scenarioRows :
    let unchecked := BuildConfig.withCheckKeyTypes {} false
    let warning := BuildConfig.withLargeTableWarning {} 2
    ∃ table, Sample.scenarioTable.value = .ok table ∧
      (table.lookup [.text "A", .integer 3]).isOk = true ∧
      (Table.build (Sample.rateSchema .unique) unchecked Sample.scenarioRows).value =
        .ok (table.withConfig unchecked) ∧
      table.SameAnswers (table.withConfig unchecked) [.text "A", .integer 3] ∧
      table.SameAnswers (table.withConfig unchecked) [.text "C", .integer 7] ∧
      ∀ keys, table.SameAnswers (table.withConfig warning) keys := by
  intro unchecked warning
  have hok : (Sample.scenarioTable.value >>= fun table =>
      table.lookup [.text "A", .integer 3]).isOk = true := by decide +kernel
  obtain ⟨position, hposition⟩ := exists_of_isOk hok
  obtain ⟨table, hbuild, hlookup⟩ := bind_eq_ok_iff.mp hposition
  obtain ⟨hfilter, htyped, -⟩ :=
    configs_filter (Sample.rateSchema .unique) Sample.scenarioRows {} unchecked
  obtain ⟨-, -, hequal⟩ :=
    configs_filter (Sample.rateSchema .unique) Sample.scenarioRows {} warning
  obtain ⟨hsame, hanswers⟩ := hfilter rfl table hbuild
  refine ⟨table, hbuild, hlookup ▸ rfl, hsame, hanswers _ position hlookup, ?_, ?_⟩
  · exact (htyped (by decide)).2 table hbuild _ (by decide)
  · exact (hequal rfl).2 table hbuild

end DecisionTable
