import DecisionTable.Proofs.CommandLine.Query
import DecisionTable.Proofs.Text.Decimal

/-!
# Keys read from the command line

A text is read by the type of its column, and a list of texts column by column, up to the first that
cannot be read. So what is read fits the schema: there is one key per column, of its type. The keys
of integers and truth values are written as texts that are read back, by their own type and in a
column of type `any`.

* `BoolText`, `Reading` : the keys that a text stands for, by the type of its column;
* `readKey_eq_some_iff` : these are the keys that are read;
* `Parsed` : what comes of reading a list of texts;
* `parsed_keys_fit` : every list comes to one of these, and no query of a file has keys that do not
  fit;
* `ReadAlone` : what one text gives in a column, type by type;
* `texts_read` : every text is read like this, alone or among others.
-/

namespace DecisionTable.CommandLine

open Text (IntegerText SignedNumeral)

variable {schema : Schema} {column : Column} {type : KeyType} {key : KeyValue} {s : String}
  {raw : List String} {keys : List KeyValue} {error : CommandError}

/-! ## One text -/

inductive BoolText : String → Bool → Prop where
  | true : BoolText "true" true
  | false : BoolText "false" false

/-- The key that a text stands for in a column of some type. In one of type `any`, an integer goes
before a truth value, and both go before a text. -/
inductive Reading : KeyType → String → KeyValue → Prop where
  | integer {s : String} {n : Int64} (h : IntegerText s n) : Reading .integer s (.integer n)
  | bool {s : String} {b : Bool} (h : BoolText s b) : Reading .bool s (.bool b)
  | text (s : String) : Reading .text s (.text s)
  | anyInteger {s : String} {n : Int64} (h : IntegerText s n) : Reading .any s (.integer n)
  | anyBool {s : String} {b : Bool} (hinteger : ∀ n, ¬ IntegerText s n) (h : BoolText s b) :
      Reading .any s (.bool b)
  | anyText {s : String} (hinteger : ∀ n, ¬ IntegerText s n) (hbool : ∀ b, ¬ BoolText s b) :
      Reading .any s (.text s)

theorem readBool_eq_some_iff {b : Bool} : readBool s = some b ↔ BoolText s b := by
  constructor
  · intro h
    unfold readBool at h
    split at h <;> cases h
    · exact .true
    · exact .false
  · intro h
    cases h <;> rfl

theorem readBool_eq_none_iff : readBool s = none ↔ ∀ b, ¬ BoolText s b := by
  rw [Option.eq_none_iff_forall_ne_some]
  simp only [ne_eq, readBool_eq_some_iff]

theorem integer_of_text_iff : KeyValue.integer <$> Text.readInt64 s = some key ↔
    ∃ n, IntegerText s n ∧ .integer n = key := by
  simp [Option.map_eq_some_iff, Text.readInt64_eq_some_iff]

theorem bool_of_text_iff : KeyValue.bool <$> readBool s = some key ↔
    ∃ b, BoolText s b ∧ .bool b = key := by
  simp [Option.map_eq_some_iff, readBool_eq_some_iff]

theorem no_integer_iff : KeyValue.integer <$> Text.readInt64 s = none ↔
    ∀ n, ¬ IntegerText s n := by
  simp [Text.readInt64_eq_none_iff]

theorem no_bool_iff : KeyValue.bool <$> readBool s = none ↔ ∀ b, ¬ BoolText s b := by
  simp [readBool_eq_none_iff]

/-- The keys that are read are those that the text stands for. -/
theorem readKey_eq_some_iff : readKey type s = some key ↔ Reading type s key := by
  cases type with
  | integer =>
      rw [readKey, integer_of_text_iff]
      constructor
      · rintro ⟨n, hn, rfl⟩
        exact .integer hn
      · intro h
        cases h with
        | integer hn => exact ⟨_, hn, rfl⟩
  | bool =>
      rw [readKey, bool_of_text_iff]
      constructor
      · rintro ⟨b, hb, rfl⟩
        exact .bool hb
      · intro h
        cases h with
        | bool hb => exact ⟨_, hb, rfl⟩
  | text =>
      rw [readKey, Option.some.injEq]
      constructor
      · rintro rfl
        exact .text s
      · rintro ⟨⟩
        rfl
  | any =>
      rw [readKey, Option.or_eq_some_iff, Option.or_eq_some_iff, integer_of_text_iff,
        bool_of_text_iff, no_integer_iff, no_bool_iff, Option.some.injEq]
      constructor
      · rintro (⟨n, hn, rfl⟩ | ⟨hinteger, ⟨b, hb, rfl⟩ | ⟨hbool, rfl⟩⟩)
        · exact .anyInteger hn
        · exact .anyBool hinteger hb
        · exact .anyText hinteger hbool
      · intro h
        cases h with
        | anyInteger hn => exact Or.inl ⟨_, hn, rfl⟩
        | anyBool hinteger hb => exact Or.inr ⟨hinteger, Or.inl ⟨_, hb, rfl⟩⟩
        | anyText hinteger hbool => exact Or.inr ⟨hinteger, Or.inr ⟨hbool, rfl⟩⟩

/-- What a text stands for is of the type of the column. -/
theorem Reading.accepts (h : Reading type s key) : type.accepts key = true := by
  cases h <;> rfl

/-- Every text stands for something in a column of type `any`. -/
theorem exists_reading_any (s : String) : ∃ key, Reading .any s key := by
  by_cases hinteger : ∃ n, IntegerText s n
  · obtain ⟨n, hn⟩ := hinteger
    exact ⟨_, .anyInteger hn⟩
  · rw [not_exists] at hinteger
    by_cases hbool : ∃ b, BoolText s b
    · obtain ⟨b, hb⟩ := hbool
      exact ⟨_, .anyBool hinteger hb⟩
    · exact ⟨_, .anyText hinteger (not_exists.mp hbool)⟩

/-! ## One column -/

theorem parseKey_eq_ok_iff : parseKey column s = .ok key ↔ Reading column.type s key := by
  rw [← readKey_eq_some_iff, parseKey]
  cases readKey column.type s <;> simp [throw, throwThe, MonadExceptOf.throw, pure, Except.pure]

theorem parseKey_eq_error_iff : parseKey column s = .error error ↔
    (∀ key, ¬ Reading column.type s key) ∧ error = .invalidKey column.name s column.type := by
  simp only [← readKey_eq_some_iff]
  rw [parseKey]
  cases readKey column.type s <;>
    simp [throw, throwThe, MonadExceptOf.throw, pure, Except.pure, eq_comm]

/-! ## A list of texts -/

theorem parseKeys_of_length_ne (h : raw.length ≠ schema.arity) :
    parseKeys schema raw = .error (.keyCount schema.arity raw.length) := by
  rw [parseKeys, if_pos h]
  rfl

theorem parseKeys_of_length_eq (h : raw.length = schema.arity) : parseKeys schema raw =
    (schema.columns.zip raw).mapM fun (column, text) => parseKey column text := by
  rw [parseKeys, if_neg (not_not.mpr h)]

/-- What comes of reading a list of texts as the keys of a schema: their number is not that of the
columns, or some text cannot be read by the type of its column, or they give keys of the schema. -/
inductive Parsed (schema : Schema) (raw : List String) :
    Except CommandError (List KeyValue) → Prop where
  | count (hlength : raw.length ≠ schema.arity) :
      Parsed schema raw (.error (.keyCount schema.arity raw.length))
  /-- The first column whose text cannot be read is named. -/
  | unreadable (hlength : raw.length = schema.arity) {before after : List (Column × String)}
      {column : Column} {text : String}
      (hentries : schema.columns.zip raw = before ++ (column, text) :: after)
      (hbefore : ∀ entry ∈ before, ∃ key, Reading entry.1.type entry.2 key)
      (htext : ∀ key, ¬ Reading column.type text key) :
      Parsed schema raw (.error (.invalidKey column.name text column.type))
  /-- There is one key per column, and a query with them is valid, whether or not types are
  checked. -/
  | keys (hlength : raw.length = schema.arity) {keys : List KeyValue}
      (hkeys : keys.length = schema.arity)
      (hreadings : List.Forall₂ (fun entry key => Reading entry.1.type entry.2 key)
        (schema.columns.zip raw) keys)
      (haccepted : ∀ checkTypes, schema.validateQuery keys checkTypes = .ok ()) :
      Parsed schema raw (.ok keys)

theorem checkQueryTypes_of_readings {columns : List Column}
    (h : List.Forall₂ (fun entry key => Reading entry.1.type entry.2 key) (columns.zip raw) keys) :
    Schema.checkQueryTypes columns keys = .ok () := by
  induction columns generalizing raw keys with
  | nil => rfl
  | cons column columns ih =>
      cases raw with
      | nil =>
          cases h
          rfl
      | cons text raw =>
          cases h with
          | cons hkey hkeys =>
              rw [Schema.checkQueryTypes, throw_if_eq_ok_iff]
              exact ⟨by simp [hkey.accepts], ih hkeys⟩

theorem validateQuery_of_readings (hlength : raw.length = schema.arity)
    (h : List.Forall₂ (fun entry key => Reading entry.1.type entry.2 key)
      (schema.columns.zip raw) keys) :
    keys.length = schema.arity ∧
      ∀ checkTypes, schema.validateQuery keys checkTypes = .ok () := by
  have hkeys : keys.length = schema.arity := by
    rw [← h.length_eq, List.length_zip, hlength]
    exact min_self _
  refine ⟨hkeys, fun checkTypes => ?_⟩
  rw [Schema.validateQuery, throw_if_eq_ok_iff, checkQueryTypes_of_readings h]
  exact ⟨not_not.mpr hkeys, by cases checkTypes <;> rfl⟩

theorem parseKeys_parsed (schema : Schema) (raw : List String) :
    Parsed schema raw (parseKeys schema raw) := by
  by_cases hlength : raw.length = schema.arity
  · cases hresult : parseKeys schema raw with
    | ok keys =>
        rw [parseKeys_of_length_eq hlength, mapM_eq_ok_iff] at hresult
        have hreadings := hresult.imp fun _ _ => parseKey_eq_ok_iff.mp
        obtain ⟨hkeys, haccepted⟩ := validateQuery_of_readings hlength hreadings
        exact .keys hlength hkeys hreadings haccepted
    | error e =>
        rw [parseKeys_of_length_eq hlength, mapM_eq_error_iff] at hresult
        obtain ⟨before, entry, after, hentries, hbefore, hfails⟩ := hresult
        obtain ⟨htext, rfl⟩ := parseKey_eq_error_iff.mp hfails
        refine .unreadable hlength hentries (fun x hx => ?_) htext
        obtain ⟨key, hkey⟩ := hbefore x hx
        exact ⟨key, parseKey_eq_ok_iff.mp hkey⟩
  · rw [parseKeys_of_length_ne hlength]
    exact .count hlength

/-! ## Queries of a file -/

theorem ne_invalidQuery_of_concernsFile (h : error.concernsFile = true) (message : String) :
    error ≠ .table (.invalidQuery message) := by
  rintro rfl
  cases h

theorem ne_invalidQuery_of_parseKeys (h : parseKeys schema raw = .error error)
    (message : String) : error ≠ .table (.invalidQuery message) := by
  have hparsed := parseKeys_parsed schema raw
  rw [h] at hparsed
  cases hparsed <;> nofun

theorem Parsed.validateQuery (h : Parsed schema raw (.ok keys)) (checkTypes : Bool) :
    schema.validateQuery keys checkTypes = .ok () := by
  cases h with
  | keys _ _ _ haccepted => exact haccepted checkTypes

/-- With keys that are read, a lookup does not fail. -/
theorem lookup_of_parseKeys {table : Table String} (h : parseKeys table.schema raw = .ok keys) :
    ∃ lookup, table.lookup keys = .ok lookup := by
  have hparsed := parseKeys_parsed table.schema raw
  rw [h] at hparsed
  refine ⟨table.rootLookup.descendAll keys, ?_⟩
  rw [Table.lookup, hparsed.validateQuery]
  rfl

section Lookup

variable (lookup : Lookup String) (message : String)

theorem uniqueValue_ne_invalidQuery : lookup.uniqueValue ≠ .error (.invalidQuery message) := by
  rw [lookup.uniqueValue_eq]
  rcases lookup.values with _ | ⟨value, _ | ⟨other, rest⟩⟩ <;> simp

theorem uniqueValueOr_ne_invalidQuery (default : String) :
    lookup.uniqueValueOr default ≠ .error (.invalidQuery message) := by
  by_cases hmissing : lookup.uniqueValue = .error .notFound
  · rw [lookup.readings.recovered hmissing]
    nofun
  · rw [lookup.readings.kept hmissing]
    exact uniqueValue_ne_invalidQuery lookup message

end Lookup

/-- On the way to the command line a result keeps its error. -/
theorem ne_invalidQuery_of_result {result : Except TableError String} {message : String}
    (h : result ≠ .error (.invalidQuery message)) :
    (fun value => [value]) <$> result.mapError .table ≠
      .error (CommandError.table (.invalidQuery message)) := by
  cases result with
  | ok value => nofun
  | error e =>
      intro heq
      cases heq
      exact h rfl

theorem answer_ne_invalidQuery (table : Table String) (raw : List String) (all : Bool)
    (default : Option String) (message : String) :
    answer table raw all default ≠ .error (.table (.invalidQuery message)) := by
  cases hkeys : parseKeys table.schema raw with
  | error e =>
      rw [answer_of_parseKeys_error hkeys]
      intro h
      exact ne_invalidQuery_of_parseKeys hkeys message (Except.error.inj h)
  | ok keys =>
      obtain ⟨lookup, hlookup⟩ := lookup_of_parseKeys hkeys
      cases all with
      | true =>
          rw [answer_all hkeys hlookup]
          split <;> simp
      | false =>
          cases default with
          | none =>
              rw [answer_plain hkeys hlookup]
              exact ne_invalidQuery_of_result (uniqueValue_ne_invalidQuery lookup message)
          | some default =>
              rw [answer_default hkeys hlookup]
              exact ne_invalidQuery_of_result (uniqueValueOr_ne_invalidQuery lookup message default)

/-- Reading a list of texts fails for their number just when it is not that of the columns, else for
the first column whose text cannot be read, and else gives keys of the schema. So no query of a file
ends because its keys do not fit the schema. -/
theorem parsed_keys_fit (schema : Schema) (raw : List String) :
    Parsed schema raw (parseKeys schema raw) ∧
    ((∃ expected actual, parseKeys schema raw = .error (.keyCount expected actual)) ↔
      raw.length ≠ schema.arity) ∧
    ∀ path contents all default message,
      (query path contents raw all default).value ≠ .error (.table (.invalidQuery message)) := by
  refine ⟨parseKeys_parsed schema raw, ?_, ?_⟩
  · constructor
    · rintro ⟨expected, actual, h⟩
      have hparsed := parseKeys_parsed schema raw
      rw [h] at hparsed
      cases hparsed with
      | count hlength => exact hlength
    · intro hlength
      exact ⟨_, _, parseKeys_of_length_ne hlength⟩
  · intro path contents all default message h
    rw [query_value] at h
    cases hload : (loadTable path contents).value with
    | error e =>
        rw [hload] at h
        exact ne_invalidQuery_of_concernsFile (concernsFile_of_loadTable hload) message
          (Except.error.inj h)
    | ok table =>
        rw [hload] at h
        exact answer_ne_invalidQuery table raw all default message h

/-! ## One text in a column -/

/-- What one text gives in a table with just this column. -/
def parseAlone (column : Column) (s : String) : Except CommandError (List KeyValue) :=
  parseKeys { columns := [column] } [s]

theorem parseAlone_eq (column : Column) (s : String) :
    parseAlone column s = (fun key => [key]) <$> parseKey column s := by
  rw [parseAlone, parseKeys_of_length_eq rfl]
  change [(column, s)].mapM (fun entry => parseKey entry.1 entry.2) = _
  rw [List.mapM_cons, List.mapM_nil]
  cases parseKey column s <;> rfl

theorem parseAlone_eq_ok_iff : parseAlone column s = .ok [key] ↔ Reading column.type s key := by
  rw [parseAlone_eq, ← parseKey_eq_ok_iff]
  cases parseKey column s <;> simp [Functor.map, Except.map]

theorem parseAlone_eq_error_iff : parseAlone column s = .error error ↔
    parseKey column s = .error error := by
  rw [parseAlone_eq]
  cases parseKey column s <;> simp [Functor.map, Except.map]

/-- How a text is read in a column that is declared as one of integers, or of type `any`. -/
structure ReadAlone (column : Column) (s : String) : Prop where
  integer : ∀ n, parseAlone (column.withType .integer) s = .ok [.integer n] ↔ IntegerText s n
  /-- A numeral is read when its value is in the range of 64 bits. -/
  range : ∀ k, SignedNumeral s.toList k →
    ((∃ n, parseAlone (column.withType .integer) s = .ok [.integer n]) ↔ -2 ^ 63 ≤ k ∧ k < 2 ^ 63)
  notInteger : (∀ n, ¬ IntegerText s n) →
    parseAlone (column.withType .integer) s = .error (.invalidKey column.name s .integer)
  anyInteger : ∀ n, parseAlone (column.withType .any) s = .ok [.integer n] ↔ IntegerText s n
  anyBool : ∀ b, parseAlone (column.withType .any) s = .ok [.bool b] ↔
    (∀ n, ¬ IntegerText s n) ∧ BoolText s b
  anyText : ∀ text, parseAlone (column.withType .any) s = .ok [.text text] ↔
    text = s ∧ (∀ n, ¬ IntegerText s n) ∧ ∀ b, ¬ BoolText s b
  /-- In a column of type `any` there is always a key. -/
  any : ∃ key, parseAlone (column.withType .any) s = .ok [key]

theorem readAlone (column : Column) (s : String) : ReadAlone column s := by
  have hinteger (n : Int64) :
      parseAlone (column.withType .integer) s = .ok [.integer n] ↔ IntegerText s n := by
    rw [parseAlone_eq_ok_iff]
    constructor
    · intro h
      cases h with
      | integer hn => exact hn
    · exact .integer
  constructor
  · exact hinteger
  · intro k hk
    simp only [hinteger]
    exact hk.exists_integerText_iff
  · intro hnone
    rw [parseAlone_eq_error_iff, parseKey_eq_error_iff]
    refine ⟨fun key h => ?_, rfl⟩
    cases h with
    | integer hn => exact hnone _ hn
  · intro n
    rw [parseAlone_eq_ok_iff]
    constructor
    · intro h
      cases h with
      | anyInteger hn => exact hn
    · exact .anyInteger
  · intro b
    rw [parseAlone_eq_ok_iff]
    constructor
    · intro h
      cases h with
      | anyBool hnone hb => exact ⟨hnone, hb⟩
    · rintro ⟨hnone, hb⟩
      exact .anyBool hnone hb
  · intro text
    rw [parseAlone_eq_ok_iff]
    constructor
    · intro h
      cases h with
      | anyText hnone hbool => exact ⟨rfl, hnone, hbool⟩
    · rintro ⟨rfl, hnone, hbool⟩
      exact .anyText hnone hbool
  · obtain ⟨key, hkey⟩ := exists_reading_any s
    exact ⟨key, parseAlone_eq_ok_iff.mpr hkey⟩

/-! ## Keys as they are written -/

/-- A key that is written as a text by which it is read back, in a column of its own type and in one
of type `any`. -/
structure ReadBack (column : Column) (key : KeyValue) : Prop where
  own : parseAlone (column.withType key.keyType) key.display = .ok [key]
  any : parseAlone (column.withType .any) key.display = .ok [key]

theorem readBack_integer (column : Column) (n : Int64) : ReadBack column (.integer n) where
  own := parseAlone_eq_ok_iff.mpr (.integer (Text.integerText_toString n))
  any := parseAlone_eq_ok_iff.mpr (.anyInteger (Text.integerText_toString n))

theorem boolText_display (b : Bool) : BoolText (KeyValue.bool b).display b := by
  cases b
  · exact .false
  · exact .true

theorem BoolText.not_integerText {b : Bool} (h : BoolText s b) (n : Int64) :
    ¬ IntegerText s n := by
  cases h <;> exact Text.readInt64_eq_none_iff.mp (by decide) n

theorem readBack_bool (column : Column) (b : Bool) : ReadBack column (.bool b) where
  own := parseAlone_eq_ok_iff.mpr (.bool (boolText_display b))
  any := parseAlone_eq_ok_iff.mpr
    (.anyBool (boolText_display b).not_integerText (boolText_display b))

/-! ## Each text on its own -/

/-- Texts in the columns of a schema are read as each of them is alone, and fail as the first of
them that fails. -/
structure ReadEach (schema : Schema) (raw : List String) : Prop where
  ok : ∀ keys, parseKeys schema raw = .ok keys ↔ raw.length = schema.arity ∧
    List.Forall₂ (fun entry key => parseAlone entry.1 entry.2 = .ok [key])
      (schema.columns.zip raw) keys
  error : raw.length = schema.arity → ∀ error, parseKeys schema raw = .error error ↔
    ∃ before column text after, schema.columns.zip raw = before ++ (column, text) :: after ∧
      (∀ entry ∈ before, ∃ key, parseAlone entry.1 entry.2 = .ok [key]) ∧
      parseAlone column text = .error error

theorem readEach (schema : Schema) (raw : List String) : ReadEach schema raw where
  ok keys := by
    simp only [parseAlone_eq_ok_iff, ← parseKey_eq_ok_iff]
    rw [← mapM_eq_ok_iff]
    by_cases hlength : raw.length = schema.arity
    · rw [parseKeys_of_length_eq hlength]
      exact (and_iff_right hlength).symm
    · rw [parseKeys_of_length_ne hlength]
      exact iff_of_false nofun fun h => hlength h.1
  error hlength error := by
    rw [parseKeys_of_length_eq hlength, mapM_eq_error_iff]
    simp only [parseAlone_eq_ok_iff, parseAlone_eq_error_iff, ← parseKey_eq_ok_iff, Prod.exists]

/-- Every text is read by its own form: as the integer that it is the text of, in a column of
integers and in one of type `any`; there else as a truth value by its name, and else as it stands.
Integers and truth values are read back from the texts by which they are shown. This holds of a text
alone, and so of each text of a list. -/
theorem texts_read (column : Column) (s : String) (schema : Schema) (raw : List String) :
    ReadAlone column s ∧ (∀ n, ReadBack column (.integer n)) ∧ (∀ b, ReadBack column (.bool b)) ∧
      ReadEach schema raw :=
  ⟨readAlone column s, readBack_integer column, readBack_bool column, readEach schema raw⟩

end DecisionTable.CommandLine
