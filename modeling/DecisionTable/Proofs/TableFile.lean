import DecisionTable.CommandLine.Load
import DecisionTable.Proofs.Json.Reader
import DecisionTable.Proofs.Text.Decimal

/-!
# Table files read back

A table file that is written loads back unchanged (`TableFile.written_file_loads_back`). The proof
goes through the JSON value in between: every type of the format has a lemma `ofJson?_toJson`, that
its JSON reads back to it, and a lemma `legible`, that its JSON survives being written as text. The
first of these takes nothing from the second except for column keys and schemas, which are read only
from values without unreadable parts.
-/

namespace DecisionTable

/-! ## Optional values and lists -/

namespace Json

variable {α : Type} {read : Json → Option α} (toJson : α → Json)

/-- A value that is never written as null may be absent. -/
theorem nullable?_ofOption (hread : ∀ a, read (toJson a) = some a)
    (hnull : ∀ a, toJson a ≠ .null) (o : Option α) :
    nullable? read (ofOption toJson o) = some o := by
  cases o with
  | none => rfl
  | some a =>
    rw [ofOption, nullable?, hread]
    · rfl
    · exact hnull a

theorem list?_map (hread : ∀ a, read (toJson a) = some a) (as : List α) :
    list? read (.array (as.map toJson)) = some as := by
  change (as.map toJson).mapM read = some as
  rw [List.mapM_map, show read ∘ toJson = fun a => pure (id a) from funext hread, List.mapM_pure,
    List.map_id]
  rfl

theorem Legible.ofOption {depth : Nat} (h : ∀ a, Legible depth (toJson a)) (o : Option α) :
    Legible depth (Json.ofOption toJson o) := by
  cases o with
  | none => exact .null
  | some a => exact h a

theorem Legible.list {depth : Nat} (hdepth : depth < maxDepth)
    (h : ∀ a, Legible (depth + 1) (toJson a)) (as : List α) :
    Legible depth (.array (as.map toJson)) := by
  refine .array hdepth fun item hitem => ?_
  obtain ⟨a, -, rfl⟩ := List.mem_map.1 hitem
  exact h a

end Json

open Json (Legible maxDepth)

/-! ## Keys -/

namespace KeyValue

theorem ofJson?_toJson (key : KeyValue) : ofJson? key.toJson = some key := by
  cases key with
  | bool b => rfl
  | integer n => simp [toJson, ofJson?, Text.toInt64?_eq_some_iff]
  | text s => rfl

theorem toJson_ne_null (key : KeyValue) : key.toJson ≠ .null := by
  cases key <;> exact Json.noConfusion

theorem legible (key : KeyValue) (depth : Nat) : Legible depth key.toJson := by
  cases key with
  | bool b => exact .bool b
  | integer n =>
    have hlow := Int64.le_toInt n
    have hhigh := Int64.toInt_lt n
    exact .integer (by simp only [UInt64.size]; omega)
  | text s => exact .text s

end KeyValue

namespace Interval

theorem ofJson?_toJson (i : Interval) : ofJson? i.toJson = some i := by
  have hbound (bound : Option KeyValue) :
      bound? (some (Json.ofOption KeyValue.toJson bound)) = some bound :=
    Json.nullable?_ofOption KeyValue.toJson KeyValue.ofJson?_toJson KeyValue.toJson_ne_null bound
  have hfields : i.toJson.fields? ["from", "to"] =
      some [some (Json.ofOption KeyValue.toJson i.lower),
        some (Json.ofOption KeyValue.toJson i.upper)] := by
    simp [toJson, Json.fields?, Json.member?]
  rw [ofJson?, hfields]
  simp [hbound]

theorem legible (i : Interval) {depth : Nat} (hdepth : depth < maxDepth) :
    Legible depth i.toJson := by
  refine .object hdepth ?_
  simp [Legible.ofOption KeyValue.toJson (KeyValue.legible · _)]

end Interval

namespace ColumnKey

theorem legible (key : ColumnKey) {depth : Nat} (hdepth : depth < maxDepth) :
    Legible depth key.toJson := by
  cases key with
  | exact value => exact value.legible depth
  | range interval => exact interval.legible hdepth
  | any => exact .null

/-- The first reading that fits is the one that was written: a key value is never an object or null,
and an interval is no key value. -/
theorem ofJson?_toJson (key : ColumnKey) : ofJson? key.toJson = some key := by
  have hlegible : Legible 0 key.toJson := key.legible (by decide)
  unfold ofJson?
  rw [if_pos hlegible.readable]
  cases key with
  | exact value => simp only [toJson, KeyValue.ofJson?_toJson]
  | range interval =>
    have hvalue : KeyValue.ofJson? interval.toJson = none := rfl
    simp only [toJson, hvalue, Interval.ofJson?_toJson]
  | any => rfl

end ColumnKey

/-! ## Schemas, rows and configurations -/

section Depth

variable {depth : Nat}

theorem Matching.legible (matching : Matching) (hdepth : depth < maxDepth) :
    Legible depth matching.toJson := by
  cases matching with
  | exact => exact .text _
  | range reach =>
    refine .object hdepth ?_
    cases reach <;> simp [Reach.toJson, Legible.text]

theorem Column.legible (column : Column) (hdepth : depth + 1 < maxDepth) :
    Legible depth column.toJson := by
  refine .object (by omega) ?_
  simp [KeyType.toJson, Legible.text, column.matching.legible hdepth]

theorem Schema.legible_members (schema : Schema) (hdepth : depth + 2 < maxDepth) :
    ∀ member ∈ schema.members, Legible depth member.2 := by
  have hpolicy : Legible depth schema.policy.toJson := by
    cases schema.policy <;> exact .text _
  have hcolumns : Legible depth (.array (schema.columns.map Column.toJson)) :=
    Legible.list _ (by omega) (fun column => column.legible hdepth) schema.columns
  simp [members, hpolicy, hcolumns]

theorem BuildConfig.legible {config : BuildConfig}
    (h : config.largeTableWarning < UInt64.size) (hdepth : depth < maxDepth) :
    Legible depth config.toJson := by
  have hnumber : Legible (depth + 1) (.integer config.largeTableWarning) := .integer h
  refine .object hdepth ?_
  simp [Legible.bool, hnumber]

theorem Row.legible (row : Row String) (hdepth : depth + 2 < maxDepth) :
    Legible depth (row.toJson .text) := by
  have hkeys : Legible (depth + 1) (.array (row.keys.map ColumnKey.toJson)) :=
    Legible.list _ (by omega) (fun key => key.legible hdepth) row.keys
  have hpayload : Legible (depth + 1) (Json.ofOption .text row.payload) :=
    Legible.ofOption _ .text row.payload
  refine .object (by omega) ?_
  simp [hkeys, hpayload]

end Depth

theorem KeyType.ofJson?_toJson (emptyForNull : Bool) (type : KeyType) :
    ofJson? emptyForNull type.toJson = some type := by
  cases type <;> rfl

theorem Reach.ofJson?_toJson (emptyForNull : Bool) (reach : Reach) :
    ofJson? emptyForNull reach.toJson = some reach := by
  cases reach <;> rfl

theorem Matching.ofJson?_toJson (emptyForNull : Bool) (matching : Matching) :
    ofJson? emptyForNull matching.toJson = some matching := by
  cases matching with
  | exact => rfl
  | range reach =>
    have hreach := Reach.ofJson?_toJson emptyForNull reach
    simp [toJson, ofJson?, Json.variant?, hreach]

theorem Policy.ofJson?_toJson (emptyForNull : Bool) (policy : Policy) :
    ofJson? emptyForNull policy.toJson = some policy := by
  cases policy <;> rfl

theorem Column.ofJson?_toJson (emptyForNull : Bool) (column : Column) :
    ofJson? emptyForNull column.toJson = some column := by
  have hfields : column.toJson.fields? ["name", "type", "match"] =
      some [some (.text column.name), some column.type.toJson,
        some column.matching.toJson] := by
    simp [toJson, Json.fields?, Json.member?]
  rw [ofJson?, hfields]
  simp [Json.text?, KeyType.ofJson?_toJson, Matching.ofJson?_toJson]

theorem Schema.ofFields?_toJson (emptyForNull : Bool) (schema : Schema) :
    ofFields? emptyForNull (some (.array (schema.columns.map Column.toJson)))
      (some schema.policy.toJson) = some schema := by
  simp [ofFields?, Policy.field?, Json.list?_map Column.toJson (Column.ofJson?_toJson emptyForNull),
    Policy.ofJson?_toJson]

theorem Schema.readable_members (schema : Schema) :
    Json.membersReadable schema.members = true := by
  have hlegible := schema.legible_members (by decide : 0 + 2 < maxDepth)
  rw [Json.membersReadable_eq, List.all_eq_true]
  exact fun member hmember => (hlegible member hmember).readable

theorem BuildConfig.ofJson?_toJson {config : BuildConfig}
    (h : config.largeTableWarning < UInt64.size) : ofJson? config.toJson = some config := by
  have hfields : config.toJson.fields? ["check_key_types", "large_table_warning"] =
      some [some (.bool config.checkKeyTypes), some (.integer config.largeTableWarning)] := by
    simp [toJson, Json.fields?, Json.member?]
  have hnumber : Json.natBelow? UInt64.size (.integer config.largeTableWarning) =
      some config.largeTableWarning := if_pos h
  rw [ofJson?, hfields]
  simp [Json.bool?, hnumber]

theorem Row.ofJson?_toJson (row : Row String) :
    ofJson? Json.text? (row.toJson .text) = some row := by
  have hfields : (row.toJson .text).fields? ["keys", "payload"] =
      some [some (.array (row.keys.map ColumnKey.toJson)),
        some (Json.ofOption .text row.payload)] := by
    simp [toJson, Json.fields?, Json.member?]
  have hpayload : Json.nullable? Json.text? (Json.ofOption .text row.payload) =
      some row.payload :=
    Json.nullable?_ofOption .text (fun _ => rfl) (fun _ => Json.noConfusion) row.payload
  rw [ofJson?, hfields]
  simp [Json.list?_map ColumnKey.toJson ColumnKey.ofJson?_toJson, hpayload]

/-! ## Files -/

theorem CommandLine.textOf_toUTF8 (text : String) : textOf (.ok text.toUTF8) = .ok text := by
  have hbytes : String.fromUTF8? text.toUTF8 = some text := dif_pos text.isValidUTF8
  simp only [textOf, bind, Except.bind, hbytes]
  rfl

namespace TableFile

/-- The fields of the schema stand beside the configuration and the rows, all under different
names. -/
theorem toJson_eq_object (file : TableFile) :
    ∃ members, file.toJson = .object members ∧ (members.map Prod.fst).Nodup ∧
      members.filter (fun (name, _) => name != "config" && name != "rows") =
        file.schema.members ∧
      Json.member? members "config" = some (some file.config.toJson) ∧
      Json.member? members "rows" =
        some (some (.array (file.rows.map (Row.toJson Json.text)))) :=
  ⟨_, rfl, by simp [Schema.members], by simp [Schema.members],
    by simp [Json.member?, Schema.members], by simp [Json.member?, Schema.members]⟩

variable {file : TableFile} (hconfig : file.config.largeTableWarning < UInt64.size)

include hconfig

theorem legible : Legible 0 file.toJson := by
  have hsettings : Legible 1 file.config.toJson := BuildConfig.legible hconfig (by decide)
  have hrows : Legible 1 (.array (file.rows.map (Row.toJson .text))) :=
    Legible.list _ (by decide) (fun row => row.legible (by decide)) file.rows
  refine .object (by decide) fun member hmember => ?_
  rcases List.mem_append.1 hmember with hschema | hother
  · exact file.schema.legible_members (by decide) member hschema
  · simp only [List.mem_cons, List.not_mem_nil, or_false] at hother
    rcases hother with rfl | rfl
    · exact hsettings
    · exact hrows

theorem ofJson?_toJson : ofJson? file.toJson = some file := by
  obtain ⟨members, hobject, -, hschema, hsettings, hrows⟩ := file.toJson_eq_object
  have hcolumns : Json.member? file.schema.members "columns" =
      some (some (.array (file.schema.columns.map Column.toJson))) := by
    simp [Json.member?, Schema.members]
  have hpolicy : Json.member? file.schema.members "policy" =
      some (some file.schema.policy.toJson) := by
    simp [Json.member?, Schema.members]
  rw [hobject]
  simp only [ofJson?, hschema, file.schema.readable_members, hsettings, hrows, hcolumns, hpolicy]
  simp [Schema.ofFields?_toJson, BuildConfig.ofJson?_toJson hconfig,
    Json.list?_map _ Row.ofJson?_toJson]

end TableFile

/-- A table file that is written and then loaded is the same file: the same schema, configuration
and rows, whether or not the schema is valid or the rows make a table. The threshold of a
configuration is a 64-bit number. -/
theorem TableFile.written_file_loads_back (file : TableFile)
    (hconfig : file.config.largeTableWarning < UInt64.size) :
    TableFile.parse? file.render = some file ∧
      (∀ path, (CommandLine.load path (.ok file.render.toUTF8)).value = .ok file) ∧
      ∃ members, Json.parse? file.render = some (.object members) ∧
        (members.map Prod.fst).Nodup := by
  have hjson : Json.parse? file.render = some file.toJson := Json.parse?_pretty (legible hconfig)
  have hfile : TableFile.parse? file.render = some file := by
    rw [TableFile.parse?, hjson]
    exact ofJson?_toJson hconfig
  refine ⟨hfile, fun path => ?_, ?_⟩
  · simp only [CommandLine.load, CommandLine.textOf_toUTF8, hfile]
    rfl
  · obtain ⟨members, hobject, hnames, -⟩ := file.toJson_eq_object
    exact ⟨members, hobject ▸ hjson, hnames⟩

/-- A file with every kind of key, among them an empty interval, under a schema that is not valid:
its columns share a name. -/
def mixedFile : TableFile where
  schema := ⟨[.exact "rows", { Column.openRange "rows" with type := .integer }], .multi⟩
  config := { checkKeyTypes := false, largeTableWarning := 18446744073709551615 }
  rows := [
    { keys := [.exact (.bool true), .range ⟨some (.integer (-7)), none⟩], payload := some "a\nb" },
    { keys := [.exact (.text ""), .range ⟨none, none⟩], payload := some "" },
    { keys := [.any, .range ⟨some (.text "z"), some (.bool false)⟩] }]

theorem TableFile.mixedFile_loads_back :
    mixedFile.config.largeTableWarning < UInt64.size ∧
      TableFile.parse? mixedFile.render = some mixedFile :=
  have hconfig : mixedFile.config.largeTableWarning < UInt64.size := by decide
  ⟨hconfig, (TableFile.written_file_loads_back mixedFile hconfig).1⟩

end DecisionTable
