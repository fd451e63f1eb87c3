import DecisionTable.Proofs.Table.Calls

/-!
# What a builder reports

From its start to its end a builder reports few events, whatever the calls. It reports that it has
started, the first row that it rejects, and the table in the end, after a warning if that has many
rows. A builder that has failed reports nothing more, although it is asked for more.

* `Event.started`, `Event.rejected`, `Event.large`, `Event.built` : the events of a builder;
* `Builder.called`, `Builder.session` : a builder from its start to the table;
* `Builder.outcomes` : what the calls return;
* `Builder.feedEvents` : the events of rows given to a builder one after another;
* `Builder.Reports` : the events of a session, before and at its end, and how it ends;
* `session_reports` : every session is like this.
-/

namespace DecisionTable

/-! ## Events of a builder -/

namespace Event

def started (schema : Schema) : Event where
  severity := .debug
  message := "starting lookup table build"
  fields := [("columns", toString schema.arity), ("policy", schema.policy.display)]

def rejected (accepted : Nat) (error : TableError) : Event where
  severity := .debug
  message := s!"rejected row {accepted}: {error.message}"

def large (rows threshold : Nat) : Event where
  severity := .warn
  message := s!"built lookup table from {rows} rows " ++ s!"(warning threshold {threshold})"

def built (rows : Nat) (stats : TableStats) : Event where
  severity := .debug
  message := "lookup table built"
  fields := [("rows", toString rows), ("exact_nodes", toString stats.exactNodes),
    ("range_nodes", toString stats.rangeNodes),
    ("leaves", toString (stats.uniqueLeaves + stats.multiLeaves))]

end Event

theorem Table.rows_stats {P : Type} [Payload P] (table : Table P) :
    table.stats.rows = table.rows := by
  rw [stats]
  cases table.root <;> rfl

namespace Builder

variable {P : Type} [Payload P] {schema : Schema} {config : BuildConfig} {rows : List (Row P)}
  {row : Row P} {calls : List (Call P)} {builder first next : Builder P} {error : TableError}

/-- A new builder after calls whose errors are ignored. -/
def called (schema : Schema) (config : BuildConfig) (calls : List (Call P)) :
    Logged (Except TableError (Builder P)) := do
  match ← start schema config with
  | .error error => return .error error
  | .ok builder => return .ok (← builder.run calls)

/-- A new builder, calls whose errors are ignored, and the table in the end. -/
def session (schema : Schema) (config : BuildConfig) (calls : List (Call P)) :
    Logged (Except TableError (Table P)) := do
  match ← called schema config calls with
  | .error error => return .error error
  | .ok builder => builder.finish

def outcomes (builder : Builder P) : List (Call P) → List (Except TableError Unit)
  | [] => []
  | call :: calls =>
    (builder.call call).value.1 :: (builder.call call).value.2.outcomes calls

def feedEvents (builder : Builder P) : List (Row P) → List Event
  | [] => []
  | row :: rows => (builder.push row).events ++ (builder.push row).value.2.feedEvents rows

/-! ## Events of a row -/

theorem events_push_of_failure (h : builder.failure = some error) (row : Row P) :
    (builder.push row).events = [] := by
  rw [push, h]
  rfl

theorem events_push_ok (h : (builder.push row).value = (.ok (), next)) :
    (builder.push row).events = [] := by
  cases hfailure : builder.failure with
  | some e => exact events_push_of_failure hfailure row
  | none =>
      rw [push, hfailure] at h ⊢
      cases hgrow : builder.grow row with
      | ok root => rfl
      | error cause =>
          simp only [hgrow] at h
          cases congrArg Prod.fst h

/-- The first row that fails is reported, with the error that is returned. -/
theorem events_push_error (h : (builder.push row).value = (.error error, next))
    (hsound : builder.failure = none) :
    (builder.push row).events = [.rejected builder.rows error] := by
  rw [push, hsound] at h ⊢
  cases hgrow : builder.grow row with
  | ok root =>
      simp only [hgrow] at h
      cases congrArg Prod.fst h
  | error cause =>
      simp only [hgrow] at h
      obtain rfl : cause.atRow builder.rows = error :=
        Except.error.inj (congrArg Prod.fst h)
      rfl

/-! ## Events of rows, in calls or one by one -/

theorem feedEvents_of_failure (h : builder.failure = some error) (rows : List (Row P)) :
    builder.feedEvents rows = [] := by
  induction rows with
  | nil => rfl
  | cons row rows ih =>
      rw [feedEvents, events_push_of_failure h, push_of_failure h]
      exact ih

theorem feedEvents_append (builder : Builder P) (rows more : List (Row P)) :
    builder.feedEvents (rows ++ more) =
      builder.feedEvents rows ++ (builder.feed rows).feedEvents more := by
  induction rows generalizing builder with
  | nil => rfl
  | cons row rows ih =>
      rw [List.cons_append, feedEvents, feedEvents, ih, List.append_assoc]
      rfl

/-- The rows of a call after one that fails are not tried, which reports what trying them would. -/
theorem events_extend (builder : Builder P) (rows : List (Row P)) :
    (builder.extend rows).events = builder.feedEvents rows := by
  induction rows generalizing builder with
  | nil => rfl
  | cons row rows ih =>
      rw [extend, Logged.events_bind, feedEvents]
      rcases hpush : (builder.push row).value with ⟨e | ⟨⟩, next⟩
      · rw [feedEvents_of_failure (failure_of_push_error hpush)]
        rfl
      · exact congrArg _ (ih next)

theorem events_call (builder : Builder P) (call : Call P) :
    (builder.call call).events = builder.feedEvents call.rows := by
  cases call with
  | push row => exact (List.append_nil _).symm
  | extend rows => exact events_extend builder rows

theorem events_run (builder : Builder P) (calls : List (Call P)) :
    (builder.run calls).events = builder.feedEvents (calls.flatMap Call.rows) := by
  induction calls generalizing builder with
  | nil => rfl
  | cons call calls ih =>
      have hrun : (builder.run (call :: calls)).events =
          (builder.call call).events ++ ((builder.call call).value.2.run calls).events := rfl
      rw [hrun, ih, events_call, call_eq_feed, List.flatMap_cons, feedEvents_append]

/-- Accepted rows are not reported. -/
theorem After.events_feed (h : After schema config rows builder)
    (hstart : (Builder.start schema config).value = .ok first) : first.feedEvents rows = [] := by
  induction h with
  | start => rfl
  | @push rows row builder next hafter hpush ih =>
      rw [feedEvents_append, ih, hafter.eq_feed hstart, List.nil_append]
      change (builder.push row).events ++ [] = []
      rw [events_push_ok hpush, List.append_nil]

/-- Of rows of which one is the first to fail, that one is reported and no other. -/
theorem FailsAfter.events_feed {accepted : List (Row P)}
    (h : FailsAfter schema config rows accepted error)
    (hstart : (Builder.start schema config).value = .ok first) :
    first.feedEvents rows = [.rejected accepted.length error] ∧
      (first.feed rows).failure = some error := by
  obtain ⟨row, rest, builder, next, rfl, hafter, hpush⟩ := h
  have hfailure := failure_of_push_error hpush
  have hrow := events_push_error hpush hafter.holds.failure
  rw [hafter.holds.count] at hrow
  constructor
  · rw [feedEvents_append, hafter.events_feed hstart, hafter.eq_feed hstart, List.nil_append,
      feedEvents, hrow, hpush, feedEvents_of_failure hfailure]
    rfl
  · have hfeed : builder.feed (row :: rest) = (builder.push row).value.2.feed rest := rfl
    rw [feed_append, hafter.eq_feed hstart, hfeed, hpush, feed_of_failure hfailure]
    exact hfailure

/-! ## What calls return -/

/-- The error of the row that has failed, if one has. -/
def status (builder : Builder P) : Except TableError Unit :=
  match builder.failure with
  | none => .ok ()
  | some error => .error error

omit [Payload P] in
theorem status_eq_error_iff : builder.status = .error error ↔ builder.failure = some error := by
  unfold status
  cases builder.failure <;> simp

theorem push_status (builder : Builder P) (row : Row P) :
    (builder.push row).value.1 = (builder.push row).value.2.status := by
  rw [push]
  cases hfailure : builder.failure with
  | some e => exact (status_eq_error_iff.2 hfailure).symm
  | none =>
      cases builder.grow row with
      | ok root => rfl
      | error cause => rfl

theorem extend_status (h : builder.failure = none) (rows : List (Row P)) :
    (builder.extend rows).value.1 = (builder.extend rows).value.2.status := by
  induction rows generalizing builder with
  | nil => simp [extend, status, h]
  | cons row rows ih =>
      have hrow := push_status builder row
      rw [extend, Logged.value_bind]
      rcases hpush : (builder.push row).value with ⟨e | ⟨⟩, next⟩
      · rw [hpush] at hrow
        exact hrow
      · rw [hpush] at hrow
        refine ih (Option.eq_none_iff_forall_ne_some.2 ?_)
        intro e he
        cases hrow.trans (status_eq_error_iff.2 he)

/-- A call to a builder that has not failed returns the error of the row that makes it fail. -/
theorem call_status (h : builder.failure = none) (call : Call P) :
    (builder.call call).value.1 = (builder.call call).value.2.status := by
  cases call with
  | push row => exact push_status builder row
  | extend rows => exact extend_status h rows

/-- Calls to a builder that has failed return its error, if they return one: there may be no row in
a call. -/
theorem outcomes_of_failure (h : builder.failure = some error) {e : TableError}
    (he : .error e ∈ builder.outcomes calls) : e = error := by
  induction calls with
  | nil => cases he
  | cons call calls ih =>
      have hnext : (builder.call call).value.2 = builder := by
        rw [call_eq_feed, feed_of_failure h]
      rw [outcomes, hnext] at he
      rcases List.mem_cons.1 he with hcall | he
      · cases call with
        | push row =>
            change _ = (builder.push row).value.1 at hcall
            rw [push_of_failure h] at hcall
            exact Except.error.inj hcall
        | extend rows =>
            change _ = (builder.extend rows).value.1 at hcall
            rcases extend_cases_feed builder rows with hextend | ⟨e', hextend, hfailure⟩
            · rw [hextend] at hcall
              cases hcall
            · rw [feed_of_failure h, h] at hfailure
              rw [hextend] at hcall
              exact (Except.error.inj hcall).trans (Option.some.inj hfailure).symm
      · exact ih he

/-- An error is returned by calls if it is that of the row that makes the builder fail. -/
theorem error_mem_outcomes_iff (h : builder.failure = none) :
    .error error ∈ builder.outcomes calls ↔ (builder.run calls).value.failure = some error := by
  induction calls generalizing builder with
  | nil => simp [outcomes, run, h]
  | cons call calls ih =>
      have hrun : (builder.run (call :: calls)).value =
          ((builder.call call).value.2.run calls).value := rfl
      rw [outcomes, List.mem_cons, call_status h, eq_comm, status_eq_error_iff, hrun]
      cases hnext : (builder.call call).value.2.failure with
      | none => simpa using ih hnext
      | some e =>
          rw [run_eq_feed, feed_of_failure hnext, hnext]
          refine ⟨?_, Or.inl⟩
          rintro (he | he)
          · exact he
          · exact congrArg some (outcomes_of_failure hnext he).symm

/-! ## Events of a table -/

theorem events_finish_of_failure (h : builder.failure = some error) :
    builder.finish.events = [] := by
  rw [finish, h]
  rfl

def closing (config : BuildConfig) (rows : Nat) (stats : TableStats) : List Event :=
  (if config.largeTableWarning < rows then [.large rows config.largeTableWarning] else []) ++
    [.built rows stats]

/-- A table is reported with its statistics. -/
theorem Holds.events_finish (h : builder.Holds schema config rows) :
    ∃ table, builder.finish.value = .ok table ∧ table.Over schema config rows ∧
      builder.finish.events = closing config rows.length table.stats := by
  obtain ⟨table, hfinish, hover⟩ := finish_over h
  refine ⟨table, hfinish, hover, ?_⟩
  have hrows : builder.rows = table.stats.rows := by
    rw [table.rows_stats, hover.count, h.count]
  have hbuilt := congrArg (Event.built · table.stats) hrows
  simp only [closing, ← h.count, ← h.config_eq, hbuilt]
  simp only [finish, h.failure] at hfinish ⊢
  by_cases hlarge : builder.config.largeTableWarning < builder.rows
  · simp only [if_pos hlarge] at hfinish ⊢
    cases hfinish
    rfl
  · simp only [if_neg hlarge] at hfinish ⊢
    cases hfinish
    rfl

/-! ## Sessions -/

/-- What a session reports during its calls and at its end, and what it gives. -/
inductive Reports (schema : Schema) (config : BuildConfig) (calls : List (Call P)) :
    List Event → List Event → Except TableError (Table P) → Prop
  /-- An invalid schema starts nothing. -/
  | invalid {error : TableError} (h : schema.validate = .error error) :
      Reports schema config calls [] [] (.error error)
  /-- The first row that fails is reported, with the one error that calls return. The calls after it
  and the end report nothing. -/
  | failed {accepted : List (Row P)} {error : TableError} (hvalid : schema.validate = .ok ())
      (hfails : FailsAfter schema config (calls.flatMap Call.rows) accepted error)
      (hreturned : ∀ e, .error e ∈ ({ schema, config } : Builder P).outcomes calls ↔ e = error) :
      Reports schema config calls [.started schema, .rejected accepted.length error] []
        (.error error)
  /-- If no row fails then there is nothing to report before the end. -/
  | built {table : Table P} (hvalid : schema.validate = .ok ())
      (hreturned : ∀ e, .error e ∉ ({ schema, config } : Builder P).outcomes calls)
      (hover : table.Over schema config (calls.flatMap Call.rows)) :
      Reports schema config calls [.started schema]
        (closing config (calls.flatMap Call.rows).length table.stats) (.ok table)

theorem called_of_invalid (h : schema.validate = .error error) (calls : List (Call P)) :
    called schema config calls = pure (.error error) := by
  rw [called, start, h]
  rfl

theorem called_of_valid (h : schema.validate = .ok ()) (calls : List (Call P)) :
    called schema config calls =
      { value := .ok (({ schema, config } : Builder P).run calls).value
        events := .started schema :: (({ schema, config } : Builder P).run calls).events } := by
  rw [called, start, h]
  exact congrArg (Logged.mk _ <| .started schema :: ·) (List.append_nil _)

end Builder

/-- Every session reports its start if the schema is valid, then the first row that fails, if one
does. Otherwise it reports at its end the table that it gives, after a warning if that has more rows
than the threshold. -/
theorem session_reports {P : Type} [Payload P] (schema : Schema) (config : BuildConfig)
    (calls : List (Builder.Call P)) :
    ∃ closing, (Builder.session schema config calls).events =
        (Builder.called schema config calls).events ++ closing ∧
      Builder.Reports schema config calls (Builder.called schema config calls).events closing
        (Builder.session schema config calls).value := by
  rw [Builder.session]
  cases hvalid : schema.validate with
  | error error =>
      rw [Builder.called_of_invalid hvalid]
      exact ⟨[], rfl, .invalid hvalid⟩
  | ok =>
      let first : Builder P := { schema, config }
      have hstart : (Builder.start schema config).value = .ok first := by
        rw [Builder.start, hvalid]
        rfl
      rw [Builder.called_of_valid hvalid]
      refine ⟨(first.run calls).value.finish.events, rfl, ?_⟩
      change Builder.Reports schema config calls (.started schema :: (first.run calls).events)
        (first.run calls).value.finish.events (first.run calls).value.finish.value
      have hreturned : ∀ error, .error error ∈ first.outcomes calls ↔
          (first.run calls).value.failure = some error :=
        fun error => Builder.error_mem_outcomes_iff rfl
      rw [Builder.run_eq_feed] at hreturned ⊢
      rw [Builder.events_run]
      rcases (Builder.After.start hstart).feed_cases (calls.flatMap Builder.Call.rows) with
        hafter | ⟨accepted, error, hfails⟩
      · rw [List.nil_append] at hafter
        obtain ⟨table, hfinish, hover, hevents⟩ := hafter.holds.events_finish
        rw [hafter.events_feed hstart, hfinish, hevents]
        refine .built hvalid (fun e he => ?_) hover
        cases hafter.holds.failure.symm.trans ((hreturned e).1 he)
      · rw [List.nil_append] at hfails
        obtain ⟨hrejected, hfailure⟩ := hfails.events_feed hstart
        rw [hrejected, Builder.finish_of_failure hfailure,
          Builder.events_finish_of_failure hfailure]
        refine .failed hvalid hfails fun e => ?_
        rw [hreturned, hfailure, Option.some_inj, eq_comm]

/-- The row that comes after the clash is not reported. -/
example : (Builder.session clashingSchema {} clashingCalls).events =
    [.started clashingSchema,
      .rejected 2 (.overlappingRange "domestic=true" "(-inf, 10)" "[5, 9)" (some 2))] := by
  decide +kernel

end DecisionTable
