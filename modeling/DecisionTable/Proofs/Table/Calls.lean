import DecisionTable.Proofs.Table.Follows
import DecisionTable.Proofs.Table.Rejection

/-!
# Builders and their callers

A caller feeds rows to a builder one by one or several at a time, and may go on after an error. What
becomes of the builder depends on the rows alone: a call inserts each of its rows in turn, for as
long as none has failed, and nothing changes a builder that a row has spoiled.

* `Builder.Call`, `Builder.run` : calls to a builder, whose errors are ignored;
* `Builder.feed` : rows given to a builder one after another;
* `Builder.FailsAfter` : rows of which one is the first to fail;
* `Builder.Spoiled` : a builder that a row has spoiled, for good;
* `run_eq_feed` : calls feed the builder their rows;
* `calls_all_or_nothing` : what becomes of a builder, and what it gives in the end.
-/

namespace DecisionTable

variable {P : Type}

/-! ## Calls -/

inductive Builder.Call (P : Type) where
  | push (row : Row P)
  | extend (rows : List (Row P))

def Builder.Call.rows : Call P → List (Row P)
  | .push row => [row]
  | .extend rows => rows

namespace Builder

variable [Payload P]

def call (builder : Builder P) : Call P → Logged (Except TableError Unit × Builder P)
  | .push row => builder.push row
  | .extend rows => builder.extend rows

/-- The builder after calls, by a caller who ignores their errors. -/
def run (builder : Builder P) : List (Call P) → Logged (Builder P)
  | [] => return builder
  | call :: calls => do
    let (_, next) ← builder.call call
    next.run calls

/-- The builder after rows, each of them given to it whatever became of those before. -/
def feed (builder : Builder P) (rows : List (Row P)) : Builder P :=
  rows.foldl (fun builder row => (builder.push row).value.2) builder

/-- Of rows that are given to a new builder one after another, the first ones are accepted, and the
next one fails. -/
def FailsAfter (schema : Schema) (config : BuildConfig) (rows accepted : List (Row P))
    (error : TableError) : Prop :=
  ∃ row rest builder next, rows = accepted ++ row :: rest ∧ After schema config accepted builder ∧
    (builder.push row).value = (.error error, next)

/-- A builder that a row has spoiled: it gives the error of that row, whatever it is asked, keeps no
tree, and counts the rows that were accepted before. -/
structure Spoiled (error : TableError) (accepted : Nat) (builder : Builder P) : Prop where
  root : builder.root = none
  rows : builder.rows = accepted
  push : ∀ row, (builder.push row).value = (.error error, builder)
  finish : builder.finish.value = .error error

variable {builder next : Builder P} {row : Row P} {rows : List (Row P)} {error : TableError}

/-! ## After a failure -/

theorem push_of_failure (h : builder.failure = some error) (row : Row P) :
    (builder.push row).value = (.error error, builder) := by
  rw [push, h]
  rfl

theorem finish_of_failure (h : builder.failure = some error) :
    builder.finish.value = .error error := by
  rw [finish, h]
  rfl

/-- Nothing changes a builder that has failed. -/
theorem feed_of_failure (h : builder.failure = some error) (rows : List (Row P)) :
    builder.feed rows = builder := by
  induction rows with
  | nil => rfl
  | cons row rows ih =>
      rw [feed, List.foldl_cons, push_of_failure h]
      exact ih

/-- A row that fails is remembered by its error, and the tree is dropped. -/
theorem eq_of_push_error (h : (builder.push row).value = (.error error, next))
    (hsound : builder.failure = none) :
    next = { builder with root := none, failure := some error } := by
  rw [push, hsound] at h
  cases hgrow : builder.grow row with
  | ok root =>
      simp only [hgrow] at h
      cases congrArg Prod.fst h
  | error cause =>
      simp only [hgrow] at h
      cases h
      rfl

theorem failure_of_push_error (h : (builder.push row).value = (.error error, next)) :
    next.failure = some error := by
  cases hfailure : builder.failure with
  | none =>
      rw [eq_of_push_error h hfailure]
  | some e =>
      rw [push_of_failure hfailure] at h
      cases h
      exact hfailure

/-! ## Rows one after another -/

theorem feed_append (builder : Builder P) (rows more : List (Row P)) :
    builder.feed (rows ++ more) = (builder.feed rows).feed more :=
  List.foldl_append

/-- Inserting rows gives them to the builder one after another. The rows after one that fails make
no difference. -/
theorem extend_cases_feed (builder : Builder P) (rows : List (Row P)) :
    (builder.extend rows).value = (.ok (), builder.feed rows) ∨
      ∃ error, (builder.extend rows).value = (.error error, builder.feed rows) ∧
        (builder.feed rows).failure = some error := by
  induction rows generalizing builder with
  | nil => exact Or.inl rfl
  | cons row rows ih =>
      have hfeed : builder.feed (row :: rows) = (builder.push row).value.2.feed rows := rfl
      rw [extend, Logged.value_bind, hfeed]
      rcases hpush : (builder.push row).value with ⟨e | ⟨⟩, next⟩
      · have hfailure := failure_of_push_error hpush
        rw [feed_of_failure hfailure]
        exact Or.inr ⟨e, rfl, hfailure⟩
      · exact ih next

theorem call_eq_feed (builder : Builder P) (call : Call P) :
    (builder.call call).value.2 = builder.feed call.rows := by
  cases call with
  | push row => rfl
  | extend rows =>
      rcases extend_cases_feed builder rows with h | ⟨error, h, -⟩
      · exact congrArg Prod.snd h
      · exact congrArg Prod.snd h

/-- Calls feed the builder their rows, whatever the split into calls. -/
theorem run_eq_feed (builder : Builder P) (calls : List (Call P)) :
    (builder.run calls).value = builder.feed (calls.flatMap Call.rows) := by
  induction calls generalizing builder with
  | nil => rfl
  | cons call calls ih =>
      have hrun : (builder.run (call :: calls)).value =
          ((builder.call call).value.2.run calls).value := rfl
      rw [hrun, ih, call_eq_feed, List.flatMap_cons, feed_append]

end Builder

/-! ## From the start -/

section Start

variable [Payload P] {schema : Schema} {config : BuildConfig} {rows : List (Row P)}
  {builder first : Builder P}

/-- A build is what feeding the rows to a new builder comes to. -/
theorem finish_feed (hstart : (Builder.start schema config).value = .ok first)
    (rows : List (Row P)) :
    (first.feed rows).finish.value = (Table.build schema config rows).value := by
  rw [Table.build, Logged.value_bind, hstart]
  simp only [Logged.value_bind]
  rcases Builder.extend_cases_feed first rows with h | ⟨error, h, hfailure⟩
  · rw [h]
  · rw [h, Builder.finish_of_failure hfailure]
    rfl

/-- A builder that has accepted rows is what feeding them to a new builder comes to. -/
theorem Builder.After.eq_feed (h : Builder.After schema config rows builder)
    (hstart : (Builder.start schema config).value = .ok first) : first.feed rows = builder := by
  induction h with
  | start h =>
      cases hstart.symm.trans h
      rfl
  | @push rows row builder builder' _ hpush ih =>
      have hrow : builder.feed [row] = (builder.push row).value.2 := rfl
      rw [Builder.feed_append, ih, hrow, hpush]

/-- Of rows that are fed to a builder, all are accepted, or one is the first to fail. -/
theorem Builder.After.feed_cases (h : Builder.After schema config rows builder)
    (more : List (Row P)) : Builder.After schema config (rows ++ more) (builder.feed more) ∨
      ∃ accepted error, Builder.FailsAfter schema config (rows ++ more) accepted error := by
  induction more generalizing rows builder with
  | nil => exact Or.inl (by rwa [List.append_nil])
  | cons row more ih =>
      rcases hpush : (builder.push row).value with ⟨error | ⟨⟩, next⟩
      · exact Or.inr ⟨rows, error, row, more, builder, next, rfl, h, hpush⟩
      · have hfeed : builder.feed (row :: more) = next.feed more :=
          congrArg (fun outcome => Builder.feed (Prod.snd outcome) more) hpush
        rw [hfeed, List.append_cons]
        exact ih (h.push hpush)

/-- A row that fails spoils the builder, and no row after it makes any difference. -/
theorem Builder.FailsAfter.spoiled {accepted : List (Row P)} {error : TableError}
    (h : Builder.FailsAfter schema config rows accepted error)
    (hstart : (Builder.start schema config).value = .ok first) :
    (first.feed rows).Spoiled error accepted.length := by
  obtain ⟨row, rest, builder, next, rfl, hafter, hpush⟩ := h
  have hfeed : builder.feed (row :: rest) = (builder.push row).value.2.feed rest := rfl
  have hnext := Builder.eq_of_push_error hpush hafter.holds.failure
  have hfailure : next.failure = some error := hnext ▸ rfl
  rw [Builder.feed_append, hafter.eq_feed hstart, hfeed, hpush, Builder.feed_of_failure hfailure]
  exact ⟨hnext ▸ rfl, hnext ▸ hafter.holds.count, Builder.push_of_failure hfailure,
    Builder.finish_of_failure hfailure⟩

/-- Calls come to what a build of their rows comes to, whatever the split into calls and although
the errors of calls are ignored. Either all rows are accepted, or one is the first to fail, and that
spoils the builder for good. -/
theorem calls_all_or_nothing (hvalid : schema.validate = .ok ()) (config : BuildConfig)
    (calls : List (Builder.Call P)) :
    ∃ first, (Builder.start schema config).value = .ok first ∧
      (first.run calls).value.finish.value =
        (Table.build schema config (calls.flatMap Builder.Call.rows)).value ∧
      (Builder.After schema config (calls.flatMap Builder.Call.rows) (first.run calls).value ∨
        ∃ accepted error, Builder.FailsAfter schema config (calls.flatMap Builder.Call.rows)
          accepted error) ∧
      ∀ accepted error, Builder.FailsAfter schema config (calls.flatMap Builder.Call.rows)
        accepted error → (first.run calls).value.Spoiled error accepted.length := by
  obtain ⟨first, hstart⟩ :
      ∃ first : Builder P, (Builder.start schema config).value = .ok first := by
    rw [Builder.start, hvalid]
    exact ⟨_, rfl⟩
  refine ⟨first, hstart, ?_⟩
  rw [Builder.run_eq_feed]
  exact ⟨finish_feed hstart _, (Builder.After.start hstart).feed_cases _,
    fun accepted error hfails => hfails.spoiled hstart⟩

end Start

def clashingCalls : List (Builder.Call String) :=
  [.extend (clashingRows.take 1), .extend (clashingRows.drop 1),
    .push { keys := [.exact (.bool false), .any], payload := some "late" }]

theorem calls_all_or_nothing_clashingCalls :
    let error : TableError := .overlappingRange "domestic=true" "(-inf, 10)" "[5, 9)" (some 2)
    clashingSchema.validate = .ok () ∧
    Builder.FailsAfter clashingSchema {} (clashingCalls.flatMap Builder.Call.rows)
      (clashingRows.take 2) error ∧
    ∃ first, (Builder.start clashingSchema {}).value = .ok first ∧
      (first.run clashingCalls).value.Spoiled error 2 ∧
      (first.run clashingCalls).value.finish.value =
        (Table.build clashingSchema {} (clashingCalls.flatMap Builder.Call.rows)).value := by
  have hvalid : clashingSchema.validate = .ok () := by decide +kernel
  let start : Builder String := { schema := clashingSchema, config := {} }
  have hafter : Builder.After clashingSchema {} (clashingRows.take 2)
      (start.feed (clashingRows.take 2)) := by
    have hok : (start.extend (clashingRows.take 2)).value.1.isOk = true := by decide +kernel
    have hstart : Builder.After clashingSchema {} [] start := .start rfl
    rcases Builder.extend_cases_feed start (clashingRows.take 2) with h | ⟨error, h, -⟩
    · exact hstart.extend h
    · rw [h] at hok
      cases hok
  have hfails : Builder.FailsAfter clashingSchema {} (clashingCalls.flatMap Builder.Call.rows)
      (clashingRows.take 2)
      (.overlappingRange "domestic=true" "(-inf, 10)" "[5, 9)" (some 2)) := by
    refine ⟨_, _, _, _, rfl, hafter, Prod.ext ?_ rfl⟩
    decide +kernel
  obtain ⟨first, hstart, hfinish, -, hspoiled⟩ := calls_all_or_nothing hvalid {} clashingCalls
  exact ⟨hvalid, hfails, first, hstart, hspoiled _ _ hfails, hfinish⟩

end DecisionTable
