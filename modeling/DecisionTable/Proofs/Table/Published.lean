import DecisionTable.Table.Published
import DecisionTable.Proofs.Table.Build

/-!
# Publishing again and again

A published table is called any number of times, and readers take snapshots of it meanwhile. What it
is then follows from the calls alone. A call offers a table, which is handed over or built, and a
build without a schema and configuration of its own takes those in force, which the last successful
call with its own has set. An offer that comes off is published under the next generation; one that
fails changes nothing, so that all later calls go as if it had not been made.

* `PublishedTable.Call`, `run` : calls, and what they give to the caller and leave published;
* `Call.offer`, `inForce`, `accepted` : the table that a call offers, the schema and configuration
  in force after calls, and the tables that came off;
* `Settles` : what becomes of an offer;
* `Holds` : what is published after calls;
* `Served` : a published table and the snapshots that readers have taken of it;
* `publication` : all of this after any calls.
-/

namespace DecisionTable

variable {P : Type}

def Table.settings (table : Table P) : Schema × BuildConfig :=
  (table.schema, table.config)

namespace PublishedTable

/-! ## Calls -/

/-- A call that may replace a published table. -/
inductive Call (P : Type) where
  | publish (table : Table P)
  | rebuild (rows : List (Row P))
  | rebuildWith (schema : Schema) (config : BuildConfig) (rows : List (Row P))

variable [Payload P]

/-- What a call gives to its caller, and what is published after it. -/
def call (current : PublishedTable P) : Call P → Logged (Except TableError Nat × PublishedTable P)
  | .publish table => do
    let next ← current.publish table
    return (.ok next.generation, next)
  | .rebuild rows => current.rebuild rows
  | .rebuildWith schema config rows => current.rebuildWith schema config rows

/-- What calls give to their callers, one after another, and what is published in the end. -/
def run (current : PublishedTable P) :
    List (Call P) → Logged (List (Except TableError Nat) × PublishedTable P)
  | [] => return ([], current)
  | call :: calls => do
    let (outcome, next) ← current.call call
    let (outcomes, last) ← next.run calls
    return (outcome :: outcomes, last)

def outcomes (first : Table P) (calls : List (Call P)) : List (Except TableError Nat) :=
  ((new first).run calls).value.1

def after (first : Table P) (calls : List (Call P)) : PublishedTable P :=
  ((new first).run calls).value.2

/-! ## What calls ask for -/

/-- The table that a call offers, if its build comes off, where some schema and configuration are in
force. -/
def Call.offer (settings : Schema × BuildConfig) : Call P → Except TableError (Table P)
  | .publish table => .ok table
  | .rebuild rows => (Table.build settings.1 settings.2 rows).value
  | .rebuildWith schema config rows => (Table.build schema config rows).value

/-- The schema and configuration that a call puts in force: its own, unless it fails. -/
def Call.settings? : Call P → Option (Schema × BuildConfig)
  | .publish table => some table.settings
  | .rebuild _ => none
  | .rebuildWith schema config rows =>
    if (Table.build schema config rows).value.isOk then some (schema, config) else none

/-- The schema and configuration in force after calls: those that were set last. -/
def inForce (first : Table P) (calls : List (Call P)) : Schema × BuildConfig :=
  (calls.filterMap Call.settings?).getLastD first.settings

def accepted (first : Table P) (calls : List (Call P)) : List (Table P) :=
  calls.zipIdx.filterMap fun entry => (entry.1.offer (inForce first (calls.take entry.2))).toOption

/-- What becomes of an offer: a table is published under the next generation, which the caller is
told, and an error is returned and changes nothing. -/
inductive Settles (current : PublishedTable P) :
    Except TableError (Table P) → Except TableError Nat × PublishedTable P → Prop where
  | published (table : Table P) : Settles current (.ok table)
      (.ok (current.generation + 1), { table, generation := current.generation + 1 })
  | rejected (error : TableError) : Settles current (.error error) (.error error, current)

/-- What is published after calls with some outcomes. -/
structure Holds (first : Table P) (calls : List (Call P)) (outcomes : List (Except TableError Nat))
    (current : PublishedTable P) : Prop where
  /-- The generation counts the first table and the calls that succeeded. -/
  generation : current.generation = 1 + outcomes.countP Except.isOk
  /-- The table is that of the last call that succeeded. -/
  table : current.table = (accepted first calls).getLastD first
  /-- Its schema and configuration are the ones in force. -/
  settings : current.table.settings = inForce first calls

variable {first table : Table P} {current next : PublishedTable P} {error : TableError}

/-! ## One call -/

theorem rebuildWith_settles (current : PublishedTable P) (schema : Schema) (config : BuildConfig)
    (rows : List (Row P)) : Settles current (Table.build schema config rows).value
      (current.rebuildWith schema config rows).value := by
  rw [rebuildWith, Logged.value_bind]
  cases (Table.build schema config rows).value with
  | ok table => exact .published table
  | error e => exact .rejected e

theorem call_settles (current : PublishedTable P) (call : Call P) :
    Settles current (call.offer current.table.settings) (current.call call).value := by
  cases call with
  | publish table => exact .published table
  | rebuild rows => exact rebuildWith_settles current _ _ rows
  | rebuildWith schema config rows => exact rebuildWith_settles current schema config rows

omit [Payload P] in
theorem Settles.eq_of_error {offer : Except TableError (Table P)}
    (h : Settles current offer (.error error, next)) : next = current := by
  cases h
  rfl

theorem settings_of_build {schema : Schema} {config : BuildConfig} {rows : List (Row P)}
    (h : (Table.build schema config rows).value = .ok table) : table.settings = (schema, config) :=
  Prod.ext (over_of_build h).schema_eq (over_of_build h).config_eq

/-- A table that is offered has the schema and configuration that its call puts in force, or else
those in force already. -/
theorem settings_of_offer {settings : Schema × BuildConfig} {call : Call P}
    (h : call.offer settings = .ok table) : table.settings = call.settings?.getD settings := by
  cases call with
  | publish other =>
      cases h
      rfl
  | rebuild rows => exact settings_of_build h
  | rebuildWith schema config rows =>
      have hbuild : (Table.build schema config rows).value = .ok table := h
      rw [settings_of_build hbuild, Call.settings?, hbuild]
      rfl

theorem settings?_of_offer_error {settings : Schema × BuildConfig} {call : Call P}
    (h : call.offer settings = .error error) : call.settings? = none := by
  cases call with
  | publish table => cases h
  | rebuild rows => rfl
  | rebuildWith schema config rows =>
      have hbuild : (Table.build schema config rows).value = .error error := h
      rw [Call.settings?, hbuild]
      rfl

/-! ## Any number of calls -/

theorem inForce_concat (first : Table P) (calls : List (Call P)) (call : Call P) :
    inForce first (calls ++ [call]) = call.settings?.getD (inForce first calls) := by
  unfold inForce
  cases h : call.settings? <;> simp [List.filterMap_append, List.getLastD_eq_getLast?, h]

theorem accepted_concat (first : Table P) (calls : List (Call P)) (call : Call P) :
    accepted first (calls ++ [call]) =
      accepted first calls ++ (call.offer (inForce first calls)).toOption.toList := by
  have hbefore : ∀ entry ∈ calls.zipIdx, (calls ++ [call]).take entry.2 = calls.take entry.2 := by
    intro entry hentry
    exact List.take_append_of_le_length (List.snd_lt_of_mem_zipIdx hentry).le
  unfold accepted
  rw [List.zipIdx_append, List.filterMap_append]
  congr 1
  · exact List.filterMap_congr fun entry hentry => by rw [hbefore entry hentry]
  · cases h : call.offer (inForce first calls) <;> simp [Except.toOption, h]

theorem run_cons (current : PublishedTable P) (call : Call P) (calls : List (Call P)) :
    (current.run (call :: calls)).value =
      ((current.call call).value.1 :: ((current.call call).value.2.run calls).value.1,
        ((current.call call).value.2.run calls).value.2) :=
  rfl

theorem run_append (current : PublishedTable P) (calls more : List (Call P)) :
    (current.run (calls ++ more)).value =
      ((current.run calls).value.1 ++ ((current.run calls).value.2.run more).value.1,
        ((current.run calls).value.2.run more).value.2) := by
  induction calls generalizing current with
  | nil => rfl
  | cons call calls ih =>
      rw [List.cons_append, run_cons, run_cons, ih]
      rfl

theorem outcomes_append (first : Table P) (calls more : List (Call P)) :
    outcomes first (calls ++ more) =
      outcomes first calls ++ ((after first calls).run more).value.1 :=
  congrArg Prod.fst (run_append (new first) calls more)

theorem after_append (first : Table P) (calls more : List (Call P)) :
    after first (calls ++ more) = ((after first calls).run more).value.2 := by
  rw [after, run_append]
  rfl

theorem length_run (current : PublishedTable P) (calls : List (Call P)) :
    (current.run calls).value.1.length = calls.length := by
  induction calls generalizing current with
  | nil => rfl
  | cons call calls ih => exact congrArg (· + 1) (ih _)

/-- What holds after calls holds after one more. -/
theorem Holds.call {calls : List (Call P)} {outcomes : List (Except TableError Nat)}
    (h : Holds first calls outcomes current) (call : Call P) :
    Holds first (calls ++ [call]) (outcomes ++ [(current.call call).value.1])
      (current.call call).value.2 := by
  have hsettles := call_settles current call
  rw [h.settings] at hsettles
  cases hoffer : call.offer (inForce first calls) with
  | ok table =>
      rw [hoffer] at hsettles
      generalize (current.call call).value = result at hsettles
      cases hsettles
      constructor
      · simp [h.generation, Except.isOk, Except.toBool, Nat.add_assoc]
      · simp [accepted_concat, hoffer, Except.toOption, List.getLastD_eq_getLast?]
      · rw [inForce_concat]
        exact settings_of_offer hoffer
  | error e =>
      rw [hoffer] at hsettles
      generalize (current.call call).value = result at hsettles
      cases hsettles
      constructor
      · simp [h.generation, Except.isOk, Except.toBool]
      · simp [accepted_concat, hoffer, Except.toOption, h.table]
      · rw [inForce_concat, settings?_of_offer_error hoffer, Option.getD_none, h.settings]

theorem holds_after (first : Table P) (calls : List (Call P)) :
    Holds first calls (outcomes first calls) (after first calls) := by
  induction calls using List.reverseRecOn with
  | nil => exact ⟨rfl, rfl, rfl⟩
  | append_singleton calls call ih =>
      rw [outcomes_append, after_append]
      exact ih.call call

/-- A call that fails might as well not have been made: without it, the other calls have the same
outcomes and leave the same published. -/
theorem outcomes_of_call_error {calls : List (Call P)} {call : Call P}
    (h : ((after first calls).call call).value.1 = .error error) (later : List (Call P)) :
    (outcomes first (calls ++ call :: later)).eraseIdx calls.length =
        outcomes first (calls ++ later) ∧
      after first (calls ++ call :: later) = after first (calls ++ later) := by
  have hsettles := call_settles (after first calls) call
  rcases hcall : ((after first calls).call call).value with ⟨outcome, next⟩
  rw [hcall] at h hsettles
  obtain rfl : outcome = .error error := h
  have hrun : ((after first calls).run (call :: later)).value =
      (.error error :: ((after first calls).run later).value.1,
        ((after first calls).run later).value.2) := by
    rw [run_cons, hcall, hsettles.eq_of_error]
  have hlength : (outcomes first calls).length = calls.length := length_run (new first) calls
  rw [outcomes_append, outcomes_append, after_append, after_append, hrun, ← hlength]
  refine ⟨?_, rfl⟩
  rw [List.eraseIdx_append_of_length_le (Nat.le_refl _), Nat.sub_self]
  rfl

/-! ## Readers -/

/-- A published table, and the snapshots that readers have taken of it, in order. -/
structure Served (P : Type) where
  current : PublishedTable P
  held : List (Table P) := []

/-- Something that is done with a published table: it is called, or a reader takes a snapshot. -/
inductive Action (P : Type) where
  | call (call : Call P)
  | snapshot

def Action.call? : Action P → Option (Call P)
  | .call made => some made
  | .snapshot => none

def Served.act (served : Served P) : Action P → Served P
  | .call call => { served with current := (served.current.call call).value.2 }
  | .snapshot => { served with held := served.held ++ [served.current.table] }

/-- What is published, and what readers hold, after actions. -/
def serve (first : Table P) (actions : List (Action P)) : Served P :=
  actions.foldl Served.act { current := new first }

theorem current_serve (first : Table P) (actions : List (Action P)) :
    (serve first actions).current = after first (actions.filterMap Action.call?) := by
  induction actions using List.reverseRecOn with
  | nil => rfl
  | append_singleton actions action ih =>
      rw [List.filterMap_append, after_append, ← ih, serve, List.foldl_append, ← serve]
      cases action <;> rfl

/-- No action takes a snapshot away from its reader, or changes it. -/
theorem held_prefix_foldl (served : Served P) (actions : List (Action P)) :
    served.held <+: (actions.foldl Served.act served).held := by
  induction actions generalizing served with
  | nil => exact List.prefix_rfl
  | cons action actions ih =>
      refine List.IsPrefix.trans ?_ (ih (served.act action))
      cases action with
      | call call => exact List.prefix_rfl
      | snapshot => exact List.prefix_append _ _

/-- A snapshot stays the table that was published when it was taken. -/
theorem held_snapshot (first : Table P) (actions more : List (Action P)) :
    (serve first (actions ++ .snapshot :: more)).held[(serve first actions).held.length]? =
      some (after first (actions.filterMap Action.call?)).table := by
  have hprefix := held_prefix_foldl ((serve first actions).act .snapshot) more
  have hserve : serve first (actions ++ .snapshot :: more) =
      more.foldl Served.act ((serve first actions).act .snapshot) := List.foldl_append
  rw [hserve, ← current_serve]
  obtain ⟨rest, hrest⟩ := hprefix
  rw [← hrest]
  simp [Served.act]

/-- After any calls the generation counts the successful ones, and what is published is the table of
the last of these, whose schema and configuration are in force. One more call publishes the table
that it offers or fails for good, and a snapshot stays what it is whatever is done later. -/
theorem publication (first : Table P) (calls : List (Call P)) (call : Call P)
    (later : List (Call P)) (actions more : List (Action P)) :
    Holds first calls (outcomes first calls) (after first calls) ∧
    Settles (after first calls) (call.offer (inForce first calls))
      ((after first calls).call call).value ∧
    (∀ error, ((after first calls).call call).value.1 = .error error →
      (outcomes first (calls ++ call :: later)).eraseIdx calls.length =
          outcomes first (calls ++ later) ∧
        after first (calls ++ call :: later) = after first (calls ++ later)) ∧
    (serve first (actions ++ .snapshot :: more)).held[(serve first actions).held.length]? =
      some (after first (actions.filterMap Action.call?)).table := by
  have hholds := holds_after first calls
  refine ⟨hholds, ?_, fun error herror => outcomes_of_call_error herror later,
    held_snapshot first actions more⟩
  rw [← hholds.settings]
  exact call_settles _ call

def parcelRows : List (Row Nat) :=
  [{ keys := [.exact (.bool true)], payload := some 9 },
    { keys := [.exact (.bool false)], payload := some 5 }]

def parcelSchema : Schema where
  columns := [.exact "abroad"]

theorem publication_parcelRows :
    let first : Table Nat := .empty parcelSchema
    let clash : Call Nat := .rebuild (parcelRows ++ parcelRows)
    ((after first [.rebuild parcelRows]).call clash).value.1 =
      .error (.uniqueKeyViolation "abroad=true" "9" "9" (some 0) (some 2)) ∧
    (after first [.rebuild parcelRows]).generation = 2 ∧
    after first [.rebuild parcelRows, clash, .rebuild []] =
      after first [.rebuild parcelRows, .rebuild []] ∧
    (serve first [.call (.rebuild parcelRows), .snapshot, .call (.rebuild [])]).held[0]? =
      some (after first [.rebuild parcelRows]).table := by
  intro first clash
  have hclash : ((after first [.rebuild parcelRows]).call clash).value.1 =
      .error (.uniqueKeyViolation "abroad=true" "9" "9" (some 0) (some 2)) := by decide +kernel
  obtain ⟨hholds, -, hfailed, hheld⟩ := publication first [.rebuild parcelRows] clash
    [.rebuild []] [.call (.rebuild parcelRows)] [.call (.rebuild [])]
  have hcount : (outcomes first [.rebuild parcelRows]).countP Except.isOk = 1 := by decide +kernel
  exact ⟨hclash, hholds.generation.trans (congrArg (1 + ·) hcount), (hfailed _ hclash).2, hheld⟩

end PublishedTable

end DecisionTable
