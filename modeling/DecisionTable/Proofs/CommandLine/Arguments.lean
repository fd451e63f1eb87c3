import DecisionTable.CommandLine.Run
import DecisionTable.Proofs.Text.Decimal
import Mathlib.Data.List.TakeDrop
import Mathlib.Data.List.TakeWhile

/-!
# The keys of a query as arguments

An option that takes a value has it after an equals sign, or as the next argument. After an equals
sign every text is a value. As the next argument, a text that starts with a dash and goes on is
taken for an option, so the one before it lacks its value and the arguments are refused. That
concerns negative integers.

* `OptionLike` : a text that starts with a dash and goes on;
* `scan_separate`, `scan_attached` : an option and its value, in two arguments and in one;
* `separate`, `attached` : the arguments of a query whose keys are given in these two ways;
* `Delivers`, `Refused` : what arguments may come to;
* `query_arguments` : which keys are delivered.
-/

namespace DecisionTable.CommandLine

variable {options : List Opt} {opt : Opt} {file arg value : String} {args rest keys : List String}
  {items before : List Item}

/-! ## Texts that look like options -/

def OptionLike (s : String) : Prop :=
  ∃ c cs, s.toList = '-' :: c :: cs

theorem looksLikeOption_iff : looksLikeOption arg = true ↔ OptionLike arg := by
  unfold looksLikeOption OptionLike
  split
  next c cs h => exact iff_of_true rfl ⟨c, cs, h⟩
  next h => exact iff_of_false Bool.false_ne_true fun ⟨c, cs, hdash⟩ => h c cs hdash

theorem looksLikeOption_eq_false_iff : looksLikeOption arg = false ↔ ¬ OptionLike arg := by
  rw [← looksLikeOption_iff, Bool.not_eq_true]

/-- Of the integers, the negative ones are written like options. -/
theorem optionLike_toString_iff (n : Int64) : OptionLike (toString n.toInt) ↔ n < 0 := by
  rw [Int64.lt_iff_toInt_lt, Int64.toInt_zero]
  unfold OptionLike
  cases n.toInt with
  | ofNat m =>
      refine iff_of_false ?_ (Int.not_lt.mpr (Int.natCast_nonneg m))
      rintro ⟨c, cs, h⟩
      exact (Text.numeral_repr m).head?_ne.2 (congrArg List.head? h)
  | negSucc m =>
      refine iff_of_true ?_ (Int.negSucc_lt_zero m)
      rw [Text.toList_toString_negSucc]
      obtain ⟨c, cs, h⟩ := List.exists_cons_of_ne_nil (Text.numeral_repr (m + 1)).ne_nil
      exact ⟨c, cs, congrArg ('-' :: ·) h⟩

/-! ## One option and its value -/

theorem Opt.name_inj {opt opt' : Opt} (h : opt.name = opt'.name) : opt = opt' := by
  cases opt <;> cases opt' <;> first | rfl | exact absurd h (by decide)

theorem Opt.not_equals (opt : Opt) : ∀ c ∈ opt.name.toList, (c != '=') = true :=
  List.all_eq_true.mp (by cases opt <;> decide)

/-- An option is found by its name. -/
theorem find?_name (h : opt ∈ options) :
    (options.find? fun opt' => opt'.name.toList == opt.name.toList) = some opt := by
  induction options with
  | nil => cases h
  | cons first options ih =>
      rw [List.find?_cons]
      by_cases hfirst : first = opt
      · rw [hfirst, beq_self_eq_true]
      · have hname : (first.name.toList == opt.name.toList) = false := by
          rw [beq_eq_false_iff_ne, ne_eq, String.toList_inj]
          exact fun h => hfirst (Opt.name_inj h)
        rw [hname]
        exact ih (List.mem_of_ne_of_mem (Ne.symm hfirst) h)

theorem readArgument_plain (h : ¬ OptionLike arg) :
    readArgument options arg = ([.plain arg], none) := by
  unfold readArgument
  split
  next name hname => exact absurd ⟨_, _, hname⟩ h
  next letter letters _ hletters => exact absurd ⟨_, _, hletters⟩ h
  next => rfl

/-- An option that takes a value awaits it. -/
theorem readArgument_name (h : opt ∈ options) (hvalue : opt.takesValue = true) :
    readArgument options ("--" ++ opt.name) = ([], some opt) := by
  have hspan : opt.name.toList.span (· != '=') = (opt.name.toList, []) := by
    rw [List.span_eq_takeWhile_dropWhile, List.takeWhile_eq_self_iff.mpr opt.not_equals,
      List.dropWhile_eq_nil_iff.mpr opt.not_equals]
  have hchars : ("--" ++ opt.name).toList = '-' :: '-' :: opt.name.toList := String.toList_append
  unfold readArgument
  rw [hchars]
  simp only [readLong, hspan, find?_name h, hvalue, if_true]

/-- What follows the equals sign is the value. -/
theorem readArgument_attached (h : opt ∈ options) (hvalue : opt.takesValue = true)
    (value : String) : readArgument options ("--" ++ opt.name ++ "=" ++ value) =
      ([.given opt (some value)], none) := by
  have hspan : (opt.name.toList ++ '=' :: value.toList).span (· != '=') =
      (opt.name.toList, '=' :: value.toList) := by
    rw [List.span_eq_takeWhile_dropWhile, List.takeWhile_append_of_pos opt.not_equals,
      List.dropWhile_append_of_pos opt.not_equals]
    simp
  have hchars : ("--" ++ opt.name ++ "=" ++ value).toList =
      '-' :: '-' :: (opt.name.toList ++ '=' :: value.toList) := by
    simp [String.toList_append]
  unfold readArgument
  rw [hchars]
  simp only [readLong, hspan, find?_name h, hvalue, if_true, String.ofList_toList]

/-! ## Scanning -/

theorem scan_plain (h : ¬ OptionLike arg) (rest : List String) :
    scan options none (arg :: rest) = .plain arg :: scan options none rest := by
  have hdashes : arg ≠ "--" := by
    rintro rfl
    exact h ⟨_, _, rfl⟩
  rw [scan]
  simp only [hdashes, if_false, readArgument_plain h, List.singleton_append]

/-- An option and its value in two arguments. -/
theorem scan_separate (h : opt ∈ options) (hvalue : opt.takesValue = true) (value : String)
    (rest : List String) : scan options none (("--" ++ opt.name) :: value :: rest) =
      if looksLikeOption value then [.malformed]
      else .given opt (some value) :: scan options none rest := by
  have hdashes : "--" ++ opt.name ≠ "--" := by cases opt <;> decide
  rw [scan]
  simp only [hdashes, if_false, readArgument_name h hvalue, List.nil_append]
  rfl

/-- An option and its value in one argument. -/
theorem scan_attached (h : opt ∈ options) (hvalue : opt.takesValue = true) (value : String)
    (rest : List String) : scan options none (("--" ++ opt.name ++ "=" ++ value) :: rest) =
      .given opt (some value) :: scan options none rest := by
  have hdashes : "--" ++ opt.name ++ "=" ++ value ≠ "--" := by
    intro heq
    have hlength := congrArg String.length heq
    simp only [String.length_append] at hlength
    change 2 + opt.name.length + 1 + value.length = 2 at hlength
    omega
  rw [scan]
  simp only [hdashes, if_false, readArgument_attached h hvalue, List.singleton_append]

/-! ## Arguments of a query -/

/-- The arguments of a query that gives each key in two of them. -/
def separate (file : String) (keys : List String) : List String :=
  "query" :: file :: keys.flatMap fun key => ["--key", key]

/-- The arguments of a query that gives each key in one of them. -/
def attached (file : String) (keys : List String) : List String :=
  "query" :: file :: keys.map fun key => "--key=" ++ key

def queryOptions : List Opt := [.verbose, .help, .key, .all, .default]

def keyItems (keys : List String) : List Item :=
  keys.map fun key => .given .key (some key)

theorem scan_keys_attached (keys : List String) :
    scan queryOptions none (keys.map fun key => "--key=" ++ key) = keyItems keys := by
  induction keys with
  | nil => rfl
  | cons key keys ih =>
      have hstep := scan_attached (by decide : Opt.key ∈ queryOptions) rfl key
        (keys.map fun key => "--key=" ++ key)
      rw [ih] at hstep
      exact hstep

/-- Keys that do not look like options are scanned as they are, up to the first that does. -/
theorem scan_keys_separate (keys : List String) :
    scan queryOptions none (keys.flatMap fun key => ["--key", key]) =
      keyItems (keys.takeWhile fun key => !looksLikeOption key) ++
        if keys.any looksLikeOption then [.malformed] else [] := by
  induction keys with
  | nil => rfl
  | cons key keys ih =>
      have hstep := scan_separate (by decide : Opt.key ∈ queryOptions) rfl key
        (keys.flatMap fun key => ["--key", key])
      rw [ih] at hstep
      refine hstep.trans ?_
      cases hkey : looksLikeOption key <;> simp [keyItems, hkey]

/-- Every key is accepted, however many there are. -/
theorem accept_keys (files : Nat) (before : List Item) (keys : List String) :
    (keyItems keys).foldlM (accept files) before = .ok (before ++ keyItems keys) := by
  induction keys generalizing before with
  | nil => exact congrArg Except.ok (List.append_nil before).symm
  | cons key keys ih =>
      have hkey : accept files before (.given .key (some key)) =
          .ok (before ++ [.given .key (some key)]) := rfl
      change (accept files before (.given .key (some key)) >>= fun items =>
        (keyItems keys).foldlM (accept files) items) = _
      rw [hkey]
      refine (ih _).trans ?_
      rw [List.append_assoc]
      rfl

structure FileName (file : String) : Prop where
  nonempty : file ≠ ""
  plain : ¬ OptionLike file

/-- Arguments that run a query of a file with these keys and nothing else: without `--all`, without
a default. -/
structure Delivers (args : List String) (file : String) (keys : List String) : Prop where
  parsed : parse args = .ok { verbose := false, command := .query file keys false none }
  run : ∀ files, run args files = runQuery file keys false none (files file)

/-- Arguments that fit no command, so that no file is read. -/
structure Refused (args : List String) : Prop where
  parsed : parse args = .error .usage
  run : ∀ files, run args files = pure Stop.usage.outcome

theorem Delivers.of_parsed
    (h : parse args = .ok { verbose := false, command := .query file keys false none }) :
    Delivers args file keys where
  parsed := h
  run files := by
    rw [CommandLine.run, h]
    rfl

theorem Refused.of_parsed (h : parse args = .error .usage) : Refused args where
  parsed := h
  run files := by
    rw [CommandLine.run, h]

theorem parse_query (args : List String) : parse ("query" :: args) =
    (parseCommand "query" args).map fun command =>
      { verbose := command.2, command := command.1 } := by
  have hplain : looksLikeOption "query" = false := by decide
  rw [parse, parseFrom, hplain]
  cases parseCommand "query" args <;> rfl

/-! ## A file and keys -/

theorem fileOf_items (file : String) (keys : List String) :
    fileOf (.plain file :: keyItems keys) = .ok file := by
  have hplains : plains (keyItems keys) = [] := by
    induction keys with
    | nil => rfl
    | cons key keys ih => exact ih
  have hfirst : plains (.plain file :: keyItems keys) = file :: plains (keyItems keys) := rfl
  rw [fileOf, hfirst, hplains]
  rfl

theorem valuesOf_key_items (file : String) (keys : List String) :
    valuesOf .key (.plain file :: keyItems keys) = keys := by
  induction keys with
  | nil => rfl
  | cons key keys ih => exact congrArg (key :: ·) ih

/-- No other option is given. -/
theorem isGiven_items (h : opt ≠ .key) (file : String) (keys : List String) :
    isGiven opt (.plain file :: keyItems keys) = false := by
  simp [isGiven, keyItems, h.symm]

theorem valuesOf_items (h : opt ≠ .key) (file : String) (keys : List String) :
    valuesOf opt (.plain file :: keyItems keys) = [] := by
  simp [valuesOf, keyItems, h.symm]

/-- A file and keys are a query, which asks for no more. -/
theorem parse_of_items (hkeys : keys ≠ [])
    (hitems : itemsOf queryOptions 1 args = .ok (.plain file :: keyItems keys)) :
    parse ("query" :: args) =
      .ok { verbose := false, command := .query file keys false none } := by
  have hempty : keys.isEmpty = false := List.isEmpty_eq_false_iff.mpr hkeys
  have hcommand : parseCommand "query" args = .ok (.query file keys false none, false) := by
    change (itemsOf queryOptions 1 args >>= _) = _
    rw [hitems]
    change (fileOf _ >>= _) = _
    rw [fileOf_items]
    change (if (valuesOf .key _).isEmpty || _ then _ else _) = _
    simp only [valuesOf_key_items, hempty, valuesOf_items (by decide : Opt.default ≠ .key),
      isGiven_items (by decide : Opt.all ≠ .key), isGiven_items (by decide : Opt.default ≠ .key),
      isGiven_items (by decide : Opt.verbose ≠ .key)]
    rfl
  rw [parse_query, hcommand]
  rfl

theorem parse_of_stop {stop : Stop} (hitems : itemsOf queryOptions 1 args = .error stop) :
    parse ("query" :: args) = .error stop := by
  have hcommand : parseCommand "query" args = .error stop := by
    change (itemsOf queryOptions 1 args >>= _) = _
    rw [hitems]
    rfl
  rw [parse_query, hcommand]
  rfl

/-- A file that is followed by keys is accepted with them, and what comes after them decides. -/
theorem itemsOf_file (hfile : FileName file) {rest : List Item}
    (hscan : scan queryOptions none args = keyItems keys ++ rest) :
    itemsOf queryOptions 1 (file :: args) =
      rest.foldlM (accept 1) (.plain file :: keyItems keys) := by
  have hnonempty : file.isEmpty = false := by simp [hfile.nonempty]
  have haccept : accept 1 [] (.plain file) = .ok [.plain file] := by
    simp [accept, plains, hnonempty]
    rfl
  rw [itemsOf, scan_plain hfile.plain, hscan]
  change (accept 1 [] (.plain file) >>= fun items =>
    (keyItems keys ++ rest).foldlM (accept 1) items) = _
  rw [haccept]
  change (keyItems keys ++ rest).foldlM (accept 1) [.plain file] = _
  rw [List.foldlM_append, accept_keys]
  rfl

/-! ## The two forms -/

/-- Keys that do not look like options are delivered in two arguments each. With one that does, the
arguments are refused. -/
theorem separate_keys (hfile : FileName file) (hkeys : keys ≠ []) :
    ((∀ key ∈ keys, ¬ OptionLike key) → Delivers (separate file keys) file keys) ∧
      ((∃ key ∈ keys, OptionLike key) → Refused (separate file keys)) := by
  have hscan := scan_keys_separate keys
  constructor
  · intro hplain
    have hlooks : ∀ key ∈ keys, looksLikeOption key = false :=
      fun key hkey => looksLikeOption_eq_false_iff.mpr (hplain key hkey)
    have hany : keys.any looksLikeOption = false := by simpa using hlooks
    have hall : (keys.takeWhile fun key => !looksLikeOption key) = keys :=
      List.takeWhile_eq_self_iff.mpr fun key hkey => by simp [hlooks key hkey]
    rw [hany, hall] at hscan
    exact .of_parsed (parse_of_items hkeys (itemsOf_file hfile hscan))
  · rintro ⟨key, hkey, hlike⟩
    have hany : keys.any looksLikeOption = true :=
      List.any_eq_true.mpr ⟨key, hkey, looksLikeOption_iff.mpr hlike⟩
    rw [hany] at hscan
    exact .of_parsed (parse_of_stop (itemsOf_file hfile hscan))

/-- Every key is delivered in one argument. -/
theorem attached_keys (hfile : FileName file) (hkeys : keys ≠ []) :
    Delivers (attached file keys) file keys := by
  have hscan := (scan_keys_attached keys).trans (List.append_nil _).symm
  exact .of_parsed (parse_of_items hkeys (itemsOf_file hfile hscan))

/-- A query with each key in an argument of its own is accepted, and runs with just these keys,
unless one of them starts with a dash and goes on; then it is refused. Of the integers that concerns
the negative ones. Attached by an equals sign, all keys are delivered. -/
theorem query_arguments (hfile : FileName file) (hkeys : keys ≠ []) :
    ((∀ key ∈ keys, ¬ OptionLike key) → Delivers (separate file keys) file keys) ∧
    ((∃ key ∈ keys, OptionLike key) → Refused (separate file keys)) ∧
    Delivers (attached file keys) file keys ∧
    ∀ n : Int64, OptionLike (toString n.toInt) ↔ n < 0 := by
  obtain ⟨hdelivers, hrefused⟩ := separate_keys hfile hkeys
  exact ⟨hdelivers, hrefused, attached_keys hfile hkeys, optionLike_toString_iff⟩

/-- A negative amount is refused as the next argument, and delivered after an equals sign. -/
theorem query_arguments_negative :
    let file := "rates.json"
    let keys := ["A", "-5"]
    separate file keys = ["query", "rates.json", "--key", "A", "--key", "-5"] ∧
      attached file keys = ["query", "rates.json", "--key=A", "--key=-5"] ∧
      Refused (separate file keys) ∧ Delivers (attached file keys) file keys := by
  intro file keys
  have hfile : FileName file := ⟨by decide, by rw [← looksLikeOption_eq_false_iff]; decide⟩
  have hkeys : keys ≠ [] := List.cons_ne_nil _ _
  have hlike : ∃ key ∈ keys, OptionLike key := ⟨"-5", by decide, looksLikeOption_iff.mp (by decide)⟩
  obtain ⟨-, hrefused, hattached, -⟩ := query_arguments hfile hkeys
  exact ⟨rfl, rfl, hrefused hlike, hattached⟩

/-- The keys of a query are not always delivered in arguments of their own: minus five is not, which
is how an integer is written. -/
theorem negative_key_refused :
    toString (-5 : Int64).toInt = "-5" ∧
      parse ["query", "rates.json", "--key", "-5"] = .error .usage ∧
      ¬ ∀ file keys, FileName file → keys ≠ [] → Delivers (separate file keys) file keys := by
  have hparse : parse ["query", "rates.json", "--key", "-5"] = .error .usage := by decide
  refine ⟨by decide, hparse, fun hall => ?_⟩
  have hfile : FileName "rates.json" := ⟨by decide, by rw [← looksLikeOption_eq_false_iff]; decide⟩
  have hdelivers := (hall "rates.json" ["-5"] hfile (List.cons_ne_nil _ _)).parsed
  cases hparse.symm.trans hdelivers

end DecisionTable.CommandLine
