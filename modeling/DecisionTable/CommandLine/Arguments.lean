/-!
# Command-line arguments

The grammar of the arguments. An option has a long name and a letter. A long option that takes a
value has it after an equals sign or as the next argument; letters may be written together, and the
first that takes a value takes what is left of the argument, less an equals sign in front, or else
the next argument. The next argument may not look like an option: it is either a lone dash or starts
with something else. After two dashes everything is a plain argument.

The first plain argument names the command. Every option but `--key` may be given once, and a file
is named by a plain argument that is not empty.

`scan` turns the arguments of a command into items, and `accept` goes through the items in their
order: help is shown where it is asked for, unless something before it is at fault.
-/

namespace DecisionTable.CommandLine

/-! ## Commands -/

inductive Command where
  | inspect (file format : String)
  | verify (file : String)
  | query (file : String) (keys : List String) (all : Bool) (default : Option String)
  | version
  deriving DecidableEq

/-- The file that a command reads. -/
def Command.file? : Command → Option String
  | .inspect file _ | .verify file | .query file .. => some file
  | .version => none

structure Invocation where
  verbose : Bool
  command : Command
  deriving DecidableEq

/-- Why the arguments start no command. -/
inductive Stop where
  /-- They do not fit the grammar. -/
  | usage
  /-- They ask for help. -/
  | help
  /-- They ask for the name and version of the program. -/
  | version
  deriving DecidableEq

/-! ## Options -/

inductive Opt where
  | verbose
  | format
  | key
  | all
  | default
  | help
  | version
  deriving DecidableEq

namespace Opt

def name : Opt → String
  | .verbose => "verbose"
  | .format => "format"
  | .key => "key"
  | .all => "all"
  | .default => "default"
  | .help => "help"
  | .version => "version"

def letter : Opt → Char
  | .verbose => 'v'
  | .format => 'f'
  | .key => 'k'
  | .all => 'a'
  | .default => 'd'
  | .help => 'h'
  | .version => 'V'

def takesValue : Opt → Bool
  | .format | .key | .default => true
  | .verbose | .all | .help | .version => false

/-- Whether the option may be given more than once. -/
def repeatable (opt : Opt) : Bool := opt == .key

end Opt

/-- What one argument, or an option and its value, amounts to. -/
inductive Item where
  | plain (text : String)
  | given (opt : Opt) (value : Option String)
  /-- An option that is unknown, lacks its value, or has one it does not take. -/
  | malformed
  deriving DecidableEq

/-! ## Scanning -/

/-- Whether an argument stands for options, or for the two dashes that end them. -/
def looksLikeOption (arg : String) : Bool :=
  match arg.toList with
  | '-' :: _ :: _ => true
  | _ => false

/-- Reads what stands after two dashes. An option may be left to await its value. -/
def readLong (options : List Opt) (chars : List Char) : List Item × Option Opt :=
  let (name, rest) := chars.span (· != '=')
  match options.find? fun opt => opt.name.toList == name, rest with
  | none, _ => ([.malformed], none)
  | some opt, [] => if opt.takesValue then ([], some opt) else ([.given opt none], none)
  | some opt, _ :: value =>
    if opt.takesValue then ([.given opt (some (String.ofList value))], none)
    else ([.malformed], none)

/-- Reads the letters after a single dash. -/
def readLetters (options : List Opt) : List Char → List Item × Option Opt
  | [] => ([], none)
  | letter :: rest =>
    match options.find? fun opt => opt.letter == letter with
    | none => ([.malformed], none)
    | some opt =>
      if opt.takesValue then
        match rest with
        | [] => ([], some opt)
        | '=' :: value => ([.given opt (some (String.ofList value))], none)
        | value => ([.given opt (some (String.ofList value))], none)
      else
        let (items, awaiting) := readLetters options rest
        (.given opt none :: items, awaiting)

/-- Reads an argument that is not the value of the one before. -/
def readArgument (options : List Opt) (arg : String) : List Item × Option Opt :=
  match arg.toList with
  | '-' :: '-' :: name => readLong options name
  | '-' :: letter :: letters => readLetters options (letter :: letters)
  | _ => ([.plain arg], none)

/-- Reads the arguments of a command, the first of which may be awaited as a value. -/
def scan (options : List Opt) (awaiting : Option Opt) : List String → List Item
  | [] => if awaiting.isSome then [.malformed] else []
  | arg :: rest =>
    match awaiting with
    | some opt =>
      if looksLikeOption arg then [.malformed]
      else .given opt (some arg) :: scan options none rest
    | none =>
      if arg = "--" then rest.map .plain
      else
        let (items, awaiting) := readArgument options arg
        items ++ scan options awaiting rest

/-! ## Parsing -/

/-- The plain arguments. -/
def plains (items : List Item) : List String :=
  items.filterMap fun
    | .plain text => some text
    | _ => none

/-- The values given for an option. -/
def valuesOf (opt : Opt) (items : List Item) : List String :=
  items.filterMap fun
    | .given opt' value => if opt' = opt then value else none
    | _ => none

/-- Whether an option is given. -/
def isGiven (opt : Opt) (items : List Item) : Bool :=
  items.any fun
    | .given opt' _ => opt' == opt
    | _ => false

/-- Adds an item to those before it, where at most `files` plain arguments are taken. -/
def accept (files : Nat) (before : List Item) (item : Item) : Except Stop (List Item) :=
  match item with
  | .malformed => throw .usage
  | .given .help _ => throw .help
  | .given .version _ => throw .version
  | .given opt _ =>
    if opt.repeatable || !isGiven opt before then return before ++ [item] else throw .usage
  | .plain text =>
    if (plains before).length < files && !text.isEmpty then return before ++ [item]
    else throw .usage

/-- The arguments of a command as items. -/
def itemsOf (options : List Opt) (files : Nat) (args : List String) : Except Stop (List Item) :=
  (scan options none args).foldlM (accept files) []

/-- The one file that a command takes. -/
def fileOf (items : List Item) : Except Stop String :=
  match plains items with
  | [file] => return file
  | _ => throw .usage

/-- The command of a name and its arguments, and whether these ask for verbosity. -/
def parseCommand (name : String) (args : List String) : Except Stop (Command × Bool) :=
  match name with
  | "inspect" => do
    let items ← itemsOf [.verbose, .help, .format] 1 args
    let format := (valuesOf .format items).headD "text"
    return (.inspect (← fileOf items) format, isGiven .verbose items)
  | "verify" => do
    let items ← itemsOf [.verbose, .help] 1 args
    return (.verify (← fileOf items), isGiven .verbose items)
  | "query" => do
    let items ← itemsOf [.verbose, .help, .key, .all, .default] 1 args
    let file ← fileOf items
    let keys := valuesOf .key items
    if keys.isEmpty || isGiven .all items && isGiven .default items then throw .usage
    return (.query file keys (isGiven .all items) (valuesOf .default items).head?,
      isGiven .verbose items)
  | "version" => do
    let items ← itemsOf [.verbose, .help] 0 args
    return (.version, isGiven .verbose items)
  | "help" =>
    match args with
    | [] => throw .help
    | [topic] =>
      if ["inspect", "verify", "query", "version", "help"].contains topic then throw .help
      else throw .usage
    | _ => throw .usage
  | _ => throw .usage

/-- Parses arguments that follow the options before the command. -/
def parseFrom (before : List Item) : List String → Except Stop Invocation
  | [] => throw .usage
  | arg :: rest =>
    if looksLikeOption arg then do
      parseFrom (← (readArgument [.verbose, .help, .version] arg).1.foldlM (accept 0) before) rest
    else do
      let (command, verbose) ← parseCommand arg rest
      return { verbose := isGiven .verbose before || verbose, command }

/-- Parses the arguments of the program. -/
def parse (args : List String) : Except Stop Invocation :=
  parseFrom [] args

end DecisionTable.CommandLine
