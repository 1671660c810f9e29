/-! # Command lines

    The arguments of the command: options that hold for every subcommand, a
    subcommand, its input, and its own options.

    * An option's value follows it, or stands behind an equals sign; a short
      option's value may follow it directly. A value that starts with a dash and
      is not a dash alone must stand behind an equals sign.
    * An option may be given once before the subcommand and once behind it; the
      later one counts. Two dashes end the options.
    * Arguments are read in order, and the first one that asks for help or for
      the version, or that is wrong, settles the matter.
-/

namespace SsaFlow.Command

/-- What is to be done. -/
inductive Task where
  /-- Print a program. -/
  | dump
  /-- List the nodes of a program, or of one function. -/
  | nodes (function : Option String)
  /-- Ask whether data flows from one instruction to another. -/
  | flow (source sink : String)
  /-- List everything that an instruction flows to. -/
  | reach (source : String)
  /-- List what a branch on an instruction guards. -/
  | guards (checked : String) (value : Bool)
  /-- Load and check programs. -/
  | validate

/-- A command line that makes sense. -/
structure Invocation where
  /-- The file with the flow configuration. -/
  config : Option String
  /-- Whether to tell more. -/
  verbose : Bool
  /-- The file or directory to work on. -/
  input : String
  /-- What is to be done. -/
  task : Task

/-- What a command line asks for. -/
inductive Request where
  /-- Work. -/
  | run (invocation : Invocation)
  /-- An explanation of the command. -/
  | help
  /-- The version. -/
  | version
  /-- Nothing that makes sense. -/
  | misuse

/-! ### Options -/

/-- The options. -/
inductive Opt where
  /-- The flow configuration. -/
  | config
  /-- Tell more. -/
  | verbose
  /-- Explain. -/
  | help
  /-- Tell the version. -/
  | version
  /-- Only this function. -/
  | function
  /-- Where data comes from. -/
  | source
  /-- Where data goes to. -/
  | sink
  /-- The instruction that is checked. -/
  | checked
  /-- The outcome that checks it. -/
  | outcome
  deriving DecidableEq

namespace Opt

/-- The long name. -/
def long : Opt → String
  | config => "config"
  | verbose => "verbose"
  | help => "help"
  | version => "version"
  | function => "function"
  | source => "from"
  | sink => "to"
  | checked => "checked"
  | outcome => "when"

/-- The short name. -/
def short : Opt → Option Char
  | verbose => some 'v'
  | help => some 'h'
  | version => some 'V'
  | function => some 'f'
  | _ => none

/-- Whether the option has a value. -/
def hasValue : Opt → Bool
  | verbose => false
  | help => false
  | version => false
  | _ => true

/-- Whether a value makes sense: paths are not empty, outcomes are truth
    values. -/
def accepts : Opt → String → Bool
  | config, value => value ≠ ""
  | outcome, value => value = "true" || value = "false"
  | _, _ => true

end Opt

/-! ### One level of arguments -/

/-- What has been read on one level: options with their values, the input, and
    whether the options have ended. -/
structure Seen where
  /-- The options so far, with their values. -/
  options : List (Opt × String)
  /-- The input. -/
  input : Option String
  /-- The option that waits for its value. -/
  waiting : Option Opt
  /-- Whether two dashes have ended the options. -/
  ended : Bool

namespace Seen

/-- Nothing has been read. -/
def nothing : Seen := ⟨[], none, none, false⟩

/-- The value of an option. -/
def value? (s : Seen) (o : Opt) : Option String :=
  (s.options.find? fun e => e.1 = o).map Prod.snd

/-- Whether an option is given. -/
def has (s : Seen) (o : Opt) : Bool := (s.value? o).isSome

end Seen

/-- How the reading of an argument ends. -/
inductive Reading where
  /-- There may be more. -/
  | more (seen : Seen)
  /-- The matter is settled. -/
  | settled (request : Request)

/-- Take an option with its value. -/
def take (s : Seen) (o : Opt) (value : String) : Reading :=
  if s.has o || !o.accepts value then .settled .misuse
  else .more { s with options := s.options ++ [(o, value)], waiting := none }

/-- Take an option without a value. -/
def takeFlag (s : Seen) (o : Opt) : Reading :=
  match o with
  | .help => .settled .help
  | .version => .settled .version
  | _ => take s o ""

/-- Take a long option: its name, and the value behind the equals sign. -/
def takeLong (known : List Opt) (s : Seen) (name : String) (attached : Option String) : Reading :=
  match known.find? fun o => o.long = name with
  | none => .settled .misuse
  | some o =>
    match o.hasValue, attached with
    | false, none => takeFlag s o
    | false, some _ => .settled .misuse
    | true, some value => take s o value
    | true, none => .more { s with waiting := some o }

/-- Take a group of short options; one that has a value takes the rest of the
    group. -/
def takeShort (known : List Opt) (s : Seen) : List Char → Reading
  | [] => .more s
  | c :: rest =>
    match known.find? fun o => o.short = some c with
    | none => .settled .misuse
    | some o =>
      if o.hasValue then
        match rest with
        | [] => .more { s with waiting := some o }
        | '=' :: value => take s o (String.ofList value)
        | value => take s o (String.ofList value)
      else
        match takeFlag s o with
        | .more s => takeShort known s rest
        | settled => settled

/-- The name and the value of a long option. -/
def splitLong (cs : List Char) : String × Option String :=
  match cs.span (· ≠ '=') with
  | (name, _ :: value) => (String.ofList name, some (String.ofList value))
  | (name, []) => (String.ofList name, none)

/-- The kinds of arguments. -/
inductive Shape where
  /-- Two dashes. -/
  | ender
  /-- A long option, without its dashes. -/
  | long (body : List Char)
  /-- Short options, without their dash. -/
  | short (body : List Char)
  /-- Anything else. -/
  | word

/-- The kind of an argument. -/
def shapeOf (arg : String) : Shape :=
  match arg.toList with
  | ['-', '-'] => .ender
  | '-' :: '-' :: body => .long body
  | '-' :: c :: body => .short (c :: body)
  | _ => .word

/-- Take a word that is no option and no option's value. -/
def takeWord (s : Seen) (arg : String) : Reading :=
  match s.input with
  | some _ => .settled .misuse
  | none => if arg = "" then .settled .misuse else .more { s with input := some arg }

/-- Read one argument behind the subcommand. -/
def readArg (known : List Opt) (s : Seen) (arg : String) : Reading :=
  if s.ended then
    match s.waiting with
    | some _ => .settled .misuse
    | none => takeWord s arg
  else
    match shapeOf arg, s.waiting with
    | .word, some o => take s o arg
    | .ender, _ => .more { s with ended := true }
    | _, some _ => .settled .misuse
    | .long body, none => takeLong known s (splitLong body).1 (splitLong body).2
    | .short body, none => takeShort known s body
    | .word, none => takeWord s arg

/-- Read all arguments behind the subcommand. -/
def readArgs (known : List Opt) (s : Seen) : List String → Reading
  | [] => .more s
  | arg :: rest =>
    match readArg known s arg with
    | .more s => readArgs known s rest
    | settled => settled

/-! ### Subcommands -/

/-- The subcommands. -/
inductive Subcommand where
  /-- Print a program. -/
  | dump
  /-- List nodes. -/
  | nodes
  /-- Ask about flow. -/
  | flow
  /-- List what is reached. -/
  | reach
  /-- List what is guarded. -/
  | guards
  /-- Check programs. -/
  | validate
  deriving DecidableEq

namespace Subcommand

/-- All subcommands. -/
def all : List Subcommand := [dump, nodes, flow, reach, guards, validate]

/-- The name. -/
def name : Subcommand → String
  | dump => "dump"
  | nodes => "nodes"
  | flow => "flow"
  | reach => "reach"
  | guards => "guards"
  | validate => "validate"

/-- The subcommand of a name. -/
def ofName? (name : String) : Option Subcommand := all.find? fun c => c.name = name

/-- The options that only this subcommand has. -/
def ownOptions : Subcommand → List Opt
  | nodes => [.function]
  | flow => [.source, .sink]
  | reach => [.source]
  | guards => [.checked, .outcome]
  | _ => []

/-- The options behind the subcommand. -/
def options (c : Subcommand) : List Opt := [.config, .verbose, .help] ++ c.ownOptions

/-- What is to be done, if every option that is needed is there. -/
def task? (c : Subcommand) (s : Seen) : Option Task :=
  match c with
  | dump => some .dump
  | nodes => some (.nodes (s.value? .function))
  | flow => do
    let source ← s.value? .source
    let sink ← s.value? .sink
    return .flow source sink
  | reach => (s.value? .source).map .reach
  | guards => (s.value? .checked).map fun checked => .guards checked (s.value? .outcome ≠ some "false")
  | validate => some .validate

end Subcommand

/-- What the arguments behind a subcommand ask for, given those before it. -/
def readSubcommand (c : Subcommand) (before : Seen) (args : List String) : Request :=
  match readArgs c.options .nothing args with
  | .settled request => request
  | .more s =>
    match s.waiting, s.input, c.task? s with
    | none, some input, some task =>
      .run ⟨(s.value? .config).or (before.value? .config), s.has .verbose || before.has .verbose,
        input, task⟩
    | _, _, _ => .misuse

/-- What a request for help asks for: the command, or a subcommand. -/
def readHelp : List String → Request
  | [] => .help
  | [name] => if name = "help" || (Subcommand.ofName? name).isSome then .help else .misuse
  | _ => .misuse

/-- The options before the subcommand. -/
def topOptions : List Opt := [.config, .verbose, .help, .version]

/-- What a command line asks for, given what has been read before. -/
def readTop (s : Seen) : List String → Request
  | [] => .misuse
  | arg :: rest =>
    match s.waiting, shapeOf arg with
    | some o, .word =>
      match take s o arg with
      | .more s => readTop s rest
      | .settled request => request
    | some _, _ => .misuse
    | none, .word =>
      if arg = "help" then readHelp rest
      else
        match Subcommand.ofName? arg with
        | some c => readSubcommand c s rest
        | none => .misuse
    | none, .long body =>
      match takeLong topOptions s (splitLong body).1 (splitLong body).2 with
      | .more s => readTop s rest
      | .settled request => request
    | none, .short body =>
      match takeShort topOptions s body with
      | .more s => readTop s rest
      | .settled request => request
    | none, .ender => .misuse

/-- What a command line asks for. -/
def read (args : List String) : Request := readTop .nothing args

end SsaFlow.Command
