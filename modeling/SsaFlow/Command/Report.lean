import SsaFlow.Command.Arguments
import SsaFlow.Command.Disk
import SsaFlow.Flow.Query
import SsaFlow.Ir.Listing
import SsaFlow.Ir.Saved
import SsaFlow.Ir.Validate
import SsaFlow.Text.Quoted

/-! # Reports

    What the command prints. The configuration is read first, then the program is
    loaded and checked, then the task is done; the first thing that goes wrong
    ends the work, and is told with its causes. Only the check of many programs
    goes on: it prints a line for each and fails at the end.
-/

namespace SsaFlow.Command

/-! ### Failures -/

/-- What went wrong, with the causes, nearest first. -/
structure Failure where
  /-- What went wrong. -/
  message : String
  /-- Why. -/
  causes : List String

namespace Failure

/-- A text with every line after the first set in. -/
def setIn (margin text : String) : String :=
  String.join (text.toList.map fun c => if c = '\n' then "\n" ++ margin else String.singleton c)

/-- The lines that tell a single cause, or several with their numbers. -/
def causeLines : List String → List String
  | [] => []
  | [cause] => ["    " ++ setIn "    " cause]
  | causes => causes.zipIdx.map fun c =>
      "    " ++ toString c.2 ++ ": " ++ setIn "       " c.1

/-- A failure as the command tells it last. -/
def report (f : Failure) : String :=
  let causes := match causeLines f.causes with
    | [] => ""
    | lines => "\n\nCaused by:\n" ++ "\n".intercalate lines
  "Error: " ++ f.message ++ causes ++ "\n"

/-- A failure in one line. -/
def line (f : Failure) : String := ": ".intercalate (f.message :: f.causes)

end Failure

/-- What the command prints, and how it fails if it does. -/
structure Report where
  /-- What is printed. -/
  out : String
  /-- The failure at the end. -/
  failure : Option Failure

/-! ### Loading -/

/-- Where to look for files: the entry that a path leads to. -/
abbrev Finder := String → Except DiskError Entry

/-- The text of a file. -/
def Finder.text (find : Finder) (path : String) : Except DiskError String :=
  match find path with
  | .ok (.file text) => text
  | .ok (.stream text) => text
  | .ok (.dir _) => .error .isDirectory
  | .error e => .error e

/-- What is told of a text that is not well-formed. -/
def malformed : String := "<invalid json>"

/-- The configuration to work with. -/
def configAt (find : Finder) : Option String → Except Failure FlowConfig
  | none => .ok .standard
  | some path =>
    match find.text path with
    | .error e => .error ⟨"failed to read config " ++ path, [e.text]⟩
    | .ok text =>
      match FlowConfig.load text with
      | some config => .ok config
      | none => .error ⟨"invalid config " ++ path, [malformed]⟩

/-- The program under a path, loaded and checked. -/
def programAt (find : Finder) (path : String) : Except Failure Program :=
  match find.text path with
  | .error e => .error ⟨"failed to load " ++ path, [e.text]⟩
  | .ok text =>
    match Program.load text with
    | .error .malformed => .error ⟨"failed to load " ++ path, [malformed]⟩
    | .error (.rejected e) => .error ⟨"failed to load " ++ path, [e.message]⟩
    | .ok p =>
      match p.validate with
      | .ok () => .ok p
      | .error e => .error ⟨path ++ " is not a well-formed program", [e.message]⟩

/-- The node that a text names. -/
def namedNode (g : FlowGraph) (text : String) : Except Failure Node :=
  match g.nodeOfText text with
  | .ok n => .ok n
  | .error e => .error ⟨"no instruction named " ++ Text.quote text, [e.message]⟩

/-! ### Tasks on one program -/

/-- Lines as a text. -/
def unlines (lines : List String) : String := String.join (lines.map (· ++ "\n"))

/-- A text filled up with blanks on the left. -/
def alignRight (width : Nat) (text : String) : String :=
  String.ofList (List.replicate (width - text.length) ' ') ++ text

/-- A text filled up with blanks on the right. -/
def alignLeft (width : Nat) (text : String) : String :=
  text ++ String.ofList (List.replicate (width - text.length) ' ')

/-- The lines on the nodes of a function. -/
def nodeLines (g : FlowGraph) (f : Function) : List String :=
  ("function " ++ f.name) :: (g.nodes f.id).map fun n =>
    "  " ++ alignRight 6 n.instr.text ++ "  " ++
      alignLeft 12 (((g.kind? n).map NodeKind.text).getD "") ++ " " ++ g.display n

/-- The lines that list nodes: all of them, or those of one function. -/
def listNodes (g : FlowGraph) : Option String → Except Failure (List String)
  | none => .ok (g.program.functions.values.flatMap (nodeLines g))
  | some name =>
    match g.namedFunction name with
    | .ok f => .ok (nodeLines g f)
    | .error e => .error ⟨e.message, []⟩

/-- The line on the flow between two instructions. -/
def tellFlow (g : FlowGraph) (source sink : String) : Except Failure (List String) := do
  let a ← namedNode g source
  let b ← namedNode g sink
  let verdict := if (g.flows a b).answer then "FLOWS" else "NO FLOW"
  return [verdict ++ " " ++ g.display a ++ " -> " ++ g.display b]

/-- The lines on what an instruction reaches. -/
def tellReach (g : FlowGraph) (source : String) : Except Failure (List String) := do
  let a ← namedNode g source
  let nodes := (g.reachFrom a).answer.mergeSort Node.le
  return (g.display a ++ " reaches " ++ toString nodes.length ++ " node(s)") ::
    nodes.map fun n => "  " ++ n.instr.text ++ "  " ++ g.display n

/-- The lines on what a branch guards. -/
def tellGuards (g : FlowGraph) (checked : String) (value : Bool) :
    Except Failure (List String) := do
  let a ← namedNode g checked
  let nodes := (g.guarded (.branchOn a.instr value)).answer.mergeSort Node.le
  if nodes.isEmpty then return ["no guarded nodes"]
  return (toString nodes.length ++ " guarded node(s)") :: nodes.map fun n =>
    "  " ++ n.instr.text ++ "  " ++ g.display n ++ "  " ++
      ((g.location? n).map Location.text).getD ""

/-! ### Checking many programs -/

/-- The failure to list the files under a path, because of what stands in the way. -/
def walkFailure (path : String) (o : Entry.Obstacle) : Failure :=
  ⟨"failed to walk " ++ path,
    ["IO error for operation on " ++ o.path ++ ": " ++ o.reason.text, o.reason.text]⟩

/-- The paths of the files to check under a path. -/
def filesUnder (find : Finder) (path : String) : Except Failure (List String) :=
  match find path with
  | .ok (.file _) => .ok [path]
  | .ok e => (e.programsIn path).mapError (walkFailure path)
  | .error reason => .error (walkFailure path ⟨path, reason⟩)

/-- The lines on one checked file. -/
def checkLines (verbose : Bool) (path : String) : Except Failure Program → List String
  | .ok p =>
    let counts := "   " ++ toString p.stats.functions ++ " function(s), " ++
      toString p.stats.blocks ++ " block(s), " ++ toString p.stats.instrs ++ " instruction(s)"
    (" VALID " ++ path) :: if verbose then [counts] else []
  | .error f => [" INVALID " ++ path, "   " ++ f.line]

/-- Check all programs under a path. -/
def checkAll (find : Finder) (verbose : Bool) (path : String) : Report :=
  match filesUnder find path with
  | .error f => ⟨"", some f⟩
  | .ok [] => ⟨"", some ⟨"no .json programs under " ++ path, []⟩⟩
  | .ok files =>
    let results := files.map fun file => (file, programAt find file)
    let bad := (results.filter fun r => !r.2.isOk).length
    ⟨unlines (results.flatMap fun r => checkLines verbose r.1 r.2),
      if bad = 0 then none
      else some ⟨toString bad ++ " of " ++ toString files.length ++
        " program(s) failed validation", []⟩⟩

/-! ### The command -/

/-- Do a task on one program. -/
def onProgram (find : Finder) (path : String) (task : Program → Except Failure String) : Report :=
  match programAt find path >>= task with
  | .ok out => ⟨out, none⟩
  | .error f => ⟨"", some f⟩

/-- Do what an invocation asks for. -/
def perform (find : Finder) (i : Invocation) : Report :=
  match configAt find i.config with
  | .error f => ⟨"", some f⟩
  | .ok config =>
    match i.task with
    | .dump => onProgram find i.input fun p => .ok p.text
    | .nodes name =>
      onProgram find i.input fun p => unlines <$> listNodes ⟨p, config, none⟩ name
    | .flow source sink =>
      onProgram find i.input fun p => unlines <$> tellFlow ⟨p, config, none⟩ source sink
    | .reach source =>
      onProgram find i.input fun p => unlines <$> tellReach ⟨p, config, none⟩ source
    | .guards checked value =>
      onProgram find i.input fun p => unlines <$> tellGuards ⟨p, config, none⟩ checked value
    | .validate => checkAll find i.verbose i.input

/-- What the command writes, and its exit code. -/
structure Response where
  /-- The exit code. -/
  code : UInt32
  /-- What goes to the standard output. -/
  out : String
  /-- What goes to the standard error. -/
  err : String

/-- The response that carries a report. -/
def Report.response (r : Report) : Response where
  code := if r.failure.isSome then 1 else 0
  out := r.out
  err := (r.failure.map Failure.report).getD ""

/-- The explanation of the command. -/
def helpText : String :=
  "irflow - local data-flow queries over SSA programs\n\n" ++
  "Usage: irflow [OPTIONS] <COMMAND>\n\n" ++
  "Commands:\n" ++
  "  dump INPUT                             Print a program in text form\n" ++
  "  nodes INPUT [-f NAME]                  List the data-flow nodes of a program\n" ++
  "  flow INPUT --from I --to I             Ask whether data flows between instructions\n" ++
  "  reach INPUT --from I                   List every node an instruction flows to\n" ++
  "  guards INPUT --checked I [--when BOOL] List the nodes a branch guards\n" ++
  "  validate INPUT                         Load and validate programs\n\n" ++
  "Options:\n" ++
  "      --config PATH  Flow configuration as a JSON file\n" ++
  "  -v, --verbose      Tell more\n" ++
  "  -h, --help         Print help\n" ++
  "  -V, --version      Print version\n"

/-- Answer a command line. -/
def respond (find : Finder) (args : List String) : Response :=
  match read args with
  | .run i => (perform find i).response
  | .help => ⟨0, helpText, ""⟩
  | .version => ⟨0, "irflow 0.1.0\n", ""⟩
  | .misuse => ⟨2, "", "error: unexpected arguments\n\n" ++ helpText⟩

end SsaFlow.Command
