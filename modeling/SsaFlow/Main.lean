import SsaFlow.Command.Report

/-! # The command

    Reads the files that a command line names, asks for the response, and writes
    it. -/

namespace SsaFlow.Command

/-- The reason behind a failed access. -/
def reasonOf : IO.Error → DiskError
  | .noFileOrDirectory .. => .notFound
  | .inappropriateType _ _ "not a directory" => .notDirectory
  | .inappropriateType .. => .isDirectory
  | .invalidArgument _ _ "name too long" => .nameTooLong
  | .permissionDenied .. => .other "Permission denied (os error 13)"
  | e => .other (toString e)

/-- Read the text that a path leads to. -/
def fetchText (path : String) : IO (Except DiskError String) := do
  try
    match String.fromUTF8? (← IO.FS.readBinFile path) with
    | some text => return .ok text
    | none => return .error .notText
  catch e => return .error (reasonOf e)

/-- The names in a directory and its subdirectories, without the texts. Links are
    not followed. -/
partial def fetchNames (path : String) : IO Entry := do
  let place ← IO.FS.realPath path
  let entries ← (← place.readDir).toList.mapM fun e => do
    match (← e.path.symlinkMetadata).type with
    | .dir => return (e.fileName, ← fetchNames e.path.toString)
    | .file => return (e.fileName, Entry.file (.ok ""))
    | _ => return (e.fileName, Entry.stream (.ok ""))
  return .dir entries

/-- What stands at the end of a path; none if nothing can be reached there. -/
def typeAt (path : String) : IO (Option IO.FS.FileType) := do
  try return some (← (← IO.FS.realPath path).metadata).type
  catch _ => return none

/-- Look a path up on the disk; a directory with the names below it, if `deep` is set. -/
def fetch (deep : Bool) (path : String) : IO (Except DiskError Entry) := do
  if Entry.longestPath < path.utf8ByteSize then return .error .nameTooLong
  try
    match ← typeAt path with
    | some .dir => return .ok (← if deep then fetchNames path else pure (.dir []))
    | some .file => return .ok (.file (← fetchText path))
    | some _ => return .ok (.stream (← fetchText path))
    | none => return .file <$> .ok <$> (← fetchText path)
  catch e => return .error (reasonOf e)

/-- The look-ups that a command line needs. -/
def finderFor (args : List String) : IO Finder := do
  match read args with
  | .run i =>
    let input ← fetch (i.task matches .validate) i.input
    let programs := match input with
      | .ok e => (e.programsIn i.input).toOption.getD []
      | .error _ => []
    let others ← (i.config.toList ++ programs).mapM fun path => do
      return (path, ← fetch false path)
    let found := (i.input, input) :: others
    return fun path => (found.lookup path).getD (.error .notFound)
  | _ => return fun _ => .error .notFound

end SsaFlow.Command

/-- Answer the command line. -/
def main (args : List String) : IO UInt32 := do
  let response := SsaFlow.Command.respond (← SsaFlow.Command.finderFor args) args
  IO.print response.out
  IO.eprint response.err
  return response.code
