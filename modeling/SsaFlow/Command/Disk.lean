/-! # Files and directories

    A tree of named files and directories, and how a path leads through it: the
    parts between slashes are followed one by one, a dot stays, two dots go back,
    and a part behind a file leads nowhere. Names and whole paths have a greatest
    length. A path that leaves the tree comes to what every system has.
-/

namespace SsaFlow.Command

/-- Why a path does not lead to what it should. -/
inductive DiskError where
  /-- There is nothing. -/
  | notFound
  /-- A part on the way is a file. -/
  | notDirectory
  /-- There is a directory in place of a file. -/
  | isDirectory
  /-- A part, or the whole path, is longer than is allowed. -/
  | nameTooLong
  /-- What is there is no text. -/
  | notText
  /-- Some other reason, in words. -/
  | other (text : String)

/-- A reason as it is shown. -/
def DiskError.text : DiskError → String
  | notFound => "No such file or directory (os error 2)"
  | notDirectory => "Not a directory (os error 20)"
  | isDirectory => "Is a directory (os error 21)"
  | nameTooLong => "File name too long (os error 36)"
  | notText => "stream did not contain valid UTF-8"
  | other text => text

/-- What can stand at the end of a path. -/
inductive Entry where
  /-- A file with its text, or why that cannot be read. -/
  | file (text : Except DiskError String)
  /-- Something else that can be read, such as a device, with what it gives. -/
  | stream (text : Except DiskError String)
  /-- A directory with its entries. -/
  | dir (entries : List (String × Entry))

namespace Entry

/-! ### Paths -/

/-- The parts of a path. -/
def parts (path : String) : List String :=
  (path.toList.splitOn '/').map String.ofList

/-- The greatest length of a name, in bytes. -/
def longestName : Nat := 255

/-- The greatest length of a path, in bytes. -/
def longestPath : Nat := 4095

/-- Whether a part of a path leads to where it starts. -/
def stays (part : String) : Bool := part = "" || part = "."

/-- What lies above a tree: of all that may be there, only what every system has. -/
def outside : Entry := .dir [("dev", .dir [("null", .stream (.ok ""))]), ("tmp", .dir [])]

/-- Follow the parts of a path from an entry; `above` holds the directories on
    the way, innermost first. Above the outermost there is `outside`. -/
def follow (above : List Entry) (e : Entry) : List String → Except DiskError Entry
  | [] => .ok e
  | part :: rest =>
    match e with
    | dir entries =>
      if stays part then follow above e rest
      else if part = ".." then
        match above with
        | parent :: above => follow above parent rest
        | [] => follow [] outside rest
      else if longestName < part.utf8ByteSize then .error .nameTooLong
      else
        match entries.find? fun child => child.1 = part with
        | some child => follow (e :: above) child.2 rest
        | none => .error .notFound
    | _ => .error .notDirectory

/-- The entry at the end of a path. It starts here, or outside if the path starts
    with a slash. -/
def find (root : Entry) (path : String) : Except DiskError Entry :=
  if longestPath < path.utf8ByteSize then .error .nameTooLong
  else (if path.startsWith "/" then outside else root).follow [] (parts path)

/-! ### Building trees -/

/-- Put a file at the end of a path, making directories on the way. A file that
    stands in the way is replaced. -/
def put (text : String) : List String → Entry → Entry
  | [], _ => .file (.ok text)
  | part :: rest, e =>
    let entries := match e with
      | dir entries => entries
      | _ => []
    let inner := match entries.find? fun child => child.1 = part with
      | some child => child.2
      | none => .dir []
    .dir ((entries.filter fun child => child.1 ≠ part) ++ [(part, put text rest inner)])

/-- The tree of a list of files, given by their paths. -/
def ofFiles (files : List (String × String)) : Entry :=
  files.foldl (fun root f => put f.2 ((parts f.1).filter (!stays ·)) root) (.dir [])

/-! ### Programs in a tree -/

/-- Whether a file's name ends in `.json` behind at least one character. -/
def isProgramName (name : String) : Bool :=
  name.endsWith ".json" && name ≠ ".json"

/-- The path of an entry of a directory. -/
def join (path name : String) : String :=
  if path.endsWith "/" then path ++ name else path ++ "/" ++ name

/-- A directory that could not be opened, and why. -/
structure Obstacle where
  /-- The path of the directory. -/
  path : String
  /-- Why it could not be opened. -/
  reason : DiskError

mutual

/-- The paths of the files of a directory and its subdirectories that hold programs.
    Entries come in the order of their names. A directory whose own path is too
    long ends the search. -/
def programsIn (path : String) : Entry → Except Obstacle (List String)
  | dir entries =>
    if longestPath < path.utf8ByteSize then .error ⟨path, .nameTooLong⟩
    else List.flatten <$>
      ((programsOf path entries).mergeSort fun a b => a.1 ≤ b.1).mapM Prod.snd
  | _ => .ok []

/-- The paths of the programs of each entry of a directory, with the entry's name. -/
def programsOf (path : String) :
    List (String × Entry) → List (String × Except Obstacle (List String))
  | [] => []
  | (name, file _) :: rest =>
    (name, .ok (if isProgramName name then [join path name] else [])) :: programsOf path rest
  | (name, e) :: rest => (name, programsIn (join path name) e) :: programsOf path rest

end

end Entry

end SsaFlow.Command
