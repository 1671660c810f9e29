import SsaFlow.Json.Shape

/-! # Source locations

    A stretch of a source file, from a line and column to a line and column.
-/

namespace SsaFlow

/-- A stretch of a source file. -/
structure Location where
  /-- The file's name. -/
  file : String
  /-- The line of the first character. -/
  startLine : UInt32
  /-- The column of the first character. -/
  startColumn : UInt32
  /-- The line of the last character. -/
  endLine : UInt32
  /-- The column of the last character. -/
  endColumn : UInt32
  deriving DecidableEq, Inhabited

namespace Location

/-- No location. -/
def unknown : Location := ⟨"", 0, 0, 0, 0⟩

/-- An empty stretch at a line and column. -/
def point (file : String) (line column : UInt32) : Location := ⟨file, line, column, line, column⟩

/-- A location without a file and without a line says nothing. -/
def isUnknown (l : Location) : Bool := l.file.isEmpty && l.startLine == 0

/-- Whether one place comes no later than another: lines first, then columns. -/
def notAfter (line₁ column₁ line₂ column₂ : UInt32) : Bool :=
  line₁ < line₂ || (line₁ == line₂ && column₁ ≤ column₂)

/-- Whether `m` lies within `l`, in the same file. -/
def contains (l m : Location) : Bool :=
  l.file = m.file && notAfter l.startLine l.startColumn m.startLine m.startColumn &&
    notAfter m.endLine m.endColumn l.endLine l.endColumn

/-- A location as it is shown. -/
def text (l : Location) : String :=
  if l.isUnknown then "<unknown>"
  else
    l.file ++ ":" ++ toString l.startLine.toNat ++ ":" ++ toString l.startColumn.toNat ++ "-" ++
      toString l.endLine.toNat ++ ":" ++ toString l.endColumn.toNat

/-- The names of the fields, as they are saved. -/
def fieldNames : List String := ["file", "start_line", "start_column", "end_line", "end_column"]

/-- A location as a tree. -/
def toJson (l : Location) : Json :=
  .ofMembers [("file", .ofString l.file), ("start_line", .ofNat l.startLine.toNat),
    ("start_column", .ofNat l.startColumn.toNat), ("end_line", .ofNat l.endLine.toNat),
    ("end_column", .ofNat l.endColumn.toNat)]

/-- A location off its tree. -/
def read : Json.Reader Location :=
  Json.readRecord fieldNames fun
    | room, [file, startLine, startColumn, endLine, endColumn] => do
      let file ← Json.required Json.readString room file
      let startLine ← Json.required Json.readUInt32 room startLine
      let startColumn ← Json.required Json.readUInt32 room startColumn
      let endLine ← Json.required Json.readUInt32 room endLine
      let endColumn ← Json.required Json.readUInt32 room endColumn
      return ⟨file, startLine, startColumn, endLine, endColumn⟩
    | _, _ => none

end Location

end SsaFlow
