import SymbolGraph.Source.Position
import SymbolGraph.UnixPath

/-!
# Source files

The files of a program by number, and what is read off their names. A number that was never
given out stands for a file with an empty name and no text.
-/

namespace SymbolGraph

open Text

/-- A source file: its name, usually relative to the source tree, and its text. -/
structure SourceFile where
  name : String
  text : String
  deriving DecidableEq, Repr, Inhabited

/-- The source files of a program in order of registration. -/
structure FileMap where
  files : Array SourceFile
  deriving Repr, Inhabited

/-- The last component of a file name, or the whole name if that is no name. -/
def baseName (name : String) : String := (UnixPath.mk name).fileName?.getD name

/-- The last component of a file name without the extension `.go`. -/
def strippedName (name : String) : String :=
  let base := baseName name
  match stripEnd? ".go".toList base.toList with
  | some stem => String.ofList stem
  | none => base

/-- The directory part of a file name; `.` when there is none. -/
def dirName (name : String) : String :=
  match (UnixPath.mk name).parent? with
  | some dir => if dir.text.isEmpty then "." else dir.text
  | none => "."

namespace FileMap

/-- The map without files. -/
def empty : FileMap := ⟨#[]⟩

/-- Registers a file under the next number. -/
def add (m : FileMap) (name text : String) : FileId × FileMap :=
  (⟨m.files.size⟩, ⟨m.files.push ⟨name, text⟩⟩)

/-- The file with a number. -/
def get? (m : FileMap) (f : FileId) : Option SourceFile := m.files[f.index]?

/-- The name of a file; empty for an unknown number. -/
def name (m : FileMap) (f : FileId) : String := ((m.get? f).map SourceFile.name).getD ""

/-- The text of a file; empty for an unknown number. -/
def text (m : FileMap) (f : FileId) : String := ((m.get? f).map SourceFile.text).getD ""

/-- The part of a file between two offsets, if both lie in it and on character boundaries. -/
def slice? (m : FileMap) (f : FileId) (r : TextRange) : Option String := do
  let rest ← dropBytes? r.start.toNat (m.text f).toList
  let part ← takeBytes? r.length rest
  return String.ofList part

/-- The last component of a file's name. -/
def baseName (m : FileMap) (f : FileId) : String := SymbolGraph.baseName (m.name f)

/-- The last component of a file's name without `.go`; scope labels are made of it. -/
def strippedName (m : FileMap) (f : FileId) : String := SymbolGraph.strippedName (m.name f)

/-- The directory part of a file's name. -/
def dirName (m : FileMap) (f : FileId) : String := SymbolGraph.dirName (m.name f)

end FileMap

end SymbolGraph
