import SymbolGraph.Text.Cut
import SymbolGraph.UnixPath

/-!
# Configuration

The settings of one run. Applying them to a source tree checks the language version and makes
the directories in them absolute; the result is a fixed point of applying.
-/

namespace SymbolGraph

open Text

/-- How scopes that no syntax introduces are labelled. -/
inductive ScopeLabels where
  /-- By a counter, in the order in which they are met. -/
  | deterministic
  /-- By numbers drawn at random. -/
  | random
  deriving DecidableEq, Repr, Inhabited

/-- A way of labelling together with all that it draws, on which the labels of a run depend. -/
inductive Labelling where
  | deterministic
  /-- The `n`-th label of the run has the number `draws n`. -/
  | random (draws : Nat → UInt32)
  deriving Inhabited

/-- The way of labelling, without what is drawn. -/
def Labelling.mode : Labelling → ScopeLabels
  | deterministic => .deterministic
  | random _ => .random

/-- A way of labelling with the numbers that it draws. -/
def ScopeLabels.drawing (draws : Nat → UInt32) : ScopeLabels → Labelling
  | deterministic => .deterministic
  | random => .random draws

/-- The numbers drawn where no source of random numbers is at hand. -/
def Labelling.zeros : Nat → UInt32 := fun _ => 0

/-- A mode stands for labels for which no source of random numbers is at hand. -/
instance : Coe ScopeLabels Labelling := ⟨ScopeLabels.drawing Labelling.zeros⟩

/-- What one run over a package does. -/
structure GraphOptions where
  includeDocs : Bool
  labelling : Labelling
  deriving Inhabited

/-- How a run labels scopes that no syntax introduces. -/
def GraphOptions.scopeLabels (o : GraphOptions) : ScopeLabels := o.labelling.mode

/-- Documentation, and labels by a counter. -/
def GraphOptions.standard : GraphOptions := ⟨true, .deterministic⟩

/-- The settings of a run. -/
structure Config where
  /-- The directory of the language's own packages; empty for none. -/
  goRoot : String
  /-- Workspace directories with colons between them. -/
  goPath : String
  goVersion : String
  includeDocs : Bool
  scopeLabels : ScopeLabels
  /-- Further vendor directories, seen from the tree's root. -/
  vendorDirs : List String
  deriving DecidableEq, Repr, Inhabited

/-- Why a configuration cannot be used. -/
inductive ConfigError where
  | unsupportedVersion (version : String)
  deriving DecidableEq, Repr

/-- The wording of a failure to configure. -/
def ConfigError.message : ConfigError → String
  | .unsupportedVersion version =>
    "GOVERSION `" ++ version
      ++ "` is not supported (valid: \"\", \"1.3\", \"1.2\", \"1.1\", \"1\")"

/-- The parts of a list of directories, empty ones included. -/
def splitDirs (dirs : String) : List String :=
  (splitOn ':' dirs.toList).map String.ofList

/-- The parts of a list of directories that are not empty. -/
def namedDirs (dirs : String) : List String := (splitDirs dirs).filter fun d => !d.isEmpty

/-- The items of a list without those that occurred before. -/
def distinct {α : Type} [DecidableEq α] : (seen : List α) → List α → List α
  | _, [] => []
  | seen, a :: rest =>
    if a ∈ seen then distinct seen rest else a :: distinct (a :: seen) rest

namespace Config

/-- The settings when nothing is set. -/
def default : Config := ⟨"", "", "", true, .deterministic, []⟩

/-- The language versions that can be asked for. -/
def supportedVersions : List String := ["", "1.3", "1.2", "1.1", "1"]

/-- Checks the version and makes the directories absolute, seen from the tree's root. -/
def apply (c : Config) (root : UnixPath) : Except ConfigError Config :=
  if c.goVersion ∈ supportedVersions then
    let absolute := fun (dir : String) => (root.absolutize ⟨dir⟩).text
    .ok { c with
      goRoot := if c.goRoot.isEmpty then "" else absolute c.goRoot
      goPath := joinStrings ":" (distinct [] ((namedDirs c.goPath).map absolute)) }
  else .error (.unsupportedVersion c.goVersion)

/-- The directory of the language's own packages, if one is set. -/
def goRootDir? (c : Config) : Option UnixPath :=
  if c.goRoot.isEmpty then none else some ⟨c.goRoot⟩

/-- The workspace directories. -/
def goPathDirs (c : Config) : List UnixPath := (namedDirs c.goPath).map UnixPath.mk

/-- The version that the language's own packages are reported with; empty when none is set. -/
def libraryVersion (c : Config) : String :=
  if c.goVersion.isEmpty then "" else "go" ++ c.goVersion

/-- The options of a run with these settings. -/
def options (c : Config) (draws : Nat → UInt32 := Labelling.zeros) : GraphOptions :=
  ⟨c.includeDocs, c.scopeLabels.drawing draws⟩

end Config

end SymbolGraph
