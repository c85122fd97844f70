import SymbolGraph.Resolve.Target
import SymbolGraph.Text.Cut

/-!
# Rules for import paths

Import paths whose repository can be read off the path itself. A rule says which paths it is
for and how such a path becomes a target; of a list of rules the first that matches decides,
also when it decides that there is no target.
-/

namespace SymbolGraph

open Text

/-- The repository of the language's own packages. -/
def libraryRepo : String := "https://github.com/golang/go"

/-- The first elements of the import paths of the language's own packages, of its commands, and
of the package that predeclared names are keyed under. -/
def libraryRoots : List String :=
  ["archive", "bufio", "builtin", "bytes", "cmd", "compress", "container", "context", "crypto",
    "database", "debug", "embed", "encoding", "errors", "expvar", "flag", "fmt", "go", "hash",
    "html", "image", "index", "internal", "io", "iter", "log", "maps", "math", "mime", "net",
    "os", "path", "plugin", "reflect", "regexp", "runtime", "slices", "sort", "strconv",
    "strings", "sync", "syscall", "testing", "text", "time", "unicode", "unique", "unsafe",
    "weak"]

/-- Which import paths a rule is for. -/
inductive Matcher where
  /-- This path alone. -/
  | exact (path : String)
  /-- This path and all paths below it. -/
  | root (path : String)
  /-- The language's own packages. -/
  | library
  deriving DecidableEq, Repr

/-- How an import path becomes a target. -/
inductive TargetForm where
  /-- The path has no target. -/
  | noTarget
  /-- The language's repository at the configured version. -/
  | library
  /-- The first three elements are the repository. -/
  | hostRepo
  /-- The matched root stands for the repository `place`. -/
  | movedTo (place : String)
  /-- The element after the matched root names a repository below `place`. -/
  | reposBelow (place : String)
  /-- The repository ends at the first or second element that carries a version. -/
  | gopkgIn
  deriving DecidableEq, Repr

/-- A rule for import paths. -/
structure Rule where
  name : String
  matcher : Matcher
  form : TargetForm
  deriving DecidableEq, Repr

/-- What follows `root` in a path that is `root` or lies below it. -/
def belowRoot? (root path : List Char) : Option (List Char) :=
  match stripStart? root path with
  | some [] => some []
  | some ('/' :: rest) => some ('/' :: rest)
  | _ => none

/-- Whether a path is `root` or lies below it. -/
def hasRootPath (root path : String) : Bool := (belowRoot? root.toList path.toList).isSome

/-- Whether a matcher accepts a path. -/
def Matcher.accepts (m : Matcher) (path : String) : Bool :=
  match m with
  | .exact p => path == p
  | .root p => hasRootPath p path
  | .library => libraryRoots.contains (String.ofList (firstPiece '/' path.toList))

/-- The path that a matcher is built around. -/
def Matcher.path : Matcher → String
  | .exact p => p
  | .root p => p
  | .library => ""

/-- Whether an element ends in `.v` and a number, with something before. -/
def isVersioned (elem : List Char) : Bool :=
  match splitLast? ['.', 'v'] elem with
  | some (name, version) =>
    !name.isEmpty && !version.isEmpty && version.all fun c => '0' ≤ c && c ≤ '9'
  | none => false

/-- The repository of a path whose first or second element after the host carries a version. -/
def gopkgInRepo? (path : String) : Option String :=
  match splitOn '/' path.toList with
  | _ :: first :: rest =>
    if isVersioned first then some ("gopkg.in/" ++ String.ofList first)
    else match rest with
      | second :: _ =>
        if isVersioned second then
          some ("gopkg.in/" ++ String.ofList first ++ "/" ++ String.ofList second)
        else none
      | [] => none
  | _ => none

namespace Rule

/-- Whether a rule is for a path. -/
def accepts (r : Rule) (path : String) : Bool := r.matcher.accepts path

/-- The target of a path that the rule is for; `none` if the path has no target. -/
def target (r : Rule) (path version : String) : Except ResolveError (Option Target) :=
  match r.form with
  | .noTarget => .ok none
  | .library => .ok (some { Target.ofUnit libraryRepo path with version := version })
  | .hostRepo =>
    let elems := splitOn '/' path.toList
    if elems.length < 3 then .error (.malformed path "expected host/owner/repo")
    else
      let repo := String.ofList (join ['/'] (elems.take 3))
      .ok (some (Target.ofUnit ("https://" ++ repo) path))
  | .movedTo place =>
    let unit := String.ofList (replaceFirst r.matcher.path.toList place.toList path.toList)
    .ok (some (Target.ofUnit ("https://" ++ place) unit))
  | .reposBelow place =>
    let rest := trimStart (· == '/')
      ((stripStart? r.matcher.path.toList path.toList).getD path.toList)
    let repo := firstPiece '/' rest
    if repo.isEmpty then .error (.malformed path "expected a repository after the host")
    else .ok (some (Target.ofUnit ("https://" ++ place ++ "/" ++ String.ofList repo)
      (place ++ "/" ++ String.ofList rest)))
  | .gopkgIn =>
    match gopkgInRepo? path with
    | some repo => .ok (some (Target.ofUnit ("https://" ++ repo) path))
    | none => .error (.malformed path "expected gopkg.in/[user/]pkg.vN")

/-- The rules that apply when no others are given. -/
def standard : List Rule :=
  [⟨"cgo", .exact "C", .noTarget⟩,
    ⟨"stdlib", .library, .library⟩,
    ⟨"github", .root "github.com", .hostRepo⟩,
    ⟨"bitbucket", .root "bitbucket.org", .hostRepo⟩,
    ⟨"grpc", .root "google.golang.org/grpc", .movedTo "github.com/grpc/grpc-go"⟩,
    ⟨"gcloud", .root "cloud.google.com/go",
      .movedTo "github.com/GoogleCloudPlatform/gcloud-golang"⟩,
    ⟨"gcloud-legacy", .root "google.golang.org/cloud",
      .movedTo "github.com/GoogleCloudPlatform/gcloud-golang"⟩,
    ⟨"google-api", .root "google.golang.org/api",
      .movedTo "github.com/google/google-api-go-client"⟩,
    ⟨"appengine", .root "google.golang.org/appengine", .movedTo "github.com/golang/appengine"⟩,
    ⟨"code-google", .root "code.google.com/p", .hostRepo⟩,
    ⟨"golang-x", .root "golang.org/x", .reposBelow "github.com/golang"⟩,
    ⟨"kubernetes", .root "k8s.io", .reposBelow "github.com/kubernetes"⟩,
    ⟨"sourcegraph", .root "sourcegraph.com/sourcegraph", .reposBelow "github.com/sourcegraph"⟩,
    ⟨"gopkg-in", .root "gopkg.in", .gopkgIn⟩]

end Rule

end SymbolGraph
