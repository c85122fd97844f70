import SymbolGraph.Resolve.Rule
import SymbolGraph.Text.CharClass

/-!
# Repository roots

A web page can announce where the packages below an import path are cloned from, in a `meta`
tag that holds the root path, the version control system and the repository. Here such tags are
found, and the root of an import path is replaced by where its repository is.
-/

namespace SymbolGraph

open Text

/-- The root of a set of import paths and the repository they are cloned from. -/
structure RepoRoot where
  root : String
  repo : String
  deriving DecidableEq, Repr

/-- The lower-case form of an ASCII letter; other characters stay. -/
def toAsciiLower (c : Char) : Char :=
  if 'A' ≤ c && c ≤ 'Z' then Char.ofNat (c.toNat + 32) else c

/-- What follows `word` in a text that begins with it, whatever the case of ASCII letters.
`word` is in lower case. -/
def stripStartAnyCase? : (word text : List Char) → Option (List Char)
  | [], text => some text
  | _ :: _, [] => none
  | p :: word, c :: text => if p = toAsciiLower c then stripStartAnyCase? word text else none

/-- What follows white space of at least one character. -/
def stripBlanks? : List Char → Option (List Char)
  | c :: rest => if isBlank c then some (rest.dropWhile isBlank) else none
  | [] => none

/-- Whether a character is one of the two quotes of attribute values. -/
def isAttributeQuote (c : Char) : Bool := c == '"' || c == '\x27'

/-- What follows a quote. -/
def stripQuote? : List Char → Option (List Char)
  | c :: rest => if isAttributeQuote c then some rest else none
  | [] => none

/-- The content of a tag that announces a repository, at the start of a text, and what follows
its closing quote. -/
def takeImportTag? (text : List Char) : Option (List Char × List Char) := do
  let t ← stripStartAnyCase? "<meta".toList text
  let t ← stripBlanks? t
  let t ← stripStartAnyCase? "name=".toList t
  let t ← stripQuote? t
  let t ← stripStartAnyCase? "go-import".toList t
  let t ← stripQuote? t
  let t ← stripBlanks? t
  let t ← stripStartAnyCase? "content=".toList t
  let t ← stripQuote? t
  let content := t.takeWhile fun c => !isAttributeQuote c
  if content.isEmpty then none
  let t ← stripQuote? (t.drop content.length)
  return (content, t)

/-- The contents of the announcing tags of a page, in order and without overlaps. The first
`skip` characters belong to the tag before. -/
def importTagsFrom : (skip : Nat) → List Char → List (List Char)
  | _, [] => []
  | skip + 1, _ :: rest => importTagsFrom skip rest
  | 0, c :: rest =>
    match takeImportTag? (c :: rest) with
    | some (content, after) => content :: importTagsFrom (rest.length - after.length) rest
    | none => importTagsFrom 0 rest

/-- The repository that a tag's content announces, if it has a root, a system and a
repository. -/
def announced? (content : List Char) : Option RepoRoot :=
  match fields isBlank content with
  | root :: _ :: repo :: _ => some ⟨String.ofList root, String.ofList repo⟩
  | _ => none

/-- The first repository that a page announces for an import path. -/
def findRepoRoot? (page path : String) : Option RepoRoot :=
  (importTagsFrom 0 page.toList).findSome? fun content =>
    (announced? content).bind fun r => if hasRootPath r.root path then some r else none

/-- An address without its scheme; `none` if it has none. -/
def afterScheme? (url : List Char) : Option (List Char) :=
  (splitFirst? "://".toList url).map Prod.snd

/-- A text without the ending `.git`. -/
def dropGit (text : List Char) : List Char := (stripEnd? ".git".toList text).getD text

/-- An import path with its root replaced by the host and path of the repository's address. -/
def replaceRoot (path root cloneUrl : String) : String :=
  match afterScheme? cloneUrl.toList with
  | some location => String.ofList (replaceFirst root.toList (dropGit location) path.toList)
  | none => path

/-- The identifier of a repository: its address without scheme, slashes at the end and
`.git`. -/
def repoUri (cloneUrl : String) : String :=
  let location := (afterScheme? cloneUrl.toList).getD cloneUrl.toList
  String.ofList (dropGit (trimEnd (· == '/') location))

end SymbolGraph
