import SymbolGraph.Comment.Html
import SymbolGraph.Graph.Emission

/-!
# Documentation

The comments of a package become documentation texts. The package has the comments of its
files as one text; a declared name has the comment of its declaration; and every comment group
that belongs to neither stands for itself, without a key. A documented key has two texts in a
row, one as HTML and one plain. Files are gone through by name.

A comment group belongs to a declaration whether or not the declaration uses it, and a key is
documented by the first declaration that has text for it.
-/

namespace SymbolGraph

open Emit

/-- Which comment groups belong to a declaration, and what has been documented. -/
structure DocState where
  /-- Where the comment groups stand that belong to a declaration. -/
  attached : List (FileId × TextRange)
  objects : List ObjectId
  /-- The texts of the documented keys. -/
  keys : List String

namespace DocState

/-- The state in which nothing is documented. -/
def empty : DocState := ⟨[], [], []⟩

/-- Lets a comment group belong to a declaration. -/
def attach (s : DocState) (g : CommentGroup) : DocState :=
  { s with attached := (g.file, g.range) :: s.attached }

/-- Lets those comment groups belong to a declaration that are there. -/
def attachAll (s : DocState) (groups : List (Option CommentGroup)) : DocState :=
  groups.foldl (fun s g => (g.map s.attach).getD s) s

end DocState

namespace GraphContext

/-- Adds the two texts of a key. -/
def addDocPair (c : GraphContext) (key : DefKey) (text file : String) (span : Span) :
    Emit Unit := do
  addDoc ⟨some key, c.unit, .html, Comment.toHtml text, file, span⟩
  addDoc ⟨some key, c.unit, .plain, text, file, span⟩

/-- The files of the package in the order of their names. -/
def filesByName (c : GraphContext) : Except Fault (List NodeId) := do
  let named ← c.package.files.mapM fun file => do
    return (c.fileName (← c.program.tree.file file), file)
  return (named.mergeSort fun a b => !decide (b.1 < a.1)).map Prod.snd

/-- The comment group before a file's package clause. -/
def fileDoc? (c : GraphContext) (file : NodeId) : Except Fault (Option CommentGroup) := do
  match ← c.program.tree.kind file with
  | .file _ _ doc _ => return doc
  | _ => return none

/-- Adds the documentation of the package, if a file has any. -/
def documentPackage (c : GraphContext) (files : List NodeId) (s : DocState) :
    Emit DocState := do
  let docs ← ask (files.mapM c.fileDoc?)
  let key := DefKey.ofPackage c.unit
  let s := { s.attachAll docs with keys := key.text :: s.keys }
  let texts := (docs.filterMap (·.map CommentGroup.text)).filter fun t => !t.isEmpty
  if texts.isEmpty then return s
  else
    c.addDocPair key (Text.joinStrings "\n" texts) "" .zero
    return s

/-- Documents the object that a name declares with a text, unless its key is documented. -/
def documentName (c : GraphContext) (g : CommentGroup) (text : String) (s : DocState)
    (name : NodeId) : Emit DocState := do
  match c.package.facts.defs.get? name with
  | none => return s
  | some obj =>
    if obj ∈ s.objects then return s
    else
      let s := { s with objects := obj :: s.objects }
      match ← c.keyOf obj with
      | none => return s
      | some k =>
        if k.key.text ∈ s.keys then return s
        else
          c.addDocPair k.key text (c.fileName g.file) g.range.span
          return { s with keys := k.key.text :: s.keys }

/-- Does something for every item in turn and hands a state on. -/
def eachWith {α : Type} (f : DocState → α → Emit DocState) : DocState → List α → Emit DocState
  | s, [] => return s
  | s, a :: rest => do eachWith f (← f s a) rest

/-- Documents the objects that names declare with a comment group, if it has text. -/
def documentNames (c : GraphContext) (names : List NodeId) (group : Option CommentGroup)
    (s : DocState) : Emit DocState := do
  match group with
  | none => return s
  | some g =>
    let s := s.attach g
    if g.text.isEmpty then return s
    else eachWith (c.documentName g g.text) s names

/-- Documents what a specification declares: with its own comment group, else with that of its
declaration, else with the one behind it. Imports declare nothing. -/
def documentSpec (c : GraphContext) (declDoc : Option CommentGroup) (s : DocState)
    (spec : NodeId) : Emit DocState := do
  match ← ask (c.program.tree.kind spec) with
  | .valueSpec names _ _ doc comment =>
    c.documentNames names (doc.or (declDoc.or comment)) (s.attachAll [doc, declDoc, comment])
  | .typeSpec name _ doc comment =>
    c.documentNames [name] (doc.or (declDoc.or comment)) (s.attachAll [doc, declDoc, comment])
  | _ => return s

/-- Whether a field belongs to a struct or interface type, and not to a function. -/
def isMember (t : SyntaxTree) (field : NodeId) : Except Fault Bool := do
  match (← t.node field).parent with
  | none => return false
  | some list =>
    match (← t.node list).parent with
    | none => return false
    | some owner =>
      match ← t.kind owner with
      | .structType _ => return true
      | .interfaceType _ => return true
      | _ => return false

/-- The names that a field declares; an embedded field has the name of its type. -/
def memberNames (t : SyntaxTree) (names : List NodeId) (type : NodeId) :
    Except Fault (List NodeId) := do
  if names.isEmpty then
    match ← t.kind type with
    | .starExpr operand => return [operand]
    | _ => return [type]
  else return names

/-- Documents what a node declares. -/
def documentNode (c : GraphContext) (s : DocState) (node : NodeId) : Emit DocState := do
  match ← ask (c.program.tree.kind node) with
  | .genDecl _ specs doc => eachWith (c.documentSpec doc) s specs
  | .funcDecl _ name _ _ doc => c.documentNames [name] doc s
  | .field names type doc comment =>
    if ← ask (isMember c.program.tree node) then
      let s := s.attachAll [doc, comment]
      c.documentNames (← ask (memberNames c.program.tree names type)) (doc.or comment) s
    else return s
  | _ => return s

/-- Documents what a file declares. -/
def documentFile (c : GraphContext) (s : DocState) (file : NodeId) : Emit DocState := do
  eachWith c.documentNode s (← ask (c.program.tree.descendants file))

/-- Adds a comment group that belongs to nothing, if it has text. -/
def addFloating (c : GraphContext) (s : DocState) (g : CommentGroup) : Emit Unit :=
  if (g.file, g.range) ∈ s.attached || g.text.isEmpty then return
  else addDoc ⟨none, c.unit, .plain, g.text, c.fileName g.file, g.range.span⟩

/-- Adds the comment groups of a file that belong to nothing. -/
def addFloatingOf (c : GraphContext) (s : DocState) (file : NodeId) : Emit Unit := do
  match ← ask (c.program.tree.kind file) with
  | .file _ _ _ comments => each (c.addFloating s) comments
  | _ => return

/-- Adds the documentation of a package. -/
def document (c : GraphContext) : Emit Unit := do
  let files ← ask c.filesByName
  let s ← c.documentPackage files .empty
  let s ← eachWith c.documentFile s files
  each (c.addFloatingOf s) files

end GraphContext

end SymbolGraph
