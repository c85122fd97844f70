import SymbolGraph.Program.Assembly
import SymbolGraph.Proofs.Program.WellFormed

/-!
# Programs that are put together by calls

A program is put together by calls, one after the other (`Call`). A call may mention numbers
(`Call.mentions`), and its answer gives numbers out (`Assembly.answer`). `Assembly.Builds` says
which assemblies are reached by calls that mention only numbers given out before; a look at the
program gives out all numbers in it. Whether a list of calls is of this kind can be computed
(`Assembly.builds_of_making`).
-/

namespace SymbolGraph

/-- The number of something in a program. -/
inductive Number where
  | file (id : FileId)
  | node (id : NodeId)
  | object (id : ObjectId)
  | type (id : TypeId)
  | scope (id : ScopeId)
  | package (id : PackageId)
  deriving DecidableEq, Repr

/-- The numbers that an object leads to. -/
def Object.mentions (o : Object) : List Number :=
  o.type.toList.map .type ++ o.pkg.toList.map .package ++ o.kind.scope?.toList.map .scope ++
    o.kind.imported?.toList.map .package

/-- The numbers that a type leads to. -/
def GoType.mentions (t : GoType) : List Number :=
  (t.elems ++ t.standsFor?.toList).map .type ++ (t.members ++ t.owners).map .object

/-- A call by which a program is put together. The first ones only ask. -/
inductive Call where
  /-- A look at the program so far. -/
  | program
  | universeScope
  | universeObject (name : String)
  | universeType (name : String)
  | packageScope (pkg : PackageId)
  | fileScope (file : FileId)
  | tryFind (file : FileId) (needle : String) (nth : Nat)
  | find (file : FileId) (needle : String) (nth : Nat)
  | pos (file : FileId) (needle : String) (nth : Nat)
  | comment (file : FileId) (text : String) (nth : Nat)
  | addPackage (path name : String)
  | addFile (pkg : PackageId) (name text : String)
  | addObject (o : Object)
  | addType (t : GoType)
  | addNamed (obj : ObjectId)
  | addScope (parent : ScopeId)
  | declare (scope : ScopeId) (obj : ObjectId)
  | setType (obj : ObjectId) (type : TypeId)
  | setUnderlying (named underlying : TypeId)
  | addMethod (named : TypeId) (method : ObjectId)
  | addNode (file : FileId) (range : TextRange) (kind : NodeKind)
  | wrap (kind : NodeKind)
  | ident (file : FileId) (name : String) (nth : Nat)
  | defIdent (file : FileId) (name : String) (nth : Nat) (obj : ObjectId)
  | useIdent (file : FileId) (name : String) (nth : Nat) (obj : ObjectId)
  | finishFile (file : FileId) (name : NodeId) (decls : List NodeId) (doc : Option CommentGroup)
      (comments : List CommentGroup)
  | define (ident : NodeId) (obj : ObjectId)
  | recordUse (ident : NodeId) (obj : ObjectId)
  | recordImplicit (node : NodeId) (obj : ObjectId)
  | recordSelection (node : NodeId) (s : Selection)
  | recordScope (node : NodeId) (scope : ScopeId)

/-- The numbers that a call mentions. -/
def Call.mentions : Call → List Number
  | .program | .universeScope | .universeObject _ | .universeType _ | .addPackage _ _ => []
  | .packageScope pkg | .addFile pkg _ _ => [.package pkg]
  | .fileScope file | .tryFind file _ _ | .find file _ _ | .pos file _ _ | .comment file _ _
  | .ident file _ _ => [.file file]
  | .addObject o => o.mentions
  | .addType t => t.mentions
  | .addNamed obj => [.object obj]
  | .addScope parent => [.scope parent]
  | .declare scope obj => [.scope scope, .object obj]
  | .setType obj type => [.object obj, .type type]
  | .setUnderlying named underlying => [.type named, .type underlying]
  | .addMethod named method => [.type named, .object method]
  | .addNode file _ kind => .file file :: kind.children.map .node
  | .wrap kind => kind.children.map .node
  | .defIdent file _ _ obj | .useIdent file _ _ obj => [.file file, .object obj]
  | .finishFile file name decls _ _ => .file file :: (name :: decls).map .node
  | .define node obj | .recordUse node obj | .recordImplicit node obj =>
    [.node node, .object obj]
  | .recordSelection node s => [.node node, .type s.recv, .object s.obj]
  | .recordScope node scope => [.node node, .scope scope]

namespace Assembly

/-! ## Answers to calls -/

/-- All numbers in a program that is put together. -/
def numbers (a : Assembly) : List Number :=
  (List.range a.program.sources.files.size).map (.file ⟨·⟩) ++
    (List.range a.program.tree.nodes.size).map (.node ⟨·⟩) ++
    (List.range a.program.objects.size).map (.object ⟨·⟩) ++
    (List.range a.program.types.size).map (.type ⟨·⟩) ++
    (List.range a.program.scopes.size).map (.scope ⟨·⟩) ++
    (List.range a.program.packages.size).map (.package ⟨·⟩)

/-- A step whose answer is one number. -/
def numbered {ι : Type} (number : ι → Number) (step : Except Fault (ι × Assembly)) :
    Except Fault (List Number × Assembly) :=
  (fun answer => ([number answer.1], answer.2)) <$> step

/-- A step without an answer. -/
def silent (step : Except Fault Assembly) : Except Fault (List Number × Assembly) :=
  (fun b => ([], b)) <$> step

/-- A question, whose answer gives out certain numbers. -/
def asked {α : Type} (a : Assembly) (numbersOf : α → List Number) (question : Except Fault α) :
    Except Fault (List Number × Assembly) :=
  (fun found => (numbersOf found, a)) <$> question

/-- Makes a call: the numbers that it gives out, and the assembly after it. -/
def answer (a : Assembly) : Call → Except Fault (List Number × Assembly)
  | .program => a.asked id (.ok a.numbers)
  | .universeScope => a.asked (fun scope => [.scope scope]) (.ok Program.predeclared)
  | .universeObject name =>
    a.asked (fun obj? => obj?.toList.map .object) (.ok (a.universeObject? name))
  | .universeType name => a.asked (fun type => [.type type]) (a.universeType name)
  | .packageScope pkg => a.asked (fun scope => [.scope scope]) (a.packageScope pkg)
  | .fileScope file => a.asked (fun scope => [.scope scope]) (a.fileScope file)
  | .tryFind file needle nth => a.asked (fun _ => []) (a.tryFind file needle nth)
  | .find file needle nth => a.asked (fun _ => []) (a.find file needle nth)
  | .pos file needle nth => a.asked (fun _ => []) (a.pos file needle nth)
  | .comment file text nth => a.asked (fun _ => []) (a.comment file text nth)
  | .addPackage path name => numbered .package (a.addPackage path name)
  | .addFile pkg name text => numbered .file (a.addFile pkg name text)
  | .addObject o => numbered .object (.ok (a.addObject o))
  | .addType t => numbered .type (.ok (a.addType t))
  | .addNamed obj => numbered .type (a.addNamed obj)
  | .addScope parent => numbered .scope (a.addScope parent)
  | .declare scope obj => silent (a.declare scope obj)
  | .setType obj type => silent (a.setType obj type)
  | .setUnderlying named underlying => silent (a.setUnderlying named underlying)
  | .addMethod named method => silent (a.addMethod named method)
  | .addNode file range kind => numbered .node (.ok (a.addNode file range kind))
  | .wrap kind => numbered .node (a.wrap kind)
  | .ident file name nth => numbered .node (a.ident file name nth)
  | .defIdent file name nth obj => numbered .node (a.defIdent file name nth obj)
  | .useIdent file name nth obj => numbered .node (a.useIdent file name nth obj)
  | .finishFile file name decls doc comments =>
    numbered .node (a.finishFile file name decls doc comments)
  | .define ident obj => silent (a.define ident obj)
  | .recordUse ident obj => silent (a.recordUse ident obj)
  | .recordImplicit node obj => silent (a.recordImplicit node obj)
  | .recordSelection node s => silent (a.recordSelection node s)
  | .recordScope node scope => silent (a.recordScope node scope)

section Answers

variable {a b : Assembly} {ids : List Number}

/-- A call that gives out one number gives out that of its answer. -/
theorem numbered_eq_ok {ι : Type} {number : ι → Number} {step : Except Fault (ι × Assembly)}
    (h : numbered number step = .ok (ids, b)) : ∃ id, step = .ok (id, b) ∧ ids = [number id] := by
  cases step with
  | error f => cases h
  | ok answer =>
    cases h
    exact ⟨answer.1, rfl, rfl⟩

/-- A call without answer gives out no number. -/
theorem silent_eq_ok {step : Except Fault Assembly} (h : silent step = .ok (ids, b)) :
    step = .ok b ∧ ids = [] := by
  cases step with
  | error f => cases h
  | ok next =>
    cases h
    exact ⟨rfl, rfl⟩

/-- Questions change nothing. -/
theorem asked_eq_ok {α : Type} {numbersOf : α → List Number} {question : Except Fault α}
    (h : a.asked numbersOf question = .ok (ids, b)) :
    ∃ found, question = .ok found ∧ ids = numbersOf found ∧ b = a := by
  cases question with
  | error f => cases h
  | ok found =>
    cases h
    exact ⟨found, rfl, rfl, rfl⟩

end Answers

/-! ## Calls one after the other -/

/-- What is put together by calls that mention only numbers given out before. The calls so far have
given out the numbers in the list. -/
inductive Builds : List Number → Assembly → Prop
  | initial {a : Assembly} : initial = .ok a → Builds [] a
  | call {given ids : List Number} {a b : Assembly} {c : Call} : Builds given a →
      (∀ id ∈ c.mentions, id ∈ given) → a.answer c = .ok (ids, b) → Builds (given ++ ids) b

/-- Makes calls one after the other, as long as none ends in a fault or mentions a number that was
not given out before. -/
def makeAll : List Number → Assembly → List Call → Option (List Number × Assembly)
  | given, a, [] => some (given, a)
  | given, a, c :: rest =>
    if ∀ id ∈ c.mentions, id ∈ given then
      match a.answer c with
      | .ok (ids, b) => makeAll (given ++ ids) b rest
      | .error _ => none
    else none

/-- Calls that can be made one after the other put a program together further. -/
theorem Builds.makeAll {given given' : List Number} {a b : Assembly} {calls : List Call}
    (h : Builds given a) (hrun : Assembly.makeAll given a calls = some (given', b)) :
    Builds given' b := by
  induction calls generalizing given a with
  | nil =>
    cases hrun
    exact h
  | cons c rest ih =>
    unfold Assembly.makeAll at hrun
    split at hrun
    · rename_i hmentions
      split at hrun
      · rename_i ids next hanswer
        exact ih (h.call hmentions hanswer) hrun
      · cases hrun
    · cases hrun

/-- Makes calls one after the other from the start. -/
def making (calls : List Call) : Option (List Number × Assembly) :=
  match initial with
  | .ok a => makeAll [] a calls
  | .error _ => none

/-- Calls that can be made from the start put a program together. -/
theorem builds_of_making {given : List Number} {a : Assembly} {calls : List Call}
    (h : making calls = some (given, a)) : Builds given a := by
  unfold making at h
  split at h
  · rename_i first hfirst
    exact (Builds.initial hfirst).makeAll h
  · cases h

end Assembly

end SymbolGraph
