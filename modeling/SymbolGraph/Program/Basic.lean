import SymbolGraph.Program.Entity
import SymbolGraph.Program.Fault
import SymbolGraph.Source.FileMap
import SymbolGraph.Syntax.Tree

/-!
# Checked programs

The sources, syntax and entities of a checked program, and the questions about types that
naming a definition raises.
-/

namespace SymbolGraph

/-- A checked program. -/
structure Program where
  sources : FileMap
  tree : SyntaxTree
  objects : Array Object
  types : Array GoType
  scopes : Array Scope
  packages : Array Package
  deriving Inhabited

namespace Program

/-- The scope of the predeclared names. -/
def predeclared : ScopeId := ⟨0⟩

/-- The object with a number. -/
def object (p : Program) (id : ObjectId) : Except Fault Object := fetch p.objects id.index

/-- The type with a number. -/
def type (p : Program) (id : TypeId) : Except Fault GoType := fetch p.types id.index

/-- The scope with a number. -/
def scope (p : Program) (id : ScopeId) : Except Fault Scope := fetch p.scopes id.index

/-- The package with a number. -/
def package (p : Program) (id : PackageId) : Except Fault Package := fetch p.packages id.index

/-- What remains of a type when at most `n` names are looked through. -/
def underlyingUpTo (p : Program) : (n : Nat) → TypeId → Except Fault TypeId
  | 0, _ => .error .endless
  | n + 1, id => do
    match ← p.type id with
    | .named _ (some next) _ => if next = id then return id else underlyingUpTo p n next
    | _ => return id

/-- What remains of a type when names are looked through. -/
def underlying (p : Program) (id : TypeId) : Except Fault TypeId :=
  p.underlyingUpTo (p.types.size + 1) id

/-- The type that a pointer points to; other types stay. -/
def deref (p : Program) (id : TypeId) : Except Fault TypeId := do
  match ← p.type id with
  | .pointer elem => return elem
  | _ => return id

/-- The fields of a type that is written as a struct type. -/
def ownFields? (p : Program) (id : TypeId) : Except Fault (Option (List ObjectId)) := do
  match ← p.type id with
  | .struct fields => return some fields
  | _ => return none

/-- The fields of a struct type, looking through names. -/
def structFields? (p : Program) (id : TypeId) : Except Fault (Option (List ObjectId)) := do
  p.ownFields? (← p.underlying id)

/-- The receiver variable of a method. -/
def receiver? (p : Program) (id : ObjectId) : Except Fault (Option ObjectId) := do
  match (← p.object id).type with
  | some type =>
    match ← p.type type with
    | .signature recv _ _ _ => return recv
    | _ => return none
  | none => return none

/-- The type of the receiver variable of a method. -/
def receiverType? (p : Program) (id : ObjectId) : Except Fault (Option TypeId) := do
  match ← p.receiver? id with
  | some recv => return (← p.object recv).type
  | none => return none

/-- The type reached from `recv` by going through embedded fields: at each step a pointer is
followed and a field is taken by its place. A step that leads nowhere ends the way. -/
def throughFields (p : Program) : (recv : TypeId) → List Nat → Except Fault TypeId
  | recv, [] => return recv
  | recv, i :: rest => do
    match ← p.structFields? (← p.deref recv) with
    | some fields =>
      match fields[i]? with
      | some field =>
        match (← p.object field).type with
        | some type => throughFields p type rest
        | none => return recv
      | none => return recv
    | none => return recv

/-- The type that declares the member that a selection picks. -/
def declaringType (p : Program) (s : Selection) : Except Fault TypeId :=
  p.throughFields s.recv s.index.dropLast

end Program

end SymbolGraph
