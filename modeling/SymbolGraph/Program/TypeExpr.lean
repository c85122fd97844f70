import SymbolGraph.Program.Basic

/-!
# Type expressions

The type that a number stands for, written out as an expression in which named types are
leaves, and the text of such an expression.
-/

namespace SymbolGraph

mutual

/-- A type with its parts, named types being leaves. -/
inductive TypeExpr where
  /-- The missing type of an object. -/
  | invalid
  | basic (name : String)
  | named (pkg : Option String) (name : String)
  | pointer (elem : TypeExpr)
  | slice (elem : TypeExpr)
  | array (len : Nat) (elem : TypeExpr)
  | map (key value : TypeExpr)
  | chan (dir : ChanDir) (elem : TypeExpr)
  | struct (fields : List Member)
  | interface (methods : List Method) (embedded : List TypeExpr)
  | func (signature : Signature)

/-- A field, parameter or result; `spread` marks a parameter that stands for any number of
values. -/
inductive Member where
  | mk (name : Option String) (spread : Bool) (type : TypeExpr)

/-- A method of an interface. -/
inductive Method where
  | mk (name : String) (signature : Option Signature)

/-- Parameters and results. -/
inductive Signature where
  | mk (params results : List Member)

end

namespace TypeExpr

/-- The words that a channel type begins with. -/
def chanWords : ChanDir → List Char
  | .both => "chan ".toList
  | .send => "chan<- ".toList
  | .recv => "<-chan ".toList

mutual

/-- A type as text. -/
def render : TypeExpr → List Char
  | .invalid => "invalid type".toList
  | .basic name => name.toList
  | .named (some pkg) name => pkg.toList ++ '.' :: name.toList
  | .named none name => name.toList
  | .pointer elem => '*' :: render elem
  | .slice elem => "[]".toList ++ render elem
  | .array len elem => '[' :: (toString len).toList ++ ']' :: render elem
  | .map key value => "map[".toList ++ render key ++ ']' :: render value
  | .chan dir elem => chanWords dir ++ render elem
  | .struct fields =>
    "struct\x7b".toList ++ Text.join "; ".toList (renderMembers fields) ++ ['\x7d']
  | .interface methods embedded =>
    "interface\x7b".toList
      ++ Text.join "; ".toList (renderMethods methods ++ renderAll embedded) ++ ['\x7d']
  | .func signature => "func".toList ++ renderSignature signature

/-- The texts of a list of types. -/
def renderAll : List TypeExpr → List (List Char)
  | [] => []
  | t :: rest => render t :: renderAll rest

/-- A field, parameter or result as text. -/
def renderMember : Member → List Char
  | .mk name spread type =>
    (match name with
      | some n => n.toList ++ [' ']
      | none => [])
    ++ (if spread then "...".toList else []) ++ render type

/-- The texts of a list of fields, parameters or results. -/
def renderMembers : List Member → List (List Char)
  | [] => []
  | m :: rest => renderMember m :: renderMembers rest

/-- A method as text. -/
def renderMethod : Method → List Char
  | .mk name (some signature) => name.toList ++ renderSignature signature
  | .mk name none => name.toList

/-- The texts of a list of methods. -/
def renderMethods : List Method → List (List Char)
  | [] => []
  | m :: rest => renderMethod m :: renderMethods rest

/-- Parameters and results as text; a single result without a name stands alone. -/
def renderSignature : Signature → List Char
  | .mk params results =>
    '(' :: Text.join ", ".toList (renderMembers params) ++ ')' ::
      (match results with
        | [] => []
        | [.mk none spread type] => ' ' :: renderMember (.mk none spread type)
        | results => " (".toList ++ Text.join ", ".toList (renderMembers results) ++ [')'])

end

/-- A type as a string. -/
def text (t : TypeExpr) : String := String.ofList (render t)

end TypeExpr

namespace Program

/-- The parameter or result that an object stands for, given how types are written out. The
last parameter of a variadic signature stands for the elements of its slice. -/
def memberOf (p : Program) (go : TypeId → Except Fault TypeExpr) (spread : Bool)
    (id : ObjectId) : Except Fault Member := do
  let o ← p.object id
  let name := if o.name.isEmpty then none else some o.name
  match o.type with
  | none => return .mk name false .invalid
  | some type =>
    if spread then
      match ← p.type type with
      | .slice elem => return .mk name true (← go elem)
      | _ => return .mk name true (← go type)
    else return .mk name false (← go type)

/-- The parameters of a signature. -/
def paramsOf (p : Program) (go : TypeId → Except Fault TypeExpr) (variadic : Bool) :
    List ObjectId → Except Fault (List Member)
  | [] => return []
  | [last] => return [← p.memberOf go variadic last]
  | id :: next :: rest => do
    let m ← p.memberOf go false id
    let ms ← paramsOf p go variadic (next :: rest)
    return m :: ms

/-- The signature that a type stands for, if it is one. -/
def signatureOf? (p : Program) (go : TypeId → Except Fault TypeExpr) (id : TypeId) :
    Except Fault (Option Signature) := do
  match ← p.type id with
  | .signature _ params results variadic =>
    return some (.mk (← p.paramsOf go variadic params) (← results.mapM (p.memberOf go false)))
  | _ => return none

/-- The field that an object stands for. An embedded field has no name of its own. -/
def fieldOf (p : Program) (go : TypeId → Except Fault TypeExpr) (id : ObjectId) :
    Except Fault Member := do
  let o ← p.object id
  let name := if o.kind = .field true then none else some o.name
  match o.type with
  | none => return .mk name false .invalid
  | some type => return .mk name false (← go type)

/-- The interface method that an object stands for. -/
def methodOf (p : Program) (go : TypeId → Except Fault TypeExpr) (id : ObjectId) :
    Except Fault Method := do
  let o ← p.object id
  match o.type with
  | none => return .mk o.name none
  | some type => return .mk o.name (← p.signatureOf? go type)

/-- A type written out, no more than `depth` levels deep. -/
def typeExprUpTo (p : Program) : (depth : Nat) → TypeId → Except Fault TypeExpr
  | 0, _ => .error .endless
  | depth + 1, id => do
    let go := typeExprUpTo p depth
    match ← p.type id with
    | .basic name => return .basic name
    | .named obj _ _ =>
      let o ← p.object obj
      match o.pkg with
      | some pkg => return .named (some (← p.package pkg).path) o.name
      | none => return .named none o.name
    | .pointer elem => return .pointer (← go elem)
    | .slice elem => return .slice (← go elem)
    | .array len elem => return .array len (← go elem)
    | .map key value =>
      let k ← go key
      let v ← go value
      return .map k v
    | .chan dir elem => return .chan dir (← go elem)
    | .struct fields => return .struct (← fields.mapM (p.fieldOf go))
    | .interface methods embedded =>
      let ms ← methods.mapM (p.methodOf go)
      let es ← embedded.mapM go
      return .interface ms es
    | .signature _ params results variadic =>
      let ps ← p.paramsOf go variadic params
      let rs ← results.mapM (p.memberOf go false)
      return .func (.mk ps rs)

/-- A type written out. -/
def typeExpr (p : Program) (id : TypeId) : Except Fault TypeExpr :=
  p.typeExprUpTo (p.types.size + 1) id

/-- The text of a type. -/
def typeText (p : Program) (id : TypeId) : Except Fault String :=
  TypeExpr.text <$> p.typeExpr id

end Program

end SymbolGraph
