import SymbolGraph.Comment.Group
import SymbolGraph.Program.Id

/-!
# Syntax nodes

The nodes of a syntax tree. A node names its children by number, in source order; shapes that
nothing here tells apart are one shape with a label.
-/

namespace SymbolGraph

/-- The keyword of a declaration of several specifications. -/
inductive DeclKeyword where
  | importDecl
  | constDecl
  | typeDecl
  | varDecl
  deriving DecidableEq, Repr

/-- The shape of a node, with its children. -/
inductive NodeKind where
  /-- A file; `comments` holds all comment groups in it, attached to something or not. -/
  | file (name : NodeId) (decls : List NodeId) (doc : Option CommentGroup)
      (comments : List CommentGroup)
  | ident (name : String)
  | basicLit (value : String)
  | genDecl (keyword : DeclKeyword) (specs : List NodeId) (doc : Option CommentGroup)
  | importSpec (name : Option NodeId) (path : NodeId) (doc comment : Option CommentGroup)
  | valueSpec (names : List NodeId) (type : Option NodeId) (values : List NodeId)
      (doc comment : Option CommentGroup)
  | typeSpec (name type : NodeId) (doc comment : Option CommentGroup)
  | funcDecl (recv : Option NodeId) (name type : NodeId) (body : Option NodeId)
      (doc : Option CommentGroup)
  | funcLit (type body : NodeId)
  | funcType (params : NodeId) (results : Option NodeId)
  | fieldList (fields : List NodeId)
  | field (names : List NodeId) (type : NodeId) (doc comment : Option CommentGroup)
  | structType (fields : NodeId)
  | interfaceType (methods : NodeId)
  | starExpr (operand : NodeId)
  | selectorExpr (operand member : NodeId)
  | compositeLit (type : Option NodeId) (elements : List NodeId)
  | blockStmt (stmts : List NodeId)
  | declStmt (decl : NodeId)
  | assignStmt (left right : List NodeId) (define : Bool)
  | rangeStmt (key value : Option NodeId) (operand body : NodeId)
  | labeledStmt (label stmt : NodeId)
  | branchStmt (keyword : String) (label : Option NodeId)
  /-- Any other expression or statement. -/
  | other (label : String) (children : List NodeId)
  deriving DecidableEq, Repr

namespace NodeKind

/-- The children of a node in source order. -/
def children : NodeKind → List NodeId
  | .file name decls _ _ => name :: decls
  | .ident _ => []
  | .basicLit _ => []
  | .genDecl _ specs _ => specs
  | .importSpec name path _ _ => name.toList ++ [path]
  | .valueSpec names type values _ _ => names ++ type.toList ++ values
  | .typeSpec name type _ _ => [name, type]
  | .funcDecl recv name type body _ => recv.toList ++ [name, type] ++ body.toList
  | .funcLit type body => [type, body]
  | .funcType params results => params :: results.toList
  | .fieldList fields => fields
  | .field names type _ _ => names ++ [type]
  | .structType fields => [fields]
  | .interfaceType methods => [methods]
  | .starExpr operand => [operand]
  | .selectorExpr operand member => [operand, member]
  | .compositeLit type elements => type.toList ++ elements
  | .blockStmt stmts => stmts
  | .declStmt decl => [decl]
  | .assignStmt left right _ => left ++ right
  | .rangeStmt key value operand body => key.toList ++ value.toList ++ [operand, body]
  | .labeledStmt label stmt => [label, stmt]
  | .branchStmt _ label => label.toList
  | .other _ children => children

/-- The name of a shape. -/
def word : NodeKind → String
  | .file .. => "File"
  | .ident .. => "Ident"
  | .basicLit .. => "BasicLit"
  | .genDecl .. => "GenDecl"
  | .importSpec .. => "ImportSpec"
  | .valueSpec .. => "ValueSpec"
  | .typeSpec .. => "TypeSpec"
  | .funcDecl .. => "FuncDecl"
  | .funcLit .. => "FuncLit"
  | .funcType .. => "FuncType"
  | .fieldList .. => "FieldList"
  | .field .. => "Field"
  | .structType .. => "StructType"
  | .interfaceType .. => "InterfaceType"
  | .starExpr .. => "StarExpr"
  | .selectorExpr .. => "SelectorExpr"
  | .compositeLit .. => "CompositeLit"
  | .blockStmt .. => "BlockStmt"
  | .declStmt .. => "DeclStmt"
  | .assignStmt .. => "AssignStmt"
  | .rangeStmt .. => "RangeStmt"
  | .labeledStmt .. => "LabeledStmt"
  | .branchStmt .. => "BranchStmt"
  | .other label _ => label

/-- Whether a node is a file. -/
def isFile : NodeKind → Bool
  | .file .. => true
  | _ => false

/-- The name of an identifier. -/
def identName? : NodeKind → Option String
  | .ident name => some name
  | _ => none

end NodeKind

/-- A node: its shape, where it stands, and the node that was last made its parent. -/
structure Node where
  kind : NodeKind
  file : FileId
  range : TextRange
  parent : Option NodeId
  deriving Repr, DecidableEq

end SymbolGraph
