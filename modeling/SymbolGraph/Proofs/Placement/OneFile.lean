import SymbolGraph.Proofs.Placement.Guide
import SymbolGraph.Proofs.Placement.Origins
import SymbolGraph.Proofs.Placement.Word

/-!
# Packages of one file

What a package looks like that consists of one file and was found to be in order by a checker
(`OneFile`), and the labels that the scopes of a file get (`FileScopes.labelOf_scopeLabel?`):
those of declared functions are labelled by the function, all others by their number.
-/

namespace SymbolGraph

open Text PlacementContext

namespace Program

/-- A node is the type of a function in its declaration, with the list of receivers, if there is
one, and the name. -/
def DeclaresFunc (p : Program) (type : NodeId) (recv : Option NodeId) (name : NodeId) : Prop :=
  ∃ n params results decl own body doc, p.tree.node type = .ok n ∧
    n.kind = .funcType params results ∧ n.parent = some decl ∧
    p.tree.kind decl = .ok (.funcDecl recv name own body doc)

/-- The type of a function is in one declaration, so it tells the receivers and the name. -/
theorem DeclaresFunc.eq {p : Program} {type : NodeId} {recv recv' : Option NodeId}
    {name name' : NodeId} (h : p.DeclaresFunc type recv name)
    (h' : p.DeclaresFunc type recv' name') : recv = recv' ∧ name = name' := by
  obtain ⟨n, _, _, decl, _, _, _, hn, -, hparent, hdecl⟩ := h
  obtain ⟨n', _, _, decl', _, _, _, hn', -, hparent', hdecl'⟩ := h'
  rw [hn] at hn'
  cases hn'
  rw [hparent] at hparent'
  cases hparent'
  rw [hdecl] at hdecl'
  cases hdecl'
  exact ⟨rfl, rfl⟩

/-- A scope is that of a function which is declared with receivers, if any, and a name. -/
structure FuncScope (p : Program) (k : CheckedPackage) (scope : ScopeId) (recv : Option NodeId)
    (name : NodeId) (obj : ObjectId) : Prop where
  declared : ∃ type, (type, scope) ∈ k.facts.scopes.entries ∧ p.DeclaresFunc type recv name
  defines : k.facts.defs.get? name = some obj
  owns : p.OwnsScope obj scope

/-- An object is a method of a type that has a name somewhere below a scope. -/
def MethodBelow (p : Program) (top : ScopeId) (obj : ObjectId) : Prop :=
  ∃ scope name typeName type, p.Below top scope ∧ p.Binds scope name typeName ∧
    p.Names typeName type ∧ p.HasMethod type obj

/-- Two objects have one name. -/
def SameName (p : Program) (a b : ObjectId) : Prop :=
  ∃ oa ob, p.object a = .ok oa ∧ p.object b = .ok ob ∧ oa.name = ob.name

/-- An object is the name of an imported package. -/
def IsImport (p : Program) (obj : ObjectId) : Prop :=
  ∃ o, p.object obj = .ok o ∧ o.kind.isPackage = true

end Program

/-- The scopes of a file, of which `inner` is that of the file itself, and their origins are as the
language has them. -/
structure FileScopes (p : Program) (k : CheckedPackage) (inner : ScopeId) (src : FileId) :
    Prop where
  tree : p.ScopeTree
  fileScope : ∃ file n, (∀ node, (node, inner) ∈ k.facts.scopes.entries ↔ node = file) ∧
    p.tree.node file = .ok n ∧ n.file = src ∧ n.kind.isFile = true
  /-- Every other scope is introduced by one node of the file. -/
  introduced : ∀ {scope}, p.Below inner scope → scope ≠ inner → ∃ node n,
    (∀ other, (other, scope) ∈ k.facts.scopes.entries ↔ other = node) ∧
    p.tree.node node = .ok n ∧ n.file = src ∧ n.kind.isFile = false
  /-- Functions with scopes that an identifier declares are those of function declarations, and
  the other way round. -/
  funcDeclared : ∀ {ident obj scope}, (ident, obj) ∈ k.facts.defs.entries →
    p.OwnsScope obj scope → ∃ recv name, p.FuncScope k scope recv name obj
  funcOwned : ∀ {type scope recv name}, (type, scope) ∈ k.facts.scopes.entries →
    p.DeclaresFunc type recv name → ∃ obj, p.FuncScope k scope recv name obj
  funcUnique : ∀ {scope recv recv' name name' a b}, p.FuncScope k scope recv name a →
    p.FuncScope k scope recv' name' b → a = b
  /-- A function is declared by its name, in the file that its scope is of. -/
  funcName : ∀ {ident obj scope o}, (ident, obj) ∈ k.facts.defs.entries →
    p.OwnsScope obj scope → p.Below inner scope → p.object obj = .ok o →
    ∃ n, p.tree.node ident = .ok n ∧ n.file = src ∧ n.kind = .ident o.name

/-- A package consists of one file, and what was found out about it is as the language has it.
`top` is the scope of the package, `inner` that of the file, which `file` introduces. -/
structure OneFile (p : Program) (k : CheckedPackage) (top inner : ScopeId) (file : NodeId)
    (src : FileId) : Prop where
  tree : p.ScopeTree
  members : p.Members
  owner : ∃ owner, p.package k.pkg = .ok owner ∧ owner.scope = top
  /-- The package has no other file. This and the two fields marked so below only describe the
  package: no place depends on them. -/
  files : k.files = [file]
  isFile : ∃ n, p.tree.node file = .ok n ∧ n.file = src ∧ n.kind.isFile = true
  /-- The scope of the file is the only child of the scope of the package. -/
  children : ∃ found, p.scope top = .ok found ∧ found.children = [inner]
  fileScope : ∀ node, (node, inner) ∈ k.facts.scopes.entries ↔ node = file
  /-- Every other scope is introduced by one node of the file. -/
  introduced : ∀ {scope}, p.Below inner scope → scope ≠ inner → ∃ node n,
    (∀ other, (other, scope) ∈ k.facts.scopes.entries ↔ other = node) ∧
    p.tree.node node = .ok n ∧ n.file = src ∧ n.kind.isFile = false
  /-- An object is bound in one scope only, which no place depends on. -/
  boundOnce : ∀ {a b name name' obj}, p.Binds a name obj → p.Binds b name' obj → a = b
  /-- The scope of the file binds nothing but imports. -/
  imports : ∀ {name obj}, p.Binds inner name obj → p.IsImport obj
  plainBinding : ∀ {scope name obj}, p.Below top scope → p.Binds scope name obj → Word.Plain name
  plainObject : ∀ {obj o}, p.object obj = .ok o → Word.Plain o.name
  fieldNames : ∀ {type fields a b}, p.ownFields? type = .ok (some fields) → a ∈ fields →
    b ∈ fields → p.SameName a b → a = b
  memberNames : ∀ {type under a b}, p.underlying type = .ok under →
    p.HasMethod type a ∨ p.HasField under a → p.HasMethod type b ∨ p.HasField under b →
    p.SameName a b → a = b
  /-- The functions with scopes are those of function declarations, and the other way round. -/
  funcDeclared : ∀ {obj scope}, p.OwnsScope obj scope →
    (∃ ident, (ident, obj) ∈ k.facts.defs.entries) ∨ p.MethodBelow top obj →
    ∃ recv name, p.FuncScope k scope recv name obj
  funcOwned : ∀ {type scope recv name}, (type, scope) ∈ k.facts.scopes.entries →
    p.DeclaresFunc type recv name → ∃ obj, p.FuncScope k scope recv name obj
  funcUnique : ∀ {scope recv recv' name name' a b}, p.FuncScope k scope recv name a →
    p.FuncScope k scope recv' name' b → a = b
  /-- A function is declared by its name, in the file. -/
  funcName : ∀ {ident obj scope o}, (ident, obj) ∈ k.facts.defs.entries →
    p.OwnsScope obj scope → p.object obj = .ok o →
    ∃ n, p.tree.node ident = .ok n ∧ n.file = src ∧ n.kind = .ident o.name
  /-- The scope of a function is within that of the file, which no place depends on: a scope that
  is walked is within it already. -/
  funcBelow : ∀ {scope recv name obj}, p.FuncScope k scope recv name obj →
    p.Below inner scope ∧ scope ≠ inner
  funcBound : ∀ {scope name obj o}, p.FuncScope k scope none name obj →
    p.object obj = .ok o → o.name ≠ "init" → o.name ≠ "_" → p.Binds top o.name obj
  funcListed : ∀ {scope recv name obj o}, p.FuncScope k scope (some recv) name obj →
    p.object obj = .ok o → o.name ≠ "_" →
    ∃ typeName type bound, p.Binds top bound typeName ∧ p.Names typeName type ∧
      p.HasMethod type obj
  /-- Different functions called `init` are declared at different offsets. -/
  initApart : ∀ {scope scope' name name' a b oa ob r r'}, p.FuncScope k scope none name a →
    p.FuncScope k scope' none name' b → p.object a = .ok oa → p.object b = .ok ob →
    oa.name = "init" → ob.name = "init" → p.tree.range name = .ok r →
    p.tree.range name' = .ok r' → r.start = r'.start → a = b

/-- The functions of a package of one file stand side by side, and the scope of the package binds
no type and no variable to the blank name. -/
structure FlatFile (p : Program) (k : CheckedPackage) (top inner : ScopeId) (file : NodeId)
    (src : FileId) : Prop extends OneFile p k top inner file src where
  funcNested : ∀ {scope recv name obj}, p.FuncScope k scope recv name obj → p.HasChild inner scope
  blankFree : ∀ {obj o}, p.Binds top "_" obj → p.object obj = .ok o →
    o.kind ≠ .typeName ∧ o.kind ≠ .var

namespace FlatFile

variable {p : Program} {k : CheckedPackage} {top inner : ScopeId} {file : NodeId} {src : FileId}
  {labels : Labelling} {c : PlacementContext} {scope child : ScopeId} {found : Scope}
  {before rest : List ScopeId}

/-! ## Scopes -/

/-- The scope of the file is a child of that of the package. -/
theorem hasChild_top (hk : FlatFile p k top inner file src) : p.HasChild top inner := by
  obtain ⟨found, hfound, hchildren⟩ := hk.children
  refine ⟨found, hfound, ?_⟩
  rw [hchildren]
  exact List.mem_cons_self

/-- The scopes below that of the file are neither it nor the package's, since children come
later. -/
theorem ne_of_hasChild (hk : FlatFile p k top inner file src) (hbelow : p.Below inner scope)
    (hchild : p.HasChild scope child) : child ≠ top ∧ child ≠ inner := by
  have hlater := hk.tree.later hchild
  have hfirst := hk.tree.later hk.hasChild_top
  have hle := hk.tree.index_le hbelow
  constructor
  · rintro rfl
    omega
  · rintro rfl
    omega

/-- What lies below the scope of the file lies below that of the package. -/
theorem below_top (hk : FlatFile p k top inner file src) (h : p.Below inner scope) :
    p.Below top scope :=
  Program.Below.trans (.child .refl hk.hasChild_top) h

/-- The scopes of the file are as the language has them. -/
theorem fileScopes (hk : FlatFile p k top inner file src) : FileScopes p k inner src where
  tree := hk.tree
  fileScope := by
    obtain ⟨n, hn, hsrc, hkind⟩ := hk.isFile
    exact ⟨file, n, hk.fileScope, hn, hsrc, hkind⟩
  introduced := hk.introduced
  funcDeclared hmem hown := hk.funcDeclared hown (.inl ⟨_, hmem⟩)
  funcOwned := hk.funcOwned
  funcUnique := hk.funcUnique
  funcName hmem hown _ ho := hk.funcName hmem hown ho

/-! ## Labels -/

/-- The name of the file without extension. -/
def stem (p : Program) (src : FileId) : String := p.sources.strippedName src

/-- The label of the `i`-th child of a scope, if it is not the scope of a function. -/
def blockLabel (p : Program) (inner : ScopeId) (src : FileId) (scope : ScopeId) (i : Nat) :
    List String :=
  (if scope = inner then [Word.file.text (stem p src)] else [])
    ++ [(Word.block i).text (stem p src)]

/-- The labels that the `i`-th child of a scope may have. -/
inductive LabelOf (p : Program) (k : CheckedPackage) (inner : ScopeId) (src : FileId)
    (scope child : ScopeId) (i : Nat) : List String → Prop
  | block : LabelOf p k inner src scope child i (blockLabel p inner src scope i)
  | func {recv : Option NodeId} {name : NodeId} {obj : ObjectId} {o : Object} :
      p.FuncScope k child recv name obj → p.object obj = .ok o → o.name ≠ "init" →
      LabelOf p k inner src scope child i [o.name]
  | init {recv : Option NodeId} {name : NodeId} {obj : ObjectId} {o : Object} {r : TextRange}
      {recvName : Option String} :
      p.FuncScope k child recv name obj → p.object obj = .ok o → o.name = "init" →
      p.tree.range name = .ok r → (recv = none → recvName = none) →
      LabelOf p k inner src scope child i
        (recvName.toList ++ [(Word.init r.start.toNat).text (stem p src)])

end FlatFile

namespace FileScopes

open FlatFile (stem blockLabel LabelOf)

variable {p : Program} {k : CheckedPackage} {inner : ScopeId} {src : FileId}
  {labels : Labelling} {c : PlacementContext} {scope child : ScopeId} {found : Scope}
  {before rest : List ScopeId}

/-- The scope of the file is no child of one below it. -/
theorem ne_inner_of_hasChild (hk : FileScopes p k inner src) (hbelow : p.Below inner scope)
    (hchild : p.HasChild scope child) : child ≠ inner := by
  rintro rfl
  have hlater := hk.tree.later hchild
  have hle := hk.tree.index_le hbelow
  omega

/-- The label of a scope that is the `i`-th child of its parent and that a node of a file
introduces. -/
theorem blockLabel?_of_childIndex? (hprogram : c.program = p) {own : Scope} {i : Nat}
    (hown : p.scope child = .ok own) (hparent : own.parent = some scope)
    (hfound : p.scope scope = .ok found) (hindex : found.childIndex? child = some i)
    {node : NodeId} (hfile : p.tree.file node = .ok src) :
    c.blockLabel? child node = (do
      let fileLabel ← match c.origins.node? scope with
        | some parentNode =>
          if (← p.tree.kind parentNode).isFile then
            pure ["$" ++ p.sources.strippedName (← p.tree.file parentNode)]
          else pure []
        | none => pure []
      return some (fileLabel ++ [(Word.block i).text (stem p src)])) := by
  unfold PlacementContext.blockLabel?
  simp only [hprogram, hown, hparent, hfound, hindex, hfile, bind, Except.bind, pure, Except.pure]
  cases c.origins.node? scope with
  | none => rfl
  | some parentNode =>
    dsimp only
    cases p.tree.kind parentNode with
    | error f => rfl
    | ok kind =>
      dsimp only
      split
      · cases p.tree.file parentNode <;> rfl
      · rfl

/-- The label of a child scope that is not the scope of a function. -/
theorem blockLabel?_eq (hk : FileScopes p k inner src)
    (hc : PlacementContext.ofPackage p k labels = .ok c) (hbelow : p.Below inner scope)
    (hfound : p.scope scope = .ok found) (hchildren : found.children = before ++ child :: rest)
    {node : NodeId} {n : Node} (hnode : p.tree.node node = .ok n) (hfile : n.file = src) :
    c.blockLabel? child node = .ok (some (blockLabel p inner src scope before.length)) := by
  obtain ⟨hprogram, -, -, horigins⟩ := ofPackage_eq_ok hc
  have hchild : p.HasChild scope child := .of_children hfound hchildren
  obtain ⟨own, hown, hparent⟩ := hk.tree.parent hchild
  have hindex := hk.tree.childIndex?_eq hfound hchildren
  have hnodeFile : p.tree.file node = .ok src := by
    unfold SyntaxTree.file
    rw [hnode, ← hfile]
    rfl
  rw [blockLabel?_of_childIndex? hprogram hown hparent hfound hindex hnodeFile]
  unfold blockLabel
  by_cases heq : scope = inner
  · subst heq
    obtain ⟨file, top, honly, hkind, hsrc, hfileKind⟩ := hk.fileScope
    rw [if_pos rfl, ScopeOrigins.node?_eq_some horigins honly]
    simp only [SyntaxTree.kind, SyntaxTree.file, hkind, Functor.map, Except.map, bind, Except.bind,
      pure, Except.pure, hfileKind, if_true, hsrc]
    rfl
  · obtain ⟨node', n', honly, hnode', -, hkind⟩ := hk.introduced hbelow heq
    rw [if_neg heq, ScopeOrigins.node?_eq_some horigins honly]
    simp only [SyntaxTree.kind, hnode', Functor.map, Except.map, bind, Except.bind, pure,
      Except.pure, hkind]
    rfl

/-- The name that a declared function has. -/
theorem node_of_funcScope (hk : FileScopes p k inner src) (hbelow : p.Below inner child)
    {recv : Option NodeId} {name : NodeId} {obj : ObjectId} {o : Object}
    (hf : p.FuncScope k child recv name obj) (ho : p.object obj = .ok o) :
    ∃ n, p.tree.node name = .ok n ∧ n.file = src ∧ n.kind = .ident o.name :=
  hk.funcName (Table.mem_of_get? hf.defines) hf.owns hbelow ho

/-- A function is called what the identifier says that declares it. -/
theorem identName?_of_funcScope (hk : FileScopes p k inner src) (hbelow : p.Below inner child)
    {recv : Option NodeId} {name : NodeId} {obj : ObjectId} {o : Object}
    (hf : p.FuncScope k child recv name obj) (ho : p.object obj = .ok o) :
    p.tree.identName? name = .ok (some o.name) := by
  obtain ⟨n, hn, -, hkind⟩ := hk.node_of_funcScope hbelow hf ho
  unfold SyntaxTree.identName?
  rw [hn]
  show Except.ok n.kind.identName? = _
  rw [hkind]
  rfl

/-- A scope that has the name of a function is the scope of one with that name. -/
theorem funcScope_of_funcName? (hk : FileScopes p k inner src) (hbelow : p.Below inner child)
    (horigins : ScopeOrigins.ofFacts p k.facts = .ok c.origins) {name : String}
    (h : c.origins.funcName? child = some name) :
    ∃ recv ident obj o, p.FuncScope k child recv ident obj ∧ p.object obj = .ok o ∧
      o.name = name := by
  obtain ⟨ident, obj, hmem, hown, hname⟩ := ScopeOrigins.declares_of_funcName? horigins h
  obtain ⟨recv, ident', hf⟩ := hk.funcDeclared hmem hown
  obtain ⟨o, ho, -⟩ := id hown
  obtain ⟨n, hn, -, hkind⟩ := hk.funcName hmem hown hbelow ho
  refine ⟨recv, ident', obj, o, hf, ho, ?_⟩
  unfold SyntaxTree.identName? at hname
  rw [hn] at hname
  have hsome : n.kind.identName? = some name := by
    injection hname
  rw [hkind] at hsome
  exact Option.some.inj hsome

/-- A scope whose label is the name of a function is the scope of one that is not called
`init`. -/
theorem funcScope_of_properFuncName? (hk : FileScopes p k inner src)
    (hbelow : p.Below inner child) (horigins : ScopeOrigins.ofFacts p k.facts = .ok c.origins)
    {name : String} (h : c.properFuncName? child = some name) :
    ∃ recv ident obj o, p.FuncScope k child recv ident obj ∧ p.object obj = .ok o ∧
      o.name = name ∧ o.name ≠ "init" := by
  unfold properFuncName? at h
  obtain ⟨name', hname, h⟩ := Option.bind_eq_some_iff.mp h
  obtain ⟨recv, ident, obj, o, hf, ho, rfl⟩ := hk.funcScope_of_funcName? hbelow horigins hname
  split at h
  · cases h
  · rename_i hinit
    exact ⟨recv, ident, obj, o, hf, ho, Option.some.inj h, hinit⟩

/-- A function whose name is not the label of its scope is called `init`. -/
theorem name_eq_init_of_properFuncName? (hk : FileScopes p k inner src)
    (hbelow : p.Below inner child) (horigins : ScopeOrigins.ofFacts p k.facts = .ok c.origins)
    {recv : Option NodeId}
    {ident : NodeId} {obj : ObjectId} {o : Object} (hf : p.FuncScope k child recv ident obj)
    (ho : p.object obj = .ok o) (h : c.properFuncName? child = none) : o.name = "init" := by
  have hsome := ScopeOrigins.isSome_funcName? horigins (Table.mem_of_get? hf.defines) hf.owns
    (hk.identName?_of_funcScope hbelow hf ho)
  obtain ⟨known, hknown⟩ := Option.isSome_iff_exists.mp hsome
  have hinit : known = "init" := by
    unfold properFuncName? at h
    rw [hknown, Option.bind_some] at h
    split at h
    · assumption
    · cases h
  obtain ⟨recv', ident', obj', o', hf', ho', rfl⟩ :=
    hk.funcScope_of_funcName? hbelow horigins hknown
  obtain rfl := hk.funcUnique hf hf'
  rw [ho] at ho'
  cases ho'
  exact hinit

/-- The label that a declaration of `init` gives to its scope is that of such a function. -/
theorem labelOf_declLabel (hk : FileScopes p k inner src) (hbelow : p.Below inner child)
    (hc : PlacementContext.ofPackage p k labels = .ok c) {recv : Option NodeId} {name : NodeId}
    {obj : ObjectId} {o : Object} {i : Nat} {label : List String}
    (hf : p.FuncScope k child recv name obj) (ho : p.object obj = .ok o) (hinit : o.name = "init")
    (h : c.declLabel recv name = .ok label) : LabelOf p k inner src scope child i label := by
  obtain ⟨hprogram, -⟩ := ofPackage_eq_ok hc
  obtain ⟨n, hn, hsrc, -⟩ := hk.node_of_funcScope hbelow hf ho
  have hident := hk.identName?_of_funcScope hbelow hf ho
  rw [hinit] at hident
  have hfile : p.tree.file name = .ok src := by
    unfold SyntaxTree.file
    rw [hn, ← hsrc]
    rfl
  have hrange : p.tree.range name = .ok n.range := by
    unfold SyntaxTree.range
    rw [hn]
    rfl
  have htext : "init" ++ c.positionTag ⟨src, n.range.start⟩ =
      (Word.init n.range.start.toNat).text (stem p src) := by
    unfold positionTag
    rw [hprogram]
    rfl
  unfold declLabel at h
  simp only [hprogram, hident, hfile, hrange, bind, Except.bind, pure, Except.pure,
    Option.getD_some, if_true, htext] at h
  cases recv with
  | none =>
    cases h
    exact .init hf ho hinit hrange fun _ => rfl
  | some recv =>
    dsimp only at h
    cases hrecv : receiverName? p.tree recv with
    | error f => rw [hrecv] at h; cases h
    | ok recvName =>
      rw [hrecv] at h
      cases h
      exact .init hf ho hinit hrange fun hnone => by cases hnone

/-- The label of a child scope is that of a function or that of a block. -/
theorem labelOf_scopeLabel? (hk : FileScopes p k inner src)
    (hc : PlacementContext.ofPackage p k labels = .ok c) (hbelow : p.Below inner scope)
    (hfound : p.scope scope = .ok found) (hchildren : found.children = before ++ child :: rest)
    {label? : Option (List String)} (h : c.scopeLabel? child = .ok label?) :
    ∃ label, label? = some label ∧
      LabelOf p k inner src scope child before.length label := by
  obtain ⟨hprogram, -, -, horigins⟩ := ofPackage_eq_ok hc
  have hchild : p.HasChild scope child := .of_children hfound hchildren
  have hinside : p.Below inner child := .child hbelow hchild
  obtain ⟨node, n, honly, hnode, hsrc, hfile⟩ :=
    hk.introduced hinside (hk.ne_inner_of_hasChild hbelow hchild)
  have hblock := hk.blockLabel?_eq hc hbelow hfound hchildren hnode hsrc
  have hdone : c.blockLabel? child node = .ok label? → ∃ label, label? = some label ∧
      LabelOf p k inner src scope child before.length label := by
    intro heq
    rw [hblock] at heq
    cases heq
    exact ⟨_, rfl, .block⟩
  unfold scopeLabel? at h
  rw [hprogram, ScopeOrigins.node?_eq_some horigins honly] at h
  obtain ⟨kind, hkind, h⟩ := bind_eq_ok_iff.mp h
  obtain rfl : n.kind = kind := by
    unfold SyntaxTree.kind at hkind
    rw [hnode] at hkind
    injection hkind
  cases hshape : n.kind with
  | file => rw [hshape] at hfile; cases hfile
  | funcType params results =>
    simp only [hshape] at h
    cases hproper : c.properFuncName? child with
    | some name =>
      rw [hproper] at h
      cases h
      obtain ⟨recv, ident, obj, o, hf, ho, rfl, hinit⟩ :=
        hk.funcScope_of_properFuncName? hinside horigins hproper
      exact ⟨_, rfl, .func hf ho hinit⟩
    | none =>
      rw [hproper] at h
      obtain ⟨n', hnode', h⟩ := bind_eq_ok_iff.mp h
      rw [hnode] at hnode'
      cases hnode'
      cases hparent : n.parent with
      | none =>
        rw [hparent] at h
        exact hdone h
      | some decl =>
        rw [hparent] at h
        obtain ⟨declKind, hdecl, h⟩ := bind_eq_ok_iff.mp h
        split at h
        · rename_i recv name own body doc
          obtain ⟨label, hlabel, h⟩ := bind_eq_ok_iff.mp h
          cases h
          obtain ⟨obj, hf⟩ := hk.funcOwned ((honly node).mpr rfl)
            ⟨n, params, results, decl, own, body, doc, hnode, hshape, hparent, hdecl⟩
          obtain ⟨o, ho, -⟩ := id hf.owns
          have hinit := hk.name_eq_init_of_properFuncName? hinside horigins hf ho hproper
          exact ⟨label, rfl, hk.labelOf_declLabel hinside hc hf ho hinit hlabel⟩
        · exact hdone h
  | _ =>
    simp only [hshape] at h
    exact hdone h

/-- The scope of the file has no label. -/
theorem scopeLabel?_file (hk : FileScopes p k inner src)
    (hc : PlacementContext.ofPackage p k labels = .ok c) : c.scopeLabel? inner = .ok (some []) := by
  obtain ⟨hprogram, -, -, horigins⟩ := ofPackage_eq_ok hc
  obtain ⟨file, n, honly, hn, -, hkind⟩ := hk.fileScope
  unfold scopeLabel?
  rw [hprogram, ScopeOrigins.node?_eq_some horigins honly]
  refine bind_eq_ok_iff.mpr ⟨n.kind, ?_, ?_⟩
  · unfold SyntaxTree.kind
    rw [hn]
    rfl
  · cases hshape : n.kind with
    | file => rfl
    | _ => rw [hshape] at hkind; cases hkind

/-- The path of the scope of the file is empty. -/
theorem scopePath_file (hk : FileScopes p k inner src)
    (hc : PlacementContext.ofPackage p k labels = .ok c) {s s' : Placements} {path : DefPath}
    (hknown : ∀ path, s.scopes.get? inner = some path → path = [])
    (h : c.scopePath s [] inner = .ok (path, s')) : path = [] := by
  rcases scopePath_eq_ok h with ⟨hpath, -⟩ | ⟨-, -, -, hlabel⟩
  · exact hknown path hpath
  · have hnone := hk.scopeLabel?_file hc
    rcases hlabel with ⟨label, hlabel, rfl⟩ | ⟨hlabel, -⟩
    · rw [hnone] at hlabel
      cases hlabel
      rfl
    · rw [hnone] at hlabel
      cases hlabel

end FileScopes

/-! ## Three small packages -/

/-- Where the body of the second of two functions stands, and what has its name beside it. -/
inductive Layout where
  /-- The functions `f` and `g` stand side by side; `f` has a variable `w`. -/
  | apart
  /-- The body of `g` stands in that of `f`, which has a variable `g`. -/
  | nested
  /-- The second function and a variable of the package are called `_`. -/
  | blank

namespace Layout

/-- The name of the second function. -/
def funcName : Layout → String
  | .blank => "_"
  | _ => "g"

/-- The functions, the variable with a struct type, the field of that, and the variable of the
second function. -/
def objects : Layout → Array Object
  | .apart => #[⟨"f", .func (some ⟨2⟩), some ⟨0⟩, some ⟨0⟩, none, none⟩,
      ⟨"g", .func (some ⟨3⟩), some ⟨0⟩, some ⟨0⟩, none, none⟩,
      ⟨"w", .var, some ⟨0⟩, some ⟨2⟩, none, some ⟨0⟩⟩,
      ⟨"x", .field false, some ⟨0⟩, none, none, none⟩,
      ⟨"x", .var, some ⟨0⟩, some ⟨3⟩, none, none⟩]
  | .nested => #[⟨"f", .func (some ⟨2⟩), some ⟨0⟩, some ⟨0⟩, none, none⟩,
      ⟨"g", .func (some ⟨3⟩), some ⟨0⟩, some ⟨0⟩, none, none⟩,
      ⟨"g", .var, some ⟨0⟩, some ⟨2⟩, none, some ⟨0⟩⟩,
      ⟨"x", .field false, some ⟨0⟩, none, none, none⟩,
      ⟨"x", .var, some ⟨0⟩, some ⟨3⟩, none, none⟩]
  | .blank => #[⟨"f", .func (some ⟨2⟩), some ⟨0⟩, some ⟨0⟩, none, none⟩,
      ⟨"_", .func (some ⟨3⟩), some ⟨0⟩, none, none, none⟩,
      ⟨"_", .var, some ⟨0⟩, some ⟨0⟩, none, some ⟨0⟩⟩,
      ⟨"x", .field false, some ⟨0⟩, none, none, none⟩,
      ⟨"x", .var, some ⟨0⟩, some ⟨3⟩, none, none⟩]

/-- The scopes of the package, of its file, and of the two functions. -/
def scopes : Layout → Array Scope
  | .apart => #[⟨none, [⟨1⟩], [("f", ⟨0⟩), ("g", ⟨1⟩)]⟩, ⟨some ⟨0⟩, [⟨2⟩, ⟨3⟩], []⟩,
      ⟨some ⟨1⟩, [], [("w", ⟨2⟩)]⟩, ⟨some ⟨1⟩, [], [("x", ⟨4⟩)]⟩]
  | .nested => #[⟨none, [⟨1⟩], [("f", ⟨0⟩), ("g", ⟨1⟩)]⟩, ⟨some ⟨0⟩, [⟨2⟩], []⟩,
      ⟨some ⟨1⟩, [⟨3⟩], [("g", ⟨2⟩)]⟩, ⟨some ⟨2⟩, [], [("x", ⟨4⟩)]⟩]
  | .blank => #[⟨none, [⟨1⟩], [("_", ⟨2⟩), ("f", ⟨0⟩)]⟩, ⟨some ⟨0⟩, [⟨2⟩, ⟨3⟩], []⟩,
      ⟨some ⟨1⟩, [], []⟩, ⟨some ⟨1⟩, [], [("x", ⟨4⟩)]⟩]

/-- The program that consists of the package. -/
def program (l : Layout) : Program where
  sources := ⟨#[⟨"p.go", ""⟩]⟩
  tree := ⟨#[⟨.ident "f", ⟨0⟩, .upTo 1, some ⟨3⟩⟩, ⟨.fieldList [], ⟨0⟩, .upTo 1, some ⟨2⟩⟩,
    ⟨.funcType ⟨1⟩ none, ⟨0⟩, .upTo 1, some ⟨3⟩⟩,
    ⟨.funcDecl none ⟨0⟩ ⟨2⟩ none none, ⟨0⟩, .upTo 1, some ⟨9⟩⟩,
    ⟨.ident l.funcName, ⟨0⟩, .upTo 1, some ⟨7⟩⟩, ⟨.fieldList [], ⟨0⟩, .upTo 1, some ⟨6⟩⟩,
    ⟨.funcType ⟨5⟩ none, ⟨0⟩, .upTo 1, some ⟨7⟩⟩,
    ⟨.funcDecl none ⟨4⟩ ⟨6⟩ none none, ⟨0⟩, .upTo 1, some ⟨9⟩⟩,
    ⟨.ident "p", ⟨0⟩, .upTo 1, some ⟨9⟩⟩,
    ⟨.file ⟨8⟩ [⟨3⟩, ⟨7⟩] none [], ⟨0⟩, .upTo 1, none⟩]⟩
  objects := l.objects
  types := #[.struct [⟨3⟩]]
  scopes := l.scopes
  packages := #[⟨"p", "p", ⟨0⟩⟩]

/-- The package as it was checked. -/
def package : CheckedPackage where
  pkg := ⟨0⟩
  files := [⟨9⟩]
  facts := { Facts.empty with
    defs := ⟨[(⟨0⟩, ⟨0⟩), (⟨4⟩, ⟨1⟩)]⟩
    scopes := ⟨[(⟨2⟩, ⟨2⟩), (⟨6⟩, ⟨3⟩), (⟨9⟩, ⟨1⟩)]⟩ }

variable (l : Layout)

/-- The samples have one field. -/
theorem eq_of_isField {obj : ObjectId} (h : l.program.IsField obj) : obj = ⟨3⟩ := by
  have hmem := h.mem_fieldList
  cases l <;> exact List.mem_singleton.mp hmem

/-- The types of the samples have no methods. -/
theorem not_hasMethod (type : TypeId) (obj : ObjectId) : ¬ l.program.HasMethod type obj := by
  rintro ⟨methods, hmethods, hmem⟩
  rcases type with ⟨_ | i⟩
  · cases l <;> (cases hmethods; cases hmem)
  · cases l <;> cases hmethods

/-- The function of number `i` is the object of that number, and its scope is two further. -/
theorem eq_of_ownsScope {obj : ObjectId} {scope : ScopeId} (h : l.program.OwnsScope obj scope) :
    ∃ i : Fin 2, obj = ⟨i⟩ ∧ scope = ⟨i + 2⟩ := by
  obtain ⟨o, ho, hkind⟩ := h
  have hall : ∀ x ∈ l.program.objectList, ∀ scope, x.2.kind = .func (some scope) →
      ∃ i : Fin 2, x.1 = ⟨i⟩ ∧ scope = ⟨i + 2⟩ := by
    cases l <;> simp [Program.objectList, program, objects]
  exact hall _ (Program.mem_objectList ho) scope hkind

/-- The two functions are declared by names and types that stand four nodes apart. -/
theorem declaresFunc (i : Fin 2) : l.program.DeclaresFunc ⟨4 * i + 2⟩ none ⟨4 * i⟩ := by
  match i with
  | 0 | 1 => exact ⟨_, _, _, _, _, _, _, rfl, rfl, rfl, rfl⟩

/-- A scope is introduced by the type of a function or by the file. -/
theorem scopes_entries {node : NodeId} {scope : ScopeId}
    (h : (node, scope) ∈ package.facts.scopes.entries) :
    (∃ i : Fin 2, node = ⟨4 * i + 2⟩ ∧ scope = ⟨i + 2⟩) ∨ node = ⟨9⟩ ∧ scope = ⟨1⟩ := by
  simpa [package, Fin.exists_fin_two, or_assoc] using h

/-- The function of number `i` has its scope. -/
theorem funcScope (i : Fin 2) : l.program.FuncScope package ⟨i + 2⟩ none ⟨4 * i⟩ ⟨i⟩ where
  declared := ⟨⟨4 * i + 2⟩, by decide +revert, l.declaresFunc i⟩
  defines := by decide +revert
  owns := by
    match i with
    | 0 | 1 => cases l <;> exact ⟨_, rfl, rfl⟩

/-- What a scope is introduced by declares a function only where it is one of the two. -/
theorem eq_of_declaresFunc {type : NodeId} {scope : ScopeId} {recv : Option NodeId}
    {name : NodeId} (hmem : (type, scope) ∈ package.facts.scopes.entries)
    (h : l.program.DeclaresFunc type recv name) :
    ∃ i : Fin 2, scope = ⟨i + 2⟩ ∧ recv = none ∧ name = ⟨4 * i⟩ := by
  rcases scopes_entries hmem with ⟨i, rfl, rfl⟩ | ⟨rfl, rfl⟩
  · obtain ⟨rfl, rfl⟩ := h.eq (l.declaresFunc i)
    exact ⟨i, rfl, rfl, rfl⟩
  · obtain ⟨n, _, _, _, _, _, _, hn, hkind, -⟩ := h
    cases hn
    cases hkind

/-- There are no functions with scopes but the two. -/
theorem eq_of_funcScope {scope : ScopeId} {recv : Option NodeId} {name : NodeId} {obj : ObjectId}
    (h : l.program.FuncScope package scope recv name obj) :
    ∃ i : Fin 2, scope = ⟨i + 2⟩ ∧ recv = none ∧ name = ⟨4 * i⟩ ∧ obj = ⟨i⟩ := by
  obtain ⟨type, hmem, hdecl⟩ := h.declared
  obtain ⟨i, rfl, rfl, rfl⟩ := l.eq_of_declaresFunc hmem hdecl
  exact ⟨i, rfl, rfl, rfl, Option.some.inj (h.defines.symm.trans (l.funcScope i).defines)⟩

/-- Each sample is a package as the language has them. -/
theorem oneFile : OneFile l.program package ⟨0⟩ ⟨1⟩ ⟨9⟩ ⟨0⟩ where
  tree := Program.scopeTree_of_lists (by cases l <;> decide) (by cases l <;> decide)
    (by cases l <;> decide) (by cases l <;> decide)
  members := {
    fieldKind := fun h ho => by
      obtain rfl := l.eq_of_isField h
      cases l <;> (cases ho; exact ⟨false, rfl⟩)
    methodKind := fun ⟨type, h⟩ _ => absurd h (l.not_hasMethod type _)
    fieldUnbound := fun h hb => by
      obtain rfl := l.eq_of_isField h
      have hall : ∀ x ∈ l.program.bindingList, x.2.2 ≠ ⟨3⟩ := by cases l <;> decide
      exact hall _ hb.mem_bindingList rfl
    methodUnbound := fun ⟨type, h⟩ => absurd h (l.not_hasMethod type _) }
  owner := ⟨_, rfl, rfl⟩
  files := rfl
  isFile := ⟨_, rfl, rfl, rfl⟩
  children := by cases l <;> exact ⟨_, rfl, rfl⟩
  fileScope node := by simp [package]
  introduced := fun hbelow hne => by
    cases hbelow with
    | refl => exact absurd rfl hne
    | child _ hchild =>
      have hall : ∀ x ∈ l.program.childList, x.2 = ⟨1⟩ ∨ x.2 = ⟨2⟩ ∨ x.2 = ⟨3⟩ := by
        cases l <;> decide
      rcases hall _ hchild.mem_childList with rfl | rfl | rfl
      · exact absurd rfl hne
      · exact ⟨⟨2⟩, _, fun other => by simp [package], rfl, rfl, rfl⟩
      · exact ⟨⟨6⟩, _, fun other => by simp [package], rfl, rfl, rfl⟩
  boundOnce := fun ha hb => by
    have hall : ∀ x ∈ l.program.bindingList, ∀ y ∈ l.program.bindingList,
        x.2.2 = y.2.2 → x.1 = y.1 := by cases l <;> decide
    exact hall _ ha.mem_bindingList _ hb.mem_bindingList rfl
  imports := fun h => by
    have hall : ∀ x ∈ l.program.bindingList, x.1 ≠ ⟨1⟩ := by cases l <;> decide
    exact absurd rfl (hall _ h.mem_bindingList)
  plainBinding := fun _ h => by
    have hall : ∀ x ∈ l.program.bindingList, '$' ∉ x.2.1.toList ∧ '/' ∉ x.2.1.toList := by
      cases l <;> decide
    exact hall _ h.mem_bindingList
  plainObject := fun ho => by
    have hall : ∀ x ∈ l.program.objectList, '$' ∉ x.2.name.toList ∧ '/' ∉ x.2.name.toList := by
      cases l <;> decide
    exact hall _ (Program.mem_objectList ho)
  fieldNames := fun hfields ha hb _ =>
    (l.eq_of_isField ⟨_, _, hfields, ha⟩).trans (l.eq_of_isField ⟨_, _, hfields, hb⟩).symm
  memberNames := fun _ ha hb _ => by
    have honly : ∀ {type under obj}, l.program.HasMethod type obj ∨ l.program.HasField under obj →
        obj = ⟨3⟩ := by
      rintro type under obj (h | h)
      · exact absurd h (l.not_hasMethod type obj)
      · exact l.eq_of_isField h.isField
    exact (honly ha).trans (honly hb).symm
  funcDeclared := fun h _ => by
    obtain ⟨i, rfl, rfl⟩ := l.eq_of_ownsScope h
    exact ⟨_, _, l.funcScope i⟩
  funcOwned := fun hmem hdecl => by
    obtain ⟨i, rfl, rfl, rfl⟩ := l.eq_of_declaresFunc hmem hdecl
    exact ⟨_, l.funcScope i⟩
  funcUnique := fun ha hb => by
    obtain ⟨i, rfl, -, -, rfl⟩ := l.eq_of_funcScope ha
    obtain ⟨j, hscope, -, -, rfl⟩ := l.eq_of_funcScope hb
    injection hscope with hscope
    exact congrArg ObjectId.mk (Nat.add_right_cancel hscope)
  funcName := fun hmem _ ho => by
    simp only [package, List.mem_cons, Prod.mk.injEq, List.not_mem_nil, or_false] at hmem
    rcases hmem with ⟨rfl, rfl⟩ | ⟨rfl, rfl⟩ <;>
      (cases l <;> (cases ho; exact ⟨_, rfl, rfl, rfl⟩))
  funcBelow := fun h => by
    have hall : ∀ i : Fin 2, l.program.Below ⟨1⟩ ⟨i + 2⟩ ∧ (⟨i + 2⟩ : ScopeId) ≠ ⟨1⟩ := by
      have hf : l.program.Below ⟨1⟩ ⟨2⟩ := .child .refl (by cases l <;> exact ⟨_, rfl, by decide⟩)
      refine Fin.forall_fin_two.mpr ⟨⟨hf, by decide⟩, ?_, by decide⟩
      cases l with
      | apart => exact .child .refl ⟨_, rfl, by decide⟩
      | nested => exact .child hf ⟨_, rfl, by decide⟩
      | blank => exact .child .refl ⟨_, rfl, by decide⟩
    obtain ⟨i, rfl, -⟩ := l.eq_of_funcScope h
    exact hall i
  funcBound := fun h ho _ hblank => by
    have hall : ∀ (i : Fin 2) {o}, l.program.object ⟨i⟩ = .ok o → o.name ≠ "_" →
        l.program.Binds ⟨0⟩ o.name ⟨i⟩ := by
      refine Fin.forall_fin_two.mpr ⟨fun ho _ => ?_, fun ho hblank => ?_⟩
      · cases l <;> (cases ho; exact ⟨_, rfl, by decide⟩)
      · cases l with
        | apart => cases ho; exact ⟨_, rfl, by decide⟩
        | nested => cases ho; exact ⟨_, rfl, by decide⟩
        | blank => cases ho; exact absurd rfl hblank
    obtain ⟨i, -, -, -, rfl⟩ := l.eq_of_funcScope h
    exact hall i ho hblank
  funcListed := fun h => by
    obtain ⟨_, -, hrecv, -⟩ := l.eq_of_funcScope h
    cases hrecv
  initApart := fun _ _ hoa _ hinit => by
    have hall : ∀ x ∈ l.program.objectList, x.2.name ≠ "init" := by cases l <;> decide
    exact absurd hinit (hall _ (Program.mem_objectList hoa))

/-- In the first sample the functions stand side by side and nothing of a type is called `_`. -/
theorem flatFile : FlatFile Layout.apart.program package ⟨0⟩ ⟨1⟩ ⟨9⟩ ⟨0⟩ where
  toOneFile := Layout.apart.oneFile
  funcNested := fun h => by
    have hall : ∀ i : Fin 2, (⟨i + 2⟩ : ScopeId) ∈ [⟨2⟩, ⟨3⟩] := by decide
    obtain ⟨i, rfl, -⟩ := Layout.apart.eq_of_funcScope h
    exact ⟨_, rfl, hall i⟩
  blankFree := fun h _ => by
    have hall : ∀ x ∈ Layout.apart.program.bindingList, x.2.1 ≠ "_" := by decide
    exact absurd rfl (hall _ h.mem_bindingList)

end Layout

end SymbolGraph
