import SymbolGraph.Proofs.Placement.Termination
import SymbolGraph.Proofs.Run.Ledger
import SymbolGraph.Proofs.Syntax.Descendants

/-!
# Runs of well-formed programs

A run over a package of a well-formed program comes to a result: every question that a step asks has
an answer, since whatever it asks about is there (`Emit.Proceeds`). The only state that matters for
this are the types through which fields were selected, which are asked about again when the key of
a field is looked up.
-/

namespace SymbolGraph

open Emit

/-! ## Keys -/

/-- The types through which fields were selected are there. -/
def Program.Selects (p : Program) (selected : Selected) : Prop :=
  ∀ obj type, selected.get? obj = some type → p.HasType type

namespace GraphContext

open Program PlacementContext

/-- What a package that is being graphed needs: its program is well-formed, and so are the facts
about it and the places. -/
structure Ready (c : GraphContext) : Prop where
  closed : c.program.Closed
  grounded : c.program.Grounded
  covers : c.program.Covers c.package
  program : c.placement.program = c.program
  facts : c.placement.facts = c.package.facts

variable {c : GraphContext} {selected : Selected} {obj : ObjectId} {o : Object}

/-- The widest scope around a position can be found out. -/
theorem answered_widestScopeAt? (hc : c.Ready) (pos : Pos) :
    Answered (c.placement.widestScopeAt? pos) := by
  refine (Answers.filterMapM fun ⟨node, scope⟩ he => ?_).bind fun _ _ => .pure trivial
  rw [hc.facts] at he
  rw [hc.program]
  exact (answers_node (hc.covers.scopes _ he).1).bind fun _ _ => .pure trivial

/-- A path can be made up below a scope, if the scope has one. -/
theorem answered_pathAround (s : Placements) (o : Object) (tag : String)
    (around : Option ScopeId) :
    Answered (match around.or o.parent with
      | none => return none
      | some scope =>
        match s.scopes.get? scope with
        | none => return none
        | some base => return some (base ++ [o.name ++ tag]) :
      Except Fault (Option DefPath)) := by
  split
  · exact .pure trivial
  · split
    · exact .pure trivial
    · exact .pure trivial

/-- The path of an object of the package can be found out. -/
theorem answered_localPath? (hc : c.Ready) (hobj : c.program.HasObject obj) :
    Answered (c.placement.localPath? c.places obj) := by
  unfold localPath?
  cases c.places.place? obj with
  | some p => exact .pure trivial
  | none =>
    rw [hc.program]
    refine (answers_object hobj).bind fun o ho => ?_
    cases o.pos with
    | none => exact answered_pathAround c.places o _ none
    | some pos =>
      exact (answered_widestScopeAt? hc pos).bind fun around _ =>
        answered_pathAround c.places o _ around

/-- Whether a type name is predeclared can be found out. -/
theorem answered_isPredeclaredType (hc : c.Ready) (ho : c.program.object obj = .ok o) :
    Answered (isPredeclaredType c.program o) := by
  unfold isPredeclaredType
  cases htype : o.type with
  | none => exact .pure trivial
  | some type =>
    refine (answers_type (hc.closed.hasType ho htype)).bind fun found hfound => ?_
    split
    · exact .pure trivial
    · exact .pure trivial

/-- The type that a member of another package is keyed by is there. -/
theorem answers_ownerType? (hc : c.Ready) (hselected : c.program.Selects selected)
    (hobj : c.program.HasObject obj) :
    Answers (c.ownerType? selected obj o) fun type? => ∀ type ∈ type?, c.program.HasType type := by
  unfold ownerType?
  split
  · exact answers_receiverType? hc.closed hobj
  · exact .pure fun type htype => hselected obj type htype
  · exact .pure fun type htype => by cases htype

/-- The name of a type can be found out. -/
theorem answered_typeName? (hc : c.Ready) {type : TypeId} (htype : c.program.HasType type) :
    Answered (typeName? c.program type) := by
  refine (answers_deref hc.closed htype).bind fun target htarget => ?_
  refine (answers_type htarget).bind fun found hfound => ?_
  split
  · exact (answers_object (hc.closed.hasObject_of_owner hfound List.mem_cons_self)).bind
      fun _ _ => .pure trivial
  · exact .pure trivial

/-- The path of an object of another package can be found out. -/
theorem answered_foreignPath (hc : c.Ready) (hselected : c.program.Selects selected)
    (hobj : c.program.HasObject obj) : Answered (c.foreignPath selected obj o) := by
  refine (answers_ownerType? hc hselected hobj).bind fun type? htype => ?_
  cases type? with
  | none => exact .pure trivial
  | some type => exact (answered_typeName? hc (htype type rfl)).bind fun _ _ => .pure trivial

/-- The path of any object can be found out. -/
theorem answered_objectPath? (hc : c.Ready) (hselected : c.program.Selects selected)
    (hobj : c.program.HasObject obj) : Answered (c.objectPath? selected obj o) := by
  unfold objectPath?
  split
  · exact answered_localPath? hc hobj
  · exact (answered_foreignPath hc hselected hobj).map fun _ _ => trivial

/-- The key of an object that is keyed by its path can be found out. -/
theorem answered_plainKey? (hc : c.Ready) (hselected : c.program.Selects selected)
    (ho : c.program.object obj = .ok o) (hobj : c.program.HasObject obj) :
    Answered (c.plainKey? selected obj o) := by
  unfold plainKey?
  cases hpkg : o.pkg with
  | none => exact .pure trivial
  | some pkg =>
    refine (answered_objectPath? hc hselected hobj).bind fun path? _ => ?_
    cases path? with
    | none => exact .pure trivial
    | some path =>
      exact (answers_package (hc.closed.hasPackage ho hpkg)).bind fun _ _ => .pure trivial

/-- Whether an object has a key can be found out. -/
theorem answered_objectKey? (hc : c.Ready) (hselected : c.program.Selects selected)
    (hobj : c.program.HasObject obj) : Answered (c.objectKey? selected obj) := by
  refine (answers_object hobj).bind fun o ho => ?_
  have hplain := answered_plainKey? hc hselected ho hobj
  split
  · exact .pure trivial
  · exact .pure trivial
  · rename_i imported hkind
    exact (answers_package (hc.closed.hasPackage_of_import ho hkind)).bind fun _ _ => .pure trivial
  · refine (answered_isPredeclaredType hc ho).bind fun basic _ => ?_
    split
    · exact .pure trivial
    · exact hplain
  · exact hplain

/-! ## Definitions -/

/-- What kind of definition an object has can be found out. -/
theorem answered_defKind? (hc : c.Ready) (hobj : c.program.HasObject obj) :
    Answered (defKind? c.program obj o) := by
  unfold defKind?
  split
  all_goals first
    | exact .pure trivial
    | skip
  refine (answers_receiver? hc.closed hobj).bind fun recv? _ => ?_
  cases recv? with
  | none => exact .pure trivial
  | some recv => exact .pure trivial

/-- The text of a method's receiver can be found out. -/
theorem answered_receiverText? (hc : c.Ready) (hobj : c.program.HasObject obj) :
    Answered (c.receiverText? obj) := by
  refine (answers_receiverType? hc.closed hobj).bind fun type? htype => ?_
  cases type? with
  | none => exact .pure trivial
  | some type =>
    exact (answers_typeText hc.closed hc.grounded (htype type rfl)).bind fun _ _ => .pure trivial

/-- The texts of an object's type and of what is underlying it can be found out. -/
theorem answered_typeTexts (hc : c.Ready) (ho : c.program.object obj = .ok o) :
    Answered (typeTexts c.program o.type) := by
  cases htype : o.type with
  | none => exact .pure trivial
  | some type =>
    have htype := hc.closed.hasType ho htype
    refine (answers_typeText hc.closed hc.grounded htype).bind fun _ _ => ?_
    refine (answers_underlying hc.closed hc.grounded.names htype).bind fun under hunder => ?_
    exact (answers_typeText hc.closed hc.grounded hunder).bind fun _ _ => .pure trivial

/-- The definition of an object can be found out. -/
theorem answered_definition (hc : c.Ready) {structName : Option String} {decl name : NodeId}
    {kind : DefKind} {k : KeyedObject} (hdecl : c.program.tree.HasNode decl)
    (hname : c.program.tree.HasNode name) (hobj : c.program.HasObject obj)
    (ho : c.program.object obj = .ok o) :
    Answered (c.definition structName decl name obj o kind k) := by
  refine (answered_receiverText? hc hobj).bind fun _ _ => ?_
  refine (answered_typeTexts hc ho).bind fun _ _ => ?_
  refine (answers_node hname).bind fun _ _ => ?_
  exact (answers_node hdecl).bind fun _ _ => .pure trivial

/-- What a name declares is there. -/
theorem answers_declared? (hc : c.Ready) {name : NodeId} (hname : c.program.tree.HasNode name) :
    Answers (c.declared? name) fun obj? => ∀ obj ∈ obj?, c.program.HasObject obj := by
  refine (answered_identName? hname).bind fun name? _ => ?_
  split
  · exact .pure fun obj hobj => by cases hobj
  · refine .pure fun obj hobj => ?_
    exact (hc.covers.defs _ (Table.mem_of_get? (Option.mem_def.mp hobj))).2
  · exact .pure fun obj hobj => by cases hobj

/-- The names that a node presents are there. -/
theorem answers_declaredNames (hc : c.Ready) {node : NodeId} {n : Node}
    (hn : c.program.tree.node node = .ok n) :
    Answers (declaredNames c.program.tree n.kind) fun names =>
      ∀ name ∈ names, c.program.tree.HasNode name := by
  have hbelow : ∀ child ∈ n.kind.readBelow, c.program.tree.HasNode child := fun child hchild =>
    hc.closed.children.hasNode hn (NodeKind.mem_children_of_mem_readBelow hchild)
  have hanswered : Answered (declaredNames c.program.tree n.kind) := by
    unfold declaredNames
    split
    all_goals first
      | exact .pure trivial
      | skip
    rename_i names type doc comment hkind
    have htype := hc.closed.children.hasNode hn
      (show type ∈ n.kind.children by rw [hkind]; exact List.mem_append_right _ List.mem_cons_self)
    refine (answers_kind htype).bind fun kind _ => ?_
    split
    · exact .pure trivial
    · exact .pure trivial
  obtain ⟨names, hnames, -⟩ := hanswered
  refine ⟨names, hnames, fun name hname => ?_⟩
  rcases mem_declaredNames hnames hname with hmem | ⟨type, hmem, hstar⟩
  · exact hbelow name hmem
  · obtain ⟨n', hn', hkind⟩ := SyntaxTree.node_of_kind hstar
    exact hc.closed.children.hasNode hn' (by rw [hkind]; exact List.mem_cons_self)

end GraphContext

/-! ## Steps -/

section Steps

variable {α β : Type} {p : Program} {m : Emit α} {wanted : α → Prop}

/-- Whatever has been selected, as long as it is there, a step comes to an end without a fault, and
with a value as wanted; what has been selected by then is there as well. -/
def Emit.Proceeds (p : Program) (m : Emit α) (wanted : α → Prop) : Prop :=
  ∀ s, p.Selects s.selected → ∃ a t, m s = .ok a t ∧ p.Selects t.selected ∧ wanted a

namespace Emit.Proceeds

/-- A value that is wanted. -/
protected theorem pure {a : α} (h : wanted a) : Proceeds p (pure a) wanted :=
  fun s hs => ⟨a, s, rfl, hs, h⟩

/-- One step after another proceeds, if the second one does whatever value the first one is wanted
to give. -/
protected theorem bind {next : α → Emit β} {then' : β → Prop} (h : Proceeds p m wanted)
    (hnext : ∀ a, wanted a → Proceeds p (next a) then') : Proceeds p (m >>= next) then' := by
  intro s hs
  obtain ⟨a, t, ha, ht, hwanted⟩ := h s hs
  obtain ⟨b, u, hb, hu, hthen⟩ := hnext a hwanted t ht
  exact ⟨b, u, bind_eq_ok_iff.mpr ⟨a, t, ha, hb⟩, hu, hthen⟩

/-- A question that has an answer proceeds. -/
protected theorem ask {answer : Except Fault α} (h : Answers answer wanted) :
    Proceeds p (ask answer) wanted := by
  intro s hs
  obtain ⟨a, ha, hwanted⟩ := h
  exact ⟨a, s, ask_eq_ok_iff.mpr ⟨ha, rfl⟩, hs, hwanted⟩

/-- A look at what has been found, which then is what the step starts from. -/
protected theorem get_bind {next : Emission → Emit α}
    (h : ∀ s, p.Selects s.selected → Proceeds p (next s) wanted) :
    Proceeds p ((get : Emit Emission) >>= next) wanted := by
  intro s hs
  rw [get_bind_apply]
  exact h s hs s hs

/-- A change that selects nothing. -/
protected theorem modify {change : Emission → Emission}
    (h : ∀ s, (change s).selected = s.selected) :
    Proceeds p (modify change : Emit Unit) fun _ => True := by
  intro s hs
  exact ⟨(), change s, modify_apply change s, by rw [h]; exact hs, trivial⟩

/-- An error is added without a fault. -/
protected theorem fail (e : GraphError) : Proceeds p (fail e) fun _ => True := .modify fun _ => rfl

/-- A key is claimed without a fault. -/
protected theorem claim (key : String) (obj : Option ObjectId) :
    Proceeds p (claim key obj) fun _ => True := .modify fun _ => rfl

/-- A definition is added without a fault. -/
protected theorem addDef (d : Def) : Proceeds p (addDef d) fun _ => True := .modify fun _ => rfl

/-- A reference is added without a fault. -/
protected theorem addRef (r : Ref) : Proceeds p (addRef r) fun _ => True := .modify fun _ => rfl

/-- A text is added without a fault. -/
protected theorem addDoc (d : Doc) : Proceeds p (addDoc d) fun _ => True := .modify fun _ => rfl

/-- A step for each item proceeds, if all of these steps do. -/
protected theorem each {f : α → Emit Unit} {list : List α}
    (h : ∀ a ∈ list, Proceeds p (f a) fun _ => True) :
    Proceeds p (each f list) fun _ => True := by
  induction list with
  | nil => exact .pure trivial
  | cons a rest ih =>
    exact (h a List.mem_cons_self).bind fun _ _ => ih fun b hb => h b (List.mem_cons_of_mem _ hb)

/-- Documenting one item after another proceeds, if all of these steps do. -/
protected theorem eachWith {f : DocState → α → Emit DocState} {list : List α} (state : DocState)
    (h : ∀ state, ∀ a ∈ list, Proceeds p (f state a) fun _ => True) :
    Proceeds p (GraphContext.eachWith f state list) fun _ => True := by
  induction list generalizing state with
  | nil => exact .pure trivial
  | cons a rest ih =>
    exact (h state a List.mem_cons_self).bind fun state' _ =>
      ih state' fun state b hb => h state b (List.mem_cons_of_mem _ hb)

end Emit.Proceeds

end Steps

namespace GraphContext

open Program PlacementContext

variable {c : GraphContext} {obj : ObjectId} {node : NodeId}

/-- A step of a run that proceeds. -/
abbrev Proceeds (c : GraphContext) {α : Type} (m : Emit α) : Prop :=
  Emit.Proceeds c.program m fun _ => True

/-! ### References and definitions -/

/-- Looking up the key of an object that is there proceeds. -/
theorem proceeds_keyOf (hc : c.Ready) (hobj : c.program.HasObject obj) :
    c.Proceeds (c.keyOf obj) := by
  refine .get_bind fun s _ => ?_
  split
  · exact .pure trivial
  · refine .get_bind fun s hs => ?_
    refine (Emit.Proceeds.ask (answered_objectKey? hc hs hobj)).bind fun k? _ => ?_
    split
    · rename_i k
      have hknown : c.Proceeds (modify fun s =>
          { s with keys := s.keys.install c.package.pkg obj k }) := .modify fun _ => rfl
      exact hknown.bind fun _ _ => .pure trivial
    · exact .pure trivial

/-- A reference from a node that is there proceeds. -/
theorem proceeds_emitRef (hc : c.Ready) (hnode : c.program.tree.HasNode node)
    (hobj : c.program.HasObject obj) (isDef : Bool) : c.Proceeds (c.emitRef node obj isDef) := by
  refine (proceeds_keyOf hc hobj).bind fun k? _ => ?_
  cases k? with
  | none => exact .pure trivial
  | some k =>
    exact (Emit.Proceeds.ask (answers_node hnode)).bind fun _ _ => .addRef _

/-- A definition of an object that is there proceeds. -/
theorem proceeds_emitDef (hc : c.Ready) {structName : Option String} {decl name : NodeId}
    {o : Object} {kind : DefKind} (hdecl : c.program.tree.HasNode decl)
    (hname : c.program.tree.HasNode name) (hobj : c.program.HasObject obj)
    (ho : c.program.object obj = .ok o) :
    c.Proceeds (c.emitDef structName decl name obj o kind) := by
  refine (proceeds_keyOf hc hobj).bind fun k? _ => ?_
  cases k? with
  | none => exact .pure trivial
  | some k =>
    refine .get_bind fun s _ => ?_
    split
    · split
      · exact .pure trivial
      · exact .fail _
    · exact .fail _
    · refine (Emit.Proceeds.claim _ _).bind fun _ _ => ?_
      exact (Emit.Proceeds.ask (answered_definition hc hdecl hname hobj ho)).bind fun d _ =>
        .addDef d

/-- Declaring a name proceeds, also if it ends in an error, which is no fault. -/
theorem proceeds_declare (hc : c.Ready) {structName : Option String} {decl name : NodeId}
    (hdecl : c.program.tree.HasNode decl) (hname : c.program.tree.HasNode name) :
    c.Proceeds (c.declare structName decl name) := by
  refine (Emit.Proceeds.ask (answers_declared? hc hname)).bind fun obj? hobj => ?_
  cases obj? with
  | none => exact .pure trivial
  | some obj =>
    have hobj := hobj obj rfl
    refine (Emit.Proceeds.ask (answers_object hobj)).bind fun o ho => ?_
    refine (Emit.Proceeds.ask (answered_defKind? hc hobj)).bind fun kind? _ => ?_
    split
    · exact .fail _
    · exact .pure trivial
    · exact proceeds_emitDef hc hdecl hname hobj ho

/-! ### Visits -/

/-- A selection records the type that the member was selected through, which has just been
found. -/
theorem proceeds_visitUses_selector (hc : c.Ready) {operand member : NodeId} :
    c.Proceeds (c.visitUses node (.selectorExpr operand member)) := by
  unfold visitUses
  cases hselection : c.package.facts.selections.get? node with
  | none => exact .pure trivial
  | some selection =>
    have hrecv := hc.covers.selections _ (Table.mem_of_get? hselection)
    refine (Emit.Proceeds.ask (answers_throughFields hc.closed hc.grounded.names _ hrecv)).bind
      fun type htype => ?_
    intro s hs
    refine ⟨(), _, modify_apply _ s, fun obj found hfound => ?_, trivial⟩
    rw [Table.get?_insert] at hfound
    split at hfound
    · cases hfound
      exact htype
    · exact hs obj found hfound

/-- An identifier that stands for an object refers to it. -/
theorem proceeds_visitUses_ident (hc : c.Ready) (hnode : c.program.tree.HasNode node)
    (name : String) : c.Proceeds (c.visitUses node (.ident name)) := by
  by_cases hblank : name = "_"
  · subst hblank
    exact .pure trivial
  · rw [visitUses_ident hblank]
    unfold Facts.objectOf?
    cases hobject : (c.package.facts.defs.get? node).or (c.package.facts.uses.get? node) with
    | none => exact .pure trivial
    | some obj =>
      have hobj : c.program.HasObject obj := by
        rcases Option.or_eq_some_iff.mp hobject with hdef | ⟨-, huse⟩
        · exact (hc.covers.defs _ (Table.mem_of_get? hdef)).2
        · exact hc.covers.uses _ (Table.mem_of_get? huse)
      refine (Emit.Proceeds.ask (answers_node hnode)).bind fun n _ => ?_
      refine .get_bind fun s _ => ?_
      split
      · exact .pure trivial
      · split
        · exact (Emit.Proceeds.ask (answers_object hobj)).bind fun o _ =>
            proceeds_emitRef hc hnode hobj _
        · exact proceeds_emitRef hc hnode hobj _

/-- What a node says apart from its declarations can be found out. -/
theorem proceeds_visitUses (hc : c.Ready) {n : Node} (hn : c.program.tree.node node = .ok n) :
    c.Proceeds (c.visitUses node n.kind) := by
  have hnode : c.program.tree.HasNode node := SyntaxTree.hasNode_iff.mpr ⟨n, hn⟩
  have hchild : ∀ child ∈ n.kind.children, c.program.tree.HasNode child := fun child =>
    hc.closed.children.hasNode hn
  cases hkind : n.kind with
  | file name decls doc comments =>
    rw [hkind] at hchild
    refine (Emit.Proceeds.ask (answered_file hnode)).bind fun file _ => ?_
    refine (Emit.Proceeds.ask (answered_range (hchild name List.mem_cons_self))).bind
      fun range _ => .addRef _
  | importSpec name path doc comment =>
    unfold visitUses
    cases himplicit : c.package.facts.implicits.get? node with
    | none => exact .pure trivial
    | some obj =>
      have hobj := hc.covers.implicits _ (Table.mem_of_get? himplicit)
      refine (proceeds_emitRef hc hnode hobj false).bind fun _ _ => ?_
      exact (Emit.Proceeds.ask (answers_node hnode)).bind fun _ _ => .modify fun _ => rfl
  | typeSpec name type doc comment =>
    rw [hkind] at hchild
    refine (Emit.Proceeds.ask (answers_kind (hchild type ?_))).bind fun _ _ => .pure trivial
    exact List.mem_cons_of_mem _ List.mem_cons_self
  | selectorExpr operand member => exact proceeds_visitUses_selector hc
  | ident name => exact proceeds_visitUses_ident hc hnode name
  | _ => exact .pure trivial

/-- Visiting a node that is there proceeds. -/
theorem proceeds_visit (hc : c.Ready) {v : Visit} (hv : c.program.tree.HasNode v.node) :
    c.Proceeds (c.visit v) := by
  refine (Emit.Proceeds.ask (answers_kind hv)).bind fun kind ⟨n, hn, hkind⟩ => ?_
  rw [← hkind]
  refine (Emit.Proceeds.ask (answers_declaredNames hc hn)).bind fun names hnames => ?_
  refine (Emit.Proceeds.each fun name hname => ?_).bind fun _ _ => proceeds_visitUses hc hn
  exact proceeds_declare hc hv (hnames name hname)

/-- Visiting nodes that are there proceeds. -/
theorem proceeds_visitAll (hc : c.Ready) {visits : List Visit}
    (h : ∀ v ∈ visits, c.program.tree.HasNode v.node) : c.Proceeds (c.visitAll visits) := by
  induction visits with
  | nil => exact .pure trivial
  | cons v rest ih =>
    refine (proceeds_visit hc (h v List.mem_cons_self)).bind fun _ _ => ?_
    refine .get_bind fun s _ => ?_
    split
    · exact .pure trivial
    · exact ih fun v hv => h v (List.mem_cons_of_mem _ hv)

/-- The walk over the files is never cut short. -/
theorem proceeds_visitTrace (hc : c.Ready) :
    c.Proceeds (c.visitTrace (graphWalk c.program.tree c.package.files)) := by
  have hfault := graphWalk_fault_eq_none hc.closed.children hc.covers.files
  refine (proceeds_visitAll hc fun v hv => ?_).bind fun _ _ => .get_bind fun s _ => ?_
  · refine SyntaxTree.hasNode_iff.mpr ((reads_graphWalk hfault).exists_node v.node ?_)
    exact List.mem_map_of_mem hv
  · rw [hfault]
    split
    · rename_i heq
      cases heq
    · exact .pure trivial

/-- The package's own definition proceeds. -/
theorem proceeds_emitPackage (hc : c.Ready) : c.Proceeds c.emitPackage := by
  unfold emitPackage
  refine (Emit.Proceeds.ask (answers_package hc.covers.package)).bind fun package _ => ?_
  refine (Emit.Proceeds.claim _ _).bind fun _ _ => ?_
  have hrest : ∀ dir, c.Proceeds (addDef
      { name := package.name, key := DefKey.ofPackage c.unit, file := dir, identSpan := .zero,
        declSpan := .zero, exported := true, packageScope := false, kind := .package,
        receiver := none, structName := none, typeText := "", underlyingText := "" }) :=
    fun dir => .addDef _
  dsimp only
  cases hfiles : c.package.files with
  | nil => exact hrest "."
  | cons first rest =>
    have hfirst := hc.covers.files first (by rw [hfiles]; exact List.mem_cons_self)
    have hdir : c.Proceeds (c.program.sources.dirName <$> ask (c.program.tree.file first)) := by
      rw [map_eq_pure_bind]
      exact (Emit.Proceeds.ask (answered_file hfirst)).bind fun _ _ => .pure trivial
    exact hdir.bind fun dir _ => hrest dir

/-! ### Documentation -/

/-- The two texts of a key are added without a fault. -/
theorem proceeds_addDocPair (key : DefKey) (text file : String) (span : Span) :
    c.Proceeds (c.addDocPair key text file span) :=
  (Emit.Proceeds.addDoc _).bind fun _ _ => .addDoc _

/-- Documenting a name proceeds. -/
theorem proceeds_documentName (hc : c.Ready) (g : CommentGroup) (text : String) (state : DocState)
    (name : NodeId) : c.Proceeds (c.documentName g text state name) := by
  unfold documentName
  cases hdef : c.package.facts.defs.get? name with
  | none => exact .pure trivial
  | some obj =>
    have hobj := (hc.covers.defs _ (Table.mem_of_get? hdef)).2
    dsimp only
    split
    · exact .pure trivial
    · refine (proceeds_keyOf hc hobj).bind fun k? _ => ?_
      cases k? with
      | none => exact .pure trivial
      | some k =>
        dsimp only
        split
        · exact .pure trivial
        · exact (proceeds_addDocPair _ _ _ _).bind fun _ _ => .pure trivial

/-- Documenting names under a comment group proceeds. -/
theorem proceeds_documentNames (hc : c.Ready) (names : List NodeId) (group : Option CommentGroup)
    (state : DocState) : c.Proceeds (c.documentNames names group state) := by
  unfold documentNames
  cases group with
  | none => exact .pure trivial
  | some g =>
    dsimp only
    split
    · exact .pure trivial
    · exact .eachWith _ fun state name _ => proceeds_documentName hc g g.text state name

/-- Documenting a specification that is there proceeds. -/
theorem proceeds_documentSpec (hc : c.Ready) {declDoc : Option CommentGroup} {state : DocState}
    {spec : NodeId} (hspec : c.program.tree.HasNode spec) :
    c.Proceeds (c.documentSpec declDoc state spec) := by
  refine (Emit.Proceeds.ask (answers_kind hspec)).bind fun kind _ => ?_
  split
  · exact proceeds_documentNames hc _ _ _
  · exact proceeds_documentNames hc _ _ _
  · exact .pure trivial

/-- Whether a field belongs to a struct or interface type can be found out. -/
theorem answered_isMember (hc : c.Ready) {field : NodeId}
    (hfield : c.program.tree.HasNode field) : Answered (isMember c.program.tree field) := by
  refine (answers_node hfield).bind fun n hn => ?_
  cases hlist : n.parent with
  | none => exact .pure trivial
  | some list =>
    refine (answers_node (hc.closed.hasNode_of_parent hn hlist)).bind fun n hn => ?_
    cases howner : n.parent with
    | none => exact .pure trivial
    | some owner =>
      refine (answers_kind (hc.closed.hasNode_of_parent hn howner)).bind fun kind _ => ?_
      split
      · exact .pure trivial
      · exact .pure trivial
      · exact .pure trivial

/-- The names that a field declares can be found out. -/
theorem answered_memberNames (names : List NodeId) {type : NodeId}
    (htype : c.program.tree.HasNode type) :
    Answered (memberNames c.program.tree names type) := by
  unfold memberNames
  split
  · refine (answers_kind htype).bind fun kind _ => ?_
    split
    · exact .pure trivial
    · exact .pure trivial
  · exact .pure trivial

/-- Documenting a node that is there proceeds. -/
theorem proceeds_documentNode (hc : c.Ready) (state : DocState)
    (hnode : c.program.tree.HasNode node) : c.Proceeds (c.documentNode state node) := by
  refine (Emit.Proceeds.ask (answers_kind hnode)).bind fun kind ⟨n, hn, hkind⟩ => ?_
  have hchild : ∀ child ∈ kind.children, c.program.tree.HasNode child := fun child hchild =>
    hc.closed.children.hasNode hn (hkind ▸ hchild)
  split
  · exact .eachWith _ fun state spec hspec => proceeds_documentSpec hc (hchild spec hspec)
  · exact proceeds_documentNames hc _ _ _
  · refine (Emit.Proceeds.ask (answered_isMember hc hnode)).bind fun member _ => ?_
    split
    · have htype := hchild _ (List.mem_append_right _ List.mem_cons_self)
      exact (Emit.Proceeds.ask (answered_memberNames _ htype)).bind fun _ _ =>
        proceeds_documentNames hc _ _ _
    · exact .pure trivial
  · exact .pure trivial

/-- Documenting a file that is there proceeds. -/
theorem proceeds_documentFile (hc : c.Ready) (state : DocState) {file : NodeId}
    (hfile : c.program.tree.HasNode file) : c.Proceeds (c.documentFile state file) :=
  (Emit.Proceeds.ask (SyntaxTree.answers_descendants hc.closed.children hfile)).bind fun _ hnodes =>
    .eachWith _ fun state node hnode => proceeds_documentNode hc state (hnodes node hnode)

/-- Adding the comments of a file that belong to nothing proceeds. -/
theorem proceeds_addFloatingOf (state : DocState) {file : NodeId}
    (hfile : c.program.tree.HasNode file) : c.Proceeds (c.addFloatingOf state file) := by
  refine (Emit.Proceeds.ask (answers_kind hfile)).bind fun kind _ => ?_
  split
  · refine .each fun g _ => ?_
    unfold addFloating
    split
    · exact .pure trivial
    · exact .addDoc _
  · exact .pure trivial

/-- Sorting the files by name loses none and adds none. -/
theorem answers_filesByName (hc : c.Ready) :
    Answers c.filesByName fun files => ∀ file ∈ files, c.program.tree.HasNode file := by
  have hnamed : Answers (c.package.files.mapM fun file => do
      return (c.fileName (← c.program.tree.file file), file))
      fun named => ∀ x ∈ named, c.program.tree.HasNode x.2 :=
    Answers.mapM fun file hfile =>
      (answered_file (hc.covers.files file hfile)).bind fun _ _ =>
        .pure (hc.covers.files file hfile)
  refine hnamed.bind fun named hnamed => .pure fun file hfile => ?_
  obtain ⟨x, hx, rfl⟩ := List.mem_map.mp hfile
  exact hnamed x (List.mem_mergeSort.mp hx)

/-- Documenting the package proceeds. -/
theorem proceeds_documentPackage {files : List NodeId}
    (hfiles : ∀ file ∈ files, c.program.tree.HasNode file) (state : DocState) :
    c.Proceeds (c.documentPackage files state) := by
  have hdocs : Answered (files.mapM c.fileDoc?) := Answered.mapM fun file hfile => by
    refine (answers_kind (hfiles file hfile)).bind fun kind _ => ?_
    split
    · exact .pure trivial
    · exact .pure trivial
  refine (Emit.Proceeds.ask hdocs).bind fun docs _ => ?_
  dsimp only
  split
  · exact .pure trivial
  · exact (proceeds_addDocPair _ _ _ _).bind fun _ _ => .pure trivial

/-- All documentation proceeds. -/
theorem proceeds_document (hc : c.Ready) : c.Proceeds c.document := by
  refine (Emit.Proceeds.ask (answers_filesByName hc)).bind fun files hfiles => ?_
  refine (proceeds_documentPackage hfiles .empty).bind fun state _ => ?_
  refine (Emit.Proceeds.eachWith _ fun state file hfile =>
    proceeds_documentFile hc state (hfiles file hfile)).bind fun state _ => ?_
  exact .each fun file hfile => proceeds_addFloatingOf state (hfiles file hfile)

/-! ### Runs -/

/-- All steps of a run over a package of a well-formed program proceed. -/
theorem proceeds_emitAll (hc : c.Ready) (includeDocs : Bool) :
    c.Proceeds (Program.emitAll c includeDocs) := by
  refine (proceeds_emitPackage hc).bind fun _ _ => ?_
  refine (proceeds_visitTrace hc).bind fun _ _ => ?_
  refine .get_bind fun s _ => ?_
  split
  · exact proceeds_document hc
  · exact .pure trivial

end GraphContext

end SymbolGraph
