import Mathlib.Data.Finset.Card
import Mathlib.Data.Fintype.Basic
import Mathlib.Logic.Relation
import SymbolGraph.Proofs.Placement.Shape
import SymbolGraph.Proofs.Program.Answers
import SymbolGraph.Proofs.Syntax.ReadingOrder

/-!
# Well-formed programs

When following the numbers in a program can neither lead out of it nor go on for ever. A program
is `Closed` if every number in it stands for something, and `Grounded` if no scope lies below
itself, no chain of named types that stand for each other comes back to its beginning, and no type
contains itself except through a name. In a grounded program scopes and types have ranks no larger
than their number (`exists_rank`), so that the bounds on how deep names are looked through and
types are written out are never reached.
-/

namespace SymbolGraph

/-! ## Ranks -/

/-- Where a relation between the elements of a finite set runs in no circle, the number of elements
that can be reached is a rank: it becomes smaller at every step. -/
theorem exists_rank {α : Type} {r : α → α → Prop} {index : α → Nat} {n : Nat}
    (hinj : ∀ a b, index a = index b → a = b) (hbound : ∀ a b, r a b → index b < n)
    (hacyclic : ∀ a, ¬ Relation.TransGen r a a) :
    ∃ rank : α → Nat, (∀ a b, r a b → rank b < rank a) ∧ ∀ a, rank a ≤ n := by
  classical
  let reach (a : α) : Finset Nat :=
    (Finset.range n).filter fun i => ∃ b, index b = i ∧ Relation.TransGen r a b
  refine ⟨fun a => (reach a).card, fun a b hab => Finset.card_lt_card ?_, fun a => ?_⟩
  · have hsub : reach b ⊆ reach a := by
      intro i hi
      obtain ⟨hi, d, hd, hbd⟩ := Finset.mem_filter.mp hi
      exact Finset.mem_filter.mpr ⟨hi, d, hd, .head hab hbd⟩
    refine Finset.ssubset_iff_subset_ne.mpr ⟨hsub, fun heq => ?_⟩
    have hb : index b ∈ reach a :=
      Finset.mem_filter.mpr ⟨Finset.mem_range.mpr (hbound a b hab), b, rfl, .single hab⟩
    rw [← heq] at hb
    -- what is reached from `b` would be `b` itself
    obtain ⟨-, d, hd, hbd⟩ := Finset.mem_filter.mp hb
    rw [hinj d b hd] at hbd
    exact hacyclic b hbd
  · calc (reach a).card ≤ (Finset.range n).card := Finset.card_le_card (Finset.filter_subset _ _)
      _ = n := Finset.card_range n

/-- A relation along which something becomes larger runs in no circle. -/
theorem acyclic_of_lt {α : Type} {r : α → α → Prop} {rank : α → Nat}
    (h : ∀ a b, r a b → rank a < rank b) (a : α) : ¬ Relation.TransGen r a a := by
  intro hcircle
  have hlt : ∀ {a b}, Relation.TransGen r a b → rank a < rank b := by
    intro a b hab
    induction hab with
    | single hab => exact h _ _ hab
    | tail _ hbc ih => exact Nat.lt_trans ih (h _ _ hbc)
  exact Nat.lt_irrefl _ (hlt hcircle)

/-- Types are told apart by their numbers. -/
theorem TypeId.eq_of_index (a b : TypeId) (h : a.index = b.index) : a = b := by
  cases a
  exact congrArg TypeId.mk h

/-- Scopes are told apart by their numbers. -/
theorem ScopeId.eq_of_index (a b : ScopeId) (h : a.index = b.index) : a = b := by
  cases a
  exact congrArg ScopeId.mk h

/-! ## What a type mentions -/

namespace GoType

/-- The types that a type has as parts. The type that a name stands for is no part of it. -/
def elems : GoType → List TypeId
  | .pointer elem | .slice elem | .array _ elem | .chan _ elem => [elem]
  | .map key value => [key, value]
  | .interface _ embedded => embedded
  | _ => []

/-- The objects whose types a type has as parts: fields, methods of interfaces, parameters and
results. -/
def members : GoType → List ObjectId
  | .struct fields => fields
  | .interface methods _ => methods
  | .signature _ params results _ => params ++ results
  | _ => []

/-- The objects that a type mentions besides: the type name and the methods of a named type, and
the receiver of a method. -/
def owners : GoType → List ObjectId
  | .named obj _ methods => obj :: methods
  | .signature recv _ _ _ => recv.toList
  | _ => []

/-- The type that a named type stands for. -/
def standsFor? : GoType → Option TypeId
  | .named _ under _ => under
  | _ => none

end GoType

/-- The scope of a function with a body. -/
def ObjectKind.scope? : ObjectKind → Option ScopeId
  | .func scope? => scope?
  | _ => none

/-- The package that an imported name stands for. -/
def ObjectKind.imported? : ObjectKind → Option PackageId
  | .package imported => some imported
  | _ => none

namespace Program

variable {p : Program}

/-! ## Closed programs -/

/-- A number stands for an object. -/
def HasObject (p : Program) (obj : ObjectId) : Prop := obj.index < p.objects.size

/-- A number stands for a type. -/
def HasType (p : Program) (type : TypeId) : Prop := type.index < p.types.size

/-- A number stands for a scope. -/
def HasScope (p : Program) (scope : ScopeId) : Prop := scope.index < p.scopes.size

/-- A number stands for a package. -/
def HasPackage (p : Program) (pkg : PackageId) : Prop := pkg.index < p.packages.size

instance (obj : ObjectId) : Decidable (p.HasObject obj) :=
  inferInstanceAs (Decidable (obj.index < p.objects.size))

instance (type : TypeId) : Decidable (p.HasType type) :=
  inferInstanceAs (Decidable (type.index < p.types.size))

instance (scope : ScopeId) : Decidable (p.HasScope scope) :=
  inferInstanceAs (Decidable (scope.index < p.scopes.size))

instance (pkg : PackageId) : Decidable (p.HasPackage pkg) :=
  inferInstanceAs (Decidable (pkg.index < p.packages.size))

/-- Every number in a program stands for something, and children of nodes were made before
them. -/
structure Closed (p : Program) : Prop where
  objects : ∀ o ∈ p.objects.toList, (∀ type ∈ o.type.toList, p.HasType type) ∧
    (∀ pkg ∈ o.pkg.toList, p.HasPackage pkg) ∧
    (∀ scope ∈ o.kind.scope?.toList, p.HasScope scope) ∧
    ∀ pkg ∈ o.kind.imported?.toList, p.HasPackage pkg
  types : ∀ type ∈ p.types.toList, (∀ part ∈ type.elems, p.HasType part) ∧
    (∀ next ∈ type.standsFor?.toList, p.HasType next) ∧
    (∀ obj ∈ type.members, p.HasObject obj) ∧ ∀ obj ∈ type.owners, p.HasObject obj
  scopes : ∀ scope ∈ p.scopes.toList, (∀ parent ∈ scope.parent.toList, p.HasScope parent) ∧
    (∀ child ∈ scope.children, p.HasScope child) ∧ ∀ b ∈ scope.bindings, p.HasObject b.2
  packages : ∀ owner ∈ p.packages.toList, p.HasScope owner.scope
  parents : ∀ n ∈ p.tree.nodes.toList, ∀ parent ∈ n.parent.toList, p.tree.HasNode parent
  children : p.tree.ChildrenFirst

/-- Every number that was recorded about a package stands for something. -/
structure Covers (p : Program) (k : CheckedPackage) : Prop where
  package : p.HasPackage k.pkg
  files : ∀ file ∈ k.files, p.tree.HasNode file
  defs : ∀ e ∈ k.facts.defs.entries, p.tree.HasNode e.1 ∧ p.HasObject e.2
  uses : ∀ e ∈ k.facts.uses.entries, p.HasObject e.2
  implicits : ∀ e ∈ k.facts.implicits.entries, p.HasObject e.2
  selections : ∀ e ∈ k.facts.selections.entries, p.HasType e.2.recv
  scopes : ∀ e ∈ k.facts.scopes.entries, p.tree.HasNode e.1 ∧ p.HasScope e.2

/-! ### Looking things up -/

/-- What is found by number is an item. -/
theorem mem_of_fetch {α : Type} {items : Array α} {index : Nat} {a : α}
    (h : fetch items index = .ok a) : a ∈ items.toList := by
  have hget := fetch_eq_ok_iff.mp h
  rw [← Array.getElem?_toList] at hget
  exact List.mem_of_getElem? hget

/-- A number below the size stands for an item. -/
theorem answers_fetch {α : Type} {items : Array α} {index : Nat} (h : index < items.size) :
    Answers (fetch items index) fun a => fetch items index = .ok a := by
  have hget := fetch_eq_ok_iff.mpr (Array.getElem?_eq_getElem h)
  exact ⟨_, hget, hget⟩

/-- An object that is there is found. -/
theorem answers_object {obj : ObjectId} (h : p.HasObject obj) :
    Answers (p.object obj) fun o => p.object obj = .ok o :=
  answers_fetch h

/-- A type that is there is found. -/
theorem answers_type {type : TypeId} (h : p.HasType type) :
    Answers (p.type type) fun found => p.type type = .ok found :=
  answers_fetch h

/-- A scope that is there is found. -/
theorem answers_scope {scope : ScopeId} (h : p.HasScope scope) :
    Answers (p.scope scope) fun found => p.scope scope = .ok found :=
  answers_fetch h

/-- A package that is there is found. -/
theorem answers_package {pkg : PackageId} (h : p.HasPackage pkg) :
    Answers (p.package pkg) fun owner => p.package pkg = .ok owner :=
  answers_fetch h

namespace Closed

variable {obj : ObjectId} {o : Object} {type : TypeId} {found : GoType}

/-- The type of an object is there. -/
theorem hasType (hp : p.Closed) (ho : p.object obj = .ok o) (htype : o.type = some type) :
    p.HasType type :=
  (hp.objects o (mem_of_fetch ho)).1 type (by simp [htype])

/-- The package of an object is there. -/
theorem hasPackage (hp : p.Closed) (ho : p.object obj = .ok o) {pkg : PackageId}
    (hpkg : o.pkg = some pkg) : p.HasPackage pkg :=
  (hp.objects o (mem_of_fetch ho)).2.1 pkg (by simp [hpkg])

/-- The scope of a function is there. -/
theorem hasScope_of_func (hp : p.Closed) (ho : p.object obj = .ok o) {scope : ScopeId}
    (hkind : o.kind = .func (some scope)) : p.HasScope scope :=
  (hp.objects o (mem_of_fetch ho)).2.2.1 scope (by simp [hkind, ObjectKind.scope?])

/-- The package that an imported name stands for is there. -/
theorem hasPackage_of_import (hp : p.Closed) (ho : p.object obj = .ok o) {pkg : PackageId}
    (hkind : o.kind = .package pkg) : p.HasPackage pkg :=
  (hp.objects o (mem_of_fetch ho)).2.2.2 pkg (by simp [hkind, ObjectKind.imported?])

/-- The types that a type has as parts are there. -/
theorem hasType_of_elem (hp : p.Closed) (htype : p.type type = .ok found) {part : TypeId}
    (hpart : part ∈ found.elems) : p.HasType part :=
  (hp.types found (mem_of_fetch htype)).1 part hpart

/-- The type that a named type stands for is there. -/
theorem hasType_of_standsFor (hp : p.Closed) (htype : p.type type = .ok found) {next : TypeId}
    (hnext : found.standsFor? = some next) : p.HasType next :=
  (hp.types found (mem_of_fetch htype)).2.1 next (by simp [hnext])

/-- The fields, methods and parameters of a type are there. -/
theorem hasObject_of_member (hp : p.Closed) (htype : p.type type = .ok found)
    (hobj : obj ∈ found.members) : p.HasObject obj :=
  (hp.types found (mem_of_fetch htype)).2.2.1 obj hobj

/-- The type name and methods of a named type, and the receiver of a method, are there. -/
theorem hasObject_of_owner (hp : p.Closed) (htype : p.type type = .ok found)
    (hobj : obj ∈ found.owners) : p.HasObject obj :=
  (hp.types found (mem_of_fetch htype)).2.2.2 obj hobj

/-- The parent of a scope is there. -/
theorem hasScope_of_parent (hp : p.Closed) {scope parent : ScopeId} {found : Scope}
    (hscope : p.scope scope = .ok found) (hparent : found.parent = some parent) :
    p.HasScope parent :=
  (hp.scopes found (mem_of_fetch hscope)).1 parent (by simp [hparent])

/-- The children of a scope are there. -/
theorem hasScope_of_child (hp : p.Closed) {scope child : ScopeId} (h : p.HasChild scope child) :
    p.HasScope child := by
  obtain ⟨found, hscope, hchild⟩ := h
  exact (hp.scopes found (mem_of_fetch hscope)).2.1 child hchild

/-- What a scope binds is there. -/
theorem hasObject_of_binds (hp : p.Closed) {scope : ScopeId} {name : String}
    (h : p.Binds scope name obj) : p.HasObject obj := by
  obtain ⟨found, hscope, hmem⟩ := h
  exact (hp.scopes found (mem_of_fetch hscope)).2.2 _ hmem

/-- The scope of a package is there. -/
theorem hasScope_of_package (hp : p.Closed) {pkg : PackageId} {owner : Package}
    (h : p.package pkg = .ok owner) : p.HasScope owner.scope :=
  hp.packages owner (mem_of_fetch h)

/-- The parent of a node is there. -/
theorem hasNode_of_parent (hp : p.Closed) {node parent : NodeId} {n : Node}
    (hn : p.tree.node node = .ok n) (hparent : n.parent = some parent) : p.tree.HasNode parent :=
  hp.parents n (mem_of_fetch hn) parent (by simp [hparent])

end Closed

/-! ## Grounded programs -/

/-- A named type stands for another type. -/
def StandsFor (p : Program) (type next : TypeId) : Prop :=
  ∃ found, p.type type = .ok found ∧ found.standsFor? = some next ∧ next ≠ type

/-- A type is a part of another, or the type of one of its members. -/
inductive HasPart (p : Program) (type part : TypeId) : Prop
  | elem {found : GoType} : p.type type = .ok found → part ∈ found.elems → HasPart p type part
  | member {found : GoType} {obj : ObjectId} {o : Object} : p.type type = .ok found →
      obj ∈ found.members → p.object obj = .ok o → o.type = some part → HasPart p type part

/-- No scope lies below itself, no type stands for itself by way of others, and no type contains
itself except through a name. -/
structure Grounded (p : Program) : Prop where
  scopes : ∀ scope, ¬ Relation.TransGen p.HasChild scope scope
  names : ∀ type, ¬ Relation.TransGen p.StandsFor type type
  types : ∀ type, ¬ Relation.TransGen p.HasPart type type

/-- What is part of a type, by way of members or without, is there. -/
theorem HasPart.hasType (hp : p.Closed) {type part : TypeId} (h : p.HasPart type part) :
    p.HasType part := by
  cases h with
  | elem htype hpart => exact hp.hasType_of_elem htype hpart
  | member _ _ ho hpart => exact hp.hasType ho hpart

/-- What a type stands for is there. -/
theorem StandsFor.hasType (hp : p.Closed) {type next : TypeId} (h : p.StandsFor type next) :
    p.HasType next := by
  obtain ⟨found, htype, hnext, -⟩ := h
  exact hp.hasType_of_standsFor htype hnext

/-! ## Questions about types -/

section Types

variable {type : TypeId} {obj : ObjectId}

/-- Names can be looked through. -/
theorem answers_underlying (hp : p.Closed)
    (hnames : ∀ type, ¬ Relation.TransGen p.StandsFor type type) (h : p.HasType type) :
    Answers (p.underlying type) p.HasType := by
  obtain ⟨rank, hlt, hle⟩ := exists_rank TypeId.eq_of_index (fun _ _ hab => hab.hasType hp)
    hnames
  have hfuel : ∀ n type, p.HasType type → rank type < n →
      Answers (p.underlyingUpTo n type) p.HasType := by
    intro n
    induction n with
    | zero => exact fun type _ hrank => absurd hrank (Nat.not_lt_zero _)
    | succ n ih =>
      intro type htype hrank
      refine (answers_type htype).bind fun found hfound => ?_
      split
      · rename_i name next methods
        split
        · exact .pure htype
        · rename_i hne
          have hnext : p.StandsFor type next := ⟨_, hfound, rfl, hne⟩
          have hstep := hlt type next hnext
          exact ih next (hnext.hasType hp) (by omega)
      · exact .pure htype
  exact hfuel _ type h (Nat.lt_succ_of_le (hle type))

/-- What a type points to is there. -/
theorem answers_deref (hp : p.Closed) (h : p.HasType type) : Answers (p.deref type) p.HasType := by
  refine (answers_type h).bind fun found hfound => ?_
  split
  · exact .pure (hp.hasType_of_elem hfound (by simp [GoType.elems]))
  · exact .pure h

/-- The fields of a type that is there are there. -/
theorem answers_ownFields? (hp : p.Closed) (h : p.HasType type) :
    Answers (p.ownFields? type) fun fields? => ∀ obj ∈ fields?.getD [], p.HasObject obj := by
  refine (answers_type h).bind fun found hfound => ?_
  split
  · exact .pure fun obj hobj => hp.hasObject_of_member hfound hobj
  · exact .pure fun obj hobj => absurd hobj List.not_mem_nil

/-- The fields of the type that a named one comes to stand for are there, if no type stands for
itself. -/
theorem answers_structFields? (hp : p.Closed)
    (hnames : ∀ type, ¬ Relation.TransGen p.StandsFor type type) (h : p.HasType type) :
    Answers (p.structFields? type) fun fields? => ∀ obj ∈ fields?.getD [], p.HasObject obj :=
  (answers_underlying hp hnames h).bind fun _ => answers_ownFields? hp

/-- The receiver of a method that is there is there. -/
theorem answers_receiver? (hp : p.Closed) (h : p.HasObject obj) :
    Answers (p.receiver? obj) fun recv? => ∀ recv ∈ recv?, p.HasObject recv := by
  refine (answers_object h).bind fun o ho => ?_
  cases htype : o.type with
  | none => exact .pure fun recv hrecv => by cases hrecv
  | some type =>
    refine (answers_type (hp.hasType ho htype)).bind fun found hfound => ?_
    split
    · refine .pure fun recv hrecv => hp.hasObject_of_owner hfound ?_
      exact Option.mem_toList.mpr hrecv
    · exact .pure fun recv hrecv => by cases hrecv

/-- The type of a method's receiver is there. -/
theorem answers_receiverType? (hp : p.Closed) (h : p.HasObject obj) :
    Answers (p.receiverType? obj) fun type? => ∀ type ∈ type?, p.HasType type := by
  refine (answers_receiver? hp h).bind fun recv? hrecv => ?_
  cases recv? with
  | none => exact .pure fun type htype => by cases htype
  | some recv =>
    exact (answers_object (hrecv recv rfl)).bind fun o ho =>
      .pure fun type htype => hp.hasType ho htype

/-- A way through fields ends at a type that is there. -/
theorem answers_throughFields (hp : p.Closed)
    (hnames : ∀ type, ¬ Relation.TransGen p.StandsFor type type) (way : List Nat)
    (h : p.HasType type) : Answers (p.throughFields type way) p.HasType := by
  induction way generalizing type with
  | nil => exact .pure h
  | cons i rest ih =>
    refine (answers_deref hp h).bind fun target htarget => ?_
    refine (answers_structFields? hp hnames htarget).bind fun fields? hfields => ?_
    cases fields? with
    | none => exact .pure h
    | some fields =>
      cases hfield : fields[i]? with
      | none =>
        simp only [hfield]
        exact .pure h
      | some field =>
        simp only [hfield]
        refine (answers_object (hfields field (List.mem_of_getElem? hfield))).bind fun o ho => ?_
        cases htype : o.type with
        | none => exact .pure h
        | some next => exact ih (hp.hasType ho htype)

/-- What an interface asks for can be added to listed methods. -/
theorem answers_listed_append_asked (hp : p.Closed)
    (hnames : ∀ type, ¬ Relation.TransGen p.StandsFor type type) (h : p.HasType type)
    {listed : List ObjectId} (hlisted : ∀ obj ∈ listed, p.HasObject obj) :
    Answers (do
      match ← p.type (← p.underlying type) with
      | .interface asked _ => return listed ++ asked
      | _ => return listed : Except Fault (List ObjectId))
      fun methods => ∀ obj ∈ methods, p.HasObject obj := by
  refine (answers_underlying hp hnames h).bind fun under hunder => ?_
  refine (answers_type hunder).bind fun target htarget => ?_
  split
  · refine .pure fun obj hobj => ?_
    rcases List.mem_append.mp hobj with hobj | hobj
    · exact hlisted obj hobj
    · exact hp.hasObject_of_member htarget hobj
  · exact .pure hlisted

/-- The methods of a type that is there are there. -/
theorem answers_methodsOf (hp : p.Closed)
    (hnames : ∀ type, ¬ Relation.TransGen p.StandsFor type type) (h : p.HasType type) :
    Answers (PlacementContext.methodsOf p type) fun methods =>
      ∀ obj ∈ methods, p.HasObject obj := by
  refine (answers_type h).bind fun found hfound => ?_
  cases found with
  | named name under methods =>
    exact answers_listed_append_asked hp hnames h fun obj hobj =>
      hp.hasObject_of_owner hfound (List.mem_cons_of_mem _ hobj)
  | _ => exact answers_listed_append_asked hp hnames h fun obj hobj => absurd hobj List.not_mem_nil

/-! ### Types as text -/

section Text

variable {go : TypeId → Except Fault TypeExpr}

/-- Parameters and results can be written out if their types can, and the parts of those. -/
theorem answers_memberOf (hp : p.Closed) (h : p.HasObject obj) (spread : Bool)
    (hgo : ∀ o type, p.object obj = .ok o → o.type = some type →
      Answered (go type) ∧
        ∀ part, p.HasPart type part → Answered (go part)) :
    Answered (p.memberOf go spread obj) := by
  refine (answers_object h).bind fun o ho => ?_
  cases htype : o.type with
  | none => exact .pure trivial
  | some type =>
    obtain ⟨hself, hparts⟩ := hgo o type ho htype
    cases spread with
    | false => exact hself.bind fun _ _ => .pure trivial
    | true =>
      refine (answers_type (hp.hasType ho htype)).bind fun found hfound => ?_
      split
      · refine (hparts _ (.elem hfound ?_)).bind fun _ _ => .pure trivial
        simp [GoType.elems]
      · exact hself.bind fun _ _ => .pure trivial

/-- Parameters are written if each of them is. -/
theorem answers_paramsOf {params : List ObjectId} (variadic : Bool)
    (h : ∀ obj ∈ params, ∀ spread, Answered (p.memberOf go spread obj)) :
    Answered (p.paramsOf go variadic params) := by
  induction params with
  | nil => exact .pure trivial
  | cons obj rest ih =>
    cases rest with
    | nil => exact (h obj List.mem_cons_self variadic).bind fun _ _ => .pure trivial
    | cons next rest =>
      refine (h obj List.mem_cons_self false).bind fun _ _ => ?_
      exact (ih fun x hx => h x (List.mem_cons_of_mem _ hx)).bind fun _ _ => .pure trivial

/-- The parameters and results of a signature can be written out. -/
theorem answers_signature (hp : p.Closed) {recv : Option ObjectId}
    {params results : List ObjectId} {variadic : Bool}
    (htype : p.type type = .ok (.signature recv params results variadic))
    (hgo : ∀ part, p.HasPart type part → Answered (go part) ∧
      ∀ inner, p.HasPart part inner → Answered (go inner)) :
    Answered (p.paramsOf go variadic params) ∧
      Answered (results.mapM (p.memberOf go false)) := by
  have hmember : ∀ obj ∈ params ++ results, ∀ spread,
      Answered (p.memberOf go spread obj) := by
    intro obj hobj spread
    refine answers_memberOf hp (hp.hasObject_of_member htype hobj) spread ?_
    exact fun o part ho hpart => hgo part (.member htype hobj ho hpart)
  refine ⟨answers_paramsOf variadic fun obj hobj => hmember obj (List.mem_append_left _ hobj), ?_⟩
  refine Answered.mapM fun obj hobj => ?_
  exact hmember obj (List.mem_append_right _ hobj) false

/-- The parameters and results of the type of a method can be written out, if it is a
signature. -/
theorem answered_signatureOf? (hp : p.Closed) (h : p.HasType type)
    (hgo : ∀ part, p.HasPart type part → Answered (go part) ∧
      ∀ inner, p.HasPart part inner → Answered (go inner)) :
    Answered (p.signatureOf? go type) := by
  refine (answers_type h).bind fun found hfound => ?_
  split
  · obtain ⟨hparams, hresults⟩ := answers_signature hp hfound hgo
    exact hparams.bind fun _ _ => hresults.bind fun _ _ => .pure trivial
  · exact .pure trivial

/-- Types can be written out. -/
theorem answers_typeExpr (hp : p.Closed) (hg : p.Grounded) (h : p.HasType type) :
    Answered (p.typeExpr type) := by
  obtain ⟨rank, hlt, hle⟩ := exists_rank TypeId.eq_of_index
    (fun _ _ hab => Program.HasPart.hasType hp hab) hg.types
  have hfuel : ∀ n type, p.HasType type → rank type < n →
      Answered (p.typeExprUpTo n type) := by
    intro n
    induction n with
    | zero => exact fun type _ hrank => absurd hrank (Nat.not_lt_zero _)
    | succ n ih =>
      intro type htype hrank
      refine (answers_type htype).bind fun found hfound => ?_
      -- what lies deeper has a smaller rank
      have hdeeper : ∀ part inner, rank part ≤ rank type → p.HasPart part inner →
          Answered (p.typeExprUpTo n inner) := by
        intro part inner hle hinner
        have hstep := hlt part inner hinner
        exact ih inner (hinner.hasType hp) (by omega)
      have hparts : ∀ whole, rank whole ≤ rank type → ∀ part, p.HasPart whole part →
          Answered (p.typeExprUpTo n part) ∧
            ∀ inner, p.HasPart part inner → Answered (p.typeExprUpTo n inner) := by
        intro whole hle part hpart
        have hstep := hlt whole part hpart
        exact ⟨hdeeper whole part hle hpart, fun inner hinner =>
          hdeeper part inner (by omega) hinner⟩
      have helem : ∀ {part}, part ∈ found.elems →
          Answered (p.typeExprUpTo n part) :=
        fun hmem => hdeeper type _ (Nat.le_refl _) (.elem hfound hmem)
      cases found with
      | basic name => exact .pure trivial
      | named name under methods =>
        refine (answers_object (hp.hasObject_of_owner hfound List.mem_cons_self)).bind
          fun o ho => ?_
        cases hpkg : o.pkg with
        | none => exact .pure trivial
        | some pkg =>
          exact (answers_package (hp.hasPackage ho hpkg)).bind fun _ _ => .pure trivial
      | pointer elem => exact (helem List.mem_cons_self).bind fun _ _ => .pure trivial
      | slice elem => exact (helem List.mem_cons_self).bind fun _ _ => .pure trivial
      | array len elem => exact (helem List.mem_cons_self).bind fun _ _ => .pure trivial
      | map key value =>
        refine (helem List.mem_cons_self).bind fun _ _ => ?_
        exact (helem (List.mem_cons_of_mem _ List.mem_cons_self)).bind fun _ _ => .pure trivial
      | chan dir elem => exact (helem List.mem_cons_self).bind fun _ _ => .pure trivial
      | struct fields =>
        refine (Answered.mapM fun obj hobj => ?_).bind fun _ _ => .pure trivial
        refine (answers_object (hp.hasObject_of_member hfound hobj)).bind fun o ho => ?_
        cases hof : o.type with
        | none => exact .pure trivial
        | some part =>
          have hmember : p.HasPart type part := .member hfound hobj ho hof
          exact (hdeeper type part (Nat.le_refl _) hmember).bind fun _ _ => .pure trivial
      | interface methods embedded =>
        refine (Answered.mapM fun obj hobj => ?_).bind fun _ _ => ?_
        · refine (answers_object (hp.hasObject_of_member hfound hobj)).bind fun o ho => ?_
          cases hof : o.type with
          | none => exact .pure trivial
          | some part =>
            have hmethod : p.HasPart type part := .member hfound hobj ho hof
            have hsignature := answered_signatureOf? hp (hmethod.hasType hp)
              (hparts part (Nat.le_of_lt (hlt type part hmethod)))
            exact hsignature.bind fun _ _ => .pure trivial
        · exact (Answered.mapM fun part hmem => helem hmem).bind fun _ _ => .pure trivial
      | signature recv params results variadic =>
        obtain ⟨hparams, hresults⟩ := answers_signature hp hfound (hparts type (Nat.le_refl _))
        exact hparams.bind fun _ _ => hresults.bind fun _ _ => .pure trivial
  exact hfuel _ type h (Nat.lt_succ_of_le (hle type))

/-- In a closed program without circles every type has a text. -/
theorem answers_typeText (hp : p.Closed) (hg : p.Grounded) (h : p.HasType type) :
    Answered (p.typeText type) :=
  (answers_typeExpr hp hg h).map fun _ _ => trivial

end Text

end Types

end Program

end SymbolGraph
