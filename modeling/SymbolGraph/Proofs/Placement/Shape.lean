import SymbolGraph.Graph.Placement

/-!
# The shape of a program

What objects, scopes and types are to each other in a checked program: which scopes lie below a
scope, what a scope binds, which methods and fields a type has, which function a scope belongs
to. `ScopeTree` and `Members` say what is true of these in every program that a checker makes:
scopes form a tree whose children come after their parents, and fields and methods are bound in
no scope.
-/

namespace SymbolGraph

namespace Program

variable {p : Program}

/-! ## Scopes -/

/-- A scope binds a name to an object. -/
def Binds (p : Program) (scope : ScopeId) (name : String) (obj : ObjectId) : Prop :=
  ∃ found, p.scope scope = .ok found ∧ (name, obj) ∈ found.bindings

/-- A scope is a child of another. -/
def HasChild (p : Program) (scope child : ScopeId) : Prop :=
  ∃ found, p.scope scope = .ok found ∧ child ∈ found.children

/-- The scopes that are reached from a scope by going to children. -/
inductive Below (p : Program) (top : ScopeId) : ScopeId → Prop
  | refl : Below p top top
  | child {scope child : ScopeId} : Below p top scope → p.HasChild scope child →
      Below p top child

/-- A scope that stands among the children of another is its child. -/
theorem HasChild.of_children {scope child : ScopeId} {found : Scope} {before rest : List ScopeId}
    (hfound : p.scope scope = .ok found) (hchildren : found.children = before ++ child :: rest) :
    p.HasChild scope child := by
  refine ⟨found, hfound, ?_⟩
  rw [hchildren]
  exact List.mem_append_right _ List.mem_cons_self

/-- What lies below a scope that lies below another lies below that one. -/
theorem Below.trans {a b d : ScopeId} (hab : p.Below a b)
    (hbd : p.Below b d) : p.Below a d := by
  induction hbd with
  | refl => exact hab
  | child _ hchild ih => exact .child ih hchild

/-- What lies below a scope is the scope itself or lies below one of its children. -/
theorem Below.eq_or_child {top scope : ScopeId} (h : p.Below top scope) :
    scope = top ∨ ∃ child, p.HasChild top child ∧ p.Below child scope := by
  induction h with
  | refl => exact .inl rfl
  | child _ hchild ih =>
    rcases ih with rfl | ⟨first, hfirst, hbelow⟩
    · exact .inr ⟨_, hchild, .refl⟩
    · exact .inr ⟨first, hfirst, .child hbelow hchild⟩

/-- Scopes form a tree: children come after their parents, know them, and are listed once. A
name is bound once in a scope. -/
structure ScopeTree (p : Program) : Prop where
  later : ∀ {scope child}, p.HasChild scope child → scope.index < child.index
  parent : ∀ {scope child}, p.HasChild scope child →
    ∃ found, p.scope child = .ok found ∧ found.parent = some scope
  nodup : ∀ {scope found}, p.scope scope = .ok found → found.children.Nodup
  unique : ∀ {scope name a b}, p.Binds scope name a → p.Binds scope name b → a = b

/-- Scopes come before all that lie below them. -/
theorem ScopeTree.index_le (hp : p.ScopeTree) {top scope : ScopeId} (h : p.Below top scope) :
    top.index ≤ scope.index := by
  induction h with
  | refl => exact Nat.le_refl _
  | child _ hchild ih => exact Nat.le_trans ih (Nat.le_of_lt (hp.later hchild))

/-- A scope is the child of one scope only. -/
theorem ScopeTree.parent_eq (hp : p.ScopeTree) {a b child : ScopeId} (ha : p.HasChild a child)
    (hb : p.HasChild b child) : a = b := by
  obtain ⟨found, hfound, hparent⟩ := hp.parent ha
  obtain ⟨found', hfound', hparent'⟩ := hp.parent hb
  rw [hfound] at hfound'
  cases hfound'
  rw [hparent] at hparent'
  exact Option.some.inj hparent'

/-- Of the children of a scope one at most leads to a scope. -/
theorem ScopeTree.child_eq (hp : p.ScopeTree) {parent a b scope : ScopeId}
    (ha : p.HasChild parent a) (hb : p.HasChild parent b) (hsa : p.Below a scope)
    (hsb : p.Below b scope) : a = b := by
  -- a child is not reached from another one, since that comes after their parent
  have hout : ∀ {x y}, p.HasChild parent x → p.HasChild parent y → ∀ {z}, p.Below x z →
      p.HasChild z y → False := by
    intro x y hx hy z hz hzy
    obtain rfl := hp.parent_eq hy hzy
    have hlater := hp.later hx
    have hle := hp.index_le hz
    omega
  induction hsa with
  | refl =>
    cases hsb with
    | refl => rfl
    | child hbelow hchild => exact (hout hb ha hbelow hchild).elim
  | child hbelow hchild ih =>
    cases hsb with
    | refl => exact (hout ha hb hbelow hchild).elim
    | child hbelow' hchild' =>
      obtain rfl := hp.parent_eq hchild hchild'
      exact ih hbelow'

/-- A child is listed once among the children of a scope. -/
theorem ScopeTree.not_mem_before (hp : p.ScopeTree) {scope child : ScopeId} {found : Scope}
    {before rest : List ScopeId} (hfound : p.scope scope = .ok found)
    (hchildren : found.children = before ++ child :: rest) : child ∉ before := by
  intro hmem
  have hnodup := hp.nodup hfound
  rw [hchildren] at hnodup
  exact (List.nodup_append.mp hnodup).2.2 child hmem child List.mem_cons_self rfl

/-- A scope that is listed once is found behind those before it. -/
theorem idxOf?_append_cons {child : ScopeId} {before : List ScopeId} (hnew : child ∉ before)
    (rest : List ScopeId) : (before ++ child :: rest).idxOf? child = some before.length := by
  induction before with
  | nil => simp [List.idxOf?_cons]
  | cons first before ih =>
    have hne : first ≠ child := fun h => hnew (h ▸ List.mem_cons_self)
    rw [List.cons_append, List.idxOf?_cons, ih fun hmem => hnew (List.mem_cons_of_mem _ hmem)]
    simp [hne]

/-- The place of a child is the number of those before it. -/
theorem ScopeTree.childIndex?_eq (hp : p.ScopeTree) {scope child : ScopeId} {found : Scope}
    {before rest : List ScopeId} (hfound : p.scope scope = .ok found)
    (hchildren : found.children = before ++ child :: rest) :
    found.childIndex? child = some before.length := by
  unfold Scope.childIndex?
  rw [hchildren]
  exact idxOf?_append_cons (hp.not_mem_before hfound hchildren) rest

/-! ## Members -/

/-- An object is among the methods that a type declares or, as an interface, asks for. -/
def HasMethod (p : Program) (type : TypeId) (obj : ObjectId) : Prop :=
  ∃ methods, PlacementContext.methodsOf p type = .ok methods ∧ obj ∈ methods

/-- An object is among the fields of a type that is written as a struct, or of one that is
written as a pointer to a struct. -/
def HasField (p : Program) (type : TypeId) (obj : ObjectId) : Prop :=
  ∃ target fields, p.deref type = .ok target ∧ p.ownFields? target = .ok (some fields) ∧
    obj ∈ fields

/-- An object is a method of some type. -/
def IsMethod (p : Program) (obj : ObjectId) : Prop := ∃ type, p.HasMethod type obj

/-- An object is a field of some struct. -/
def IsField (p : Program) (obj : ObjectId) : Prop :=
  ∃ type fields, p.ownFields? type = .ok (some fields) ∧ obj ∈ fields

/-- The methods of a type are methods. -/
theorem HasMethod.isMethod {type : TypeId} {obj : ObjectId}
    (h : p.HasMethod type obj) : p.IsMethod obj := ⟨type, h⟩

/-- The fields of a type, or of what it points to, are fields. -/
theorem HasField.isField {type : TypeId} {obj : ObjectId}
    (h : p.HasField type obj) : p.IsField obj := by
  obtain ⟨target, fields, -, hfields, hobj⟩ := h
  exact ⟨target, fields, hfields, hobj⟩

/-- The methods that a type lists as a named type. -/
def listedMethods : GoType → List ObjectId
  | .named _ _ methods => methods
  | _ => []

/-- The methods that a type asks for as an interface. -/
def askedMethods : GoType → List ObjectId
  | .interface methods _ => methods
  | _ => []

/-- Only named types list methods. -/
theorem mem_listedMethods {found : GoType} {obj : ObjectId} (h : obj ∈ listedMethods found) :
    ∃ name under methods, found = .named name under methods ∧ obj ∈ methods := by
  cases found with
  | named name under methods => exact ⟨name, under, methods, rfl, h⟩
  | _ => cases h

/-- Only interfaces ask for methods. -/
theorem mem_askedMethods {found : GoType} {obj : ObjectId} (h : obj ∈ askedMethods found) :
    ∃ methods embedded, found = .interface methods embedded ∧ obj ∈ methods := by
  cases found with
  | interface methods embedded => exact ⟨methods, embedded, rfl, h⟩
  | _ => cases h

/-- The methods of a type are those that it lists and those that its underlying type asks for. -/
theorem methodsOf_eq_ok {type : TypeId} {methods : List ObjectId}
    (h : PlacementContext.methodsOf p type = .ok methods) :
    ∃ found under target, p.type type = .ok found ∧ p.underlying type = .ok under ∧
      p.type under = .ok target ∧ methods = listedMethods found ++ askedMethods target := by
  unfold PlacementContext.methodsOf at h
  obtain ⟨found, hfound, h⟩ := bind_eq_ok_iff.mp h
  have hrest : (do
      match ← p.type (← p.underlying type) with
      | .interface asked _ => return listedMethods found ++ asked
      | _ => return listedMethods found : Except Fault (List ObjectId)) = .ok methods := by
    cases found <;> exact h
  obtain ⟨under, hunder, h⟩ := bind_eq_ok_iff.mp hrest
  obtain ⟨target, htarget, h⟩ := bind_eq_ok_iff.mp h
  refine ⟨found, under, target, hfound, hunder, htarget, ?_⟩
  cases target with
  | interface asked embedded =>
    cases h
    rfl
  | _ =>
    cases h
    exact (List.append_nil _).symm

/-- A method of a type is listed by it, or an interface asks for it. -/
theorem HasMethod.listed_or_asked {type : TypeId} {obj : ObjectId} (h : p.HasMethod type obj) :
    (∃ name under methods, p.type type = .ok (.named name under methods) ∧ obj ∈ methods) ∨
      ∃ other methods embedded, p.type other = .ok (.interface methods embedded) ∧
        obj ∈ methods := by
  obtain ⟨methods, hmethods, hmem⟩ := h
  obtain ⟨found, under, target, hfound, -, htarget, rfl⟩ := methodsOf_eq_ok hmethods
  rcases List.mem_append.mp hmem with hmem | hmem
  · obtain ⟨name, under', listed, rfl, hobj⟩ := mem_listedMethods hmem
    exact .inl ⟨name, under', listed, hfound, hobj⟩
  · obtain ⟨asked, embedded, rfl, hobj⟩ := mem_askedMethods hmem
    exact .inr ⟨under, asked, embedded, htarget, hobj⟩

/-- What a named type lists is among its methods, if these can be told. -/
theorem hasMethod_of_listed {type : TypeId} {name obj : ObjectId} {under : Option TypeId}
    {listed methods : List ObjectId} (h : PlacementContext.methodsOf p type = .ok methods)
    (htype : p.type type = .ok (.named name under listed)) (hmem : obj ∈ listed) :
    p.HasMethod type obj := by
  refine ⟨methods, h, ?_⟩
  obtain ⟨found, _, target, hfound, -, -, rfl⟩ := methodsOf_eq_ok h
  rw [htype] at hfound
  cases hfound
  exact List.mem_append_left _ hmem

/-- An object is a function with a scope of its own. -/
def OwnsScope (p : Program) (obj : ObjectId) (scope : ScopeId) : Prop :=
  ∃ o, p.object obj = .ok o ∧ o.kind = .func (some scope)

/-- A function has one scope. -/
theorem OwnsScope.eq {obj : ObjectId} {a b : ScopeId} (ha : p.OwnsScope obj a)
    (hb : p.OwnsScope obj b) : a = b := by
  obtain ⟨o, ho, hkind⟩ := ha
  obtain ⟨o', ho', hkind'⟩ := hb
  rw [ho] at ho'
  cases ho'
  rw [hkind] at hkind'
  cases hkind'
  rfl

/-- An object is a type name that stands for a type. -/
def Names (p : Program) (obj : ObjectId) (type : TypeId) : Prop :=
  ∃ o, p.object obj = .ok o ∧ o.kind = .typeName ∧ o.type = some type

/-- Fields and methods are what they are listed as, and no scope binds them. -/
structure Members (p : Program) : Prop where
  fieldKind : ∀ {obj o}, p.IsField obj → p.object obj = .ok o → ∃ embedded, o.kind = .field embedded
  methodKind : ∀ {obj o}, p.IsMethod obj → p.object obj = .ok o → ∃ scope?, o.kind = .func scope?
  fieldUnbound : ∀ {obj scope name}, p.IsField obj → ¬ p.Binds scope name obj
  methodUnbound : ∀ {obj scope name}, p.IsMethod obj → ¬ p.Binds scope name obj

/-! ## Lists of what there is -/

/-- The objects of a program with their numbers. -/
def objectList (p : Program) : List (ObjectId × Object) :=
  p.objects.toList.zipIdx.map fun x => (⟨x.2⟩, x.1)

/-- The bindings of all scopes of a program. -/
def bindingList (p : Program) : List (ScopeId × String × ObjectId) :=
  p.scopes.toList.zipIdx.flatMap fun x => x.1.bindings.map fun b => (⟨x.2⟩, b.1, b.2)

/-- The scopes of a program that are children, with their parents. -/
def childList (p : Program) : List (ScopeId × ScopeId) :=
  p.scopes.toList.zipIdx.flatMap fun x => x.1.children.map fun child => (⟨x.2⟩, child)

/-- The fields of all struct types of a program. -/
def fieldList (p : Program) : List ObjectId :=
  p.types.toList.flatMap fun type =>
    match type with
    | .struct fields => fields
    | _ => []

/-- The named types of a program, with the type names that they refer to and their methods. -/
def namedList (p : Program) : List (TypeId × ObjectId × List ObjectId) :=
  p.types.toList.zipIdx.filterMap fun x =>
    match x.1 with
    | .named name _ methods => some (⟨x.2⟩, name, methods)
    | _ => none

/-- The methods that all interface types of a program ask for. -/
def askedList (p : Program) : List ObjectId :=
  p.types.toList.flatMap fun type =>
    match type with
    | .interface methods _ => methods
    | _ => []

/-- An object stands in the list of the objects. -/
theorem mem_objectList {obj : ObjectId} {o : Object} (h : p.object obj = .ok o) :
    (obj, o) ∈ p.objectList := by
  have hget := fetch_eq_ok_iff.mp h
  rw [← Array.getElem?_toList] at hget
  exact List.mem_map.mpr ⟨(o, obj.index), List.mk_mem_zipIdx_iff_getElem?.mpr hget, rfl⟩

/-- What stands in the list of the objects is an object. -/
theorem object_of_mem_objectList {obj : ObjectId} {o : Object} (h : (obj, o) ∈ p.objectList) :
    p.object obj = .ok o := by
  obtain ⟨⟨o, i⟩, hmem, heq⟩ := List.mem_map.mp h
  cases heq
  have hget := List.mk_mem_zipIdx_iff_getElem?.mp hmem
  rw [Array.getElem?_toList] at hget
  exact fetch_eq_ok_iff.mpr hget

/-- A scope stands among the scopes at its number. -/
theorem mem_zipIdx_scopes {scope : ScopeId} {found : Scope} (h : p.scope scope = .ok found) :
    (found, scope.index) ∈ p.scopes.toList.zipIdx := by
  have hget := fetch_eq_ok_iff.mp h
  rw [← Array.getElem?_toList] at hget
  exact List.mk_mem_zipIdx_iff_getElem?.mpr hget

/-- A binding stands in the list of all bindings. -/
theorem Binds.mem_bindingList {scope : ScopeId} {name : String} {obj : ObjectId}
    (h : p.Binds scope name obj) : (scope, name, obj) ∈ p.bindingList := by
  obtain ⟨found, hfound, hmem⟩ := h
  exact List.mem_flatMap.mpr ⟨_, mem_zipIdx_scopes hfound, List.mem_map.mpr ⟨_, hmem, rfl⟩⟩

/-- A child stands in the list of all children. -/
theorem HasChild.mem_childList {scope child : ScopeId} (h : p.HasChild scope child) :
    (scope, child) ∈ p.childList := by
  obtain ⟨found, hfound, hmem⟩ := h
  exact List.mem_flatMap.mpr ⟨_, mem_zipIdx_scopes hfound, List.mem_map.mpr ⟨_, hmem, rfl⟩⟩

/-- A field stands in the list of all fields. -/
theorem IsField.mem_fieldList {obj : ObjectId} (h : p.IsField obj) : obj ∈ p.fieldList := by
  obtain ⟨type, fields, hfields, hmem⟩ := h
  obtain ⟨found, hfound, hfields⟩ := bind_eq_ok_iff.mp hfields
  have hget := fetch_eq_ok_iff.mp hfound
  rw [← Array.getElem?_toList] at hget
  refine List.mem_flatMap.mpr ⟨found, List.mem_of_getElem? hget, ?_⟩
  split at hfields
  · cases hfields
    exact hmem
  · cases hfields

/-- A named type stands in the list of them. -/
theorem mem_namedList {type : TypeId} {name : ObjectId} {under : Option TypeId}
    {methods : List ObjectId} (h : p.type type = .ok (.named name under methods)) :
    (type, name, methods) ∈ p.namedList := by
  have hget := fetch_eq_ok_iff.mp h
  rw [← Array.getElem?_toList] at hget
  exact List.mem_filterMap.mpr ⟨_, List.mk_mem_zipIdx_iff_getElem?.mpr hget, rfl⟩

/-- A method that an interface asks for stands in the list of them. -/
theorem mem_askedList {type : TypeId} {methods : List ObjectId} {embedded : List TypeId}
    (h : p.type type = .ok (.interface methods embedded)) {obj : ObjectId} (hmem : obj ∈ methods) :
    obj ∈ p.askedList := by
  have hget := fetch_eq_ok_iff.mp h
  rw [← Array.getElem?_toList] at hget
  exact List.mem_flatMap.mpr ⟨_, List.mem_of_getElem? hget, hmem⟩

/-- Scopes form a tree if their list says so. -/
theorem scopeTree_of_lists (later : ∀ x ∈ p.childList, x.1.index < x.2.index)
    (parent : ∀ x ∈ p.childList, (p.scopes[x.2.index]?.bind Scope.parent) = some x.1)
    (nodup : ∀ x ∈ p.scopes.toList.zipIdx, x.1.children.Nodup)
    (unique : ∀ x ∈ p.bindingList, ∀ y ∈ p.bindingList,
      x.1 = y.1 → x.2.1 = y.2.1 → x.2.2 = y.2.2) : p.ScopeTree where
  later h := later _ h.mem_childList
  parent h := by
    obtain ⟨found, hfound, hparent⟩ := Option.bind_eq_some_iff.mp (parent _ h.mem_childList)
    exact ⟨found, fetch_eq_ok_iff.mpr hfound, hparent⟩
  nodup h := nodup _ (mem_zipIdx_scopes h)
  unique ha hb := unique _ ha.mem_bindingList _ hb.mem_bindingList rfl rfl

end Program

end SymbolGraph
