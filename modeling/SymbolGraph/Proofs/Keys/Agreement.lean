import SymbolGraph.Proofs.Placement.TopLevel
import SymbolGraph.Proofs.Resolve.History
import SymbolGraph.Proofs.Run.Completed

/-!
# Keys seen from two packages

An object is keyed in two ways: its own package keys it by its place, another one by its name,
behind the name of the type that a method belongs to. For objects at the top of their package
and for methods of types there the two keys are the same (`defKey?_eq_of_owner`), so that a
reference from elsewhere finds the definition, also when both are made global.

The walk that gives out the places may come to a scope again through a method, and takes
whatever a struct lists for a field, so that more has to be asked of an object than that its
package scope binds it; a sample shows what goes wrong otherwise (`Neighbours.exists_defKey?_ne`).
-/

namespace SymbolGraph

open PlacementContext

/-! ## Keys -/

namespace GraphContext

variable {c : GraphContext} {selected : Selected} {obj : ObjectId} {o : Object}

/-- The key of an object without its visibility. -/
def defKey? (c : GraphContext) (selected : Selected) (obj : ObjectId) :
    Except Fault (Option DefKey) :=
  (·.map KeyedObject.key) <$> c.objectKey? selected obj

/-- The key that a path stands for in a package. -/
def pathKey (p : Program) (owner : Package) (o : Object) (path : DefPath) : DefKey :=
  ⟨owner.path, (if owner.name = "main" then
    (o.pos.map fun pos => p.sources.baseName pos.file).toList else []) ++ path⟩

/-- The key of an object that has the key `own` unless it is predeclared or a package name. -/
def keyAs (p : Program) (o : Object) (own : DefKey) : Except Fault DefKey :=
  match o.kind with
  | .builtin => .ok (.ofBuiltin o.name)
  | .nil => .ok (.ofBuiltin "nil")
  | .package imported => do return .ofPackage (← p.package imported).path
  | .typeName => do
    if ← isPredeclaredType p o then return .ofBuiltin o.name else return own
  | _ => .ok own

/-- A path and the package of an object make up its key. -/
theorem ownedKey?_eq_ok {pkg : PackageId} {owner : Package} {path : DefPath}
    (howner : c.program.package pkg = .ok owner)
    (hpath : c.objectPath? selected obj o = .ok (some path)) :
    ∃ k, c.ownedKey? selected obj o pkg = .ok (some k) ∧
      k.key = pathKey c.program owner o path := by
  unfold ownedKey?
  rw [hpath]
  refine ⟨_, bind_eq_ok_iff.mpr ⟨_, rfl, bind_eq_ok_iff.mpr ⟨owner, howner, rfl⟩⟩, rfl⟩

/-- The key of an object with a path does not depend on the package that is being graphed except
by the path. -/
theorem defKey?_eq_keyAs {pkg : PackageId} {owner : Package} {path : DefPath}
    (ho : c.program.object obj = .ok o) (hpkg : o.pkg = some pkg)
    (howner : c.program.package pkg = .ok owner)
    (hpath : c.objectPath? selected obj o = .ok (some path)) :
    c.defKey? selected obj = some <$> keyAs c.program o (pathKey c.program owner o path) := by
  obtain ⟨k, hk, hkey⟩ := ownedKey?_eq_ok howner hpath
  have hplain : c.plainKey? selected obj o = .ok (some k) := by
    unfold plainKey?
    rw [hpkg]
    exact hk
  unfold defKey? objectKey? keyAs
  rw [ho, ← hkey]
  simp only [bind, Except.bind, pure, Except.pure]
  cases hkind : o.kind with
  | builtin => rfl
  | nil => rfl
  | package imported =>
    dsimp only
    cases c.program.package imported with
    | error f => rfl
    | ok owner => rfl
  | typeName =>
    dsimp only
    cases isPredeclaredType c.program o with
    | error f => rfl
    | ok basic =>
      cases basic with
      | true => rfl
      | false =>
        show Functor.map _ (c.plainKey? selected obj o) = _
        rw [hplain]
        rfl
  | _ =>
    dsimp only
    rw [hplain]
    rfl

/-! ### In the own package -/

section Own

variable {p : Program} {q : CheckedPackage} {labels : Labelling} {owner : Package}

/-- An object of the package that is graphed has the path of its place. -/
theorem objectPath?_of_place {placement : Placement} (hpkg : o.pkg = some c.package.pkg)
    (hplace : c.places.place? obj = some placement) :
    c.objectPath? selected obj o = .ok (some placement.path) := by
  unfold objectPath? localPath?
  rw [if_pos hpkg, hplace]
  rfl

/-- An object at the top of the package that is graphed has its name for a path. -/
theorem objectPath?_of_topLevel (hc : c.Of p q labels owner)
    (hpkg : o.pkg = some q.pkg) (ho : p.TopLevel owner.scope obj o) :
    c.objectPath? selected obj o = .ok (some [o.name]) := by
  obtain ⟨-, rfl, howned, -, hplacement, hplaces⟩ := hc
  obtain ⟨rfl, -, hpkg', -⟩ := ofPackage_eq_ok hplacement
  rw [← hpkg'] at howned
  obtain ⟨placement, hplace, hpath⟩ := place_of_topLevel hplaces howned ho
  rw [objectPath?_of_place hpkg hplace, hpath]

/-- A method of the package that is graphed has the path of its type name and its own. -/
theorem objectPath?_of_topMethod {type : TypeId} {name : ObjectId} {t : Object}
    (hc : c.Of p q labels owner) (hnamed : p.NamedOnce)
    (hpkg : o.pkg = some q.pkg) (ho : p.TopMethod owner.scope type name t obj o) :
    c.objectPath? selected obj o = .ok (some [t.name, o.name]) := by
  obtain ⟨-, rfl, howned, -, hplacement, hplaces⟩ := hc
  obtain ⟨rfl, -, hpkg', -⟩ := ofPackage_eq_ok hplacement
  rw [← hpkg'] at howned
  obtain ⟨placement, hplace, hpath⟩ := place_of_topMethod hnamed hplaces howned ho
  rw [objectPath?_of_place hpkg hplace, hpath]

end Own

/-! ### In another package -/

/-- An object of another package has the path that is made for it there. -/
theorem objectPath?_of_foreign (hpkg : o.pkg ≠ some c.package.pkg) {path : DefPath}
    (hpath : c.foreignPath selected obj o = .ok path) :
    c.objectPath? selected obj o = .ok (some path) := by
  unfold objectPath?
  rw [if_neg hpkg, hpath]
  rfl

/-- An object that belongs to no type goes by its name. -/
theorem foreignPath_of_ownerless (hfield : ∀ embedded, o.kind ≠ .field embedded)
    (hfunc : ∀ own, o.kind = .func own → c.program.receiver? obj = .ok none) :
    c.foreignPath selected obj o = .ok [o.name] := by
  have hnone : c.ownerType? selected obj o = .ok none := by
    unfold ownerType?
    cases hkind : o.kind with
    | field embedded => exact absurd hkind (hfield embedded)
    | func own =>
      dsimp only
      unfold Program.receiverType?
      rw [hfunc own hkind]
      rfl
    | _ => rfl
  unfold foreignPath
  rw [hnone]
  rfl

/-- The name of a named type, which may stand behind a pointer. -/
theorem typeName?_eq_ok {p : Program} {type recv : TypeId} {name : ObjectId} {t : Object}
    {under : Option TypeId} {methods : List ObjectId}
    (htype : p.type type = .ok (.named name under methods)) (ht : p.object name = .ok t)
    (hrecv : recv = type ∨ p.type recv = .ok (.pointer type)) :
    typeName? p recv = .ok (some t.name) := by
  have hderef : p.deref recv = .ok type := by
    unfold Program.deref
    rcases hrecv with rfl | hpointer
    · rw [htype]
      rfl
    · rw [hpointer]
      rfl
  unfold typeName?
  rw [hderef]
  refine bind_eq_ok_iff.mpr ⟨_, rfl, bind_eq_ok_iff.mpr ⟨_, htype, ?_⟩⟩
  exact bind_eq_ok_iff.mpr ⟨t, ht, rfl⟩

/-- A method goes by its name behind that of its receiver's type. -/
theorem foreignPath_of_listedMethod {top : ScopeId} {type : TypeId} {name : ObjectId}
    {t : Object} (hm : c.program.ListedMethod top type name t obj o) :
    c.foreignPath selected obj o = .ok [t.name, o.name] := by
  obtain ⟨own, hkind⟩ := hm.kind
  obtain ⟨under, methods, htype, -⟩ := hm.listed
  obtain ⟨recv, hreceiver, hrecv⟩ := hm.receiver
  unfold foreignPath ownerType?
  rw [hkind]
  dsimp only
  rw [hreceiver]
  show (do return Option.toList (← typeName? c.program recv) ++ [o.name]) = _
  rw [typeName?_eq_ok htype hm.nameObject hrecv]
  rfl

end GraphContext

/-! ## Agreement -/

namespace Program

/-- An object at the top of a package that belongs to no type. -/
structure Ownerless (p : Program) (top : ScopeId) (obj : ObjectId) (o : Object) : Prop
    extends p.TopLevel top obj o where
  notField : ∀ embedded, o.kind ≠ .field embedded
  noReceiver : ∀ own, o.kind = .func own → p.receiver? obj = .ok none

/-- What an object refers to, its type and the package it imports, is there. -/
def Refers (p : Program) (o : Object) : Prop :=
  (∀ type, o.type = some type → ∃ t, p.type type = .ok t) ∧
    ∀ imported, o.kind = .package imported → ∃ owner, p.package imported = .ok owner

end Program

namespace GraphContext

/-- Where everything that an object refers to is there, it has a key. -/
theorem isOk_keyAs {p : Program} {o : Object} (ho : p.Refers o) (own : DefKey) :
    ∃ key, keyAs p o own = .ok key := by
  unfold keyAs
  cases hkind : o.kind with
  | builtin => exact ⟨_, rfl⟩
  | nil => exact ⟨_, rfl⟩
  | package imported =>
    obtain ⟨owner, howner⟩ := ho.2 imported hkind
    dsimp only
    rw [howner]
    exact ⟨_, rfl⟩
  | typeName =>
    have hbasic : ∃ basic, isPredeclaredType p o = .ok basic := by
      unfold isPredeclaredType
      cases htype : o.type with
      | none => exact ⟨_, rfl⟩
      | some type =>
        obtain ⟨t, ht⟩ := ho.1 type htype
        dsimp only
        rw [ht]
        cases t <;> exact ⟨_, rfl⟩
    obtain ⟨basic, hbasic⟩ := hbasic
    dsimp only
    rw [hbasic]
    cases basic <;> exact ⟨_, rfl⟩
  | _ => exact ⟨own, rfl⟩

/-- The path of an object at the top of its package, or of a method of a type there, is the same
in its own package and in another. -/
theorem exists_objectPath?_eq {p : Program} (hnamed : p.NamedOnce)
    {k q : CheckedPackage} {labels labels' : Labelling} {seer owner : Package}
    {c d : GraphContext} (hc : c.Of p k labels seer) (hd : d.Of p q labels' owner)
    (hne : k.pkg ≠ q.pkg) {obj : ObjectId} {o : Object} (hpkg : o.pkg = some q.pkg)
    (hobj : p.Ownerless owner.scope obj o ∨
      ∃ type name t, p.TopMethod owner.scope type name t obj o) (selected selected' : Selected) :
    ∃ path, c.objectPath? selected obj o = .ok (some path) ∧
      d.objectPath? selected' obj o = .ok (some path) := by
  have hforeign : o.pkg ≠ some c.package.pkg := by
    rw [hpkg, hc.package]
    exact fun heq => hne (Option.some.inj heq).symm
  rcases hobj with ho | ⟨type, name, t, hm⟩
  · refine ⟨[o.name], objectPath?_of_foreign hforeign ?_,
      objectPath?_of_topLevel hd hpkg ho.toTopLevel⟩
    refine foreignPath_of_ownerless ho.notField fun own hkind => ?_
    rw [hc.program]
    exact ho.noReceiver own hkind
  · refine ⟨[t.name, o.name], objectPath?_of_foreign hforeign ?_,
      objectPath?_of_topMethod hd hnamed hpkg hm⟩
    have hlisted := hm.toListedMethod
    rw [← hc.program] at hlisted
    exact foreignPath_of_listedMethod hlisted

end GraphContext

/-- **Two packages agree on a key.** An object at the top of its package, or a method of a type
there, has one key in its own package and in any other; it has a key if what it refers to is
there; and a reference with the one key and a definition with the other get one global key at
all times of one history of a resolver. -/
theorem defKey?_eq_of_owner {p : Program} (hnamed : p.NamedOnce)
    {k q : CheckedPackage} {labels labels' : Labelling} {seer owner : Package}
    {c d : GraphContext} (hc : c.Of p k labels seer) (hd : d.Of p q labels' owner)
    (hne : k.pkg ≠ q.pkg) {obj : ObjectId} {o : Object} (hpkg : o.pkg = some q.pkg)
    (hobj : p.Ownerless owner.scope obj o ∨
      ∃ type name t, p.TopMethod owner.scope type name t obj o) (selected selected' : Selected) :
    c.defKey? selected obj = d.defKey? selected' obj ∧
    (p.Refers o → ∃ key, d.defKey? selected' obj = .ok (some key)) ∧
    ∀ (x : Ref) (y : Def), c.defKey? selected obj = .ok (some x.target) →
      d.defKey? selected' obj = .ok (some y.key) →
      ∀ (r : Resolver) (root root' : UnixPath) (s s' t t' : ResolverState) (gx : GlobalRef)
        (gy : GlobalDef), x.toGlobal r root s = (.ok (some gx), s') →
        y.toGlobal r root' t = (.ok (some gy), t') → r.Later s' t ∨ r.Later t' s →
        (gx.defRepo, gx.defUnit, gx.defUnitType, gx.defPath) =
          (gy.key.repo, gy.key.unit, gy.key.unitType, gy.key.path) := by
  obtain ⟨path, hcpath, hdpath⟩ := GraphContext.exists_objectPath?_eq hnamed hc hd hne hpkg
    hobj selected selected'
  have ho : p.object obj = .ok o := by
    rcases hobj with h | ⟨type, name, t, h⟩
    · exact h.object
    · exact h.object
  have howned := hd.owned
  have hckey := GraphContext.defKey?_eq_keyAs (c := c) (by rw [hc.program]; exact ho) hpkg
    (by rw [hc.program]; exact howned) hcpath
  have hdkey := GraphContext.defKey?_eq_keyAs (c := d) (by rw [hd.program]; exact ho) hpkg
    (by rw [hd.program]; exact howned) hdpath
  rw [hc.program] at hckey
  rw [hd.program] at hdkey
  have hsame : c.defKey? selected obj = d.defKey? selected' obj := hckey.trans hdkey.symm
  refine ⟨hsame, fun hrefers => ?_, ?_⟩
  · obtain ⟨key, hkey⟩ := GraphContext.isOk_keyAs hrefers
      (GraphContext.pathKey p owner o path)
    rw [hkey] at hdkey
    exact ⟨key, hdkey⟩
  · intro x y hx hy r root root' s s' t t' gx gy hgx hgy hlater
    rw [hsame, hy] at hx
    have hkeys : x.target = y.key := (Option.some.inj (Except.ok.inj hx)).symm
    exact toGlobal_key_eq hkeys hgx hgy hlater

/-! ## Neighbours -/

namespace Neighbours

/-- A type name of the second package. -/
def typeName (name : String) (type : Nat) : Object :=
  ⟨name, .typeName, some ⟨1⟩, some ⟨2⟩, some ⟨⟨0⟩, 0⟩, some ⟨type⟩⟩

/-- A method of a type of the second package. -/
def method (name : String) (signature : Nat) : Object :=
  ⟨name, .func none, some ⟨1⟩, none, some ⟨⟨0⟩, 0⟩, some ⟨signature⟩⟩

/-- The receiver of such a method. -/
def receiver (type : Nat) : Object :=
  ⟨"", .var, some ⟨1⟩, none, some ⟨⟨0⟩, 0⟩, some ⟨type⟩⟩

/-- A variable of the second package. -/
def variableOf (name : String) : Object :=
  ⟨name, .var, some ⟨1⟩, some ⟨2⟩, some ⟨⟨0⟩, 0⟩, none⟩

/-- Two packages. In the second, the method `m` of the type `A` has a scope that also binds the
type `T`, the method `j` of `S` and the variable `v`; the struct `A` takes the variable `x`, the
method `k` of `S` and the type `R` for fields, and the type lists the function `h` and the type
`Y` as methods; and the scope of the package also binds the method `B` of `S`, a field `f`, a
function `g` that has a receiver, and the type `W` under a second name. The type `U`, its method
`u` and the variable `z` keep to themselves. -/
def program : Program where
  sources := ⟨#[⟨"main.go", ""⟩]⟩
  tree := ⟨#[]⟩
  objects := #[typeName "A" 0, { method "m" 2 with kind := .func (some ⟨3⟩) },
    typeName "T" 3, method "n" 4, typeName "R" 5, method "r" 6, typeName "Y" 7, method "y" 8,
    typeName "W" 9, method "w" 10, typeName "S" 11, method "B" 12, method "j" 12, method "k" 12,
    typeName "U" 13, method "u" 14, variableOf "v", variableOf "x",
    { method "h" 2 with type := none }, method "g" 2, { variableOf "f" with kind := .field false },
    variableOf "z", receiver 0, receiver 3, receiver 5, receiver 7, receiver 9, receiver 11,
    receiver 15]
  types := #[.named ⟨0⟩ (some ⟨1⟩) [⟨1⟩, ⟨18⟩, ⟨6⟩], .struct [⟨17⟩, ⟨13⟩, ⟨4⟩],
    .signature (some ⟨22⟩) [] [] false,
    .named ⟨2⟩ (some ⟨16⟩) [⟨3⟩], .signature (some ⟨23⟩) [] [] false,
    .named ⟨4⟩ (some ⟨16⟩) [⟨5⟩], .signature (some ⟨24⟩) [] [] false,
    .named ⟨6⟩ (some ⟨16⟩) [⟨7⟩], .signature (some ⟨25⟩) [] [] false,
    .named ⟨8⟩ (some ⟨16⟩) [⟨9⟩], .signature (some ⟨26⟩) [] [] false,
    .named ⟨10⟩ (some ⟨16⟩) [⟨11⟩, ⟨12⟩, ⟨13⟩], .signature (some ⟨27⟩) [] [] false,
    .named ⟨14⟩ (some ⟨16⟩) [⟨15⟩], .signature (some ⟨28⟩) [] [] false, .pointer ⟨13⟩,
    .basic "int"]
  scopes := #[⟨none, [⟨1⟩, ⟨2⟩, ⟨3⟩], []⟩, ⟨some ⟨0⟩, [], []⟩,
    ⟨some ⟨0⟩, [], [("A", ⟨0⟩), ("B", ⟨11⟩), ("E", ⟨8⟩), ("R", ⟨4⟩), ("S", ⟨10⟩), ("T", ⟨2⟩),
      ("U", ⟨14⟩), ("W", ⟨8⟩), ("Y", ⟨6⟩), ("f", ⟨20⟩), ("g", ⟨19⟩), ("h", ⟨18⟩), ("v", ⟨16⟩),
      ("x", ⟨17⟩), ("z", ⟨21⟩)]⟩,
    ⟨some ⟨0⟩, [], [("T", ⟨2⟩), ("j", ⟨12⟩), ("v", ⟨16⟩)]⟩]
  packages := #[⟨"user", "user", ⟨1⟩⟩, ⟨"cmd", "main", ⟨2⟩⟩]

/-- The scopes of the sample are a tree. -/
theorem scopeTree : program.ScopeTree :=
  Program.scopeTree_of_lists (by decide) (by decide) (by decide) (by decide)

/-- Each named type of the sample has one type name. -/
theorem namedOnce : program.NamedOnce := by
  intro type name under methods htype
  have hnamed : ∀ x ∈ program.namedList, ∀ y ∈ program.objectList, y.2.kind = .typeName →
      y.2.type = some x.1 → y.1 = x.2.1 := by decide
  have hnames : ∀ x ∈ program.namedList, ∃ y ∈ program.objectList, y.1 = x.2.1 ∧
      y.2.kind = .typeName ∧ y.2.type = some x.1 := by decide
  have hmem := Program.mem_namedList htype
  constructor
  · obtain ⟨⟨obj, o⟩, ho, rfl, hkind, hotype⟩ := hnames _ hmem
    exact ⟨o, Program.object_of_mem_objectList ho, hkind, hotype⟩
  · rintro other ⟨o, ho, hkind, hotype⟩
    exact hnamed _ hmem _ (Program.mem_objectList ho) hkind hotype

/-- The packages and the method with a body have one scope each. -/
theorem eq_of_below {top scope : ScopeId} (htop : top ≠ ⟨0⟩) (h : program.Below top scope) :
    scope = top := by
  rcases h.eq_or_child with rfl | ⟨child, hchild, -⟩
  · rfl
  · have hall : ∀ x ∈ program.childList, x.1 = ⟨0⟩ := by decide
    exact absurd (hall _ hchild.mem_childList) htop

/-- The only scope in a body is that of the method `m`. -/
theorem eq_of_inBody {scope : ScopeId} (h : program.InBody scope) : scope = ⟨3⟩ := by
  obtain ⟨func, own, ⟨o, ho, hkind⟩, hbelow⟩ := h
  have hall : ∀ x ∈ program.objectList, x.2.kind = .func none ∨ x.2.kind = .func (some ⟨3⟩) ∨
      x.2.kind.word ≠ "func" := by decide
  have hown : own = ⟨3⟩ := by
    rcases hall _ (Program.mem_objectList ho) with hx | hx | hx <;> rw [hkind] at hx
    · cases hx
    · cases hx
      rfl
    · exact absurd rfl hx
  subst hown
  exact eq_of_below (by decide) hbelow

/-- An object that the scope of the second package binds under one name. -/
theorem boundOnce {obj : ObjectId} {o : Object} (ho : program.object obj = .ok o)
    (hbound : program.Binds ⟨2⟩ o.name obj)
    (hone : ∀ x ∈ program.bindingList, x.1 = ⟨2⟩ → x.2.2 = obj → x.2.1 = o.name) :
    program.BoundOnce ⟨2⟩ obj o where
  object := ho
  bound := hbound
  only hbelow hbinds := by
    obtain rfl := eq_of_below (by decide) hbelow
    exact ⟨rfl, hone _ hbinds.mem_bindingList rfl rfl⟩

/-- What that scope does not bind is bound in no body. -/
theorem not_binds_of_inBody {obj : ObjectId}
    (hfree : ∀ x ∈ program.bindingList, x.1 = ⟨3⟩ → x.2.2 ≠ obj) {scope : ScopeId}
    {name : String} (hbody : program.InBody scope) : ¬ program.Binds scope name obj := by
  intro hbinds
  obtain rfl := eq_of_inBody hbody
  exact hfree _ hbinds.mem_bindingList rfl rfl

/-- No type of the sample asks for methods, so what none lists is no method. -/
theorem not_isMethod {obj : ObjectId} (h : ∀ x ∈ program.namedList, obj ∉ x.2.2) :
    ¬ program.IsMethod obj := by
  rintro ⟨type, hmethod⟩
  rcases hmethod.listed_or_asked with ⟨name, under, methods, htype, hmem⟩ |
    ⟨other, methods, embedded, hother, hmem⟩
  · exact h _ (Program.mem_namedList htype) hmem
  · exact absurd (Program.mem_askedList hother hmem) List.not_mem_nil

/-- A method of the sample that one type lists, with a receiver of that type. -/
theorem listedMethod {type recv : TypeId} {name obj : ObjectId} {t o : Object}
    {under : Option TypeId} {methods : List ObjectId} (ho : program.object obj = .ok o)
    (hkind : o.kind = .func none) (ht : program.object name = .ok t)
    (hname : program.Binds ⟨2⟩ t.name name)
    (htype : program.type type = .ok (.named name under methods)) (hmem : obj ∈ methods)
    (hrecv : program.receiverType? obj = .ok (some recv))
    (hptr : recv = type ∨ program.type recv = .ok (.pointer type)) :
    program.ListedMethod ⟨2⟩ type name t obj o where
  object := ho
  kind := ⟨none, hkind⟩
  nameObject := ht
  nameBound := hname
  listed := ⟨under, methods, htype, hmem⟩
  once hother hmem' := by
    have hall : ∀ x ∈ program.namedList, ∀ y ∈ program.namedList, ∀ m ∈ x.2.2, m ∈ y.2.2 →
        x.1 = y.1 := by decide
    exact hall _ (Program.mem_namedList hother) _ (Program.mem_namedList htype) _ hmem' hmem
  noInterface hother hmem' := absurd (Program.mem_askedList hother hmem') List.not_mem_nil
  receiver := ⟨recv, hrecv, hptr⟩

/-- The variable `z` stands at the top and belongs to no type. -/
theorem ownerless_z : program.Ownerless ⟨2⟩ ⟨21⟩ (variableOf "z") where
  toTopLevel := (boundOnce rfl ⟨_, rfl, by decide⟩ (by decide)).topLevel
    (not_binds_of_inBody (by decide)) (fun h => absurd h.mem_fieldList (by decide))
    (not_isMethod (by decide))
  notField _ h := by cases h
  noReceiver _ h := by cases h

/-- The method `u` is a method of the type `U` and of nothing else. -/
theorem topMethod_u :
    program.TopMethod ⟨2⟩ ⟨13⟩ ⟨14⟩ (typeName "U" 13) ⟨15⟩ (method "u" 14) where
  toListedMethod := listedMethod rfl rfl rfl ⟨_, rfl, by decide⟩ rfl (by decide) rfl (.inr rfl)
  typeName := (boundOnce rfl ⟨_, rfl, by decide⟩ (by decide)).topLevel
    (not_binds_of_inBody (by decide)) (fun h => absurd h.mem_fieldList (by decide))
    (not_isMethod (by decide))
  unbound hbinds := by
    have hall : ∀ x ∈ program.bindingList, x.2.2 ≠ ⟨15⟩ := by decide
    exact hall _ hbinds.mem_bindingList rfl
  bodies := not_binds_of_inBody (by decide)
  noField h := absurd h.mem_fieldList (by decide)

/-- What is known of a package when it is graphed. -/
def placement (pkg : PackageId) : PlacementContext :=
  ⟨program, pkg, .empty, ⟨.empty, .empty⟩, .deterministic⟩

/-- The places that its objects get. -/
def places (pkg : PackageId) : Placements :=
  match (placement pkg).placePackage .empty with
  | .ok s => s
  | .error _ => .empty

/-- The first package as it is graphed, which uses the second one. -/
def user : GraphContext := ⟨program, .ofId ⟨0⟩, "user", placement ⟨0⟩, places ⟨0⟩⟩

/-- The second package as it is graphed itself. -/
def owner : GraphContext := ⟨program, .ofId ⟨1⟩, "cmd", placement ⟨1⟩, places ⟨1⟩⟩

/-- The places that are given are those on record. -/
theorem placePackage_eq_ok {pkg : PackageId}
    (h : ((placement pkg).placePackage .empty).isOk = true) :
    (placement pkg).placePackage .empty = .ok (places pkg) := by
  unfold places
  cases hplaces : (placement pkg).placePackage .empty with
  | error f => rw [hplaces] at h; cases h
  | ok s => rfl

/-- The first package is graphed with what is known of it. -/
theorem user_of : user.Of program (.ofId ⟨0⟩) .deterministic ⟨"user", "user", ⟨1⟩⟩ :=
  ⟨rfl, rfl, rfl, rfl, rfl, placePackage_eq_ok (by decide +kernel)⟩

/-- The second package is graphed with what is known of it. -/
theorem owner_of : owner.Of program (.ofId ⟨1⟩) .deterministic ⟨"cmd", "main", ⟨2⟩⟩ :=
  ⟨rfl, rfl, rfl, rfl, rfl, placePackage_eq_ok (by decide +kernel)⟩

/-- The keys of the variable `z` and of the method `u` are the same for both packages. -/
theorem defKey?_user_eq_owner :
    user.Of program (.ofId ⟨0⟩) .deterministic ⟨"user", "user", ⟨1⟩⟩ ∧
    owner.Of program (.ofId ⟨1⟩) .deterministic ⟨"cmd", "main", ⟨2⟩⟩ ∧
    user.defKey? .empty ⟨21⟩ = owner.defKey? .empty ⟨21⟩ ∧
    user.defKey? .empty ⟨15⟩ = owner.defKey? .empty ⟨15⟩ ∧
    (owner.defKey? .empty ⟨21⟩).toOption = some (some ⟨"cmd", ["main.go", "z"]⟩) ∧
    (owner.defKey? .empty ⟨15⟩).toOption = some (some ⟨"cmd", ["main.go", "U", "u"]⟩) :=
  ⟨user_of, owner_of,
    (defKey?_eq_of_owner namedOnce user_of owner_of (by decide) rfl (.inl ownerless_z)
      .empty .empty).1,
    (defKey?_eq_of_owner namedOnce user_of owner_of (by decide) rfl
      (.inr ⟨_, _, _, topMethod_u⟩) .empty .empty).1,
    by decide +kernel, by decide +kernel⟩

/-- An object that its package scope alone binds, and a method that one type alone lists, can
have different keys: a walk through a method, a struct or the scope of the package itself comes to
them or to the type first, or a receiver or a selection puts them behind a type. -/
theorem exists_defKey?_ne :
    program.ScopeTree ∧ program.NamedOnce ∧
    user.Of program (.ofId ⟨0⟩) .deterministic ⟨"user", "user", ⟨1⟩⟩ ∧
    owner.Of program (.ofId ⟨1⟩) .deterministic ⟨"cmd", "main", ⟨2⟩⟩ ∧
    (∀ obj ∈ [⟨16⟩, ⟨17⟩, ⟨18⟩, ⟨19⟩, ⟨20⟩], ∃ o, program.BoundOnce ⟨2⟩ obj o ∧
      o.pkg = some ⟨1⟩ ∧ user.defKey? ⟨[(⟨20⟩, ⟨0⟩)]⟩ obj ≠ owner.defKey? .empty obj) ∧
    ∀ obj ∈ [⟨3⟩, ⟨5⟩, ⟨7⟩, ⟨9⟩, ⟨11⟩, ⟨12⟩, ⟨13⟩], ∃ type name t o,
      program.ListedMethod ⟨2⟩ type name t obj o ∧ o.pkg = some ⟨1⟩ ∧
      user.defKey? .empty obj ≠ owner.defKey? .empty obj := by
  have hkeys : ∀ obj ∈ [⟨16⟩, ⟨17⟩, ⟨18⟩, ⟨19⟩, ⟨20⟩],
      (user.defKey? ⟨[(⟨20⟩, ⟨0⟩)]⟩ obj).toOption ≠ (owner.defKey? .empty obj).toOption := by
    decide +kernel
  have hmethods : ∀ obj ∈ [⟨3⟩, ⟨5⟩, ⟨7⟩, ⟨9⟩, ⟨11⟩, ⟨12⟩, ⟨13⟩],
      (user.defKey? .empty obj).toOption ≠ (owner.defKey? .empty obj).toOption := by
    decide +kernel
  refine ⟨scopeTree, namedOnce, user_of, owner_of, fun obj hobj => ?_, fun obj hobj => ?_⟩
  · have hne : user.defKey? ⟨[(⟨20⟩, ⟨0⟩)]⟩ obj ≠ owner.defKey? .empty obj :=
      fun heq => hkeys obj hobj (congrArg _ heq)
    simp only [List.mem_cons, List.not_mem_nil, or_false] at hobj
    rcases hobj with rfl | rfl | rfl | rfl | rfl <;>
      exact ⟨_, boundOnce rfl ⟨_, rfl, by decide⟩ (by decide), rfl, hne⟩
  · have hne : user.defKey? .empty obj ≠ owner.defKey? .empty obj :=
      fun heq => hmethods obj hobj (congrArg _ heq)
    simp only [List.mem_cons, List.not_mem_nil, or_false] at hobj
    rcases hobj with rfl | rfl | rfl | rfl | rfl | rfl | rfl <;>
      exact ⟨_, _, _, _, listedMethod rfl rfl rfl ⟨_, rfl, by decide⟩ rfl (by decide) rfl
        (.inl rfl), rfl, hne⟩

end Neighbours

end SymbolGraph
