import SymbolGraph.Proofs.Placement.Guide

/-!
# Places at the top of a package

Where the objects that a package scope binds, and the methods of the types among them, get their
places. All of these are placed before the walk comes to the scopes below; on the way it comes,
through methods, to scopes that functions own (`Program.InBody`). An object that no such scope
binds, and that is no member of a type, can then only get the place that its name says
(`place_of_topLevel`); a method that is listed by the type of such a type name, and by nothing
else that the walk takes methods or fields from, can only get the place below it
(`place_of_topMethod`).
-/

namespace SymbolGraph

open Text Placements PlacementContext

namespace Program

variable {p : Program} {top : ScopeId} {obj : ObjectId} {o : Object}

/-! ## Objects -/

/-- A scope is that of a function or lies below it. -/
def InBody (p : Program) (scope : ScopeId) : Prop :=
  ∃ func own, p.OwnsScope func own ∧ p.Below own scope

/-- A scope within a body stays within it. -/
theorem InBody.child {scope child : ScopeId} (h : p.InBody scope)
    (hchild : p.HasChild scope child) : p.InBody child := by
  obtain ⟨func, own, howns, hbelow⟩ := h
  exact ⟨func, own, howns, .child hbelow hchild⟩

/-- An object is bound under its name in a package's scope and, at or below that, nowhere else. -/
structure BoundOnce (p : Program) (top : ScopeId) (obj : ObjectId) (o : Object) : Prop where
  object : p.object obj = .ok o
  bound : p.Binds top o.name obj
  only : ∀ {scope name}, p.Below top scope → p.Binds scope name obj →
    scope = top ∧ name = o.name

/-- An object is bound in a package's scope under its name alone and in no body, and is no member
of a type. -/
structure TopLevel (p : Program) (top : ScopeId) (obj : ObjectId) (o : Object) : Prop where
  object : p.object obj = .ok o
  bound : p.Binds top o.name obj
  only : ∀ {name}, p.Binds top name obj → name = o.name
  bodies : ∀ {scope name}, p.InBody scope → ¬ p.Binds scope name obj
  noField : ¬ p.IsField obj
  noMethod : ¬ p.IsMethod obj

/-- An object that the package binds once stands at its top if nothing else leads to it. -/
theorem BoundOnce.topLevel (h : p.BoundOnce top obj o)
    (bodies : ∀ {scope name}, p.InBody scope → ¬ p.Binds scope name obj)
    (noField : ¬ p.IsField obj) (noMethod : ¬ p.IsMethod obj) : p.TopLevel top obj o where
  object := h.object
  bound := h.bound
  only hbinds := (h.only .refl hbinds).2
  bodies := bodies
  noField := noField
  noMethod := noMethod

/-- A method is listed by one named type, whose type name is bound in a package's scope, is no
method of an interface, and has a receiver of the type or of a pointer to it. -/
structure ListedMethod (p : Program) (top : ScopeId) (type : TypeId) (name : ObjectId)
    (t : Object) (obj : ObjectId) (o : Object) : Prop where
  object : p.object obj = .ok o
  kind : ∃ own, o.kind = .func own
  nameObject : p.object name = .ok t
  /-- The type is declared in the package. This only describes the method: no key depends on it. -/
  nameBound : p.Binds top t.name name
  listed : ∃ under methods, p.type type = .ok (.named name under methods) ∧ obj ∈ methods
  once : ∀ {other x under methods}, p.type other = .ok (.named x under methods) →
    obj ∈ methods → other = type
  noInterface : ∀ {other methods embedded}, p.type other = .ok (.interface methods embedded) →
    obj ∉ methods
  receiver : ∃ recv, p.receiverType? obj = .ok (some recv) ∧
    (recv = type ∨ p.type recv = .ok (.pointer type))

/-- The type name of a listed method is at the top of the package, and the method itself is bound
neither there nor in a body and is no field. -/
structure TopMethod (p : Program) (top : ScopeId) (type : TypeId) (name : ObjectId) (t : Object)
    (obj : ObjectId) (o : Object) : Prop extends p.ListedMethod top type name t obj o where
  typeName : p.TopLevel top name t
  unbound : ∀ {name}, ¬ p.Binds top name obj
  bodies : ∀ {scope name}, p.InBody scope → ¬ p.Binds scope name obj
  noField : ¬ p.IsField obj

/-- Each named type is the type of one type name, the one that it refers to. -/
def NamedOnce (p : Program) : Prop :=
  ∀ {type name under methods}, p.type type = .ok (.named name under methods) →
    p.Names name type ∧ ∀ {other}, p.Names other type → other = name

/-! ## Methods -/

/-- A method can be taken up only below one type name. -/
structure OnlyBelow (p : Program) (top : ScopeId) (name obj : ObjectId) : Prop where
  unbound : ∀ {n}, ¬ p.Binds top n obj
  bodies : ∀ {scope n}, p.InBody scope → ¬ p.Binds scope n obj
  noField : ¬ p.IsField obj
  owner : ∀ {type other}, p.HasMethod type obj → p.Names other type → other = name

/-- A listed method can be taken up only below the name of the type that lists it. -/
theorem TopMethod.onlyBelow {type : TypeId} {name : ObjectId} {t : Object}
    (h : p.TopMethod top type name t obj o) (hnamed : p.NamedOnce) :
    p.OnlyBelow top name obj where
  unbound := h.unbound
  bodies := h.bodies
  noField := h.noField
  owner := by
    intro other x hmethod hx
    rcases hmethod.listed_or_asked with ⟨y, under, listed, hother, hmem⟩ |
      ⟨under, asked, embedded, hunder, hmem⟩
    · obtain rfl := h.once hother hmem
      obtain ⟨under', methods', htype, -⟩ := h.listed
      exact (hnamed htype).2 hx
    · exact absurd hmem (h.noInterface hunder)

end Program

/-! ## What the walk may give -/

section Walk

variable {c : PlacementContext} {top : ScopeId} {name : ObjectId} {t : Object}

/-- As long as the bindings of the package are gone through, the type name, or any other object
at the top of the package, gets the path that its name says, and what can be taken up only below
it gets a path below that. -/
def topGuide (c : PlacementContext) (top : ScopeId) (name : ObjectId) (t : Object) : Guide c where
  enters _ _ := True
  places x place := (x = name → place.path = [t.name]) ∧
    ∀ o, c.program.OnlyBelow top name x → c.program.object x = .ok o →
      place.path = [t.name, o.name]
  takes
    | .scope scope _ _ => c.program.InBody scope
    | .method x base _ => x ≠ name ∧ (c.program.OnlyBelow top name x → base = [t.name])
    | .field x _ _ => x ≠ name ∧ ¬ c.program.OnlyBelow top name x
  binds scope base _ := (scope = top ∧ base = []) ∨ c.program.InBody scope

/-- A field is neither at the top of the package nor a method. -/
theorem takes_field (ht : c.program.TopLevel top name t) {x : ObjectId}
    (hx : c.program.IsField x) (base : DefPath) (packageScope : Bool) :
    (topGuide c top name t).takes (.field x base packageScope) :=
  ⟨fun heq => ht.noField (heq ▸ hx), fun honly => honly.noField hx⟩

/-- The walk comes to an object at the top of the package by its binding alone, since bodies do not
bind it and it is no field and no method; and to what can be taken up only below the object it comes
by way of the methods of that. -/
theorem sound_topGuide (ht : c.program.TopLevel top name t) : (topGuide c top name t).Sound := by
  constructor
  case scope => exact fun h => ⟨trivial, .inr h⟩
  case binding =>
    intro scope base packageScope found n x o hscope hfound hmem ho
    have hbinds : c.program.Binds scope n x := ⟨found, hfound, hmem⟩
    have hpath : x = name → base ++ [n] = [t.name] := by
      rintro rfl
      rcases hscope with ⟨rfl, rfl⟩ | hbody
      · rw [ht.only hbinds]
        rfl
      · exact absurd hbinds (ht.bodies hbody)
    have hunbound : ¬ c.program.OnlyBelow top name x := by
      intro honly
      rcases hscope with ⟨rfl, -⟩ | hbody
      · exact honly.unbound hbinds
      · exact honly.bodies hbody hbinds
    refine ⟨⟨hpath, fun _ honly _ => absurd honly hunbound⟩, fun item hitem => ?_⟩
    cases hitem with
    | method hkind htype hmethod =>
      refine ⟨fun heq => ht.noMethod (heq ▸ hmethod.isMethod), fun honly => ?_⟩
      exact hpath (honly.owner hmethod ⟨o, ho, hkind, htype⟩)
    | typeField _ _ _ hfield => exact takes_field ht hfield.isField _ _
    | varField _ _ hfield => exact takes_field ht hfield.isField _ _
  case method =>
    rintro x base packageScope o ⟨hne, hbase⟩ ho
    refine ⟨⟨fun heq => absurd heq hne, fun o' honly ho' => ?_⟩, fun item hitem => ?_⟩
    · rw [ho] at ho'
      cases ho'
      rw [hbase honly]
      rfl
    · unfold bodyOf at hitem
      split at hitem
      · rename_i own hkind
        obtain rfl := List.mem_singleton.mp hitem
        exact ⟨x, own, ⟨o, ho, hkind⟩, .refl⟩
      · cases hitem
  case field =>
    rintro x base packageScope o ⟨hne, hnot⟩ ho
    exact ⟨⟨fun heq => absurd heq hne, fun _ honly => absurd honly hnot⟩,
      fun type inner _ hfield => takes_field ht hfield.isField _ _⟩
  case child =>
    intro scope base packageScope found before child rest seen path hbody hfound hchildren _ _
    exact hbody.child (.of_children hfound hchildren)

variable {s : Placements} {owner : Package}

/-- Whatever is at the top of a package has its place when the bindings of the package have been
gone through, and so has what lies below it. -/
theorem exists_topGuide_admits (h : c.placePackage .empty = .ok s)
    (howner : c.program.package c.pkg = .ok owner) (ht : c.program.TopLevel owner.scope name t) :
    ∃ s₁, (topGuide c owner.scope name t).Admits s₁ ∧ Grows s₁ s ∧ (s₁.place? name).isSome ∧
      c.Settled s₁ name := by
  obtain ⟨found, s₁, hfound, hbindings, hchildren⟩ := runs_bindings_of_placePackage h howner
  obtain ⟨found', hfound', hmem⟩ := ht.bound
  rw [hfound] at hfound'
  cases hfound'
  have hplaced := hbindings.done _ hmem
  refine ⟨s₁, ?_, hchildren.grows, hplaced,
    hbindings.settles ⟨found, hfound, fun _ hb => hb⟩ name rfl hplaced⟩
  exact (sound_topGuide ht).admits hbindings ⟨.inl ⟨rfl, rfl⟩, found, hfound, fun _ hb => hb⟩
    ((Guide.admits_empty _).setScope trivial)

/-- An object at the top of a package has the place that its name says. -/
theorem place_of_topLevel (h : c.placePackage .empty = .ok s)
    (howner : c.program.package c.pkg = .ok owner)
    (ht : c.program.TopLevel owner.scope name t) :
    ∃ place, s.place? name = some place ∧ place.path = [t.name] := by
  obtain ⟨s₁, hadmits, hgrows, hplaced, -⟩ := exists_topGuide_admits h howner ht
  obtain ⟨place, hplace⟩ := Option.isSome_iff_exists.mp hplaced
  exact ⟨place, hgrows.places _ _ hplace, (hadmits.objects name place hplace).1 rfl⟩

/-- A method of a type at the top of a package has the place below the type name. -/
theorem place_of_topMethod {type : TypeId} {obj : ObjectId} {o : Object}
    (hnamed : c.program.NamedOnce) (h : c.placePackage .empty = .ok s)
    (howner : c.program.package c.pkg = .ok owner)
    (hm : c.program.TopMethod owner.scope type name t obj o) :
    ∃ place, s.place? obj = some place ∧ place.path = [t.name, o.name] := by
  obtain ⟨s₁, hadmits, hgrows, -, hsettled⟩ := exists_topGuide_admits h howner hm.typeName
  have hplaced : (s₁.place? obj).isSome := by
    obtain ⟨under, methods, htype, hmem⟩ := hm.listed
    -- the type name was bound, and so its methods were gone on to
    cases hsettled with
    | method hmethod => exact absurd hmethod hm.typeName.noMethod
    | field hfield => exact absurd hfield hm.typeName.noField
    | bound hfound hbinding ho hbelow hhandled =>
      obtain ⟨x, hx, hkind, hxtype⟩ := (hnamed htype).1
      rw [hx] at ho
      cases ho
      have hmethods : ∃ all, methodsOf c.program type = .ok all := by
        unfold below at hbelow
        rw [hxtype, hkind] at hbelow
        obtain ⟨all, hall, -⟩ := bind_eq_ok_iff.mp hbelow
        exact ⟨all, hall⟩
      obtain ⟨all, hall⟩ := hmethods
      have hmethod := Program.hasMethod_of_listed hall htype hmem
      exact hhandled _ (method_mem_below hbelow hkind hxtype hmethod)
  obtain ⟨place, hplace⟩ := Option.isSome_iff_exists.mp hplaced
  exact ⟨place, hgrows.places _ _ hplace,
    (hadmits.objects obj place hplace).2 o (hm.onlyBelow hnamed) hm.object⟩

end Walk

end SymbolGraph
