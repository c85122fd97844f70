import SymbolGraph.Proofs.Placement.Guide
import SymbolGraph.Proofs.Program.Assembled

/-!
# How far places can be seen

A place says whether its object stands at the top of the package and whether it is exported. The
walk passes the first flag down three ways: to what a scope binds, to methods and fields, and to
bodies and child scopes. In a program whose scopes are `Layered` none of these ways mixes up the
levels (`sound_visibilityGuide`): the flag is set for the bindings of the package's own scope, and
whatever else the walk enters lies strictly below some package, so that an object which one scope
binds has the flags that this scope says (`place_of_layered`).
-/

namespace SymbolGraph

open Text Placements PlacementContext

namespace Program

variable {p : Program}

/-- A scope lies strictly below the scope of some package. -/
def IsInner (p : Program) (scope : ScopeId) : Prop :=
  ∃ pkg owner around, p.package pkg = .ok owner ∧ p.Below owner.scope around ∧
    p.HasChild around scope

/-- Each object is bound in one scope at most, and the scope of every function lies strictly below
that of some package. -/
structure Layered (p : Program) : Prop where
  boundOnce : ∀ {a b n m x}, p.Binds a n x → p.Binds b m x → a = b
  bodies : ∀ {func own}, p.OwnsScope func own → p.IsInner own

/-- An object is bound in a scope at or below another one, and is no field or method. -/
structure BoundBelow (p : Program) (top scope : ScopeId) (x : ObjectId) : Prop where
  below : p.Below top scope
  binds : ∃ n, p.Binds scope n x
  notField : ¬ p.IsField x
  notMethod : ¬ p.IsMethod x

/-- Children of a scope below a package's lie below it too. -/
theorem IsInner.child {scope child : ScopeId} (h : p.IsInner scope)
    (hchild : p.HasChild scope child) : p.IsInner child := by
  obtain ⟨pkg, owner, around, howner, hbelow, hscope⟩ := h
  exact ⟨pkg, owner, scope, howner, .child hbelow hscope, hchild⟩

/-- No package stands inside another one. -/
theorem IsInner.ne (hp : p.Orderly) {scope : ScopeId} (h : p.IsInner scope) {pkg : PackageId}
    {owner : Package} (howner : p.package pkg = .ok owner) : scope ≠ owner.scope := by
  rintro rfl
  obtain ⟨other, outer, around, houter, hbelow, hchild⟩ := h
  -- its only parent is the predeclared scope, which is no scope's child
  have hroot := hp.parent_eq hchild (hp.packages howner)
  cases hbelow with
  | refl => exact hp.not_hasChild_predeclared (hroot ▸ hp.packages houter)
  | child _ habove => exact hp.not_hasChild_predeclared (hroot ▸ habove)

end Program

namespace PlacementContext

variable {c : PlacementContext} {s : Placements} {top : ScopeId}

/-- The walk enters the package's own scope with the flag, and scopes inside of packages
without. -/
def OnLevel (c : PlacementContext) (top scope : ScopeId) (packageScope : Bool) : Prop :=
  packageScope = true ∧ scope = top ∨ packageScope = false ∧ c.program.IsInner scope

/-- Children of a scope on any level are within the package. -/
theorem OnLevel.child {scope child : ScopeId} {packageScope : Bool} {owner : Package}
    (howner : c.program.package c.pkg = .ok owner) (h : c.OnLevel owner.scope scope packageScope)
    (hchild : c.program.HasChild scope child) : c.OnLevel owner.scope child false := by
  rcases h with ⟨-, rfl⟩ | ⟨-, hinner⟩
  · exact .inr ⟨rfl, c.pkg, owner, _, howner, .refl, hchild⟩
  · exact .inr ⟨rfl, hinner.child hchild⟩

/-- The flag tells the package's own scope from all others. -/
theorem OnLevel.eq_decide {scope : ScopeId} {packageScope : Bool} {owner : Package}
    (hp : c.program.Orderly) (howner : c.program.package c.pkg = .ok owner)
    (h : c.OnLevel owner.scope scope packageScope) :
    packageScope = decide (scope = owner.scope) := by
  rcases h with ⟨rfl, rfl⟩ | ⟨rfl, hinner⟩
  · exact (decide_eq_true rfl).symm
  · exact (decide_eq_false (hinner.ne hp howner)).symm

/-- Unless it is a field or method, whatever has a place is bound in a scope that its flags tell
of. -/
def visibilityGuide (c : PlacementContext) (top : ScopeId) : Guide c where
  enters _ _ := True
  places x place := c.program.IsField x ∨ c.program.IsMethod x ∨
    ∃ scope n o, c.program.Binds scope n x ∧ c.program.object x = .ok o ∧
      place.packageScope = decide (scope = top) ∧
      place.exported = (isExported o.name && decide (scope = top))
  takes
    | .scope scope _ packageScope => c.OnLevel top scope packageScope
    | .method x _ _ => c.program.IsMethod x
    | .field x _ _ => c.program.IsField x
  binds scope _ packageScope := c.OnLevel top scope packageScope

/-- In a layered program the walk keeps to the levels: only the package's own bindings are placed at
the top, and it goes from these to scopes strictly below some package, from which it never comes
back. -/
theorem sound_visibilityGuide {owner : Package} (hl : c.program.Layered)
    (hp : c.program.Orderly) (howner : c.program.package c.pkg = .ok owner) :
    (visibilityGuide c owner.scope).Sound := by
  constructor
  case scope => exact fun h => ⟨trivial, h⟩
  case binding =>
    intro scope base packageScope found n x o hlevel hfound hmem ho
    obtain rfl := hlevel.eq_decide hp howner
    have hbinds : c.program.Binds scope n x := ⟨found, hfound, hmem⟩
    obtain ⟨o', ho', rfl⟩ := hp.named hbinds
    rw [ho] at ho'
    cases ho'
    refine ⟨.inr (.inr ⟨scope, o.name, o, hbinds, ho, rfl, rfl⟩), fun t ht => ?_⟩
    cases ht with
    | method _ _ hmethod => exact hmethod.isMethod
    | typeField _ _ _ hfield => exact hfield.isField
    | varField _ _ hfield => exact hfield.isField
  case method =>
    intro x base packageScope o hmethod ho
    refine ⟨.inr (.inl hmethod), fun t ht => ?_⟩
    unfold bodyOf at ht
    split at ht
    · rename_i own hkind
      obtain rfl := List.mem_singleton.mp ht
      exact .inr ⟨rfl, hl.bodies ⟨o, ho, hkind⟩⟩
    · cases ht
  case field =>
    exact fun hfield _ => ⟨.inl hfield, fun _ _ _ hinner => hinner.isField⟩
  case child =>
    rintro scope base packageScope found before child rest seen path hlevel hfound hchildren - -
    exact hlevel.child howner (.of_children hfound hchildren)

/-- An object that a scope at or below the package's binds stands at the top of the package exactly
when that scope is the package's own, and is exported exactly when moreover its name is. -/
theorem place_of_layered {owner : Package} (hl : c.program.Layered) (hp : c.program.Orderly)
    (howner : c.program.package c.pkg = .ok owner) (h : c.placePackage .empty = .ok s)
    {scope : ScopeId} {x : ObjectId} (hx : c.program.BoundBelow owner.scope scope x) :
    ∃ place o, s.place? x = some place ∧ c.program.object x = .ok o ∧
      place.packageScope = decide (scope = owner.scope) ∧
      place.exported = (isExported o.name && decide (scope = owner.scope)) := by
  obtain ⟨n, hbinds⟩ := hx.binds
  obtain ⟨place, hplace⟩ : ∃ place, s.place? x = some place := by
    obtain ⟨found, hfound, hmem⟩ := hbinds
    have hcovered := covered_of_placePackage h howner hx.below
    exact Option.isSome_iff_exists.mp (hcovered.2 found hfound _ hmem)
  obtain ⟨owner', howner', hrun⟩ := runs_placePackage h
  rw [howner] at howner'
  cases howner'
  have hs := (sound_visibilityGuide hl hp howner).admits hrun (.inl ⟨rfl, rfl⟩)
    (visibilityGuide c owner.scope).admits_empty
  rcases hs.objects x place hplace with hfield | hmethod | ⟨scope', n', o, hbinds', ho, hflags⟩
  · exact absurd hfield hx.notField
  · exact absurd hmethod hx.notMethod
  · obtain rfl := hl.boundOnce hbinds hbinds'
    exact ⟨place, o, hplace, ho, hflags⟩

end PlacementContext

end SymbolGraph
