import SymbolGraph.Proofs.Placement.Walk

/-!
# What places a walk may give

Which paths the scopes get and which places the objects get is said by a `Guide`: some relations
that do not mention the state of a walk. If a guide is `Sound`, that is, if what it allows leads
only to what it allows, then a walk that starts with what the guide allows gives no other paths
and places (`Guide.Sound.admits`). Whether two objects can have one path, for example, is then a
question about the relations of a guide.
-/

namespace SymbolGraph

open Text Placements PlacementContext

/-- Paths and places that a walk may give, and items that it may take up. -/
structure Guide (c : PlacementContext) where
  enters : ScopeId → DefPath → Prop
  places : ObjectId → Placement → Prop
  takes : Pending → Prop
  /-- The bindings of a scope may be placed below a path. -/
  binds : ScopeId → DefPath → Bool → Prop

namespace Guide

variable {c : PlacementContext} {s s' : Placements}

/-- All paths and places that have been given are allowed. -/
structure Admits (g : Guide c) (s : Placements) : Prop where
  scopes : ∀ scope path, s.scopes.get? scope = some path → g.enters scope path
  objects : ∀ obj p, s.place? obj = some p → g.places obj p

/-- A path that a child scope may have before it is told apart from its siblings. -/
def Raw (g : Guide c) (base : DefPath) (child : ScopeId) (path : DefPath) : Prop :=
  ∃ s s', g.Admits s ∧ c.scopePath s base child = .ok (path, s')

/-- All paths that have been seen are those of siblings. -/
def Seen (g : Guide c) (base : DefPath) (before : List ScopeId) (seen : List String) : Prop :=
  ∀ joined ∈ seen, ∃ sibling ∈ before, ∃ path, g.Raw base sibling path ∧ path ≠ [] ∧
    joined = joinStrings "/" path

/-- What is allowed leads only to what is allowed. -/
structure Sound (g : Guide c) : Prop where
  scope : ∀ {scope base packageScope}, g.takes (.scope scope base packageScope) →
    g.enters scope base ∧ g.binds scope base packageScope
  binding : ∀ {scope base packageScope found name obj o}, g.binds scope base packageScope →
    c.program.scope scope = .ok found → (name, obj) ∈ found.bindings →
    c.program.object obj = .ok o →
    g.places obj ⟨base ++ [name], isExported name && packageScope, packageScope⟩ ∧
      ∀ t, IsBelow c.program o (base ++ [name]) packageScope t → g.takes t
  method : ∀ {obj base packageScope o}, g.takes (.method obj base packageScope) →
    c.program.object obj = .ok o →
    g.places obj ⟨base ++ [o.name], isExported o.name, packageScope⟩ ∧
      ∀ t ∈ bodyOf o (base ++ [o.name]), g.takes t
  field : ∀ {obj base packageScope o}, g.takes (.field obj base packageScope) →
    c.program.object obj = .ok o →
    g.places obj ⟨base ++ [o.name], isExported o.name, packageScope⟩ ∧
      ∀ type inner, o.type = some type → c.program.HasField type inner →
        g.takes (.field inner (base ++ [o.name]) packageScope)
  child : ∀ {scope base packageScope found before child rest seen path},
    g.takes (.scope scope base packageScope) → c.program.scope scope = .ok found →
    found.children = before ++ child :: rest → g.Raw base child path → g.Seen base before seen →
    g.takes (.scope child (toldApart seen before.length path) false)

/-- A guide allows a walk to be set on a task. -/
def Allows (g : Guide c) : Task → Prop
  | .item t => g.takes t
  | .items ts => ∀ t ∈ ts, g.takes t
  | .within scope base packageScope => g.takes (.scope scope base packageScope)
  | .bindings scope base packageScope list => g.binds scope base packageScope ∧
      ∃ found, c.program.scope scope = .ok found ∧ ∀ b ∈ list, b ∈ found.bindings
  | .children scope base before seen rest => (∃ packageScope,
      g.takes (.scope scope base packageScope)) ∧ g.Seen base before seen ∧
      ∃ found, c.program.scope scope = .ok found ∧ found.children = before ++ rest

variable {g : Guide c}

/-- Where nothing has been placed, all that has been placed is allowed. -/
theorem admits_empty (g : Guide c) : g.Admits .empty where
  scopes _ _ h := by cases h
  objects _ _ h := by cases h

/-- A scope may be given a path that is allowed. -/
theorem Admits.setScope {scope : ScopeId} {path : DefPath} (hs : g.Admits s)
    (h : g.enters scope path) : g.Admits (s.setScope scope path) where
  scopes scope' path' h' := by
    rw [get?_setScope] at h'
    split at h'
    · rename_i heq
      cases h'
      exact heq ▸ h
    · exact hs.scopes scope' path' h'
  objects := hs.objects

/-- An object may be given a place that is allowed. -/
theorem Admits.record {obj : ObjectId} {p : Placement} (hs : g.Admits s) (h : g.places obj p) :
    g.Admits (s.record obj p) where
  scopes := hs.scopes
  objects obj' p' h' := by
    rw [place?_record] at h'
    split at h'
    · rename_i heq
      cases h'
      exact heq ▸ h
    · exact hs.objects obj' p' h'

/-- The path that a child scope is found to have need not be allowed, since the one that it is
given takes its place. -/
theorem Admits.setScope_of_scopePath {base path given : DefPath} {child : ScopeId}
    (hs : g.Admits s) (hpath : c.scopePath s base child = .ok (path, s'))
    (h : g.enters child given) : g.Admits (s'.setScope child given) where
  scopes scope path' h' := by
    rw [get?_setScope] at h'
    split at h'
    · rename_i heq
      cases h'
      exact heq ▸ h
    · rename_i hne
      rw [get?_of_scopePath hpath hne] at h'
      exact hs.scopes scope path' h'
  objects obj p h' := by
    rw [place?_setScope, place?_of_scopePath hpath] at h'
    exact hs.objects obj p h'

/-- Before the first child no path has been seen. -/
theorem seen_nil (g : Guide c) (base : DefPath) : g.Seen base [] [] :=
  fun _ h => absurd h List.not_mem_nil

/-- The path of one more child may be seen. -/
theorem Seen.noted {base path : DefPath} {before : List ScopeId} {seen : List String}
    {child : ScopeId} (h : g.Seen base before seen) (hraw : g.Raw base child path) :
    g.Seen base (before ++ [child]) (noted seen path) := by
  intro joined hjoined
  unfold PlacementContext.noted at hjoined
  have hold : joined ∈ seen → ∃ sibling ∈ before ++ [child], ∃ path, g.Raw base sibling path ∧
      path ≠ [] ∧ joined = joinStrings "/" path := by
    intro hmem
    obtain ⟨sibling, hsibling, hrest⟩ := h joined hmem
    exact ⟨sibling, List.mem_append_left _ hsibling, hrest⟩
  split at hjoined
  · exact hold hjoined
  · rename_i hne
    rcases List.mem_cons.mp hjoined with rfl | hmem
    · refine ⟨child, List.mem_append_right _ List.mem_cons_self, path, hraw, ?_, rfl⟩
      rintro rfl
      exact hne rfl
    · exact hold hmem

/-- A walk that starts with what a sound guide allows gives nothing that it does not allow. -/
theorem Sound.admits (hg : g.Sound) {task : Task} (h : c.Runs s task s') (htask : g.Allows task)
    (hs : g.Admits s) : g.Admits s' := by
  induction h with
  | scope _ ih => exact ih htask (hs.setScope (hg.scope htask).1)
  | within hfound _ _ ih₁ ih₂ =>
    have hmid := ih₁ ⟨(hg.scope htask).2, _, hfound, fun _ hb => hb⟩ hs
    exact ih₂ ⟨⟨_, htask⟩, g.seen_nil _, _, hfound, rfl⟩ hmid
  | methodKnown _ => exact hs
  | method _ ho _ ih =>
    obtain ⟨hplace, hbody⟩ := hg.method htask ho
    exact ih hbody (hs.record hplace)
  | fieldKnown _ => exact hs
  | field _ ho hts _ ih =>
    obtain ⟨hplace, hfields⟩ := hg.field htask ho
    refine ih (fun t ht => ?_) (hs.record hplace)
    obtain ⟨type, inner, htype, hfield, rfl⟩ := mem_fieldsBelow hts ht
    exact hfields type inner htype hfield
  | nil => exact hs
  | cons _ _ ih₁ ih₂ =>
    have hmid := ih₁ (htask _ List.mem_cons_self) hs
    exact ih₂ (fun t ht => htask t (List.mem_cons_of_mem _ ht)) hmid
  | unbound => exact hs
  | known _ _ ih =>
    obtain ⟨hbinds, found, hfound, hmem⟩ := htask
    exact ih ⟨hbinds, found, hfound, fun b hb => hmem b (List.mem_cons_of_mem _ hb)⟩ hs
  | binding _ ho hts _ _ ih₁ ih₂ =>
    obtain ⟨hbinds, found, hfound, hmem⟩ := htask
    obtain ⟨hplace, hbelow⟩ := hg.binding hbinds hfound (hmem _ List.mem_cons_self) ho
    have hmid := ih₁ (fun t ht => hbelow t (mem_below hts ht)) (hs.record hplace)
    exact ih₂ ⟨hbinds, found, hfound, fun b hb => hmem b (List.mem_cons_of_mem _ hb)⟩ hmid
  | childless => exact hs
  | child hpath _ _ ih₁ ih₂ =>
    obtain ⟨⟨packageScope, hscope⟩, hseen, found, hfound, hchildren⟩ := htask
    have hraw : g.Raw _ _ _ := ⟨_, _, hs, hpath⟩
    have hchild := hg.child hscope hfound hchildren hraw hseen
    have hmid := ih₁ hchild (hs.setScope_of_scopePath hpath (hg.scope hchild).1)
    refine ih₂ ⟨⟨packageScope, hscope⟩, hseen.noted hraw, found, hfound, ?_⟩ hmid
    rw [hchildren, List.append_assoc]
    rfl

end Guide

end SymbolGraph
