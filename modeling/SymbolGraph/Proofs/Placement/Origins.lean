import SymbolGraph.Proofs.Placement.Shape

/-!
# Origins of scopes

What the origins of the scopes of a package say: a node is the origin of a scope only if it was
recorded for the scope (`mem_of_node?`), and a scope that a node was recorded for has an origin
(`isSome_node?`); likewise for the names of functions (`declares_of_funcName?`,
`isSome_funcName?`).
-/

namespace SymbolGraph

namespace ScopeOrigins

variable {p : Program} {facts : Facts} {origins : ScopeOrigins} {scope : ScopeId}

/-- The origins are put together from what was recorded, one entry after another. -/
theorem ofFacts_eq_ok (h : ofFacts p facts = .ok origins) :
    facts.defs.entries.foldlM (fun names e => addFuncName p names e.1 e.2) Table.empty =
        .ok origins.funcNames ∧
      origins.nodes = facts.scopes.entries.foldl (fun nodes e => nodes.insert e.2 e.1)
        Table.empty := by
  obtain ⟨names, hnames, h⟩ := bind_eq_ok_iff.mp h
  cases h
  exact ⟨hnames, rfl⟩

/-! ### Nodes -/

/-- What is found after the entries have been put in was one of them or was there before. -/
theorem mem_of_foldl_insert {l : List (NodeId × ScopeId)} {t : Table ScopeId NodeId}
    {node : NodeId}
    (h : (l.foldl (fun nodes e => nodes.insert e.2 e.1) t).get? scope = some node) :
    (node, scope) ∈ l ∨ t.get? scope = some node := by
  induction l generalizing t with
  | nil => exact .inr h
  | cons e rest ih =>
    rcases ih h with hmem | ht
    · exact .inl (List.mem_cons_of_mem _ hmem)
    · rw [Table.get?_insert] at ht
      split at ht
      · rename_i hkey
        cases ht
        exact .inl (hkey ▸ List.mem_cons_self)
      · exact .inr ht

/-- A scope that one of the entries is for has an origin afterwards. -/
theorem isSome_foldl_insert {l : List (NodeId × ScopeId)} {t : Table ScopeId NodeId}
    (h : (t.get? scope).isSome ∨ ∃ node, (node, scope) ∈ l) :
    ((l.foldl (fun nodes e => nodes.insert e.2 e.1) t).get? scope).isSome := by
  induction l generalizing t with
  | nil =>
    rcases h with ht | ⟨node, hmem⟩
    · exact ht
    · cases hmem
  | cons e rest ih =>
    refine ih ?_
    rw [Table.get?_insert]
    split
    · exact .inl rfl
    · rename_i hkey
      rcases h with ht | ⟨node, hmem⟩
      · exact .inl ht
      · rcases List.mem_cons.mp hmem with rfl | hmem
        · exact absurd rfl hkey
        · exact .inr ⟨node, hmem⟩

/-- An origin was recorded for its scope. -/
theorem mem_of_node? (h : ofFacts p facts = .ok origins) {node : NodeId}
    (hnode : origins.node? scope = some node) : (node, scope) ∈ facts.scopes.entries := by
  unfold node? at hnode
  rw [(ofFacts_eq_ok h).2] at hnode
  rcases mem_of_foldl_insert hnode with hmem | hempty
  · exact hmem
  · cases hempty

/-- A scope that a node was recorded for has an origin. -/
theorem isSome_node? (h : ofFacts p facts = .ok origins) {node : NodeId}
    (hmem : (node, scope) ∈ facts.scopes.entries) : (origins.node? scope).isSome := by
  unfold node?
  rw [(ofFacts_eq_ok h).2]
  exact isSome_foldl_insert (.inr ⟨node, hmem⟩)

/-- The only node that was recorded for a scope is its origin. -/
theorem node?_eq_some (h : ofFacts p facts = .ok origins) {node : NodeId}
    (honly : ∀ other, (other, scope) ∈ facts.scopes.entries ↔ other = node) :
    origins.node? scope = some node := by
  obtain ⟨other, hother⟩ := Option.isSome_iff_exists.mp (isSome_node? h ((honly node).mpr rfl))
  rw [hother, (honly other).mp (mem_of_node? h hother)]

/-! ### Names of functions -/

/-- Going on by one identifier leaves the names as they are or adds that of a function. -/
theorem addFuncName_eq_ok {names names' : Table ScopeId String} {ident : NodeId}
    {obj : ObjectId} (h : addFuncName p names ident obj = .ok names') :
    (names' = names ∧ ∀ scope name, p.OwnsScope obj scope →
        p.tree.identName? ident ≠ .ok (some name)) ∨
      ∃ scope name, p.OwnsScope obj scope ∧ p.tree.identName? ident = .ok (some name) ∧
        names' = names.insert scope name := by
  obtain ⟨o, ho, h⟩ := bind_eq_ok_iff.mp h
  split at h
  · rename_i own hkind
    obtain ⟨name?, hname, h⟩ := bind_eq_ok_iff.mp h
    cases name? with
    | some name =>
      cases h
      exact .inr ⟨own, name, ⟨o, ho, hkind⟩, hname, rfl⟩
    | none =>
      cases h
      refine .inl ⟨rfl, fun _ _ _ hsome => ?_⟩
      rw [hname] at hsome
      cases hsome
  · rename_i hkind
    cases h
    refine .inl ⟨rfl, fun scope _ hown => ?_⟩
    obtain ⟨o', ho', hkind'⟩ := hown
    rw [ho] at ho'
    cases ho'
    exact absurd hkind' (hkind scope)

/-- A name that is found after the identifiers have been gone through was there before or is that of
an identifier which declares the function of the scope. -/
theorem declares_of_foldlM {l : List (NodeId × ObjectId)} {t t' : Table ScopeId String}
    {name : String} (h : l.foldlM (fun names e => addFuncName p names e.1 e.2) t = .ok t')
    (hname : t'.get? scope = some name) :
    (∃ ident obj, (ident, obj) ∈ l ∧ p.OwnsScope obj scope ∧
      p.tree.identName? ident = .ok (some name)) ∨ t.get? scope = some name := by
  induction l generalizing t with
  | nil =>
    cases h
    exact .inr hname
  | cons e rest ih =>
    obtain ⟨t₁, hstep, h⟩ := bind_eq_ok_iff.mp h
    rcases ih h with ⟨ident, obj, hmem, hrest⟩ | ht
    · exact .inl ⟨ident, obj, List.mem_cons_of_mem _ hmem, hrest⟩
    · rcases addFuncName_eq_ok hstep with ⟨rfl, -⟩ | ⟨own, name', hown, hname', rfl⟩
      · exact .inr ht
      · rw [Table.get?_insert] at ht
        split at ht
        · rename_i hkey
          cases ht
          subst hkey
          exact .inl ⟨e.1, e.2, List.mem_cons_self, hown, hname'⟩
        · exact .inr ht

/-- A scope whose function one of the identifiers declares has a name afterwards. -/
theorem isSome_foldlM {l : List (NodeId × ObjectId)} {t t' : Table ScopeId String}
    (h : l.foldlM (fun names e => addFuncName p names e.1 e.2) t = .ok t')
    (hdecl : (t.get? scope).isSome ∨ ∃ ident obj name, (ident, obj) ∈ l ∧
      p.OwnsScope obj scope ∧ p.tree.identName? ident = .ok (some name)) :
    (t'.get? scope).isSome := by
  induction l generalizing t with
  | nil =>
    cases h
    rcases hdecl with ht | ⟨ident, obj, name, hmem, -⟩
    · exact ht
    · cases hmem
  | cons e rest ih =>
    obtain ⟨t₁, hstep, h⟩ := bind_eq_ok_iff.mp h
    refine ih h ?_
    rcases addFuncName_eq_ok hstep with ⟨rfl, hnone⟩ | ⟨own, name', hown, hname', rfl⟩
    · rcases hdecl with ht | ⟨ident, obj, name, hmem, howns, hname⟩
      · exact .inl ht
      · rcases List.mem_cons.mp hmem with rfl | hmem
        · exact absurd hname (hnone scope name howns)
        · exact .inr ⟨ident, obj, name, hmem, howns, hname⟩
    · rw [Table.get?_insert]
      split
      · exact .inl rfl
      · rename_i hkey
        rcases hdecl with ht | ⟨ident, obj, name, hmem, howns, hname⟩
        · exact .inl ht
        · rcases List.mem_cons.mp hmem with rfl | hmem
          · obtain ⟨o, ho, hkind⟩ := hown
            obtain ⟨o', ho', hkind'⟩ := howns
            rw [ho] at ho'
            cases ho'
            rw [hkind] at hkind'
            cases hkind'
            exact absurd rfl hkey
          · exact .inr ⟨ident, obj, name, hmem, howns, hname⟩

/-- The name of a function is that of an identifier that declares it. -/
theorem declares_of_funcName? (h : ofFacts p facts = .ok origins) {name : String}
    (hname : origins.funcName? scope = some name) :
    ∃ ident obj, (ident, obj) ∈ facts.defs.entries ∧ p.OwnsScope obj scope ∧
      p.tree.identName? ident = .ok (some name) := by
  rcases declares_of_foldlM (ofFacts_eq_ok h).1 hname with hdecl | hempty
  · exact hdecl
  · cases hempty

/-- A function that an identifier declares has a name. -/
theorem isSome_funcName? (h : ofFacts p facts = .ok origins) {ident : NodeId} {obj : ObjectId}
    {name : String} (hmem : (ident, obj) ∈ facts.defs.entries) (hown : p.OwnsScope obj scope)
    (hname : p.tree.identName? ident = .ok (some name)) : (origins.funcName? scope).isSome :=
  isSome_foldlM (ofFacts_eq_ok h).1 (.inr ⟨ident, obj, name, hmem, hown, hname⟩)

end ScopeOrigins

end SymbolGraph
