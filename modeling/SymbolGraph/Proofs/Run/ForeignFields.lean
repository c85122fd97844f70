import SymbolGraph.Proofs.Keys.Agreement
import SymbolGraph.Proofs.Run.References

/-!
# Fields of other packages

A field of another package is keyed by its name, behind the name of the type that it was last
selected from (`Program.FieldKey`). No other key depends on what has been selected
(`objectKey?_eq_of_not_foreign`), but this one is made when the field is looked up for the first
time, and then stays. When all nodes are visited, the name in front is that of the type of a
selector that has been read, or else there is none and the field has been named elsewhere than in
selectors (`Program.OwnerName`, `Completes.selecting`).

The invariant is `GraphContext.Selecting`: what is selected was selected by nodes that have been
read, each of these has left a selection, and the keys of fields bear such names.
-/

namespace SymbolGraph

open Emit KeyStore

/-! ## Keys -/

namespace Program

/-- An object is a field of a struct in another package than the one that is graphed. -/
def IsForeignField (p : Program) (k : CheckedPackage) (obj : ObjectId) : Prop :=
  ∃ o embedded pkg, p.object obj = .ok o ∧ o.kind = .field embedded ∧ o.pkg = some pkg ∧
    pkg ≠ k.pkg

/-- The key of a field of another package behind the name of a type, if there is one. -/
def FieldKey (p : Program) (k : CheckedPackage) (obj : ObjectId) (owner? : Option String)
    (key : DefKey) : Prop :=
  ∃ o embedded pkg owner, p.object obj = .ok o ∧ o.kind = .field embedded ∧ o.pkg = some pkg ∧
    pkg ≠ k.pkg ∧ p.package pkg = .ok owner ∧
    key = GraphContext.pathKey p owner o (owner?.toList ++ [o.name])

/-- Only fields of other packages have such keys. -/
theorem FieldKey.isForeignField {p : Program} {k : CheckedPackage} {obj : ObjectId}
    {owner? : Option String} {key : DefKey} (h : p.FieldKey k obj owner? key) :
    p.IsForeignField k obj := by
  obtain ⟨o, embedded, pkg, _, ho, hkind, hpkg, hother, -⟩ := h
  exact ⟨o, embedded, pkg, ho, hkind, hpkg, hother⟩

/-- The name of the owner determines the key. -/
theorem FieldKey.unique {p : Program} {k : CheckedPackage} {obj : ObjectId}
    {owner? : Option String} {key key' : DefKey} (h : p.FieldKey k obj owner? key)
    (h' : p.FieldKey k obj owner? key') : key = key' := by
  obtain ⟨o, _, pkg, owner, ho, -, hpkg, -, howner, rfl⟩ := h
  obtain ⟨o', _, pkg', owner', ho', -, hpkg', -, howner', rfl⟩ := h'
  rw [ho] at ho'
  cases ho'
  rw [hpkg] at hpkg'
  cases hpkg'
  rw [howner] at howner'
  cases howner'
  rfl

end Program

namespace GraphContext

variable {c : GraphContext} {selected : Selected} {obj : ObjectId}

/-- Only the key of a field of another package depends on what has been selected. -/
theorem objectKey?_eq_of_not_foreign (h : ¬ c.program.IsForeignField c.package obj)
    (selected selected' : Selected) : c.objectKey? selected obj = c.objectKey? selected' obj := by
  unfold objectKey?
  cases ho : c.program.object obj with
  | error f => rfl
  | ok o =>
    have hplain : c.plainKey? selected obj o = c.plainKey? selected' obj o := by
      unfold plainKey?
      cases hpkg : o.pkg with
      | none => rfl
      | some pkg =>
        have hpath : c.objectPath? selected obj o = c.objectPath? selected' obj o := by
          unfold objectPath?
          by_cases hown : o.pkg = some c.package.pkg
          · rw [if_pos hown, if_pos hown]
          · rw [if_neg hown, if_neg hown]
            unfold foreignPath ownerType?
            cases hkind : o.kind with
            | field embedded =>
              have hother : pkg ≠ c.package.pkg := fun heq => hown (hpkg.trans (congrArg some heq))
              exact absurd ⟨o, embedded, pkg, ho, hkind, hpkg, hother⟩ h
            | _ => rfl
        dsimp only
        unfold ownedKey?
        rw [hpath]
    dsimp only [bind, Except.bind]
    rw [hplain]

/-- A field of another package always has a key. -/
theorem objectKey?_ne_none_of_foreign (h : c.program.IsForeignField c.package obj) :
    c.objectKey? selected obj ≠ .ok none := by
  intro hnone
  obtain ⟨o, _, pkg, ho, -, hpkg, hother⟩ := h
  obtain ⟨o', ho', -, hown, -⟩ := objectKey?_eq_none_iff.mp hnone
  rw [ho] at ho'
  cases ho'
  rw [hpkg] at hown
  exact hother (Option.some.inj hown)

/-- The key that a field of another package has bears the name of the type that it was last
selected from. -/
theorem fieldKey_of_objectKey? {k : KeyedObject} (h : c.objectKey? selected obj = .ok (some k))
    (hforeign : c.program.IsForeignField c.package obj) :
    ∃ owner?, c.program.FieldKey c.package obj owner? k.key ∧
      match selected.get? obj with
      | some type => typeName? c.program type = .ok owner?
      | none => owner? = none := by
  obtain ⟨o, embedded, pkg, ho, hkind, hpkg, hother⟩ := hforeign
  unfold objectKey? at h
  obtain ⟨o', ho', h⟩ := bind_eq_ok_iff.mp h
  rw [ho] at ho'
  cases ho'
  rw [hkind] at h
  unfold plainKey? at h
  rw [hpkg] at h
  unfold ownedKey? objectPath? at h
  rw [if_neg fun hown => hother (Option.some.inj (hpkg.symm.trans hown))] at h
  obtain ⟨path?, hpath, h⟩ := bind_eq_ok_iff.mp h
  cases hforeign : c.foreignPath selected obj o with
  | error f => rw [hforeign] at hpath; cases hpath
  | ok path =>
    rw [hforeign] at hpath
    cases hpath
    obtain ⟨owner, howner, h⟩ := bind_eq_ok_iff.mp h
    cases h
    unfold foreignPath ownerType? at hforeign
    rw [hkind] at hforeign
    cases hselected : selected.get? obj with
    | none =>
      rw [hselected] at hforeign
      cases hforeign
      exact ⟨none, ⟨o, embedded, pkg, owner, ho, hkind, hpkg, hother, howner, rfl⟩, rfl⟩
    | some type =>
      rw [hselected] at hforeign
      obtain ⟨_, htype, hforeign⟩ := bind_eq_ok_iff.mp hforeign
      cases htype
      obtain ⟨owner?, hname, hpath⟩ := bind_eq_ok_iff.mp hforeign
      cases hpath
      exact ⟨owner?, ⟨o, embedded, pkg, owner, ho, hkind, hpkg, hother, howner, rfl⟩, hname⟩

end GraphContext

/-! ## Owners of fields -/

namespace Program

/-- A node is a selector that selects an object. -/
def SelectedBy (p : Program) (k : CheckedPackage) (node : NodeId) (obj : ObjectId) : Prop :=
  ∃ operand member selection, p.tree.kind node = .ok (.selectorExpr operand member) ∧
    k.facts.selections.get? node = some selection ∧ selection.obj = obj

/-- A selector among the nodes selects an object, and a type declares it. -/
def SelectedFrom (p : Program) (k : CheckedPackage) (nodes : List NodeId) (obj : ObjectId)
    (type : TypeId) : Prop :=
  ∃ node ∈ nodes, ∃ operand member selection,
    p.tree.kind node = .ok (.selectorExpr operand member) ∧
    k.facts.selections.get? node = some selection ∧ selection.obj = obj ∧
    p.declaringType selection = .ok type

/-- An object is named elsewhere than in selectors that select it: it is recorded to be declared or
imported, or an identifier names it that is a file or is read directly below another node. -/
inductive NamedBare (p : Program) (k : CheckedPackage) (nodes : List NodeId) (obj : ObjectId) : Prop
  | declared {name : NodeId} : k.facts.defs.get? name = some obj → NamedBare p k nodes obj
  | imported {node : NodeId} : k.facts.implicits.get? node = some obj → NamedBare p k nodes obj
  | file {name : NodeId} : name ∈ k.files → k.facts.objectOf? name = some obj →
      NamedBare p k nodes obj
  | below {above name : NodeId} {n : Node} : above ∈ nodes → p.tree.node above = .ok n →
      name ∈ n.kind.readBelow → k.facts.objectOf? name = some obj → ¬ p.SelectedBy k above obj →
      NamedBare p k nodes obj

/-- What the key of a field of another package may have in front of the field's name: the name of
the type that declares it, for a selector among the nodes, and nothing if it is named
elsewhere. -/
def OwnerName (p : Program) (k : CheckedPackage) (nodes : List NodeId) (obj : ObjectId)
    (owner? : Option String) : Prop :=
  (∃ type, p.SelectedFrom k nodes obj type ∧ GraphContext.typeName? p type = .ok owner?) ∨
    owner? = none ∧ p.NamedBare k nodes obj

end Program

/-! ## What steps look up -/

section Looks

variable {α : Type} {c : GraphContext} {may : ObjectId → Prop} {s t : Emission}

/-- A step selects nothing and makes the keys known of some objects only. -/
structure GraphContext.Looks (c : GraphContext) (may : ObjectId → Prop) (m : Emit α) : Prop where
  selected : ∀ {s t a}, m s = .ok a t → t.selected = s.selected
  keys : ∀ {s t a}, m s = .ok a t → ∀ obj k, t.keys.find? c.package.pkg obj = some k →
    s.keys.find? c.package.pkg obj = some k ∨
      may obj ∧ c.objectKey? s.selected obj = .ok (some k)

namespace GraphContext

/-- A step that leaves the keys and what is selected as they are looks up no object. -/
theorem Looks.of_eq {m : Emit α} (h : ∀ {s t a}, m s = .ok a t →
    t.selected = s.selected ∧ t.keys = s.keys) : c.Looks may m where
  selected hm := (h hm).1
  keys hm _ _ hk := .inl ((h hm).2 ▸ hk)

/-- Questions look up no object, and steps in a row look up only what each of them may. -/
theorem composes_looks : Composes (fun m => c.Looks may m) where
  pure a := .of_eq fun hm => by
    obtain ⟨-, rfl⟩ := pure_eq_ok_iff.mp hm
    exact ⟨rfl, rfl⟩
  ask answer := .of_eq fun hm => by
    obtain ⟨-, rfl⟩ := ask_eq_ok_iff.mp hm
    exact ⟨rfl, rfl⟩
  bind hm hnext := by
    refine ⟨fun h => ?_, fun h obj k hk => ?_⟩
    · obtain ⟨a, t, hfirst, hlast⟩ := Emit.bind_eq_ok_iff.mp h
      exact ((hnext a).selected hlast).trans (hm.selected hfirst)
    · obtain ⟨a, t, hfirst, hlast⟩ := Emit.bind_eq_ok_iff.mp h
      rcases (hnext a).keys hlast obj k hk with hknown | hfound
      · exact hm.keys hfirst obj k hknown
      · rw [hm.selected hfirst] at hfound
        exact .inr hfound

/-- To see what has been found is to look up no object. -/
theorem looks_get : c.Looks may (get : Emit Emission) := .of_eq fun hm => by
  cases hm
  exact ⟨rfl, rfl⟩

/-- A change that selects nothing looks up no object. -/
theorem looks_change {change : Change} (h : ∀ s, (change.apply s).selected = s.selected) :
    c.Looks may (modify change.apply) := .of_eq fun hm => by
  cases hm
  exact ⟨h _, change.apply_keys _⟩

/-- Looking up a key makes that of its object known and no other. -/
theorem looks_keyOf {obj : ObjectId} (h : may obj) : c.Looks may (c.keyOf obj) where
  selected hm := by
    cases keyOf_cases hm with
    | known => rfl
    | found => rfl
    | none => rfl
  keys hm obj' k' hk' := by
    cases keyOf_cases hm with
    | known => exact .inl hk'
    | none => exact .inl hk'
    | @found k hs hk =>
      by_cases heq : obj = obj'
      · subst heq
        rw [Emission.withKeys_keys, find?_install_self k hs] at hk'
        cases hk'
        exact .inr ⟨h, hk⟩
      · rw [Emission.withKeys_keys, find?_install_of_ne k (by simpa using heq)] at hk'
        exact .inl hk'

/-- A definition looks up the object that it defines. -/
theorem looks_emitDef {structName : Option String} {decl name : NodeId} {obj : ObjectId}
    {o : Object} {kind : DefKind} (h : may obj) :
    c.Looks may (c.emitDef structName decl name obj o kind) := by
  unfold emitDef
  refine composes_looks.bind (looks_keyOf h) fun k? => ?_
  cases k? with
  | none => exact composes_looks.pure ()
  | some k =>
    refine composes_looks.bind looks_get fun s => ?_
    split
    · split
      · exact composes_looks.pure ()
      · exact @looks_change c may (.error _) fun _ => rfl
    · exact @looks_change c may (.error _) fun _ => rfl
    · exact composes_looks.bind (@looks_change c may (.claim _ _) fun _ => rfl) fun _ =>
        composes_looks.bind (composes_looks.ask _) fun _ =>
          @looks_change c may (.definition _) fun _ => rfl

/-- A declaration looks up the object that the name declares. -/
theorem looks_declare_of_declared? {structName : Option String} {decl name : NodeId}
    (h : ∀ obj, c.declared? name = .ok (some obj) → may obj) :
    c.Looks may (c.declare structName decl name) := by
  unfold declare
  cases hdeclared : c.declared? name with
  | error f => exact .of_eq fun hm => by cases hm
  | ok obj? =>
    cases obj? with
    | none => exact composes_looks.pure ()
    | some obj =>
      show c.Looks may (ask (c.program.object obj) >>= _)
      refine composes_looks.bind (composes_looks.ask _) fun o =>
        composes_looks.bind (composes_looks.ask _) fun kind? => ?_
      split
      · exact @looks_change c may (.error _) fun _ => rfl
      · exact composes_looks.pure ()
      · exact looks_emitDef (h obj hdeclared)

/-- A declaration looks up an object that is recorded to be declared. -/
theorem looks_declare {structName : Option String} {decl name : NodeId}
    (h : ∀ obj, c.package.facts.defs.get? name = some obj → may obj) :
    c.Looks may (c.declare structName decl name) := by
  refine looks_declare_of_declared? fun obj hdeclared => h obj ?_
  unfold declared? at hdeclared
  obtain ⟨name?, -, hdeclared⟩ := bind_eq_ok_iff.mp hdeclared
  split at hdeclared
  · cases hdeclared
  · exact Except.ok.inj hdeclared
  · cases hdeclared

/-- A reference looks up the object that it refers to. -/
theorem looks_emitRef {node : NodeId} {obj : ObjectId} {isDef : Bool} (h : may obj) :
    c.Looks may (c.emitRef node obj isDef) := by
  unfold emitRef
  refine composes_looks.bind (looks_keyOf h) fun k? => ?_
  cases k? with
  | none => exact composes_looks.pure ()
  | some k =>
    exact composes_looks.bind (composes_looks.ask _) fun _ =>
      @looks_change c may (.reference _) fun _ => rfl

/-- The package's own definition looks up no object. -/
theorem looks_emitPackage : c.Looks may c.emitPackage := by
  unfold emitPackage
  refine composes_looks.bind (composes_looks.ask _) fun package =>
    composes_looks.bind (@looks_change c may (.claim _ _) fun _ => rfl) fun _ => ?_
  dsimp only
  split
  · exact composes_looks.bind (composes_looks.pure _) fun _ =>
      @looks_change c may (.definition _) fun _ => rfl
  · rw [map_eq_pure_bind]
    exact composes_looks.bind (composes_looks.bind (composes_looks.ask _) fun _ =>
      composes_looks.pure _) fun _ => @looks_change c may (.definition _) fun _ => rfl

/-- Any node but a selector looks up the object that is imported there, or that it names. -/
theorem looks_visitUses {node : NodeId} {kind : NodeKind}
    (hkind : ∀ operand member, kind ≠ .selectorExpr operand member)
    (himplicit : ∀ obj, (∃ name path doc comment, kind = .importSpec name path doc comment) →
      c.package.facts.implicits.get? node = some obj → may obj)
    (hobject : ∀ obj, (∃ name, kind = .ident name) →
      c.package.facts.objectOf? node = some obj → may obj) :
    c.Looks may (c.visitUses node kind) := by
  unfold visitUses
  split
  · exact composes_looks.bind (composes_looks.ask _) fun _ =>
      composes_looks.bind (composes_looks.ask _) fun _ =>
        @looks_change c may (.reference _) fun _ => rfl
  · split
    · exact composes_looks.pure ()
    · rename_i obj hobj
      exact composes_looks.bind (looks_emitRef (himplicit obj ⟨_, _, _, _, rfl⟩ hobj)) fun _ =>
        composes_looks.bind (composes_looks.ask _) fun n =>
          @looks_change c may (.importSpan n.file n.range.span) fun _ => rfl
  · exact composes_looks.bind (composes_looks.ask _) fun _ => composes_looks.pure ()
  · exact absurd rfl (hkind _ _)
  · exact composes_looks.pure ()
  · split
    · exact composes_looks.pure ()
    · rename_i obj hobj
      refine composes_looks.bind (composes_looks.ask _) fun n =>
        composes_looks.bind looks_get fun s => ?_
      split
      · exact composes_looks.pure ()
      · split
        · exact composes_looks.bind (composes_looks.ask _) fun _ =>
            looks_emitRef (hobject obj ⟨_, rfl⟩ hobj)
        · exact looks_emitRef (hobject obj ⟨_, rfl⟩ hobj)
  · exact composes_looks.pure ()

/-- A selector without a selection does nothing, and one with a selection keeps for its object the
type that declares it. -/
theorem visitUses_selectorExpr_cases {node operand member : NodeId}
    (h : c.visitUses node (.selectorExpr operand member) s = .ok () t) :
    (c.package.facts.selections.get? node = none ∧ t = s) ∨
      ∃ selection type, c.package.facts.selections.get? node = some selection ∧
        c.program.declaringType selection = .ok type ∧
        t = { s with selected := s.selected.insert selection.obj type } := by
  unfold visitUses at h
  dsimp only at h
  cases hselection : c.package.facts.selections.get? node with
  | none =>
    rw [hselection] at h
    obtain ⟨-, rfl⟩ := pure_eq_ok_iff.mp h
    exact .inl ⟨rfl, rfl⟩
  | some selection =>
    rw [hselection] at h
    obtain ⟨type, s₁, hask, h⟩ := Emit.bind_eq_ok_iff.mp h
    obtain ⟨htype, rfl⟩ := ask_eq_ok_iff.mp hask
    cases h
    exact .inr ⟨selection, type, rfl, htype, rfl⟩

end GraphContext

end Looks

/-! ## Selections and keys in a run -/

section Selecting

variable {α : Type} {c : GraphContext} {nodes done : List NodeId} {s t : Emission}

/-- While nodes are read, of which some are done: what is selected was selected by one of the
nodes, what one of those done selects is still selected, and the known key of a field bears one of
the names that it may bear. -/
structure GraphContext.Selecting (c : GraphContext) (nodes done : List NodeId) (s : Emission) :
    Prop where
  types : ∀ obj type, s.selected.get? obj = some type →
    c.program.SelectedFrom c.package nodes obj type
  done : ∀ node ∈ done, ∀ obj, c.program.SelectedBy c.package node obj →
    (s.selected.get? obj).isSome
  keys : ∀ obj, c.program.IsForeignField c.package obj → ∀ k,
    s.keys.find? c.package.pkg obj = some k → ∃ owner?,
      c.program.OwnerName c.package nodes obj owner? ∧
      c.program.FieldKey c.package obj owner? k.key

namespace GraphContext.Selecting

/-- What is looked up must have been selected, unless it is named elsewhere. -/
theorem looks (hs : c.Selecting nodes done s) {may : ObjectId → Prop} {m : Emit α} {a : α}
    (hm : c.Looks may m) (h : m s = .ok a t)
    (hmay : ∀ obj, may obj →
      c.program.NamedBare c.package nodes obj ∨ (s.selected.get? obj).isSome) :
    c.Selecting nodes done t where
  types := by
    rw [hm.selected h]
    exact hs.types
  done := by
    rw [hm.selected h]
    exact hs.done
  keys obj hforeign k hk := by
    rcases hm.keys h obj k hk with hknown | ⟨hlooked, hfound⟩
    · exact hs.keys obj hforeign k hknown
    · obtain ⟨owner?, hkey, howner⟩ := fieldKey_of_objectKey? hfound hforeign
      refine ⟨owner?, ?_, hkey⟩
      cases hselected : s.selected.get? obj with
      | some type =>
        rw [hselected] at howner
        exact .inl ⟨type, hs.types obj type hselected, howner⟩
      | none =>
        rw [hselected] at howner
        refine .inr ⟨howner, (hmay obj hlooked).resolve_right fun hsome => ?_⟩
        rw [hselected] at hsome
        cases hsome

/-- A selector keeps for its object the type that declares it. -/
theorem select (hs : c.Selecting nodes done s) {node operand member : NodeId}
    (h : c.visitUses node (.selectorExpr operand member) s = .ok () t)
    (hkind : c.program.tree.kind node = .ok (.selectorExpr operand member))
    (hnode : node ∈ nodes) : c.Selecting nodes (done ++ [node]) t := by
  rcases visitUses_selectorExpr_cases h with ⟨hselection, rfl⟩ |
    ⟨selection, type, hselection, htype, rfl⟩
  · refine ⟨hs.types, fun other hother obj hselected => ?_, hs.keys⟩
    rcases List.mem_append.mp hother with hother | hother
    · exact hs.done other hother obj hselected
    · obtain rfl := List.mem_singleton.mp hother
      obtain ⟨_, _, selection, -, hsome, -⟩ := hselected
      rw [hselection] at hsome
      cases hsome
  · refine ⟨fun obj other hobj => ?_, fun other hother obj hselected => ?_, hs.keys⟩
    · rw [Table.get?_insert] at hobj
      split at hobj
      · rename_i hsame
        cases hobj
        exact ⟨node, hnode, operand, member, selection, hkind, hselection, hsame, htype⟩
      · exact hs.types obj other hobj
    · rw [Table.get?_insert]
      split
      · rfl
      · rename_i hdifferent
        rcases List.mem_append.mp hother with hother | hother
        · exact hs.done other hother obj hselected
        · obtain rfl := List.mem_singleton.mp hother
          obtain ⟨_, _, selection', -, hsome, hobj⟩ := hselected
          rw [hselection] at hsome
          cases hsome
          exact absurd hobj hdifferent

/-- A visit keeps the invariant if its node is a file or directly below a node that is done. -/
theorem visit (hs : c.Selecting nodes done s) {v : Visit} (h : c.visit v s = .ok () t)
    (hnode : v.node ∈ nodes) (hdone : ∀ node ∈ done, node ∈ nodes)
    (habove : v.node ∈ c.package.files ∨
      ∃ above ∈ done, ∃ n, c.program.tree.node above = .ok n ∧ v.node ∈ n.kind.readBelow) :
    c.Selecting nodes (done ++ [v.node]) t := by
  obtain ⟨n, names, mid, hn, -, hdeclare, huses⟩ := visit_cases h
  have hkind := SyntaxTree.kind_of_node hn
  have hlooks : c.Looks (c.program.NamedBare c.package nodes)
      (each (c.declare v.structName v.node) names) :=
    composes_looks.each (fun _ => looks_declare fun _ hobj => .declared hobj) names
  have hmid := hs.looks hlooks hdeclare fun _ => .inl
  by_cases hselector : ∃ operand member, n.kind = .selectorExpr operand member
  · obtain ⟨operand, member, hshape⟩ := hselector
    rw [hshape] at huses hkind
    exact hmid.select huses hkind hnode
  · -- what is named here was selected by the node above, or else is named elsewhere
    have hnamed : ∀ obj, c.package.facts.objectOf? v.node = some obj →
        c.program.NamedBare c.package nodes obj ∨ (mid.selected.get? obj).isSome := by
      intro obj hobj
      rcases habove with hfile | ⟨above, hmem, n', hn', hbelow⟩
      · exact .inl (.file hfile hobj)
      · by_cases hselected : c.program.SelectedBy c.package above obj
        · exact .inr (hmid.done above hmem obj hselected)
        · exact .inl (.below (hdone above hmem) hn' hbelow hobj hselected)
    have ht := hmid.looks (looks_visitUses
      (fun operand member hshape => hselector ⟨operand, member, hshape⟩)
      (fun obj _ hobj => .inl (.imported hobj)) fun obj _ => hnamed obj) huses fun _ => id
    refine ⟨ht.types, fun other hother obj hselected => ?_, ht.keys⟩
    rcases List.mem_append.mp hother with hother | hother
    · exact ht.done other hother obj hselected
    · obtain rfl := List.mem_singleton.mp hother
      obtain ⟨operand, member, _, hselects, -, -⟩ := hselected
      rw [hkind] at hselects
      exact absurd ⟨operand, member, Except.ok.inj hselects⟩ hselector

/-- Visits in reading order keep the invariant. -/
theorem visitAll {visits : List Visit} (hs : c.Selecting nodes done s)
    (h : c.visitAll visits s = .ok () t) (herror : t.error = none)
    (hreads : c.program.tree.Reads c.package.files nodes)
    (hnodes : nodes = done ++ visits.map Visit.node) : c.Selecting nodes nodes t := by
  induction visits generalizing done s with
  | nil =>
    obtain ⟨-, rfl⟩ := pure_eq_ok_iff.mp h
    rw [List.map_nil, List.append_nil] at hnodes
    rw [← hnodes] at hs
    exact hs
  | cons v rest ih =>
    obtain ⟨mid, hvisit, hrest⟩ := visitAll_cons_cases h herror
    rw [List.map_cons] at hnodes
    have hmid := hs.visit hvisit (by rw [hnodes]; exact List.mem_append_right _ List.mem_cons_self)
      (fun node hnode => by rw [hnodes]; exact List.mem_append_left _ hnode)
      (hreads.mem_or_exists_above hnodes)
    exact ih hmid hrest (by rw [hnodes, List.append_assoc]; rfl)

end GraphContext.Selecting

/-- When all nodes are visited in a run without earlier keys, those of the fields of other packages
bear names that they may bear. -/
theorem Completes.selecting {includeDocs : Bool} {packaged visited last : Emission}
    (h : Completes c includeDocs .empty packaged visited last)
    (hreads : c.program.tree.Reads c.package.files nodes) :
    c.Selecting nodes nodes visited := by
  obtain rfl := hreads.unique (reads_graphWalk h.uncut)
  have hstart : c.Selecting ((graphWalk c.program.tree c.package.files).visited.map Visit.node) []
      (.start .empty) := {
    types := fun obj type hobj => by cases hobj
    done := fun node hnode => absurd hnode List.not_mem_nil
    keys := fun obj _ k hk => by cases hk }
  have hlooks : c.Looks (fun _ => False) c.emitPackage := GraphContext.looks_emitPackage
  have hpackaged := hstart.looks hlooks h.stages.emitPackage fun _ => False.elim
  exact hpackaged.visitAll h.stages.visitAll h.faultless hreads rfl

end Selecting

end SymbolGraph
