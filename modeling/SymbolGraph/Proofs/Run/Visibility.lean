import SymbolGraph.Proofs.Placement.Visibility
import SymbolGraph.Proofs.Run.Consistency
import SymbolGraph.Proofs.Run.Replay

/-!
# How far definitions can be seen

A definition shows the visibility that was known of its object when it was added. Through all steps
of a run (`GraphContext.Shown`) every definition but the package's stays that of the object that
claims its key, with the visibility that is known of this object; and as no declaration was refused
in a run that ends in a graph, a declared object with the key of a definition is the one that claims
it (`shows_of_graph_eq_ok`). What is known of the object was told from its place, unless its key is
a builtin one (`flags_of_objectKey?`).

With the visibility of places this gives the main statement, `visibility_of_layered`.
-/

namespace SymbolGraph

open Emit KeyStore Text PlacementContext

/-! ## Definitions and what is known of their objects -/

/-- A definition has the key and the visibility of a keyed object. -/
structure KeyedObject.Shows (k : KeyedObject) (x : Def) : Prop where
  key : x.key = k.key
  exported : x.exported = k.exported
  packageScope : x.packageScope = k.packageScope

namespace GraphContext

variable {α : Type} {c : GraphContext} {s t : Emission}

/-- Every definition's key is claimed: by the package, or by an object whose known visibility the
definition shows. -/
def Shown (c : GraphContext) (s : Emission) : Prop :=
  ∀ x ∈ s.graph.defs, s.claims.get? x.key.text = some none ∨
    ∃ obj k, s.claims.get? x.key.text = some (some obj) ∧
      s.keys.find? c.package.pkg obj = some k ∧ k.Shows x

/-- Knowing more keys hides no definition. -/
theorem Shown.mono (h : c.Shown s) (hdefs : t.graph.defs = s.graph.defs)
    (hclaims : t.claims = s.claims) (hkeys : PartOf c.package.pkg s.keys t.keys) : c.Shown t := by
  intro x hx
  rw [hclaims]
  rcases h x (hdefs ▸ hx) with hpackage | ⟨obj, k, hclaim, hk, hshows⟩
  · exact .inl hpackage
  · exact .inr ⟨obj, k, hclaim, hkeys obj k hk, hshows⟩

/-- A definition is made with the key and the visibility of its object. -/
theorem shows_of_definition {structName : Option String} {decl name : NodeId} {obj : ObjectId}
    {o : Object} {kind : DefKind} {k : KeyedObject} {x : Def}
    (h : c.definition structName decl name obj o kind k = .ok x) : k.Shows x := by
  unfold definition at h
  obtain ⟨receiver, -, h⟩ := bind_eq_ok_iff.mp h
  obtain ⟨texts, -, h⟩ := bind_eq_ok_iff.mp h
  obtain ⟨n, -, h⟩ := bind_eq_ok_iff.mp h
  obtain ⟨declNode, -, h⟩ := bind_eq_ok_iff.mp h
  cases h
  exact ⟨rfl, rfl, rfl⟩

/-- A definition is only added under a free key, so that no earlier one loses its claim. -/
theorem Shown.adds {structName : Option String} {decl name : NodeId} {obj : ObjectId}
    {o : Object} {kind : DefKind} {k : KeyedObject} (h : c.Shown s)
    (hadds : c.Adds structName decl name obj o kind k s t)
    (hk : s.keys.find? c.package.pkg obj = some k) : c.Shown t := by
  cases hadds with
  | again _ => exact h
  | taken _ _ => exact h.mono rfl rfl (PartOf.refl _ _)
  | @new x hfree hx =>
    intro y hy
    show (s.claims.insert k.key.text (some obj)).get? y.key.text = _ ∨ ∃ obj' k',
      (s.claims.insert k.key.text (some obj)).get? y.key.text = _ ∧
        s.keys.find? c.package.pkg obj' = some k' ∧ k'.Shows y
    have hshows := shows_of_definition hx
    rcases List.mem_append.mp hy with hy | hy
    · have hne : k.key.text ≠ y.key.text := by
        intro heq
        rw [heq] at hfree
        rcases h y hy with hclaim | ⟨_, _, hclaim, -⟩ <;> rw [hfree] at hclaim <;> cases hclaim
      rw [Table.get?_insert, if_neg hne]
      exact h y hy
    · obtain rfl := List.mem_singleton.mp hy
      refine .inr ⟨obj, k, ?_, hk, hshows⟩
      rw [Table.get?_insert, if_pos (by rw [hshows.key])]

/-- A step keeps what is said of definitions. -/
def KeepsShown (c : GraphContext) (m : Emit α) : Prop :=
  ∀ {s t a}, m s = .ok a t → c.Shown s → c.Shown t

namespace KeepsShown

/-- Questions keep what is said of definitions, and so do steps in a row. -/
theorem composes : Composes fun m => KeepsShown c m where
  pure a _ _ _ h hs := by
    obtain ⟨-, rfl⟩ := pure_eq_ok_iff.mp h
    exact hs
  ask answer _ _ _ h hs := by
    obtain ⟨-, rfl⟩ := ask_eq_ok_iff.mp h
    exact hs
  bind hm hnext _ _ _ h hs := by
    obtain ⟨a, s₁, hfirst, h⟩ := Emit.bind_eq_ok_iff.mp h
    exact hnext a h (hm hfirst hs)

/-- A step that adds neither definitions nor claims. -/
theorem of_madeOf {allowed : Change → Prop} {m : Emit α} (hm : MadeOf c allowed m)
    (hallowed : ∀ change, allowed change → ∀ s,
      (change.apply s).graph.defs = s.graph.defs ∧ (change.apply s).claims = s.claims) :
    KeepsShown c m := by
  intro s t a h hs
  have hdefs := hm.keeps (fun s => s.graph.defs) (fun _ _ => rfl)
    (fun change hchange s => (hallowed change hchange s).1) s
  have hclaims := hm.keeps (fun s => s.claims) (fun _ _ => rfl)
    (fun change hchange s => (hallowed change hchange s).2) s
  rw [endState_of_ok h] at hdefs hclaims
  exact hs.mono hdefs hclaims (hm.grows_ok h)

/-- An error keeps what is said of definitions. -/
theorem fail (e : GraphError) : KeepsShown c (fail e) := by
  intro s t _ h hs
  cases h
  exact hs.mono rfl rfl (PartOf.refl _ _)

/-- A new definition shows what is known of its object, and the others are kept. -/
theorem emitDef (structName : Option String) (decl name : NodeId) (obj : ObjectId) (o : Object)
    (kind : DefKind) : KeepsShown c (c.emitDef structName decl name obj o kind) := by
  intro s t _ h hs
  have hlookup : MadeOf c (fun _ => False) (c.keyOf obj) := .keyOf obj
  have hkeyOf : ∀ {k? s₁}, c.keyOf obj s = .ok k? s₁ → c.Shown s₁ := fun hkey =>
    of_madeOf hlookup (fun _ h => h.elim) hkey hs
  rcases emitDef_cases h with hkey | ⟨k, s₁, hkey, hadds⟩
  · exact hkeyOf hkey
  · refine (hkeyOf hkey).adds hadds ?_
    cases keyOf_cases hkey with
    | known hk => exact hk
    | found hnone _ => exact find?_install_self k hnone

/-- Declaring a name keeps what is said of definitions. -/
theorem declare (structName : Option String) (decl name : NodeId) :
    KeepsShown c (c.declare structName decl name) := by
  unfold GraphContext.declare
  refine composes.bind (composes.ask _) fun obj? => ?_
  cases obj? with
  | none => exact composes.pure ()
  | some obj =>
    refine composes.bind (composes.ask _) fun o => composes.bind (composes.ask _) fun kind? => ?_
    split
    · exact fail _
    · exact composes.pure ()
    · exact emitDef structName decl name obj o _

/-- A visit keeps what is said of definitions. -/
theorem visit (v : Visit) : KeepsShown c (c.visit v) := by
  unfold GraphContext.visit
  refine composes.bind (composes.ask _) fun kind => composes.bind (composes.ask _) fun names =>
    composes.bind (composes.each (declare _ _) names) fun _ =>
      of_madeOf (c.madeOf_visitUses v.node kind) fun change hchange s => ?_
  cases change with
  | reference | selection | importSpan => exact ⟨rfl, rfl⟩
  | error | claim | definition | text => cases hchange

/-- Visits in a row keep what is said of definitions. -/
theorem visitAll (visits : List Visit) : KeepsShown c (c.visitAll visits) := by
  induction visits with
  | nil => exact composes.pure ()
  | cons v rest ih =>
    refine composes.bind (visit v) fun _ s t a h hs => ?_
    rw [get_bind_apply] at h
    cases hmid : s.error with
    | some e =>
      rw [hmid] at h
      exact composes.pure () h hs
    | none =>
      rw [hmid] at h
      exact ih h hs

end KeepsShown

/-- At the beginning there is only the definition of the package. -/
theorem shown_of_emitPackage {keys : KeyStore} (h : c.emitPackage (.start keys) = .ok () t) :
    c.Shown t := by
  obtain ⟨x, -, hkey, rfl⟩ := emitPackage_eq_ok h
  intro y hy
  obtain rfl := List.mem_singleton.mp hy
  refine .inl ?_
  show (Table.insert _ _ _).get? y.key.text = _
  rw [Table.get?_insert, if_pos (by rw [hkey])]

end GraphContext

/-- At the end of a run every definition shows what is known of the object that claims its key. -/
theorem Stages.shown {c : GraphContext} {includeDocs : Bool} {keys : KeyStore}
    {packaged visited last : Emission} (h : Stages c includeDocs keys packaged visited last) :
    c.Shown last := by
  have hvisited := GraphContext.KeepsShown.visitAll _ h.visitAll
    (GraphContext.shown_of_emitPackage h.emitPackage)
  refine GraphContext.KeepsShown.of_madeOf (madeOf_lastStage c _) (fun change hchange s => ?_)
    h.document hvisited
  cases change with
  | text => exact ⟨rfl, rfl⟩
  | error | claim | definition | reference | selection | importSpan => cases hchange

/-! ## The object of a definition -/

namespace Program

variable {p : Program} {unit : String} {keyOf : ObjectId → Option DefKey}

/-- No object that is declared where nothing is refused is one that cannot be declared. -/
theorem undeclarable?_eq_none_of_mem {done : List Declaration} {d : Declaration}
    (hnone : p.firstRefusal? unit keyOf [] done = none) (hd : d ∈ done) :
    p.undeclarable? d.obj = none := by
  obtain ⟨before, later, rfl⟩ := List.append_of_mem hd
  obtain ⟨-, haccepted⟩ := refusal?_of_firstRefusal?_append hnone
  unfold refusal? at haccepted
  split at haccepted
  · cases haccepted
  · assumption

end Program

variable {p : Program} {k : CheckedPackage} {options : GraphOptions} {keys keys' : KeyStore}
  {g : PackageGraph}

/-- Definitions with the key of a declared object show the visibility that is known of it. -/
theorem shows_of_graph_eq_ok (h : p.graph k options keys = (.ok (.ok g), keys'))
    {nodes : List NodeId} (hreads : p.tree.Reads k.files nodes) {d : Declaration} {x : Def}
    (hd : d ∈ p.declarations k nodes) (hx : x ∈ g.defs)
    (hkey : keys'.keyOf? k.pkg d.obj = some x.key) :
    p.undeclarable? d.obj = none ∧
      ∃ known, keys'.find? k.pkg d.obj = some known ∧ known.Shows x := by
  obtain ⟨c, owner, packaged, visited, last, hc, hrun, rfl, rfl⟩ := completes_of_graph_eq_ok h
  obtain ⟨hprogram, hpackage, howner, hunit, -, -⟩ := hc
  subst hprogram hpackage
  obtain rfl := (reads_graphWalk hrun.uncut).unique hreads
  have herror : last.error = none := hrun.stages.error.trans hrun.faultless
  have hledger := hrun.stages.ledger
  have hrefused := hledger.error.symm.trans herror
  have hclaim := (hledger.claims herror x.key.text).trans
    (Program.claimant?_eq_of_mem hrefused hd hkey)
  refine ⟨Program.undeclarable?_eq_none_of_mem hrefused hd, ?_⟩
  rcases hrun.stages.shown x hx with hpackage | ⟨obj, known, hobj, hknown, hshows⟩
  · rw [hclaim] at hpackage
    cases hpackage
  · rw [hclaim] at hobj
    cases hobj
    exact ⟨known, hknown, hshows⟩

/-! ## Visibility that is known -/

/-- The visibility that is known of an object with a place is that of its place, unless its key is
a builtin one. -/
theorem GraphContext.flags_of_objectKey? {c : GraphContext} {selected : Selected} {obj : ObjectId}
    {o : Object} {place : Placement} {known : KeyedObject}
    (h : c.objectKey? selected obj = .ok (some known)) (ho : c.program.object obj = .ok o)
    (hdeclarable : o.undeclarable? = none) (hpackage : o.kind.isPackage = false)
    (hplace : c.places.place? obj = some place) (hkey : known.key ≠ .ofBuiltin o.name) :
    known.exported = place.exported ∧ known.packageScope = place.packageScope := by
  have hplain : c.plainKey? selected obj o = .ok (some known) := by
    obtain ⟨o', ho', h⟩ := bind_eq_ok_iff.mp h
    rw [ho] at ho'
    cases ho'
    unfold Object.undeclarable? at hdeclarable
    cases hkind : o.kind with
    | builtin => rw [hkind] at hdeclarable; cases hdeclarable
    | nil => rw [hkind] at hdeclarable; cases hdeclarable
    | package imported => rw [hkind] at hpackage; cases hpackage
    | typeName =>
      rw [hkind] at h
      obtain ⟨basic, -, h⟩ := bind_eq_ok_iff.mp h
      cases basic with
      | true =>
        cases h
        exact absurd rfl hkey
      | false => exact h
    | _ => rw [hkind] at h; exact h
  unfold plainKey? at hplain
  cases hpkg : o.pkg with
  | none =>
    rw [hpkg] at hplain
    cases hplain
    exact absurd rfl hkey
  | some pkg =>
    rw [hpkg] at hplain
    obtain ⟨path?, -, hplain⟩ := bind_eq_ok_iff.mp hplain
    cases path? with
    | none => cases hplain
    | some path =>
      obtain ⟨owner, -, hplain⟩ := bind_eq_ok_iff.mp hplain
      cases hplain
      rw [hplace]
      exact ⟨rfl, rfl⟩

/-- A global definition is local exactly if its definition is neither exported nor at the top of the
package. -/
theorem GlobalDef.StemsFrom.isLocal_eq {r : Resolver} {root : UnixPath} {x : Def} {y : GlobalDef}
    (h : GlobalDef.StemsFrom r root x y) : y.isLocal = (!x.exported && !x.packageScope) := by
  obtain ⟨t, t', h⟩ := h
  unfold Def.toGlobal at h
  split at h
  · cases h
  · obtain ⟨target, u, -, h⟩ := withTarget_eq_ok h
    cases h
    rfl

section Layered

variable {owner : Package} {d : Declaration} {x : Def} {o : Object} {scope : ScopeId}
  {r : Resolver} {root : UnixPath} {y : GlobalDef}

/-- In a run on its own, the global definition of an object that a scope at or below the package's
binds is local exactly when that scope is not the package's own, unless its key is a builtin
one. -/
theorem isLocal_iff_of_layered (hl : p.Layered) (hp : p.Orderly)
    (howner : p.package k.pkg = .ok owner)
    (h : p.graph k options .empty = (.ok (.ok g), keys')) {nodes : List NodeId}
    (hreads : p.tree.Reads k.files nodes) (hd : d ∈ p.declarations k nodes) (hx : x ∈ g.defs)
    (hkey : keys'.keyOf? k.pkg d.obj = some x.key) (hbound : p.BoundBelow owner.scope scope d.obj)
    (ho : p.object d.obj = .ok o) (hbuiltin : x.key ≠ .ofBuiltin o.name)
    (hy : GlobalDef.StemsFrom r root x y) : y.isLocal = true ↔ scope ≠ owner.scope := by
  obtain ⟨hdeclarable, known, hknown, hshows⟩ := shows_of_graph_eq_ok h hreads hd hx hkey
  obtain ⟨c, owner', packaged, visited, last, hc, hrun, -, rfl⟩ := completes_of_graph_eq_ok h
  obtain ⟨hprogram, hpackage, howner', -, hplacement, hplaces⟩ := hc
  subst hprogram hpackage
  obtain ⟨hsame, -, hpkg, -⟩ := ofPackage_eq_ok hplacement
  -- what is known was found by looking at the object
  obtain ⟨selected, hfound⟩ := (hrun.stages.found.1 _ _ hknown).resolve_left nofun
  obtain ⟨place, o', hplace, ho', hpackageScope, hexported⟩ :=
    place_of_layered (c := c.placement) (hsame ▸ hl) (hsame ▸ hp) (by rw [hsame, hpkg, howner])
      hplaces (hsame ▸ hbound)
  rw [hsame, ho] at ho'
  cases ho'
  have hdeclares : o.undeclarable? = none := by
    unfold Program.undeclarable? at hdeclarable
    rwa [ho] at hdeclarable
  have hnotPackage : o.kind.isPackage = false := by
    obtain ⟨_, _, -, -, -, -, hnot⟩ :=
      Program.declaredObject?_eq_some (Program.mem_declarations hd).2.2
    unfold Program.isPackageName at hnot
    rwa [ho] at hnot
  obtain ⟨hknownExported, hknownScope⟩ := GraphContext.flags_of_objectKey? hfound ho hdeclares
    hnotPackage hplace (hshows.key ▸ hbuiltin)
  rw [hy.isLocal_eq, hshows.exported, hshows.packageScope, hknownExported, hknownScope,
    hpackageScope, hexported]
  by_cases htop : scope = owner.scope
  · simp [htop]
  · simp [htop]

/-- **Visibility follows the scopes.** In a program that is put together in layers, whatever a scope
at or below a package's binds, other than fields and methods, is placed at the top of the package
exactly when that scope is the package's own, and as exported exactly when moreover its name is. And
whatever is graphed in a session, the global definition that stems from the definition of such an
object, unless that has a builtin key, is local exactly when the scope lies strictly below the
package's own. -/
theorem visibility_of_layered (hp : p.Assembled) (hl : p.Layered)
    (howner : p.package k.pkg = .ok owner) :
    (∀ labels c s, PlacementContext.ofPackage p k labels = .ok c → c.placePackage .empty = .ok s →
      ∀ scope x, p.BoundBelow owner.scope scope x →
        ∃ place o, s.place? x = some place ∧ p.object x = .ok o ∧
          (place.packageScope = true ↔ scope = owner.scope) ∧
          (place.exported = true ↔ scope = owner.scope ∧ isExported o.name = true)) ∧
    ∀ (c : SessionContext) (calls : List CheckedPackage) (i : Nat) (g : PackageGraph),
      c.program = p → Session.OneEach calls → calls[i]? = some k →
      (Session.initial.graphEach c calls).1[i]? = some (.ok (.ok g)) →
      ∀ nodes, p.tree.Reads k.files nodes → ∀ d ∈ p.declarations k nodes, ∀ x ∈ g.defs,
        (Session.initial.graphEach c calls).2.keys.keyOf? k.pkg d.obj = some x.key →
        ∀ scope o, p.BoundBelow owner.scope scope d.obj → p.object d.obj = .ok o →
          x.key ≠ .ofBuiltin o.name →
          ∀ r root y, GlobalDef.StemsFrom r root x y →
            (y.isLocal = true ↔ scope ≠ owner.scope) := by
  constructor
  · intro labels c s hc hs scope x hx
    obtain ⟨hprogram, -, hpkg, -⟩ := ofPackage_eq_ok hc
    subst hprogram
    obtain ⟨place, o, hplace, ho, hpackageScope, hexported⟩ :=
      place_of_layered hl hp.orderly (hpkg ▸ howner) hs hx
    refine ⟨place, o, hplace, ho, ?_, ?_⟩
    · rw [hpackageScope, decide_eq_true_eq]
    · rw [hexported, Bool.and_eq_true, decide_eq_true_eq, and_comm]
  · rintro c calls i g rfl hone hi hg nodes hreads d hd x hx hkey scope o hbound ho hbuiltin r root
      y hy
    have hmem : k ∈ calls := List.mem_of_getElem? hi
    -- the call ends as it does in a session of its own, and all that is known is known there
    rw [Session.graphEach_fst_eq_map_fresh c calls hone, List.getElem?_map, hi,
      Option.map_some] at hg
    have hgraph : c.program.graph k c.options .empty =
        (.ok (.ok g), (c.program.graph k c.options .empty).2) :=
      Prod.ext (Option.some.inj hg) rfl
    have hpart := (Session.warranted_initial c calls).graphEach hone calls (fun _ h => h) k hmem
    obtain ⟨known, hknown, hsame⟩ := Option.map_eq_some_iff.mp hkey
    have hfresh : (c.program.graph k c.options .empty).2.keyOf? k.pkg d.obj = some x.key := by
      unfold KeyStore.keyOf?
      rw [hpart _ _ hknown, Option.map_some, hsame]
    exact isLocal_iff_of_layered hl hp.orderly howner hgraph hreads hd hx hfresh hbound ho hbuiltin
      hy

end Layered

/-! ### A package with a local variable -/

namespace Levels

/-- The nodes of a file that declares the variable `V` and the function `F`, which has a variable
`X`, from the leaves up. -/
def shapes : List (TextRange × NodeKind) :=
  [(.upTo 1, .ident "p"), (.upTo 2, .ident "V"), (.upTo 2, .valueSpec [⟨1⟩] none [] none none),
    (.upTo 2, .genDecl .varDecl [⟨2⟩] none), (.upTo 3, .ident "F"), (.upTo 3, .fieldList []),
    (.upTo 3, .funcType ⟨5⟩ none), (.upTo 4, .ident "X"), (.upTo 4, .assignStmt [⟨7⟩] [] true),
    (.upTo 4, .blockStmt [⟨8⟩]), (.upTo 4, .funcDecl none ⟨4⟩ ⟨6⟩ (some ⟨9⟩) none),
    (.upTo 4, .file ⟨0⟩ [⟨3⟩, ⟨10⟩] none [])]

/-- The program of this file. -/
def program : Program where
  sources := ⟨#[⟨"p.go", ""⟩]⟩
  tree := shapes.foldl (fun t x => (t.alloc ⟨0⟩ x.1 x.2).2) .empty
  objects := #[⟨"V", .var, some ⟨0⟩, some ⟨1⟩, none, none⟩,
    ⟨"F", .func (some ⟨3⟩), some ⟨0⟩, some ⟨1⟩, none, none⟩,
    ⟨"X", .var, some ⟨0⟩, some ⟨3⟩, none, none⟩]
  types := #[]
  scopes := #[⟨none, [⟨1⟩], []⟩, ⟨some ⟨0⟩, [⟨2⟩], [("F", ⟨1⟩), ("V", ⟨0⟩)]⟩,
    ⟨some ⟨1⟩, [⟨3⟩], []⟩, ⟨some ⟨2⟩, [], [("X", ⟨2⟩)]⟩]
  packages := #[⟨"p", "p", ⟨1⟩⟩]

/-- The steps before its nodes are made. -/
def assembly : Except Fault Assembly := do
  let (_, a) ← Assembly.bare.addPackage "p" "p"
  let (_, a) ← a.addFile ⟨0⟩ "p.go" ""
  let (_, a) ← a.addScope ⟨2⟩
  let a ← (a.addObject ⟨"V", .var, some ⟨0⟩, none, none, none⟩).2.declare ⟨1⟩ ⟨0⟩
  let a ← (a.addObject ⟨"F", .func (some ⟨3⟩), some ⟨0⟩, none, none, none⟩).2.declare ⟨1⟩ ⟨1⟩
  (a.addObject ⟨"X", .var, some ⟨0⟩, none, none, none⟩).2.declare ⟨3⟩ ⟨2⟩

/-- The program is put together by the steps of `assembly` and the nodes of the file. -/
theorem assembled : program.Assembled := by
  obtain ⟨a, hrun, hprogram⟩ : ∃ a, assembly = .ok a ∧
      a.program = { program with tree := .empty } := ⟨_, rfl, rfl⟩
  obtain ⟨⟨_, a₁⟩, h₁, hrun⟩ := bind_eq_ok_iff.mp hrun
  obtain ⟨⟨_, a₂⟩, h₂, hrun⟩ := bind_eq_ok_iff.mp hrun
  obtain ⟨⟨_, a₃⟩, h₃, hrun⟩ := bind_eq_ok_iff.mp hrun
  obtain ⟨a₄, h₄, hrun⟩ := bind_eq_ok_iff.mp hrun
  obtain ⟨a₅, h₅, h₆⟩ := bind_eq_ok_iff.mp hrun
  have hscopes := ((Assembly.Reached.bare.addPackage h₁).addFile h₂).addScope h₃
  have hobjects := (((hscopes.addObject _).declare h₄).addObject _).declare h₅
  obtain ⟨b, hb, hnodes⟩ := ((hobjects.addObject _).declare h₆).addNodes ⟨0⟩ shapes
  rw [hprogram] at hnodes
  exact ⟨b, hb, hnodes⟩

/-- The package as it was checked. -/
def package : CheckedPackage where
  pkg := ⟨0⟩
  files := [⟨11⟩]
  facts := { Facts.empty with
    defs := ⟨[(⟨1⟩, ⟨0⟩), (⟨4⟩, ⟨1⟩), (⟨7⟩, ⟨2⟩)]⟩
    scopes := ⟨[(⟨6⟩, ⟨3⟩), (⟨11⟩, ⟨2⟩)]⟩ }

/-- A session over the package. -/
def session : SessionContext := ⟨program, [package], .standard, .ofTree (.ofRoot ⟨"/"⟩)⟩

/-- Every object is bound once, and the body of `F` stands in the scope of the file. -/
theorem layered : program.Layered where
  boundOnce ha hb := by
    have hall : ∀ x ∈ program.bindingList, ∀ y ∈ program.bindingList,
        x.2.2 = y.2.2 → x.1 = y.1 := by
      decide
    exact hall _ ha.mem_bindingList _ hb.mem_bindingList rfl
  bodies h := by
    obtain ⟨o, ho, hkind⟩ := h
    have hall : ∀ x ∈ program.objectList, ∀ own, x.2.kind = .func (some own) → own = ⟨3⟩ := by
      simp [Program.objectList, program]
    obtain rfl := hall _ (Program.mem_objectList ho) _ hkind
    exact ⟨⟨0⟩, _, ⟨2⟩, rfl, .child .refl ⟨_, rfl, by decide⟩, ⟨_, rfl, by decide⟩⟩

/-- The body of `F` is below the scope of the package. -/
theorem below_body : program.Below ⟨1⟩ ⟨3⟩ := by
  have hfile : program.HasChild ⟨1⟩ ⟨2⟩ := ⟨_, rfl, List.mem_singleton_self _⟩
  have hbody : program.HasChild ⟨2⟩ ⟨3⟩ := ⟨_, rfl, List.mem_singleton_self _⟩
  exact .child (.child .refl hfile) hbody

/-- The program has no types, and so the variable of the function is no member of one. -/
theorem boundBelow_body : program.BoundBelow ⟨1⟩ ⟨3⟩ ⟨2⟩ where
  below := below_body
  binds := ⟨"X", _, rfl, List.mem_singleton_self _⟩
  notField h := absurd h.mem_fieldList List.not_mem_nil
  notMethod := by
    rintro ⟨⟨i⟩, methods, hmethods, -⟩
    cases i <;> cases hmethods

/-- The nodes in the order in which they are read. -/
def nodes : List NodeId := [⟨11⟩, ⟨0⟩, ⟨3⟩, ⟨2⟩, ⟨1⟩, ⟨10⟩, ⟨4⟩, ⟨6⟩, ⟨5⟩, ⟨9⟩, ⟨8⟩, ⟨7⟩]

/-- The file is read in this order. -/
theorem reads : program.tree.Reads package.files nodes := reads_graphWalk rfl

/-- The session graphs the package, with a definition for the variable of the function. -/
theorem graphEach_eq : ∃ g x, (Session.initial.graphEach session [package]).1 = [.ok (.ok g)] ∧
    x ∈ g.defs ∧ x.key = ⟨"p", ["F", "X"]⟩ ∧
    (Session.initial.graphEach session [package]).2.keys.keyOf? ⟨0⟩ ⟨2⟩ = some x.key := by
  have hrun : (program.graph package .standard .empty).1.graph?.map
      (fun g => g.defs.map fun x => x.key) =
        some [⟨"p", []⟩, ⟨"p", ["V"]⟩, ⟨"p", ["F"]⟩, ⟨"p", ["F", "X"]⟩] := by decide +kernel
  have hknown : (program.graph package .standard .empty).2.keyOf? ⟨0⟩ ⟨2⟩ =
      some ⟨"p", ["F", "X"]⟩ := by decide +kernel
  obtain ⟨g, keys, hgraph, hkeys⟩ := exists_graph_eq_of_graph? hrun
  have hmem : ⟨"p", ["F", "X"]⟩ ∈ g.defs.map fun x => x.key := by
    rw [hkeys]
    decide
  obtain ⟨x, hx, hkey⟩ := List.mem_map.mp hmem
  obtain ⟨hresults, hlearned⟩ := Session.graphEach_singleton session package
  rw [hresults, hlearned]
  exact ⟨g, x, congrArg (fun r => [r.1]) hgraph, hx, hkey, hknown.trans (congrArg some hkey.symm)⟩

end Levels

/-- In the sample the variable `X` of the function is placed neither as exported nor at the top of
the package, and the global definition that stems from its definition is local. -/
theorem visibility_of_layered_levels :
    (∃ c s, PlacementContext.ofPackage Levels.program Levels.package .deterministic = .ok c ∧
      c.placePackage .empty = .ok s ∧
      ∃ place, s.place? ⟨2⟩ = some place ∧ place.packageScope ≠ true ∧ place.exported ≠ true) ∧
    ∃ g x, (Session.initial.graphEach Levels.session [Levels.package]).1 = [.ok (.ok g)] ∧
      x ∈ g.defs ∧ x.key = ⟨"p", ["F", "X"]⟩ ∧
      ∀ r root y, GlobalDef.StemsFrom r root x y → y.isLocal = true := by
  obtain ⟨hplaces, hlocal⟩ := visibility_of_layered (k := Levels.package) Levels.assembled
    Levels.layered rfl
  constructor
  · obtain ⟨c, hc⟩ : ∃ c, PlacementContext.ofPackage Levels.program Levels.package
        .deterministic = .ok c := ⟨_, rfl⟩
    obtain ⟨s, hs⟩ : ∃ s, c.placePackage .empty = .ok s := by
      cases hc
      exact ⟨_, rfl⟩
    obtain ⟨place, o, hplace, ho, hpackageScope, hexported⟩ :=
      hplaces _ _ _ hc hs ⟨3⟩ ⟨2⟩ Levels.boundBelow_body
    refine ⟨c, s, hc, hs, place, hplace, ?_, ?_⟩
    · rw [ne_eq, hpackageScope]
      decide
    · exact fun h => absurd (hexported.mp h).1 (by decide)
  · obtain ⟨g, x, hgraph, hx, hkey, hknown⟩ := Levels.graphEach_eq
    refine ⟨g, x, hgraph, hx, hkey, fun r root y hy => ?_⟩
    refine (hlocal Levels.session [Levels.package] 0 g rfl ?_ rfl (by rw [hgraph]; rfl)
      Levels.nodes Levels.reads ⟨⟨8⟩, ⟨7⟩, ⟨2⟩⟩ (by decide) x hx hknown ⟨3⟩ _
      Levels.boundBelow_body rfl ?_ r root y hy).mpr (by decide)
    · intro a ha b hb _
      rw [List.mem_singleton.mp ha, List.mem_singleton.mp hb]
    · rw [hkey]
      decide

end SymbolGraph
