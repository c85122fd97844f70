import SymbolGraph.Proofs.Run.Steps

/-!
# What steps are made of

All steps of a run are made of few pieces: questions to the program, looks at what has been
found, keys that are looked up, and changes that each add one thing (`Change`). Which things a
step may add depends on what it is for: a declaration adds definitions and errors
(`madeOf_declare`), a use adds references (`madeOf_visitUses`), documentation adds texts
(`madeOf_document`). What is true of every piece is then shown of whole steps by induction on
`MadeOf`; a first case is that a step leaves alone what its pieces do not add to
(`MadeOf.keeps`). A property that is not one of pieces is shown of documentation through the few
steps that this is put together from (`Emit.Composes.document`).
-/

namespace SymbolGraph

open Emit

/-! ## Pieces -/

namespace GraphContext

/-- What looking up a key comes to: a known key is the answer, and one that is found is known
from then on. -/
theorem keyOf_apply (c : GraphContext) (obj : ObjectId) (s : Emission) :
    c.keyOf obj s =
      match s.keys.find? c.package.pkg obj with
      | some k => .ok (some k) s
      | none =>
        match c.objectKey? s.selected obj with
        | .error f => .error f s
        | .ok none => .ok none s
        | .ok (some k) => .ok (some k) (s.withKeys (s.keys.install c.package.pkg obj k)) := by
  unfold keyOf
  rw [get_bind_apply]
  cases s.keys.find? c.package.pkg obj with
  | some k => rfl
  | none =>
    show ((get : Emit Emission) >>= _) s = _
    rw [get_bind_apply, bind_apply, ask_apply]
    cases c.objectKey? s.selected obj with
    | error f => rfl
    | ok k? =>
      cases k? with
      | none => rfl
      | some k => rfl

/-- What looking up a key comes to: it is known, or it is found and known from then on, or there is
none. -/
inductive KeyLookup (c : GraphContext) (obj : ObjectId) (s : Emission) :
    Option KeyedObject → Emission → Prop
  | known {k : KeyedObject} : s.keys.find? c.package.pkg obj = some k →
      KeyLookup c obj s (some k) s
  | found {k : KeyedObject} : s.keys.find? c.package.pkg obj = none →
      c.objectKey? s.selected obj = .ok (some k) →
      KeyLookup c obj s (some k) (s.withKeys (s.keys.install c.package.pkg obj k))
  | none : s.keys.find? c.package.pkg obj = none → c.objectKey? s.selected obj = .ok none →
      KeyLookup c obj s none s

/-- A lookup that succeeds comes to one of the three. -/
theorem keyOf_cases {c : GraphContext} {obj : ObjectId} {s t : Emission}
    {k? : Option KeyedObject} (h : c.keyOf obj s = .ok k? t) : c.KeyLookup obj s k? t := by
  rw [keyOf_apply] at h
  cases hs : s.keys.find? c.package.pkg obj with
  | some k =>
    rw [hs] at h
    cases h
    exact .known hs
  | none =>
    rw [hs] at h
    cases hk : c.objectKey? s.selected obj with
    | error f => rw [hk] at h; cases h
    | ok found? =>
      rw [hk] at h
      cases found? with
      | none =>
        cases h
        exact .none hs hk
      | some k =>
        cases h
        exact .found hs hk

/-- Looking up a key changes nothing but the keys. -/
theorem endState_keyOf (c : GraphContext) (obj : ObjectId) (s : Emission) :
    ∃ keys, endState (c.keyOf obj s) = s.withKeys keys := by
  rw [keyOf_apply]
  split
  · exact ⟨s.keys, rfl⟩
  · split
    · exact ⟨s.keys, rfl⟩
    · exact ⟨s.keys, rfl⟩
    · exact ⟨_, rfl⟩

end GraphContext

/-- A property that questions have, and steps in a row if each of them has it. -/
structure Emit.Composes (Φ : {α : Type} → Emit α → Prop) : Prop where
  pure : ∀ {α : Type} (a : α), Φ (pure a)
  ask : ∀ {α : Type} (answer : Except Fault α), Φ (ask answer)
  bind : ∀ {α β : Type} {m : Emit α} {next : α → Emit β}, Φ m → (∀ a, Φ (next a)) → Φ (m >>= next)

namespace Emit.Composes

variable {Φ : {α : Type} → Emit α → Prop} {α : Type}

/-- A step for each of some items composes if it does for these items. -/
theorem each_of_mem (hΦ : Composes Φ) {f : α → Emit Unit} :
    ∀ {items : List α}, (∀ a ∈ items, Φ (f a)) → Φ (each f items)
  | [], _ => hΦ.pure ()
  | a :: _, hf => hΦ.bind (hf a List.mem_cons_self) fun _ =>
      hΦ.each_of_mem fun b hb => hf b (List.mem_cons_of_mem a hb)

/-- A step for each item composes. -/
protected theorem each (hΦ : Composes Φ) {f : α → Emit Unit} (hf : ∀ a, Φ (f a))
    (items : List α) : Φ (each f items) :=
  hΦ.each_of_mem fun a (_ : a ∈ items) => hf a

/-- Documenting one item after another composes. -/
theorem eachWith (hΦ : Composes Φ) {f : DocState → α → Emit DocState} (hf : ∀ d a, Φ (f d a)) :
    ∀ (items : List α) (d : DocState), Φ (GraphContext.eachWith f d items)
  | [], d => hΦ.pure d
  | a :: rest, d => hΦ.bind (hf d a) fun d => hΦ.eachWith hf rest d

end Emit.Composes

/-- One thing added to what has been found. -/
inductive Change where
  | error (e : GraphError)
  | claim (key : String) (obj : Option ObjectId)
  | definition (d : Def)
  | reference (r : Ref)
  | text (d : Doc)
  | selection (obj : ObjectId) (type : TypeId)
  | importSpan (file : FileId) (span : Span)

namespace Change

/-- What has been found, with the thing added. -/
def apply : Change → Emission → Emission
  | .error e, s => { s with error := s.error.or (some e) }
  | .claim key obj, s => { s with claims := s.claims.insert key obj }
  | .definition d, s => { s with graph := { s.graph with defs := s.graph.defs ++ [d] } }
  | .reference r, s => { s with graph := { s.graph with refs := s.graph.refs ++ [r] } }
  | .text d, s => { s with graph := { s.graph with docs := s.graph.docs ++ [d] } }
  | .selection obj type, s => { s with selected := s.selected.insert obj type }
  | .importSpan file span, s => { s with importSpans := (file, span) :: s.importSpans }

/-- No change adds keys. -/
theorem apply_keys (change : Change) (s : Emission) : (change.apply s).keys = s.keys := by
  cases change <;> rfl

/-- A change adds the same whatever keys are known. -/
theorem apply_withKeys (change : Change) (s : Emission) (keys : KeyStore) :
    change.apply (s.withKeys keys) = (change.apply s).withKeys keys := by
  cases change <;> rfl

/-- What a declaration may add. -/
def ByDeclaration : Change → Prop
  | .error _ | .claim .. | .definition _ => True
  | _ => False

/-- What a use may add. -/
def ByUse : Change → Prop
  | .reference _ | .selection .. | .importSpan .. => True
  | _ => False

/-- What documentation may add. -/
def ByDocumentation : Change → Prop
  | .text _ => True
  | _ => False

end Change

/-- A step is made of pieces that add `allowed` things only. What it does next may depend on
what has been found, but not on the keys. -/
inductive MadeOf (c : GraphContext) (allowed : Change → Prop) : {α : Type} → Emit α → Prop
  | pure {α : Type} (a : α) : MadeOf c allowed (pure a)
  | ask {α : Type} (answer : Except Fault α) : MadeOf c allowed (ask answer)
  | keyOf (obj : ObjectId) : MadeOf c allowed (c.keyOf obj)
  | change {change : Change} (h : allowed change) : MadeOf c allowed (modify change.apply)
  | bind {α β : Type} {m : Emit α} {next : α → Emit β} : MadeOf c allowed m →
      (∀ a, MadeOf c allowed (next a)) → MadeOf c allowed (m >>= next)
  | look {α : Type} {next : Emission → Emit α} : (∀ s, MadeOf c allowed (next s)) →
      (∀ s keys, next (s.withKeys keys) = next s) →
      MadeOf c allowed ((get : Emit Emission) >>= next)

namespace MadeOf

variable {α β : Type} {c : GraphContext} {allowed wider : Change → Prop}

/-- What is made of pieces with some changes is made of pieces with more of them. -/
theorem mono (hsub : ∀ change, allowed change → wider change) {m : Emit α}
    (h : MadeOf c allowed m) : MadeOf c wider m := by
  induction h with
  | pure a => exact .pure a
  | ask answer => exact .ask answer
  | keyOf obj => exact .keyOf obj
  | change h => exact .change (hsub _ h)
  | bind _ _ ih ihNext => exact .bind ih ihNext
  | look _ hsame ih => exact .look ih hsame

/-- A step that makes something of its answer is made of the pieces of the first one. -/
protected theorem map {f : α → β} {m : Emit α} (h : MadeOf c allowed m) :
    MadeOf c allowed (f <$> m) := by
  rw [map_eq_pure_bind]
  exact .bind h fun a => .pure (f a)

/-- Steps made of pieces can be taken in a row. -/
theorem composes : Composes (fun m => MadeOf c allowed m) := ⟨.pure, .ask, .bind⟩

/-- A step for each item is made of the pieces of these steps. -/
protected theorem each {f : α → Emit Unit} (hf : ∀ a, MadeOf c allowed (f a)) (items : List α) :
    MadeOf c allowed (each f items) := composes.each hf items

/-- An error is something that a declaration may add. -/
protected theorem fail (e : GraphError) : MadeOf c Change.ByDeclaration (fail e) :=
  @change c _ (.error e) trivial

/-- A claim is something that a declaration may add. -/
protected theorem claim (key : String) (obj : Option ObjectId) :
    MadeOf c Change.ByDeclaration (claim key obj) :=
  @change c _ (.claim key obj) trivial

/-- A definition is something that a declaration may add. -/
protected theorem addDef (d : Def) : MadeOf c Change.ByDeclaration (addDef d) :=
  @change c _ (.definition d) trivial

/-- A reference is something that a use may add. -/
protected theorem addRef (r : Ref) : MadeOf c Change.ByUse (addRef r) :=
  @change c _ (.reference r) trivial

/-- A text is something that documentation may add. -/
protected theorem addDoc (d : Doc) : MadeOf c Change.ByDocumentation (addDoc d) :=
  @change c _ (.text d) trivial

/-- A relation between states that holds of every lookup of a key and of every allowed change,
and of what is done in a row, holds of the whole step. -/
theorem relates {R : Emission → Emission → Prop} (hrefl : ∀ s, R s s)
    (htrans : ∀ {s t u}, R s t → R t u → R s u)
    (hkey : ∀ s obj, R s (endState (c.keyOf obj s)))
    (hchange : ∀ change, allowed change → ∀ s, R s (change.apply s)) {m : Emit α}
    (h : MadeOf c allowed m) (s : Emission) : R s (endState (m s)) := by
  induction h generalizing s with
  | pure a => exact hrefl s
  | ask answer =>
    cases answer with
    | ok a => exact hrefl s
    | error f => exact hrefl s
  | keyOf obj => exact hkey s obj
  | change h => exact hchange _ h s
  | @bind α β m next _ _ ih ihNext =>
    have hfirst := ih s
    cases hm : m s with
    | error f t =>
      rw [hm] at hfirst
      rw [bind_of_error hm]
      exact hfirst
    | ok a t =>
      rw [hm] at hfirst
      rw [bind_of_ok hm]
      exact htrans hfirst (ihNext a t)
  | look _ _ ih =>
    rw [get_bind_apply]
    exact ih s s

/-- What the pieces of a step do not add to, the step leaves alone. -/
theorem keeps (part : Emission → β) (hkeys : ∀ s keys, part (s.withKeys keys) = part s)
    (hchange : ∀ change, allowed change → ∀ s, part (change.apply s) = part s) {m : Emit α}
    (h : MadeOf c allowed m) (s : Emission) : part (endState (m s)) = part s := by
  refine h.relates (R := fun s t => part t = part s) (fun _ => rfl)
    (fun hst htu => htu.trans hst) (fun s obj => ?_) hchange s
  obtain ⟨keys, hend⟩ := c.endState_keyOf obj s
  rw [hend, hkeys]

end MadeOf

/-! ## What documentation is put together from -/

namespace Emit.Composes

variable {Φ : {α : Type} → Emit α → Prop} {c : GraphContext}

/-- Documenting names under a comment group is documenting each of them. -/
theorem documentNames (hΦ : Composes Φ) (hname : ∀ g text d name, Φ (c.documentName g text d name))
    (names : List NodeId) (group : Option CommentGroup) (d : DocState) :
    Φ (c.documentNames names group d) := by
  unfold GraphContext.documentNames
  split
  · exact hΦ.pure d
  · dsimp only
    split
    · exact hΦ.pure _
    · exact hΦ.eachWith (hname _ _) names _

/-- Documenting a specification is documenting its names. -/
theorem documentSpec (hΦ : Composes Φ) (hname : ∀ g text d name, Φ (c.documentName g text d name))
    (declDoc : Option CommentGroup) (d : DocState) (spec : NodeId) :
    Φ (c.documentSpec declDoc d spec) := by
  unfold GraphContext.documentSpec
  refine hΦ.bind (hΦ.ask _) fun kind => ?_
  split
  · exact hΦ.documentNames hname _ _ _
  · exact hΦ.documentNames hname _ _ _
  · exact hΦ.pure d

/-- Documenting a node is documenting the names that it declares. -/
theorem documentNode (hΦ : Composes Φ) (hname : ∀ g text d name, Φ (c.documentName g text d name))
    (d : DocState) (node : NodeId) : Φ (c.documentNode d node) := by
  unfold GraphContext.documentNode
  refine hΦ.bind (hΦ.ask _) fun kind => ?_
  split
  · exact hΦ.eachWith (hΦ.documentSpec hname _) _ d
  · exact hΦ.documentNames hname _ _ d
  · refine hΦ.bind (hΦ.ask _) fun member => ?_
    split
    · exact hΦ.bind (hΦ.ask _) fun names => hΦ.documentNames hname _ _ _
    · exact hΦ.pure d
  · exact hΦ.pure d

/-- Documenting a file is documenting its nodes. -/
theorem documentFile (hΦ : Composes Φ) (hname : ∀ g text d name, Φ (c.documentName g text d name))
    (d : DocState) (file : NodeId) : Φ (c.documentFile d file) :=
  hΦ.bind (hΦ.ask _) fun nodes => hΦ.eachWith (hΦ.documentNode hname) nodes d

/-- Documentation is put together from that of the package, that of names, and the comments that
belong to nothing. -/
theorem document (hΦ : Composes Φ)
    (hpackage : ∀ files d, Φ (c.documentPackage files d))
    (hname : ∀ g text d name, Φ (c.documentName g text d name))
    (hfloating : ∀ d g, Φ (c.addFloating d g)) : Φ c.document := by
  unfold GraphContext.document
  refine hΦ.bind (hΦ.ask _) fun files => hΦ.bind (hpackage files _) fun d => ?_
  refine hΦ.bind (hΦ.eachWith (hΦ.documentFile hname) files d) fun d =>
    hΦ.each (fun file => ?_) files
  unfold GraphContext.addFloatingOf
  refine hΦ.bind (hΦ.ask _) fun kind => ?_
  split
  · exact hΦ.each (hfloating d) _
  · exact hΦ.pure ()

end Emit.Composes

namespace GraphContext

variable (c : GraphContext)

/-! ## Declarations -/

/-- A definition is made of pieces of declarations. -/
theorem madeOf_emitDef (structName : Option String) (decl name : NodeId) (obj : ObjectId)
    (o : Object) (kind : DefKind) :
    MadeOf c Change.ByDeclaration (c.emitDef structName decl name obj o kind) := by
  unfold emitDef
  refine .bind (.keyOf obj) fun k? => ?_
  cases k? with
  | none => exact .pure ()
  | some k =>
    refine .look (fun s => ?_) fun _ _ => rfl
    split
    · split
      · exact .pure ()
      · exact .fail _
    · exact .fail _
    · exact .bind (.claim _ _) fun _ => .bind (.ask _) fun _ => .addDef _

/-- Declaring a name is made of pieces of declarations. -/
theorem madeOf_declare (structName : Option String) (decl name : NodeId) :
    MadeOf c Change.ByDeclaration (c.declare structName decl name) := by
  unfold declare
  refine .bind (.ask _) fun obj? => ?_
  cases obj? with
  | none => exact .pure ()
  | some obj =>
    refine .bind (.ask _) fun o => .bind (.ask _) fun kind? => ?_
    split
    · exact .fail _
    · exact .pure ()
    · exact c.madeOf_emitDef structName decl name obj o _

/-- The package's own definition is made of pieces of declarations. -/
theorem madeOf_emitPackage : MadeOf c Change.ByDeclaration c.emitPackage := by
  unfold emitPackage
  refine .bind (.ask _) fun package => .bind (.claim _ _) fun _ => ?_
  dsimp only
  split
  · exact .bind (.pure _) fun _ => .addDef _
  · exact .bind (.map (.ask _)) fun _ => .addDef _

/-! ## Uses -/

/-- A reference is made of pieces of uses. -/
theorem madeOf_emitRef (node : NodeId) (obj : ObjectId) (isDef : Bool) :
    MadeOf c Change.ByUse (c.emitRef node obj isDef) := by
  unfold emitRef
  refine .bind (.keyOf obj) fun k? => ?_
  cases k? with
  | none => exact .pure ()
  | some k => exact .bind (.ask _) fun _ => .addRef _

/-- What a node says apart from its declarations is made of pieces of uses. -/
theorem madeOf_visitUses (node : NodeId) (kind : NodeKind) :
    MadeOf c Change.ByUse (c.visitUses node kind) := by
  unfold visitUses
  split
  · exact .bind (.ask _) fun _ => .bind (.ask _) fun _ => .addRef _
  · split
    · exact .pure ()
    · exact .bind (c.madeOf_emitRef _ _ _) fun _ => .bind (.ask _) fun n =>
        @MadeOf.change c _ (.importSpan n.file n.range.span) trivial
  · exact .bind (.ask _) fun _ => .pure ()
  · split
    · exact .pure ()
    · rename_i selection _
      exact .bind (.ask _) fun type => @MadeOf.change c _ (.selection selection.obj type) trivial
  · exact .pure ()
  · split
    · exact .pure ()
    · refine .bind (.ask _) fun n => .look (fun s => ?_) fun _ _ => rfl
      split
      · exact .pure ()
      · split
        · exact .bind (.ask _) fun _ => c.madeOf_emitRef _ _ _
        · exact c.madeOf_emitRef _ _ _
  · exact .pure ()

/-! ## Visits -/

/-- A visit is made of pieces of declarations and uses. -/
theorem madeOf_visit (v : Visit) :
    MadeOf c (fun change => change.ByDeclaration ∨ change.ByUse) (c.visit v) := by
  unfold visit
  exact .bind (.ask _) fun kind => .bind (.ask _) fun names =>
    .bind (.each (fun name => (c.madeOf_declare _ _ name).mono fun _ => .inl) names) fun _ =>
      (c.madeOf_visitUses v.node kind).mono fun _ => .inr

/-- Visits in a row are made of pieces of declarations and uses. -/
theorem madeOf_visitAll : (visits : List Visit) →
    MadeOf c (fun change => change.ByDeclaration ∨ change.ByUse) (c.visitAll visits)
  | [] => .pure ()
  | v :: rest => by
    unfold visitAll
    refine .bind (c.madeOf_visit v) fun _ => .look (fun s => ?_) fun _ _ => rfl
    split
    · exact .pure ()
    · exact madeOf_visitAll rest

/-- The visits of a walk, which may be cut short, are made of pieces of declarations and uses. -/
theorem madeOf_visitTrace (t : Trace Visit) :
    MadeOf c (fun change => change.ByDeclaration ∨ change.ByUse) (c.visitTrace t) := by
  unfold visitTrace
  refine .bind (c.madeOf_visitAll _) fun _ => .look (fun s => ?_) fun _ _ => rfl
  split
  · exact .ask (.error _)
  · exact .pure ()

/-! ## Documentation -/

/-- The two texts of a key are pieces of documentation. -/
theorem madeOf_addDocPair (key : DefKey) (text file : String) (span : Span) :
    MadeOf c Change.ByDocumentation (c.addDocPair key text file span) :=
  .bind (.addDoc _) fun _ => .addDoc _

/-- Documenting the package is made of pieces of documentation. -/
theorem madeOf_documentPackage (files : List NodeId) (d : DocState) :
    MadeOf c Change.ByDocumentation (c.documentPackage files d) := by
  unfold documentPackage
  refine .bind (.ask _) fun docs => ?_
  dsimp only
  split
  · exact .pure _
  · exact .bind (c.madeOf_addDocPair _ _ _ _) fun _ => .pure _

/-- Documenting a name is made of pieces of documentation. -/
theorem madeOf_documentName (g : CommentGroup) (text : String) (d : DocState) (name : NodeId) :
    MadeOf c Change.ByDocumentation (c.documentName g text d name) := by
  unfold documentName
  split
  · exact .pure d
  · split
    · exact .pure d
    · refine .bind (.keyOf _) fun k? => ?_
      cases k? with
      | none => exact .pure _
      | some k =>
        dsimp only
        split
        · exact .pure _
        · exact .bind (c.madeOf_addDocPair _ _ _ _) fun _ => .pure _

/-- A comment that belongs to nothing is a piece of documentation. -/
theorem madeOf_addFloating (d : DocState) (g : CommentGroup) :
    MadeOf c Change.ByDocumentation (c.addFloating d g) := by
  unfold addFloating
  split
  · exact .pure ()
  · exact .addDoc _

/-- All documentation is made of pieces of documentation. -/
theorem madeOf_document : MadeOf c Change.ByDocumentation c.document :=
  MadeOf.composes.document c.madeOf_documentPackage c.madeOf_documentName c.madeOf_addFloating

end GraphContext

/-- All steps of a run are made of these pieces. -/
theorem madeOf_emitAll (c : GraphContext) (includeDocs : Bool) :
    MadeOf c (fun _ => True) (Program.emitAll c includeDocs) := by
  unfold Program.emitAll
  refine .bind (c.madeOf_emitPackage.mono fun _ _ => trivial) fun _ =>
    .bind ((c.madeOf_visitTrace _).mono fun _ _ => trivial) fun _ =>
      .look (fun s => ?_) fun _ _ => rfl
  split
  · exact c.madeOf_document.mono fun _ _ => trivial
  · exact .pure ()

end SymbolGraph
