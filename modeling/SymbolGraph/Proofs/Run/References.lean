import SymbolGraph.Proofs.Placement.Fallback
import SymbolGraph.Proofs.Run.Completed
import SymbolGraph.Proofs.Run.KnownKeys
import SymbolGraph.Proofs.Syntax.ReadingOrder

/-!
# References

What the references of a package graph are: reading its files in order (`SyntaxTree.Reads`),
every node may mention something (`Program.mentions`), and each mention of something that has a
key is a reference (`refs_eq_mentions`). A file mentions its package, an import without a name
the object that it declares, and an identifier the object that it declares or uses, unless it is
blank or stands where such an import was read.

Under `Program.Anchored` whatever an identifier mentions has a key. The object of an import need
not have one, and then the import is no reference; and an identifier is left out only where one
of the imports without a name was read, not where one with a name was. A sample shows both
(`exists_import_without_ref`).
-/

namespace SymbolGraph

open Emit KeyStore

/-! ## Mentions -/

/-- What is mentioned. -/
inductive Named where
  /-- The package itself. -/
  | package
  /-- The object of an import without a name. -/
  | imported (obj : ObjectId)
  | object (obj : ObjectId) (isDef : Bool)
  deriving DecidableEq, Repr

/-- A place in the text that mentions something. -/
structure Mention where
  file : FileId
  range : TextRange
  named : Named
  deriving DecidableEq, Repr

namespace Named

/-- Whether what is mentioned is declared there. -/
def isDef : Named → Bool
  | .object _ isDef => isDef
  | _ => false

/-- The object that is mentioned; none for the package itself. -/
def object? : Named → Option ObjectId
  | .package => none
  | .imported obj => some obj
  | .object obj _ => some obj

/-- The key of what is mentioned, in a package with the import path `unit`. -/
def key? (unit : String) (keyOf : ObjectId → Option DefKey) : Named → Option DefKey
  | .package => some (.ofPackage unit)
  | .imported obj => keyOf obj
  | .object obj _ => keyOf obj

/-- An object that is mentioned is keyed as it is everywhere. -/
theorem key?_of_object? {named : Named} {obj : ObjectId} (h : named.object? = some obj)
    (unit : String) (keyOf : ObjectId → Option DefKey) : named.key? unit keyOf = keyOf obj := by
  cases named with
  | package => cases h
  | imported other =>
    cases h
    rfl
  | object other isDef =>
    cases h
    rfl

end Named

namespace Mention

/-- The reference that a mention makes, if what it mentions has a key. -/
def ref? (m : Mention) (p : Program) (unit : String) (keyOf : ObjectId → Option DefKey) :
    Option Ref :=
  (m.named.key? unit keyOf).map fun key =>
    ⟨unit, p.sources.name m.file, m.range.span, key, m.named.isDef⟩

/-- Where an import without a name stands. -/
def importPlace? (m : Mention) : Option (FileId × Span) :=
  match m.named with
  | .imported _ => some (m.file, m.range.span)
  | _ => none

end Mention

namespace Program

/-- Whether an object is the name of a package. -/
def isPackageName (p : Program) (obj : ObjectId) : Bool :=
  match p.object obj with
  | .ok o => o.kind.isPackage
  | .error _ => false

/-- What a node mentions, when imports without a name were read at the places `imports`. -/
def mention? (p : Program) (k : CheckedPackage) (imports : List (FileId × Span))
    (node : NodeId) : Option Mention :=
  match p.tree.node node with
  | .error _ => none
  | .ok n =>
    match n.kind with
    | .file name _ _ _ =>
      match p.tree.range name with
      | .ok range => some ⟨n.file, range, .package⟩
      | .error _ => none
    | .importSpec .. =>
      (k.facts.implicits.get? node).map fun obj => ⟨n.file, n.range, .imported obj⟩
    | .ident name =>
      if name = "_" ∨ (n.file, n.range.span) ∈ imports then none
      else (k.facts.objectOf? node).map fun obj =>
        ⟨n.file, n.range, .object obj (k.facts.isDef node && !p.isPackageName obj)⟩
    | _ => none

/-- What nodes mention that are read after imports at the places `imports`. -/
def mentionsFrom (p : Program) (k : CheckedPackage) :
    (imports : List (FileId × Span)) → List NodeId → List Mention
  | _, [] => []
  | imports, node :: rest =>
    match p.mention? k imports node with
    | some m => m :: mentionsFrom p k (m.importPlace?.toList ++ imports) rest
    | none => mentionsFrom p k imports rest

/-- What nodes mention that are read in this order. -/
def mentions (p : Program) (k : CheckedPackage) (nodes : List NodeId) : List Mention :=
  p.mentionsFrom k [] nodes

end Program

/-- The key that is known of an object while a package is graphed. -/
def KeyStore.keyOf? (s : KeyStore) (pkg : PackageId) (obj : ObjectId) : Option DefKey :=
  (s.find? pkg obj).map (·.key)

/-! ## Steps -/

section Steps

variable {α : Type} {c : GraphContext} {base last : KeyStore} {s t : Emission}

/-- No identifier of the package mentions an object without a key. -/
def GraphContext.Keyed (c : GraphContext) : Prop :=
  ∀ ident obj selected, c.package.facts.objectOf? ident = some obj →
    c.objectKey? selected obj ≠ .ok none

/-- An object has been looked up: its key is known in the end, or it has none. -/
def GraphContext.LookedUp (c : GraphContext) (last : KeyStore) (obj : ObjectId) : Prop :=
  (last.keyOf? c.package.pkg obj).isSome ∨ ∃ selected, c.objectKey? selected obj = .ok none

/-- A step adds the references of some mentions, with the keys that are known in the end, and
what is mentioned has been looked up. -/
structure Tells (c : GraphContext) (last : KeyStore) (s t : Emission) (ms : List Mention) :
    Prop where
  refs : t.graph.refs = s.graph.refs ++
    ms.filterMap (·.ref? c.program c.unit (last.keyOf? c.package.pkg))
  lookedUp : ∀ m ∈ ms, ∀ obj, m.named.object? = some obj → c.LookedUp last obj

/-- A step that adds no references tells of nothing. -/
theorem Tells.nothing (h : t.graph.refs = s.graph.refs) : Tells c last s t [] where
  refs := by rw [h, List.filterMap_nil, List.append_nil]
  lookedUp _ hm := absurd hm List.not_mem_nil

/-- A step that adds the reference of one mention tells of it. -/
theorem Tells.single {m : Mention}
    (hrefs : t.graph.refs = s.graph.refs ++
      (m.ref? c.program c.unit (last.keyOf? c.package.pkg)).toList)
    (hlookedUp : ∀ obj, m.named.object? = some obj → c.LookedUp last obj) :
    Tells c last s t [m] where
  refs := by
    rw [hrefs, List.filterMap_cons]
    cases m.ref? c.program c.unit (last.keyOf? c.package.pkg) <;> rfl
  lookedUp m' hm' := by
    obtain rfl := List.mem_singleton.mp hm'
    exact hlookedUp

/-- Two steps in a row tell of what the first one tells of and then of what the second one does. -/
theorem Tells.append {u : Emission} {ms ms' : List Mention} (h : Tells c last s t ms)
    (h' : Tells c last t u ms') : Tells c last s u (ms ++ ms') where
  refs := by rw [h'.refs, h.refs, List.filterMap_append, List.append_assoc]
  lookedUp m hm := by
    rcases List.mem_append.mp hm with hm | hm
    · exact h.lookedUp m hm
    · exact h'.lookedUp m hm

/-- Declarations add no references and no imports. -/
theorem MadeOf.keeps_refs {m : Emit α} (h : MadeOf c Change.ByDeclaration m) {a : α}
    (hm : m s = .ok a t) : t.graph.refs = s.graph.refs ∧ t.importSpans = s.importSpans := by
  have hkeeps := h.keeps (fun s => (s.graph.refs, s.importSpans)) (fun _ _ => rfl)
    (fun change hchange s => by
      cases change with
      | error | claim | definition => rfl
      | reference | text | selection | importSpan => cases hchange) s
  rw [endState_of_ok hm] at hkeeps
  exact Prod.mk.inj hkeeps

/-- A lookup for a reference adds it exactly if the object has a key in the end. -/
theorem emitRef_eq_ok {node : NodeId} {n : Node} {obj : ObjectId} {isDef : Bool}
    (h : c.emitRef node obj isDef s = .ok () t) (hn : c.program.tree.node node = .ok n)
    (hbase : PartOf c.package.pkg base s.keys) (hlast : PartOf c.package.pkg t.keys last)
    (hfound : c.Found base last) :
    t.graph.refs = s.graph.refs ++ ((last.keyOf? c.package.pkg obj).map fun key =>
      (⟨c.unit, c.fileName n.file, n.range.span, key, isDef⟩ : Ref)).toList ∧
    t.importSpans = s.importSpans ∧ c.LookedUp last obj := by
  unfold GraphContext.emitRef at h
  obtain ⟨k?, s₁, hkey, h⟩ := Emit.bind_eq_ok_iff.mp h
  have hadded : s₁.keys = t.keys ∧ t.importSpans = s₁.importSpans ∧
      t.graph.refs = s₁.graph.refs ++ (k?.map fun k =>
        (⟨c.unit, c.fileName n.file, n.range.span, k.key, isDef⟩ : Ref)).toList := by
    cases k? with
    | none =>
      obtain ⟨-, rfl⟩ := pure_eq_ok_iff.mp h
      exact ⟨rfl, rfl, (List.append_nil _).symm⟩
    | some k =>
      obtain ⟨n', s₂, hask, h⟩ := Emit.bind_eq_ok_iff.mp h
      obtain ⟨hn', rfl⟩ := ask_eq_ok_iff.mp hask
      rw [hn] at hn'
      cases hn'
      cases h
      exact ⟨rfl, rfl, rfl⟩
  obtain ⟨hkeys, hspans, hrefs⟩ := hadded
  rw [← hkeys] at hlast
  obtain ⟨hk, hstate, hnone⟩ := GraphContext.keyOf_eq_ok hkey hbase hlast hfound
  unfold GraphContext.LookedUp KeyStore.keyOf?
  rw [hk]
  refine ⟨?_, ?_, ?_⟩
  · rw [hrefs, hstate, Option.map_map]
    rfl
  · rw [hspans, hstate]
    rfl
  · cases k? with
    | none => exact .inr ⟨_, hnone rfl⟩
    | some k => exact .inl rfl

/-- What is done with an identifier that is not blank. -/
theorem visitUses_ident {node : NodeId} {name : String} (h : name ≠ "_") :
    c.visitUses node (.ident name) =
      (match c.package.facts.objectOf? node with
      | none => pure ()
      | some obj => do
        let n ← ask (c.program.tree.node node)
        if (← get).importSpans.contains (n.file, n.range.span) then return
        else if c.package.facts.isDef node then
          let o ← ask (c.program.object obj)
          c.emitRef node obj (!o.kind.isPackage)
        else c.emitRef node obj false) := by
  unfold GraphContext.visitUses
  split
  case h_5 heq => exact absurd (NodeKind.ident.inj heq) h
  case h_6 heq =>
    cases heq
    rfl
  case h_7 hother => exact absurd rfl (hother name)
  all_goals
    rename_i heq
    cases heq

/-- A step tells of a mention, if there is one, and keeps the place of an import without a
name. -/
structure TellsOf (c : GraphContext) (last : KeyStore) (s t : Emission) (m? : Option Mention) :
    Prop where
  tells : Tells c last s t m?.toList
  imports : t.importSpans = (m?.bind Mention.importPlace?).toList ++ s.importSpans

/-- A step that leaves references and imports alone tells of nothing. -/
theorem TellsOf.nothing {m? : Option Mention} (hm : m? = none)
    (hrefs : t.graph.refs = s.graph.refs) (hspans : t.importSpans = s.importSpans) :
    TellsOf c last s t m? := by
  subst hm
  exact ⟨.nothing hrefs, hspans⟩

/-- A file mentions the package, at the name in its package clause. -/
theorem visitUses_file_eq_ok {node name : NodeId} {n : Node} {decls : List NodeId}
    {doc : Option CommentGroup} {comments : List CommentGroup}
    (h : c.visitUses node (.file name decls doc comments) s = .ok () t)
    (hn : c.program.tree.node node = .ok n) (hkind : n.kind = .file name decls doc comments) :
    TellsOf c last s t (c.program.mention? c.package s.importSpans node) := by
  unfold GraphContext.visitUses at h
  obtain ⟨file, s₁, hask, h⟩ := Emit.bind_eq_ok_iff.mp h
  obtain ⟨hfile, rfl⟩ := ask_eq_ok_iff.mp hask
  obtain ⟨range, s₂, hask, h⟩ := Emit.bind_eq_ok_iff.mp h
  obtain ⟨hrange, rfl⟩ := ask_eq_ok_iff.mp hask
  have hmention : c.program.mention? c.package s.importSpans node =
      some ⟨n.file, range, .package⟩ := by
    simp only [Program.mention?, hn, hkind, hrange]
  unfold SyntaxTree.file at hfile
  rw [hn] at hfile
  cases hfile
  cases h
  rw [hmention]
  refine ⟨.single rfl fun obj hobj => ?_, rfl⟩
  cases hobj

/-- Where an import stands, it mentions the object that it declares without a name, if there is
one. -/
theorem visitUses_importSpec_eq_ok {node : NodeId} {n : Node} {name : Option NodeId}
    {path : NodeId} {doc comment : Option CommentGroup}
    (h : c.visitUses node (.importSpec name path doc comment) s = .ok () t)
    (hn : c.program.tree.node node = .ok n) (hkind : n.kind = .importSpec name path doc comment)
    (hbase : PartOf c.package.pkg base s.keys) (hlast : PartOf c.package.pkg t.keys last)
    (hfound : c.Found base last) :
    TellsOf c last s t (c.program.mention? c.package s.importSpans node) := by
  have hmention : c.program.mention? c.package s.importSpans node =
      (c.package.facts.implicits.get? node).map fun obj => ⟨n.file, n.range, .imported obj⟩ := by
    simp only [Program.mention?, hn, hkind]
  unfold GraphContext.visitUses at h
  dsimp only at h
  cases himplicit : c.package.facts.implicits.get? node with
  | none =>
    rw [himplicit] at h hmention
    obtain ⟨-, rfl⟩ := pure_eq_ok_iff.mp h
    exact .nothing hmention rfl rfl
  | some obj =>
    rw [himplicit] at h hmention
    obtain ⟨_, s₁, href, h⟩ := Emit.bind_eq_ok_iff.mp h
    obtain ⟨n', s₂, hask, h⟩ := Emit.bind_eq_ok_iff.mp h
    obtain ⟨hn', rfl⟩ := ask_eq_ok_iff.mp hask
    rw [hn] at hn'
    cases hn'
    cases h
    obtain ⟨hrefs, hspans, hlookedUp⟩ := emitRef_eq_ok href hn hbase hlast hfound
    rw [hmention]
    refine ⟨.single hrefs fun other hother => ?_, ?_⟩
    · cases hother
      exact hlookedUp
    · show (n.file, n.range.span) :: s₁.importSpans = _
      rw [hspans]
      rfl

/-- The reference of an identifier that declares or uses an object, and that stands nowhere where
an import without a name was read. -/
theorem emitRef_of_visitUses {node : NodeId} {n : Node} {name : String} {obj : ObjectId}
    (h : c.visitUses node (.ident name) s = .ok () t) (hn : c.program.tree.node node = .ok n)
    (hblank : name ≠ "_") (hobj : c.package.facts.objectOf? node = some obj)
    (himport : (n.file, n.range.span) ∉ s.importSpans) :
    c.emitRef node obj (c.package.facts.isDef node && !c.program.isPackageName obj) s =
      .ok () t := by
  rw [visitUses_ident hblank, hobj] at h
  obtain ⟨n', s₁, hask, h⟩ := Emit.bind_eq_ok_iff.mp h
  obtain ⟨hn', rfl⟩ := ask_eq_ok_iff.mp hask
  rw [hn] at hn'
  cases hn'
  rw [get_bind_apply, if_neg (fun hmem => himport (List.contains_iff_mem.mp hmem))] at h
  cases hdef : c.package.facts.isDef node with
  | false =>
    rw [hdef] at h
    exact h
  | true =>
    rw [hdef, if_pos rfl] at h
    obtain ⟨o, s₂, hask, h⟩ := Emit.bind_eq_ok_iff.mp h
    obtain ⟨ho, rfl⟩ := ask_eq_ok_iff.mp hask
    unfold Program.isPackageName
    rw [ho]
    exact h

/-- An identifier that is blank, or declares and uses nothing, or stands where an import without
a name was read, is passed over. -/
theorem eq_of_visitUses_ident {node : NodeId} {n : Node} {name : String}
    (h : c.visitUses node (.ident name) s = .ok () t) (hn : c.program.tree.node node = .ok n)
    (hskip : name = "_" ∨ c.package.facts.objectOf? node = none ∨
      (n.file, n.range.span) ∈ s.importSpans) : s = t := by
  by_cases hblank : name = "_"
  · subst hblank
    unfold GraphContext.visitUses at h
    exact (pure_eq_ok_iff.mp h).2
  · rw [visitUses_ident hblank] at h
    cases hobj : c.package.facts.objectOf? node with
    | none =>
      rw [hobj] at h
      exact (pure_eq_ok_iff.mp h).2
    | some obj =>
      rw [hobj] at h hskip
      have himport : (n.file, n.range.span) ∈ s.importSpans := by
        rcases hskip with hname | hnone | himport
        · exact absurd hname hblank
        · cases hnone
        · exact himport
      obtain ⟨n', s₁, hask, h⟩ := Emit.bind_eq_ok_iff.mp h
      obtain ⟨hn', rfl⟩ := ask_eq_ok_iff.mp hask
      rw [hn] at hn'
      cases hn'
      rw [get_bind_apply, if_pos (List.contains_iff_mem.mpr himport)] at h
      exact (pure_eq_ok_iff.mp h).2

/-- An identifier mentions the object that it stands for, unless it is blank or an import without a
name has been read at its place. -/
theorem visitUses_ident_eq_ok {node : NodeId} {n : Node} {name : String}
    (h : c.visitUses node (.ident name) s = .ok () t) (hn : c.program.tree.node node = .ok n)
    (hkind : n.kind = .ident name)
    (hbase : PartOf c.package.pkg base s.keys) (hlast : PartOf c.package.pkg t.keys last)
    (hfound : c.Found base last) :
    TellsOf c last s t (c.program.mention? c.package s.importSpans node) := by
  have hmention : c.program.mention? c.package s.importSpans node =
      if name = "_" ∨ (n.file, n.range.span) ∈ s.importSpans then none
      else (c.package.facts.objectOf? node).map fun obj => ⟨n.file, n.range,
        .object obj (c.package.facts.isDef node && !c.program.isPackageName obj)⟩ := by
    simp only [Program.mention?, hn, hkind]
  by_cases hpassed : name = "_" ∨ (n.file, n.range.span) ∈ s.importSpans
  · have hsame : s = t := eq_of_visitUses_ident h hn (hpassed.imp_right .inr)
    rw [if_pos hpassed] at hmention
    exact .nothing hmention (by rw [hsame]) (by rw [hsame])
  · rw [if_neg hpassed] at hmention
    cases hobj : c.package.facts.objectOf? node with
    | none =>
      have hsame : s = t := eq_of_visitUses_ident h hn (.inr (.inl hobj))
      rw [hobj] at hmention
      exact .nothing hmention (by rw [hsame]) (by rw [hsame])
    | some obj =>
      have href := emitRef_of_visitUses h hn (fun hname => hpassed (.inl hname)) hobj
        (fun himport => hpassed (.inr himport))
      obtain ⟨hrefs, hspans, hlookedUp⟩ := emitRef_eq_ok href hn hbase hlast hfound
      rw [hmention, hobj]
      refine ⟨.single hrefs fun other hother => ?_, hspans⟩
      cases hother
      exact hlookedUp

/-- The uses of a node tell of what it mentions. -/
theorem visitUses_eq_ok {node : NodeId} {n : Node} (h : c.visitUses node n.kind s = .ok () t)
    (hn : c.program.tree.node node = .ok n)
    (hbase : PartOf c.package.pkg base s.keys) (hlast : PartOf c.package.pkg t.keys last)
    (hfound : c.Found base last) :
    TellsOf c last s t (c.program.mention? c.package s.importSpans node) := by
  cases hkind : n.kind with
  | file name decls doc comments =>
    rw [hkind] at h
    exact visitUses_file_eq_ok h hn hkind
  | importSpec name path doc comment =>
    rw [hkind] at h
    exact visitUses_importSpec_eq_ok h hn hkind hbase hlast hfound
  | ident name =>
    rw [hkind] at h
    exact visitUses_ident_eq_ok h hn hkind hbase hlast hfound
  | typeSpec name type doc comment =>
    have hmention : c.program.mention? c.package s.importSpans node = none := by
      simp only [Program.mention?, hn, hkind]
    rw [hkind] at h
    unfold GraphContext.visitUses at h
    obtain ⟨_, s₁, hask, h⟩ := Emit.bind_eq_ok_iff.mp h
    obtain ⟨-, rfl⟩ := ask_eq_ok_iff.mp hask
    obtain ⟨-, rfl⟩ := pure_eq_ok_iff.mp h
    exact .nothing hmention rfl rfl
  | selectorExpr operand member =>
    have hmention : c.program.mention? c.package s.importSpans node = none := by
      simp only [Program.mention?, hn, hkind]
    rw [hkind] at h
    unfold GraphContext.visitUses at h
    dsimp only at h
    cases hselection : c.package.facts.selections.get? node with
    | none =>
      rw [hselection] at h
      obtain ⟨-, rfl⟩ := pure_eq_ok_iff.mp h
      exact .nothing hmention rfl rfl
    | some selection =>
      rw [hselection] at h
      obtain ⟨_, s₁, hask, h⟩ := Emit.bind_eq_ok_iff.mp h
      obtain ⟨-, rfl⟩ := ask_eq_ok_iff.mp hask
      cases h
      exact .nothing hmention rfl rfl
  | _ =>
    have hmention : c.program.mention? c.package s.importSpans node = none := by
      simp only [Program.mention?, hn, hkind]
    rw [hkind] at h
    unfold GraphContext.visitUses at h
    obtain ⟨-, rfl⟩ := pure_eq_ok_iff.mp h
    exact .nothing hmention rfl rfl

/-! ## Walks -/

/-- What is mentioned comes from the first node, and then from the others, which know of its place
if it is an import without a name. -/
theorem mentionsFrom_cons (p : Program) (k : CheckedPackage) (imports : List (FileId × Span))
    (node : NodeId) (rest : List NodeId) :
    p.mentionsFrom k imports (node :: rest) = (p.mention? k imports node).toList ++
      p.mentionsFrom k (((p.mention? k imports node).bind Mention.importPlace?).toList ++ imports)
        rest := by
  rw [Program.mentionsFrom]
  cases p.mention? k imports node with
  | none => rfl
  | some m => rfl

/-- Whatever is mentioned is mentioned by a node, which is read after some imports. -/
theorem exists_mention?_of_mem {p : Program} {k : CheckedPackage}
    {imports : List (FileId × Span)} {nodes : List NodeId} {m : Mention}
    (h : m ∈ p.mentionsFrom k imports nodes) :
    ∃ node ∈ nodes, ∃ before, p.mention? k before node = some m := by
  induction nodes generalizing imports with
  | nil => cases h
  | cons node rest ih =>
    rw [mentionsFrom_cons] at h
    rcases List.mem_append.mp h with hm | hm
    · exact ⟨node, List.mem_cons_self, imports, Option.mem_toList.mp hm⟩
    · obtain ⟨other, hother, hmention⟩ := ih hm
      exact ⟨other, List.mem_cons_of_mem _ hother, hmention⟩

/-- An object is mentioned by an identifier that declares or uses it. -/
theorem mention?_eq_object {p : Program} {k : CheckedPackage} {imports : List (FileId × Span)}
    {node : NodeId} {m : Mention} {obj : ObjectId} {isDef : Bool}
    (h : p.mention? k imports node = some m) (hnamed : m.named = .object obj isDef) :
    ∃ n name, p.tree.node node = .ok n ∧ n.kind = .ident name ∧ name ≠ "_" ∧
      k.facts.objectOf? node = some obj ∧
      isDef = (k.facts.isDef node && !p.isPackageName obj) ∧
      m.file = n.file ∧ m.range = n.range := by
  unfold Program.mention? at h
  cases hn : p.tree.node node with
  | error f => rw [hn] at h; cases h
  | ok n =>
    rw [hn] at h
    dsimp only at h
    split at h
    · split at h
      · cases h
        cases hnamed
      · cases h
    · obtain ⟨_, -, rfl⟩ := Option.map_eq_some_iff.mp h
      cases hnamed
    · rename_i name hkind
      split at h
      · cases h
      · rename_i hpassed
        obtain ⟨_, hobj, rfl⟩ := Option.map_eq_some_iff.mp h
        cases hnamed
        exact ⟨n, name, rfl, hkind, fun hblank => hpassed (.inl hblank), hobj, rfl, rfl, rfl⟩
    · cases h

/-- If all that identifiers mention can be keyed, whatever they mention has a key. -/
theorem Tells.keyed {nodes : List NodeId}
    (h : Tells c last s t (c.program.mentions c.package nodes)) (hc : c.Keyed) :
    ∀ m ∈ c.program.mentions c.package nodes, ∀ obj isDef, m.named = .object obj isDef →
      (last.keyOf? c.package.pkg obj).isSome := by
  intro m hm obj isDef hnamed
  obtain ⟨node, -, _, hmention⟩ := exists_mention?_of_mem hm
  obtain ⟨_, _, -, -, -, hobj, -⟩ := mention?_eq_object hmention hnamed
  rcases h.lookedUp m hm obj (by rw [hnamed]; rfl) with hsome | ⟨selected, hnone⟩
  · exact hsome
  · exact absurd hnone (hc node obj selected hobj)

/-- A visit declares the names that its node presents, and goes on with its uses. -/
theorem GraphContext.visit_cases {v : Visit} (h : c.visit v s = .ok () t) :
    ∃ n names mid, c.program.tree.node v.node = .ok n ∧
      declaredNames c.program.tree n.kind = .ok names ∧
      each (c.declare v.structName v.node) names s = .ok () mid ∧
      c.visitUses v.node n.kind mid = .ok () t := by
  obtain ⟨kind, s₁, hask, h⟩ := Emit.bind_eq_ok_iff.mp h
  obtain ⟨hkind, rfl⟩ := ask_eq_ok_iff.mp hask
  obtain ⟨names, s₁, hask, h⟩ := Emit.bind_eq_ok_iff.mp h
  obtain ⟨hnames, rfl⟩ := ask_eq_ok_iff.mp hask
  obtain ⟨_, mid, hdeclare, huses⟩ := Emit.bind_eq_ok_iff.mp h
  obtain ⟨n, hn, rfl⟩ := SyntaxTree.node_of_kind hkind
  exact ⟨n, names, mid, hn, hnames, hdeclare, huses⟩

/-- Visits after which there is no error are made one after the other. -/
theorem GraphContext.visitAll_cons_cases {v : Visit} {rest : List Visit}
    (h : c.visitAll (v :: rest) s = .ok () t) (herror : t.error = none) :
    ∃ mid, c.visit v s = .ok () mid ∧ c.visitAll rest mid = .ok () t := by
  obtain ⟨_, mid, hvisit, h⟩ := Emit.bind_eq_ok_iff.mp h
  rw [get_bind_apply] at h
  cases hmid : mid.error with
  | some e =>
    rw [hmid] at h
    obtain ⟨-, rfl⟩ := pure_eq_ok_iff.mp h
    rw [hmid] at herror
    cases herror
  | none =>
    rw [hmid] at h
    exact ⟨mid, hvisit, h⟩

/-- A visit tells of what its node mentions. -/
theorem visit_eq_ok {v : Visit} (h : c.visit v s = .ok () t)
    (hbase : PartOf c.package.pkg base s.keys) (hlast : PartOf c.package.pkg t.keys last)
    (hfound : c.Found base last) :
    TellsOf c last s t (c.program.mention? c.package s.importSpans v.node) := by
  obtain ⟨n, names, mid, hn, -, hdeclare, huses⟩ := GraphContext.visit_cases h
  -- the declarations before the uses add neither references nor imports
  have hmade : MadeOf c Change.ByDeclaration (each (c.declare v.structName v.node) names) :=
    .each (c.madeOf_declare _ _) names
  obtain ⟨hrefs, hspans⟩ := hmade.keeps_refs hdeclare
  obtain ⟨htells, himports⟩ := visitUses_eq_ok huses hn
    (hbase.trans (hmade.grows_ok hdeclare)) hlast hfound
  rw [hspans] at htells himports
  exact ⟨(Tells.nothing hrefs).append htells, himports⟩

/-- Visits without an error tell of what their nodes mention, in order. -/
theorem visitAll_eq_ok {visits : List Visit} (h : c.visitAll visits s = .ok () t)
    (herror : t.error = none) (hbase : PartOf c.package.pkg base s.keys)
    (hlast : PartOf c.package.pkg t.keys last) (hfound : c.Found base last) :
    Tells c last s t
      (c.program.mentionsFrom c.package s.importSpans (visits.map Visit.node)) := by
  induction visits generalizing s with
  | nil =>
    obtain ⟨-, rfl⟩ := pure_eq_ok_iff.mp h
    exact .nothing rfl
  | cons v rest ih =>
    obtain ⟨mid, hvisit, hrest⟩ := GraphContext.visitAll_cons_cases h herror
    obtain ⟨htells, himports⟩ := visit_eq_ok hvisit hbase
      (((c.madeOf_visitAll rest).grows_ok hrest).trans hlast) hfound
    rw [List.map_cons, mentionsFrom_cons, ← himports]
    exact htells.append (ih hrest (hbase.trans ((c.madeOf_visit v).grows_ok hvisit)))

end Steps

/-! ## Runs -/

section Runs

variable {c : GraphContext} {includeDocs : Bool} {keys : KeyStore}
  {packaged visited last : Emission}

/-- When the nodes are visited, each key that is known was known before the run or found by looking
at its object. -/
theorem Stages.found_visited (h : Stages c includeDocs keys packaged visited last) :
    c.Found keys visited.keys :=
  (c.madeOf_visitAll _).found_ok h.visitAll
    (c.madeOf_emitPackage.found_ok h.emitPackage fun _ _ hk => .inl hk)

/-- Between its stages a run loses no key, and each new one was found by looking at its object. -/
theorem Stages.found (h : Stages c includeDocs keys packaged visited last) :
    c.Found keys last.keys ∧ PartOf c.package.pkg keys packaged.keys ∧
      PartOf c.package.pkg visited.keys last.keys := by
  have hlast := madeOf_lastStage c (includeDocs && visited.error.isNone)
  exact ⟨hlast.found_ok h.document h.found_visited, c.madeOf_emitPackage.grows_ok h.emitPackage,
    hlast.grows_ok h.document⟩

/-- A run that ends in a graph tells of what its nodes mention, with the keys that are known when
all nodes are visited or later. -/
theorem Stages.tells_of_partOf {known : KeyStore}
    (h : Stages c includeDocs keys packaged visited last) (herror : visited.error = none)
    (hknown : PartOf c.package.pkg visited.keys known) (hfound : c.Found keys known) :
    Tells c known (.start keys) last (c.program.mentions c.package
      ((graphWalk c.program.tree c.package.files).visited.map Visit.node)) := by
  obtain ⟨-, hbase, -⟩ := h.found
  -- what comes before and after the visits adds no references
  obtain ⟨hbefore, hspans⟩ := c.madeOf_emitPackage.keeps_refs h.emitPackage
  have hafter := (madeOf_lastStage c (includeDocs && visited.error.isNone)).keeps
    (fun s => s.graph.refs) (fun _ _ => rfl)
    (fun change hchange s => by cases change <;> first | rfl | cases hchange) visited
  rw [endState_of_ok h.document] at hafter
  have htells := visitAll_eq_ok h.visitAll herror hbase hknown hfound
  rw [hspans] at htells
  have hall := (Tells.nothing hbefore).append (htells.append (.nothing hafter))
  rw [List.nil_append, List.append_nil] at hall
  exact hall

/-- A run that ends in a graph tells of what its nodes mention, with the keys that are known in the
end. -/
theorem Stages.tells (h : Stages c includeDocs keys packaged visited last)
    (herror : visited.error = none) :
    Tells c last.keys (.start keys) last (c.program.mentions c.package
      ((graphWalk c.program.tree c.package.files).visited.map Visit.node)) :=
  h.tells_of_partOf herror h.found.2.2 h.found.1

end Runs

/-! ## Packages whose objects have places -/

namespace Program

/-- An object of a program can be keyed while a package that `owner` describes is graphed: it
belongs to another package or to none, or is bound at or below the package's scope, or has a
position inside a finished file of the package. -/
inductive HasPlace (p : Program) (k : CheckedPackage) (owner : Package) (obj : ObjectId) : Prop
  | foreign {o : Object} : p.object obj = .ok o → o.pkg ≠ some k.pkg → HasPlace p k owner obj
  | bound {scope : ScopeId} {name : String} : p.Below owner.scope scope →
      p.Binds scope name obj → HasPlace p k owner obj
  | positioned {o : Object} {pos : Pos} {file : NodeId} {n : Node} {scope : ScopeId} :
      p.object obj = .ok o → o.pos = some pos → file ∈ k.files → p.tree.node file = .ok n →
      n.file = pos.file → n.range.touches pos.offset → (file, scope) ∈ k.facts.scopes.entries →
      HasPlace p k owner obj

/-- Every scope that is recorded for a node of a package lies at or below the package's scope,
and every object that an identifier of the package declares or uses can be keyed. -/
structure Anchored (p : Program) (k : CheckedPackage) : Prop where
  scopes : ∀ {owner node scope}, p.package k.pkg = .ok owner →
    (node, scope) ∈ k.facts.scopes.entries → p.Below owner.scope scope
  objects : ∀ {owner ident obj}, p.package k.pkg = .ok owner →
    k.facts.objectOf? ident = some obj → p.HasPlace k owner obj

end Program

variable {p : Program} {k : CheckedPackage}

/-- In such a package no identifier mentions an object without a key. -/
theorem Program.Anchored.keyed (hk : p.Anchored k) {c : GraphContext} {labels : Labelling}
    {owner : Package} (hc : c.Of p k labels owner) : c.Keyed := by
  intro ident obj selected hident hnone
  obtain ⟨hprogram, hpackage, howned, -, hplacement, hplaces⟩ := hc
  subst hprogram hpackage
  obtain ⟨hp, hfacts, hpkg, -⟩ := PlacementContext.ofPackage_eq_ok hplacement
  have hcovered : ∀ {scope}, c.program.Below owner.scope scope →
      c.placement.Covered c.places scope := by
    intro scope hbelow
    refine PlacementContext.covered_of_placePackage hplaces ?_ (by rw [hp]; exact hbelow)
    rw [hp, hpkg]
    exact howned
  obtain ⟨o, ho, -, hown, hnone⟩ := GraphContext.objectKey?_eq_none_iff.mp hnone
  cases hk.objects howned hident with
  | foreign ho' hforeign =>
    rw [ho] at ho'
    cases ho'
    exact hforeign hown
  | bound hbelow hbinds =>
    obtain ⟨found, hfound, hmem⟩ := hbinds
    rw [← hp] at hfound
    exact PlacementContext.localPath?_ne_none_of_place
      ((hcovered hbelow).2 found hfound _ hmem) hnone
  | positioned ho' hpos _ hn hfile htouches hscope =>
    rw [← hp] at ho' hn
    rw [← hfacts] at hscope
    refine PlacementContext.localPath?_ne_none_of_pos ho' hpos hscope hn hfile htouches
      (fun node scope hentry => ?_) hnone
    rw [hfacts] at hentry
    exact (hcovered (hk.scopes howned hentry)).1

/-- **The references of a graph are what its files mention.** The nodes of a package that is
graphed are read in one order; each mention that they make in it, as far as what is mentioned
has a key, is one reference, and whatever an identifier mentions has a key. The keys are those
that were known before or were found by looking at the objects. -/
theorem refs_eq_mentions {options : GraphOptions} {keys keys' : KeyStore} {g : PackageGraph}
    (h : p.graph k options keys = (.ok (.ok g), keys')) (hk : p.Anchored k) :
    ∃ (c : GraphContext) (owner : Package) (nodes : List NodeId),
      c.Of p k options.labelling owner ∧ c.Found keys keys' ∧
      p.tree.Reads k.files nodes ∧ (∀ other, p.tree.Reads k.files other → other = nodes) ∧
      g.refs = (p.mentions k nodes).filterMap (·.ref? p owner.path (keys'.keyOf? k.pkg)) ∧
      ∀ m ∈ p.mentions k nodes, ∀ obj isDef, m.named = .object obj isDef →
        (keys'.keyOf? k.pkg obj).isSome := by
  obtain ⟨c, owner, packaged, visited, last, hc, hrun, rfl, rfl⟩ := completes_of_graph_eq_ok h
  have hkeyed := hk.keyed hc
  have hcontext := hc
  obtain ⟨hprogram, hpackage, -, hunit, -, -⟩ := hc
  subst hprogram hpackage
  have hreads := reads_graphWalk hrun.uncut
  have htells := hrun.stages.tells hrun.faultless
  refine ⟨c, owner, _, hcontext, hrun.stages.found.1, hreads,
    fun other hother => hother.unique hreads, ?_, htells.keyed hkeyed⟩
  rw [htells.refs, ← hunit]
  rfl

/-! ## Two imports -/

namespace Imports

/-- A file with two imports: the first, at bytes 0 to 3, declares without a name a variable that
stands nowhere; the second, at byte 4, is no longer than its name. -/
def program : Program where
  sources := ⟨#[⟨"p.go", ""⟩]⟩
  tree := ⟨#[⟨.ident "p", ⟨0⟩, .upTo 1, none⟩, ⟨.basicLit "\"a\"", ⟨0⟩, .upTo 3, none⟩,
    ⟨.importSpec none ⟨1⟩ none none, ⟨0⟩, .upTo 3, none⟩,
    ⟨.ident "b", ⟨0⟩, .upTo 4, none⟩, ⟨.basicLit "\"b\"", ⟨0⟩, .upTo 4, none⟩,
    ⟨.importSpec (some ⟨3⟩) ⟨4⟩ none none, ⟨0⟩, .upTo 4, none⟩,
    ⟨.genDecl .importDecl [⟨2⟩, ⟨5⟩] none, ⟨0⟩, .upTo 4, none⟩,
    ⟨.file ⟨0⟩ [⟨6⟩] none [], ⟨0⟩, .upTo 4, none⟩]⟩
  objects := #[⟨"v", .var, some ⟨0⟩, none, none, none⟩,
    ⟨"b", .package ⟨0⟩, some ⟨0⟩, some ⟨1⟩, none, none⟩]
  types := #[]
  scopes := #[⟨none, [⟨1⟩], []⟩, ⟨some ⟨0⟩, [], [("b", ⟨1⟩)]⟩]
  packages := #[⟨"p", "p", ⟨0⟩⟩]

/-- The package as it was checked. -/
def package : CheckedPackage where
  pkg := ⟨0⟩
  files := [⟨7⟩]
  facts := { Facts.empty with
    defs := ⟨[(⟨3⟩, ⟨1⟩)]⟩
    implicits := ⟨[(⟨2⟩, ⟨0⟩)]⟩
    scopes := ⟨[(⟨7⟩, ⟨1⟩)]⟩ }

/-- The scope of the file lies below the package's, and in it the import is bound that the only
recorded identifier declares. -/
theorem anchored : program.Anchored package where
  scopes howned hscope := by
    cases howned
    simp only [package, List.mem_singleton, Prod.mk.injEq] at hscope
    obtain ⟨-, rfl⟩ := hscope
    exact .child .refl ⟨_, rfl, List.mem_singleton_self _⟩
  objects {owner ident obj} howned hident := by
    cases howned
    obtain rfl : obj = ⟨1⟩ := by
      unfold Facts.objectOf? at hident
      simp only [package, Table.get?, Table.find?, Facts.empty, Table.empty] at hident
      split at hident
      · cases hident
        rfl
      · cases hident
    exact .bound (.child .refl ⟨_, rfl, List.mem_singleton_self _⟩)
      ⟨_, rfl, List.mem_singleton_self _⟩

/-- The file is read in this order. -/
theorem reads : program.tree.Reads package.files [⟨7⟩, ⟨0⟩, ⟨6⟩, ⟨2⟩, ⟨1⟩, ⟨5⟩, ⟨3⟩, ⟨4⟩] :=
  reads_graphWalk rfl

/-- The package is graphed, with a reference to itself and one at the name of its second
`import`. -/
theorem graph_eq_ok : ∃ g keys, program.graph package .standard .empty = (.ok (.ok g), keys) ∧
    g.refs = [⟨"p", "p.go", ⟨0, 1⟩, .ofPackage "p", false⟩,
      ⟨"p", "p.go", ⟨0, 4⟩, .ofPackage "p", false⟩] := by
  have hrun : (program.graph package .standard .empty).1.graph?.map PackageGraph.refs =
      some [⟨"p", "p.go", ⟨0, 1⟩, .ofPackage "p", false⟩,
        ⟨"p", "p.go", ⟨0, 4⟩, .ofPackage "p", false⟩] := by decide +kernel
  exact exists_graph_eq_of_graph? hrun

end Imports

/-- The references of the sample are what it mentions. -/
theorem refs_eq_mentions_imports :
    ∃ g keys, Imports.program.graph Imports.package .standard .empty = (.ok (.ok g), keys) ∧
      Imports.program.Anchored Imports.package ∧
      g.refs = (Imports.program.mentions Imports.package
        [⟨7⟩, ⟨0⟩, ⟨6⟩, ⟨2⟩, ⟨1⟩, ⟨5⟩, ⟨3⟩, ⟨4⟩]).filterMap
          (·.ref? Imports.program "p" (keys.keyOf? ⟨0⟩)) := by
  obtain ⟨g, keys, hgraph, -⟩ := Imports.graph_eq_ok
  obtain ⟨c, owner, nodes, hc, -, -, hunique, hrefs, -⟩ := refs_eq_mentions hgraph Imports.anchored
  cases hc.owned
  obtain rfl := hunique _ Imports.reads
  exact ⟨g, keys, hgraph, Imports.anchored, hrefs⟩

/-- An import without a name makes no reference if its object has no key, and an identifier that
stands where an import with a name does makes one. -/
theorem exists_import_without_ref :
    Imports.program.tree.ChildrenFirst ∧ Imports.program.Anchored Imports.package ∧
    Imports.program.tree.Reads Imports.package.files
      [⟨7⟩, ⟨0⟩, ⟨6⟩, ⟨2⟩, ⟨1⟩, ⟨5⟩, ⟨3⟩, ⟨4⟩] ∧
    ∃ g keys, Imports.program.graph Imports.package .standard .empty = (.ok (.ok g), keys) ∧
    (∃ n name path doc comment, Imports.program.tree.node ⟨2⟩ = .ok n ∧
      n.kind = .importSpec name path doc comment ∧
      Imports.package.facts.implicits.get? ⟨2⟩ = some ⟨0⟩ ∧
      ∀ r ∈ g.refs, r.span ≠ n.range.span) ∧
    ∃ spec ident name path doc comment, Imports.program.tree.node ⟨5⟩ = .ok spec ∧
      spec.kind = .importSpec name path doc comment ∧
      Imports.program.tree.node ⟨3⟩ = .ok ident ∧ ident.file = spec.file ∧
      ident.range = spec.range ∧ ∃ r ∈ g.refs, r.span = ident.range.span := by
  obtain ⟨g, keys, hgraph, hrefs⟩ := Imports.graph_eq_ok
  refine ⟨by decide, Imports.anchored, Imports.reads, g, keys, hgraph,
    ⟨_, _, _, _, _, rfl, rfl, rfl, ?_⟩, ⟨_, _, _, _, _, _, rfl, rfl, rfl, rfl, rfl, ?_⟩⟩
  · rw [hrefs]
    decide
  · rw [hrefs]
    decide

end SymbolGraph
