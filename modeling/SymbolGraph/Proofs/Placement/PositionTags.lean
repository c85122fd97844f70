import SymbolGraph.Proofs.Placement.Fallback
import SymbolGraph.Proofs.Placement.ManyFiles
import SymbolGraph.Proofs.Program.Answers
import SymbolGraph.Proofs.Syntax.ReadingOrder

/-!
# Positions as parts of names

An object that the walk does not reach is named by its name and its position, and so is the scope of
a function called `init`: a dollar sign, the file's name without extension, and the offset, with
nothing between the last two. Where no file's name goes on like another one's with digits, both
parts can be read off (`positionTag_injective`), and different positions give different names
(`paths_and_labels_apart`).

A sample of two files shows what the condition is for: byte 112 of `a.go` and byte 12 of `a1.go`
have one name (`exists_same_path_and_label`).
-/

namespace SymbolGraph

open Text PlacementContext

/-! ## Files and the nodes in them -/

namespace Program

variable {p : Program} {k : CheckedPackage}

/-- A file is that of a finished file node of a package. -/
def OwnsFile (p : Program) (k : CheckedPackage) (file : FileId) : Prop :=
  ∃ node ∈ k.files, p.tree.file node = .ok file

/-- The name of a file without extension is not that of another one, nor does it go on like it with
digits. -/
def StemsApart (p : Program) (k : CheckedPackage) : Prop :=
  ∀ {a b : FileId}, p.OwnsFile k a → p.OwnsFile k b → a ≠ b →
    ∀ digits : List Char, (∀ d ∈ digits, d.isDigit) →
      (p.sources.strippedName a).toList ≠ (p.sources.strippedName b).toList ++ digits

/-- The nodes with scopes exist; among them are the finished files of the package, whose scopes lie
below that of the package and which are longer than all others in them. -/
structure FilesWidest (p : Program) (k : CheckedPackage) (top : ScopeId) : Prop where
  exist : ∀ {node scope}, (node, scope) ∈ k.facts.scopes.entries → ∃ n, p.tree.node node = .ok n
  recorded : ∀ {file}, file ∈ k.files → ∃ scope, (file, scope) ∈ k.facts.scopes.entries
  below : ∀ {file scope}, file ∈ k.files → (file, scope) ∈ k.facts.scopes.entries →
    p.Below top scope
  shorter : ∀ {file n node m scope}, file ∈ k.files → p.tree.node file = .ok n →
    (node, scope) ∈ k.facts.scopes.entries → node ≠ file → p.tree.node node = .ok m →
    m.file = n.file → m.range.length < n.range.length

/-- A position lies inside a finished file of a package. -/
def StandsInside (p : Program) (k : CheckedPackage) (pos : Pos) : Prop :=
  ∃ file ∈ k.files, ∃ n, p.tree.node file = .ok n ∧ n.file = pos.file ∧
    n.range.touches pos.offset

/-- A position inside a file of the package is in one of its files. -/
theorem StandsInside.ownsFile {pos : Pos} (h : p.StandsInside k pos) : p.OwnsFile k pos.file := by
  obtain ⟨file, hfile, n, hn, hpos, -⟩ := h
  refine ⟨file, hfile, ?_⟩
  unfold SyntaxTree.file
  rw [hn, ← hpos]
  rfl

/-- A scope is that of a function without receiver which an identifier at a position, in a file of
the package, declares under the name `init`. -/
structure InitScope (p : Program) (k : CheckedPackage) (scope : ScopeId) (pos : Pos) : Prop where
  inside : p.OwnsFile k pos.file
  origin : ∃ type, (type, scope) ∈ k.facts.scopes.entries
  declared : ∃ name n, p.tree.node name = .ok n ∧ n.kind = .ident "init" ∧
    pos = ⟨n.file, n.range.start⟩ ∧
    ∀ {type}, (type, scope) ∈ k.facts.scopes.entries → p.DeclaresFunc type none name
  named : ∀ {ident obj n}, (ident, obj) ∈ k.facts.defs.entries → p.OwnsScope obj scope →
    p.tree.identName? ident = .ok (some n) → n = "init"

end Program

namespace PlacementContext

variable {c : PlacementContext} {s : Placements} {p : Program} {k : CheckedPackage}
  {labels : Labelling}

/-- An object with a position inside a finished file has no place of its own; no dollar sign stands
in its name. -/
structure Unplaced (p : Program) (k : CheckedPackage) (s : Placements) (obj : ObjectId)
    (pos : Pos) : Prop where
  placeless : s.place? obj = none
  object : ∃ o, p.object obj = .ok o ∧ o.pos = some pos ∧ '$' ∉ o.name.toList
  inside : p.StandsInside k pos

/-! ## What can be read off a name -/

/-- A position is told by a dollar sign, the file's name and the offset, with nothing between the
latter two. -/
theorem toList_positionTag (c : PlacementContext) (pos : Pos) :
    (c.positionTag pos).toList = '$' :: ((c.program.sources.strippedName pos.file).toList ++
      (toString pos.offset.toNat).toList) := by
  simp [positionTag]

/-- From a name that a position follows, the position can be read off, where the names of files tell
them apart even with digits behind them. -/
theorem positionTag_injective (hstems : c.program.StemsApart k) {name name' : String}
    {pos pos' : Pos} (hname : '$' ∉ name.toList) (hname' : '$' ∉ name'.toList)
    (hfile : c.program.OwnsFile k pos.file) (hfile' : c.program.OwnsFile k pos'.file)
    (h : name ++ c.positionTag pos = name' ++ c.positionTag pos') : pos = pos' := by
  have hchars := congrArg String.toList h
  rw [String.toList_append, String.toList_append, toList_positionTag, toList_positionTag] at hchars
  have hnames : name.toList = name'.toList :=
    tail_cancel hname hname' (.inr ⟨_, rfl⟩) (.inr ⟨_, rfl⟩) hchars
  rw [hnames] at hchars
  have hrest := List.tail_eq_of_cons_eq (List.append_cancel_left hchars)
  obtain ⟨file, offset⟩ := pos
  obtain ⟨file', offset'⟩ := pos'
  obtain rfl : file = file' := by
    refine Decidable.byContradiction fun hne => ?_
    exact append_digits_cancel (hstems hfile hfile' hne) (hstems hfile' hfile (Ne.symm hne)) hrest
  have hoffset := Word.toString_injective (List.append_cancel_left hrest)
  exact congrArg (Pos.mk file) (UInt32.toNat_inj.mp hoffset)

/-! ## Objects without a place -/

/-- Around a position inside a file whose node is longer than all others with scopes, the widest
scope is one that this node was recorded for. -/
theorem widestScopeAt?_eq_of_shorter {pos : Pos} {file : NodeId} {n : Node} {scope : ScopeId}
    {around : Option ScopeId} (h : c.widestScopeAt? pos = .ok around)
    (hmem : (file, scope) ∈ c.facts.scopes.entries) (hn : c.program.tree.node file = .ok n)
    (hfile : n.file = pos.file) (htouches : n.range.touches pos.offset)
    (hshorter : ∀ {node m scope}, (node, scope) ∈ c.facts.scopes.entries → node ≠ file →
      c.program.tree.node node = .ok m → m.file = n.file → m.range.length < n.range.length) :
    ∃ widest, around = some widest ∧ (file, widest) ∈ c.facts.scopes.entries := by
  obtain ⟨node, m, widest, rfl, hentry, hm, hmfile, hlongest⟩ :=
    widestScopeAt?_eq_ok h hmem hn hfile htouches
  refine ⟨widest, rfl, ?_⟩
  by_cases heq : node = file
  · exact heq ▸ hentry
  · have hlt := hshorter hentry heq hm (hmfile.trans hfile.symm)
    have hle := hlongest hmem hn hfile htouches
    omega

/-- An object without a place has a path, which ends with its name and its position. -/
theorem localPath?_of_unplaced {owner : Package} {obj : ObjectId} {pos : Pos}
    (hc : PlacementContext.ofPackage p k labels = .ok c) (howner : p.package k.pkg = .ok owner)
    (hs : c.placePackage .empty = .ok s) (hwide : p.FilesWidest k owner.scope)
    (h : Unplaced p k s obj pos) :
    ∃ (base : DefPath) (name : String), '$' ∉ name.toList ∧
      c.localPath? s obj = .ok (some (base ++ [name ++ c.positionTag pos])) := by
  obtain ⟨rfl, hfacts, hpkg, -⟩ := ofPackage_eq_ok hc
  obtain ⟨o, ho, hpos, hname⟩ := h.object
  obtain ⟨file, hfile, n, hn, hnfile, htouches⟩ := h.inside
  obtain ⟨scope, hscope⟩ := hwide.recorded hfile
  rw [← hfacts] at hscope
  obtain ⟨around, haround, -⟩ : Answered (c.widestScopeAt? pos) := by
    refine (Answers.filterMapM fun ⟨node, scope⟩ hentry => ?_).bind fun _ _ => .pure trivial
    rw [hfacts] at hentry
    obtain ⟨m, hm⟩ := hwide.exist hentry
    exact ⟨_, bind_eq_ok_iff.mpr ⟨m, hm, rfl⟩, trivial⟩
  obtain ⟨widest, rfl, hwidest⟩ := widestScopeAt?_eq_of_shorter haround hscope hn hnfile htouches
    fun hentry => hwide.shorter hfile hn (hfacts ▸ hentry)
  have hcovered := covered_of_placePackage hs (hpkg ▸ howner)
    (hwide.below hfile (hfacts ▸ hwidest))
  obtain ⟨base, hbase⟩ := Option.isSome_iff_exists.mp hcovered.1
  refine ⟨base, o.name, hname, ?_⟩
  unfold localPath?
  simp only [h.placeless, ho, hpos, haround, hbase, bind, Except.bind, Option.some_or,
    Option.map_some, Option.getD_some]
  rfl

/-! ## Functions called `init` -/

/-- The scope of a function called `init` is labelled by this name and its position. -/
theorem scopeLabel?_of_initScope {scope : ScopeId} {pos : Pos}
    (hc : PlacementContext.ofPackage p k labels = .ok c) (h : p.InitScope k scope pos) :
    c.scopeLabel? scope = .ok (some ["init" ++ c.positionTag pos]) := by
  obtain ⟨rfl, -, -, horigins⟩ := ofPackage_eq_ok hc
  obtain ⟨name, n, hn, hkind, rfl, hdeclared⟩ := h.declared
  obtain ⟨type, htype⟩ : ∃ type, c.origins.node? scope = some type := by
    obtain ⟨type, hmem⟩ := h.origin
    exact Option.isSome_iff_exists.mp (ScopeOrigins.isSome_node? horigins hmem)
  have hproper : c.properFuncName? scope = none := by
    unfold properFuncName?
    cases hfunc : c.origins.funcName? scope with
    | none => rfl
    | some funcName =>
      obtain ⟨ident, obj, hmem, howns, hident⟩ := ScopeOrigins.declares_of_funcName? horigins hfunc
      rw [Option.bind_some, if_pos (h.named hmem howns hident)]
  obtain ⟨m, params, results, decl, own, body, doc, hm, hmkind, hparent, hdecl⟩ :=
    hdeclared (ScopeOrigins.mem_of_node? horigins htype)
  have hident : c.program.tree.identName? name = .ok (some "init") := by
    unfold SyntaxTree.identName?
    rw [hn]
    show Except.ok n.kind.identName? = _
    rw [hkind]
    rfl
  have hfile : c.program.tree.file name = .ok n.file := by
    unfold SyntaxTree.file
    rw [hn]
    rfl
  have hrange : c.program.tree.range name = .ok n.range := by
    unfold SyntaxTree.range
    rw [hn]
    rfl
  have hlabel : c.declLabel none name = .ok ["init" ++ c.positionTag ⟨n.file, n.range.start⟩] := by
    unfold declLabel
    simp only [hident, hfile, hrange, bind, Except.bind, pure, Except.pure, Option.getD_some,
      if_true, Option.toList_none, List.nil_append]
  unfold scopeLabel?
  simp only [htype, SyntaxTree.kind_of_node hm, hmkind, hproper, hm, hparent, hdecl, hlabel, bind,
    Except.bind]
  rfl

/-! ## Different positions -/

/-- **Different positions give different names.** Where the names of a package's files tell them
apart even with digits behind them, two objects without places at different positions inside the
files have paths, and these differ; and so do the labels of the scopes of two functions called
`init`, whose names stand at different positions. -/
theorem paths_and_labels_apart {owner : Package}
    (hc : PlacementContext.ofPackage p k labels = .ok c) (howner : p.package k.pkg = .ok owner)
    (hs : c.placePackage .empty = .ok s) (hwide : p.FilesWidest k owner.scope)
    (hstems : p.StemsApart k) :
    (∀ a b pos pos', Unplaced p k s a pos → Unplaced p k s b pos' → pos ≠ pos' →
      ∃ path path', c.localPath? s a = .ok (some path) ∧ c.localPath? s b = .ok (some path') ∧
        path ≠ path') ∧
    ∀ x y pos pos', p.InitScope k x pos → p.InitScope k y pos' → pos ≠ pos' →
      ∃ label label', c.scopeLabel? x = .ok (some label) ∧ c.scopeLabel? y = .ok (some label') ∧
        label ≠ label' := by
  obtain ⟨hprogram, -⟩ := id (ofPackage_eq_ok hc)
  constructor
  · intro a b pos pos' ha hb hne
    obtain ⟨base, name, hname, hpath⟩ := localPath?_of_unplaced hc howner hs hwide ha
    obtain ⟨base', name', hname', hpath'⟩ := localPath?_of_unplaced hc howner hs hwide hb
    refine ⟨_, _, hpath, hpath', fun heq => hne ?_⟩
    -- the last components carry the positions
    have hlast := (List.append_inj' heq rfl).2
    subst hprogram
    exact positionTag_injective hstems hname hname' ha.inside.ownsFile hb.inside.ownsFile
      (List.head_eq_of_cons_eq hlast)
  · intro x y pos pos' hx hy hne
    refine ⟨_, _, scopeLabel?_of_initScope hc hx, scopeLabel?_of_initScope hc hy,
      fun heq => hne ?_⟩
    subst hprogram
    exact positionTag_injective hstems (by decide) (by decide) hx.inside hy.inside
      (List.head_eq_of_cons_eq heq)

end PlacementContext

/-! ### Two files -/

/-- How the second file of the package below is called. -/
inductive Naming where
  /-- It is called `b.go`. -/
  | apart
  /-- It is called `a1.go`, which without extension is the name of the first file and a digit. -/
  | digit
  deriving DecidableEq

namespace Naming

/-- The name of the second file. -/
def secondName : Naming → String
  | .apart => "b.go"
  | .digit => "a1.go"

/-- A package of two files, `a.go` and another one. Each has a function `init`, at bytes 150 and 50,
and a field `x` of a struct type in an expression, at bytes 112 and 12. -/
def program (l : Naming) : Program where
  sources := ⟨#[⟨"a.go", ""⟩, ⟨l.secondName, ""⟩]⟩
  tree := ⟨#[⟨.ident "p", ⟨0⟩, .upTo 1, some ⟨5⟩⟩,
    ⟨.ident "init", ⟨0⟩, ⟨150, 154, by decide⟩, some ⟨4⟩⟩,
    ⟨.fieldList [], ⟨0⟩, ⟨154, 156, by decide⟩, some ⟨3⟩⟩,
    ⟨.funcType ⟨2⟩ none, ⟨0⟩, ⟨145, 156, by decide⟩, some ⟨4⟩⟩,
    ⟨.funcDecl none ⟨1⟩ ⟨3⟩ none none, ⟨0⟩, ⟨145, 160, by decide⟩, some ⟨5⟩⟩,
    ⟨.file ⟨0⟩ [⟨4⟩] none [], ⟨0⟩, .upTo 160, none⟩,
    ⟨.ident "p", ⟨1⟩, .upTo 1, some ⟨11⟩⟩, ⟨.ident "init", ⟨1⟩, ⟨50, 54, by decide⟩, some ⟨10⟩⟩,
    ⟨.fieldList [], ⟨1⟩, ⟨54, 56, by decide⟩, some ⟨9⟩⟩,
    ⟨.funcType ⟨8⟩ none, ⟨1⟩, ⟨45, 56, by decide⟩, some ⟨10⟩⟩,
    ⟨.funcDecl none ⟨7⟩ ⟨9⟩ none none, ⟨1⟩, ⟨45, 60, by decide⟩, some ⟨11⟩⟩,
    ⟨.file ⟨6⟩ [⟨10⟩] none [], ⟨1⟩, .upTo 60, none⟩]⟩
  objects := #[⟨"init", .func (some ⟨4⟩), some ⟨0⟩, none, some ⟨⟨0⟩, 150⟩, none⟩,
    ⟨"init", .func (some ⟨5⟩), some ⟨0⟩, none, some ⟨⟨1⟩, 50⟩, none⟩,
    ⟨"x", .field false, some ⟨0⟩, none, some ⟨⟨0⟩, 112⟩, none⟩,
    ⟨"x", .field false, some ⟨0⟩, none, some ⟨⟨1⟩, 12⟩, none⟩]
  types := #[.struct [⟨2⟩], .struct [⟨3⟩]]
  scopes := #[⟨none, [⟨1⟩], []⟩, ⟨some ⟨0⟩, [⟨2⟩, ⟨3⟩], []⟩, ⟨some ⟨1⟩, [⟨4⟩], []⟩,
    ⟨some ⟨1⟩, [⟨5⟩], []⟩, ⟨some ⟨2⟩, [], []⟩, ⟨some ⟨3⟩, [], []⟩]
  packages := #[⟨"p", "p", ⟨1⟩⟩]

/-- The package as it was checked. -/
def package : CheckedPackage where
  pkg := ⟨0⟩
  files := [⟨5⟩, ⟨11⟩]
  facts := { Facts.empty with
    defs := ⟨[(⟨1⟩, ⟨0⟩), (⟨7⟩, ⟨1⟩)]⟩
    scopes := ⟨[(⟨3⟩, ⟨4⟩), (⟨5⟩, ⟨2⟩), (⟨9⟩, ⟨5⟩), (⟨11⟩, ⟨3⟩)]⟩ }

variable (l : Naming)

/-- What the files are called without extension. -/
theorem strippedName_eq : l.program.sources.strippedName ⟨0⟩ = "a" ∧
    l.program.sources.strippedName ⟨1⟩ = match l with
      | .apart => "b"
      | .digit => "a1" := by
  cases l <;> decide

/-- The sample has two files. -/
theorem eq_of_ownsFile {file : FileId} (h : l.program.OwnsFile package file) :
    file = ⟨0⟩ ∨ file = ⟨1⟩ := by
  obtain ⟨node, hnode, hfile⟩ := h
  rcases List.mem_cons.mp hnode with rfl | hnode
  · cases hfile
    exact .inl rfl
  · cases List.mem_singleton.mp hnode
    cases hfile
    exact .inr rfl

/-- In the sample nothing is as wide as the files. -/
theorem filesWidest : l.program.FilesWidest package ⟨1⟩ where
  exist h := by
    simp only [package, List.mem_cons, Prod.mk.injEq, List.not_mem_nil, or_false] at h
    rcases h with ⟨rfl, -⟩ | ⟨rfl, -⟩ | ⟨rfl, -⟩ | ⟨rfl, -⟩ <;> exact ⟨_, rfl⟩
  recorded h := by
    rcases List.mem_cons.mp h with rfl | h
    · exact ⟨⟨2⟩, by decide⟩
    · cases List.mem_singleton.mp h
      exact ⟨⟨3⟩, by decide⟩
  below hfile h := by
    have hall : ∀ x ∈ package.facts.scopes.entries, x.1 ∈ package.files →
        x.2 = ⟨2⟩ ∨ x.2 = ⟨3⟩ := by decide
    rcases hall _ h hfile with rfl | rfl <;> exact .child .refl ⟨_, rfl, by cases l <;> decide⟩
  shorter hfile hn h hne hm heq := by
    simp only [package, List.mem_cons, Prod.mk.injEq, List.not_mem_nil, or_false] at h hfile
    rcases hfile with rfl | rfl <;> cases hn <;>
      rcases h with ⟨rfl, -⟩ | ⟨rfl, -⟩ | ⟨rfl, -⟩ | ⟨rfl, -⟩ <;> cases hm <;>
        first | exact absurd rfl hne | (cases l <;> first | decide | cases heq)

/-- The names `a` and `b` do not go on like one another. -/
theorem stemsApart : Naming.apart.program.StemsApart package := by
  intro a b ha hb hne digits hdigits
  rcases eq_of_ownsFile _ ha with rfl | rfl <;> rcases eq_of_ownsFile _ hb with rfl | rfl
  · exact absurd rfl hne
  · rw [(strippedName_eq .apart).1, (strippedName_eq .apart).2]
    exact fun heq => absurd (List.head_eq_of_cons_eq heq) (by decide)
  · rw [(strippedName_eq .apart).1, (strippedName_eq .apart).2]
    exact fun heq => absurd (List.head_eq_of_cons_eq heq) (by decide)
  · exact absurd rfl hne

/-- Where the function `init` of the file of number `i` is declared. -/
def initPos : Fin 2 → Pos
  | 0 => ⟨⟨0⟩, 150⟩
  | 1 => ⟨⟨1⟩, 50⟩

/-- The name of the function `init` of the file of number `i`. -/
theorem exists_initName (i : Fin 2) : ∃ n, l.program.tree.node ⟨6 * i + 1⟩ = .ok n ∧
    n.kind = .ident "init" ∧ initPos i = ⟨n.file, n.range.start⟩ := by
  match i with
  | 0 | 1 => exact ⟨_, rfl, rfl, rfl⟩

/-- The function `init` of the file of number `i` is no method. -/
theorem declaresFunc (i : Fin 2) : l.program.DeclaresFunc ⟨6 * i + 3⟩ none ⟨6 * i + 1⟩ := by
  match i with
  | 0 | 1 => exact ⟨_, _, _, _, _, _, _, rfl, rfl, rfl, rfl⟩

/-- The scope of the function `init` of the file of number `i`. -/
theorem initScope (i : Fin 2) : l.program.InitScope package ⟨i + 4⟩ (initPos i) where
  inside := by
    match i with
    | 0 => exact ⟨⟨5⟩, by decide, rfl⟩
    | 1 => exact ⟨⟨11⟩, by decide, rfl⟩
  origin := ⟨⟨6 * i + 3⟩, by decide +revert⟩
  declared := by
    have hall : ∀ i : Fin 2, ∀ x ∈ package.facts.scopes.entries, x.2 = ⟨i + 4⟩ →
        x.1 = ⟨6 * i + 3⟩ := by decide
    obtain ⟨n, hn, hkind, hpos⟩ := l.exists_initName i
    refine ⟨⟨6 * i + 1⟩, n, hn, hkind, hpos, fun h => ?_⟩
    obtain rfl := hall i _ h rfl
    exact l.declaresFunc i
  named {ident obj n} h _ hident := by
    simp only [package, List.mem_cons, Prod.mk.injEq, List.not_mem_nil, or_false] at h
    rcases h with ⟨rfl, -⟩ | ⟨rfl, -⟩ <;> (cases hident; rfl)

/-- The walk gives neither field a place. -/
theorem exists_places : ∃ c s, ofPackage l.program package .deterministic = .ok c ∧
    c.placePackage .empty = .ok s ∧ Unplaced l.program package s ⟨2⟩ ⟨⟨0⟩, 112⟩ ∧
    Unplaced l.program package s ⟨3⟩ ⟨⟨1⟩, 12⟩ ∧
    c.localPath? s ⟨2⟩ = .ok (some ["x" ++ c.positionTag ⟨⟨0⟩, 112⟩]) ∧
    c.localPath? s ⟨3⟩ = .ok (some ["x" ++ c.positionTag ⟨⟨1⟩, 12⟩]) := by
  cases l <;> exact ⟨_, _, rfl, rfl,
    ⟨rfl, ⟨_, rfl, rfl, by decide⟩, ⟨5⟩, by decide, _, rfl, rfl, rfl⟩,
    ⟨rfl, ⟨_, rfl, rfl, by decide⟩, ⟨11⟩, by decide, _, rfl, rfl, rfl⟩, rfl, rfl⟩

end Naming

/-- In the sample, with a name for the second file that does not go on like that of the first, both
fields have paths and both functions have labels, and these differ. -/
theorem paths_and_labels_apart_naming : ∃ c s,
    PlacementContext.ofPackage Naming.apart.program Naming.package .deterministic = .ok c ∧
      c.placePackage .empty = .ok s ∧
      (∃ path path', c.localPath? s ⟨2⟩ = .ok (some path) ∧
        c.localPath? s ⟨3⟩ = .ok (some path') ∧ path ≠ path') ∧
      ∃ label label', c.scopeLabel? ⟨4⟩ = .ok (some label) ∧
        c.scopeLabel? ⟨5⟩ = .ok (some label') ∧ label ≠ label' := by
  obtain ⟨c, s, hc, hs, ha, hb, -⟩ := Naming.apart.exists_places
  obtain ⟨hpaths, hlabels⟩ := PlacementContext.paths_and_labels_apart hc rfl hs
    Naming.apart.filesWidest Naming.stemsApart
  exact ⟨c, s, hc, hs, hpaths _ _ _ _ ha hb (by decide),
    hlabels _ _ _ _ (Naming.apart.initScope 0) (Naming.apart.initScope 1) (by decide)⟩

/-- Where a file's name goes on like another one's with a digit, two fields without places at
different positions have one path, and the scopes of two functions called `init` have one label. It
is not enough that the names differ and have no dollar sign in them. -/
theorem exists_same_path_and_label :
    Naming.digit.program.FilesWidest Naming.package ⟨1⟩ ∧
    (∀ a b, Naming.digit.program.OwnsFile Naming.package a →
      Naming.digit.program.OwnsFile Naming.package b → a ≠ b →
        '$' ∉ (Naming.digit.program.sources.strippedName a).toList ∧
        Naming.digit.program.sources.strippedName a ≠
          Naming.digit.program.sources.strippedName b) ∧
    ∃ c s, PlacementContext.ofPackage Naming.digit.program Naming.package .deterministic = .ok c ∧
      c.placePackage .empty = .ok s ∧
      (∃ a b pos pos' path, PlacementContext.Unplaced Naming.digit.program Naming.package s a pos ∧
        PlacementContext.Unplaced Naming.digit.program Naming.package s b pos' ∧ pos ≠ pos' ∧
        c.localPath? s a = .ok (some path) ∧ c.localPath? s b = .ok (some path)) ∧
      ∃ x y pos pos' label, Naming.digit.program.InitScope Naming.package x pos ∧
        Naming.digit.program.InitScope Naming.package y pos' ∧ pos ≠ pos' ∧
        c.scopeLabel? x = .ok (some label) ∧ c.scopeLabel? y = .ok (some label) := by
  obtain ⟨c, s, hc, hs, ha, hb, hpath, hpath'⟩ := Naming.digit.exists_places
  obtain ⟨hprogram, -⟩ := PlacementContext.ofPackage_eq_ok hc
  have hfirst := (Naming.strippedName_eq .digit).1
  have hsecond := (Naming.strippedName_eq .digit).2
  have hfield : c.positionTag ⟨⟨0⟩, 112⟩ = c.positionTag ⟨⟨1⟩, 12⟩ := by
    unfold PlacementContext.positionTag
    rw [hprogram, hfirst, hsecond]
    decide
  have hinit : c.positionTag (Naming.initPos 0) = c.positionTag (Naming.initPos 1) := by
    change c.positionTag ⟨⟨0⟩, 150⟩ = c.positionTag ⟨⟨1⟩, 50⟩
    unfold PlacementContext.positionTag
    rw [hprogram, hfirst, hsecond]
    decide
  have hlabel := PlacementContext.scopeLabel?_of_initScope hc (Naming.digit.initScope 0)
  have hlabel' := PlacementContext.scopeLabel?_of_initScope hc (Naming.digit.initScope 1)
  rw [← hfield] at hpath'
  rw [← hinit] at hlabel'
  refine ⟨Naming.digit.filesWidest, fun a b ha hb hne => ?_, c, s, hc, hs,
    ⟨_, _, _, _, _, ha, hb, by decide, hpath, hpath'⟩,
    ⟨_, _, _, _, _, Naming.digit.initScope 0, Naming.digit.initScope 1, by decide,
      hlabel, hlabel'⟩⟩
  rcases Naming.eq_of_ownsFile _ ha with rfl | rfl <;>
    rcases Naming.eq_of_ownsFile _ hb with rfl | rfl
  · exact absurd rfl hne
  · rw [hfirst, hsecond]
    decide
  · rw [hfirst, hsecond]
    decide
  · exact absurd rfl hne

end SymbolGraph
