import SymbolGraph.Proofs.Program.Assembled
import SymbolGraph.Proofs.Program.Calls
import SymbolGraph.Proofs.Syntax.Allocation

/-!
# Numbers that stand for something

A number is given out when what it stands for is there (`Number.Given`). As a program is put
together, nothing that is there gets lost (`Assembly.Keeps`), so that a number once given out stays
given (`Number.Given.mono`). A program in which every number stands for something remains one when
objects, types and scopes are added or changed that mention only numbers given out
(`Program.Closed.of_widens`).
-/

namespace SymbolGraph

open Program

/-- Packages are told apart by their numbers. -/
theorem PackageId.eq_of_index (a b : PackageId) (h : a.index = b.index) : a = b := by
  cases a
  exact congrArg PackageId.mk h

/-- Files are told apart by their numbers. -/
theorem FileId.eq_of_index (a b : FileId) (h : a.index = b.index) : a = b := by
  cases a
  exact congrArg FileId.mk h

/-! ## Given numbers -/

/-- A number stands for something. -/
def Number.Given (a : Assembly) : Number → Prop
  | .file id => id.index < a.program.sources.files.size
  | .node id => a.program.tree.HasNode id
  | .object id => a.program.HasObject id
  | .type id => a.program.HasType id
  | .scope id => a.program.HasScope id
  | .package id => a.program.HasPackage id

/-- What is in one program is in another, too: nodes stay in their files, scopes below their
parents, and packages as they are. -/
structure Program.Widens (p q : Program) : Prop where
  files : p.sources.files.size ≤ q.sources.files.size
  nodes : ∀ {node file}, p.tree.file node = .ok file → q.tree.file node = .ok file
  objects : p.objects.size ≤ q.objects.size
  types : p.types.size ≤ q.types.size
  scopes : p.scopes.size ≤ q.scopes.size
  children : ∀ {scope child}, p.HasChild scope child → q.HasChild scope child
  packages : ∀ {pkg owner}, p.package pkg = .ok owner → q.package pkg = .ok owner

/-- What is in one assembly is in another, too, and files stay with their packages. -/
structure Assembly.Keeps (a b : Assembly) : Prop extends Program.Widens a.program b.program where
  registered : ∀ {file pkg}, a.filePackages.get? file = some pkg →
    b.filePackages.get? file = some pkg

section Widening

variable {p q r : Program}

namespace Program

/-- The nodes that are there are those in a file. -/
theorem hasNode_iff_file {node : NodeId} :
    p.tree.HasNode node ↔ ∃ file, p.tree.file node = .ok file := by
  rw [SyntaxTree.hasNode_iff]
  constructor
  · rintro ⟨n, hn⟩
    exact ⟨n.file, SyntaxTree.file_eq_ok_iff.mpr ⟨n, hn, rfl⟩⟩
  · rintro ⟨file, hfile⟩
    obtain ⟨n, hn, -⟩ := SyntaxTree.file_eq_ok_iff.mp hfile
    exact ⟨n, hn⟩

/-- A package is there if its number is that of one. -/
theorem hasPackage_iff {pkg : PackageId} :
    p.HasPackage pkg ↔ ∃ owner, p.package pkg = .ok owner := by
  constructor
  · intro h
    obtain ⟨owner, howner, -⟩ := answers_package h
    exact ⟨owner, howner⟩
  · rintro ⟨owner, howner⟩
    exact (Array.getElem?_eq_some_iff.mp (fetch_eq_ok_iff.mp howner)).1

/-- A scope that is found is there. -/
theorem hasScope_of_scope {scope : ScopeId} {found : Scope} (h : p.scope scope = .ok found) :
    p.HasScope scope :=
  (Array.getElem?_eq_some_iff.mp (fetch_eq_ok_iff.mp h)).1

/-- An object that is found is there. -/
theorem hasObject_of_object {obj : ObjectId} {o : Object} (h : p.object obj = .ok o) :
    p.HasObject obj :=
  (Array.getElem?_eq_some_iff.mp (fetch_eq_ok_iff.mp h)).1

namespace Widens

/-- A program is in itself. -/
theorem refl (p : Program) : p.Widens p where
  files := Nat.le_refl _
  nodes h := h
  objects := Nat.le_refl _
  types := Nat.le_refl _
  scopes := Nat.le_refl _
  children h := h
  packages h := h

/-- What is in a program that is in another is in that one. -/
theorem trans (hpq : p.Widens q) (hqr : q.Widens r) : p.Widens r where
  files := Nat.le_trans hpq.files hqr.files
  nodes h := hqr.nodes (hpq.nodes h)
  objects := Nat.le_trans hpq.objects hqr.objects
  types := Nat.le_trans hpq.types hqr.types
  scopes := Nat.le_trans hpq.scopes hqr.scopes
  children h := hqr.children (hpq.children h)
  packages h := hqr.packages (hpq.packages h)

variable (h : p.Widens q)
include h

/-- Nodes are not lost. -/
theorem hasNode {node : NodeId} (hnode : p.tree.HasNode node) : q.tree.HasNode node := by
  obtain ⟨file, hfile⟩ := hasNode_iff_file.mp hnode
  exact hasNode_iff_file.mpr ⟨file, h.nodes hfile⟩

/-- Objects are not lost. -/
theorem hasObject {obj : ObjectId} (hobj : p.HasObject obj) : q.HasObject obj :=
  Nat.lt_of_lt_of_le hobj h.objects

/-- Types are not lost. -/
theorem hasType {type : TypeId} (htype : p.HasType type) : q.HasType type :=
  Nat.lt_of_lt_of_le htype h.types

/-- Scopes are not lost. -/
theorem hasScope {scope : ScopeId} (hscope : p.HasScope scope) : q.HasScope scope :=
  Nat.lt_of_lt_of_le hscope h.scopes

/-- Packages are not lost. -/
theorem hasPackage {pkg : PackageId} (hpkg : p.HasPackage pkg) : q.HasPackage pkg := by
  obtain ⟨owner, howner⟩ := hasPackage_iff.mp hpkg
  exact hasPackage_iff.mpr ⟨owner, h.packages howner⟩

end Widens

end Program

namespace Assembly.Keeps

variable {a b d : Assembly}

/-- An assembly is in itself. -/
theorem refl (a : Assembly) : Keeps a a := ⟨Widens.refl a.program, fun h => h⟩

/-- What is in an assembly that is in another is in that one. -/
theorem trans (hab : Keeps a b) (hbd : Keeps b d) : Keeps a d :=
  ⟨hab.toWidens.trans hbd.toWidens, fun h => hbd.registered (hab.registered h)⟩

end Assembly.Keeps

/-- A number that was given out stays given. -/
theorem Number.Given.mono {a b : Assembly} {number : Number} (hgiven : number.Given a)
    (h : a.Keeps b) : number.Given b := by
  cases number with
  | file id => exact Nat.lt_of_lt_of_le hgiven h.files
  | node id => exact h.hasNode hgiven
  | object id => exact h.hasObject hgiven
  | type id => exact h.hasType hgiven
  | scope id => exact h.hasScope hgiven
  | package id => exact h.hasPackage hgiven

end Widening

/-! ## What mentions given numbers -/

/-- Every number that an object leads to stands for something. -/
def Object.Within (p : Program) (o : Object) : Prop :=
  (∀ type ∈ o.type.toList, p.HasType type) ∧ (∀ pkg ∈ o.pkg.toList, p.HasPackage pkg) ∧
    (∀ scope ∈ o.kind.scope?.toList, p.HasScope scope) ∧
    ∀ pkg ∈ o.kind.imported?.toList, p.HasPackage pkg

/-- Every number that a type leads to stands for something. -/
def GoType.Within (p : Program) (t : GoType) : Prop :=
  (∀ part ∈ t.elems, p.HasType part) ∧ (∀ next ∈ t.standsFor?.toList, p.HasType next) ∧
    (∀ obj ∈ t.members, p.HasObject obj) ∧ ∀ obj ∈ t.owners, p.HasObject obj

/-- Every number that a scope leads to stands for something. -/
def Scope.Within (p : Program) (s : Scope) : Prop :=
  (∀ parent ∈ s.parent.toList, p.HasScope parent) ∧ (∀ child ∈ s.children, p.HasScope child) ∧
    ∀ b ∈ s.bindings, p.HasObject b.2

/-- An object that mentions only numbers given out leads to nothing that is not there. -/
theorem Object.within_of_mentions {a : Assembly} {o : Object}
    (h : ∀ id ∈ o.mentions, id.Given a) : o.Within a.program := by
  unfold mentions at h
  simp only [List.mem_append, List.mem_map, Option.mem_toList] at h
  refine ⟨fun type htype => h (.type type) ?_, fun pkg hpkg => h (.package pkg) ?_,
    fun scope hscope => h (.scope scope) ?_, fun pkg hpkg => h (.package pkg) ?_⟩
  · exact .inl (.inl (.inl ⟨type, Option.mem_toList.mp htype, rfl⟩))
  · exact .inl (.inl (.inr ⟨pkg, Option.mem_toList.mp hpkg, rfl⟩))
  · exact .inl (.inr ⟨scope, Option.mem_toList.mp hscope, rfl⟩)
  · exact .inr ⟨pkg, Option.mem_toList.mp hpkg, rfl⟩

/-- A type that mentions only numbers given out leads to nothing that is not there. -/
theorem GoType.within_of_mentions {a : Assembly} {t : GoType}
    (h : ∀ id ∈ t.mentions, id.Given a) : t.Within a.program := by
  unfold mentions at h
  simp only [List.mem_append, List.mem_map] at h
  exact ⟨fun type htype => h (.type type) (.inl ⟨type, .inl htype, rfl⟩),
    fun type htype => h (.type type) (.inl ⟨type, .inr htype, rfl⟩),
    fun obj hobj => h (.object obj) (.inr ⟨obj, .inl hobj, rfl⟩),
    fun obj hobj => h (.object obj) (.inr ⟨obj, .inr hobj, rfl⟩)⟩

section Mono

variable {p q : Program} (h : p.Widens q)
include h

/-- What an object leads to is not lost. -/
theorem Object.Within.mono {o : Object} (ho : o.Within p) : o.Within q :=
  ⟨fun type htype => h.hasType (ho.1 type htype), fun pkg hpkg => h.hasPackage (ho.2.1 pkg hpkg),
    fun scope hscope => h.hasScope (ho.2.2.1 scope hscope),
    fun pkg hpkg => h.hasPackage (ho.2.2.2 pkg hpkg)⟩

/-- What a type leads to is not lost. -/
theorem GoType.Within.mono {t : GoType} (ht : t.Within p) : t.Within q :=
  ⟨fun part hpart => h.hasType (ht.1 part hpart), fun next hnext => h.hasType (ht.2.1 next hnext),
    fun obj hobj => h.hasObject (ht.2.2.1 obj hobj),
    fun obj hobj => h.hasObject (ht.2.2.2 obj hobj)⟩

/-- What a scope leads to is not lost. -/
theorem Scope.Within.mono {s : Scope} (hs : s.Within p) : s.Within q :=
  ⟨fun parent hparent => h.hasScope (hs.1 parent hparent),
    fun child hchild => h.hasScope (hs.2.1 child hchild),
    fun b hb => h.hasObject (hs.2.2 b hb)⟩

/-- A wider program is closed if whatever is new in it mentions only what is there. -/
theorem Program.Closed.of_widens (hp : p.Closed)
    (hobjects : ∀ o ∈ q.objects.toList, o ∈ p.objects.toList ∨ o.Within q)
    (htypes : ∀ t ∈ q.types.toList, t ∈ p.types.toList ∨ t.Within q)
    (hscopes : ∀ s ∈ q.scopes.toList, s ∈ p.scopes.toList ∨ s.Within q)
    (hpackages : ∀ owner ∈ q.packages.toList,
      owner ∈ p.packages.toList ∨ q.HasScope owner.scope)
    (hfirst : q.tree.ChildrenFirst) (hadopted : q.tree.Adopted) : q.Closed where
  objects o ho := (hobjects o ho).elim (fun hold => Object.Within.mono h (hp.objects o hold)) id
  types t ht := (htypes t ht).elim (fun hold => GoType.Within.mono h (hp.types t hold)) id
  scopes s hs := (hscopes s hs).elim (fun hold => Scope.Within.mono h (hp.scopes s hold)) id
  packages owner howner :=
    (hpackages owner howner).elim (fun hold => h.hasScope (hp.packages owner hold)) id
  parents n hn parent hparent := by
    obtain ⟨i, hi⟩ := List.mem_iff_getElem?.mp hn
    rw [Array.getElem?_toList] at hi
    have hlast := (@hadopted ⟨i⟩ n (fetch_eq_ok_iff.mpr hi)).1 parent (Option.mem_toList.mp hparent)
    exact hlast.1.hasNode
  children := hfirst

end Mono

/-! ## What is there after a change -/

section Changes

variable {α : Type} {items : Array α} {x y : α} {f : α → α} {i : Nat}

/-- An item of a longer array is one of the old or the new one. -/
theorem mem_push_cases (h : x ∈ (items.push y).toList) : x ∈ items.toList ∨ x = y := by
  rw [Array.toList_push] at h
  exact (List.mem_append.mp h).imp_right List.mem_singleton.mp

/-- An item of a changed array is one of the old or what one of them was changed to. -/
theorem mem_modify_cases (h : x ∈ (items.modify i f).toList) :
    x ∈ items.toList ∨ ∃ old ∈ items.toList, x = f old := by
  obtain ⟨j, hj⟩ := List.mem_iff_getElem?.mp h
  rw [Array.getElem?_toList, Array.getElem?_modify] at hj
  have hmem : ∀ {old}, items[j]? = some old → old ∈ items.toList := by
    intro old hold
    rw [← Array.getElem?_toList] at hold
    exact List.mem_of_getElem? hold
  split at hj
  · obtain ⟨old, hold, rfl⟩ := Option.map_eq_some_iff.mp hj
    exact .inr ⟨old, hmem hold, rfl⟩
  · exact .inl (hmem hj)

end Changes

end SymbolGraph
