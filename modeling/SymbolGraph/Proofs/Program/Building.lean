import SymbolGraph.Proofs.Program.Arenas

/-!
# Programs under construction

What stays in order while a program is put together by calls (`Assembly.Sound`): besides the
references in the program itself, the facts recorded about a package are about nodes of its own
files and about things that are there, and every file has a scope below that of its package. Each
call leads from a sound assembly to a sound one, and the numbers that it gives out stand for
something (`Sound.answer`). What a user of such a program may rely on is spelled out in
`Assembly.InOrder`.
-/

namespace SymbolGraph

/-- The nodes about which something is recorded. -/
def Facts.nodes (f : Facts) : List NodeId :=
  f.defs.keys ++ f.uses.keys ++ f.implicits.keys ++ f.selections.keys ++ f.scopes.keys

namespace Assembly

open Program

variable {a b d : Assembly}

/-! ## What is recorded about a package -/

/-- A node stands in one of a package's files. -/
def Belongs (a : Assembly) (pkg : PackageId) (node : NodeId) : Prop :=
  ∃ file, a.program.tree.file node = .ok file ∧ a.filePackages.get? file = some pkg

/-- A table is about nodes in a package's files, and tells only of values of a certain kind. -/
def Holds {υ : Type} (a : Assembly) (pkg : PackageId) (valid : υ → Prop) (t : Table NodeId υ) :
    Prop :=
  ∀ e ∈ t.entries, a.Belongs pkg e.1 ∧ valid e.2

/-- What is recorded about a package is about nodes in its files and about things that are
there. -/
structure Backs (a : Assembly) (k : CheckedPackage) : Prop where
  files : ∀ node ∈ k.files, a.Belongs k.pkg node
  defs : a.Holds k.pkg a.program.HasObject k.facts.defs
  uses : a.Holds k.pkg a.program.HasObject k.facts.uses
  implicits : a.Holds k.pkg a.program.HasObject k.facts.implicits
  selections : a.Holds k.pkg (fun s : Selection => a.program.HasType s.recv) k.facts.selections
  scopes : a.Holds k.pkg a.program.HasScope k.facts.scopes

/-- A file is registered with a package and has a scope below that of the package. -/
def Houses (a : Assembly) (file : FileId) : Prop :=
  ∃ pkg scope owner, a.filePackages.get? file = some pkg ∧ a.fileScopes.get? file = some scope ∧
    a.program.package pkg = .ok owner ∧ a.program.HasChild owner.scope scope

section Recorded

variable {υ : Type} {valid valid' : υ → Prop} {t : Table NodeId υ} {pkg : PackageId}
  {node : NodeId} {v : υ} {k : CheckedPackage} {file : FileId}

/-- Nodes stay in the files of their packages. -/
theorem Belongs.mono (h : a.Keeps b) (hnode : a.Belongs pkg node) : b.Belongs pkg node := by
  obtain ⟨file, hfile, hpkg⟩ := hnode
  exact ⟨file, h.nodes hfile, h.registered hpkg⟩

/-- A node in a package's files is there. -/
theorem Belongs.hasNode (hnode : a.Belongs pkg node) : a.program.tree.HasNode node := by
  obtain ⟨file, hfile, -⟩ := hnode
  exact hasNode_iff_file.mpr ⟨file, hfile⟩

/-- What a table tells of stays valid. -/
theorem Holds.mono (h : a.Keeps b) (hvalid : ∀ v, valid v → valid' v) (ht : a.Holds pkg valid t) :
    b.Holds pkg valid' t :=
  fun e he => ⟨(ht e he).1.mono h, hvalid e.2 (ht e he).2⟩

/-- One more entry, about a node in the package's files. -/
theorem Holds.insert (ht : a.Holds pkg valid t) (hnode : a.Belongs pkg node) (hv : valid v) :
    a.Holds pkg valid (t.insert node v) := by
  intro e he
  rcases Table.mem_entries_insert he with hold | rfl
  · exact ht e hold
  · exact ⟨hnode, hv⟩

/-- What is recorded about a package stays so. -/
theorem Backs.mono (h : a.Keeps b) (hk : a.Backs k) : b.Backs k where
  files node hnode := (hk.files node hnode).mono h
  defs := hk.defs.mono h fun _ => h.hasObject
  uses := hk.uses.mono h fun _ => h.hasObject
  implicits := hk.implicits.mono h fun _ => h.hasObject
  selections := hk.selections.mono h fun _ => h.hasType
  scopes := hk.scopes.mono h fun _ => h.hasScope

/-- The nodes that a table is about are in the package's files. -/
theorem Holds.belongs (ht : a.Holds pkg valid t) (hnode : node ∈ t.keys) : a.Belongs pkg node := by
  obtain ⟨e, he, rfl⟩ := List.mem_map.mp hnode
  exact (ht e he).1

/-- All nodes about which something is recorded are in the package's files. -/
theorem Backs.belongs (hk : a.Backs k) (hnode : node ∈ k.facts.nodes) : a.Belongs k.pkg node := by
  unfold Facts.nodes at hnode
  simp only [List.mem_append] at hnode
  rcases hnode with (((h | h) | h) | h) | h
  · exact hk.defs.belongs h
  · exact hk.uses.belongs h
  · exact hk.implicits.belongs h
  · exact hk.selections.belongs h
  · exact hk.scopes.belongs h

/-- Nothing is recorded about a new package. -/
theorem backs_ofId : a.Backs (.ofId pkg) where
  files _ h := absurd h List.not_mem_nil
  defs _ h := absurd h List.not_mem_nil
  uses _ h := absurd h List.not_mem_nil
  implicits _ h := absurd h List.not_mem_nil
  selections _ h := absurd h List.not_mem_nil
  scopes _ h := absurd h List.not_mem_nil

/-- A file keeps its package and its scope. -/
theorem Houses.mono (h : a.Keeps b) (hscopes : b.fileScopes.get? file = a.fileScopes.get? file)
    (hfile : a.Houses file) : b.Houses file := by
  obtain ⟨pkg, scope, owner, hpkg, hscope, howner, hchild⟩ := hfile
  exact ⟨pkg, scope, owner, h.registered hpkg, hscopes.trans hscope, h.packages howner,
    h.children hchild⟩

end Recorded

/-! ### Files -/

/-- A program whose sources have one more file. -/
def withSource (a : Assembly) (name text : String) : Assembly :=
  { a with program := { a.program with sources := (a.program.sources.add name text).2 } }

/-- A file is registered by adding its source, a scope below that of the package, and two
entries. -/
theorem addFile_cases {pkg : PackageId} {file : FileId} {name text : String}
    (hstep : a.addFile pkg name text = .ok (file, b)) :
    ∃ parent scope next, a.packageScope pkg = .ok parent ∧
      (a.withSource name text).addScope parent = .ok (scope, next) ∧
      file = ⟨a.program.sources.files.size⟩ ∧
      b = { next with
        fileScopes := next.fileScopes.insert file scope
        filePackages := next.filePackages.insert file pkg } := by
  obtain ⟨parent, hparent, hstep⟩ := bind_eq_ok_iff.mp hstep
  obtain ⟨⟨scope, next⟩, hscope, hstep⟩ := bind_eq_ok_iff.mp hstep
  cases hstep
  exact ⟨parent, scope, next, hparent, hscope, rfl, rfl⟩

/-- The node of a whole file is made like any other, and recorded with the scope of the file. -/
theorem finishFile_cases {file : FileId} {name node : NodeId} {decls : List NodeId}
    {doc : Option CommentGroup} {comments : List CommentGroup}
    (hstep : a.finishFile file name decls doc comments = .ok (node, b)) :
    ∃ range scope next, a.fileScope file = .ok scope ∧
      a.addNode file range (.file name decls doc comments) = (node, next) ∧
      next.changePackage file (fun p => { p with
        files := p.files ++ [node]
        facts := { p.facts with scopes := p.facts.scopes.insert node scope } }) = .ok b := by
  obtain ⟨scope, hscope, hstep⟩ := bind_eq_ok_iff.mp hstep
  obtain ⟨last, hlast, hstep⟩ := bind_eq_ok_iff.mp hstep
  cases hstep
  exact ⟨_, scope, _, hscope, rfl, hlast⟩

/-! ## Sound assemblies -/

/-- References are in order, packages have the number of their place, what is recorded about them is
about their own nodes, and exactly the files of the program are housed. -/
structure Sound (a : Assembly) : Prop where
  fit : a.program.Fit
  size : a.packages.size = a.program.packages.size
  backed : ∀ {i k}, fetch a.packages i = .ok k → k.pkg.index = i ∧ a.Backs k
  housed : ∀ {file : FileId}, file.index < a.program.sources.files.size → a.Houses file
  fresh : ∀ {file : FileId}, a.program.sources.files.size ≤ file.index →
    a.fileScopes.get? file = none ∧ a.filePackages.get? file = none

/-- A step leads to a sound assembly in which nothing is lost and certain numbers stand for
something. -/
structure Yields (a : Assembly) (ids : List Number) (b : Assembly) : Prop where
  sound : b.Sound
  keeps : a.Keeps b
  given : ∀ id ∈ ids, id.Given b

/-- A step may be followed by another that gives out no number. -/
theorem Yields.andThen {ids : List Number} (hab : a.Yields ids b) (hbd : b.Yields [] d) :
    a.Yields ids d :=
  ⟨hbd.sound, hab.keeps.trans hbd.keeps, fun id hid => (hab.given id hid).mono hbd.keeps⟩

namespace Sound

variable {file : FileId} {pkg : PackageId} {node : NodeId}

/-- What only adds to the arenas of the program keeps an assembly sound. -/
theorem of_adds (ha : a.Sound) (h : a.Adds b) : b.Sound where
  fit := h.fit
  size := by rw [h.packages, h.owners, ha.size]
  backed hk := by
    rw [h.packages] at hk
    exact ⟨(ha.backed hk).1, (ha.backed hk).2.mono h.keeps⟩
  housed hfile := by
    rw [h.sources] at hfile
    exact (ha.housed hfile).mono h.keeps (by rw [h.fileScopes])
  fresh hfile := by
    rw [h.sources] at hfile
    rw [h.fileScopes, h.filePackages]
    exact ha.fresh hfile

/-- A step that makes something gives out its number. -/
theorem yields_number (ha : a.Sound) (h : a.Adds b) {id : Number} (hid : id.Given b) :
    a.Yields [id] b :=
  ⟨ha.of_adds h, h.keeps, List.forall_mem_singleton.mpr hid⟩

/-- A step that changes something gives out no number. -/
theorem yields_nothing (ha : a.Sound) (h : a.Adds b) : a.Yields [] b :=
  ⟨ha.of_adds h, h.keeps, fun _ h => absurd h List.not_mem_nil⟩

/-- A question changes nothing. -/
theorem yields_self (ha : a.Sound) {ids : List Number} (hids : ∀ id ∈ ids, id.Given a) :
    a.Yields ids a :=
  ⟨ha, .refl a, hids⟩

/-- What is recorded about a package is about things that are there. -/
theorem covers (ha : a.Sound) {k : CheckedPackage} (hk : k ∈ a.packages.toList) :
    a.program.Covers k := by
  obtain ⟨i, hi⟩ := List.mem_iff_getElem?.mp hk
  rw [Array.getElem?_toList] at hi
  obtain ⟨rfl, hbacks⟩ := ha.backed (fetch_eq_ok_iff.mpr hi)
  obtain ⟨hlt, -⟩ := Array.getElem?_eq_some_iff.mp hi
  exact {
    package := Nat.lt_of_lt_of_eq hlt ha.size
    files := fun node hnode => (hbacks.files node hnode).hasNode
    defs := fun e he => ⟨(hbacks.defs e he).1.hasNode, (hbacks.defs e he).2⟩
    uses := fun e he => (hbacks.uses e he).2
    implicits := fun e he => (hbacks.implicits e he).2
    selections := fun e he => (hbacks.selections e he).2
    scopes := fun e he => ⟨(hbacks.scopes e he).1.hasNode, (hbacks.scopes e he).2⟩ }

/-! ### Packages and files -/

/-- A package is added with its scope and with nothing recorded about it. -/
theorem addPackage (ha : a.Sound) {path name : String}
    (hstep : a.addPackage path name = .ok (pkg, b)) : a.Yields [.package pkg] b := by
  obtain ⟨⟨scope, next⟩, hscope, hstep⟩ := bind_eq_ok_iff.mp hstep
  cases hstep
  obtain ⟨root, hroot, -⟩ := ha.fit.orderly.root
  obtain ⟨hadds, hchild⟩ := adds_addScope ha.fit (hasScope_of_scope hroot) hscope
  have hnext := ha.of_adds hadds
  have hkeeps : next.Keeps { next with
      program := { next.program with packages := next.program.packages.push ⟨path, name, scope⟩ }
      packages := next.packages.push (.ofId ⟨next.program.packages.size⟩) } :=
    ⟨widens_packages, fun h => h⟩
  refine ⟨⟨hnext.fit.addPackage hchild, ?_, fun hk => ?_, fun hfile => ?_, hnext.fresh⟩,
    hadds.keeps.trans hkeeps, List.forall_mem_singleton.mpr ?_⟩
  · rw [Array.size_push, Array.size_push, hnext.size]
  · rcases fetch_push_cases hk with hold | ⟨rfl, rfl⟩
    · exact ⟨(hnext.backed hold).1, (hnext.backed hold).2.mono hkeeps⟩
    · exact ⟨hnext.size.symm, backs_ofId⟩
  · exact (hnext.housed hfile).mono hkeeps rfl
  · exact hasPackage_iff.mpr ⟨_, fetch_push_self⟩

/-- The scope of a package is there. -/
theorem hasScope_packageScope (ha : a.Sound) {scope : ScopeId}
    (h : a.packageScope pkg = .ok scope) : a.program.HasScope scope ∧
      ∃ owner, a.program.package pkg = .ok owner ∧ owner.scope = scope := by
  unfold Assembly.packageScope at h
  cases howner : a.program.package pkg with
  | error f =>
    rw [howner] at h
    cases h
  | ok owner =>
    rw [howner] at h
    cases h
    exact ⟨ha.fit.closed.hasScope_of_package howner, owner, rfl, rfl⟩

/-- A file with a scope is housed. -/
theorem houses_of_fileScope (ha : a.Sound) {scope : ScopeId} (h : a.fileScope file = .ok scope) :
    a.Houses file := by
  rcases Nat.lt_or_ge file.index a.program.sources.files.size with hlt | hge
  · exact ha.housed hlt
  · unfold Assembly.fileScope at h
    rw [(ha.fresh hge).1] at h
    cases h

/-- The scope of a file is there, below that of its package. -/
theorem hasChild_fileScope (ha : a.Sound) {scope : ScopeId} (h : a.fileScope file = .ok scope) :
    ∃ pkg owner, a.filePackages.get? file = some pkg ∧ a.program.package pkg = .ok owner ∧
      a.program.HasChild owner.scope scope := by
  obtain ⟨pkg, housed, owner, hpkg, hget, howner, hchild⟩ := ha.houses_of_fileScope h
  unfold Assembly.fileScope at h
  rw [hget] at h
  cases h
  exact ⟨pkg, owner, hpkg, howner, hchild⟩

/-- The scope of a file is there. -/
theorem hasScope_fileScope (ha : a.Sound) {scope : ScopeId} (h : a.fileScope file = .ok scope) :
    a.program.HasScope scope := by
  obtain ⟨_, _, -, -, hchild⟩ := ha.hasChild_fileScope h
  exact ha.fit.closed.hasScope_of_child hchild

/-- A file is added with its scope and registered with a package that is there. -/
theorem addFile (ha : a.Sound) {name text : String}
    (hstep : a.addFile pkg name text = .ok (file, b)) : a.Yields [.file file] b := by
  obtain ⟨parent, scope, next, hparent, hscope, hfile, rfl⟩ := addFile_cases hstep
  obtain ⟨hhas, owner, howner, rfl⟩ := ha.hasScope_packageScope hparent
  have hsource : (a.withSource name text).program.Fit := ha.fit.withSources _
  obtain ⟨hadds, hchild⟩ := adds_addScope hsource hhas hscope
  have hindex : file.index = a.program.sources.files.size := by rw [hfile]
  have hadded : (a.withSource name text).program.sources.files.size = file.index + 1 := by
    rw [hindex]
    exact Array.size_push _
  have hsize : next.program.sources.files.size = file.index + 1 := by rw [hadds.sources, hadded]
  have hfresh := ha.fresh (Nat.le_of_eq hindex.symm)
  have hkeeps : a.Keeps { next with
      fileScopes := next.fileScopes.insert file scope
      filePackages := next.filePackages.insert file pkg } := by
    have hle : a.program.sources.files.size ≤
        (a.withSource name text).program.sources.files.size := by omega
    refine ⟨(widens_sources hle).trans hadds.widens, fun {known _} hknown => ?_⟩
    · rw [hadds.filePackages, Table.get?_insert_of_ne]
      · exact hknown
      · rintro rfl
        rw [hfresh.2] at hknown
        cases hknown
  refine ⟨⟨hadds.fit, ?_, fun hk => ?_, fun {known} hknown => ?_, fun {known} hknown => ?_⟩, hkeeps,
    List.forall_mem_singleton.mpr ?_⟩
  · rw [hadds.packages, hadds.owners]
    exact ha.size
  · rw [hadds.packages] at hk
    exact ⟨(ha.backed hk).1, (ha.backed hk).2.mono hkeeps⟩
  · replace hknown : known.index < next.program.sources.files.size := hknown
    by_cases heq : file = known
    · subst heq
      exact ⟨pkg, scope, owner, Table.get?_insert_self .., Table.get?_insert_self ..,
        hadds.widens.packages howner, hchild⟩
    · have hne : known.index ≠ file.index := fun h => heq (FileId.eq_of_index _ _ h.symm)
      refine (ha.housed (by omega)).mono hkeeps ?_
      rw [hadds.fileScopes, Table.get?_insert_of_ne _ heq]
      rfl
  · replace hknown : next.program.sources.files.size ≤ known.index := hknown
    have hne : file ≠ known := by
      rintro rfl
      omega
    rw [hadds.fileScopes, hadds.filePackages, Table.get?_insert_of_ne _ hne,
      Table.get?_insert_of_ne _ hne]
    exact ha.fresh (by omega)
  · show _ < next.program.sources.files.size
    omega

/-! ### Facts -/

/-- What is recorded about a package may be changed as long as it is about its own nodes. -/
theorem changePackage (ha : a.Sound) {f : CheckedPackage → CheckedPackage}
    (hstep : a.changePackage file f = .ok b)
    (hf : ∀ k, a.filePackages.get? file = some k.pkg → a.Backs k →
      (f k).pkg = k.pkg ∧ a.Backs (f k)) : a.Yields [] b := by
  unfold Assembly.changePackage at hstep
  split at hstep
  · rename_i pkg hpkg
    obtain ⟨_, -, hstep⟩ := bind_eq_ok_iff.mp hstep
    cases hstep
    have hkeeps : a.Keeps { a with packages := a.packages.modify pkg.index f } :=
      ⟨Widens.refl a.program, fun h => h⟩
    refine ⟨⟨ha.fit, ?_, fun hk => ?_, fun hfile => (ha.housed hfile).mono hkeeps rfl, ha.fresh⟩,
      hkeeps, fun _ h => absurd h List.not_mem_nil⟩
    · rw [Array.size_modify, ha.size]
    · obtain ⟨old, hold, rfl⟩ := fetch_modify_cases hk
      obtain ⟨hindex, hbacks⟩ := ha.backed hold
      split
      · rename_i heq
        have hown : old.pkg = pkg := PackageId.eq_of_index _ _ (hindex.trans heq.symm)
        obtain ⟨hsame, hnew⟩ := hf old (hown ▸ hpkg) hbacks
        exact ⟨hsame ▸ hindex, hnew.mono hkeeps⟩
      · exact ⟨hindex, hbacks.mono hkeeps⟩
  · cases hstep

/-- Facts about a node may be recorded if they are about things that are there. -/
theorem changeFacts (ha : a.Sound) {f : Facts → Facts}
    (hf : ∀ k, a.Belongs k.pkg node → a.Backs k → a.Backs { k with facts := f k.facts })
    (hstep : a.changeFacts node f = .ok b) : a.Yields [] b := by
  obtain ⟨file, hfile, hstep⟩ := bind_eq_ok_iff.mp hstep
  exact ha.changePackage hstep fun k hpkg hk => ⟨rfl, hf k ⟨file, hfile, hpkg⟩ hk⟩

variable {obj : ObjectId} {ids : List Number}

/-- It may be recorded that a node defines an object that is there. -/
theorem define (ha : a.Sound) (hobj : a.program.HasObject obj)
    (hstep : a.define node obj = .ok b) : a.Yields [] b :=
  ha.changeFacts (fun _ hnode hk => { hk with defs := hk.defs.insert hnode hobj }) hstep

/-- It may be recorded that a node uses an object that is there. -/
theorem recordUse (ha : a.Sound) (hobj : a.program.HasObject obj)
    (hstep : a.recordUse node obj = .ok b) : a.Yields [] b :=
  ha.changeFacts (fun _ hnode hk => { hk with uses := hk.uses.insert hnode hobj }) hstep

/-- It may be recorded that a node stands for an object that is there. -/
theorem recordImplicit (ha : a.Sound) (hobj : a.program.HasObject obj)
    (hstep : a.recordImplicit node obj = .ok b) : a.Yields [] b :=
  ha.changeFacts (fun _ hnode hk => { hk with implicits := hk.implicits.insert hnode hobj }) hstep

/-- A selection may be recorded, from a type that is there. -/
theorem recordSelection (ha : a.Sound) {s : Selection} (hrecv : a.program.HasType s.recv)
    (hstep : a.recordSelection node s = .ok b) : a.Yields [] b :=
  ha.changeFacts (fun _ hnode hk => { hk with selections := hk.selections.insert hnode hrecv })
    hstep

/-- It may be recorded that a node introduces a scope that is there. -/
theorem recordScope (ha : a.Sound) {scope : ScopeId} (hscope : a.program.HasScope scope)
    (hstep : a.recordScope node scope = .ok b) : a.Yields [] b :=
  ha.changeFacts (fun _ hnode hk => { hk with scopes := hk.scopes.insert hnode hscope }) hstep

/-! ### Nodes -/

/-- A node is added above nodes that are there. -/
theorem addNode (ha : a.Sound) (file : FileId) (range : TextRange) {kind : NodeKind}
    (hchildren : ∀ child ∈ kind.children, a.program.tree.HasNode child) :
    a.Yields [.node (a.addNode file range kind).1] (a.addNode file range kind).2 := by
  obtain ⟨hadds, hfile⟩ := adds_addNode ha.fit file range hchildren
  exact ha.yields_number hadds (hasNode_iff_file.mpr ⟨file, hfile⟩)

/-- A node is added around nodes that are there, in the file of the first. -/
theorem wrap (ha : a.Sound) {kind : NodeKind}
    (hchildren : ∀ child ∈ kind.children, a.program.tree.HasNode child)
    (hstep : a.wrap kind = .ok (node, b)) : a.Yields [.node node] b := by
  unfold Assembly.wrap at hstep
  split at hstep
  · cases hstep
  · obtain ⟨_, -, hstep⟩ := bind_eq_ok_iff.mp hstep
    obtain ⟨_, -, hstep⟩ := bind_eq_ok_iff.mp hstep
    obtain ⟨file, -, hstep⟩ := bind_eq_ok_iff.mp hstep
    cases hstep
    exact ha.addNode file _ hchildren

/-- An identifier is added where its name is found. -/
theorem ident (ha : a.Sound) {name : String} {nth : Nat}
    (hstep : a.ident file name nth = .ok (node, b)) : a.Yields [.node node] b := by
  obtain ⟨range, -, hstep⟩ := bind_eq_ok_iff.mp hstep
  cases hstep
  exact ha.addNode file range fun _ h => absurd h List.not_mem_nil

/-- An identifier is added that defines an object that is there. -/
theorem defIdent (ha : a.Sound) {name : String} {nth : Nat} (hobj : a.program.HasObject obj)
    (hstep : a.defIdent file name nth obj = .ok (node, b)) : a.Yields [.node node] b := by
  obtain ⟨⟨ident, next⟩, hident, hstep⟩ := bind_eq_ok_iff.mp hstep
  obtain ⟨last, hlast, hstep⟩ := bind_eq_ok_iff.mp hstep
  cases hstep
  have hmade := ha.ident hident
  exact hmade.andThen (hmade.sound.define (hmade.keeps.hasObject hobj) hlast)

/-- An identifier is added that uses an object that is there. -/
theorem useIdent (ha : a.Sound) {name : String} {nth : Nat} (hobj : a.program.HasObject obj)
    (hstep : a.useIdent file name nth obj = .ok (node, b)) : a.Yields [.node node] b := by
  obtain ⟨⟨ident, next⟩, hident, hstep⟩ := bind_eq_ok_iff.mp hstep
  obtain ⟨last, hlast, hstep⟩ := bind_eq_ok_iff.mp hstep
  cases hstep
  have hmade := ha.ident hident
  exact hmade.andThen (hmade.sound.recordUse (hmade.keeps.hasObject hobj) hlast)

/-- The node of a whole file is recorded for the package that the file belongs to. -/
theorem finishFile (ha : a.Sound) {name : NodeId} {decls : List NodeId} {doc : Option CommentGroup}
    {comments : List CommentGroup}
    (hchildren : ∀ child ∈ name :: decls, a.program.tree.HasNode child)
    (hstep : a.finishFile file name decls doc comments = .ok (node, b)) :
    a.Yields [.node node] b := by
  obtain ⟨range, scope, next, hscope, hnext, hlast⟩ := finishFile_cases hstep
  have hkind : ∀ child ∈ (NodeKind.file name decls doc comments).children,
      a.program.tree.HasNode child := hchildren
  have hmade := ha.addNode file range hkind
  obtain ⟨-, hfile⟩ := adds_addNode ha.fit file range hkind
  rw [hnext] at hmade hfile
  refine hmade.andThen (hmade.sound.changePackage hlast fun k hpkg hk => ⟨rfl, ?_⟩)
  have hnode : next.Belongs k.pkg node := ⟨file, hfile, hpkg⟩
  have hfiles : ∀ other ∈ k.files ++ [node], next.Belongs k.pkg other := by
    intro other hother
    rcases List.mem_append.mp hother with hold | hnew
    · exact hk.files other hold
    · rw [List.mem_singleton.mp hnew]
      exact hnode
  have hscopes := hk.scopes.insert hnode (hmade.keeps.hasScope (ha.hasScope_fileScope hscope))
  exact { hk with files := hfiles, scopes := hscopes }

/-! ### Calls -/

/-- All numbers in a program stand for something. -/
theorem given_numbers {id : Number} (h : id ∈ a.numbers) : id.Given a := by
  unfold numbers at h
  simp only [List.mem_append, List.mem_map, List.mem_range] at h
  rcases h with ((((h | h) | h) | h) | h) | h
  all_goals
    obtain ⟨i, hi, rfl⟩ := h
    exact hi

/-- The second of several numbers that are given. -/
theorem given_second {first second : Number} {rest : List Number}
    (h : ∀ id ∈ first :: second :: rest, id.Given a) : second.Given a :=
  h second (List.mem_cons_of_mem _ List.mem_cons_self)

/-- A call that mentions only numbers that stand for something leads from a sound assembly to a
sound one, and gives out only such numbers. -/
theorem answer (ha : a.Sound) {c : Call} (hc : ∀ id ∈ c.mentions, id.Given a)
    (hstep : a.answer c = .ok (ids, b)) : a.Yields ids b := by
  cases c with
  | program =>
    obtain ⟨found, hfound, rfl, rfl⟩ := asked_eq_ok hstep
    cases hfound
    exact ha.yields_self fun id hid => given_numbers hid
  | universeScope =>
    obtain ⟨found, hfound, rfl, rfl⟩ := asked_eq_ok hstep
    cases hfound
    obtain ⟨root, hroot, -⟩ := ha.fit.orderly.root
    exact ha.yields_self (List.forall_mem_singleton.mpr (hasScope_of_scope hroot))
  | universeObject name =>
    obtain ⟨found, hfound, rfl, rfl⟩ := asked_eq_ok hstep
    refine ha.yields_self fun id hid => ?_
    obtain ⟨obj, hobj, rfl⟩ := List.mem_map.mp hid
    cases hfound
    exact hasObject_of_universeObject? ha.fit (Option.mem_toList.mp hobj)
  | universeType name =>
    obtain ⟨found, hfound, rfl, rfl⟩ := asked_eq_ok hstep
    exact ha.yields_self (List.forall_mem_singleton.mpr (hasType_of_universeType ha.fit hfound))
  | packageScope pkg =>
    obtain ⟨found, hfound, rfl, rfl⟩ := asked_eq_ok hstep
    exact ha.yields_self (List.forall_mem_singleton.mpr (ha.hasScope_packageScope hfound).1)
  | fileScope file =>
    obtain ⟨found, hfound, rfl, rfl⟩ := asked_eq_ok hstep
    exact ha.yields_self (List.forall_mem_singleton.mpr (ha.hasScope_fileScope hfound))
  | tryFind _ _ _ | find _ _ _ | pos _ _ _ | comment _ _ _ =>
    obtain ⟨_, -, rfl, rfl⟩ := asked_eq_ok hstep
    exact ha.yields_self fun _ h => absurd h List.not_mem_nil
  | addPackage path name =>
    obtain ⟨pkg, hcall, rfl⟩ := numbered_eq_ok hstep
    exact ha.addPackage hcall
  | addFile pkg name text =>
    obtain ⟨file, hcall, rfl⟩ := numbered_eq_ok hstep
    exact ha.addFile hcall
  | addObject o =>
    obtain ⟨obj, hcall, rfl⟩ := numbered_eq_ok hstep
    cases hcall
    obtain ⟨hadds, hobj⟩ := adds_addObject ha.fit (Object.within_of_mentions hc)
    exact ha.yields_number hadds hobj
  | addType t =>
    obtain ⟨type, hcall, rfl⟩ := numbered_eq_ok hstep
    cases hcall
    obtain ⟨hadds, htype⟩ := adds_addType ha.fit (GoType.within_of_mentions hc)
    exact ha.yields_number hadds htype
  | addNamed obj =>
    obtain ⟨type, hcall, rfl⟩ := numbered_eq_ok hstep
    obtain ⟨hadds, htype⟩ := adds_addNamed ha.fit (hc (.object obj) List.mem_cons_self) hcall
    exact ha.yields_number hadds htype
  | addScope parent =>
    obtain ⟨scope, hcall, rfl⟩ := numbered_eq_ok hstep
    obtain ⟨hadds, hchild⟩ := adds_addScope ha.fit (hc (.scope parent) List.mem_cons_self) hcall
    exact ha.yields_number hadds (hadds.fit.closed.hasScope_of_child hchild)
  | declare scope obj =>
    obtain ⟨hcall, rfl⟩ := silent_eq_ok hstep
    exact ha.yields_nothing (adds_declare ha.fit hcall)
  | setType obj type =>
    obtain ⟨hcall, rfl⟩ := silent_eq_ok hstep
    have htype := given_second hc
    exact ha.yields_nothing (adds_setType ha.fit htype hcall)
  | setUnderlying named underlying =>
    obtain ⟨hcall, rfl⟩ := silent_eq_ok hstep
    have htype := given_second hc
    exact ha.yields_nothing (adds_setUnderlying ha.fit htype hcall)
  | addMethod named method =>
    obtain ⟨hcall, rfl⟩ := silent_eq_ok hstep
    have hobj := given_second hc
    exact ha.yields_nothing (adds_addMethod ha.fit hobj hcall)
  | addNode file range kind =>
    obtain ⟨node, hcall, rfl⟩ := numbered_eq_ok hstep
    cases hcall
    exact ha.addNode file range fun child hchild =>
      hc (.node child) (List.mem_cons_of_mem _ (List.mem_map.mpr ⟨child, hchild, rfl⟩))
  | wrap kind =>
    obtain ⟨node, hcall, rfl⟩ := numbered_eq_ok hstep
    exact ha.wrap (fun child hchild => hc (.node child) (List.mem_map.mpr ⟨child, hchild, rfl⟩))
      hcall
  | ident file name nth =>
    obtain ⟨node, hcall, rfl⟩ := numbered_eq_ok hstep
    exact ha.ident hcall
  | defIdent file name nth obj =>
    obtain ⟨node, hcall, rfl⟩ := numbered_eq_ok hstep
    exact ha.defIdent (given_second hc) hcall
  | useIdent file name nth obj =>
    obtain ⟨node, hcall, rfl⟩ := numbered_eq_ok hstep
    exact ha.useIdent (given_second hc) hcall
  | finishFile file name decls doc comments =>
    obtain ⟨node, hcall, rfl⟩ := numbered_eq_ok hstep
    refine ha.finishFile (fun child hchild => ?_) hcall
    exact hc (.node child) (List.mem_cons_of_mem _ (List.mem_map.mpr ⟨child, hchild, rfl⟩))
  | define ident obj =>
    obtain ⟨hcall, rfl⟩ := silent_eq_ok hstep
    exact ha.define (given_second hc) hcall
  | recordUse ident obj =>
    obtain ⟨hcall, rfl⟩ := silent_eq_ok hstep
    exact ha.recordUse (given_second hc) hcall
  | recordImplicit node obj =>
    obtain ⟨hcall, rfl⟩ := silent_eq_ok hstep
    exact ha.recordImplicit (given_second hc) hcall
  | recordSelection node s =>
    obtain ⟨hcall, rfl⟩ := silent_eq_ok hstep
    exact ha.recordSelection (given_second hc) hcall
  | recordScope node scope =>
    obtain ⟨hcall, rfl⟩ := silent_eq_ok hstep
    exact ha.recordScope (given_second hc) hcall

end Sound

/-- The assembly in which only the predeclared names are known is sound. -/
theorem sound_of_initial (h : initial = .ok a) : a.Sound := by
  have hbare : bare.Sound := by
    refine ⟨fit_bare, rfl, fun hk => ?_, fun hfile => ?_, fun _ => ⟨rfl, rfl⟩⟩
    · cases hk
    · exact absurd hfile (Nat.not_lt_zero _)
  exact hbare.of_adds (adds_populate fit_bare h)

/-- What is put together by calls is sound, and the numbers that they gave out stand for
something. -/
theorem Builds.sound {given : List Number} (h : Builds given a) :
    a.Sound ∧ ∀ id ∈ given, id.Given a := by
  induction h with
  | initial hfirst => exact ⟨sound_of_initial hfirst, fun _ h => absurd h List.not_mem_nil⟩
  | call _ hmentions hstep ih =>
    obtain ⟨hsound, hgiven⟩ := ih
    have hyields := hsound.answer (fun id hid => hgiven id (hmentions id hid)) hstep
    refine ⟨hyields.sound, fun id hid => ?_⟩
    rcases List.mem_append.mp hid with hold | hnew
    · exact (hgiven id hold).mono hyields.keeps
    · exact hyields.given id hnew

/-! ## What may be relied on -/

/-- What the users of a program rely on. -/
structure InOrder (a : Assembly) : Prop where
  /-- The predeclared names are at the root. -/
  root : ∃ found, a.program.scope Program.predeclared = .ok found ∧ found.parent = none
  /-- Every other scope has a parent that was made before it, among whose children it occurs once,
  at the place where it is found, and it is the child of no other scope. -/
  scopes : ∀ {scope found}, a.program.scope scope = .ok found → scope ≠ Program.predeclared →
    ∃ parent around i, found.parent = some parent ∧ parent.index < scope.index ∧
      a.program.scope parent = .ok around ∧ around.children.count scope = 1 ∧
      around.childIndex? scope = some i ∧ around.children[i]? = some scope ∧
      ∀ other, a.program.HasChild other scope → other = parent
  /-- Packages stand side by side below the predeclared names. -/
  packages : ∀ {pkg owner}, a.program.package pkg = .ok owner →
    a.program.HasChild Program.predeclared owner.scope
  /-- Files stand below their packages. -/
  files : ∀ {file scope}, a.fileScope file = .ok scope → ∃ pkg owner,
    a.filePackages.get? file = some pkg ∧ a.program.package pkg = .ok owner ∧
      a.program.HasChild owner.scope scope
  /-- Objects are bound under their own names. -/
  names : ∀ {scope name obj}, a.program.Binds scope name obj →
    ∃ o, a.program.object obj = .ok o ∧ o.name = name
  /-- Children of nodes were made before them. -/
  children : a.program.tree.ChildrenFirst
  /-- The parent of a node is the last one that was made around it. -/
  parents : a.program.tree.Adopted
  /-- What is recorded about a package is about nodes in its files. -/
  recorded : ∀ {i} {k : CheckedPackage}, a.packages[i]? = some k →
    k.pkg = ⟨i⟩ ∧ ∀ node ∈ k.facts.nodes, a.Belongs k.pkg node

/-- A program that is put together by calls, each mentioning only numbers that were given out
before, is in order. -/
theorem inOrder_of_builds {given : List Number} (h : Builds given a) : a.InOrder := by
  obtain ⟨ha, -⟩ := h.sound
  have horderly := h.reached.orderly
  refine ⟨horderly.root, fun {scope found} hfound hne => ?_, horderly.packages,
    fun {file scope} hscope => ?_, horderly.named, ha.fit.closed.children, ha.fit.adopted,
    fun {i k} hk => ?_⟩
  · obtain ⟨parent, hparent, hlt, hchild⟩ := ha.fit.rooted hfound hne
    obtain ⟨around, haround, hmem⟩ := hchild
    -- no child stands before the place at which it is found
    obtain ⟨before, rest, hsplit, hnew⟩ := List.eq_append_cons_of_mem hmem
    have hcount := List.count_eq_one_of_mem (horderly.neat haround).children hmem
    refine ⟨parent, around, before.length, hparent, hlt, haround, hcount, ?_, ?_,
      fun other hother => ?_⟩
    · unfold Scope.childIndex?
      rw [hsplit]
      exact Program.idxOf?_append_cons hnew rest
    · rw [hsplit, List.getElem?_append_right (Nat.le_refl _), Nat.sub_self]
      rfl
    · exact horderly.parent_eq hother ⟨around, haround, hmem⟩
  · exact ha.hasChild_fileScope hscope
  · obtain ⟨hindex, hbacks⟩ := ha.backed (fetch_eq_ok_iff.mpr hk)
    exact ⟨PackageId.eq_of_index _ _ hindex, fun node hnode => hbacks.belongs hnode⟩

/-- The calls that make a small file, in which a name is bound twice and a node is wrapped twice. -/
def smallFile : List Call :=
  [.addPackage "example.com/p" "p", .addFile ⟨0⟩ "p.go" "package p\nvar x = x",
    .packageScope ⟨0⟩, .fileScope ⟨0⟩, .addScope ⟨2⟩, .universeType "int", .universeScope,
    .addObject ⟨"x", .var, some ⟨0⟩, none, none, some ⟨1⟩⟩, .declare ⟨1⟩ ⟨41⟩,
    .addObject ⟨"x", .var, some ⟨0⟩, none, none, some ⟨1⟩⟩, .declare ⟨1⟩ ⟨42⟩,
    .ident ⟨0⟩ "p" 0, .defIdent ⟨0⟩ "x" 0 ⟨41⟩, .useIdent ⟨0⟩ "x" 1 ⟨42⟩,
    .wrap (.valueSpec [⟨1⟩] none [⟨2⟩] none none), .wrap (.genDecl .varDecl [⟨3⟩] none),
    .wrap (.blockStmt [⟨3⟩]), .recordScope ⟨5⟩ ⟨3⟩, .finishFile ⟨0⟩ ⟨0⟩ [⟨4⟩] none []]

/-- The calls that make the small file can be made, wrapping a node twice leaves it with the second
parent, and everything is in order afterwards. -/
theorem inOrder_of_smallFile : ∃ given a, Builds given a ∧
    a.program.tree.nodes[3]?.map Node.parent = some (some ⟨5⟩) ∧ a.InOrder := by
  have hmade : ((making smallFile).any fun x =>
      x.2.program.tree.nodes[3]?.map Node.parent = some (some ⟨5⟩)) = true := by decide +kernel
  obtain ⟨⟨given, a⟩, hmaking, hparent⟩ := (Option.any_eq_true _ _).mp hmade
  have hbuilds := builds_of_making hmaking
  exact ⟨given, a, hbuilds, of_decide_eq_true hparent, inOrder_of_builds hbuilds⟩

end Assembly

end SymbolGraph
