import SymbolGraph.Proofs.Program.Numbers

/-!
# Arenas

A program that is put together refers to itself by numbers only. Every step that adds something
keeps these references in order (`Program.Fit`): they lead somewhere, scopes are listed by the
parents that they know, and nodes know the last node that was made around them. It also loses
nothing, and leaves files, packages and what is recorded about them alone (`Assembly.Adds`).
-/

namespace SymbolGraph

/-! ## Programs -/

namespace Program

variable {p q : Program}

/-- Every scope but that of the predeclared names has a parent that was made before it and lists
it. -/
def Rooted (p : Program) : Prop :=
  ∀ {scope found}, p.scope scope = .ok found → scope ≠ predeclared →
    ∃ parent, found.parent = some parent ∧ parent.index < scope.index ∧ p.HasChild parent scope

/-- The references in a program are in order. -/
structure Fit (p : Program) : Prop where
  orderly : p.Orderly
  closed : p.Closed
  rooted : p.Rooted
  adopted : p.tree.Adopted

/-! ### Wider programs -/

/-- Sources may be added. -/
theorem widens_sources {sources : FileMap} (h : p.sources.files.size ≤ sources.files.size) :
    p.Widens { p with sources := sources } :=
  { Widens.refl p with files := h }

/-- Objects may be added and changed. -/
theorem widens_objects {objects : Array Object} (h : p.objects.size ≤ objects.size) :
    p.Widens { p with objects := objects } :=
  { Widens.refl p with objects := h }

/-- Types may be added and changed. -/
theorem widens_types {types : Array GoType} (h : p.types.size ≤ types.size) :
    p.Widens { p with types := types } :=
  { Widens.refl p with types := h }

/-- A package may be added. -/
theorem widens_packages {owner : Package} :
    p.Widens { p with packages := p.packages.push owner } :=
  { Widens.refl p with packages := fun h => fetch_push_of_ok h }

/-- A scope may bind one name more. -/
theorem widens_bind (scope : ScopeId) (name : String) (obj : ObjectId) :
    p.Widens { p with scopes := p.scopes.modify scope.index fun s => s.bind name obj } :=
  { Widens.refl p with
    scopes := Nat.le_of_eq Array.size_modify.symm
    children := by
      rintro parent child ⟨found, hfound, hchild⟩
      refine ⟨_, fetch_modify_of_ok hfound, ?_⟩
      split
      · exact hchild
      · exact hchild }

/-- A node may be added, which adopts others but leaves them in their files. -/
theorem widens_alloc (file : FileId) (range : TextRange) (kind : NodeKind) :
    p.Widens { p with tree := (p.tree.alloc file range kind).2 } :=
  { Widens.refl p with nodes := SyntaxTree.file_alloc_of_ok }

/-! ### One more scope -/

/-- The program with one more scope, the last child of another. -/
def withChild (p : Program) (parent : ScopeId) : Program :=
  { p with
    scopes := (p.scopes.push (Scope.ofParent (some parent))).modify parent.index fun s =>
      { s with children := s.children ++ [⟨p.scopes.size⟩] } }

section WithChild

variable {parent scope : ScopeId} {found : Scope}

/-- There is one scope more. -/
theorem size_withChild : (p.withChild parent).scopes.size = p.scopes.size + 1 := by
  unfold withChild
  rw [Array.size_modify, Array.size_push]

/-- The scopes of a program with one more are those that were there, of which one may have another
child, and the new one. -/
theorem scope_withChild_cases (h : (p.withChild parent).scope scope = .ok found) :
    (∃ old, p.scope scope = .ok old ∧ found.parent = old.parent ∧
      found.bindings = old.bindings ∧
      ∀ child ∈ found.children, child ∈ old.children ∨ child = ⟨p.scopes.size⟩) ∨
    scope = ⟨p.scopes.size⟩ ∧ found.parent = some parent ∧ found.bindings = [] ∧
      ∀ child ∈ found.children, child = ⟨p.scopes.size⟩ := by
  obtain ⟨old, hold, rfl⟩ := fetch_modify_cases h
  have hchildren : ∀ child ∈ (if parent.index = scope.index then
      { old with children := old.children ++ [⟨p.scopes.size⟩] } else old : Scope).children,
      child ∈ old.children ∨ child = ⟨p.scopes.size⟩ := by
    intro child hchild
    split at hchild
    · exact (List.mem_append.mp hchild).imp_right List.mem_singleton.mp
    · exact .inl hchild
  rcases fetch_push_cases hold with hknown | ⟨hindex, rfl⟩
  · refine .inl ⟨old, hknown, ?_, ?_, hchildren⟩
    · split <;> rfl
    · split <;> rfl
  · refine .inr ⟨ScopeId.eq_of_index _ _ hindex, ?_, ?_, fun child hchild => ?_⟩
    · split <;> rfl
    · split <;> rfl
    · exact (hchildren child hchild).resolve_left List.not_mem_nil

/-- One more scope may be added below another. -/
theorem widens_withChild (p : Program) (parent : ScopeId) : p.Widens (p.withChild parent) :=
  { Widens.refl p with
    scopes := by
      rw [size_withChild]
      exact Nat.le_succ _
    children := by
      rintro scope child ⟨found, hfound, hchild⟩
      refine ⟨_, fetch_modify_of_ok (fetch_push_of_ok hfound), ?_⟩
      split
      · exact List.mem_append_left _ hchild
      · exact hchild }

/-- Below a scope that is there one more may be added without a number that stands for nothing. -/
theorem closed_withChild (hp : p.Closed) (hadopted : p.tree.Adopted) (h : p.HasScope parent) :
    (p.withChild parent).Closed := by
  have hnew : (p.withChild parent).HasScope ⟨p.scopes.size⟩ := by
    unfold HasScope
    rw [size_withChild]
    exact Nat.lt_succ_self _
  refine hp.of_widens (widens_withChild p parent) (fun _ => .inl) (fun _ => .inl)
    (fun s hs => .inr ?_) (fun _ => .inl) hp.children hadopted
  obtain ⟨i, hi⟩ := List.mem_iff_getElem?.mp hs
  rw [Array.getElem?_toList] at hi
  have hs : (p.withChild parent).scope ⟨i⟩ = .ok s := fetch_eq_ok_iff.mpr hi
  rcases scope_withChild_cases hs with ⟨old, hold, hparent, hbindings, hchildren⟩ |
    ⟨-, hparent, hbindings, hchildren⟩
  · have hwithin :=
      Scope.Within.mono (widens_withChild p parent) (hp.scopes old (mem_of_fetch hold))
    refine ⟨fun x hx => hwithin.1 x (hparent ▸ hx), fun child hchild => ?_,
      fun b hb => hwithin.2.2 b (hbindings ▸ hb)⟩
    rcases hchildren child hchild with hmem | rfl
    · exact hwithin.2.1 child hmem
    · exact hnew
  · refine ⟨fun x hx => ?_, fun child hchild => ?_, fun b hb => ?_⟩
    · rw [hparent] at hx
      cases Option.mem_toList.mp hx
      exact (widens_withChild p parent).hasScope h
    · rw [hchildren child hchild]
      exact hnew
    · rw [hbindings] at hb
      cases hb

/-- The new scope is listed by its parent. -/
theorem hasChild_withChild (h : p.HasScope parent) :
    (p.withChild parent).HasChild parent ⟨p.scopes.size⟩ := by
  obtain ⟨around, haround, -⟩ := answers_scope h
  exact ⟨_, fetch_modify_self (fetch_push_of_ok haround),
    List.mem_append_right _ List.mem_cons_self⟩

/-- The new scope has its parent before it. -/
theorem rooted_withChild (hp : p.Rooted) (h : p.HasScope parent) :
    (p.withChild parent).Rooted := by
  intro scope found hfound hne
  rcases scope_withChild_cases hfound with ⟨old, hold, hparent, -⟩ | ⟨rfl, hparent, -⟩
  · obtain ⟨around, haround, hlt, hchild⟩ := hp hold hne
    exact ⟨around, hparent.trans haround, hlt, (widens_withChild p parent).children hchild⟩
  · exact ⟨parent, hparent, h, hasChild_withChild h⟩

end WithChild

/-! ### Steps -/

namespace Fit

/-- A scope is listed by its parent only, which was made before it. -/
theorem lt_of_hasChild (hp : p.Fit) {scope child : ScopeId} (h : p.HasChild scope child) :
    scope.index < child.index := by
  obtain ⟨-, found, hfound, -⟩ := hp.orderly.parent h
  have hne : child ≠ predeclared := by
    rintro rfl
    exact hp.orderly.not_hasChild_predeclared h
  obtain ⟨parent, -, hlt, hchild⟩ := hp.rooted hfound hne
  rw [hp.orderly.parent_eq h hchild]
  exact hlt

/-- Sources do not matter. -/
theorem withSources (hp : p.Fit) (sources : FileMap) : { p with sources := sources }.Fit where
  orderly := hp.orderly.of_eq rfl rfl rfl
  closed := ⟨hp.closed.objects, hp.closed.types, hp.closed.scopes, hp.closed.packages,
    hp.closed.parents, hp.closed.children⟩
  rooted := hp.rooted
  adopted := hp.adopted

/-- Objects may be added, and changed if they keep their names, as long as they lead somewhere. -/
theorem withObjects (hp : p.Fit) {objects : Array Object}
    (hnames : ∀ {obj : ObjectId} {o}, p.object obj = .ok o →
      ∃ o', fetch objects obj.index = .ok o' ∧ o'.name = o.name)
    (hsize : p.objects.size ≤ objects.size)
    (hwithin : ∀ o ∈ objects.toList, o ∈ p.objects.toList ∨
      o.Within { p with objects := objects }) : { p with objects := objects }.Fit where
  orderly := hp.orderly.withObjects hnames
  closed := hp.closed.of_widens (widens_objects hsize) hwithin (fun _ => .inl) (fun _ => .inl)
    (fun _ => .inl) hp.closed.children hp.adopted
  rooted := hp.rooted
  adopted := hp.adopted

/-- Types may be added and changed, as long as they lead somewhere. -/
theorem withTypes (hp : p.Fit) {types : Array GoType} (hsize : p.types.size ≤ types.size)
    (hwithin : ∀ t ∈ types.toList, t ∈ p.types.toList ∨ t.Within { p with types := types }) :
    { p with types := types }.Fit where
  orderly := hp.orderly.of_eq rfl rfl rfl
  closed := hp.closed.of_widens (widens_types hsize) (fun _ => .inl) hwithin (fun _ => .inl)
    (fun _ => .inl) hp.closed.children hp.adopted
  rooted := hp.rooted
  adopted := hp.adopted

/-- A node may be made around nodes that are there. -/
theorem alloc (hp : p.Fit) (file : FileId) (range : TextRange) {kind : NodeKind}
    (hchildren : ∀ child ∈ kind.children, p.tree.HasNode child) :
    { p with tree := (p.tree.alloc file range kind).2 }.Fit where
  orderly := hp.orderly.of_eq rfl rfl rfl
  closed := hp.closed.of_widens (widens_alloc file range kind) (fun _ => .inl) (fun _ => .inl)
    (fun _ => .inl) (fun _ => .inl) (hp.closed.children.alloc hchildren)
    (SyntaxTree.Adopted.alloc hp.adopted hp.closed.children hchildren)
  rooted := hp.rooted
  adopted := SyntaxTree.Adopted.alloc hp.adopted hp.closed.children hchildren

/-- A package may be added whose scope is a child of that of the predeclared names. -/
theorem addPackage (hp : p.Fit) {owner : Package} (h : p.HasChild predeclared owner.scope) :
    { p with packages := p.packages.push owner }.Fit where
  orderly := hp.orderly.addPackage h
  closed := by
    refine hp.closed.of_widens widens_packages (fun _ => .inl) (fun _ => .inl) (fun _ => .inl)
      (fun o ho => (mem_push_cases ho).imp_right ?_) hp.closed.children hp.adopted
    rintro rfl
    exact hp.closed.hasScope_of_child h
  rooted := hp.rooted
  adopted := hp.adopted

end Fit

end Program

/-! ## Steps -/

namespace Assembly

open Program

variable {a b d : Assembly}

/-- A step adds to the arenas of a program: references are in order after it and nothing is lost,
and it leaves files, packages and what is recorded about them alone. -/
structure Adds (a b : Assembly) : Prop where
  fit : b.program.Fit
  widens : a.program.Widens b.program
  sources : b.program.sources = a.program.sources
  owners : b.program.packages = a.program.packages
  packages : b.packages = a.packages
  fileScopes : b.fileScopes = a.fileScopes
  filePackages : b.filePackages = a.filePackages

/-- Nothing has to be added. -/
theorem Adds.refl (ha : a.program.Fit) : a.Adds a :=
  ⟨ha, Widens.refl a.program, rfl, rfl, rfl, rfl, rfl⟩

/-- What adds to what has been added to adds to the first. -/
theorem Adds.trans (hab : a.Adds b) (hbd : b.Adds d) : a.Adds d where
  fit := hbd.fit
  widens := hab.widens.trans hbd.widens
  sources := hbd.sources.trans hab.sources
  owners := hbd.owners.trans hab.owners
  packages := hbd.packages.trans hab.packages
  fileScopes := hbd.fileScopes.trans hab.fileScopes
  filePackages := hbd.filePackages.trans hab.filePackages

/-- Adding loses nothing. -/
theorem Adds.keeps (h : a.Adds b) : a.Keeps b :=
  ⟨h.widens, fun hfile => h.filePackages ▸ hfile⟩

/-- An object may be added that leads somewhere. -/
theorem adds_addObject (ha : a.program.Fit) {o : Object} (ho : o.Within a.program) :
    a.Adds (a.addObject o).2 ∧ (a.addObject o).2.program.HasObject (a.addObject o).1 := by
  have hsize : a.program.objects.size ≤ (a.program.objects.push o).size := by
    rw [Array.size_push]
    exact Nat.le_succ _
  refine ⟨⟨ha.withObjects (fun hold => ⟨_, fetch_push_of_ok hold, rfl⟩) hsize
    fun x hx => (mem_push_cases hx).imp_right ?_, widens_objects hsize, rfl, rfl, rfl, rfl, rfl⟩,
    ?_⟩
  · rintro rfl
    exact Object.Within.mono (widens_objects hsize) ho
  · exact hasObject_of_object fetch_push_self

/-- A type may be added that leads somewhere. -/
theorem adds_addType (ha : a.program.Fit) {t : GoType} (ht : t.Within a.program) :
    a.Adds (a.addType t).2 ∧ (a.addType t).2.program.HasType (a.addType t).1 := by
  have hsize : a.program.types.size ≤ (a.program.types.push t).size := by
    rw [Array.size_push]
    exact Nat.le_succ _
  refine ⟨⟨ha.withTypes hsize fun x hx => (mem_push_cases hx).imp_right ?_, widens_types hsize,
    rfl, rfl, rfl, rfl, rfl⟩, ?_⟩
  · rintro rfl
    exact GoType.Within.mono (widens_types hsize) ht
  · show _ < (a.program.types.push t).size
    rw [Array.size_push]
    exact Nat.lt_succ_self _

/-- An object may be given a type that is there. -/
theorem adds_setType (ha : a.program.Fit) {obj : ObjectId} {type : TypeId}
    (htype : a.program.HasType type) (hstep : a.setType obj type = .ok b) : a.Adds b := by
  obtain ⟨_, -, hstep⟩ := bind_eq_ok_iff.mp hstep
  cases hstep
  have hsize : a.program.objects.size ≤
      (a.program.objects.modify obj.index fun o => { o with type := some type }).size :=
    Nat.le_of_eq Array.size_modify.symm
  refine ⟨ha.withObjects (fun hold => ⟨_, fetch_modify_of_ok hold, by split <;> rfl⟩) hsize
    fun x hx => (mem_modify_cases hx).imp_right ?_, widens_objects hsize, rfl, rfl, rfl, rfl, rfl⟩
  rintro ⟨old, hold, rfl⟩
  obtain ⟨-, hpkg, hscope, himported⟩ := ha.closed.objects old hold
  refine ⟨fun next hnext => ?_, hpkg, hscope, himported⟩
  cases Option.mem_toList.mp hnext
  exact htype

/-- A named type is added for an object that is there and becomes its type. -/
theorem adds_addNamed (ha : a.program.Fit) {obj : ObjectId} {type : TypeId}
    (hobj : a.program.HasObject obj) (hstep : a.addNamed obj = .ok (type, b)) :
    a.Adds b ∧ b.program.HasType type := by
  obtain ⟨next, hnext, hstep⟩ := bind_eq_ok_iff.mp hstep
  cases hstep
  have hwithin : (GoType.named obj none []).Within a.program :=
    ⟨fun _ h => absurd h List.not_mem_nil, fun _ h => absurd h List.not_mem_nil,
      fun _ h => absurd h List.not_mem_nil, List.forall_mem_singleton.mpr hobj⟩
  obtain ⟨hadded, htype⟩ := adds_addType ha hwithin
  have hset := adds_setType hadded.fit htype hnext
  exact ⟨hadded.trans hset, hset.widens.hasType htype⟩

/-- A type may be changed if it leads to nothing that is not there. -/
theorem adds_changeType (ha : a.program.Fit) {type : TypeId} {f : GoType → GoType}
    (hf : ∀ t : GoType, t.Within a.program → (f t).Within a.program)
    (hstep : a.changeType type f = .ok b) : a.Adds b := by
  obtain ⟨_, -, hstep⟩ := bind_eq_ok_iff.mp hstep
  cases hstep
  have hsize : a.program.types.size ≤ (a.program.types.modify type.index f).size :=
    Nat.le_of_eq Array.size_modify.symm
  refine ⟨ha.withTypes hsize fun x hx => (mem_modify_cases hx).imp_right ?_, widens_types hsize,
    rfl, rfl, rfl, rfl, rfl⟩
  rintro ⟨old, hold, rfl⟩
  exact GoType.Within.mono (widens_types hsize) (hf old (ha.closed.types old hold))

/-- A named type may be made to stand for a type that is there. -/
theorem adds_setUnderlying (ha : a.program.Fit) {named underlying : TypeId}
    (h : a.program.HasType underlying) (hstep : a.setUnderlying named underlying = .ok b) :
    a.Adds b := by
  refine adds_changeType ha (fun t ht => ?_) hstep
  cases t with
  | named obj _ methods =>
    obtain ⟨hparts, -, hmembers, howners⟩ := ht
    refine ⟨hparts, fun next hnext => ?_, hmembers, howners⟩
    cases Option.mem_toList.mp hnext
    exact h
  | _ => exact ht

/-- A named type may list a method that is there. -/
theorem adds_addMethod (ha : a.program.Fit) {named : TypeId} {method : ObjectId}
    (h : a.program.HasObject method) (hstep : a.addMethod named method = .ok b) : a.Adds b := by
  refine adds_changeType ha (fun t ht => ?_) hstep
  cases t with
  | named obj underlying methods =>
    obtain ⟨hparts, hnext, hmembers, howners⟩ := ht
    refine ⟨hparts, hnext, hmembers, fun owner howner => ?_⟩
    rcases List.mem_cons.mp howner with rfl | howner
    · exact howners owner List.mem_cons_self
    · rcases List.mem_append.mp howner with hold | hnew
      · exact howners owner (List.mem_cons_of_mem _ hold)
      · rw [List.mem_singleton.mp hnew]
        exact h
  | _ => exact ht

/-- A scope may be made below one that is there, which lists it then. -/
theorem adds_addScope (ha : a.program.Fit) {parent id : ScopeId}
    (hparent : a.program.HasScope parent) (hstep : a.addScope parent = .ok (id, b)) :
    a.Adds b ∧ b.program.HasChild parent id := by
  obtain ⟨horderly, hchild⟩ := orderly_addScope ha.orderly hstep
  obtain ⟨around, -, hstep⟩ := bind_eq_ok_iff.mp hstep
  cases hstep
  exact ⟨⟨⟨horderly, closed_withChild ha.closed ha.adopted hparent,
    rooted_withChild ha.rooted hparent, ha.adopted⟩, widens_withChild _ _, rfl, rfl, rfl, rfl,
    rfl⟩, hchild⟩

/-- An object is bound under its own name. -/
theorem adds_declare (ha : a.program.Fit) {scope : ScopeId} {obj : ObjectId}
    (hstep : a.declare scope obj = .ok b) : a.Adds b := by
  have horderly := orderly_declare ha.orderly hstep
  obtain ⟨o, ho, hstep⟩ := bind_eq_ok_iff.mp hstep
  obtain ⟨around, -, hstep⟩ := bind_eq_ok_iff.mp hstep
  cases hstep
  have hobjects : a.program.Widens { a.program with
      objects := a.program.objects.modify obj.index fun o => { o with parent := some scope } } :=
    widens_objects (Nat.le_of_eq Array.size_modify.symm)
  have hwidens := hobjects.trans (widens_bind scope o.name obj)
  refine ⟨⟨horderly, ?_, ?_, ha.adopted⟩, hwidens, rfl, rfl, rfl, rfl, rfl⟩
  · refine ha.closed.of_widens hwidens (fun x hx => (mem_modify_cases hx).imp_right ?_)
      (fun _ => .inl) (fun s hs => (mem_modify_cases hs).imp_right ?_) (fun _ => .inl)
      ha.closed.children ha.adopted
    · rintro ⟨old, hold, rfl⟩
      exact Object.Within.mono hwidens (ha.closed.objects old hold)
    · rintro ⟨old, hold, rfl⟩
      have hwithin := Scope.Within.mono hwidens (ha.closed.scopes old hold)
      refine ⟨hwithin.1, hwithin.2.1, fun x hx => ?_⟩
      rcases Scope.mem_bindIn hx with hx | rfl
      · exact hwithin.2.2 x hx
      · exact hwidens.hasObject (hasObject_of_object ho)
  · intro other found hfound hne
    obtain ⟨old, hold, rfl⟩ := fetch_modify_cases hfound
    obtain ⟨parent, hparent, hlt, hchild⟩ := ha.rooted hold hne
    refine ⟨parent, ?_, hlt, hwidens.children hchild⟩
    split <;> exact hparent

/-- A node may be made around nodes that are there. -/
theorem adds_addNode (ha : a.program.Fit) (file : FileId) (range : TextRange) {kind : NodeKind}
    (hchildren : ∀ child ∈ kind.children, a.program.tree.HasNode child) :
    a.Adds (a.addNode file range kind).2 ∧
      (a.addNode file range kind).2.program.tree.file (a.addNode file range kind).1 = .ok file :=
  ⟨⟨ha.alloc file range hchildren, widens_alloc file range kind, rfl, rfl, rfl, rfl, rfl⟩,
    SyntaxTree.file_alloc_self⟩

/-! ### The predeclared names -/

/-- In the assembly in which nothing is known the references are in order. -/
theorem fit_bare : bare.program.Fit where
  orderly := orderly_bare
  closed := by constructor <;> decide
  rooted := by
    rintro ⟨_ | i⟩ found hfound hne
    · exact absurd rfl hne
    · cases hfound
  adopted := by
    intro node n hn
    cases hn

/-- The type that a predeclared name stands for is there. -/
theorem hasType_of_universeType (ha : a.program.Fit) {name : String} {type : TypeId}
    (h : a.universeType name = .ok type) : a.program.HasType type := by
  unfold universeType at h
  split at h
  · obtain ⟨o, ho, h⟩ := bind_eq_ok_iff.mp h
    split at h
    · rename_i htype
      cases h
      exact ha.closed.hasType ho htype
    · cases h
  · cases h

/-- A predeclared name stands for an object that is there. -/
theorem hasObject_of_universeObject? (ha : a.program.Fit) {name : String} {obj : ObjectId}
    (h : a.universeObject? name = some obj) : a.program.HasObject obj := by
  unfold universeObject? at h
  split at h
  · rename_i found hfound
    obtain ⟨x, hfind, rfl⟩ := Option.map_eq_some_iff.mp h
    exact ha.closed.hasObject_of_binds ⟨found, hfound, List.mem_of_find?_eq_some hfind⟩
  · cases h

/-- A predeclared object leads somewhere if its type is there. -/
theorem within_predeclared {p : Program} {kind : ObjectKind} {type? : Option TypeId}
    (name : String) (hkind : kind.scope? = none ∧ kind.imported? = none)
    (htype : ∀ type, type? = some type → p.HasType type) :
    (predeclared name kind type?).Within p := by
  refine ⟨fun type h => htype type (Option.mem_toList.mp h), fun pkg h => ?_, fun scope h => ?_,
    fun pkg h => ?_⟩
  · cases h
  · rw [predeclared, hkind.1] at h
    cases h
  · rw [predeclared, hkind.2] at h
    cases h

/-- A name may be predeclared for an object that leads to nothing that is not there. -/
theorem adds_predeclare (ha : a.program.Fit) {o : Object} (ho : o.Within a.program)
    (hstep : a.predeclare o = .ok b) : a.Adds b := by
  obtain ⟨hadded, -⟩ := adds_addObject ha ho
  exact hadded.trans (adds_declare hadded.fit hstep)

/-- The type `error`, whose one method gives a string, can be added and declared. -/
theorem adds_error {string named : TypeId} {c : Assembly}
    {result method error : ObjectId × Assembly} {signature interface : TypeId × Assembly}
    (ha : a.program.Fit)
    (hstring : a.program.HasType string)
    (hresult : a.addObject (predeclared "" .var (some string)) = result)
    (hsignature : result.2.addType (.signature none [] [result.1] false) = signature)
    (hmethod : signature.2.addObject (predeclared "Error" (.func none) (some signature.1)) = method)
    (hinterface : method.2.addType (.interface [method.1] []) = interface)
    (herror : interface.2.addObject (predeclared "error" .typeName none) = error)
    (hnamed : error.2.addNamed error.1 = .ok (named, b))
    (hunderlying : b.setUnderlying named interface.1 = .ok c)
    (hdeclare : c.declare Program.predeclared error.1 = .ok d) : a.Adds d := by
  have noType : ∀ {p : Program} {types : List TypeId}, types = [] →
      ∀ part ∈ types, p.HasType part := fun h _ hpart => absurd (h ▸ hpart) List.not_mem_nil
  have hvar : (predeclared "" .var (some string)).Within a.program :=
    within_predeclared "" ⟨rfl, rfl⟩ fun type h => Option.some.inj h ▸ hstring
  obtain ⟨hadds₁, hasResult⟩ := hresult ▸ adds_addObject ha hvar
  have hsig : (GoType.signature none [] [result.1] false).Within result.2.program :=
    ⟨noType rfl, noType rfl, List.forall_mem_singleton.mpr hasResult,
      fun _ h => absurd h List.not_mem_nil⟩
  obtain ⟨hadds₂, hasSignature⟩ := hsignature ▸ adds_addType hadds₁.fit hsig
  have hfunc : (predeclared "Error" (.func none) (some signature.1)).Within signature.2.program :=
    within_predeclared "Error" ⟨rfl, rfl⟩ fun type h => Option.some.inj h ▸ hasSignature
  obtain ⟨hadds₃, hasMethod⟩ := hmethod ▸ adds_addObject hadds₂.fit hfunc
  have hint : (GoType.interface [method.1] []).Within method.2.program :=
    ⟨noType rfl, noType rfl, List.forall_mem_singleton.mpr hasMethod,
      fun _ h => absurd h List.not_mem_nil⟩
  obtain ⟨hadds₄, hasInterface⟩ := hinterface ▸ adds_addType hadds₃.fit hint
  have hname : (predeclared "error" .typeName none).Within interface.2.program :=
    within_predeclared "error" ⟨rfl, rfl⟩ fun _ h => nomatch h
  obtain ⟨hadds₅, hasError⟩ := herror ▸ adds_addObject hadds₄.fit hname
  obtain ⟨hadds₆, -⟩ := adds_addNamed hadds₅.fit hasError hnamed
  have hadds₇ := adds_setUnderlying hadds₆.fit
    (hadds₆.widens.hasType (hadds₅.widens.hasType hasInterface)) hunderlying
  have hadds₈ := adds_declare hadds₇.fit hdeclare
  exact hadds₁.trans (hadds₂.trans (hadds₃.trans (hadds₄.trans (hadds₅.trans (hadds₆.trans
    (hadds₇.trans hadds₈))))))

/-- The predeclared names can be added to any program whose references are in order. -/
theorem adds_populate (ha : a.program.Fit) (hrun : a.populate = .ok b) : a.Adds b := by
  unfold Assembly.populate at hrun
  obtain ⟨a₁, htypes, hrun⟩ := bind_eq_ok_iff.mp hrun
  have h₁ : a.Adds a₁ := by
    refine forIn_keeps (P := a.Adds) (.refl ha) (fun name _ c r hc hr => ?_) htypes
    obtain ⟨next, hnext, hr⟩ := bind_eq_ok_iff.mp hr
    cases hr
    have hwithin : (GoType.basic name).Within c.program := by
      refine ⟨?_, ?_, ?_, ?_⟩ <;> exact fun _ h => absurd h List.not_mem_nil
    obtain ⟨hadded, htype⟩ := adds_addType hc.fit hwithin
    refine ⟨next, rfl, (hc.trans hadded).trans (adds_predeclare hadded.fit ?_ hnext)⟩
    refine within_predeclared name ⟨rfl, rfl⟩ fun type h => ?_
    cases h
    exact htype
  obtain ⟨string, hstring, hrun⟩ := bind_eq_ok_iff.mp hrun
  obtain ⟨bool, hbool, hrun⟩ := bind_eq_ok_iff.mp hrun
  obtain ⟨int, hint, hrun⟩ := bind_eq_ok_iff.mp hrun
  replace hstring := hasType_of_universeType h₁.fit hstring
  replace hbool := hasType_of_universeType h₁.fit hbool
  replace hint := hasType_of_universeType h₁.fit hint
  obtain ⟨⟨named, a₂⟩, hnamed, hrun⟩ := bind_eq_ok_iff.mp hrun
  obtain ⟨a₃, hunderlying, hrun⟩ := bind_eq_ok_iff.mp hrun
  obtain ⟨a₄, hdeclare, hrun⟩ := bind_eq_ok_iff.mp hrun
  have h₄ : a₁.Adds a₄ := adds_error h₁.fit hstring rfl rfl rfl rfl rfl hnamed hunderlying hdeclare
  obtain ⟨a₅, hconsts, hrun⟩ := bind_eq_ok_iff.mp hrun
  have h₅ : a₁.Adds a₅ := by
    refine forIn_keeps (P := a₁.Adds) h₄ (fun const hconst c r hc hr => ?_) hconsts
    obtain ⟨next, hnext, hr⟩ := bind_eq_ok_iff.mp hr
    cases hr
    refine ⟨next, rfl, hc.trans (adds_predeclare hc.fit ?_ hnext)⟩
    refine within_predeclared _ ⟨rfl, rfl⟩ fun type h => hc.widens.hasType ?_
    cases h
    simp only [List.mem_cons, List.not_mem_nil, or_false] at hconst
    rcases hconst with rfl | rfl | rfl
    · exact hbool
    · exact hbool
    · exact hint
  obtain ⟨a₆, hfuncs, hnil⟩ := bind_eq_ok_iff.mp hrun
  have h₆ : a₁.Adds a₆ := by
    refine forIn_keeps (P := a₁.Adds) h₅ (fun name _ c r hc hr => ?_) hfuncs
    obtain ⟨next, hnext, hr⟩ := bind_eq_ok_iff.mp hr
    cases hr
    refine ⟨next, rfl, hc.trans (adds_predeclare hc.fit ?_ hnext)⟩
    exact within_predeclared name ⟨rfl, rfl⟩ fun _ h => nomatch h
  refine h₁.trans (h₆.trans (adds_predeclare h₆.fit ?_ hnil))
  exact within_predeclared _ ⟨rfl, rfl⟩ fun _ h => nomatch h

end Assembly

end SymbolGraph
