import SymbolGraph.Proofs.Program.Calls

/-!
# Programs that are put together

A program is reached by steps from one in which nothing is known (`Assembly.Reached`); the one in
which only the predeclared names are known is among them (`Assembly.reached_of_initial`), and so
are all that are put together by calls (`Assembly.Builds.reached`). No step takes a scope, a
child, an object or its name away, and what a step adds is in order (`Program.Extends`). So in
every program that is put together scopes know their parents, packages stand side by side below
the predeclared names, and objects are bound under their own names (`Program.Assembled.orderly`).
Its scopes form a tree, unless one was made to be its own child (`Program.Assembled.scopeTree`).
-/

namespace SymbolGraph

/-! ## Numbers that are given out -/

section Fetch

variable {α : Type} {items : Array α} {i j : Nat} {a b : α}

/-- What is there stays when something is added. -/
theorem fetch_push_of_ok (h : fetch items i = .ok a) : fetch (items.push b) i = .ok a := by
  have hget := fetch_eq_ok_iff.mp h
  obtain ⟨hlt, -⟩ := Array.getElem?_eq_some_iff.mp hget
  rw [fetch_eq_ok_iff, Array.getElem?_push, if_neg (Nat.ne_of_lt hlt), hget]

/-- The item that was added is at the end. -/
theorem fetch_push_self : fetch (items.push b) items.size = .ok b := by
  rw [fetch_eq_ok_iff, Array.getElem?_push, if_pos rfl]

/-- What is there after something is added was there, or is what was added. -/
theorem fetch_push_cases (h : fetch (items.push b) i = .ok a) :
    fetch items i = .ok a ∨ i = items.size ∧ a = b := by
  rw [fetch_eq_ok_iff, Array.getElem?_push] at h
  split at h
  · rename_i heq
    exact .inr ⟨heq, (Option.some.inj h).symm⟩
  · exact .inl (fetch_eq_ok_iff.mpr h)

/-- What is there stays at its number when something is changed. -/
theorem fetch_modify_of_ok {f : α → α} (h : fetch items i = .ok a) :
    fetch (items.modify j f) i = .ok (if j = i then f a else a) := by
  rw [fetch_eq_ok_iff, Array.getElem?_modify, fetch_eq_ok_iff.mp h]
  split <;> rfl

/-- The item that was changed is as it was changed. -/
theorem fetch_modify_self {f : α → α} (h : fetch items i = .ok a) :
    fetch (items.modify i f) i = .ok (f a) := by
  rw [fetch_modify_of_ok h, if_pos rfl]

/-- What is there after a change was there, changed or not. -/
theorem fetch_modify_cases {f : α → α} (h : fetch (items.modify j f) i = .ok b) :
    ∃ a, fetch items i = .ok a ∧ b = if j = i then f a else a := by
  rw [fetch_eq_ok_iff, Array.getElem?_modify] at h
  split at h
  · rename_i heq
    obtain ⟨a, hget, rfl⟩ := Option.map_eq_some_iff.mp h
    exact ⟨a, fetch_eq_ok_iff.mpr hget, (if_pos heq).symm⟩
  · rename_i hne
    exact ⟨b, fetch_eq_ok_iff.mpr h, (if_neg hne).symm⟩

end Fetch

/-! ## Single scopes -/

namespace Scope

variable {s : Scope} {name : String} {obj : ObjectId} {bindings : List (String × ObjectId)}

/-- No child is listed twice, and the names of the bindings increase. -/
structure Neat (s : Scope) : Prop where
  children : s.children.Nodup
  bindings : s.bindings.Pairwise fun a b => a.1 < b.1

/-- A scope without children and bindings is neat. -/
theorem neat_ofParent (parent : Option ScopeId) : (ofParent parent).Neat :=
  ⟨List.nodup_nil, .nil⟩

/-- A neat scope binds a name once. -/
theorem Neat.unique (h : s.Neat) {a b : ObjectId} (ha : (name, a) ∈ s.bindings)
    (hb : (name, b) ∈ s.bindings) : a = b := by
  have hnames := h.bindings
  generalize s.bindings = bindings at ha hb hnames
  induction hnames with
  | nil => cases ha
  | cons hfirst _ ih =>
    rcases List.mem_cons.mp ha with rfl | hrest <;> rcases List.mem_cons.mp hb with heq | hrest'
    · cases heq
      rfl
    · exact absurd (hfirst _ hrest') (String.lt_irrefl _)
    · subst heq
      exact absurd (hfirst _ hrest) (String.lt_irrefl _)
    · exact ih hrest hrest'

/-- Binding a name adds no other binding. -/
theorem mem_bindIn {b : String × ObjectId} (h : b ∈ bindIn name obj bindings) :
    b ∈ bindings ∨ b = (name, obj) := by
  induction bindings with
  | nil => exact .inr (List.mem_singleton.mp h)
  | cons first rest ih =>
    unfold bindIn at h
    split at h
    · rename_i heq
      rcases List.mem_cons.mp h with rfl | hrest
      · exact .inr (by rw [heq])
      · exact .inl (List.mem_cons_of_mem _ hrest)
    · split at h
      · exact (List.mem_cons.mp h).symm
      · rcases List.mem_cons.mp h with rfl | hrest
        · exact .inl List.mem_cons_self
        · exact (ih hrest).imp_left (List.mem_cons_of_mem _)

/-- Binding a name keeps the names in order. -/
theorem pairwise_bindIn (h : bindings.Pairwise fun a b => a.1 < b.1) :
    (bindIn name obj bindings).Pairwise fun a b => a.1 < b.1 := by
  induction h with
  | nil => exact List.pairwise_singleton _ _
  | @cons first rest hfirst hrest ih =>
    unfold bindIn
    split
    · exact .cons hfirst hrest
    · rename_i hne
      split
      · rename_i hlt
        refine .cons (fun b hb => ?_) (.cons hfirst hrest)
        rcases List.mem_cons.mp hb with rfl | hb
        · exact hlt
        · exact String.lt_trans hlt (hfirst b hb)
      · rename_i hnot
        refine .cons (fun b hb => ?_) ih
        rcases mem_bindIn hb with hb | rfl
        · exact hfirst b hb
        · exact Std.lt_of_le_of_ne (String.not_lt.mp hnot) (Ne.symm hne)

end Scope

/-! ## What is true of all programs -/

namespace Program

variable {p q : Program}

/-- Children know their parent and do not come before it, the predeclared names have none, scopes
are neat, packages stand side by side below the predeclared names, and objects are bound under their
own names. -/
structure Orderly (p : Program) : Prop where
  root : ∃ found, p.scope predeclared = .ok found ∧ found.parent = none
  parent : ∀ {scope child}, p.HasChild scope child → scope.index ≤ child.index ∧
    ∃ found, p.scope child = .ok found ∧ found.parent = some scope
  neat : ∀ {scope found}, p.scope scope = .ok found → found.Neat
  packages : ∀ {pkg owner}, p.package pkg = .ok owner → p.HasChild predeclared owner.scope
  named : ∀ {scope name obj}, p.Binds scope name obj →
    ∃ o, p.object obj = .ok o ∧ o.name = name

/-- All that is in one program is in another one, and whatever more is there is in order. -/
structure Extends (p q : Program) : Prop where
  scopes : ∀ {scope found}, p.scope scope = .ok found → ∃ found', q.scope scope = .ok found' ∧
    found'.parent = found.parent ∧ ∀ child ∈ found.children, child ∈ found'.children
  objects : ∀ {obj o}, p.object obj = .ok o → ∃ o', q.object obj = .ok o' ∧ o'.name = o.name
  children : ∀ {scope child}, q.HasChild scope child → p.HasChild scope child ∨
    scope.index ≤ child.index ∧ ∃ found, q.scope child = .ok found ∧ found.parent = some scope
  neat : ∀ {scope found}, q.scope scope = .ok found → p.scope scope = .ok found ∨ found.Neat
  packages : ∀ {pkg owner}, q.package pkg = .ok owner → p.package pkg = .ok owner ∨
    q.HasChild predeclared owner.scope
  bindings : ∀ {scope name obj}, q.Binds scope name obj → p.Binds scope name obj ∨
    ∃ o, q.object obj = .ok o ∧ o.name = name

/-- Children stay children. -/
theorem Extends.hasChild (h : Extends p q) {scope child : ScopeId}
    (hchild : p.HasChild scope child) : q.HasChild scope child := by
  obtain ⟨found, hfound, hmem⟩ := hchild
  obtain ⟨found', hfound', -, hchildren⟩ := h.scopes hfound
  exact ⟨found', hfound', hchildren child hmem⟩

namespace Orderly

/-- What is in order stays so when whatever is added is in order. -/
theorem of_extends (hp : p.Orderly) (h : Extends p q) : q.Orderly where
  root := by
    obtain ⟨found, hfound, hparent⟩ := hp.root
    obtain ⟨found', hfound', hsame, -⟩ := h.scopes hfound
    exact ⟨found', hfound', hsame.trans hparent⟩
  parent hchild := by
    rcases h.children hchild with hold | hnew
    · obtain ⟨hle, found, hfound, hparent⟩ := hp.parent hold
      obtain ⟨found', hfound', hsame, -⟩ := h.scopes hfound
      exact ⟨hle, found', hfound', hsame.trans hparent⟩
    · exact hnew
  neat hfound := (h.neat hfound).elim hp.neat id
  packages hpackage := by
    rcases h.packages hpackage with hold | hnew
    · exact h.hasChild (hp.packages hold)
    · exact hnew
  named hbinds := by
    rcases h.bindings hbinds with hold | hnew
    · obtain ⟨o, ho, hname⟩ := hp.named hold
      obtain ⟨o', ho', hsame⟩ := h.objects ho
      exact ⟨o', ho', hsame.trans hname⟩
    · exact hnew

/-- Sources, syntax and types do not matter. -/
theorem of_eq (hp : p.Orderly) (hscopes : q.scopes = p.scopes) (hobjects : q.objects = p.objects)
    (hpackages : q.packages = p.packages) : q.Orderly := by
  obtain ⟨_, _, _, _, _, _⟩ := p
  obtain ⟨_, _, _, _, _, _⟩ := q
  subst hscopes hobjects hpackages
  exact ⟨hp.root, hp.parent, hp.neat, hp.packages, hp.named⟩

/-- Objects may be added, and changed if they keep their names. -/
theorem withObjects (hp : p.Orderly) {objects : Array Object}
    (h : ∀ {obj : ObjectId} {o}, p.object obj = .ok o →
      ∃ o', fetch objects obj.index = .ok o' ∧ o'.name = o.name) :
    { p with objects := objects }.Orderly :=
  hp.of_extends ⟨fun hfound => ⟨_, hfound, rfl, fun _ hchild => hchild⟩, h, .inl, .inl, .inl, .inl⟩

/-- A scope without children and bindings may be added, whatever its parent. -/
theorem addScope (hp : p.Orderly) (parent : Option ScopeId) :
    { p with scopes := p.scopes.push (Scope.ofParent parent) }.Orderly := by
  refine hp.of_extends ⟨fun hfound => ⟨_, fetch_push_of_ok hfound, rfl, fun _ hchild => hchild⟩,
    fun ho => ⟨_, ho, rfl⟩, ?_, ?_, .inl, ?_⟩
  · rintro scope child ⟨found, hfound, hmem⟩
    rcases fetch_push_cases hfound with hold | ⟨-, rfl⟩
    · exact .inl ⟨found, hold, hmem⟩
    · cases hmem
  · intro scope found hfound
    rcases fetch_push_cases hfound with hold | ⟨-, rfl⟩
    · exact .inl hold
    · exact .inr (Scope.neat_ofParent parent)
  · rintro scope name obj ⟨found, hfound, hmem⟩
    rcases fetch_push_cases hfound with hold | ⟨-, rfl⟩
    · exact .inl ⟨found, hold, hmem⟩
    · cases hmem

/-- A scope may be given children that know it as their parent, and bindings of objects under their
own names. -/
theorem changeScope (hp : p.Orderly) {scope : ScopeId} {f : Scope → Scope}
    (hparent : ∀ s, (f s).parent = s.parent)
    (hkept : ∀ s, ∀ child ∈ s.children, child ∈ (f s).children)
    (hneat : ∀ s, p.scope scope = .ok s → (f s).Neat)
    (hchildren : ∀ s, ∀ child ∈ (f s).children, child ∈ s.children ∨
      scope.index ≤ child.index ∧ ∃ found, p.scope child = .ok found ∧ found.parent = some scope)
    (hbindings : ∀ s, ∀ b ∈ (f s).bindings, b ∈ s.bindings ∨
      ∃ o, p.object b.2 = .ok o ∧ o.name = b.1) :
    { p with scopes := p.scopes.modify scope.index f }.Orderly := by
  have hscopes : ∀ {other : ScopeId} {found}, p.scope other = .ok found →
      ∃ found', fetch (p.scopes.modify scope.index f) other.index = .ok found' ∧
        found'.parent = found.parent ∧ ∀ child ∈ found.children, child ∈ found'.children := by
    intro other found hfound
    refine ⟨_, fetch_modify_of_ok hfound, ?_⟩
    split
    · exact ⟨hparent found, hkept found⟩
    · exact ⟨rfl, fun _ hchild => hchild⟩
  -- a scope is the one that is changed, or as it was
  have hcases : ∀ {other : ScopeId} {found}, fetch (p.scopes.modify scope.index f) other.index =
      .ok found → p.scope other = .ok found ∨
        ∃ base, scope = other ∧ p.scope scope = .ok base ∧ found = f base := by
    rintro ⟨i⟩ found hfound
    obtain ⟨base, hbase, rfl⟩ := fetch_modify_cases hfound
    split
    · rename_i heq
      subst heq
      exact .inr ⟨base, rfl, hbase, rfl⟩
    · exact .inl hbase
  refine hp.of_extends ⟨hscopes, fun ho => ⟨_, ho, rfl⟩, ?_, ?_, .inl, ?_⟩
  · rintro other child ⟨found, hfound, hmem⟩
    rcases hcases hfound with hold | ⟨base, rfl, hbase, rfl⟩
    · exact .inl ⟨found, hold, hmem⟩
    · refine (hchildren base child hmem).imp (fun hold => ⟨base, hbase, hold⟩) ?_
      rintro ⟨hle, known, hknown, hback⟩
      obtain ⟨known', hknown', hsame, -⟩ := hscopes hknown
      exact ⟨hle, known', hknown', hsame.trans hback⟩
  · intro other found hfound
    rcases hcases hfound with hold | ⟨base, rfl, hbase, rfl⟩
    · exact .inl hold
    · exact .inr (hneat base hbase)
  · rintro other name obj ⟨found, hfound, hmem⟩
    rcases hcases hfound with hold | ⟨base, rfl, hbase, rfl⟩
    · exact .inl ⟨found, hold, hmem⟩
    · exact (hbindings base _ hmem).imp_left fun hold => ⟨base, hbase, hold⟩

/-- A package may be added whose scope is a child of that of the predeclared names. -/
theorem addPackage (hp : p.Orderly) {owner : Package}
    (h : p.HasChild predeclared owner.scope) :
    { p with packages := p.packages.push owner }.Orderly := by
  refine hp.of_extends ⟨fun hfound => ⟨_, hfound, rfl, fun _ hchild => hchild⟩,
    fun ho => ⟨_, ho, rfl⟩, .inl, .inl, fun hpackage => ?_, .inl⟩
  rcases fetch_push_cases hpackage with hold | ⟨-, rfl⟩
  · exact .inl hold
  · exact .inr h

/-- A scope is the child of one scope only, since it knows its parent. -/
theorem parent_eq (hp : p.Orderly) {a b child : ScopeId} (ha : p.HasChild a child)
    (hb : p.HasChild b child) : a = b := by
  obtain ⟨-, found, hfound, hparent⟩ := hp.parent ha
  obtain ⟨-, found', hfound', hparent'⟩ := hp.parent hb
  rw [hfound] at hfound'
  cases hfound'
  exact Option.some.inj (hparent.symm.trans hparent')

/-- No scope has the predeclared names for a child. -/
theorem not_hasChild_predeclared (hp : p.Orderly) {scope : ScopeId} :
    ¬ p.HasChild scope predeclared := by
  intro hchild
  obtain ⟨-, found, hfound, hparent⟩ := hp.parent hchild
  obtain ⟨root, hroot, hnone⟩ := hp.root
  rw [hfound] at hroot
  cases hroot
  rw [hparent] at hnone
  cases hnone

/-- Scopes form a tree where none is its own child. -/
theorem scopeTree (hp : p.Orderly) (hself : ∀ scope, ¬ p.HasChild scope scope) : p.ScopeTree where
  later {scope child} hchild := by
    refine Nat.lt_of_le_of_ne (hp.parent hchild).1 fun heq => ?_
    obtain ⟨i⟩ := scope
    obtain ⟨j⟩ := child
    subst heq
    exact hself _ hchild
  parent hchild := (hp.parent hchild).2
  nodup hfound := (hp.neat hfound).children
  unique := by
    rintro scope name a b ⟨found, hfound, ha⟩ ⟨found', hfound', hb⟩
    rw [hfound] at hfound'
    cases hfound'
    exact (hp.neat hfound).unique ha hb

end Orderly

end Program

/-! ## Steps -/

namespace Assembly

variable {a b : Assembly}

/-- What is reached by steps from the assembly in which nothing is known. All other steps are made
of these. -/
inductive Reached : Assembly → Prop
  | bare : Reached bare
  | addObject {a : Assembly} (o : Object) : Reached a → Reached (a.addObject o).2
  | addType {a : Assembly} (t : GoType) : Reached a → Reached (a.addType t).2
  | addScope {a b : Assembly} {parent id : ScopeId} : Reached a →
      a.addScope parent = .ok (id, b) → Reached b
  | declare {a b : Assembly} {scope : ScopeId} {obj : ObjectId} : Reached a →
      a.declare scope obj = .ok b → Reached b
  | setType {a b : Assembly} {obj : ObjectId} {type : TypeId} : Reached a →
      a.setType obj type = .ok b → Reached b
  | changeType {a b : Assembly} {type : TypeId} {f : GoType → GoType} : Reached a →
      a.changeType type f = .ok b → Reached b
  | addPackage {a b : Assembly} {path name : String} {id : PackageId} : Reached a →
      a.addPackage path name = .ok (id, b) → Reached b
  | addFile {a b : Assembly} {pkg : PackageId} {name text : String} {id : FileId} : Reached a →
      a.addFile pkg name text = .ok (id, b) → Reached b
  | changePackage {a b : Assembly} {file : FileId} {f : CheckedPackage → CheckedPackage} :
      Reached a → a.changePackage file f = .ok b → Reached b
  | addNode {a : Assembly} (file : FileId) (range : TextRange) (kind : NodeKind) : Reached a →
      Reached (a.addNode file range kind).2

/-- The program in which nothing is known is in order. -/
theorem orderly_bare : bare.program.Orderly where
  root := ⟨_, rfl, rfl⟩
  parent := by
    rintro ⟨_ | i⟩ child ⟨found, hfound, hmem⟩ <;> cases hfound
    cases hmem
  neat := by
    rintro ⟨_ | i⟩ found hfound <;> cases hfound
    exact Scope.neat_ofParent none
  packages h := by cases h
  named := by
    rintro ⟨_ | i⟩ name obj ⟨found, hfound, hmem⟩ <;> cases hfound
    cases hmem

/-- The new scope knows its parent, and its parent has it as a child. -/
theorem orderly_addScope {parent id : ScopeId} (h : a.program.Orderly)
    (hstep : a.addScope parent = .ok (id, b)) :
    b.program.Orderly ∧ b.program.HasChild parent id := by
  obtain ⟨around, haround, hstep⟩ := bind_eq_ok_iff.mp hstep
  cases hstep
  have hparent : parent.index ≤ a.program.scopes.size := by
    obtain ⟨hlt, -⟩ := Array.getElem?_eq_some_iff.mp (fetch_eq_ok_iff.mp haround)
    rw [Array.size_push] at hlt
    exact Nat.le_of_lt_succ hlt
  -- the number of the new scope is not among the children that are known
  have hfresh : ∀ {s}, fetch (a.program.scopes.push (Scope.ofParent (some parent))) parent.index =
      .ok s → (⟨a.program.scopes.size⟩ : ScopeId) ∉ s.children := by
    intro s hs hmem
    rcases fetch_push_cases hs with hold | ⟨-, rfl⟩
    · obtain ⟨-, _, hknown, -⟩ := h.parent ⟨s, hold, hmem⟩
      obtain ⟨hlt, -⟩ := Array.getElem?_eq_some_iff.mp (fetch_eq_ok_iff.mp hknown)
      exact Nat.lt_irrefl _ hlt
    · cases hmem
  constructor
  · have hpushed := h.addScope (some parent)
    refine hpushed.changeScope (fun _ => rfl) (fun _ _ hchild => List.mem_append_left _ hchild)
      (fun s hs => ⟨?_, (hpushed.neat hs).bindings⟩) (fun s child hchild => ?_) (fun _ _ => .inl)
    · refine List.nodup_append.mpr ⟨(hpushed.neat hs).children, List.pairwise_singleton _ _, ?_⟩
      rintro x hx y hy rfl
      exact hfresh hs (List.mem_singleton.mp hy ▸ hx)
    · rcases List.mem_append.mp hchild with hold | hnew
      · exact .inl hold
      · rw [List.mem_singleton.mp hnew]
        exact .inr ⟨hparent, _, fetch_push_self, rfl⟩
  · exact ⟨_, fetch_modify_self haround, List.mem_append_right _ (List.mem_singleton_self _)⟩

/-- A program stays orderly when an object is bound under its own name. -/
theorem orderly_declare {scope : ScopeId} {obj : ObjectId} (h : a.program.Orderly)
    (hstep : a.declare scope obj = .ok b) : b.program.Orderly := by
  obtain ⟨o, ho, hstep⟩ := bind_eq_ok_iff.mp hstep
  obtain ⟨_, -, hstep⟩ := bind_eq_ok_iff.mp hstep
  cases hstep
  have hobjects : { a.program with objects := a.program.objects.modify obj.index fun o =>
      { o with parent := some scope } }.Orderly := by
    refine h.withObjects fun ho => ⟨_, fetch_modify_of_ok ho, ?_⟩
    split <;> rfl
  refine hobjects.changeScope (fun _ => rfl) (fun _ _ hchild => hchild)
    (fun s hs => ⟨(h.neat hs).children, Scope.pairwise_bindIn (h.neat hs).bindings⟩)
    (fun _ _ => .inl) fun s b hb => (Scope.mem_bindIn hb).imp_right ?_
  rintro rfl
  exact ⟨_, fetch_modify_self ho, rfl⟩

/-- A program stays orderly when an object gets a type. -/
theorem orderly_setType {obj : ObjectId} {type : TypeId} (h : a.program.Orderly)
    (hstep : a.setType obj type = .ok b) : b.program.Orderly := by
  obtain ⟨_, -, hstep⟩ := bind_eq_ok_iff.mp hstep
  cases hstep
  refine h.withObjects fun ho => ⟨_, fetch_modify_of_ok ho, ?_⟩
  split <;> rfl

/-- A program stays orderly when a package is added with its scope. -/
theorem orderly_addPackage {path name : String} {id : PackageId} (h : a.program.Orderly)
    (hstep : a.addPackage path name = .ok (id, b)) : b.program.Orderly := by
  obtain ⟨⟨scope, next⟩, hscope, hstep⟩ := bind_eq_ok_iff.mp hstep
  cases hstep
  obtain ⟨hnext, hchild⟩ := orderly_addScope h hscope
  exact hnext.addPackage hchild

/-- A program stays orderly when a file is added with its scope. -/
theorem orderly_addFile {pkg : PackageId} {name text : String} {id : FileId}
    (h : a.program.Orderly) (hstep : a.addFile pkg name text = .ok (id, b)) :
    b.program.Orderly := by
  obtain ⟨parent, -, hstep⟩ := bind_eq_ok_iff.mp hstep
  obtain ⟨⟨scope, next⟩, hscope, hstep⟩ := bind_eq_ok_iff.mp hstep
  cases hstep
  have hsources : { a.program with sources := (a.program.sources.add name text).2 }.Orderly :=
    h.of_eq rfl rfl rfl
  exact (orderly_addScope (a := { a with program := _ }) hsources hscope).1

/-- No step puts a program out of order. -/
theorem Reached.orderly (h : a.Reached) : a.program.Orderly := by
  induction h with
  | bare => exact orderly_bare
  | addObject o _ ih => exact ih.withObjects fun ho => ⟨_, fetch_push_of_ok ho, rfl⟩
  | addType t _ ih => exact ih.of_eq rfl rfl rfl
  | addScope _ hstep ih => exact (orderly_addScope ih hstep).1
  | declare _ hstep ih => exact orderly_declare ih hstep
  | setType _ hstep ih => exact orderly_setType ih hstep
  | changeType _ hstep ih =>
    obtain ⟨_, -, hstep⟩ := bind_eq_ok_iff.mp hstep
    cases hstep
    exact ih.of_eq rfl rfl rfl
  | addPackage _ hstep ih => exact orderly_addPackage ih hstep
  | addFile _ hstep ih => exact orderly_addFile ih hstep
  | changePackage _ hstep ih =>
    unfold Assembly.changePackage at hstep
    split at hstep
    · obtain ⟨_, -, hstep⟩ := bind_eq_ok_iff.mp hstep
      cases hstep
      exact ih
    · cases hstep
  | addNode file range kind _ ih => exact ih.of_eq rfl rfl rfl

/-- Nodes may be made one after the other, of which only the syntax tells. -/
theorem Reached.addNodes (h : a.Reached) (file : FileId) (shapes : List (TextRange × NodeKind)) :
    ∃ b : Assembly, b.Reached ∧ b.program = { a.program with
      tree := shapes.foldl (fun t x => (t.alloc file x.1 x.2).2) a.program.tree } := by
  induction shapes generalizing a with
  | nil => exact ⟨a, h, rfl⟩
  | cons x rest ih => exact ih (h.addNode file x.1 x.2)

/-! ### The predeclared names -/

/-- Predeclaring a name is adding an object and declaring it. -/
theorem Reached.predeclare {o : Object} (h : a.Reached) (hstep : a.predeclare o = .ok b) :
    b.Reached :=
  (h.addObject o).declare hstep

/-- A named type is added as a type and set as that of its object. -/
theorem Reached.addNamed {obj : ObjectId} {type : TypeId} (h : a.Reached)
    (hstep : a.addNamed obj = .ok (type, b)) : b.Reached := by
  obtain ⟨next, hnext, hstep⟩ := bind_eq_ok_iff.mp hstep
  cases hstep
  exact (h.addType _).setType hnext

/-- What a step for each item of a list keeps is kept by all of them together. -/
theorem forIn_keeps {P : Assembly → Prop} {α : Type} {list : List α}
    {f : α → Assembly → Except Fault (ForInStep Assembly)} (h : P a)
    (hf : ∀ x ∈ list, ∀ a r, P a → f x a = .ok r → ∃ c, r = .yield c ∧ P c)
    (hrun : forIn list a f = .ok b) : P b := by
  induction list generalizing a with
  | nil =>
    rw [List.forIn_nil] at hrun
    cases hrun
    exact h
  | cons x rest ih =>
    rw [List.forIn_cons] at hrun
    obtain ⟨r, hr, hrun⟩ := bind_eq_ok_iff.mp hrun
    obtain ⟨c, rfl, hc⟩ := hf x List.mem_cons_self a r h hr
    exact ih hc (fun y hy => hf y (List.mem_cons_of_mem _ hy)) hrun

/-- The predeclared names and types are added by steps. -/
theorem Reached.populate (h : a.Reached) (hrun : a.populate = .ok b) : b.Reached := by
  unfold Assembly.populate at hrun
  obtain ⟨a₁, htypes, hrun⟩ := bind_eq_ok_iff.mp hrun
  have h₁ : a₁.Reached := by
    refine forIn_keeps h (fun name _ a r ha hr => ?_) htypes
    obtain ⟨c, hc, hr⟩ := bind_eq_ok_iff.mp hr
    cases hr
    exact ⟨c, rfl, (ha.addType _).predeclare hc⟩
  obtain ⟨string, -, hrun⟩ := bind_eq_ok_iff.mp hrun
  obtain ⟨bool, -, hrun⟩ := bind_eq_ok_iff.mp hrun
  obtain ⟨int, -, hrun⟩ := bind_eq_ok_iff.mp hrun
  -- the type `error` with its method
  obtain ⟨⟨named, a₂⟩, hnamed, hrun⟩ := bind_eq_ok_iff.mp hrun
  obtain ⟨a₃, hunderlying, hrun⟩ := bind_eq_ok_iff.mp hrun
  obtain ⟨a₄, hdeclare, hrun⟩ := bind_eq_ok_iff.mp hrun
  have h₂ : a₂.Reached :=
    (((((h₁.addObject _).addType _).addObject _).addType _).addObject _).addNamed hnamed
  have h₄ : a₄.Reached := (h₂.changeType hunderlying).declare hdeclare
  obtain ⟨a₅, hconsts, hrun⟩ := bind_eq_ok_iff.mp hrun
  have h₅ : a₅.Reached := by
    refine forIn_keeps h₄ (fun const _ a r ha hr => ?_) hconsts
    obtain ⟨c, hc, hr⟩ := bind_eq_ok_iff.mp hr
    cases hr
    exact ⟨c, rfl, ha.predeclare hc⟩
  obtain ⟨a₆, hfuncs, hnil⟩ := bind_eq_ok_iff.mp hrun
  have h₆ : a₆.Reached := by
    refine forIn_keeps h₅ (fun name _ a r ha hr => ?_) hfuncs
    obtain ⟨c, hc, hr⟩ := bind_eq_ok_iff.mp hr
    cases hr
    exact ⟨c, rfl, ha.predeclare hc⟩
  exact h₆.predeclare hnil

/-- Steps may as well begin with the predeclared names. -/
theorem reached_of_initial (h : initial = .ok a) : a.Reached := Reached.bare.populate h

/-! ### Calls -/

section Calls

variable {node : NodeId}

/-- Recording a fact changes the package that a node belongs to. -/
theorem Reached.changeFacts {f : Facts → Facts} (h : a.Reached)
    (hstep : a.changeFacts node f = .ok b) : b.Reached := by
  obtain ⟨file, -, hstep⟩ := bind_eq_ok_iff.mp hstep
  exact h.changePackage hstep

/-- A node is put around others by adding one. -/
theorem Reached.wrap {kind : NodeKind} (h : a.Reached) (hstep : a.wrap kind = .ok (node, b)) :
    b.Reached := by
  unfold Assembly.wrap at hstep
  split at hstep
  · cases hstep
  · obtain ⟨start, -, hstep⟩ := bind_eq_ok_iff.mp hstep
    obtain ⟨ranges, -, hstep⟩ := bind_eq_ok_iff.mp hstep
    obtain ⟨file, -, hstep⟩ := bind_eq_ok_iff.mp hstep
    cases hstep
    exact h.addNode file _ kind

variable {file : FileId} {name : String} {nth : Nat}

/-- An identifier is found in a file and added as a node. -/
theorem Reached.ident (h : a.Reached) (hstep : a.ident file name nth = .ok (node, b)) :
    b.Reached := by
  obtain ⟨range, -, hstep⟩ := bind_eq_ok_iff.mp hstep
  cases hstep
  exact h.addNode file range _

/-- The node of a file is made, and then recorded for the file's package. -/
theorem Reached.finishFile {ident : NodeId} {decls : List NodeId} {doc : Option CommentGroup}
    {comments : List CommentGroup} (h : a.Reached)
    (hstep : a.finishFile file ident decls doc comments = .ok (node, b)) : b.Reached := by
  obtain ⟨scope, -, hstep⟩ := bind_eq_ok_iff.mp hstep
  obtain ⟨next, hnext, hstep⟩ := bind_eq_ok_iff.mp hstep
  cases hstep
  exact (h.addNode file _ _).changePackage hnext

/-- Every call is made of steps. -/
theorem Reached.answer {c : Call} {ids : List Number} (h : a.Reached)
    (hstep : a.answer c = .ok (ids, b)) : b.Reached := by
  cases c with
  | program | universeScope | universeObject _ | universeType _ | packageScope _ | fileScope _
  | tryFind _ _ _ | find _ _ _ | pos _ _ _ | comment _ _ _ =>
    obtain ⟨_, -, -, rfl⟩ := asked_eq_ok hstep
    exact h
  | addPackage path name =>
    obtain ⟨pkg, hcall, -⟩ := numbered_eq_ok hstep
    exact h.addPackage hcall
  | addFile pkg name text =>
    obtain ⟨file, hcall, -⟩ := numbered_eq_ok hstep
    exact h.addFile hcall
  | addObject o =>
    obtain ⟨obj, hcall, -⟩ := numbered_eq_ok hstep
    cases hcall
    exact h.addObject o
  | addType t =>
    obtain ⟨type, hcall, -⟩ := numbered_eq_ok hstep
    cases hcall
    exact h.addType t
  | addNamed obj =>
    obtain ⟨type, hcall, -⟩ := numbered_eq_ok hstep
    exact h.addNamed hcall
  | addScope parent =>
    obtain ⟨scope, hcall, -⟩ := numbered_eq_ok hstep
    exact h.addScope hcall
  | declare scope obj =>
    obtain ⟨hcall, -⟩ := silent_eq_ok hstep
    exact h.declare hcall
  | setType obj type =>
    obtain ⟨hcall, -⟩ := silent_eq_ok hstep
    exact h.setType hcall
  | setUnderlying _ _ | addMethod _ _ =>
    obtain ⟨hcall, -⟩ := silent_eq_ok hstep
    exact h.changeType hcall
  | addNode file range kind =>
    obtain ⟨node, hcall, -⟩ := numbered_eq_ok hstep
    cases hcall
    exact h.addNode file range kind
  | wrap kind =>
    obtain ⟨node, hcall, -⟩ := numbered_eq_ok hstep
    exact h.wrap hcall
  | ident file name nth =>
    obtain ⟨node, hcall, -⟩ := numbered_eq_ok hstep
    exact h.ident hcall
  | defIdent _ _ _ _ | useIdent _ _ _ _ =>
    obtain ⟨node, hcall, -⟩ := numbered_eq_ok hstep
    obtain ⟨⟨ident, next⟩, hident, hcall⟩ := bind_eq_ok_iff.mp hcall
    obtain ⟨last, hlast, hcall⟩ := bind_eq_ok_iff.mp hcall
    cases hcall
    exact (h.ident hident).changeFacts hlast
  | finishFile file name decls doc comments =>
    obtain ⟨node, hcall, -⟩ := numbered_eq_ok hstep
    exact h.finishFile hcall
  | define _ _ | recordUse _ _ | recordImplicit _ _ | recordSelection _ _ | recordScope _ _ =>
    obtain ⟨hcall, -⟩ := silent_eq_ok hstep
    exact h.changeFacts hcall

/-- What is put together by calls is reached by steps, whatever numbers the calls mention. -/
theorem Builds.reached {given : List Number} (h : Builds given a) : a.Reached := by
  induction h with
  | initial hfirst => exact reached_of_initial hfirst
  | call _ _ hstep ih => exact ih.answer hstep

end Calls

end Assembly

/-! ## Programs -/

namespace Program

variable {p : Program}

/-- A program is put together by steps. -/
def Assembled (p : Program) : Prop := ∃ a : Assembly, a.Reached ∧ a.program = p

/-- What is shown of programs that are put together by steps holds of all that calls put
together. -/
theorem assembled_of_builds {given : List Number} {a : Assembly} (h : Assembly.Builds given a) :
    a.program.Assembled := ⟨a, h.reached, rfl⟩

/-- A program that is put together by steps is in order. -/
theorem Assembled.orderly (hp : p.Assembled) : p.Orderly := by
  obtain ⟨a, ha, rfl⟩ := hp
  exact ha.orderly

/-- **Scopes form a tree.** In every program that is put together they do, unless one was made to be
its own child. -/
theorem Assembled.scopeTree (hp : p.Assembled) (hself : ∀ scope, ¬ p.HasChild scope scope) :
    p.ScopeTree :=
  hp.orderly.scopeTree hself

end Program

end SymbolGraph
