import SymbolGraph.Proofs.Run.References

/-!
# Declarations

What the nodes of a package declare. Reading its files in order, every node presents some names as
declared; those that are not blank and declare an object other than the name of a package are its
`Program.declarations`. Gone through one by one, a declaration is refused if its object cannot be
declared at all, or if its key, as text, is the package's or that of another object that was
declared before (`Program.refusal?`). The first refusal of all is `Program.firstRefusal?`.
-/

namespace SymbolGraph

/-! ## What is declared -/

/-- A name that a node presents as declared, and the object that it declares. -/
structure Declaration where
  node : NodeId
  name : NodeId
  obj : ObjectId
  deriving DecidableEq, Repr

/-- The error of declaring something that cannot be declared. -/
def Object.undeclarable? (o : Object) : Option GraphError :=
  match o.kind with
  | .builtin | .nil => some (.undeclarable o.name o.kind.word)
  | _ => none

namespace Program

/-- The object that a name declares; none for other nodes, for the blank name and for names of
packages. -/
def declaredObject? (p : Program) (k : CheckedPackage) (name : NodeId) : Option ObjectId :=
  match p.tree.identName? name with
  | .ok (some n) =>
    if n = "_" then none else (k.facts.defs.get? name).filter fun obj => !p.isPackageName obj
  | _ => none

/-- What a node declares by one of the names that it presents. -/
def declaration? (p : Program) (k : CheckedPackage) (node name : NodeId) : Option Declaration :=
  (p.declaredObject? k name).map fun obj => ⟨node, name, obj⟩

/-- The names that a node presents as declared. -/
def presented (p : Program) (node : NodeId) : List NodeId :=
  match p.tree.kind node with
  | .ok kind =>
    match GraphContext.declaredNames p.tree kind with
    | .ok names => names
    | .error _ => []
  | .error _ => []

/-- The names that a node presents are what the walk gets for its kind. -/
theorem presented_eq {p : Program} {node : NodeId} {kind : NodeKind} {names : List NodeId}
    (hkind : p.tree.kind node = .ok kind)
    (hnames : GraphContext.declaredNames p.tree kind = .ok names) : p.presented node = names := by
  unfold presented
  rw [hkind]
  dsimp only
  rw [hnames]

/-- What nodes declare that are read in this order. -/
def declarations (p : Program) (k : CheckedPackage) (nodes : List NodeId) : List Declaration :=
  nodes.flatMap fun node => (p.presented node).filterMap (p.declaration? k node)

/-- A name that declares an object is an identifier that is not blank, and the object is not the
name of a package. -/
theorem declaredObject?_eq_some {p : Program} {k : CheckedPackage} {name : NodeId}
    {obj : ObjectId} (h : p.declaredObject? k name = some obj) :
    ∃ n text, p.tree.node name = .ok n ∧ n.kind = .ident text ∧ text ≠ "_" ∧
      k.facts.defs.get? name = some obj ∧ p.isPackageName obj = false := by
  unfold declaredObject? at h
  cases hn : p.tree.node name with
  | error f =>
    unfold SyntaxTree.identName? at h
    rw [hn] at h
    cases h
  | ok n =>
    unfold SyntaxTree.identName? at h
    rw [hn] at h
    cases hkind : n.kind with
    | ident text =>
      simp only [Functor.map, Except.map, hkind, NodeKind.identName?] at h
      by_cases hblank : text = "_"
      · rw [if_pos hblank] at h
        cases h
      · rw [if_neg hblank] at h
        obtain ⟨hobj, hpackage⟩ := Option.filter_eq_some_iff.mp h
        exact ⟨n, text, rfl, hkind, hblank, hobj, by simpa using hpackage⟩
    | _ =>
      simp only [Functor.map, Except.map, hkind, NodeKind.identName?] at h
      cases h

/-- Whatever is declared is declared by a node that is read, under a name that it presents. -/
theorem mem_declarations {p : Program} {k : CheckedPackage} {nodes : List NodeId}
    {d : Declaration} (h : d ∈ p.declarations k nodes) :
    d.node ∈ nodes ∧ d.name ∈ p.presented d.node ∧ p.declaredObject? k d.name = some d.obj := by
  obtain ⟨node, hnode, hd⟩ := List.mem_flatMap.mp h
  obtain ⟨name, hname, hd⟩ := List.mem_filterMap.mp hd
  obtain ⟨obj, hobj, rfl⟩ := Option.map_eq_some_iff.mp hd
  exact ⟨hnode, hname, hobj⟩

/-- The names that a node presents are its children, or what a child that is a pointer type points
to. -/
theorem mem_declaredNames {t : SyntaxTree} {kind : NodeKind} {names : List NodeId}
    {name : NodeId} (h : GraphContext.declaredNames t kind = .ok names) (hname : name ∈ names) :
    name ∈ kind.readBelow ∨
      ∃ type ∈ kind.readBelow, t.kind type = .ok (.starExpr name) := by
  unfold GraphContext.declaredNames at h
  split at h
  · cases h
    exact .inl (by simp_all [NodeKind.readBelow, NodeKind.children])
  · cases h
    exact .inl (by simp_all [NodeKind.readBelow, NodeKind.children])
  · cases h
    exact .inl (by simp_all [NodeKind.readBelow, NodeKind.children])
  · cases h
    exact .inl (by simp_all [NodeKind.readBelow, NodeKind.children])
  · cases h
    refine .inl ?_
    simp only [NodeKind.readBelow, NodeKind.children]
    exact List.mem_append_left _ hname
  · rename_i fieldNames type doc comment
    obtain ⟨typeKind, htype, h⟩ := bind_eq_ok_iff.mp h
    have hbelow : (NodeKind.field fieldNames type doc comment).readBelow =
        fieldNames ++ [type] := by
      rw [NodeKind.readBelow, NodeKind.children]
      · simp
      · simp
    rw [hbelow]
    have hown : name = type ∨ name ∈ fieldNames → name ∈ fieldNames ++ [type] := by
      rintro (rfl | hmem)
      · exact List.mem_append_right _ List.mem_cons_self
      · exact List.mem_append_left _ hmem
    split at h
    · cases h
      rcases List.mem_cons.mp hname with rfl | hname
      · exact .inl (hown (.inl rfl))
      · rcases List.mem_cons.mp hname with rfl | hname
        · exact .inr ⟨type, List.mem_append_right _ List.mem_cons_self, htype⟩
        · exact .inl (hown (.inr hname))
    · cases h
      exact .inl (hown (List.mem_cons.mp hname))
  · cases h
    cases hname

/-- The names that a node presents are read after it. -/
theorem mem_of_presented {p : Program} {files nodes : List NodeId} {node name : NodeId}
    (h : p.tree.Reads files nodes) (hnode : node ∈ nodes) (hname : name ∈ p.presented node) :
    name ∈ nodes := by
  unfold presented at hname
  cases hkind : p.tree.kind node with
  | error f => rw [hkind] at hname; cases hname
  | ok kind =>
    rw [hkind] at hname
    obtain ⟨n, hn, rfl⟩ := SyntaxTree.node_of_kind hkind
    cases hnames : GraphContext.declaredNames p.tree n.kind with
    | error f => simp only [hnames] at hname; cases hname
    | ok names =>
      simp only [hnames] at hname
      rcases mem_declaredNames hnames hname with hbelow | ⟨type, hbelow, hstar⟩
      · exact h.mem_of_readBelow hnode hn hbelow
      · -- behind a star the name is a child of the type
        have htype := h.mem_of_readBelow hnode hn hbelow
        obtain ⟨n', hn', hkind'⟩ := SyntaxTree.node_of_kind hstar
        exact h.mem_of_readBelow htype hn' (by rw [hkind']; exact List.mem_cons_self)

/-! ## What is refused -/

/-- The error of declaring an object that cannot be declared. -/
def undeclarable? (p : Program) (obj : ObjectId) : Option GraphError :=
  match p.object obj with
  | .ok o => o.undeclarable?
  | .error _ => none

/-- Who has a key, as text, after some declarations: the package itself (no object), or the object
of the first declaration with the key. -/
def claimant? (unit : String) (keyOf : ObjectId → Option DefKey) (done : List Declaration)
    (text : String) : Option (Option ObjectId) :=
  if text = (DefKey.ofPackage unit).text then some none
  else (done.find? fun d => (keyOf d.obj).map DefKey.text == some text).map fun d => some d.obj

/-- The error of a declaration after others, if it is refused. -/
def refusal? (p : Program) (unit : String) (keyOf : ObjectId → Option DefKey)
    (done : List Declaration) (d : Declaration) : Option GraphError :=
  match p.undeclarable? d.obj with
  | some e => some e
  | none =>
    match keyOf d.obj with
    | none => none
    | some key =>
      match claimant? unit keyOf done key.text with
      | some first =>
        if first = some d.obj then none else some (.duplicateKey key.text first d.obj)
      | none => none

/-- The error of the first declaration that is refused, of those that come after others. -/
def firstRefusal? (p : Program) (unit : String) (keyOf : ObjectId → Option DefKey) :
    (done : List Declaration) → List Declaration → Option GraphError
  | _, [] => none
  | done, d :: rest =>
    (p.refusal? unit keyOf done d).or (firstRefusal? p unit keyOf (done ++ [d]) rest)

variable {p : Program} {unit : String} {keyOf : ObjectId → Option DefKey}
  {done : List Declaration} {d : Declaration}

/-- The first refusal in two lists of declarations is in the first list, or else it is in the second
one, which comes after all of the first. -/
theorem firstRefusal?_append (done es later : List Declaration) :
    p.firstRefusal? unit keyOf done (es ++ later) =
      (p.firstRefusal? unit keyOf done es).or
        (p.firstRefusal? unit keyOf (done ++ es) later) := by
  induction es generalizing done with
  | nil => rw [List.nil_append, List.append_nil, firstRefusal?, Option.none_or]
  | cons d rest ih =>
    rw [List.cons_append, firstRefusal?, firstRefusal?, ih, Option.or_assoc, List.append_assoc]
    rfl

/-- The first refusal is that of a declaration before which there is none. -/
theorem firstRefusal?_eq_some_iff {done es : List Declaration} {e : GraphError} :
    p.firstRefusal? unit keyOf done es = some e ↔
      ∃ before d after, es = before ++ d :: after ∧
        p.firstRefusal? unit keyOf done before = none ∧
        p.refusal? unit keyOf (done ++ before) d = some e := by
  constructor
  · intro h
    induction es generalizing done with
    | nil => cases h
    | cons d rest ih =>
      rw [firstRefusal?] at h
      cases hd : p.refusal? unit keyOf done d with
      | some e' =>
        rw [hd] at h
        cases h
        exact ⟨[], d, rest, rfl, rfl, by rw [List.append_nil]; exact hd⟩
      | none =>
        rw [hd, Option.none_or] at h
        obtain ⟨before, d', after, rfl, hbefore, hrefused⟩ := ih h
        refine ⟨d :: before, d', after, rfl, ?_, ?_⟩
        · rw [firstRefusal?, hd, Option.none_or]
          exact hbefore
        · rw [List.append_assoc] at hrefused
          exact hrefused
  · rintro ⟨before, d, after, rfl, hbefore, hrefused⟩
    rw [firstRefusal?_append, hbefore, Option.none_or, firstRefusal?, hrefused]
    rfl

/-- A key is claimed by whoever had it before, or else by the object that is declared next. -/
theorem claimant?_concat (done : List Declaration) (d : Declaration) (text : String) :
    claimant? unit keyOf (done ++ [d]) text =
      (claimant? unit keyOf done text).or
        (if (keyOf d.obj).map DefKey.text = some text then some (some d.obj) else none) := by
  unfold claimant?
  split
  · rfl
  · rw [List.find?_append, Option.map_or]
    congr 1
    rw [List.find?_singleton]
    by_cases hd : (keyOf d.obj).map DefKey.text = some text
    · rw [if_pos (beq_iff_eq.mpr hd), if_pos hd]
      rfl
    · rw [if_neg (fun h => hd (beq_iff_eq.mp h)), if_neg hd]
      rfl

/-- Whoever has a key keeps it. -/
theorem claimant?_append {text : String} {first : Option ObjectId}
    (h : claimant? unit keyOf done text = some first) (later : List Declaration) :
    claimant? unit keyOf (done ++ later) text = some first := by
  unfold claimant? at h ⊢
  by_cases htext : text = (DefKey.ofPackage unit).text
  · rw [if_pos htext] at h ⊢
    exact h
  · rw [if_neg htext] at h ⊢
    obtain ⟨b, hb, hfirst⟩ := Option.map_eq_some_iff.mp h
    rw [List.find?_append, hb]
    exact congrArg some hfirst

/-- If none of some declarations is refused, none of those before one is, nor that one after
them. -/
theorem refusal?_of_firstRefusal?_append {before later : List Declaration}
    (h : p.firstRefusal? unit keyOf [] (before ++ d :: later) = none) :
    p.firstRefusal? unit keyOf [] before = none ∧ p.refusal? unit keyOf before d = none := by
  rw [firstRefusal?_append, List.nil_append] at h
  obtain ⟨hbefore, hrest⟩ := Option.or_eq_none_iff.mp h
  exact ⟨hbefore, (Option.or_eq_none_iff.mp hrest).1⟩

/-- As long as no declaration is refused, every declared object has its key. -/
theorem claimant?_eq_of_mem {key : DefKey}
    (hnone : p.firstRefusal? unit keyOf [] done = none) (hd : d ∈ done)
    (hkey : keyOf d.obj = some key) :
    claimant? unit keyOf done key.text = some (some d.obj) := by
  obtain ⟨earlier, later, rfl⟩ := List.append_of_mem hd
  obtain ⟨-, haccepted⟩ := refusal?_of_firstRefusal?_append hnone
  have hconcat : claimant? unit keyOf (earlier ++ [d]) key.text = some (some d.obj) := by
    rw [claimant?_concat, hkey, Option.map_some, if_pos rfl]
    unfold refusal? at haccepted
    split at haccepted
    · cases haccepted
    · rw [hkey] at haccepted
      dsimp only at haccepted
      cases hclaim : claimant? unit keyOf earlier key.text with
      | none => rfl
      | some first =>
        rw [hclaim] at haccepted
        dsimp only at haccepted
        split at haccepted
        · rename_i hfirst
          rw [hfirst]
          rfl
        · cases haccepted
  have happend := claimant?_append hconcat later
  rw [List.append_assoc] at happend
  exact happend

/-- Whatever was declared with a key, the key is claimed. -/
theorem claimant?_ne_none {key : DefKey} (hd : d ∈ done) (hkey : keyOf d.obj = some key) :
    claimant? unit keyOf done key.text ≠ none := by
  unfold claimant?
  split
  · exact fun h => by cases h
  · rw [ne_eq, Option.map_eq_none_iff, List.find?_eq_none]
    intro hall
    exact hall d hd (by rw [hkey]; exact beq_self_eq_true _)

/-- An object that has claimed a key has been declared. -/
theorem exists_mem_of_claimant? {obj : ObjectId} {text : String}
    (h : claimant? unit keyOf done text = some (some obj)) : ∃ d ∈ done, d.obj = obj := by
  unfold claimant? at h
  split at h
  · cases h
  · obtain ⟨d, hfind, hobj⟩ := Option.map_eq_some_iff.mp h
    exact ⟨d, List.mem_of_find?_eq_some hfind, Option.some.inj hobj⟩

end Program

end SymbolGraph
