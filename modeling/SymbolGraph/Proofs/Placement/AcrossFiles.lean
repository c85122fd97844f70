import SymbolGraph.Proofs.Placement.ManyFiles

/-!
# Objects of different files have different paths

In a package of many files, no object that is bound in one file has the path of an object that is
bound in another one, nor a path that is written alike, unless both are bound in the bodies of
functions called `_` (`ManyFiles.path_ne_across_files`).

What the walk gives in a file opens like the child of the file's scope that it is in
(`ManyFiles.sound_guide`). Siblings are told apart by a suffix on the last word, which changes an
opening only where it is the whole path, that is, at the children of a file's scope; there it has
to be shown that no function called `init` is taken for an earlier sibling
(`SeenIn.init_not_mem`).
-/

namespace SymbolGraph

open Text Placements PlacementContext
open FlatFile (stem LabelOf blockLabel)

/-- A path of a scope in a file opens like the child of the file's scope that it is in, and goes on
if it is that of another scope. -/
def Led (p : Program) (k : CheckedPackage) (top : ScopeId) (src : ScopeId → FileId)
    (file child scope : ScopeId) (path : DefPath) : Prop :=
  ∃ lead opening rest, Opening p k top (stem p (src file)) child lead opening ∧
    path = opening ++ rest ∧ (scope ≠ child → rest ≠ [])

/-- A path of an object in a file opens like the child of the file's scope that it is in. -/
def Opens (p : Program) (k : CheckedPackage) (top : ScopeId) (src : ScopeId → FileId)
    (file child : ScopeId) (path : DefPath) : Prop :=
  ∃ lead opening rest, Opening p k top (stem p (src file)) child lead opening ∧
    path = opening ++ rest

/-- A suffix is added to the last word, so what stands before it stays. -/
theorem suffixLast_append (suffix : String) (path : DefPath) {more : DefPath} (hne : more ≠ []) :
    suffixLast suffix (path ++ more) = path ++ suffixLast suffix more := by
  induction path with
  | nil => rfl
  | cons word path ih =>
    rw [List.cons_append, List.cons_append, ← ih]
    cases hrest : path ++ more with
    | nil => exact absurd (List.append_eq_nil_iff.mp hrest).2 hne
    | cons next rest => rfl

/-- A suffix adds no word and takes none away. -/
theorem suffixLast_ne_nil (suffix : String) {path : DefPath} (hne : path ≠ []) :
    suffixLast suffix path ≠ [] := by
  cases path with
  | nil => exact absurd rfl hne
  | cons word path =>
    cases path with
    | nil => exact List.cons_ne_nil _ _
    | cons next path => exact List.cons_ne_nil _ _

section Led

variable {p : Program} {k : CheckedPackage} {top : ScopeId} {src : ScopeId → FileId}
  {file child scope inner : ScopeId} {path : DefPath}

/-- A path opens with a word. -/
theorem Opening.ne_nil {name lead : String} {opening : DefPath}
    (h : Opening p k top name child lead opening) : opening ≠ [] := by
  cases h <;> exact List.cons_ne_nil _ _

/-- A path that opens so has a word. -/
theorem Opening.append_ne_nil {name lead : String} {opening rest : DefPath}
    (h : Opening p k top name child lead opening) : opening ++ rest ≠ [] :=
  fun hnil => h.ne_nil (List.append_eq_nil_iff.mp hnil).1

/-- An opening leads to the child of the file's scope that it is of. -/
theorem Led.self {lead : String} {opening : DefPath}
    (h : Opening p k top (stem p (src file)) child lead opening) :
    Led p k top src file child child opening :=
  ⟨lead, opening, [], h, (List.append_nil _).symm, fun hne => absurd rfl hne⟩

/-- A path of a scope below that of a file has a word. -/
theorem Led.ne_nil (h : Led p k top src file child scope path) : path ≠ [] := by
  obtain ⟨lead, opening, rest, hopening, rfl, -⟩ := h
  exact hopening.append_ne_nil

/-- What is bound in a scope gets a path that opens like the scope's. -/
theorem Led.opens (h : Led p k top src file child scope path) (name : String) :
    Opens p k top src file child (path ++ [name]) := by
  obtain ⟨lead, opening, rest, hopening, rfl, -⟩ := h
  exact ⟨lead, opening, rest ++ [name], hopening, List.append_assoc _ _ _⟩

/-- The path of a scope below another one is led by the other's path. -/
theorem Led.append (h : Led p k top src file child scope path) {label : List String}
    (hne : label ≠ []) : Led p k top src file child inner (path ++ label) := by
  obtain ⟨lead, opening, rest, hopening, rfl, -⟩ := h
  refine ⟨lead, opening, rest ++ label, hopening, List.append_assoc _ _ _, fun _ hnil => ?_⟩
  exact hne (List.append_eq_nil_iff.mp hnil).2

/-- Below a child of a file's scope telling apart leaves an opening as it is. -/
theorem Led.toldApart_of_ne (h : Led p k top src file child scope path) (hne : scope ≠ child)
    (seen : List String) (i : Nat) : Led p k top src file child scope (toldApart seen i path) := by
  unfold toldApart
  split
  · obtain ⟨lead, opening, rest, hopening, rfl, hrest⟩ := h
    rw [suffixLast_append _ _ (hrest hne)]
    exact ⟨lead, opening, _, hopening, rfl, fun _ => suffixLast_ne_nil _ (hrest hne)⟩
  · exact h

/-- The paths that have been seen are those of siblings. -/
def SeenIn (p : Program) (k : CheckedPackage) (top : ScopeId) (src : ScopeId → FileId)
    (file : ScopeId) (before : List ScopeId) (seen : List String) : Prop :=
  ∀ joined ∈ seen, ∃ sibling ∈ before, ∃ path, Led p k top src file sibling sibling path ∧
    joined = joinStrings "/" path

/-- The path of one more child may be seen. -/
theorem SeenIn.noted {before : List ScopeId} {seen : List String}
    (h : SeenIn p k top src file before seen) (hpath : Led p k top src file child child path) :
    SeenIn p k top src file (before ++ [child]) (noted seen path) := by
  intro joined hjoined
  unfold PlacementContext.noted at hjoined
  rw [if_neg (by simpa using hpath.ne_nil)] at hjoined
  rcases List.mem_cons.mp hjoined with rfl | hmem
  · exact ⟨child, List.mem_append_right _ List.mem_cons_self, path, hpath, rfl⟩
  · obtain ⟨sibling, hsibling, hrest⟩ := h joined hmem
    exact ⟨sibling, List.mem_append_left _ hsibling, hrest⟩

/-- The path of a function called `init` is none of those that siblings have. -/
theorem SeenIn.init_not_mem (hk : ManyFiles p k top src) {found : Scope}
    {before more : List ScopeId} {seen : List String} (hfile : p.HasChild top file)
    (hfound : p.scope file = .ok found) (hchildren : found.children = before ++ child :: more)
    (hseen : SeenIn p k top src file before seen) {ident : NodeId} {obj : ObjectId} {o : Object}
    {r : TextRange} (hf : p.FuncScope k child none ident obj) (ho : p.object obj = .ok o)
    (hinit : o.name = "init") (hr : p.tree.range ident = .ok r) :
    joinStrings "/" [(Word.init r.start.toNat).text (stem p (src file))] ∉ seen := by
  intro hmem
  obtain ⟨sibling, hsibling, path, ⟨lead, opening, rest, hopening, rfl, -⟩, heq⟩ := hseen _ hmem
  have hslashed : Word.slashed ([(Word.init r.start.toNat).text (stem p (src file))] ++ []) =
      Word.slashed (opening ++ rest) := by
    rw [List.append_nil, Word.slashed_eq _ (List.cons_ne_nil _ _),
      Word.slashed_eq _ hopening.append_ne_nil, heq]
  obtain ⟨hlead, hword, -⟩ := Opening.cancel hk (hk.stemFlat hfile) (hk.stemFlat hfile)
    (.init hf ho hinit hr) hopening hslashed
  have hall : ∀ x ∈ before ++ child :: more, p.HasChild file x :=
    fun x hx => ⟨found, hfound, hchildren ▸ hx⟩
  have hchild := hall child (List.mem_append_right _ List.mem_cons_self)
  have hother := hall sibling (List.mem_append_left _ hsibling)
  obtain rfl := Opening.child_eq_of_init hk hchild hother hf ho hinit hr hopening hlead.symm
    hword.symm
  exact hk.tree.not_mem_before hfound hchildren hsibling

/-- A child of a file's scope is told apart from its siblings without its opening becoming that of
another one. -/
theorem Led.toldApart (hk : ManyFiles p k top src) {found : Scope} {before more : List ScopeId}
    {seen : List String} (hfile : p.HasChild top file) (hfound : p.scope file = .ok found)
    (hchildren : found.children = before ++ child :: more)
    (hseen : SeenIn p k top src file before seen) (h : Led p k top src file child child path)
    (i : Nat) : Led p k top src file child child (toldApart seen i path) := by
  unfold PlacementContext.toldApart
  split
  · rename_i hmem
    obtain ⟨lead, opening, rest, hopening, rfl, -⟩ := h
    by_cases hrest : rest = []
    · -- the opening is the whole path
      subst hrest
      rw [List.append_nil] at hmem ⊢
      cases hopening with
      | func hf ho hbinds hinit hblank hword =>
        exact Led.self (.func hf ho hbinds hinit hblank (hword.told i))
      | method hbinds hnames hmethod hown ho hword =>
        exact Led.self (.method hbinds hnames hmethod hown ho (hword.told i))
      | blank hblank hword => exact Led.self (.blank hblank (hword.told i))
      | init hf ho hinit hr =>
        exact absurd hmem (hseen.init_not_mem hk hfile hfound hchildren hf ho hinit hr)
      | block word => exact Led.self (.block _)
    · rw [suffixLast_append _ _ hrest]
      exact ⟨lead, opening, _, hopening, rfl, fun hne => absurd rfl hne⟩
  · exact h

end Led

namespace ManyFiles

variable {p : Program} {k : CheckedPackage} {top : ScopeId} {src : ScopeId → FileId}
  {labels : Labelling} {c : PlacementContext} {s s' : Placements}

/-! ## What the walk may give -/

/-- What lies in a file gets paths that open like the child of the file's scope that it is in. What
lies in files may be taken up, and methods of types that the package names, directly below these. -/
def guide (p : Program) (k : CheckedPackage) (top : ScopeId) (src : ScopeId → FileId)
    (c : PlacementContext) : Guide c where
  enters scope path := (p.HasChild top scope → path = []) ∧
    ∀ file child, p.InFile top file child scope → Led p k top src file child scope path
  places obj place := ∀ file child scope name, p.InFile top file child scope →
    p.Binds scope name obj → Opens p k top src file child place.path
  takes
    | .scope scope base _ => (∃ file child, p.InFile top file child scope) ∧
      ∀ file child, p.InFile top file child scope → Led p k top src file child scope base
    | .method obj base _ => p.IsMethod obj ∧ ∀ scope, p.OwnsScope obj scope →
      ∃ lead typeName type, base = [lead] ∧ p.Binds top lead typeName ∧ p.Names typeName type ∧
        p.HasMethod type obj
    | .field obj _ _ => p.IsField obj
  binds scope base _ := (scope = top → base = []) ∧
    ∀ file child, p.InFile top file child scope → Led p k top src file child scope base

/-- A child of a file's scope or of one below it has a label with a word. -/
theorem label_ne_nil {inner scope child : ScopeId} {file : FileId} {i : Nat} {label : List String}
    (h : LabelOf p k inner file scope child i label) : label ≠ [] := by
  cases h with
  | block => exact fun hnil => List.cons_ne_nil _ _ (List.append_eq_nil_iff.mp hnil).2
  | func _ _ _ => exact List.cons_ne_nil _ _
  | init _ _ _ _ _ => exact fun hnil => List.cons_ne_nil _ _ (List.append_eq_nil_iff.mp hnil).2

/-- The path of a child of a scope in a file, before it is told apart. -/
theorem led_of_raw (hk : ManyFiles p k top src) (hc : PlacementContext.ofPackage p k labels = .ok c)
    {file child scope inner : ScopeId} {found : Scope} {before rest : List ScopeId}
    {base path : DefPath} (hin : p.InFile top file child scope)
    (hbase : Led p k top src file child scope base) (hfound : p.scope scope = .ok found)
    (hchildren : found.children = before ++ inner :: rest)
    (hraw : (guide p k top src c).Raw base inner path) :
    Led p k top src file child inner path := by
  obtain ⟨s, s', hs, hpath⟩ := hraw
  have hchild : p.HasChild scope inner := .of_children hfound hchildren
  rcases scopePath_eq_ok hpath with ⟨hknown, -⟩ | ⟨-, -, -, hlabel⟩
  · exact (hs.scopes inner path hknown).2 file child
      ⟨hin.isFile, hin.isChild, .child hin.below hchild⟩
  · have hlabels : ∀ {label?}, c.scopeLabel? inner = .ok label? → ∃ label, label? = some label ∧
        LabelOf p k file (src file) scope inner before.length label :=
      fun h => (hk.files hin.isFile).labelOf_scopeLabel? hc hin.below_file hfound hchildren h
    rcases hlabel with ⟨label, hlabel, rfl⟩ | ⟨hlabel, -⟩
    · obtain ⟨label', heq, hof⟩ := hlabels hlabel
      cases heq
      exact hbase.append (label_ne_nil hof)
    · obtain ⟨label, heq, -⟩ := hlabels hlabel
      cases heq

/-- What may be given and taken up leads to nothing else. -/
theorem sound_guide (hk : ManyFiles p k top src)
    (hc : PlacementContext.ofPackage p k labels = .ok c) : (guide p k top src c).Sound := by
  obtain ⟨rfl, -⟩ := ofPackage_eq_ok hc
  constructor
  case scope =>
    rintro scope base packageScope ⟨⟨file, child, hin⟩, hled⟩
    obtain ⟨htop, hfile⟩ := hin.not_file hk.tree
    exact ⟨⟨fun hchild => absurd hchild hfile, hled⟩, fun heq => absurd heq htop, hled⟩
  case binding =>
    rintro scope base packageScope found name obj o ⟨htop, hled⟩ hfound hmem ho
    have hbinds : c.program.Binds scope name obj := ⟨found, hfound, hmem⟩
    refine ⟨fun file child scope' name' hin hbinds' => ?_, fun t ht => ?_⟩
    · obtain rfl := hk.boundOnce hbinds' hbinds
      exact (hled file child hin).opens name
    · cases ht with
      | @method type method hkind htype hmethod =>
        refine ⟨hmethod.isMethod, fun own hown => ?_⟩
        obtain ⟨bound, hbound⟩ := hk.methodNamed ⟨o, ho, hkind, htype⟩ hmethod hown
        obtain rfl := hk.boundOnce hbinds hbound
        exact ⟨name, obj, type, by rw [htop rfl]; rfl, hbinds, ⟨o, ho, hkind, htype⟩, hmethod⟩
      | typeField _ _ _ hfield => exact hfield.isField
      | varField _ _ hfield => exact hfield.isField
  case method =>
    rintro obj base packageScope o ⟨hmethod, howned⟩ ho
    refine ⟨fun _ _ _ _ _ hbinds => absurd hbinds (hk.members.methodUnbound hmethod),
      fun t ht => ?_⟩
    unfold bodyOf at ht
    split at ht
    · rename_i scope hkind
      obtain rfl := List.mem_singleton.mp ht
      have hown : c.program.OwnsScope obj scope := ⟨o, ho, hkind⟩
      obtain ⟨lead, typeName, type, rfl, hbinds, hnames, hlisted⟩ := howned scope hown
      obtain ⟨recv, ident, hf⟩ := hk.methodDeclared hlisted hown
      obtain ⟨file, hfile, hchild⟩ := hk.funcNested hf
      have hin : c.program.InFile top file scope scope := ⟨hfile, hchild, .refl⟩
      refine ⟨⟨file, scope, hin⟩, fun file' child' hin' => ?_⟩
      obtain ⟨rfl, rfl⟩ := hin.eq hk.tree hin'
      exact Led.self (.method hbinds hnames hlisted hown ho .bare)
    · cases ht
  case field =>
    rintro obj base packageScope o hfield ho
    exact ⟨fun _ _ _ _ _ hbinds => absurd hbinds (hk.members.fieldUnbound hfield),
      fun type inner htype hinner => hinner.isField⟩
  case child =>
    rintro scope base packageScope found before inner rest seen path ⟨⟨file, child, hin⟩, hled⟩
      hfound hchildren hraw -
    have hchild : c.program.HasChild scope inner := .of_children hfound hchildren
    have hinner : c.program.InFile top file child inner :=
      ⟨hin.isFile, hin.isChild, .child hin.below hchild⟩
    refine ⟨⟨file, child, hinner⟩, fun file' child' hin' => ?_⟩
    obtain ⟨rfl, rfl⟩ := hinner.eq hk.tree hin'
    have hpath := hk.led_of_raw hc hin (hled file child hin) hfound hchildren hraw
    refine hpath.toldApart_of_ne ?_ seen before.length
    rintro rfl
    have hlater := hk.tree.later hchild
    have hle := hk.tree.index_le hin.below
    omega

/-! ## The scopes of the files -/

/-- The label of a child of a file's scope opens the paths of what is in it, if it is not the scope
of a method with a name. -/
theorem opening_of_label (hk : ManyFiles p k top src) {file child : ScopeId} {i : Nat}
    {label : List String}
    (hmethod : ∀ {recv ident obj o}, p.FuncScope k child (some recv) ident obj →
      p.object obj = .ok o → o.name = "_")
    (h : LabelOf p k file (src file) file child i label) :
    ∃ lead, Opening p k top (stem p (src file)) child lead label := by
  cases h with
  | block =>
    unfold blockLabel
    rw [if_pos rfl]
    exact ⟨_, .block _⟩
  | @init recv ident obj o r recvName hf ho hinit hrange hrecv =>
    cases recv with
    | none =>
      rw [hrecv rfl]
      exact ⟨_, .init hf ho hinit hrange⟩
    | some recv =>
      have hblank := hmethod hf ho
      rw [hinit] at hblank
      exact absurd hblank (by decide)
  | @func recv ident obj o hf ho hinit =>
    by_cases hname : o.name = "_"
    · rw [hname]
      exact ⟨_, .blank ⟨_, _, _, _, hf, ho, hname⟩ .bare⟩
    · cases recv with
      | none => exact ⟨_, .func hf ho (hk.funcBound hf ho hinit hname) hinit hname .bare⟩
      | some recv => exact absurd (hmethod hf ho) hname

/-- The path that a child of a file's scope is found to have. -/
theorem led_of_scopePath (hk : ManyFiles p k top src)
    (hc : PlacementContext.ofPackage p k labels = .ok c) {file child : ScopeId} {found : Scope}
    {before rest : List ScopeId} {path : DefPath} (hfile : p.HasChild top file)
    (hfound : p.scope file = .ok found) (hchildren : found.children = before ++ child :: rest)
    (hentered : BodiesEntered p top s) (hs : (guide p k top src c).Admits s)
    (hpath : c.scopePath s [] child = .ok (path, s')) :
    Led p k top src file child child path := by
  have hchild : p.HasChild file child := .of_children hfound hchildren
  have hlabels : ∀ {label?}, c.scopeLabel? child = .ok label? → ∃ label, label? = some label ∧
      LabelOf p k file (src file) file child before.length label :=
    fun h => (hk.files hfile).labelOf_scopeLabel? hc .refl hfound hchildren h
  rcases scopePath_eq_ok hpath with ⟨hknown, -⟩ | ⟨hnone, -, -, hlabel⟩
  · exact (hs.scopes child path hknown).2 file child ⟨hfile, hchild, .refl⟩
  · -- methods with names have entered their bodies already
    have hmethod : ∀ {recv ident obj o}, p.FuncScope k child (some recv) ident obj →
        p.object obj = .ok o → o.name = "_" := by
      intro recv ident obj o hf ho
      refine Decidable.byContradiction fun hname => ?_
      obtain ⟨bound, typeName, type, hbinds, hnames, hlisted⟩ := hk.funcListed hf ho hname
      exact hentered.not_hasMethod hnone hf.owns hbinds hnames hlisted
    rcases hlabel with ⟨label, hlabel, rfl⟩ | ⟨hlabel, -⟩
    · obtain ⟨label', heq, hof⟩ := hlabels hlabel
      cases heq
      obtain ⟨lead, hopening⟩ := hk.opening_of_label hmethod hof
      exact Led.self hopening
    · obtain ⟨label, heq, -⟩ := hlabels hlabel
      cases heq

/-- The children of a file's scope get paths that open like them. -/
theorem admits_of_children (hk : ManyFiles p k top src)
    (hc : PlacementContext.ofPackage p k labels = .ok c) {file : ScopeId} {found : Scope}
    {before rest : List ScopeId} {seen : List String} (hfile : p.HasChild top file)
    (hfound : p.scope file = .ok found) (hchildren : found.children = before ++ rest)
    (hseen : SeenIn p k top src file before seen) (hentered : BodiesEntered p top s)
    (hs : (guide p k top src c).Admits s)
    (hrun : c.Runs s (.children file [] before seen rest) s') :
    (guide p k top src c).Admits s' := by
  induction rest generalizing s before seen with
  | nil =>
    cases hrun
    exact hs
  | cons child rest ih =>
    cases hrun with
    | @child _ _ _ _ _ _ _ _ _ _ path hpath hwithin hrest =>
      have hled := hk.led_of_scopePath hc hfile hfound hchildren hentered hs hpath
      have hgiven := Led.toldApart hk hfile hfound hchildren hseen hled before.length
      have hchild : p.HasChild file child := .of_children hfound hchildren
      have hin : p.InFile top file child child := ⟨hfile, hchild, .refl⟩
      have htakes : (guide p k top src c).takes
          (.scope child (toldApart seen before.length path) false) := by
        refine ⟨⟨file, child, hin⟩, fun file' child' hin' => ?_⟩
        obtain ⟨rfl, rfl⟩ := hin.eq hk.tree hin'
        exact hgiven
      have hsound := hk.sound_guide hc
      have hmid := hsound.admits hwithin htakes
        (hs.setScope_of_scopePath hpath (hsound.scope htakes).1)
      have hgrows := (grows_of_scopePath hpath).trans ((Grows.setScope _ _ _).trans hwithin.grows)
      refine ih ?_ (hseen.noted hled) (hentered.grows hgrows) hmid hrest
      rw [hchildren, List.append_assoc]
      rfl

/-- The files of the package get paths that open like what they are in. -/
theorem admits_of_files (hk : ManyFiles p k top src)
    (hc : PlacementContext.ofPackage p k labels = .ok c) {files before : List ScopeId}
    (hfiles : ∀ file ∈ files, p.HasChild top file) (hentered : BodiesEntered p top s)
    (hs : (guide p k top src c).Admits s) (hrun : c.Runs s (.children top [] before [] files) s') :
    (guide p k top src c).Admits s' := by
  obtain ⟨hprogram, -⟩ := ofPackage_eq_ok hc
  induction files generalizing s before with
  | nil =>
    cases hrun
    exact hs
  | cons file files ih =>
    cases hrun with
    | @child _ s₁ s₂ _ _ _ _ _ _ _ path hpath hwithin hrest =>
      have hfile := hfiles file List.mem_cons_self
      obtain rfl := (hk.files hfile).scopePath_file hc
        (fun _ hknown => (hs.scopes _ _ hknown).1 hfile) hpath
      have hempty : ∀ file' child', p.InFile top file' child' file →
          Led p k top src file' child' file [] :=
        fun _ _ hin => absurd hfile (hin.not_file hk.tree).2
      have hmid := hs.setScope_of_scopePath hpath ⟨fun _ => rfl, hempty⟩
      have hgrows := (grows_of_scopePath hpath).trans (Grows.setScope s₁ file [])
      cases hwithin with
      | within hfound hbindings hchildren =>
        rw [hprogram] at hfound
        have hbound := (hk.sound_guide hc).admits hbindings
          ⟨⟨fun _ => rfl, hempty⟩, _, by rw [hprogram]; exact hfound, fun _ hb => hb⟩ hmid
        have hentered' := hentered.grows (hgrows.trans hbindings.grows)
        have hdone := hk.admits_of_children hc hfile hfound rfl
          (fun _ hjoined => absurd hjoined List.not_mem_nil) hentered' hbound hchildren
        exact ih (fun other hother => hfiles other (List.mem_cons_of_mem _ hother))
          (hentered'.grows hchildren.grows) hdone hrest

/-- All paths that are given out in the files of the package open like what they are in. -/
theorem admits_of_placePackage (hk : ManyFiles p k top src)
    (hc : PlacementContext.ofPackage p k labels = .ok c) (h : c.placePackage .empty = .ok s) :
    (guide p k top src c).Admits s := by
  obtain ⟨hprogram, -, hpkg, -⟩ := ofPackage_eq_ok hc
  obtain ⟨owner, howner, rfl⟩ := hk.owner
  obtain ⟨found, s₁, hfound, hbindings, hchildren⟩ :=
    runs_bindings_of_placePackage h (by rw [hprogram, hpkg]; exact howner)
  have houtside : ∀ file child, p.InFile owner.scope file child owner.scope →
      Led p k owner.scope src file child owner.scope [] :=
    fun _ _ hin => absurd rfl (hin.not_file hk.tree).1
  have hstart : ((guide p k owner.scope src c)).Admits (Placements.empty.setScope owner.scope []) :=
    (Guide.admits_empty _).setScope ⟨fun _ => rfl, houtside⟩
  have hs₁ := (hk.sound_guide hc).admits hbindings
    ⟨⟨fun _ => rfl, houtside⟩, found, hfound, fun _ hb => hb⟩ hstart
  have hentered := bodiesEntered (by rw [hprogram]; exact hk.members) hfound hbindings
  rw [hprogram] at hfound hentered
  exact hk.admits_of_files hc (fun file hfile => ⟨found, hfound, hfile⟩) hentered hs₁ hchildren

/-! ## Objects of different files -/

/-- **Objects of different files have different paths.** In a package of many files, two objects
that are bound strictly below the scopes of different files get different paths, which are also
written differently, unless both are bound in bodies of functions called `_`. -/
theorem path_ne_across_files (hk : ManyFiles p k top src)
    (hc : PlacementContext.ofPackage p k labels = .ok c) (h : c.placePackage .empty = .ok s)
    {file file' scope scope' : ScopeId} {name name' : String} {a b : ObjectId}
    (hfile : p.HasChild top file) (hfile' : p.HasChild top file') (hne : file ≠ file')
    (hscope : p.Below file scope) (hstrict : scope ≠ file) (hscope' : p.Below file' scope')
    (hstrict' : scope' ≠ file') (ha : p.Binds scope name a) (hb : p.Binds scope' name' b)
    (hblank : ¬ ((∃ body, IsBlank p k body ∧ p.Below body scope) ∧
      ∃ body, IsBlank p k body ∧ p.Below body scope')) :
    ∃ pa pb, s.place? a = some pa ∧ s.place? b = some pb ∧ pa.path ≠ pb.path ∧
      joinStrings "/" pa.path ≠ joinStrings "/" pb.path := by
  obtain ⟨hprogram, -, hpkg, -⟩ := ofPackage_eq_ok hc
  have hs := hk.admits_of_placePackage hc h
  -- both objects have places, since the walk goes through all scopes
  obtain ⟨owner, howner, htop⟩ := hk.owner
  have hplaced : ∀ {file scope name obj}, p.HasChild top file → p.Below file scope →
      p.Binds scope name obj → ∃ place, s.place? obj = some place := by
    rintro file scope name obj hfile hbelow ⟨found, hfound, hmem⟩
    have hcovered := covered_of_placePackage h (by rw [hprogram, hpkg]; exact howner)
      (by rw [hprogram, htop]; exact Program.Below.trans (.child .refl hfile) hbelow)
    exact Option.isSome_iff_exists.mp (hcovered.2 found (by rw [hprogram]; exact hfound) _ hmem)
  obtain ⟨pa, hpa⟩ := hplaced hfile hscope ha
  obtain ⟨pb, hpb⟩ := hplaced hfile' hscope' hb
  obtain ⟨child, hin⟩ := Program.inFile_of_below hfile hscope hstrict
  obtain ⟨child', hin'⟩ := Program.inFile_of_below hfile' hscope' hstrict'
  obtain ⟨lead, opening, rest, hopening, hpath⟩ := hs.objects a pa hpa file child scope name hin ha
  obtain ⟨lead', opening', rest', hopening', hpath'⟩ :=
    hs.objects b pb hpb file' child' scope' name' hin' hb
  have hjoined : joinStrings "/" pa.path ≠ joinStrings "/" pb.path := by
    intro heq
    rw [hpath, hpath'] at heq
    have hslashed : Word.slashed (opening ++ rest) = Word.slashed (opening' ++ rest') := by
      rw [Word.slashed_eq _ hopening.append_ne_nil, Word.slashed_eq _ hopening'.append_ne_nil, heq]
    rcases hopening.file_eq_or_blank hk hfile hfile' hin.isChild hin'.isChild hopening' hslashed
      with hsame | ⟨hbody, hbody'⟩
    · exact hne hsame
    · exact hblank ⟨⟨child, hbody, hin.below⟩, child', hbody', hin'.below⟩
  exact ⟨pa, pb, hpa, hpb, fun heq => hjoined (by rw [heq]), hjoined⟩

end ManyFiles

/-- In the package whose first file has a method the variables of the two functions have different
paths. -/
theorem path_ne_across_files_method :
    ManyFiles TwoFiles.method.program TwoFiles.package ⟨0⟩ TwoFiles.src ∧ ∃ c s pa pb,
      PlacementContext.ofPackage TwoFiles.method.program TwoFiles.package .deterministic = .ok c ∧
      c.placePackage .empty = .ok s ∧ s.place? ⟨1⟩ = some pa ∧ s.place? ⟨3⟩ = some pb ∧
      pa.path ≠ pb.path ∧ joinStrings "/" pa.path ≠ joinStrings "/" pb.path := by
  obtain ⟨c, s, hc, hs⟩ : ∃ c s, PlacementContext.ofPackage TwoFiles.method.program
      TwoFiles.package .deterministic = .ok c ∧ c.placePackage .empty = .ok s := ⟨_, _, rfl, rfl⟩
  have hfirst : TwoFiles.method.program.HasChild ⟨1⟩ ⟨3⟩ := ⟨_, rfl, List.mem_singleton_self _⟩
  have hblank : ¬ ∃ body, IsBlank TwoFiles.method.program TwoFiles.package body ∧
      TwoFiles.method.program.Below body ⟨3⟩ := by
    have hall : ∀ (i : Fin 2) {o}, TwoFiles.method.program.object ⟨2 * i⟩ = .ok o →
        o.name = "_" → (3 : Nat) < i + 3 := by
      refine Fin.forall_fin_two.mpr ⟨fun ho hname => ?_, fun _ _ => by decide⟩
      cases ho
      exact absurd hname (by decide)
    rintro ⟨body, ⟨recv, ident, obj, o, hf, ho, hname⟩, hbelow⟩
    obtain ⟨i, rfl, -, -, rfl⟩ := TwoFiles.method.eq_of_funcScope hf
    exact absurd (TwoFiles.method.scopeTree.index_le hbelow) (Nat.not_le.mpr (hall i ho hname))
  obtain ⟨pa, pb, hpa, hpb, hpaths⟩ := ManyFiles.path_ne_across_files TwoFiles.method.manyFiles
    hc hs ⟨_, rfl, by decide⟩ ⟨_, rfl, by decide⟩ (by decide) (.child .refl hfirst) (by decide)
    (.child .refl TwoFiles.method.hasChild_second) (by decide)
    ⟨_, rfl, List.mem_singleton_self _⟩ ⟨_, rfl, List.mem_singleton_self _⟩ fun h => hblank h.1
  exact ⟨TwoFiles.method.manyFiles, c, s, pa, pb, hc, hs, hpa, hpb, hpaths⟩

/-- In the package of two files that have a function called `_` each the variables of these get one
path. -/
theorem path_eq_across_files_blank :
    ManyFiles TwoFiles.blank.program TwoFiles.package ⟨0⟩ TwoFiles.src ∧
    TwoFiles.blank.program.HasChild ⟨0⟩ ⟨1⟩ ∧ TwoFiles.blank.program.HasChild ⟨0⟩ ⟨2⟩ ∧
    TwoFiles.blank.program.HasChild ⟨1⟩ ⟨3⟩ ∧ TwoFiles.blank.program.HasChild ⟨2⟩ ⟨4⟩ ∧
    TwoFiles.blank.program.Binds ⟨3⟩ "x" ⟨1⟩ ∧ TwoFiles.blank.program.Binds ⟨4⟩ "x" ⟨3⟩ ∧
    ∃ c s pa pb,
      PlacementContext.ofPackage TwoFiles.blank.program TwoFiles.package .deterministic = .ok c ∧
      c.placePackage .empty = .ok s ∧ s.place? ⟨1⟩ = some pa ∧ s.place? ⟨3⟩ = some pb ∧
      pa.path = ["_", "x"] ∧ pb.path = ["_", "x"] :=
  ⟨TwoFiles.blank.manyFiles, ⟨_, rfl, by decide⟩, ⟨_, rfl, by decide⟩,
    ⟨_, rfl, List.mem_singleton_self _⟩, TwoFiles.blank.hasChild_second,
    ⟨_, rfl, List.mem_singleton_self _⟩, ⟨_, rfl, List.mem_singleton_self _⟩,
    _, _, _, _, rfl, rfl, rfl, rfl, rfl, rfl⟩

end SymbolGraph
