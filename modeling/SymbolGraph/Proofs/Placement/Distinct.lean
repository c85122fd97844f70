import SymbolGraph.Proofs.Placement.Leads

/-!
# Different objects have different paths

In a package of one file no two objects get one path, nor paths that are written alike
(`FlatFile.path_ne_of_ne`).

The walk gives only paths made of words that lead to what they are given to
(`FlatFile.sound_guide`), and those words tell scopes and objects apart. Only the children of the
file's scope can get paths that have to be told apart by the walk, namely the bodies of functions
called `_`; the first of them that has no path yet keeps the bare name
(`FlatFile.admits_of_children`). By then all methods with a name have their paths
(`PlacementContext.bodiesEntered`), so that no body of a method is taken for that of a function.
-/

namespace SymbolGraph

open Text Placements PlacementContext

namespace FlatFile

variable {p : Program} {k : CheckedPackage} {top inner : ScopeId} {file : NodeId} {src : FileId}
  {labels : Labelling} {c : PlacementContext} {first : Option ScopeId} {s s' : Placements}

/-! ## What the walk may give -/

/-- Scopes and objects get paths made of words that lead to them. What is below the scope of the
file may be taken up. -/
def guide (p : Program) (k : CheckedPackage) (top inner : ScopeId) (src : FileId)
    (first : Option ScopeId) (c : PlacementContext) : Guide c where
  enters scope path := ∃ ws, Leads p k top inner first (.scope scope) ws ∧
    path = Word.render (stem p src) ws
  places obj place := ∃ ws, Leads p k top inner first (.object obj) ws ∧
    place.path = Word.render (stem p src) ws
  takes
    | .scope scope base _ => (p.Below inner scope ∧ scope ≠ inner) ∧
      ∃ ws, Leads p k top inner first (.scope scope) ws ∧ base = Word.render (stem p src) ws
    | .method obj base _ => p.MethodBelow top obj ∧
      ∃ ws owner, Leads p k top inner first (.object owner) ws ∧ p.Member owner obj ∧
        base = Word.render (stem p src) ws
    | .field obj base _ => p.IsField obj ∧
      ∃ ws owner, Leads p k top inner first (.object owner) ws ∧ p.Member owner obj ∧
        base = Word.render (stem p src) ws
  binds scope base _ := ∃ ws, Leads p k top inner first (.scope scope) ws ∧
    base = Word.render (stem p src) ws

/-- What is allowed before a function called `_` has kept the bare name is allowed afterwards. -/
theorem Admits.mono (hs : (guide p k top inner src none c).Admits s) (first : Option ScopeId) :
    (guide p k top inner src first c).Admits s where
  scopes scope path h := by
    obtain ⟨ws, hws, hpath⟩ := hs.scopes scope path h
    exact ⟨ws, hws.mono first, hpath⟩
  objects obj place h := by
    obtain ⟨ws, hws, hpath⟩ := hs.objects obj place h
    exact ⟨ws, hws.mono first, hpath⟩

/-- A path that leads to a scope is none of those that lead to other ones. -/
theorem not_mem_of_leads (hk : FlatFile p k top inner file src) {child : ScopeId}
    {ws : List Word} {before : List ScopeId} {seen : List String}
    (hws : Leads p k top inner first (.scope child) ws) (hne : ws ≠ []) (hnew : child ∉ before)
    (hseen : ∀ joined ∈ seen, ∃ sibling ∈ before, ∃ ws',
      Leads p k top inner first (.scope sibling) ws' ∧ ws' ≠ [] ∧
        joined = joinStrings "/" (Word.render (stem p src) ws')) :
    joinStrings "/" (Word.render (stem p src) ws) ∉ seen := by
  intro hmem
  obtain ⟨sibling, hsibling, ws', hws', hne', hjoined⟩ := hseen _ hmem
  obtain rfl := Word.joinStrings_injective (hk.good_of_leads hws) (hk.good_of_leads hws') hne hne'
    hjoined
  obtain rfl := (hk.apart first ws).scopes hws hws' hne
  exact hnew hsibling

/-- The path of a child of a scope below that of the file, before it is told apart. -/
theorem leads_of_raw (hk : FlatFile p k top inner file src)
    (hc : PlacementContext.ofPackage p k labels = .ok c) {scope child : ScopeId} {found : Scope}
    {before rest : List ScopeId} {ws : List Word} {path : DefPath}
    (hbelow : p.Below inner scope) (hne : scope ≠ inner)
    (hws : Leads p k top inner first (.scope scope) ws) (hfound : p.scope scope = .ok found)
    (hchildren : found.children = before ++ child :: rest)
    (hraw : (guide p k top inner src first c).Raw (Word.render (stem p src) ws) child path) :
    ∃ ws', Leads p k top inner first (.scope child) ws' ∧
      path = Word.render (stem p src) ws' := by
  obtain ⟨s, s', hs, hpath⟩ := hraw
  have hat : p.ChildAt scope before.length child := ⟨found, before, rest, hfound, hchildren, rfl⟩
  -- no function has its scope there
  have hnone : ∀ {recv ident obj}, ¬ p.FuncScope k child recv ident obj := by
    intro recv ident obj hf
    exact hne (hk.tree.parent_eq hat.hasChild (hk.funcNested hf))
  rcases scopePath_eq_ok hpath with ⟨hknown, -⟩ | ⟨-, -, -, hlabel⟩
  · exact hs.scopes child path hknown
  · rcases hlabel with ⟨label, hlabel, rfl⟩ | ⟨hlabel, -⟩
    · obtain ⟨label', heq, hof⟩ :=
        hk.fileScopes.labelOf_scopeLabel? hc hbelow hfound hchildren hlabel
      cases heq
      cases hof with
      | block =>
        refine ⟨_, .block hws hbelow hne hat, ?_⟩
        unfold blockLabel
        rw [if_neg hne, Word.render_cons]
        rfl
      | func hf _ _ => exact (hnone hf).elim
      | init hf _ _ _ _ => exact (hnone hf).elim
    · obtain ⟨label, heq, -⟩ := hk.fileScopes.labelOf_scopeLabel? hc hbelow hfound hchildren hlabel
      cases heq

/-- Words that lead to a child of a scope of the file are not none. -/
theorem ne_nil_of_leads (hk : FlatFile p k top inner file src) {scope child : ScopeId}
    {ws : List Word} (hbelow : p.Below inner scope) (hchild : p.HasChild scope child)
    (hws : Leads p k top inner first (.scope child) ws) : ws ≠ [] :=
  hk.ne_nil_of_below (.child hbelow hchild) (hk.ne_of_hasChild hbelow hchild).2 hws

/-- What may be given and taken up leads to nothing else. -/
theorem sound_guide (hk : FlatFile p k top inner file src)
    (hc : PlacementContext.ofPackage p k labels = .ok c) (first : Option ScopeId) :
    (guide p k top inner src first c).Sound := by
  obtain ⟨rfl, -⟩ := ofPackage_eq_ok hc
  constructor
  case scope => exact fun h => ⟨h.2, h.2⟩
  case binding =>
    rintro scope base packageScope found name obj o ⟨ws, hws, rfl⟩ hfound hmem ho
    have hbinds : c.program.Binds scope name obj := ⟨found, hfound, hmem⟩
    have hobj := Leads.bound hws hbinds
    have hbase := Word.render_cons (stem c.program src) (.name name) ws
    refine ⟨⟨_, hobj, hbase.symm⟩, fun t ht => ?_⟩
    cases ht with
    | @method type inner' hkind htype hmethod =>
      obtain ⟨under, hunder⟩ := hmethod.underlying
      exact ⟨⟨scope, name, obj, type, hk.below_top_of_leads hws, hbinds, ⟨o, ho, hkind, htype⟩,
        hmethod⟩, _, obj, hobj, .ofTypeName ⟨o, ho, hkind, htype⟩ hunder (.inl hmethod),
        hbase.symm⟩
    | typeField hkind htype hunder hfield =>
      exact ⟨hfield.isField, _, obj, hobj,
        .ofTypeName ⟨o, ho, hkind, htype⟩ hunder (.inr hfield), hbase.symm⟩
    | varField hkind htype hfield =>
      exact ⟨hfield.isField, _, obj, hobj, .ofValue ho (.inl hkind) htype hfield, hbase.symm⟩
  case method =>
    rintro obj base packageScope o ⟨hbelow, ws, owner, hws, hmember, rfl⟩ ho
    have hobj := Leads.member hws hmember ⟨o, ho, rfl⟩
    have hbase := Word.render_cons (stem c.program src) (.name o.name) ws
    refine ⟨⟨_, hobj, hbase.symm⟩, fun t ht => ?_⟩
    unfold bodyOf at ht
    split at ht
    · rename_i scope hkind
      obtain rfl := List.mem_singleton.mp ht
      have hown : c.program.OwnsScope obj scope := ⟨o, ho, hkind⟩
      obtain ⟨recv, name, hf⟩ := hk.funcDeclared hown (.inr hbelow)
      obtain ⟨-, -, -, type, -, -, -, hmethod⟩ := hbelow
      have hchild := hk.funcNested hf
      exact ⟨⟨.child .refl hchild, (hk.ne_of_hasChild .refl hchild).2⟩, _,
        .body hobj hmethod.isMethod hown hchild, hbase.symm⟩
    · cases ht
  case field =>
    rintro obj base packageScope o ⟨hfield, ws, owner, hws, hmember, rfl⟩ ho
    have hobj := Leads.member hws hmember ⟨o, ho, rfl⟩
    have hbase := Word.render_cons (stem c.program src) (.name o.name) ws
    refine ⟨⟨_, hobj, hbase.symm⟩, fun type inner' htype hinner => ?_⟩
    exact ⟨hinner.isField, _, obj, hobj, .ofValue ho (.inr hfield) htype hinner, hbase.symm⟩
  case child =>
    rintro scope base packageScope found before child rest seen path ⟨⟨hbelow, hne⟩, ws, hws, rfl⟩
      hfound hchildren hraw hseen
    have hchild : c.program.HasChild scope child := .of_children hfound hchildren
    obtain ⟨ws', hws', rfl⟩ := hk.leads_of_raw hc hbelow hne hws hfound hchildren hraw
    have hfresh : joinStrings "/" (Word.render (stem c.program src) ws') ∉ seen := by
      refine hk.not_mem_of_leads hws' (hk.ne_nil_of_leads hbelow hchild hws')
        (hk.tree.not_mem_before hfound hchildren) fun joined hjoined => ?_
      obtain ⟨sibling, hsibling, path, hraw', hne', rfl⟩ := hseen joined hjoined
      obtain ⟨left, right, rfl⟩ := List.append_of_mem hsibling
      have hsplit : found.children = left ++ sibling :: (right ++ child :: rest) := by
        rw [hchildren, List.append_assoc]
        rfl
      obtain ⟨ws'', hws'', rfl⟩ := hk.leads_of_raw hc hbelow hne hws hfound hsplit hraw'
      refine ⟨sibling, hsibling, ws'', hws'', ?_, rfl⟩
      rintro rfl
      exact hne' rfl
    unfold toldApart
    rw [if_neg hfresh]
    exact ⟨⟨.child hbelow hchild, (hk.ne_of_hasChild hbelow hchild).2⟩, ws', hws', rfl⟩

/-! ## The scope of the file -/

/-- What is known about the paths of the first children of the file's scope: each is one that
leads to its scope, and if some scope keeps the blank name, that has been seen. -/
structure Looped (p : Program) (k : CheckedPackage) (top inner : ScopeId) (src : FileId)
    (first : Option ScopeId) (before : List ScopeId) (seen : List String) : Prop where
  leads : ∀ joined ∈ seen, ∃ sibling ∈ before, ∃ ws,
    Leads p k top inner first (.scope sibling) ws ∧ ws ≠ [] ∧
      joined = joinStrings "/" (Word.render (stem p src) ws)
  blank : first.isSome → "_" ∈ seen

/-- One more child has a path that leads to it. -/
theorem Looped.append {before : List ScopeId} {seen : List String} {child : ScopeId}
    {ws : List Word} (h : Looped p k top inner src first before seen)
    (hws : Leads p k top inner first (.scope child) ws) (hne : ws ≠ []) :
    Looped p k top inner src first (before ++ [child])
      (noted seen (Word.render (stem p src) ws)) := by
  have hrender : (Word.render (stem p src) ws).isEmpty = false := by
    cases ws with
    | nil => exact absurd rfl hne
    | cons w ws => simp [Word.render]
  unfold noted
  rw [hrender]
  refine ⟨fun joined hjoined => ?_, fun hfirst => List.mem_cons_of_mem _ (h.blank hfirst)⟩
  rcases List.mem_cons.mp hjoined with rfl | hmem
  · exact ⟨child, List.mem_append_right _ List.mem_cons_self, ws, hws, hne, rfl⟩
  · obtain ⟨sibling, hsibling, hrest⟩ := h.leads joined hmem
    exact ⟨sibling, List.mem_append_left _ hsibling, hrest⟩

/-- A path that a child of the file's scope has leads to it when it has been told apart, if not
before, together with the scope that keeps the blank name from then on. -/
def Given (p : Program) (k : CheckedPackage) (top inner : ScopeId) (src : FileId)
    (c : PlacementContext) (s : Placements) (before : List ScopeId) (seen : List String)
    (child : ScopeId) (path : DefPath) : Prop :=
  ∃ first ws, (guide p k top inner src first c).Admits s ∧
    Leads p k top inner first (.scope child) ws ∧
    toldApart seen before.length path = Word.render (stem p src) ws ∧
    Looped p k top inner src first (before ++ [child]) (noted seen path)

section Given

variable {child : ScopeId} {found : Scope} {before rest : List ScopeId} {seen : List String}

/-- A path that leads to a child is kept. -/
theorem given_of_leads (hk : FlatFile p k top inner file src)
    (hfound : p.scope inner = .ok found) (hchildren : found.children = before ++ child :: rest)
    (hseen : Looped p k top inner src first before seen)
    (hs : (guide p k top inner src first c).Admits s) {ws : List Word}
    (hws : Leads p k top inner first (.scope child) ws) :
    Given p k top inner src c s before seen child (Word.render (stem p src) ws) := by
  have hchild : p.HasChild inner child := .of_children hfound hchildren
  have hne := hk.ne_nil_of_leads .refl hchild hws
  have hfresh := hk.not_mem_of_leads hws hne (hk.tree.not_mem_before hfound hchildren) hseen.leads
  refine ⟨first, ws, hs, hws, ?_, hseen.append hws hne⟩
  unfold toldApart
  rw [if_neg hfresh]

/-- The first child with the blank name keeps it, later ones are told apart. -/
theorem given_blank (hat : p.ChildAt inner before.length child)
    (hseen : Looped p k top inner src first before seen)
    (hs : (guide p k top inner src first c).Admits s) :
    Given p k top inner src c s before seen child ["_"] := by
  have hjoined : joinStrings "/" ["_"] = "_" := rfl
  have hnoted : noted seen ["_"] = "_" :: seen := rfl
  by_cases hmem : "_" ∈ seen
  · refine ⟨first, [.blank before.length], hs, .blank hat, ?_, ?_⟩
    · unfold toldApart
      rw [hjoined, if_pos hmem]
      rfl
    · rw [hnoted]
      refine ⟨fun joined hjoined => ?_, fun _ => List.mem_cons_self⟩
      have hold : joined ∈ seen := by
        rcases List.mem_cons.mp hjoined with rfl | hold
        · exact hmem
        · exact hold
      obtain ⟨sibling, hsibling, hrest⟩ := hseen.leads _ hold
      exact ⟨sibling, List.mem_append_left _ hsibling, hrest⟩
  · -- no scope has the bare name yet
    have hfirst : first = none := by
      cases first with
      | none => rfl
      | some scope => exact absurd (hseen.blank rfl) hmem
    subst hfirst
    have hws : Leads p k top inner (some child) (.scope child) [.name "_"] :=
      .first rfl hat.hasChild
    refine ⟨some child, [.name "_"], Admits.mono hs _, hws, ?_, ?_⟩
    · unfold toldApart
      rw [hjoined, if_neg hmem]
      rfl
    · rw [hnoted]
      refine ⟨fun joined hjoined => ?_, fun _ => List.mem_cons_self⟩
      rcases List.mem_cons.mp hjoined with rfl | hold
      · exact ⟨child, List.mem_append_right _ List.mem_cons_self, [.name "_"], hws,
          List.cons_ne_nil _ _, rfl⟩
      · obtain ⟨sibling, hsibling, ws, hleads, hrest⟩ := hseen.leads _ hold
        exact ⟨sibling, List.mem_append_left _ hsibling, ws, hleads.mono _, hrest⟩

/-- Methods with names have entered their bodies already. -/
theorem name_eq_blank_of_unknown (hk : FlatFile p k top inner file src)
    (hentered : BodiesEntered p top s) (hnone : s.scopes.get? child = none) {recv ident : NodeId}
    {obj : ObjectId} {o : Object} (hf : p.FuncScope k child (some recv) ident obj)
    (ho : p.object obj = .ok o) : o.name = "_" := by
  refine Decidable.byContradiction fun hname => ?_
  obtain ⟨typeName, type, bound, hbinds, hnames, hmethod⟩ := hk.funcListed hf ho hname
  exact hentered.not_hasMethod hnone hf.owns hbinds hnames hmethod

/-- The path that a child of the file's scope is found to have. -/
theorem given_of_scopePath (hk : FlatFile p k top inner file src)
    (hc : PlacementContext.ofPackage p k labels = .ok c) {path : DefPath}
    (hfound : p.scope inner = .ok found) (hchildren : found.children = before ++ child :: rest)
    (hseen : Looped p k top inner src first before seen) (hentered : BodiesEntered p top s)
    (hs : (guide p k top inner src first c).Admits s)
    (hpath : c.scopePath s [] child = .ok (path, s')) :
    Given p k top inner src c s before seen child path := by
  have hat : p.ChildAt inner before.length child := ⟨found, before, rest, hfound, hchildren, rfl⟩
  have hkept : ∀ {ws}, Leads p k top inner first (.scope child) ws →
      Given p k top inner src c s before seen child (Word.render (stem p src) ws) :=
    fun hws => hk.given_of_leads hfound hchildren hseen hs hws
  rcases scopePath_eq_ok hpath with ⟨hknown, -⟩ | ⟨hnone, -, -, hlabel⟩
  · obtain ⟨ws, hws, rfl⟩ := hs.scopes child path hknown
    exact hkept hws
  · rcases hlabel with ⟨label, hlabel, rfl⟩ | ⟨hlabel, -⟩
    · obtain ⟨label', heq, hof⟩ :=
        hk.fileScopes.labelOf_scopeLabel? hc .refl hfound hchildren hlabel
      cases heq
      cases hof with
      | block =>
        unfold blockLabel
        rw [if_pos rfl]
        exact hkept (.topBlock hat)
      | @init recv ident obj o r recvName hf ho hinit hrange hrecv =>
        cases recv with
        | none =>
          rw [hrecv rfl]
          exact hkept (.init hf ⟨o, ho, hinit⟩ hrange rfl)
        | some recv =>
          have hblank := hk.name_eq_blank_of_unknown hentered hnone hf ho
          rw [hinit] at hblank
          exact absurd hblank (by decide)
      | @func recv ident obj o hf ho hinit =>
        by_cases hname : o.name = "_"
        · rw [hname]
          exact given_blank hat hseen hs
        · cases recv with
          | none => exact hkept (.func hf ⟨o, ho, rfl⟩ (hk.funcBound hf ho hinit hname) hname)
          | some recv => exact absurd (hk.name_eq_blank_of_unknown hentered hnone hf ho) hname
    · obtain ⟨label, heq, -⟩ := hk.fileScopes.labelOf_scopeLabel? hc .refl hfound hchildren hlabel
      cases heq

end Given

/-- The children of the file's scope get paths that lead to them. -/
theorem admits_of_children (hk : FlatFile p k top inner file src)
    (hc : PlacementContext.ofPackage p k labels = .ok c) {found : Scope}
    {before rest : List ScopeId} {seen : List String} (hfound : p.scope inner = .ok found)
    (hchildren : found.children = before ++ rest)
    (hseen : Looped p k top inner src first before seen) (hentered : BodiesEntered p top s)
    (hs : (guide p k top inner src first c).Admits s)
    (hrun : c.Runs s (.children inner [] before seen rest) s') :
    ∃ first, (guide p k top inner src first c).Admits s' := by
  induction rest generalizing s before seen first with
  | nil =>
    cases hrun
    exact ⟨first, hs⟩
  | cons child rest ih =>
    cases hrun with
    | @child _ s₁ s₂ _ _ _ _ _ _ _ path hpath hwithin hrest =>
      obtain ⟨first', ws, hs', hws, hgiven, hseen'⟩ :=
        hk.given_of_scopePath hc hfound hchildren hseen hentered hs hpath
      have hchild : p.HasChild inner child := .of_children hfound hchildren
      rw [hgiven] at hwithin
      have hmid := (hk.sound_guide hc first').admits hwithin
        ⟨⟨.child .refl hchild, (hk.ne_of_hasChild .refl hchild).2⟩, ws, hws, rfl⟩
        (hs'.setScope_of_scopePath hpath ⟨ws, hws, rfl⟩)
      have hgrows := (grows_of_scopePath hpath).trans ((Grows.setScope _ _ _).trans hwithin.grows)
      refine ih ?_ hseen' (hentered.grows hgrows) hmid hrest
      rw [hchildren, List.append_assoc]
      rfl

/-! ## The package -/

/-- All paths that are given out in the package are made of words that lead to what they are
given to. -/
theorem admits_of_placePackage (hk : FlatFile p k top inner file src)
    (hc : PlacementContext.ofPackage p k labels = .ok c)
    (h : c.placePackage .empty = .ok s) :
    ∃ first, (guide p k top inner src first c).Admits s := by
  obtain ⟨hprogram, -, hpkg, -⟩ := ofPackage_eq_ok hc
  obtain ⟨owner, howner, rfl⟩ := hk.owner
  have hsound := hk.sound_guide hc none
  obtain ⟨found, hfound, hchildren⟩ := hk.children
  obtain ⟨found', s₁, hfound', hbindings, hrest⟩ :=
    runs_bindings_of_placePackage h (by rw [hprogram, hpkg]; exact howner)
  rw [hprogram, hfound] at hfound'
  cases hfound'
  -- the bindings of the package
  have hempty := (guide p k owner.scope inner src none c).admits_empty
  have hs₁ := hsound.admits hbindings
    ⟨⟨[], .package, rfl⟩, found, by rw [hprogram]; exact hfound, fun _ hb => hb⟩
    (hempty.setScope ⟨[], .package, rfl⟩)
  have hentered := bodiesEntered (by rw [hprogram]; exact hk.members)
    (by rw [hprogram]; exact hfound) hbindings
  rw [hprogram] at hentered
  -- the bindings of the file, then what lies below
  rw [hchildren] at hrest
  cases hrest with
  | @child _ s₂ s₃ _ _ _ _ _ _ _ path hpath hwithin hnone =>
    cases hnone
    have hempty : ∀ path, s₁.scopes.get? inner = some path → path = [] := by
      intro path hknown
      obtain ⟨ws, hws, rfl⟩ := hs₁.scopes _ _ hknown
      rw [hk.nil_of_leads hws (.inr rfl)]
      rfl
    obtain rfl := hk.fileScopes.scopePath_file hc hempty hpath
    have hgrows := (grows_of_scopePath hpath).trans (Grows.setScope s₂ inner [])
    have hs₂ := hs₁.setScope_of_scopePath hpath ⟨[], .file, rfl⟩
    cases hwithin with
    | within hfound' hbindings' hrest' =>
      rw [hprogram] at hfound'
      have hs₄ := hsound.admits hbindings'
        ⟨⟨[], .file, rfl⟩, _, by rw [hprogram]; exact hfound', fun _ hb => hb⟩ hs₂
      refine hk.admits_of_children hc hfound' rfl ⟨?_, ?_⟩
        (hentered.grows (hgrows.trans hbindings'.grows)) hs₄ hrest'
      · exact fun joined hjoined => absurd hjoined List.not_mem_nil
      · exact fun hsome => by cases hsome

/-- **Different objects have different paths.** In a package of one file, whatever objects other
than imports are given places, their paths differ, and so do the texts of these. -/
theorem path_ne_of_ne (hk : FlatFile p k top inner file src)
    (hc : PlacementContext.ofPackage p k labels = .ok c) (h : c.placePackage .empty = .ok s)
    {a b : ObjectId} {pa pb : Placement} (ha : s.place? a = some pa) (hb : s.place? b = some pb)
    (hia : ¬ p.IsImport a) (hib : ¬ p.IsImport b) (hne : a ≠ b) :
    pa.path ≠ pb.path ∧ joinStrings "/" pa.path ≠ joinStrings "/" pb.path := by
  obtain ⟨first, hs⟩ := hk.admits_of_placePackage hc h
  obtain ⟨wa, hwa, hpa⟩ := hs.objects a pa ha
  obtain ⟨wb, hwb, hpb⟩ := hs.objects b pb hb
  have hnil : ∀ {obj ws}, Leads p k top inner first (.object obj) ws → ws ≠ [] := by
    rintro obj ws hws rfl
    exact not_leads_object_nil hws
  have hjoined : joinStrings "/" pa.path ≠ joinStrings "/" pb.path := by
    intro heq
    rw [hpa, hpb] at heq
    obtain rfl := Word.joinStrings_injective (hk.good_of_leads hwa) (hk.good_of_leads hwb)
      (hnil hwa) (hnil hwb) heq
    exact hne ((hk.apart first wa).objects hwa hwb hia hib)
  exact ⟨fun heq => hjoined (by rw [heq]), hjoined⟩

end FlatFile

namespace Layout

variable (l : Layout)

/-- Objects 3 and 4, which are no imports, get places with paths `a` and `b`. -/
def Gives (a b : DefPath) : Prop :=
  ¬ l.program.IsImport ⟨3⟩ ∧ ¬ l.program.IsImport ⟨4⟩ ∧
  ∃ c s pa pb, PlacementContext.ofPackage l.program package .deterministic = .ok c ∧
    c.placePackage .empty = .ok s ∧ s.place? ⟨3⟩ = some pa ∧ s.place? ⟨4⟩ = some pb ∧
    pa.path = a ∧ pb.path = b

/-- No object of the sample is an import. -/
theorem not_isImport {obj : ObjectId} : ¬ l.program.IsImport obj := by
  rintro ⟨o, ho, himport⟩
  have hall : ∀ x ∈ l.program.objectList, x.2.kind.isPackage = false := by cases l <;> decide
  rw [hall _ (Program.mem_objectList ho)] at himport
  cases himport

end Layout

/-- In the package whose functions stand side by side the two paths differ. -/
theorem path_ne_of_ne_apart :
    ∃ c s pa pb, PlacementContext.ofPackage Layout.apart.program Layout.package .deterministic
        = .ok c ∧ c.placePackage .empty = .ok s ∧ s.place? ⟨3⟩ = some pa ∧
      s.place? ⟨4⟩ = some pb ∧ pa.path ≠ pb.path ∧
      joinStrings "/" pa.path ≠ joinStrings "/" pb.path := by
  obtain ⟨ha, hb, c, s, pa, pb, hc, hs, hpa, hpb, -, -⟩ :
      Layout.apart.Gives ["f", "w", "x"] ["g", "x"] :=
    ⟨Layout.apart.not_isImport, Layout.apart.not_isImport, _, _, _, _, rfl, rfl, rfl, rfl, rfl, rfl⟩
  exact ⟨c, s, pa, pb, hc, hs, hpa, hpb,
    FlatFile.path_ne_of_ne Layout.flatFile hc hs hpa hpb ha hb (by decide)⟩

/-- The body of a function that stands in that of another, and a function with the blank name
beside a variable with that name: each time two objects get one path. -/
theorem path_eq_of_nested_or_blank :
    (OneFile Layout.nested.program Layout.package ⟨0⟩ ⟨1⟩ ⟨9⟩ ⟨0⟩ ∧
      Layout.nested.Gives ["f", "g", "x"] ["f", "g", "x"]) ∧
    (OneFile Layout.blank.program Layout.package ⟨0⟩ ⟨1⟩ ⟨9⟩ ⟨0⟩ ∧
      Layout.blank.Gives ["_", "x"] ["_", "x"]) :=
  ⟨⟨Layout.nested.oneFile, Layout.nested.not_isImport, Layout.nested.not_isImport,
      _, _, _, _, rfl, rfl, rfl, rfl, rfl, rfl⟩,
    ⟨Layout.blank.oneFile, Layout.blank.not_isImport, Layout.blank.not_isImport,
      _, _, _, _, rfl, rfl, rfl, rfl, rfl, rfl⟩⟩

end SymbolGraph
