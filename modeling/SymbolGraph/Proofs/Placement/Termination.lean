import SymbolGraph.Proofs.Placement.Origins
import SymbolGraph.Proofs.Placement.Walk
import SymbolGraph.Proofs.Program.WellFormed

/-!
# Giving out places comes to an end

In a closed program in which no scope lies below itself and names can be looked through, the walk
over the scopes neither meets a number that stands for nothing nor goes deeper than it may
(`answers_placePackage`). Between two levels at which an object is placed, the walk goes down from
scope to child only, and an object is placed once. So the number of objects without a place, times
more than the number of scopes, and the rank of the scope that the walk is at together bound how
deep it can still go (`answers_placeUpTo`).
-/

namespace SymbolGraph

open Text Placements Program

namespace PlacementContext

/-- Every number in the program in which places are given out stands for something, no scope lies
below itself, no type stands for itself by way of others, and the nodes that scopes come from are
there. Types may well contain themselves. -/
structure Placeable (c : PlacementContext) : Prop where
  closed : c.program.Closed
  scopes : ∀ scope, ¬ Relation.TransGen c.program.HasChild scope scope
  names : ∀ type, ¬ Relation.TransGen c.program.StandsFor type type
  origins : ∀ {scope node}, c.origins.node? scope = some node → c.program.tree.HasNode node

variable {c : PlacementContext} {s s' : Placements}

/-! ## Nodes -/

section Nodes

variable {t : SyntaxTree} {node : NodeId}

/-- A node that is there is found. -/
theorem answers_node (h : t.HasNode node) : Answers (t.node node) fun n => t.node node = .ok n := by
  obtain ⟨n, hn⟩ := SyntaxTree.hasNode_iff.mp h
  exact ⟨n, hn, hn⟩

/-- A node that is there has its kind. -/
theorem answers_kind (h : t.HasNode node) :
    Answers (t.kind node) fun kind => ∃ n, t.node node = .ok n ∧ n.kind = kind := by
  obtain ⟨n, hn⟩ := SyntaxTree.hasNode_iff.mp h
  exact ⟨n.kind, SyntaxTree.kind_of_node hn, n, hn, rfl⟩

/-- A node that is there is in a file. -/
theorem answered_file (h : t.HasNode node) : Answered (t.file node) :=
  (answers_node h).map fun _ _ => trivial

/-- A node that is there has a range. -/
theorem answered_range (h : t.HasNode node) : Answered (t.range node) :=
  (answers_node h).map fun _ _ => trivial

/-- Of a node that is there it can be said whether it is an identifier. -/
theorem answered_identName? (h : t.HasNode node) : Answered (t.identName? node) :=
  (answers_node h).map fun _ _ => trivial

end Nodes

/-! ## Labels -/

/-- The search behind stars and brackets ends above the depth of the node, since each step goes to a
child, which comes earlier. -/
theorem answered_receiverNameUpTo {t : SyntaxTree} (ht : t.ChildrenFirst) {depth : Nat}
    {node : NodeId} (h : t.HasNode node) (hdepth : node.index < depth) :
    Answered (receiverNameUpTo t depth node) := by
  induction depth generalizing node with
  | zero => exact absurd hdepth (Nat.not_lt_zero _)
  | succ depth ih =>
    refine (answers_kind h).bind fun kind ⟨n, hn, hkind⟩ => ?_
    have hchild : ∀ child ∈ kind.children, Answered (receiverNameUpTo t depth child) := by
      intro child hchild
      rw [← hkind] at hchild
      have hlt := ht.lt hn hchild
      exact ih (ht.hasNode hn hchild) (by omega)
    split
    · exact hchild _ List.mem_cons_self
    · exact .pure trivial
    · exact hchild _ List.mem_cons_self
    · exact .pure trivial

/-- The receiver of a method is found, if it has a name. -/
theorem answered_receiverName? {t : SyntaxTree} (ht : t.ChildrenFirst) {recv : NodeId}
    (h : t.HasNode recv) : Answered (receiverName? t recv) := by
  refine (answers_kind h).bind fun kind ⟨n, hn, hkind⟩ => ?_
  have hchild : ∀ child ∈ kind.children, t.HasNode child := fun child hchild =>
    ht.hasNode hn (hkind ▸ hchild)
  split
  · refine (answers_kind (hchild _ List.mem_cons_self)).bind fun kind ⟨n, hn, hkind⟩ => ?_
    have hchild : ∀ child ∈ kind.children, t.HasNode child := fun child hchild =>
      ht.hasNode hn (hkind ▸ hchild)
    split
    · have htype := hchild _ (List.mem_append_right _ List.mem_cons_self)
      exact answered_receiverNameUpTo ht htype (Nat.lt_succ_of_lt htype)
    · exact .pure trivial
  · exact .pure trivial

/-- The declaration of a function gives a label. -/
theorem answered_declLabel (hc : c.Placeable) {recv : Option NodeId} {name : NodeId}
    (hrecv : ∀ node ∈ recv, c.program.tree.HasNode node) (hname : c.program.tree.HasNode name) :
    Answered (c.declLabel recv name) := by
  have hrest : ∀ recvName : Option String, Answered (do
      let funcName := (← c.program.tree.identName? name).getD ""
      if funcName = "init" then
        let pos : Pos := ⟨← c.program.tree.file name, (← c.program.tree.range name).start⟩
        return recvName.toList ++ [funcName ++ c.positionTag pos]
      else return recvName.toList ++ [funcName]) := by
    intro recvName
    refine (answered_identName? hname).bind fun name? _ => ?_
    dsimp only
    split
    · refine (answered_file hname).bind fun _ _ => ?_
      exact (answered_range hname).bind fun _ _ => .pure trivial
    · exact .pure trivial
  cases recv with
  | none => exact hrest none
  | some node =>
    exact (answered_receiverName? hc.closed.children (hrecv node rfl)).bind fun recvName _ =>
      hrest recvName

/-- A scope that a node introduces gets a label or has no parent. -/
theorem answered_blockLabel? (hc : c.Placeable) {scope : ScopeId} {node : NodeId}
    (hscope : c.program.HasScope scope) (hnode : c.program.tree.HasNode node) :
    Answered (c.blockLabel? scope node) := by
  refine (answers_scope hscope).bind fun found hfound => ?_
  cases hparent : found.parent with
  | none => exact .pure trivial
  | some parent =>
    have hrest : ∀ fileLabel : List String, Answered (do
        let i := ((← c.program.scope parent).childIndex? scope).getD 0
        return some (fileLabel ++
          ["$" ++ c.program.sources.strippedName (← c.program.tree.file node) ++ toString i])) := by
      intro fileLabel
      refine (answers_scope (hc.closed.hasScope_of_parent hfound hparent)).bind fun _ _ => ?_
      exact (answered_file hnode).bind fun _ _ => .pure trivial
    dsimp only
    cases horigin : c.origins.node? parent with
    | none => exact hrest []
    | some parentNode =>
      have hnode' := hc.origins horigin
      refine (answers_kind hnode').bind fun kind _ => ?_
      split
      · exact (answered_file hnode').bind fun _ _ => hrest _
      · exact hrest []

/-- A scope gets a label or needs one to be made up. -/
theorem answered_scopeLabel? (hc : c.Placeable) {scope : ScopeId}
    (hscope : c.program.HasScope scope) : Answered (c.scopeLabel? scope) := by
  unfold scopeLabel?
  cases horigin : c.origins.node? scope with
  | none => exact .pure trivial
  | some node =>
    have hnode := hc.origins horigin
    have hblock := answered_blockLabel? hc hscope hnode
    refine (answers_kind hnode).bind fun kind _ => ?_
    split
    · exact .pure trivial
    · split
      · exact .pure trivial
      · refine (answers_node hnode).bind fun n hn => ?_
        cases hparent : n.parent with
        | none => exact hblock
        | some parent =>
          refine (answers_kind (hc.closed.hasNode_of_parent hn hparent)).bind
            fun kind ⟨n', hn', hkind⟩ => ?_
          split
          · have hchild : ∀ child ∈ NodeKind.children _, c.program.tree.HasNode child :=
              fun child hchild => hc.closed.children.hasNode hn' (hkind ▸ hchild)
            refine (answered_declLabel hc (fun node hnode => hchild node ?_)
              (hchild _ ?_)).bind fun _ _ => .pure trivial
            · simp [NodeKind.children, Option.mem_def.mp hnode]
            · simp [NodeKind.children]
          · exact hblock
    · exact hblock

/-- A scope gets a path, and no place is lost by it. -/
theorem answers_scopePath (hc : c.Placeable) {scope : ScopeId} (base : DefPath)
    (hscope : c.program.HasScope scope) :
    Answers (c.scopePath s base scope) fun found => Grows s found.2 := by
  have hanswered : Answered (c.scopePath s base scope) := by
    unfold scopePath
    split
    · exact .pure trivial
    · refine (answered_scopeLabel? hc hscope).bind fun label? _ => ?_
      split
      · exact .pure trivial
      · exact .pure trivial
  obtain ⟨⟨path, s'⟩, hpath, -⟩ := hanswered
  exact ⟨(path, s'), hpath, grows_of_scopePath hpath⟩

/-! ## How deep the walk can still go -/

/-- The number of objects that have no place yet. -/
def unplaced (p : Program) (s : Placements) : Nat :=
  ((Finset.range p.objects.size).filter fun i => s.place? ⟨i⟩ = none).card

/-- No more objects are without a place than there are. -/
theorem unplaced_le_size (p : Program) (s : Placements) : unplaced p s ≤ p.objects.size :=
  calc unplaced p s ≤ (Finset.range p.objects.size).card :=
        Finset.card_le_card (Finset.filter_subset _ _)
    _ = p.objects.size := Finset.card_range _

/-- As places are given, fewer objects are without one. -/
theorem unplaced_le_of_grows {p : Program} (h : Grows s s') : unplaced p s' ≤ unplaced p s := by
  refine Finset.card_le_card fun i hi => ?_
  obtain ⟨hi, hnone⟩ := Finset.mem_filter.mp hi
  refine Finset.mem_filter.mpr ⟨hi, ?_⟩
  cases hplace : s.place? ⟨i⟩ with
  | none => rfl
  | some q => rw [h.places _ q hplace] at hnone; cases hnone

/-- Giving a place to an object that had none leaves fewer of them. -/
theorem unplaced_record_lt {p : Program} {obj : ObjectId} (hobj : p.HasObject obj)
    (h : s.place? obj = none) (q : Placement) : unplaced p (s.record obj q) < unplaced p s := by
  refine Finset.card_lt_card (Finset.ssubset_iff_subset_ne.mpr ⟨fun i hi => ?_, fun heq => ?_⟩)
  · obtain ⟨hi, hnone⟩ := Finset.mem_filter.mp hi
    rw [place?_record] at hnone
    split at hnone
    · cases hnone
    · exact Finset.mem_filter.mpr ⟨hi, hnone⟩
  · have hmem : obj.index ∈ (Finset.range p.objects.size).filter fun i => s.place? ⟨i⟩ = none :=
      Finset.mem_filter.mpr ⟨Finset.mem_range.mpr hobj, h⟩
    rw [← heq] at hmem
    have hnone := (Finset.mem_filter.mp hmem).2
    rw [place?_record_self] at hnone
    cases hnone

/-! ## What is pending -/

/-- What is to be placed is there. -/
def Pending.Exists (p : Program) : Pending → Prop
  | .scope sc _ _ => p.HasScope sc
  | .method obj _ _ => p.HasObject obj
  | .field obj _ _ => p.HasObject obj

/-- The rank of the scope that is pending. -/
def Pending.rank (rank : ScopeId → Nat) : Pending → Nat
  | .scope sc _ _ => rank sc
  | _ => 0

/-- The rank of what is pending is bounded like that of scopes. -/
theorem Pending.rank_le {rank : ScopeId → Nat} {n : Nat} (h : ∀ scope, rank scope ≤ n)
    (t : Pending) : t.rank rank ≤ n := by
  cases t with
  | scope scope base packageScope => exact h scope
  | method obj base packageScope => exact Nat.zero_le n
  | field obj base packageScope => exact Nat.zero_le n

section Items

variable {p : Program} {o : Object} {obj : ObjectId} {path : DefPath} {packageScope : Bool}

/-- Fields that are there may be taken up. -/
theorem Pending.exists_of_mem_fields {fields : List ObjectId}
    (h : ∀ field ∈ fields, p.HasObject field) {t : Pending}
    (ht : t ∈ fields.map (Pending.field · path packageScope)) : t.Exists p := by
  obtain ⟨field, hfield, rfl⟩ := List.mem_map.mp ht
  exact h field hfield

/-- What lies below an object is found, and all of it is there. -/
theorem answers_below (hp : p.Closed)
    (hnames : ∀ type, ¬ Relation.TransGen p.StandsFor type type) (ho : p.object obj = .ok o) :
    Answers (below p o path packageScope) fun ts => ∀ t ∈ ts, t.Exists p := by
  unfold below
  split
  · rename_i type htype hkind
    have htype := hp.hasType ho htype
    refine (answers_methodsOf hp hnames htype).bind fun methods hmethods => ?_
    refine (answers_underlying hp hnames htype).bind fun under hunder => ?_
    refine (answers_deref hp hunder).bind fun target htarget => ?_
    refine (answers_ownFields? hp htarget).bind fun fields? hfields => .pure fun t ht => ?_
    rcases List.mem_append.mp ht with ht | ht
    · obtain ⟨method, hmethod, rfl⟩ := List.mem_map.mp ht
      exact hmethods method hmethod
    · exact Pending.exists_of_mem_fields hfields ht
  · rename_i type htype hkind
    refine (answers_deref hp (hp.hasType ho htype)).bind fun target htarget => ?_
    refine (answers_ownFields? hp htarget).bind fun fields? hfields => .pure fun t ht => ?_
    exact Pending.exists_of_mem_fields hfields ht
  · exact .pure fun t ht => absurd ht List.not_mem_nil

end Items

/-! ## The walk -/

section Walk

variable {go : Placements → Pending → Except Fault Placements} {base : DefPath}

/-- Steps that answer wherever places have only been added answer one after another. -/
theorem answers_inTurn {α : Type} {step : Placements → α → Except Fault Placements}
    {list : List α}
    (h : ∀ s', Grows s s' → ∀ a ∈ list, Answers (step s' a) (Grows s')) :
    Answers (inTurn step s list) (Grows s) := by
  induction list generalizing s with
  | nil => exact .pure (.refl s)
  | cons a rest ih =>
    refine (h s (.refl s) a List.mem_cons_self).bind fun s₁ hs₁ => ?_
    refine (ih fun s' hs' b hb => ?_).mono fun s' hs' => hs₁.trans hs'
    exact h s' (hs₁.trans hs') b (List.mem_cons_of_mem _ hb)

/-- Once an object has got its place, what lies below it is placed with fewer objects left. -/
theorem answers_inTurn_of_record {obj : ObjectId} (hobj : c.program.HasObject obj)
    (hnone : s.place? obj = none) (q : Placement) {ts : List Pending}
    (hts : ∀ t ∈ ts, t.Exists c.program)
    (hgo : ∀ s' t, t.Exists c.program → unplaced c.program s' < unplaced c.program s →
      Answers (go s' t) (Grows s')) :
    Answers (inTurn go (s.record obj q) ts) (Grows s) := by
  refine (answers_inTurn fun s' hs' t ht => hgo s' t (hts t ht) ?_).mono fun s' hs' =>
    (Grows.record hnone q).trans hs'
  exact Nat.lt_of_le_of_lt (unplaced_le_of_grows hs') (unplaced_record_lt hobj hnone q)

/-- A binding is placed, if what lies below it can be once fewer objects are without a place. -/
theorem answers_placeBinding (hc : c.Placeable) {b : String × ObjectId}
    (hb : c.program.HasObject b.2) (packageScope : Bool)
    (hgo : ∀ s' t, t.Exists c.program → unplaced c.program s' < unplaced c.program s →
      Answers (go s' t) (Grows s')) :
    Answers (c.placeBinding go base packageScope s b) (Grows s) := by
  unfold placeBinding
  cases hnone : s.place? b.2 with
  | some q => exact .pure (.refl s)
  | none =>
    refine (answers_object hb).bind fun o ho => ?_
    refine (answers_below hc.closed hc.names ho).bind fun ts hts => ?_
    exact answers_inTurn_of_record hb hnone _ hts hgo

/-- The children of a scope are placed, if each of them can be. -/
theorem answers_placeChildren (hc : c.Placeable) {children : List ScopeId} {seen : List String}
    {i : Nat} (hchildren : ∀ child ∈ children, c.program.HasScope child)
    (hgo : ∀ s' path, Grows s s' → ∀ child ∈ children,
      Answers (go s' (.scope child path false)) (Grows s')) :
    Answers (c.placeChildren go base seen i s children) (Grows s) := by
  induction children generalizing s seen i with
  | nil => exact .pure (.refl s)
  | cons child rest ih =>
    unfold placeChildren
    refine (answers_scopePath hc base (hchildren child List.mem_cons_self)).bind fun given hs₁ => ?_
    obtain ⟨path, s₁⟩ := given
    have hrest : ∀ path seen, Answers (do
        c.placeChildren go base seen (i + 1) (← go s₁ (.scope child path false)) rest)
        (Grows s) := by
      intro path seen
      refine (hgo s₁ path hs₁ child List.mem_cons_self).bind fun s₂ hs₂ => ?_
      have hgrows := Grows.trans hs₁ hs₂
      refine (ih (fun other hother => hchildren other (List.mem_cons_of_mem _ hother))
        fun s' path hs' other hother => ?_).mono fun s' hs' => hgrows.trans hs'
      exact hgo s' path (hgrows.trans hs') other (List.mem_cons_of_mem _ hother)
    dsimp only
    split
    · exact hrest _ _
    · exact hrest _ _

/-- A scope gets placed if its children do and whatever lies below an object that had no place. -/
theorem answers_placeUpTo_scope (hc : c.Placeable) {depth : Nat} {scope : ScopeId}
    {packageScope : Bool} (hscope : c.program.HasScope scope)
    (hfewer : ∀ s' t', t'.Exists c.program → unplaced c.program s' < unplaced c.program s →
      Answers (c.placeUpTo depth s' t') (Grows s'))
    (hchildren : ∀ s' path, Grows s s' → ∀ child, c.program.HasChild scope child →
      Answers (c.placeUpTo depth s' (.scope child path false)) (Grows s')) :
    Answers (c.placeUpTo (depth + 1) s (.scope scope base packageScope)) (Grows s) := by
  unfold placeUpTo
  refine (answers_scope hscope).bind fun found hfound => ?_
  have hgrows := Grows.setScope s scope base
  refine (answers_inTurn fun s' hs' b hb => ?_).bind fun s₁ hs₁ => ?_
  · have hobj := hc.closed.hasObject_of_binds ⟨found, hfound, hb⟩
    refine answers_placeBinding hc hobj packageScope fun s'' t' ht' hunplaced => ?_
    exact hfewer s'' t' ht'
      (Nat.lt_of_lt_of_le hunplaced (unplaced_le_of_grows (hgrows.trans hs')))
  · have hgrows₁ := hgrows.trans hs₁
    have hchild : ∀ child ∈ found.children, c.program.HasChild scope child :=
      fun child hmem => ⟨found, hfound, hmem⟩
    exact (answers_placeChildren hc
      (fun child hmem => hc.closed.hasScope_of_child (hchild child hmem))
      fun s' path hs' child hmem =>
        hchildren s' path (hgrows₁.trans hs') child (hchild child hmem)).mono
          fun s' hs' => hgrows₁.trans hs'

/-- What is pending gets placed if there are levels enough: one more than the rank, and so many
more for every object without a place that a scope of any rank can follow. -/
theorem answers_placeUpTo (hc : c.Placeable) {rank : ScopeId → Nat}
    (hlt : ∀ scope child, c.program.HasChild scope child → rank child < rank scope)
    (hle : ∀ scope, rank scope ≤ c.program.scopes.size) {depth : Nat} {t : Pending}
    (ht : t.Exists c.program)
    (hdepth : unplaced c.program s * (c.program.scopes.size + 3) + t.rank rank < depth) :
    Answers (c.placeUpTo depth s t) (Grows s) := by
  induction depth generalizing s t with
  | zero => exact absurd hdepth (Nat.not_lt_zero _)
  | succ depth ih =>
    have hfewer : ∀ s' t', t'.Exists c.program →
        unplaced c.program s' < unplaced c.program s →
        Answers (c.placeUpTo depth s' t') (Grows s') := by
      intro s' t' ht' hunplaced
      refine ih ht' ?_
      have hrank := Pending.rank_le hle t'
      have hmul := Nat.mul_le_mul_right (c.program.scopes.size + 3) hunplaced
      rw [Nat.succ_mul] at hmul
      omega
    cases t with
    | scope scope base packageScope =>
      refine answers_placeUpTo_scope hc ht hfewer fun s' path hs' child hchild => ?_
      refine ih (hc.closed.hasScope_of_child hchild) ?_
      have hrank := hlt scope child hchild
      have hmul := Nat.mul_le_mul_right (c.program.scopes.size + 3)
        (unplaced_le_of_grows (p := c.program) hs')
      simp only [Pending.rank] at hdepth ⊢
      omega
    | method obj base packageScope =>
      unfold placeUpTo
      cases hnone : s.place? obj with
      | some q => exact .pure (.refl s)
      | none =>
        refine (answers_object ht).bind fun o ho => ?_
        dsimp only
        split
        · rename_i scope hkind
          refine (hfewer _ _ ?_ ?_).mono fun s' hs' => (Grows.record hnone _).trans hs'
          · exact hc.closed.hasScope_of_func ho hkind
          · exact unplaced_record_lt ht hnone _
        · exact .pure (Grows.record hnone _)
    | field obj base packageScope =>
      unfold placeUpTo
      cases hnone : s.place? obj with
      | some q => exact .pure (.refl s)
      | none =>
        refine (answers_object ht).bind fun o ho => ?_
        dsimp only
        split
        · rename_i type htype
          have hasType := hc.closed.hasType ho htype
          refine (answers_deref hc.closed hasType).bind fun target htarget => ?_
          refine (answers_ownFields? hc.closed htarget).bind fun fields? hfields => ?_
          exact answers_inTurn_of_record ht hnone _
            (fun t ht => Pending.exists_of_mem_fields hfields ht) hfewer
        · exact .pure (Grows.record hnone _)

/-- All objects of a package get placed. -/
theorem answers_placePackage (hc : c.Placeable) (hpkg : c.program.HasPackage c.pkg)
    (s : Placements) : Answers (c.placePackage s) (Grows s) := by
  obtain ⟨rank, hlt, hle⟩ := exists_rank ScopeId.eq_of_index
    (fun _ _ hchild => hc.closed.hasScope_of_child hchild) hc.scopes
  refine (answers_package hpkg).bind fun owner howner => ?_
  refine answers_placeUpTo hc hlt hle (hc.closed.hasScope_of_package howner) ?_
  have hrank := hle owner.scope
  have hmul := Nat.mul_le_mul_right (c.program.scopes.size + 3) (unplaced_le_size c.program s)
  simp only [Pending.rank, depthBound, Nat.add_mul]
  omega

end Walk

end PlacementContext

/-! ## Contexts -/

section Contexts

variable {p : Program} {k : CheckedPackage}

/-- The scopes of a package of a well-formed program can be traced to their origins. -/
theorem answered_ofFacts (h : p.Covers k) : Answered (ScopeOrigins.ofFacts p k.facts) := by
  refine Answers.bind (Answers.foldlM (fun names ⟨ident, obj⟩ he => ?_) _) fun _ _ => .pure trivial
  obtain ⟨hident, hobj⟩ := h.defs _ he
  refine (Program.answers_object hobj).bind fun o _ => ?_
  split
  · refine (PlacementContext.answered_identName? hident).bind fun name? _ => ?_
    cases name? with
    | none => exact .pure trivial
    | some name => exact .pure trivial
  · exact .pure trivial

/-- Places can be given out in a package whose facts are about things that are there. -/
theorem PlacementContext.answers_ofPackage (hp : p.Closed)
    (hscopes : ∀ scope, ¬ Relation.TransGen p.HasChild scope scope)
    (hnames : ∀ type, ¬ Relation.TransGen p.StandsFor type type) (hk : p.Covers k)
    (labels : Labelling) :
    Answers (ofPackage p k labels) fun c =>
      c.program = p ∧ c.pkg = k.pkg ∧ c.facts = k.facts ∧ c.Placeable := by
  obtain ⟨origins, horigins, -⟩ := answered_ofFacts hk
  refine ⟨⟨p, k.pkg, k.facts, origins, labels⟩, bind_eq_ok_iff.mpr ⟨origins, horigins, rfl⟩, rfl,
    rfl, rfl, hp, hscopes, hnames, fun hnode => ?_⟩
  exact (hk.scopes _ (ScopeOrigins.mem_of_node? horigins hnode)).1

end Contexts

end SymbolGraph
