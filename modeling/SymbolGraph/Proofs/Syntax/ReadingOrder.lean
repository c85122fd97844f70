import Mathlib.Data.List.Forall2
import SymbolGraph.Graph.Emission

/-!
# Reading order

The order in which the nodes of a file are gone through when a package is graphed: a node comes
before what lies below it, and that before the node's later siblings (`SyntaxTree.Reads`). Of a
labelled statement only the statement is read, and of a branch nothing. There is one such order
at most (`Reads.unique`), and a walk that comes to an end visits the nodes in it
(`reads_graphWalk`), although it makes the visits below a declared struct type by hand. A walk
through a tree whose children were made before their parents is never cut short
(`graphWalk_fault_eq_none`).
-/

namespace SymbolGraph

/-! ## Walks one after another -/

namespace Trace

variable {α : Type}

/-- Two traces in a row end without a fault if both do, and then visit what both do. -/
theorem append_fault_eq_none {t u : Trace α} (h : (t.append u).fault = none) :
    t.fault = none ∧ u.fault = none ∧ (t.append u).visited = t.visited ++ u.visited := by
  unfold append at h ⊢
  cases ht : t.fault with
  | none =>
    rw [ht] at h
    exact ⟨rfl, h, rfl⟩
  | some f =>
    rw [ht] at h
    dsimp only at h
    rw [ht] at h
    cases h

end Trace

/-! ## The order -/

/-- What is read below a node: its children, but of a labelled statement only the statement and
of a branch nothing. -/
def NodeKind.readBelow : NodeKind → List NodeId
  | .labeledStmt _ stmt => [stmt]
  | .branchStmt .. => []
  | kind => kind.children

namespace SyntaxTree

/-- The nodes of a list, each with what lies below it, are read in the order `visits`. -/
inductive Reads (t : SyntaxTree) : List NodeId → List NodeId → Prop
  | nil : Reads t [] []
  | cons {node : NodeId} {n : Node} {pending below rest : List NodeId} : t.node node = .ok n →
      Reads t n.kind.readBelow below → Reads t pending rest →
      Reads t (node :: pending) (node :: below ++ rest)

variable {t : SyntaxTree} {pending visits : List NodeId}

/-- What is read below some nodes, and in which order, is determined. -/
theorem Reads.unique {visits' : List NodeId} (h : t.Reads pending visits)
    (h' : t.Reads pending visits') : visits = visits' := by
  induction h generalizing visits' with
  | nil =>
    cases h'
    rfl
  | cons hn _ _ ihBelow ihRest =>
    cases h' with
    | cons hn' hbelow' hrest' =>
      rw [hn] at hn'
      cases hn'
      rw [ihBelow hbelow', ihRest hrest']

/-- Lists that are read one after the other. -/
theorem Reads.append {later visits' : List NodeId} (h : t.Reads pending visits)
    (h' : t.Reads later visits') : t.Reads (pending ++ later) (visits ++ visits') := by
  induction h with
  | nil => exact h'
  | cons hn hbelow _ _ ih =>
    rw [List.append_assoc]
    exact .cons hn hbelow ih

/-- The nodes of a list that is read are read themselves. -/
theorem Reads.subset (h : t.Reads pending visits) : ∀ node ∈ pending, node ∈ visits := by
  induction h with
  | nil => exact fun _ hmem => hmem
  | cons _ _ _ _ ih =>
    intro node hnode
    rcases List.mem_cons.mp hnode with rfl | hnode
    · exact List.mem_cons_self
    · exact List.mem_cons_of_mem _ (List.mem_append_right _ (ih node hnode))

/-- Only nodes that are there are read. -/
theorem Reads.exists_node (h : t.Reads pending visits) :
    ∀ node ∈ visits, ∃ n, t.node node = .ok n := by
  induction h with
  | nil => exact fun _ hmem => absurd hmem List.not_mem_nil
  | cons hn _ _ ihBelow ihRest =>
    intro node hnode
    rcases List.mem_append.mp hnode with hnode | hnode
    · rcases List.mem_cons.mp hnode with rfl | hnode
      · exact ⟨_, hn⟩
      · exact ihBelow node hnode
    · exact ihRest node hnode

/-- Whatever is read below a node that is read is read, too. -/
theorem Reads.mem_of_readBelow {node child : NodeId} {n : Node} (h : t.Reads pending visits)
    (hnode : node ∈ visits) (hn : t.node node = .ok n) (hchild : child ∈ n.kind.readBelow) :
    child ∈ visits := by
  induction h with
  | nil => cases hnode
  | cons hn' hbelow _ ihBelow ihRest =>
    rcases List.mem_append.mp hnode with hfirst | hlater
    · refine List.mem_append_left _ ?_
      rcases List.mem_cons.mp hfirst with rfl | hfirst
      · rw [hn] at hn'
        cases hn'
        exact List.mem_cons_of_mem _ (hbelow.subset child hchild)
      · exact List.mem_cons_of_mem _ (ihBelow hfirst)
    · exact List.mem_append_right _ (ihRest hlater)

/-- A node that is read is in the list, or read after a node that it is directly below. -/
theorem Reads.mem_or_exists_above {before after : List NodeId} {node : NodeId}
    (h : t.Reads pending visits) (hvisits : visits = before ++ node :: after) :
    node ∈ pending ∨
      ∃ above ∈ before, ∃ n, t.node above = .ok n ∧ node ∈ n.kind.readBelow := by
  induction h generalizing before after with
  | nil => simp at hvisits
  | @cons first n pending below rest hn _ _ ihBelow ihRest =>
    rcases List.append_eq_append_iff.mp hvisits with ⟨mid, rfl, hrest⟩ | ⟨mid, hfirst, hrest⟩
    · refine (ihRest hrest).imp (List.mem_cons_of_mem _) ?_
      rintro ⟨above, habove, hread⟩
      exact ⟨above, List.mem_append_right _ habove, hread⟩
    · cases mid with
      | nil =>
        rcases @ihRest [] after hrest.symm with hmem | ⟨above, habove, -⟩
        · exact .inl (List.mem_cons_of_mem _ hmem)
        · cases habove
      | cons node' mid =>
        obtain ⟨rfl, -⟩ := List.cons.inj hrest
        cases before with
        | nil =>
          obtain ⟨rfl, -⟩ := List.cons.inj hfirst
          exact .inl List.mem_cons_self
        | cons first' before =>
          obtain ⟨rfl, hbelow⟩ := List.cons.inj hfirst
          refine .inr ?_
          rcases ihBelow hbelow with hmem | ⟨above, habove, hread⟩
          · exact ⟨first, List.mem_cons_self, n, hn, hmem⟩
          · exact ⟨above, List.mem_cons_of_mem _ habove, hread⟩

/-- What is read of a list is read of its nodes one after the other. -/
theorem Reads.exists_blocks (h : t.Reads pending visits) :
    ∃ blocks : List (List NodeId), visits = blocks.flatten ∧
      List.Forall₂ (fun node block => t.Reads [node] block) pending blocks := by
  induction h with
  | nil => exact ⟨[], rfl, .nil⟩
  | cons hn hbelow _ _ ih =>
    obtain ⟨blocks, rfl, hblocks⟩ := ih
    have hfirst := Reads.cons hn hbelow .nil
    rw [List.append_nil] at hfirst
    exact ⟨_ :: blocks, rfl, .cons hfirst hblocks⟩

/-- What is read below some nodes is read below each of them, one after the other. -/
theorem Reads.of_blocks {blocks : List (List NodeId)}
    (h : List.Forall₂ (fun node block => t.Reads [node] block) pending blocks) :
    t.Reads pending blocks.flatten := by
  induction h with
  | nil => exact .nil
  | cons hfirst _ ih => exact hfirst.append ih

end SyntaxTree

/-- A node that is found has its kind. -/
theorem SyntaxTree.kind_of_node {t : SyntaxTree} {node : NodeId} {n : Node}
    (hn : t.node node = .ok n) : t.kind node = .ok n.kind := by
  unfold SyntaxTree.kind
  rw [hn]
  rfl

/-- A kind that is found is that of a node. -/
theorem SyntaxTree.node_of_kind {t : SyntaxTree} {node : NodeId} {kind : NodeKind}
    (h : t.kind node = .ok kind) : ∃ n, t.node node = .ok n ∧ n.kind = kind := by
  unfold SyntaxTree.kind at h
  cases hn : t.node node with
  | error f => rw [hn] at h; cases h
  | ok n => rw [hn] at h; cases h; exact ⟨n, rfl, rfl⟩

/-! ## The walk over a package -/

/-- What is visited below a node is what is read below it. -/
theorem Visit.map_node_of_descend {t : SyntaxTree} {v : Visit} {below : List Visit}
    (h : v.descend t = .ok below) :
    ∃ n, t.node v.node = .ok n ∧ below.map Visit.node = n.kind.readBelow := by
  unfold Visit.descend at h
  obtain ⟨kind, hkind, h⟩ := bind_eq_ok_iff.mp h
  obtain ⟨n, hn, rfl⟩ := SyntaxTree.node_of_kind hkind
  refine ⟨n, hn, ?_⟩
  have hchildren : ∀ nodes : List NodeId,
      (nodes.map fun node => (⟨node, v.structName⟩ : Visit)).map Visit.node = nodes := by
    intro nodes
    rw [List.map_map]
    exact List.map_id nodes
  cases hshape : n.kind with
  | labeledStmt label stmt => rw [hshape] at h; cases h; rfl
  | branchStmt keyword label => rw [hshape] at h; cases h; rfl
  | typeSpec name type doc comment =>
    rw [hshape] at h
    obtain ⟨typeKind, -, h⟩ := bind_eq_ok_iff.mp h
    split at h
    · obtain ⟨structName, -, h⟩ := bind_eq_ok_iff.mp h
      cases h
      rfl
    · cases h
      rfl
  | _ =>
    rw [hshape] at h
    cases h
    exact hchildren _

/-- Walks in reading order, one after another, are in reading order. -/
theorem reads_concat {t : SyntaxTree} {walk : Visit → Trace Visit}
    (hwalk : ∀ v, (walk v).fault = none → t.Reads [v.node] ((walk v).visited.map Visit.node))
    (list : List Visit) (h : (Trace.concat (list.map walk)).fault = none) :
    t.Reads (list.map Visit.node) ((Trace.concat (list.map walk)).visited.map Visit.node) := by
  induction list with
  | nil => exact .nil
  | cons v rest ih =>
    obtain ⟨hfirst, hrest, hvisited⟩ := Trace.append_fault_eq_none h
    show t.Reads _ ((Trace.append _ _).visited.map Visit.node)
    rw [hvisited, List.map_append]
    exact (hwalk v hfirst).append (ih hrest)

/-- A walk that is not cut short visits the nodes in reading order. -/
theorem reads_preorder {t : SyntaxTree} {depth : Nat} {v : Visit}
    (h : (preorder (Visit.descend t) depth v).fault = none) :
    t.Reads [v.node] ((preorder (Visit.descend t) depth v).visited.map Visit.node) := by
  induction depth generalizing v with
  | zero => cases h
  | succ depth ih =>
    unfold preorder at h ⊢
    cases hdescend : v.descend t with
    | error f => rw [hdescend] at h; cases h
    | ok below =>
      rw [hdescend] at h
      obtain ⟨n, hn, hnodes⟩ := Visit.map_node_of_descend hdescend
      have hbelow := reads_concat (fun _ => ih) below h
      rw [hnodes] at hbelow
      have hv := SyntaxTree.Reads.cons hn hbelow .nil
      rw [List.append_nil] at hv
      exact hv

/-- The walk over a package, if it is not cut short, reads its files. -/
theorem reads_graphWalk {t : SyntaxTree} {files : List NodeId}
    (h : (graphWalk t files).fault = none) :
    t.Reads files ((graphWalk t files).visited.map Visit.node) := by
  have hmap : files.map (fun file => preorder (Visit.descend t) t.depthBound ⟨file, none⟩) =
      (files.map fun file => (⟨file, none⟩ : Visit)).map
        (preorder (Visit.descend t) t.depthBound) := by
    rw [List.map_map]
    rfl
  have hnodes : (files.map fun file => (⟨file, none⟩ : Visit)).map Visit.node = files := by
    rw [List.map_map]
    exact List.map_id files
  unfold graphWalk at h ⊢
  rw [hmap] at h ⊢
  have hreads := reads_concat (fun _ => reads_preorder) _ h
  rw [hnodes] at hreads
  exact hreads

/-! ## Depth -/

/-- The children of every node were made before it. -/
def SyntaxTree.ChildrenFirst (t : SyntaxTree) : Prop :=
  ∀ x ∈ t.nodes.toList.zipIdx, ∀ child ∈ x.1.kind.children, child.index < x.2

instance (t : SyntaxTree) : Decidable t.ChildrenFirst :=
  inferInstanceAs (Decidable (∀ x ∈ t.nodes.toList.zipIdx, ∀ child ∈ x.1.kind.children,
    child.index < x.2))

/-- Where children come first, a child has a lower number than its parent. -/
theorem SyntaxTree.ChildrenFirst.lt {t : SyntaxTree} (ht : t.ChildrenFirst) {node child : NodeId}
    {n : Node} (hn : t.node node = .ok n) (hchild : child ∈ n.kind.children) :
    child.index < node.index := by
  have hget := fetch_eq_ok_iff.mp hn
  rw [← Array.getElem?_toList] at hget
  exact ht (n, node.index) (List.mk_mem_zipIdx_iff_getElem?.mpr hget) child hchild

/-- What is read below a node are children of it. -/
theorem NodeKind.mem_children_of_mem_readBelow {kind : NodeKind} {child : NodeId}
    (h : child ∈ kind.readBelow) : child ∈ kind.children := by
  cases kind with
  | labeledStmt label stmt => exact List.mem_cons_of_mem _ h
  | branchStmt keyword label => cases h
  | _ => exact h

/-- A tree has a node. -/
def SyntaxTree.HasNode (t : SyntaxTree) (node : NodeId) : Prop := node.index < t.nodes.size

instance (t : SyntaxTree) (node : NodeId) : Decidable (t.HasNode node) :=
  inferInstanceAs (Decidable (node.index < t.nodes.size))

/-- A node is there if it is found. -/
theorem SyntaxTree.hasNode_iff {t : SyntaxTree} {node : NodeId} :
    t.HasNode node ↔ ∃ n, t.node node = .ok n := by
  unfold SyntaxTree.HasNode SyntaxTree.node
  constructor
  · intro h
    exact ⟨t.nodes[node.index], fetch_eq_ok_iff.mpr (Array.getElem?_eq_getElem h)⟩
  · rintro ⟨n, hn⟩
    exact (Array.getElem?_eq_some_iff.mp (fetch_eq_ok_iff.mp hn)).1

/-- Children that were made before a node are there. -/
theorem SyntaxTree.ChildrenFirst.hasNode {t : SyntaxTree} (ht : t.ChildrenFirst)
    {node child : NodeId} {n : Node} (hn : t.node node = .ok n)
    (hchild : child ∈ n.kind.children) : t.HasNode child :=
  Nat.lt_trans (ht.lt hn hchild) (SyntaxTree.hasNode_iff.mpr ⟨n, hn⟩)

/-- A node that is there has a kind. -/
theorem SyntaxTree.exists_kind {t : SyntaxTree} {node : NodeId} (h : t.HasNode node) :
    ∃ kind, t.kind node = .ok kind := by
  obtain ⟨n, hn⟩ := SyntaxTree.hasNode_iff.mp h
  exact ⟨n.kind, SyntaxTree.kind_of_node hn⟩

/-- Of a node that is there it can be said whether it is an identifier. -/
theorem SyntaxTree.exists_identName? {t : SyntaxTree} {node : NodeId} (h : t.HasNode node) :
    ∃ name?, t.identName? node = .ok name? := by
  obtain ⟨n, hn⟩ := SyntaxTree.hasNode_iff.mp h
  unfold SyntaxTree.identName?
  rw [hn]
  exact ⟨_, rfl⟩

/-- In a tree whose children were made before their parents every visit can go on. -/
theorem Visit.exists_descend {t : SyntaxTree} (ht : t.ChildrenFirst) {v : Visit}
    (hv : t.HasNode v.node) : ∃ below, v.descend t = .ok below := by
  obtain ⟨n, hn⟩ := SyntaxTree.hasNode_iff.mp hv
  unfold Visit.descend
  rw [SyntaxTree.kind_of_node hn]
  cases hkind : n.kind with
  | typeSpec name type doc comment =>
    have hchildren : n.kind.children = [name, type] := by rw [hkind, NodeKind.children]
    obtain ⟨typeKind, htype⟩ := SyntaxTree.exists_kind
      (ht.hasNode hn (show type ∈ n.kind.children by simp [hchildren]))
    obtain ⟨name?, hname⟩ := SyntaxTree.exists_identName?
      (ht.hasNode hn (show name ∈ n.kind.children by simp [hchildren]))
    show ∃ below, (t.kind type >>= fun typeKind => _) = Except.ok below
    rw [htype]
    dsimp only [bind, Except.bind]
    split
    · exact ⟨[⟨name, v.structName⟩, ⟨type, name?⟩],
        bind_eq_ok_iff.mpr ⟨name?, hname, rfl⟩⟩
    · exact ⟨_, rfl⟩
  | _ => exact ⟨_, rfl⟩

/-- Walks none of which is cut short are not cut short one after another. -/
theorem Trace.concat_fault_eq_none {α β : Type} {walk : β → Trace α} (list : List β)
    (hwalk : ∀ b ∈ list, (walk b).fault = none) :
    (Trace.concat (list.map walk)).fault = none := by
  induction list with
  | nil => rfl
  | cons b rest ih =>
    show (Trace.append _ _).fault = none
    unfold Trace.append
    rw [hwalk b List.mem_cons_self]
    exact ih fun b' hb' => hwalk b' (List.mem_cons_of_mem _ hb')

/-- A walk from a node goes no deeper than the node's number says. -/
theorem preorder_fault_eq_none {t : SyntaxTree} (ht : t.ChildrenFirst) {depth : Nat}
    {v : Visit} (hv : t.HasNode v.node) (hdepth : v.node.index < depth) :
    (preorder (Visit.descend t) depth v).fault = none := by
  induction depth generalizing v with
  | zero => exact absurd hdepth (Nat.not_lt_zero _)
  | succ depth ih =>
    unfold preorder
    obtain ⟨below, hdescend⟩ := Visit.exists_descend ht hv
    obtain ⟨n, hn, hnodes⟩ := Visit.map_node_of_descend hdescend
    rw [hdescend]
    refine Trace.concat_fault_eq_none below fun b hb => ?_
    have hmem : b.node ∈ n.kind.readBelow := by
      rw [← hnodes]
      exact List.mem_map.mpr ⟨b, hb, rfl⟩
    have hchild := NodeKind.mem_children_of_mem_readBelow hmem
    have hlt := ht.lt hn hchild
    exact ih (ht.hasNode hn hchild) (by omega)

/-- The walk over a package is never cut short if its files are there. -/
theorem graphWalk_fault_eq_none {t : SyntaxTree} (ht : t.ChildrenFirst) {files : List NodeId}
    (hfiles : ∀ file ∈ files, t.HasNode file) : (graphWalk t files).fault = none :=
  Trace.concat_fault_eq_none files fun file hfile =>
    preorder_fault_eq_none ht (hfiles file hfile) (Nat.lt_succ_of_lt (hfiles file hfile))

end SymbolGraph
