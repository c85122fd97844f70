import SymbolGraph.Proofs.Syntax.ReadingOrder

/-!
# Making nodes

What becomes of a tree when a node is made: the node is there under the next number, and of the
others only the parents of its children change (`node_alloc_cases`). If its children are there,
children still come before their parents (`ChildrenFirst.alloc`), and the parent of a node is still
the last one that was made around it (`Adopted.alloc`).
-/

namespace SymbolGraph

namespace SyntaxTree

variable {t : SyntaxTree} {node : NodeId} {n : Node} {file : FileId} {range : TextRange}
  {kind : NodeKind}

/-- A node is a child of another. -/
def HasChild (t : SyntaxTree) (node child : NodeId) : Prop :=
  ∃ n, t.node node = .ok n ∧ child ∈ n.kind.children

/-- A node is the last one that was made around another. -/
def LastAround (t : SyntaxTree) (node parent : NodeId) : Prop :=
  t.HasChild parent node ∧ ∀ other, t.HasChild other node → other.index ≤ parent.index

/-- The parent of a node is the last one that was made around it, and a node without parent is the
child of none. -/
def Adopted (t : SyntaxTree) : Prop :=
  ∀ {node n}, t.node node = .ok n → (∀ parent, n.parent = some parent → t.LastAround node parent) ∧
    (n.parent = none → ∀ other, ¬ t.HasChild other node)

/-- A node with another parent, if it is one of certain children. -/
def adoptedBy (parent : NodeId) (children : List NodeId) (node : NodeId) (n : Node) : Node :=
  if node ∈ children then { n with parent := some parent } else n

/-- A node that is adopted keeps its kind. -/
theorem adoptedBy_kind (parent : NodeId) (children : List NodeId) (node : NodeId) (n : Node) :
    (adoptedBy parent children node n).kind = n.kind := by
  unfold adoptedBy
  split <;> rfl

/-- A node that is adopted stays in its file. -/
theorem adoptedBy_file (parent : NodeId) (children : List NodeId) (node : NodeId) (n : Node) :
    (adoptedBy parent children node n).file = n.file := by
  unfold adoptedBy
  split <;> rfl

/-! ## Nodes after one more -/

/-- Adopting nodes does not change their number. -/
theorem size_foldl_adopt (parent : NodeId) (children : List NodeId) (nodes : Array Node) :
    (children.foldl (adopt parent) nodes).size = nodes.size := by
  induction children generalizing nodes with
  | nil => rfl
  | cons child rest ih =>
    rw [List.foldl_cons, ih]
    exact Array.size_modify

/-- When children are adopted one after another, each of them has the parent afterwards, and no
other node is changed. -/
theorem getElem?_foldl_adopt (parent : NodeId) (children : List NodeId) (nodes : Array Node)
    (node : NodeId) : (children.foldl (adopt parent) nodes)[node.index]? =
      nodes[node.index]?.map (adoptedBy parent children node) := by
  induction children generalizing nodes with
  | nil =>
    cases hn : nodes[node.index]? <;> simp [adoptedBy, hn]
  | cons child rest ih =>
    rw [List.foldl_cons, ih]
    unfold adopt
    rw [Array.getElem?_modify]
    cases hn : nodes[node.index]? with
    | none => simp
    | some n =>
      by_cases hchild : child = node
      · subst hchild
        by_cases hrest : child ∈ rest <;> simp [adoptedBy, hrest]
      · have hne : child.index ≠ node.index := fun heq => hchild (by
          obtain ⟨i⟩ := child
          obtain ⟨j⟩ := node
          exact congrArg NodeId.mk heq)
        by_cases hrest : node ∈ rest <;> simp [adoptedBy, hrest, hne, Ne.symm hchild]

/-- The new node is as it was asked for, without a parent. -/
theorem node_alloc_self : (t.alloc file range kind).2.node ⟨t.nodes.size⟩ =
    .ok ⟨kind, file, range, none⟩ := by
  unfold alloc node
  rw [fetch_eq_ok_iff, Array.getElem?_push, size_foldl_adopt, if_pos rfl]

/-- The other nodes are as before, but for the parent of those that it adopts. -/
theorem node_alloc_of_ok (hn : t.node node = .ok n) :
    (t.alloc file range kind).2.node node =
      .ok (adoptedBy ⟨t.nodes.size⟩ kind.children node n) := by
  have hlt : t.HasNode node := hasNode_iff.mpr ⟨n, hn⟩
  unfold alloc SyntaxTree.node
  rw [fetch_eq_ok_iff, Array.getElem?_push, size_foldl_adopt, if_neg (Nat.ne_of_lt hlt),
    getElem?_foldl_adopt, fetch_eq_ok_iff.mp hn]
  rfl

/-- After a node is made, the nodes are those that were there, and the new one. -/
theorem node_alloc_cases (hn : (t.alloc file range kind).2.node node = .ok n) :
    (∃ old, t.node node = .ok old ∧ n = adoptedBy ⟨t.nodes.size⟩ kind.children node old) ∨
      node = ⟨t.nodes.size⟩ ∧ n = ⟨kind, file, range, none⟩ := by
  unfold alloc SyntaxTree.node at hn
  rw [fetch_eq_ok_iff, Array.getElem?_push, size_foldl_adopt, getElem?_foldl_adopt] at hn
  split at hn
  · rename_i heq
    obtain ⟨i⟩ := node
    cases heq
    cases hn
    exact .inr ⟨rfl, rfl⟩
  · obtain ⟨old, hold, rfl⟩ := Option.map_eq_some_iff.mp hn
    exact .inl ⟨old, fetch_eq_ok_iff.mpr hold, rfl⟩

/-- The file of a node is on record with it. -/
theorem file_eq_ok_iff {f : FileId} :
    t.file node = .ok f ↔ ∃ n, t.node node = .ok n ∧ n.file = f := by
  unfold SyntaxTree.file
  cases t.node node with
  | error e => simp [Functor.map, Except.map]
  | ok n => simp [Functor.map, Except.map]

/-- The new node is in the file that it was made for. -/
theorem file_alloc_self : (t.alloc file range kind).2.file ⟨t.nodes.size⟩ = .ok file :=
  file_eq_ok_iff.mpr ⟨_, node_alloc_self, rfl⟩

/-- A node stays in its file. -/
theorem file_alloc_of_ok {f : FileId} (h : t.file node = .ok f) :
    (t.alloc file range kind).2.file node = .ok f := by
  obtain ⟨n, hn, rfl⟩ := file_eq_ok_iff.mp h
  exact file_eq_ok_iff.mpr ⟨_, node_alloc_of_ok hn, adoptedBy_file _ _ _ _⟩

/-! ## Children and parents after one more node -/

/-- The children after an allocation are those before and those of the new node. -/
theorem hasChild_alloc_cases {parent child : NodeId}
    (h : (t.alloc file range kind).2.HasChild parent child) :
    t.HasChild parent child ∨ parent = ⟨t.nodes.size⟩ ∧ child ∈ kind.children := by
  obtain ⟨n, hn, hchild⟩ := h
  rcases node_alloc_cases hn with ⟨old, hold, rfl⟩ | ⟨rfl, rfl⟩
  · rw [adoptedBy_kind] at hchild
    exact .inl ⟨old, hold, hchild⟩
  · exact .inr ⟨rfl, hchild⟩

/-- Children stay children. -/
theorem hasChild_alloc_of_hasChild {parent child : NodeId} (h : t.HasChild parent child) :
    (t.alloc file range kind).2.HasChild parent child := by
  obtain ⟨n, hn, hchild⟩ := h
  refine ⟨_, node_alloc_of_ok hn, ?_⟩
  rw [adoptedBy_kind]
  exact hchild

/-- A node that has a child is there. -/
theorem HasChild.hasNode {parent child : NodeId} (h : t.HasChild parent child) :
    t.HasNode parent := by
  obtain ⟨n, hn, -⟩ := h
  exact hasNode_iff.mpr ⟨n, hn⟩

/-- Children come first if none has a higher number than its parent. -/
theorem childrenFirst_iff : t.ChildrenFirst ↔
    ∀ parent child, t.HasChild parent child → child.index < parent.index := by
  constructor
  · rintro ht parent child ⟨n, hn, hchild⟩
    exact ht.lt hn hchild
  · rintro h ⟨n, i⟩ hx child hchild
    have hget := List.mk_mem_zipIdx_iff_getElem?.mp hx
    rw [Array.getElem?_toList] at hget
    exact h ⟨i⟩ child ⟨n, fetch_eq_ok_iff.mpr hget, hchild⟩

/-- Children come before their parents as long as nodes are made around nodes that are there. -/
theorem ChildrenFirst.alloc (ht : t.ChildrenFirst)
    (hchildren : ∀ child ∈ kind.children, t.HasNode child) :
    (t.alloc file range kind).2.ChildrenFirst := by
  refine childrenFirst_iff.mpr fun parent child h => ?_
  rcases hasChild_alloc_cases h with hold | ⟨rfl, hchild⟩
  · exact childrenFirst_iff.mp ht parent child hold
  · exact hchildren child hchild

/-- A new node becomes the parent of its children, and the other parents stay. -/
theorem Adopted.alloc (ht : t.Adopted) (hfirst : t.ChildrenFirst)
    (hchildren : ∀ child ∈ kind.children, t.HasNode child) :
    (t.alloc file range kind).2.Adopted := by
  -- whatever is around an old node is there already, or is the new node
  have hle : ∀ {parent child}, (t.alloc file range kind).2.HasChild parent child →
      parent.index ≤ t.nodes.size := by
    intro parent child h
    rcases hasChild_alloc_cases h with hold | ⟨rfl, -⟩
    · exact Nat.le_of_lt hold.hasNode
    · exact Nat.le_refl _
  intro node n hn
  rcases node_alloc_cases hn with ⟨old, hold, rfl⟩ | ⟨rfl, rfl⟩
  · obtain ⟨hlast, hnone⟩ := ht hold
    unfold adoptedBy
    split
    · rename_i hchild
      refine ⟨fun parent hparent => ?_, fun h => nomatch h⟩
      cases hparent
      exact ⟨⟨_, node_alloc_self, hchild⟩, fun other hother => hle hother⟩
    · rename_i hchild
      have hstay : ∀ {other}, (t.alloc file range kind).2.HasChild other node →
          t.HasChild other node := by
        intro other hother
        rcases hasChild_alloc_cases hother with hother | ⟨-, hmem⟩
        · exact hother
        · exact absurd hmem hchild
      refine ⟨fun parent hparent => ?_, fun h other hother => hnone h other (hstay hother)⟩
      obtain ⟨haround, hmost⟩ := hlast parent hparent
      exact ⟨hasChild_alloc_of_hasChild haround, fun other hother => hmost other (hstay hother)⟩
  · refine ⟨fun parent h => (nomatch h), fun _ other hother => ?_⟩
    -- the new node is not among the children of a node that is there, nor among its own
    rcases hasChild_alloc_cases hother with hother | ⟨-, hmem⟩
    · have hlt := childrenFirst_iff.mp hfirst _ _ hother
      exact Nat.lt_asymm hlt hother.hasNode
    · exact Nat.lt_irrefl _ (hchildren _ hmem)

end SyntaxTree

end SymbolGraph
