import Mathlib.Algebra.Order.BigOperators.Group.List
import Mathlib.Algebra.Order.Ring.Nat
import SymbolGraph.Proofs.Program.Answers
import SymbolGraph.Proofs.Syntax.ReadingOrder

/-!
# All nodes below a node

The walk that keeps a list of nodes still to be visited comes to an end within the number of
visits that it is allowed, if children were made before their parents
(`SyntaxTree.answers_descendants`). Each visit takes a node away and adds its children, and with a
weight that grows fast enough in a node's number the pending nodes weigh less after a visit than
before (`drain_complete`).

Whenever it comes to an end, it has listed a node before all that lies below it, and that before
the node's later siblings (`SyntaxTree.lists_descendants`).
-/

namespace SymbolGraph

/-- A walk that takes a heavier node away than the children that it adds comes to an end. -/
theorem drain_complete {α : Type} {descend : α → Except Fault (List α)} {good : α → Prop}
    {weight : α → Nat}
    (hdescend : ∀ a, good a → Answers (descend a) fun children =>
      (∀ child ∈ children, good child) ∧ (children.map weight).sum < weight a)
    (steps : Nat) (pending : List α) (hgood : ∀ a ∈ pending, good a)
    (hweight : (pending.map weight).sum ≤ steps) :
    (drain descend steps pending).fault = none ∧
      ∀ a ∈ (drain descend steps pending).visited, good a := by
  induction steps generalizing pending with
  | zero =>
    cases pending with
    | nil => exact ⟨rfl, fun a ha => absurd ha List.not_mem_nil⟩
    | cons a rest =>
      obtain ⟨children, -, -, hlt⟩ := hdescend a (hgood a List.mem_cons_self)
      rw [List.map_cons, List.sum_cons] at hweight
      omega
  | succ steps ih =>
    cases pending with
    | nil => exact ⟨rfl, fun a ha => absurd ha List.not_mem_nil⟩
    | cons a rest =>
      have ha := hgood a List.mem_cons_self
      obtain ⟨children, hchildren, hall, hlt⟩ := hdescend a ha
      have hlater : ((children ++ rest).map weight).sum ≤ steps := by
        rw [List.map_cons, List.sum_cons] at hweight
        rw [List.map_append, List.sum_append]
        omega
      obtain ⟨hfault, hvisited⟩ := ih (children ++ rest) (fun x hx => by
        rcases List.mem_append.mp hx with hx | hx
        · exact hall x hx
        · exact hgood x (List.mem_cons_of_mem _ hx)) hlater
      unfold drain
      rw [hchildren]
      exact ⟨hfault, List.forall_mem_cons.mpr ⟨ha, hvisited⟩⟩

namespace SyntaxTree

variable {t : SyntaxTree}

/-- A maximum is not below what it is taken of. -/
theorem le_foldl_max {α : Type} (f : α → Nat) (list : List α) (most : Nat) :
    most ≤ list.foldl (fun most a => max most (f a)) most ∧
      ∀ a ∈ list, f a ≤ list.foldl (fun most a => max most (f a)) most := by
  induction list generalizing most with
  | nil => exact ⟨Nat.le_refl _, fun a ha => absurd ha List.not_mem_nil⟩
  | cons a rest ih =>
    obtain ⟨hmost, hall⟩ := ih (max most (f a))
    rw [List.foldl_cons]
    refine ⟨by omega, fun x hx => ?_⟩
    rcases List.mem_cons.mp hx with rfl | hx
    · omega
    · exact hall x hx

/-- No node has more children than the tree branches. -/
theorem length_children_le {node : NodeId} {n : Node} (hn : t.node node = .ok n) :
    n.kind.children.length ≤ t.branching := by
  have hget := fetch_eq_ok_iff.mp hn
  rw [← Array.getElem?_toList] at hget
  exact (le_foldl_max (fun n : Node => n.kind.children.length) _ 0).2 n (List.mem_of_getElem? hget)

/-- The weight of a node: more than what all its children weigh. -/
def weight (t : SyntaxTree) (node : NodeId) : Nat := (t.branching + 1) ^ (node.index + 1)

/-- The children of a node weigh less together than the node. -/
theorem sum_weight_lt (ht : t.ChildrenFirst) {node : NodeId} {n : Node}
    (hn : t.node node = .ok n) : (n.kind.children.map t.weight).sum < t.weight node := by
  have hall : ∀ i ∈ n.kind.children.map t.weight, i ≤ (t.branching + 1) ^ node.index := by
    intro i hi
    obtain ⟨child, hchild, rfl⟩ := List.mem_map.mp hi
    exact Nat.pow_le_pow_right (Nat.succ_pos _) (ht.lt hn hchild)
  have hlength := length_children_le hn
  calc (n.kind.children.map t.weight).sum
      ≤ (n.kind.children.map t.weight).length * (t.branching + 1) ^ node.index :=
        List.sum_le_card_nsmul _ _ hall
    _ ≤ t.branching * (t.branching + 1) ^ node.index := by
        rw [List.length_map]
        exact Nat.mul_le_mul_right _ hlength
    _ < (t.branching + 1) * (t.branching + 1) ^ node.index :=
        Nat.mul_lt_mul_of_pos_right (Nat.lt_succ_self _) (Nat.pow_pos (Nat.succ_pos _))
    _ = t.weight node := by
        unfold weight
        rw [Nat.pow_succ, Nat.mul_comm]

/-- The children of a node are told by its kind. -/
theorem children_eq_ok_iff {node : NodeId} {below : List NodeId} :
    t.children node = .ok below ↔ ∃ n, t.node node = .ok n ∧ n.kind.children = below := by
  unfold children
  cases t.node node with
  | error f => simp [Functor.map, Except.map]
  | ok n => simp [Functor.map, Except.map]

/-- All nodes below a node can be listed. -/
theorem answers_descendants (ht : t.ChildrenFirst) {root : NodeId} (h : t.HasNode root) :
    Answers (t.descendants root) fun nodes => ∀ node ∈ nodes, t.HasNode node := by
  have hbound : ([root].map t.weight).sum ≤ t.visitBound := by
    rw [List.map_singleton, List.sum_singleton]
    exact Nat.pow_le_pow_right (Nat.succ_pos _) (Nat.succ_le_succ (Nat.le_of_lt h))
  have hdescend : ∀ node, t.HasNode node → Answers (t.children node) fun children =>
      (∀ child ∈ children, t.HasNode child) ∧ (children.map t.weight).sum < t.weight node := by
    intro node hnode
    obtain ⟨n, hn⟩ := hasNode_iff.mp hnode
    exact ⟨n.kind.children, children_eq_ok_iff.mpr ⟨n, hn, rfl⟩,
      fun child hchild => ht.hasNode hn hchild, sum_weight_lt ht hn⟩
  obtain ⟨hfault, hvisited⟩ := drain_complete hdescend t.visitBound [root]
    (List.forall_mem_singleton.mpr h) hbound
  refine ⟨_, ?_, hvisited⟩
  unfold descendants Trace.complete
  rw [hfault]

/-! ## The order of the list -/

/-- The nodes of a list, each with all that lies below it, are listed in the order `nodes`. -/
inductive Lists (t : SyntaxTree) : List NodeId → List NodeId → Prop
  | nil : Lists t [] []
  | cons {node : NodeId} {n : Node} {pending below rest : List NodeId} : t.node node = .ok n →
      Lists t n.kind.children below → Lists t pending rest →
      Lists t (node :: pending) (node :: below ++ rest)

/-- Nodes that are listed one after the other. -/
theorem Lists.append {pending later nodes nodes' : List NodeId} (h : t.Lists pending nodes)
    (h' : t.Lists later nodes') : t.Lists (pending ++ later) (nodes ++ nodes') := by
  induction h with
  | nil => exact h'
  | cons hn hbelow _ _ ih =>
    rw [List.append_assoc]
    exact .cons hn hbelow ih

/-- What is listed for nodes in a row is listed for the first ones and then for the others. -/
theorem Lists.of_append {pending later nodes : List NodeId} (h : t.Lists (pending ++ later) nodes) :
    ∃ first last, t.Lists pending first ∧ t.Lists later last ∧ nodes = first ++ last := by
  induction pending generalizing nodes with
  | nil => exact ⟨[], nodes, .nil, h, rfl⟩
  | cons node rest ih =>
    cases h with
    | cons hn hbelow hrest =>
      obtain ⟨first, last, hfirst, hlast, rfl⟩ := ih hrest
      exact ⟨_, last, .cons hn hbelow hfirst, hlast, (List.append_assoc _ _ _).symm⟩

/-- A walk that is not cut short lists the pending nodes. -/
theorem lists_drain {steps : Nat} {pending : List NodeId}
    (h : (drain t.children steps pending).fault = none) :
    t.Lists pending (drain t.children steps pending).visited := by
  induction steps generalizing pending with
  | zero =>
    cases pending with
    | nil => exact .nil
    | cons node rest => cases h
  | succ steps ih =>
    cases pending with
    | nil => exact .nil
    | cons node rest =>
      unfold drain at h ⊢
      cases hchildren : t.children node with
      | error f =>
        rw [hchildren] at h
        cases h
      | ok children =>
        rw [hchildren] at h
        obtain ⟨n, hn, rfl⟩ := children_eq_ok_iff.mp hchildren
        obtain ⟨below, later, hbelow, hlater, hvisited⟩ := (ih h).of_append
        show t.Lists _ (node :: (drain t.children steps (n.kind.children ++ rest)).visited)
        rw [hvisited]
        exact .cons hn hbelow hlater

/-- A node and the nodes below it are listed from the top. -/
theorem lists_descendants {root : NodeId} {nodes : List NodeId}
    (h : t.descendants root = .ok nodes) : t.Lists [root] nodes := by
  unfold descendants Trace.complete at h
  split at h
  · cases h
  · rename_i hfault
    cases h
    exact lists_drain hfault

end SyntaxTree

end SymbolGraph
