import SymbolGraph.Proofs.Syntax.Descendants

/-!
# The two traversals of a tree

The walk by recursion from a node into its children and the walk that keeps a list of nodes still
to be visited show the same nodes in the same order (`SyntaxTree.walk_eq_descendants`).

A walk by recursion shows the nodes to a `Visitor`, who says of each one whether he wants to see
what lies below it, and may decide this by what he has been shown before (`SyntaxTree.tour`). That
he wants none of what lies below certain nodes is a special case (`complete_walk`). What he sees is
described without the walk, by going through the list of all nodes and leaving out, behind each node
that he skips, what is listed below it (`SyntaxTree.Sees`).
-/

namespace SymbolGraph

/-- Someone to whom nodes are shown. Each one changes his state, and he says whether what lies below
it is to be shown as well. -/
structure Visitor (σ : Type) where
  visit : σ → NodeId → σ × Bool

/-- The visitor who skips what lies below the nodes of a list, whenever he is shown them. -/
def Visitor.skipping (skip : List NodeId) : Visitor Unit := ⟨fun _ node => ((), node ∉ skip)⟩

/-! ## Complete walks -/

namespace Trace

variable {α β : Type}

/-- A trace with one visit more in front is complete if the trace is. -/
theorem complete_cons (a : α) (t : Trace α) :
    (cons a t).complete = (do return a :: (← t.complete)) := by
  cases hfault : t.fault <;> simp [cons, complete, hfault, bind, Except.bind, pure, Except.pure]

/-- Two traces in a row are complete if both are. -/
theorem complete_append (t u : Trace α) :
    (t.append u).complete = (do return (← t.complete) ++ (← u.complete)) := by
  cases ht : t.fault <;> cases hu : u.fault <;>
    simp [append, complete, ht, hu, bind, Except.bind, pure, Except.pure]

end Trace

namespace SyntaxTree

variable {t : SyntaxTree} {σ : Type} {v : Visitor σ} {s s₁ s' : σ} {root : NodeId}

/-! ## Walks for a visitor -/

/-- Shows one item after another, each in the state that the one before has left. -/
def showEach {α : Type} (step : σ → α → Except Fault (σ × List NodeId)) :
    σ → List α → Except Fault (σ × List NodeId)
  | s, [] => return (s, [])
  | s, a :: rest => do
    let (s, first) ← step s a
    let (s, later) ← showEach step s rest
    return (s, first ++ later)

/-- The walk that shows a node to a visitor and then, if he wants it, in order everything below
each of its children, no more than `depth` levels deep. Its result is the state in which he is left,
and the nodes in the order in which he has seen them. -/
def tourUpTo (t : SyntaxTree) (v : Visitor σ) :
    (depth : Nat) → σ → NodeId → Except Fault (σ × List NodeId)
  | 0, _, _ => .error .endless
  | depth + 1, s, node =>
    match v.visit s node with
    | (s, false) => return (s, [node])
    | (s, true) => do
      let (s, below) ← showEach (tourUpTo t v depth) s (← t.children node)
      return (s, node :: below)

/-- Shows a node and what lies below it to a visitor. -/
def tour (t : SyntaxTree) (v : Visitor σ) (s : σ) (root : NodeId) :
    Except Fault (σ × List NodeId) :=
  t.tourUpTo v t.depthBound s root

/-- What a visitor sees of the nodes in a list, and the state in which he is left: each node is
shown to him, but behind one that he skips all that is listed below it is left out. -/
inductive Sees (t : SyntaxTree) (v : Visitor σ) : σ → List NodeId → σ → List NodeId → Prop
  | nil {s : σ} : Sees t v s [] s []
  | enter {s s₁ s' : σ} {node : NodeId} {rest seen : List NodeId} : v.visit s node = (s₁, true) →
      Sees t v s₁ rest s' seen → Sees t v s (node :: rest) s' (node :: seen)
  | skip {s s₁ s' : σ} {node : NodeId} {below rest seen : List NodeId} :
      v.visit s node = (s₁, false) → t.descendants node = .ok (node :: below) →
      Sees t v s₁ rest s' seen → Sees t v s (node :: below ++ rest) s' (node :: seen)

/-- Of nodes in a row a visitor sees what it sees of the first ones and then of the others. -/
theorem Sees.append {nodes nodes' seen seen' : List NodeId} (h : t.Sees v s nodes s₁ seen)
    (h' : t.Sees v s₁ nodes' s' seen') : t.Sees v s (nodes ++ nodes') s' (seen ++ seen') := by
  induction h with
  | nil => exact h'
  | enter hvisit _ ih => exact .enter hvisit (ih h')
  | skip hvisit hbelow _ ih =>
    rw [List.append_assoc]
    exact .skip hvisit hbelow (ih h')

/-- What a visitor sees he sees in the order of the list. -/
theorem Sees.sublist {nodes seen : List NodeId} (h : t.Sees v s nodes s' seen) :
    seen.Sublist nodes := by
  induction h with
  | nil => exact .slnil
  | enter _ _ ih => exact ih.cons_cons _
  | skip _ _ _ ih => exact (ih.trans (List.sublist_append_right _ _)).cons_cons _

/-- A visitor sees one thing in a list. -/
theorem Sees.unique {nodes seen seen' : List NodeId} {s₂ : σ} (h : t.Sees v s nodes s' seen)
    (h' : t.Sees v s nodes s₂ seen') : s' = s₂ ∧ seen = seen' := by
  generalize hnodes : nodes = nodes' at h'
  induction h generalizing nodes' seen' with
  | nil =>
    subst hnodes
    cases h'
    exact ⟨rfl, rfl⟩
  | @enter s s₁ s' node rest seen hvisit _ ih =>
    cases h' with
    | nil => cases hnodes
    | enter hvisit' hrest' =>
      cases hnodes
      rw [hvisit] at hvisit'
      cases hvisit'
      obtain ⟨hstate, hseen⟩ := ih _ rfl hrest'
      exact ⟨hstate, congrArg _ hseen⟩
    | skip hvisit' hbelow' hrest' =>
      cases hnodes
      rw [hvisit] at hvisit'
      cases hvisit'
  | @skip s s₁ s' node below rest seen hvisit hbelow _ ih =>
    cases h' with
    | nil => cases hnodes
    | enter hvisit' hrest' =>
      cases hnodes
      rw [hvisit] at hvisit'
      cases hvisit'
    | skip hvisit' hbelow' hrest' =>
      obtain ⟨rfl, hnodes⟩ := List.cons.inj hnodes
      rw [hvisit] at hvisit'
      cases hvisit'
      rw [hbelow] at hbelow'
      cases hbelow'
      obtain ⟨hstate, hseen⟩ := ih _ (List.append_cancel_left hnodes) hrest'
      exact ⟨hstate, congrArg _ hseen⟩

/-- Who skips nothing sees everything. -/
theorem Sees.eq_of_enters (hv : ∀ s node, (v.visit s node).2 = true) {nodes seen : List NodeId}
    (h : t.Sees v s nodes s' seen) : seen = nodes := by
  induction h with
  | nil => rfl
  | enter _ _ ih => rw [ih]
  | @skip s _ _ node _ _ _ hvisit _ _ _ =>
    have hentered := hv s node
    rw [hvisit] at hentered
    cases hentered

/-! ## What a visitor sees -/

/-- What is listed for some nodes is determined. -/
theorem Lists.unique {pending nodes nodes' : List NodeId} (h : t.Lists pending nodes)
    (h' : t.Lists pending nodes') : nodes = nodes' := by
  induction h generalizing nodes' with
  | nil =>
    cases h'
    rfl
  | cons hn _ _ ihBelow ihRest =>
    cases h' with
    | cons hn' hbelow' hrest' =>
      rw [hn] at hn'
      cases hn'
      rw [ihBelow hbelow', ihRest hrest']

/-- What is listed from a node is listed by the walk that keeps a list of pending nodes. -/
theorem descendants_of_lists (ht : t.ChildrenFirst) {nodes : List NodeId} (hroot : t.HasNode root)
    (h : t.Lists [root] nodes) : t.descendants root = .ok nodes := by
  obtain ⟨listed, hlisted, -⟩ := answers_descendants ht hroot
  rw [hlisted, (lists_descendants hlisted).unique h]

/-- Items are shown one after another if each of them can be shown. -/
theorem sees_showEach {step : σ → NodeId → Except Fault (σ × List NodeId)}
    {pending nodes : List NodeId} (hnodes : t.Lists pending nodes)
    (hstep : ∀ node ∈ pending, ∀ block, t.Lists [node] block → ∀ s, ∃ s' seen,
      step s node = .ok (s', seen) ∧ t.Sees v s block s' seen) (s : σ) :
    ∃ s' seen, showEach step s pending = .ok (s', seen) ∧ t.Sees v s nodes s' seen := by
  induction pending generalizing nodes s with
  | nil =>
    cases hnodes
    exact ⟨s, [], rfl, .nil⟩
  | cons node pending ih =>
    have hsplit : t.Lists ([node] ++ pending) nodes := hnodes
    obtain ⟨block, rest, hblock, hrest, rfl⟩ := hsplit.of_append
    obtain ⟨s₁, first, hfirst, hsees⟩ := hstep node List.mem_cons_self block hblock s
    obtain ⟨s₂, later, hlater, hsees'⟩ := ih hrest
      (fun other hother => hstep other (List.mem_cons_of_mem _ hother)) s₁
    refine ⟨s₂, first ++ later, ?_, hsees.append hsees'⟩
    exact bind_eq_ok_iff.mpr ⟨_, hfirst, bind_eq_ok_iff.mpr ⟨_, hlater, rfl⟩⟩

/-- A walk for a visitor comes to an end, and shows him what he is to see of all nodes below. -/
theorem sees_tourUpTo (ht : t.ChildrenFirst) (v : Visitor σ) {depth : Nat} {node : NodeId}
    (hnode : t.HasNode node) (hdepth : node.index < depth) {block : List NodeId}
    (hblock : t.Lists [node] block) (s : σ) :
    ∃ s' seen, t.tourUpTo v depth s node = .ok (s', seen) ∧ t.Sees v s block s' seen := by
  induction depth generalizing node block s with
  | zero => exact absurd hdepth (Nat.not_lt_zero _)
  | succ depth ih =>
    have hlisted := descendants_of_lists ht hnode hblock
    cases hblock with
    | @cons _ n _ below rest hn hbelow hnil =>
      cases hnil
      rw [List.append_nil] at hlisted ⊢
      unfold tourUpTo
      obtain ⟨s₁, wanted, hvisit⟩ : ∃ s₁ wanted, v.visit s node = (s₁, wanted) := ⟨_, _, rfl⟩
      rw [hvisit]
      cases wanted with
      | false =>
        have hsees := Sees.skip hvisit hlisted .nil
        rw [List.append_nil] at hsees
        exact ⟨s₁, [node], rfl, hsees⟩
      | true =>
        obtain ⟨s', seen, hshown, hsees⟩ := sees_showEach hbelow (fun child hchild block hblock =>
          have hlt := ht.lt hn hchild
          ih (ht.hasNode hn hchild) (by omega) hblock) s₁
        refine ⟨s', node :: seen, ?_, .enter hvisit hsees⟩
        exact bind_eq_ok_iff.mpr ⟨_, children_eq_ok_iff.mpr ⟨n, hn, rfl⟩,
          bind_eq_ok_iff.mpr ⟨_, hshown, rfl⟩⟩

/-! ## The walk that skips certain nodes -/

/-- The walks over the items of a list are complete in a row exactly if showing each item is, and
list the same. -/
theorem complete_concat {go : NodeId → Trace NodeId}
    {step : Unit → NodeId → Except Fault (Unit × List NodeId)}
    (hgo : ∀ node, (go node).complete = (do return (← step () node).2)) (list : List NodeId) :
    (Trace.concat (list.map go)).complete = (do return (← showEach step () list).2) := by
  induction list with
  | nil => rfl
  | cons node rest ih =>
    show ((go node).append (Trace.concat (rest.map go))).complete = _
    rw [Trace.complete_append, hgo, ih]
    simp [showEach]

/-- The walk that leaves out what lies below certain nodes is a walk for the visitor who skips
them. -/
theorem complete_walk (t : SyntaxTree) (skip : List NodeId) (root : NodeId) :
    (t.walk skip root).complete = (do return (← t.tour (.skipping skip) () root).2) := by
  unfold walk tour
  generalize t.depthBound = depth
  induction depth generalizing root with
  | zero => rfl
  | succ depth ih =>
    unfold preorder tourUpTo
    by_cases hskip : root ∈ skip
    · have hvisit : (Visitor.skipping skip).visit () root = ((), false) := by
        simp [Visitor.skipping, hskip]
      rw [if_pos hskip, hvisit]
      rfl
    · have hvisit : (Visitor.skipping skip).visit () root = ((), true) := by
        simp [Visitor.skipping, hskip]
      rw [if_neg hskip, hvisit]
      cases t.children root with
      | error f => rfl
      | ok children =>
        dsimp only
        rw [Trace.complete_cons, complete_concat ih]
        simp only [bind, Except.bind]
        cases showEach (t.tourUpTo (.skipping skip) depth) () children <;> rfl

/-! ## The two traversals -/

/-- **The two traversals agree.** In a tree whose children were made before their parents the walk
that keeps a list of pending nodes comes to an end from every node, and the walk by recursion lists
the same nodes in the same order. The walk that skips certain nodes lists what is left of them when
all that lies below these is left out; so does a walk for any visitor, who sees everything if he
never skips. -/
theorem walk_eq_descendants (ht : t.ChildrenFirst) (hroot : t.HasNode root) :
    ∃ nodes, t.descendants root = .ok nodes ∧ (t.walk [] root).complete = .ok nodes ∧
      (∀ skip, ∃ seen, (t.walk skip root).complete = .ok seen ∧ seen.Sublist nodes ∧
        ∀ other, t.Sees (.skipping skip) () nodes () other ↔ other = seen) ∧
      ∀ (σ : Type) (v : Visitor σ) (s : σ), ∃ s' seen, t.tour v s root = .ok (s', seen) ∧
        seen.Sublist nodes ∧ ((∀ s node, (v.visit s node).2 = true) → seen = nodes) ∧
        ∀ last other, t.Sees v s nodes last other ↔ last = s' ∧ other = seen := by
  obtain ⟨nodes, hnodes, -⟩ := answers_descendants ht hroot
  have hlists := lists_descendants hnodes
  have htour : ∀ (σ : Type) (v : Visitor σ) (s : σ), ∃ s' seen,
      t.tour v s root = .ok (s', seen) ∧ t.Sees v s nodes s' seen := fun σ v s =>
    sees_tourUpTo ht v hroot (Nat.lt_succ_of_lt hroot) hlists s
  have hwalk : ∀ skip, ∃ seen, (t.walk skip root).complete = .ok seen ∧
      t.Sees (.skipping skip) () nodes () seen := by
    intro skip
    obtain ⟨_, seen, htoured, hsees⟩ := htour Unit (.skipping skip) ()
    refine ⟨seen, ?_, hsees⟩
    rw [complete_walk, htoured]
    rfl
  refine ⟨nodes, hnodes, ?_, fun skip => ?_, fun σ v s => ?_⟩
  · obtain ⟨seen, hcomplete, hsees⟩ := hwalk []
    rw [hcomplete, hsees.eq_of_enters fun _ _ => rfl]
  · obtain ⟨seen, hcomplete, hsees⟩ := hwalk skip
    refine ⟨seen, hcomplete, hsees.sublist, fun other => ⟨fun h => (h.unique hsees).2, ?_⟩⟩
    rintro rfl
    exact hsees
  · obtain ⟨s', seen, htoured, hsees⟩ := htour σ v s
    refine ⟨s', seen, htoured, hsees.sublist, fun hv => hsees.eq_of_enters hv,
      fun last other => ⟨fun h => h.unique hsees, ?_⟩⟩
    rintro ⟨rfl, rfl⟩
    exact hsees

/-- A block of three statements of which the first and the last are one node. -/
def shared : SyntaxTree where
  nodes := #[⟨.ident "x", ⟨0⟩, .upTo 1, some ⟨1⟩⟩,
    ⟨.other "ExprStmt" [⟨0⟩], ⟨0⟩, .upTo 1, some ⟨3⟩⟩,
    ⟨.basicLit "1", ⟨0⟩, .upTo 1, some ⟨3⟩⟩,
    ⟨.blockStmt [⟨1⟩, ⟨2⟩, ⟨1⟩], ⟨0⟩, .upTo 1, none⟩]

/-- The node that stands in the block twice is listed twice, with what lies below it or without. -/
theorem walk_eq_descendants_shared : shared.ChildrenFirst ∧ shared.HasNode ⟨3⟩ ∧
    shared.descendants ⟨3⟩ = .ok [⟨3⟩, ⟨1⟩, ⟨0⟩, ⟨2⟩, ⟨1⟩, ⟨0⟩] ∧
    (shared.walk [] ⟨3⟩).complete = .ok [⟨3⟩, ⟨1⟩, ⟨0⟩, ⟨2⟩, ⟨1⟩, ⟨0⟩] ∧
    (shared.walk [⟨1⟩] ⟨3⟩).complete = .ok [⟨3⟩, ⟨1⟩, ⟨2⟩, ⟨1⟩] ∧
    shared.Sees (.skipping [⟨1⟩]) () [⟨3⟩, ⟨1⟩, ⟨0⟩, ⟨2⟩, ⟨1⟩, ⟨0⟩] () [⟨3⟩, ⟨1⟩, ⟨2⟩, ⟨1⟩] := by
  have hseen : (shared.walk [⟨1⟩] ⟨3⟩).complete = .ok [⟨3⟩, ⟨1⟩, ⟨2⟩, ⟨1⟩] := by decide +kernel
  have hlisted : shared.descendants ⟨3⟩ = .ok [⟨3⟩, ⟨1⟩, ⟨0⟩, ⟨2⟩, ⟨1⟩, ⟨0⟩] := by decide +kernel
  have hfirst : shared.ChildrenFirst := by decide
  have hroot : shared.HasNode ⟨3⟩ := by decide
  obtain ⟨nodes, hnodes, hall, hskip, -⟩ := walk_eq_descendants hfirst hroot
  obtain ⟨seen, hwalk, -, hsees⟩ := hskip [⟨1⟩]
  rw [hlisted] at hnodes
  rw [hseen] at hwalk
  cases hnodes
  cases hwalk
  exact ⟨hfirst, hroot, hlisted, hall, hseen, (hsees _).mpr rfl⟩

end SyntaxTree

end SymbolGraph
