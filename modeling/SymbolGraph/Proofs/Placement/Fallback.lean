import SymbolGraph.Proofs.Placement.Walk

/-!
# Objects that the walk does not reach

An object of a package without a place of its own is put below the widest scope around its
position. Inside a file of the package there always is such a scope, since that of the file is
one (`widestScopeAt?_eq_ok`), and so such an object has a path (`localPath?_ne_none_of_pos`).
-/

namespace SymbolGraph

/-- What going through a list keeps, and where it comes from. -/
theorem filterMapM_eq_ok {α β : Type} {f : α → Except Fault (Option β)} {list : List α}
    {found : List β} (h : list.filterMapM f = .ok found) :
    (∀ a ∈ list, ∃ b?, f a = .ok b? ∧ ∀ b, b? = some b → b ∈ found) ∧
      ∀ b ∈ found, ∃ a ∈ list, f a = .ok (some b) := by
  induction list generalizing found with
  | nil =>
    rw [List.filterMapM_nil] at h
    cases h
    exact ⟨fun a ha => absurd ha List.not_mem_nil, fun b hb => absurd hb List.not_mem_nil⟩
  | cons a rest ih =>
    rw [List.filterMapM_cons] at h
    obtain ⟨b?, hb, h⟩ := bind_eq_ok_iff.mp h
    cases b? with
    | none =>
      obtain ⟨hkept, hfrom⟩ := ih h
      refine ⟨fun x hx => ?_, fun b hb => ?_⟩
      · rcases List.mem_cons.mp hx with rfl | hx
        · exact ⟨none, hb, fun b h => by cases h⟩
        · exact hkept x hx
      · obtain ⟨x, hx, hf⟩ := hfrom b hb
        exact ⟨x, List.mem_cons_of_mem _ hx, hf⟩
    | some b =>
      obtain ⟨later, hlater, h⟩ := bind_eq_ok_iff.mp h
      cases h
      obtain ⟨hkept, hfrom⟩ := ih hlater
      refine ⟨fun x hx => ?_, fun b' hb' => ?_⟩
      · rcases List.mem_cons.mp hx with rfl | hx
        · exact ⟨some b, hb, fun b' h => by cases h; exact List.mem_cons_self⟩
        · obtain ⟨b'?, hx, hmem⟩ := hkept x hx
          exact ⟨b'?, hx, fun b' hb' => List.mem_cons_of_mem _ (hmem b' hb')⟩
      · rcases List.mem_cons.mp hb' with rfl | hb'
        · exact ⟨a, List.mem_cons_self, hb⟩
        · obtain ⟨x, hx, hf⟩ := hfrom b' hb'
          exact ⟨x, List.mem_cons_of_mem _ hx, hf⟩

/-- Choosing between the best so far and each next item ends with one of the items. -/
theorem foldl_choose_mem {α : Type} {choose : Option α → α → Option α} {list : List α}
    {best result : Option α} (hfold : list.foldl choose best = result)
    (hchoose : ∀ best next, choose best next = some next ∨
      best.isSome ∧ choose best next = best) (hne : best.isSome ∨ list ≠ []) :
    ∃ a, result = some a ∧ (best = some a ∨ a ∈ list) := by
  subst hfold
  induction list generalizing best with
  | nil =>
    obtain ⟨a, rfl⟩ := Option.isSome_iff_exists.mp (hne.resolve_right fun h => h rfl)
    exact ⟨a, rfl, .inl rfl⟩
  | cons next rest ih =>
    rw [List.foldl_cons]
    rcases hchoose best next with hnext | ⟨hsome, hbest⟩
    · obtain ⟨a, hfold, ha⟩ := @ih (some next) (.inl rfl)
      rw [hnext]
      refine ⟨a, hfold, .inr ?_⟩
      rcases ha with ha | ha
      · cases ha
        exact List.mem_cons_self
      · exact List.mem_cons_of_mem _ ha
    · obtain ⟨a, hfold, ha⟩ := ih (.inl hsome)
      rw [hbest]
      exact ⟨a, hfold, ha.imp_right (List.mem_cons_of_mem _)⟩

/-- If neither the best so far nor the next item is larger than what is chosen of the two, nothing
is larger than what is chosen of all. -/
theorem le_of_foldl_choose {α : Type} (size : α → Nat) {choose : Option α → α → Option α}
    {list : List α} {best : Option α} {a : α} (h : list.foldl choose best = some a)
    (hchoose : ∀ best next, ∃ b, choose best next = some b ∧ size next ≤ size b ∧
      ∀ b', best = some b' → size b' ≤ size b) :
    (∀ x ∈ list, size x ≤ size a) ∧ ∀ b, best = some b → size b ≤ size a := by
  induction list generalizing best with
  | nil =>
    refine ⟨fun x hx => absurd hx List.not_mem_nil, fun b hb => ?_⟩
    rw [List.foldl_nil, hb] at h
    exact Nat.le_of_eq (congrArg size (Option.some.inj h))
  | cons next rest ih =>
    rw [List.foldl_cons] at h
    obtain ⟨b, hb, hnext, hbest⟩ := hchoose best next
    obtain ⟨hrest, hmid⟩ := ih h
    refine ⟨fun x hx => ?_, fun b' hb' => Nat.le_trans (hbest b' hb') (hmid b hb)⟩
    rcases List.mem_cons.mp hx with rfl | hx
    · exact Nat.le_trans hnext (hmid b hb)
    · exact hrest x hx

namespace PlacementContext

variable {c : PlacementContext} {s : Placements}

/-- Around a position inside a node with a scope there is a widest scope. It was recorded for a node
of the file, and no node with a scope around the position is longer. -/
theorem widestScopeAt?_eq_ok {pos : Pos} {around : Option ScopeId} {node : NodeId} {n : Node}
    {scope : ScopeId} (h : c.widestScopeAt? pos = .ok around)
    (hmem : (node, scope) ∈ c.facts.scopes.entries) (hn : c.program.tree.node node = .ok n)
    (hfile : n.file = pos.file) (htouches : n.range.touches pos.offset) :
    ∃ other m widest, around = some widest ∧ (other, widest) ∈ c.facts.scopes.entries ∧
      c.program.tree.node other = .ok m ∧ m.file = pos.file ∧
      ∀ {x n scope}, (x, scope) ∈ c.facts.scopes.entries → c.program.tree.node x = .ok n →
        n.file = pos.file → n.range.touches pos.offset → n.range.length ≤ m.range.length := by
  unfold widestScopeAt? at h
  obtain ⟨found, hfound, h⟩ := bind_eq_ok_iff.mp h
  obtain ⟨hkept, hfrom⟩ := filterMapM_eq_ok hfound
  have hin : ∀ {x n scope}, (x, scope) ∈ c.facts.scopes.entries → c.program.tree.node x = .ok n →
      n.file = pos.file → n.range.touches pos.offset → ((n.range, x), scope) ∈ found := by
    intro x n scope hmem hn hfile htouches
    obtain ⟨b?, hb, hin⟩ := hkept _ hmem
    dsimp only at hb
    rw [hn] at hb
    cases hb
    refine hin ((n.range, x), scope) ?_
    rw [if_pos]
    rw [Bool.and_eq_true, decide_eq_true_eq]
    exact ⟨hfile, htouches⟩
  generalize hfold : List.foldl _ none found = best at h
  obtain ⟨widest, rfl, hwidest⟩ := foldl_choose_mem hfold (fun best next => by
    cases best with
    | none => exact .inl rfl
    | some b =>
      dsimp only
      split
      · exact .inl rfl
      · exact .inr ⟨rfl, rfl⟩) (.inr (List.ne_nil_of_mem (hin hmem hn hfile htouches)))
  have hlongest := le_of_foldl_choose (fun x => x.1.1.length) hfold fun best next => by
    cases best with
    | none => exact ⟨next, rfl, Nat.le_refl _, nofun⟩
    | some b =>
      dsimp only
      split
      · rename_i hwider
        refine ⟨next, rfl, Nat.le_refl _, fun b' hb' => ?_⟩
        cases hb'
        unfold isWider at hwider
        simp only [Bool.or_eq_true, Bool.and_eq_true, decide_eq_true_eq, beq_iff_eq] at hwider
        omega
      · rename_i hwider
        refine ⟨b, rfl, ?_, fun b' hb' => by cases hb'; exact Nat.le_refl _⟩
        unfold isWider at hwider
        simp only [Bool.or_eq_true, Bool.and_eq_true, decide_eq_true_eq, beq_iff_eq] at hwider
        omega
  cases h
  have hmem := hwidest.resolve_left fun h => by cases h
  obtain ⟨⟨other, scope'⟩, hentry, hother⟩ := hfrom widest hmem
  dsimp only at hother
  obtain ⟨m, hm, hother⟩ := bind_eq_ok_iff.mp hother
  split at hother
  · rename_i haround
    cases hother
    rw [Bool.and_eq_true, decide_eq_true_eq] at haround
    exact ⟨other, m, scope', rfl, hentry, hm, haround.1, fun hx hn hfile htouches =>
      hlongest.1 _ (hin hx hn hfile htouches)⟩
  · cases hother

/-- An object of the package that the walk has given a place to has a path. -/
theorem localPath?_ne_none_of_place {obj : ObjectId} (h : (s.place? obj).isSome) :
    c.localPath? s obj ≠ .ok none := by
  obtain ⟨placement, hplace⟩ := Option.isSome_iff_exists.mp h
  unfold localPath?
  rw [hplace]
  exact fun h => by cases h

/-- An object of the package whose position lies inside a node with a scope has a path, if all
scopes of the package have one. -/
theorem localPath?_ne_none_of_pos {obj : ObjectId} {o : Object} {pos : Pos} {node : NodeId}
    {n : Node} {scope : ScopeId} (ho : c.program.object obj = .ok o) (hpos : o.pos = some pos)
    (hmem : (node, scope) ∈ c.facts.scopes.entries) (hn : c.program.tree.node node = .ok n)
    (hfile : n.file = pos.file) (htouches : n.range.touches pos.offset)
    (hpaths : ∀ node scope, (node, scope) ∈ c.facts.scopes.entries →
      (s.scopes.get? scope).isSome) : c.localPath? s obj ≠ .ok none := by
  cases hplace : s.place? obj with
  | some placement =>
    refine localPath?_ne_none_of_place ?_
    rw [hplace]
    rfl
  | none =>
    intro h
    unfold localPath? at h
    rw [hplace] at h
    obtain ⟨o', ho', h⟩ := bind_eq_ok_iff.mp h
    rw [ho] at ho'
    cases ho'
    rw [hpos] at h
    obtain ⟨around, haround, h⟩ := bind_eq_ok_iff.mp h
    obtain ⟨other, _, widest, rfl, hentry, -⟩ :=
      widestScopeAt?_eq_ok haround hmem hn hfile htouches
    obtain ⟨base, hbase⟩ := Option.isSome_iff_exists.mp (hpaths other widest hentry)
    dsimp only [Option.some_or] at h
    rw [hbase] at h
    cases h

end PlacementContext

end SymbolGraph
