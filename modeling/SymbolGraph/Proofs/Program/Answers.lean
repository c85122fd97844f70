import SymbolGraph.Program.Fault

/-!
# Questions that have answers

A question about a program may end in a fault. That it has an answer, and what is known of the
answer (`Answers`), is shown step by step, like the question is put together: the answer of one
step is what the next one may rely on.
-/

namespace SymbolGraph

/-- A question has an answer, and one that is as wanted. -/
def Answers {α : Type} (question : Except Fault α) (wanted : α → Prop) : Prop :=
  ∃ a, question = .ok a ∧ wanted a

/-- A question has an answer. -/
abbrev Answered {α : Type} (question : Except Fault α) : Prop := Answers question fun _ => True

namespace Answers

variable {α β : Type} {question : Except Fault α} {wanted : α → Prop}

protected theorem pure {a : α} (h : wanted a) : Answers (pure a) wanted := ⟨a, rfl, h⟩

/-- A question that is asked after one with an answer has one. -/
protected theorem bind {next : α → Except Fault β} {then' : β → Prop}
    (h : Answers question wanted) (hnext : ∀ a, wanted a → Answers (next a) then') :
    Answers (question >>= next) then' := by
  obtain ⟨a, ha, hwanted⟩ := h
  obtain ⟨b, hb, hthen⟩ := hnext a hwanted
  exact ⟨b, bind_eq_ok_iff.mpr ⟨a, ha, hb⟩, hthen⟩

/-- An answer that is as wanted is also as wanted less. -/
theorem mono {wanted' : α → Prop} (h : Answers question wanted)
    (hmono : ∀ a, wanted a → wanted' a) : Answers question wanted' := by
  obtain ⟨a, ha, hwanted⟩ := h
  exact ⟨a, ha, hmono a hwanted⟩

/-- An answer that is passed on is an answer. -/
protected theorem map {f : α → β} {wanted' : β → Prop} (h : Answers question wanted)
    (hmap : ∀ a, wanted a → wanted' (f a)) : Answers (f <$> question) wanted' := by
  rw [map_eq_pure_bind]
  exact h.bind fun a ha => .pure (hmap a ha)

/-- A question about every item of a list. -/
protected theorem mapM {f : α → Except Fault β} {wanted : β → Prop} {list : List α}
    (h : ∀ a ∈ list, Answers (f a) wanted) :
    Answers (list.mapM f) fun found => ∀ b ∈ found, wanted b := by
  induction list with
  | nil => exact .pure fun b hb => absurd hb List.not_mem_nil
  | cons a rest ih =>
    rw [List.mapM_cons]
    refine (h a List.mem_cons_self).bind fun b hb => ?_
    refine (ih fun x hx => h x (List.mem_cons_of_mem _ hx)).bind fun later hlater => ?_
    exact .pure (List.forall_mem_cons.mpr ⟨hb, hlater⟩)

/-- A question about every item of a list that may leave the item out. -/
protected theorem filterMapM {f : α → Except Fault (Option β)} {list : List α}
    (h : ∀ a ∈ list, Answered (f a)) :
    Answered (list.filterMapM f) := by
  induction list with
  | nil => exact .pure trivial
  | cons a rest ih =>
    rw [List.filterMapM_cons]
    refine (h a List.mem_cons_self).bind fun b? _ => ?_
    have hrest := ih fun x hx => h x (List.mem_cons_of_mem _ hx)
    cases b? with
    | none => exact hrest
    | some b => exact hrest.bind fun _ _ => .pure trivial

/-- A question asked of every item of a list in turn, each time given the last answer. -/
protected theorem foldlM {f : β → α → Except Fault β} {list : List α}
    (h : ∀ b, ∀ a ∈ list, Answered (f b a)) (b : β) :
    Answered (list.foldlM f b) := by
  induction list generalizing b with
  | nil => exact .pure trivial
  | cons a rest ih =>
    rw [List.foldlM_cons]
    exact (h b a List.mem_cons_self).bind fun b' _ =>
      ih (fun b x hx => h b x (List.mem_cons_of_mem _ hx)) b'

end Answers

/-- Questions about the items of a list have answers one after the other. -/
theorem Answered.mapM {α β : Type} {f : α → Except Fault β} {list : List α}
    (h : ∀ a ∈ list, Answered (f a)) : Answered (list.mapM f) :=
  (Answers.mapM h).mono fun _ _ => trivial

end SymbolGraph
