import SymbolGraph.Graph.Run

/-!
# Steps of a run

How the steps of a run are taken apart: one step after another, a question, a look at what has
been found. A step ends in a state whether or not it ends in a fault, and that state is what a
later run of the session sees of it.
-/

namespace SymbolGraph

/-- The state with other known keys. -/
def Emission.withKeys (s : Emission) (keys : KeyStore) : Emission := { s with keys := keys }

@[simp] theorem Emission.withKeys_keys (s : Emission) (keys : KeyStore) :
    (s.withKeys keys).keys = keys := rfl

@[simp] theorem Emission.withKeys_selected (s : Emission) (keys : KeyStore) :
    (s.withKeys keys).selected = s.selected := rfl

namespace Emit

variable {α β : Type}

/-- The state in which a step ends, also when it ends in a fault. -/
def endState : EStateM.Result Fault Emission α → Emission
  | .ok _ s => s
  | .error _ s => s

/-- A step that comes to a value ends in the state that it returns. -/
theorem endState_of_ok {m : Emit α} {s t : Emission} {a : α} (h : m s = .ok a t) :
    endState (m s) = t := by
  rw [h]
  rfl

/-- The outcome of a step with other known keys. -/
def withKeys (keys : KeyStore) :
    EStateM.Result Fault Emission α → EStateM.Result Fault Emission α
  | .ok a s => .ok a (s.withKeys keys)
  | .error f s => .error f (s.withKeys keys)

/-- The second of two steps is taken if the first one does not end in a fault. -/
theorem bind_apply (m : Emit α) (next : α → Emit β) (s : Emission) :
    (m >>= next) s =
      match m s with
      | .ok a t => next a t
      | .error f t => .error f t := by
  show EStateM.bind m next s = _
  unfold EStateM.bind
  cases m s <;> rfl

/-- After a value the next step is taken with it. -/
theorem bind_of_ok {m : Emit α} {next : α → Emit β} {s t : Emission} {a : α}
    (h : m s = .ok a t) : (m >>= next) s = next a t := by
  rw [bind_apply, h]

/-- A fault is the end. -/
theorem bind_of_error {m : Emit α} {next : α → Emit β} {s t : Emission} {f : Fault}
    (h : m s = .error f t) : (m >>= next) s = .error f t := by
  rw [bind_apply, h]

/-- Two steps in a row succeed exactly when each does. -/
theorem bind_eq_ok_iff {m : Emit α} {next : α → Emit β} {s u : Emission} {b : β} :
    (m >>= next) s = .ok b u ↔ ∃ a t, m s = .ok a t ∧ next a t = .ok b u := by
  rw [bind_apply]
  cases m s with
  | ok a t =>
    constructor
    · intro h
      exact ⟨a, t, rfl, h⟩
    · rintro ⟨_, _, h, hnext⟩
      cases h
      exact hnext
  | error f t => simp

/-- A value is returned as it is, and nothing changes. -/
theorem pure_eq_ok_iff {a b : α} {s t : Emission} :
    (pure a : Emit α) s = .ok b t ↔ a = b ∧ s = t := by
  show EStateM.Result.ok a s = .ok b t ↔ _
  simp

/-- A question is answered or ends in a fault, and changes nothing. -/
theorem ask_apply (answer : Except Fault α) (s : Emission) :
    ask answer s =
      match answer with
      | .ok a => .ok a s
      | .error f => .error f s := by
  cases answer <;> rfl

/-- A question succeeds exactly when it has an answer, and changes nothing. -/
theorem ask_eq_ok_iff {answer : Except Fault α} {s t : Emission} {a : α} :
    ask answer s = .ok a t ↔ answer = .ok a ∧ s = t := by
  rw [ask_apply]
  cases answer with
  | ok b => simp
  | error f => simp

/-- A look at what has been found gives the state in which it is taken. -/
theorem get_bind_apply (next : Emission → Emit α) (s : Emission) :
    ((get : Emit Emission) >>= next) s = next s s := rfl

/-- A change always succeeds. -/
theorem modify_apply (change : Emission → Emission) (s : Emission) :
    (modify change : Emit Unit) s = .ok () (change s) := rfl

end Emit

end SymbolGraph
