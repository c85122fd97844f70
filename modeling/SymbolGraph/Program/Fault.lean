import SymbolGraph.Source.Position
import SymbolGraph.Text.Quoted

/-!
# Faults

What happens when a program is put together or read with numbers that stand for nothing. A
fault is the caller's mistake; what a well-formed program can fail with are ordinary errors.

Main statements: `fetch_eq_ok_iff` (an element is fetched exactly when it is there) and
`bind_eq_ok_iff` (steps in a row succeed exactly when each does).
-/

namespace SymbolGraph

/-- A mistake in how a program is put together. -/
inductive Fault where
  /-- A number beyond the last one given out, or a range with its bounds in the wrong order. -/
  | outOfRange
  /-- A name that is no predeclared type. -/
  | notPredeclared (name : String)
  /-- A file that belongs to no package. -/
  | unregistered (file : FileId)
  /-- A text that does not occur often enough in a file. -/
  | notFound (nth : Nat) (needle fileName : String)
  /-- A node without children, of which a range was to be inferred. -/
  | childless (kind : String)
  /-- Entities that contain themselves, so that following them would not come to an end. -/
  | endless
  deriving DecidableEq, Repr

/-- The wording of a fault, for those that have one. -/
def Fault.message? : Fault → Option String
  | .outOfRange | .endless => none
  | .notPredeclared name => some ("`" ++ name ++ "` is not a predeclared type")
  | .unregistered file => some (file.tag ++ " is not a registered file")
  | .notFound nth needle fileName =>
    some ("occurrence " ++ toString nth ++ " of " ++ Text.quoted needle ++ " not found in "
      ++ fileName)
  | .childless kind => some ("cannot infer a range for a childless " ++ kind)

/-- An element of an array, or a fault if there is none. -/
def fetch {α : Type} (items : Array α) (index : Nat) : Except Fault α :=
  match items[index]? with
  | some a => .ok a
  | none => .error .outOfRange

/-- A step after another succeeds exactly when both do. -/
theorem bind_eq_ok_iff {α β : Type} {first : Except Fault α} {next : α → Except Fault β} {b : β} :
    (first >>= next) = .ok b ↔ ∃ a, first = .ok a ∧ next a = .ok b := by
  cases first with
  | error f => simp [bind, Except.bind]
  | ok a => simp [bind, Except.bind]

/-- A look-up by number succeeds exactly where there is an item of that number. -/
theorem fetch_eq_ok_iff {α : Type} {items : Array α} {index : Nat} {a : α} :
    fetch items index = .ok a ↔ items[index]? = some a := by
  unfold fetch
  cases items[index]? <;> simp

end SymbolGraph
