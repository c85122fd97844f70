/-!
# JSON values

The values that records are read from and written to. Integers are exact; a number that is
written with a fraction or an exponent, or that lies outside 64 bits, is kept as it was
written and counts as no integer.
-/

namespace SymbolGraph

/-- A JSON value. An object is a list of entries, in which a key occurs at most once. -/
inductive Json where
  | null
  | bool (value : Bool)
  | int (value : Int)
  | float (text : String)
  | str (value : String)
  | arr (items : List Json)
  | obj (entries : List (String × Json))
  deriving Inhabited, Repr

namespace Json

/-- The first entry for a key. -/
def lookup (key : String) : List (String × Json) → Option Json
  | [] => none
  | (k, v) :: rest => if k = key then some v else lookup key rest

/-- The value of an object's field; `none` for a missing field and for other values. -/
def field? (j : Json) (key : String) : Option Json :=
  match j with
  | .obj entries => lookup key entries
  | _ => none

/-- The text of a string value. -/
def str? : Json → Option String
  | .str s => some s
  | _ => none

/-- The truth value of a Boolean. -/
def bool? : Json → Option Bool
  | .bool b => some b
  | _ => none

/-- The items of an array. -/
def items? : Json → Option (List Json)
  | .arr items => some items
  | _ => none

/-- An integer that is not negative. -/
def nat? : Json → Option Nat
  | .int n => if 0 ≤ n then some n.toNat else none
  | _ => none

/-- An integer that fits into 32 bits. -/
def uint32? : Json → Option UInt32
  | .int n => if 0 ≤ n ∧ n < UInt32.size then some (UInt32.ofNat n.toNat) else none
  | _ => none

/-- A number as a JSON value. -/
def ofNat (n : Nat) : Json := .int n

/-- A value that may be missing, with null for a missing one. -/
def ofOption {α : Type} (encode : α → Json) : Option α → Json
  | some a => encode a
  | none => .null

/-- A list of values. -/
def ofList {α : Type} (encode : α → Json) (items : List α) : Json := .arr (items.map encode)

end Json

end SymbolGraph
