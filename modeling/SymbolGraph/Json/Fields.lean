import SymbolGraph.Json.Basic

/-!
# Records as JSON

A record is written as an object with one entry per field. It is read from such an object, in
which further entries do not matter, or from an array of its fields in order. A name out of a
fixed list is written as a string; it is read from a string or from an object whose only entry
has the name as its key and null as its value.
-/

namespace SymbolGraph.Json

/-- The entries of a record with the given fields, from either of its forms. -/
def entries? (fields : List String) : Json → Option (List (String × Json))
  | .obj entries => some entries
  | .arr items => if items.length ≤ fields.length then some (fields.zip items) else none
  | _ => none

/-- A field that has to be there. -/
def required {α : Type} (read : Json → Option α) (key : String)
    (entries : List (String × Json)) : Option α :=
  (lookup key entries).bind read

/-- A field that has a value of its own when it is missing. -/
def withDefault {α : Type} (fallback : α) (read : Json → Option α) (key : String)
    (entries : List (String × Json)) : Option α :=
  match lookup key entries with
  | some j => read j
  | none => some fallback

/-- A value that null stands for the absence of. -/
def nullable {α : Type} (read : Json → Option α) : Json → Option (Option α)
  | .null => some none
  | j => (read j).map some

/-- A field that may be missing or null. -/
def optional {α : Type} (read : Json → Option α) (key : String)
    (entries : List (String × Json)) : Option (Option α) :=
  withDefault none (nullable read) key entries

/-- Reads every item of a list. -/
def readAll {α : Type} (read : Json → Option α) : List Json → Option (List α)
  | [] => some []
  | j :: rest => do
    let a ← read j
    let as ← readAll read rest
    return a :: as

/-- Reads every item of an array. -/
def listOf? {α : Type} (read : Json → Option α) (j : Json) : Option (List α) :=
  j.items?.bind (readAll read)

/-- The value that a name stands for. -/
def variant? {α : Type} (names : List (String × α)) : Json → Option α
  | .str name => names.findSome? fun (n, a) => if n = name then some a else none
  | .obj [(name, .null)] => names.findSome? fun (n, a) => if n = name then some a else none
  | _ => none

/-- The entry of a field that is left out when it has no value. -/
def entryIf {α : Type} (key : String) (write : α → Json) : Option α → List (String × Json)
  | some a => [(key, write a)]
  | none => []

/-- The entry of a text field that is left out when it is empty. -/
def entryIfText (key text : String) : List (String × Json) :=
  if text.isEmpty then [] else [(key, .str text)]

/-- An offset or other 32-bit number. -/
def ofUInt32 (n : UInt32) : Json := .int n.toNat

/-- What is written item by item is read back item by item. -/
theorem readAll_map {α : Type} {read : Json → Option α} {write : α → Json}
    (h : ∀ a, read (write a) = some a) (as : List α) : readAll read (as.map write) = some as := by
  induction as with
  | nil => rfl
  | cons a as ih => simp [readAll, h, ih]

end SymbolGraph.Json
