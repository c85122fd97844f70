import SymbolGraph.Graph.Record
import SymbolGraph.Program.Id
import SymbolGraph.Table

/-!
# Known keys

The keys found so far, by the package that was being graphed and the object. An object can have
two keys, one in its own package and one seen from another, so both numbers count. What is known
once is kept; that an object has no key is not.

Main statement: `find?_install` (a key that is known is never replaced).
-/

namespace SymbolGraph

/-- A key with the visibility of what it names. -/
structure KeyedObject where
  key : DefKey
  exported : Bool
  packageScope : Bool
  deriving DecidableEq, Repr, Inhabited

/-- The keys known so far. -/
structure KeyStore where
  entries : Table (PackageId × ObjectId) KeyedObject
  deriving Repr, Inhabited

namespace KeyStore

/-- The store in which nothing is known. -/
def empty : KeyStore := ⟨.empty⟩

/-- The key of an object while a package is graphed, if it is known. -/
def find? (s : KeyStore) (pkg : PackageId) (obj : ObjectId) : Option KeyedObject :=
  s.entries.get? (pkg, obj)

/-- Makes a key known, unless one is. -/
def install (s : KeyStore) (pkg : PackageId) (obj : ObjectId) (k : KeyedObject) : KeyStore :=
  ⟨s.entries.insertNew (pkg, obj) k⟩

/-- The known key, or else the one that `compute` finds, which is known from then on. -/
def findOrCompute (s : KeyStore) (pkg : PackageId) (obj : ObjectId)
    (compute : Unit → Option KeyedObject) : Option KeyedObject × KeyStore :=
  match s.find? pkg obj with
  | some k => (some k, s)
  | none =>
    match compute () with
    | some k => (some k, s.install pkg obj k)
    | none => (none, s)

/-- The number of known keys. -/
def size (s : KeyStore) : Nat := s.entries.size

/-- Whether nothing is known. -/
def isEmpty (s : KeyStore) : Bool := s.size == 0

@[simp] theorem find?_empty (pkg : PackageId) (obj : ObjectId) : empty.find? pkg obj = none := rfl

/-- A key that is known is never replaced. -/
theorem find?_install (s : KeyStore) (pkg pkg' : PackageId) (obj obj' : ObjectId)
    (k : KeyedObject) :
    (s.install pkg' obj' k).find? pkg obj =
      if (pkg', obj') = (pkg, obj) then some ((s.find? pkg obj).getD k) else s.find? pkg obj :=
  Table.get?_insertNew s.entries (pkg, obj) (pkg', obj') k

end KeyStore

end SymbolGraph
