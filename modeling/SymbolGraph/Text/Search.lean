import SymbolGraph.Text.CharClass
import SymbolGraph.Text.Cut

/-!
# Finding words in a text

The places where a word occurs in a text, from left to right and without overlaps. A word that
is an identifier is looked for as a whole word: an occurrence next to an identifier character
does not count.
-/

namespace SymbolGraph.Text

/-- An occurrence of a word: the byte offset of its start and the characters on both sides. -/
structure Occurrence where
  start : Nat
  before : Option Char
  after : Option Char
  deriving DecidableEq, Repr

/-- The occurrences of `word`, leftmost first and without overlaps, in a text that stands at
byte `offset` behind the character `before`. The first `skip` characters belong to the
occurrence before. -/
def occurrencesFrom (word : List Char) :
    (skip offset : Nat) → (before : Option Char) → List Char → List Occurrence
  | _, _, _, [] => []
  | skip + 1, offset, _, c :: rest =>
    occurrencesFrom word skip (offset + c.utf8Size) (some c) rest
  | 0, offset, before, c :: rest =>
    match stripStart? word (c :: rest) with
    | some after =>
      ⟨offset, before, after.head?⟩ ::
        occurrencesFrom word (word.length - 1) (offset + c.utf8Size) (some c) rest
    | none => occurrencesFrom word 0 (offset + c.utf8Size) (some c) rest

/-- The characters that identifiers are made of. -/
def isIdentifierChar (c : Char) : Bool := c = '_' || isIdentifierRest c

/-- Whether no identifier character stands next to an occurrence. -/
def Occurrence.isWhole (o : Occurrence) : Bool :=
  !(o.before.any isIdentifierChar) && !(o.after.any isIdentifierChar)

/-- The byte offsets at which a word counts as found in a text. -/
def findAll (word text : List Char) : List Nat :=
  let found := occurrencesFrom word 0 0 none text
  let counted := if isIdentifier word then found.filter Occurrence.isWhole else found
  counted.map Occurrence.start

/-- The byte offset of the `n`-th place, counted from zero, at which a word is found. The empty
word is never found. -/
def findNth? (word text : List Char) (n : Nat) : Option Nat :=
  if word.isEmpty then none else (findAll word text)[n]?

end SymbolGraph.Text
