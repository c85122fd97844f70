import SymbolGraph.Text.CharTable.Blank
import SymbolGraph.Text.CharTable.Case
import SymbolGraph.Text.CharTable.Identifier
import SymbolGraph.Text.CharTable.Letter
import SymbolGraph.Text.CharTable.Mark
import SymbolGraph.Text.CharTable.Number
import SymbolGraph.Text.CharTable.Unassigned

/-!
# Character classes

Tests on single characters over the whole code space, read off the range tables. The tables
are increasing, so a lookup stops at the first range that begins beyond the character; in
particular a test on an ASCII character looks at a handful of ranges only.
-/

namespace SymbolGraph.Text

open CharTable

/-- Whether `n` lies in one of the ranges of an increasing table. -/
def inRanges (n : Nat) : List (Nat × Nat) → Bool
  | [] => false
  | (lo, hi) :: rest => if n < lo then false else n ≤ hi || inRanges n rest

/-- Whether `n` lies in one of the ranges at an even distance from the range's start. -/
def inAlternating (n : Nat) : List (Nat × Nat) → Bool
  | [] => false
  | (lo, hi) :: rest =>
    if n < lo then false else (n ≤ hi && (n - lo) % 2 == 0) || inAlternating n rest

/-- White space: the characters that trimming and splitting into fields look for. -/
def isBlank (c : Char) : Bool := inRanges c.toNat blanks

/-- Letters of any script and case. -/
def isLetter (c : Char) : Bool := inRanges c.toNat letters

/-- Letters that words in running text are made of: all but the latest additions, which stand
between words like any other sign. -/
def isWordLetter (c : Char) : Bool := isLetter c && !inRanges c.toNat lateLetters

/-- Decimal digits of any script. -/
def isDigit (c : Char) : Bool := inRanges c.toNat digits

/-- Letters, letter numbers, and the marks that act as letters. -/
def isAlphabetic (c : Char) : Bool :=
  isLetter c || inRanges c.toNat letterNumbers || inRanges c.toNat alphabeticMarks

/-- Capital letters and capital letter-like symbols. -/
def isUpper (c : Char) : Bool :=
  inRanges c.toNat upperRuns || inAlternating c.toNat upperAlternating
    || inRanges c.toNat otherUpper

/-- Digits, letter numbers and all other numbers. -/
def isNumeric (c : Char) : Bool :=
  isDigit c || inRanges c.toNat letterNumbers || inRanges c.toNat otherNumbers

/-- Characters that may start an identifier, the underscore excepted. -/
def isIdentifierStart (c : Char) : Bool :=
  (isLetter c || inRanges c.toNat letterNumbers || inRanges c.toNat startExtra
      || inRanges c.toNat reservedStarts)
    && !inRanges c.toNat startMissing

/-- Characters that may continue an identifier, the underscore included. -/
def isIdentifierRest (c : Char) : Bool :=
  (isLetter c || isDigit c || inRanges c.toNat letterNumbers
      || inRanges c.toNat nonspacingMarks || inRanges c.toNat spacingMarks
      || inRanges c.toNat connectors || inRanges c.toNat continueExtra
      || inRanges c.toNat reservedStarts || inRanges c.toNat reservedMarks)
    && !inRanges c.toNat continueMissing

/-- Marks that belong to the character before them and are nothing to look at alone. -/
def isExtending (c : Char) : Bool :=
  inRanges c.toNat nonspacingMarks || inRanges c.toNat enclosingMarks
    || inRanges c.toNat extendingMarks

/-- Characters that cannot be told apart on a page: controls, format characters, separators,
private-use characters, code points that stand for no character, and extending marks. -/
def isInvisible (c : Char) : Bool :=
  inRanges c.toNat invisibles || inRanges c.toNat unassigned || isExtending c

/-- Whether a word is an identifier: a letter or underscore, then letters, marks, digits and
underscores. -/
def isIdentifier : List Char → Bool
  | [] => false
  | c :: rest =>
    (c = '_' || isIdentifierStart c) && rest.all fun d => d = '_' || isIdentifierRest d

/-- A name is exported from its package when it starts with a capital letter. -/
def isExported (name : String) : Bool := (name.toList.head?.map isUpper).getD false

end SymbolGraph.Text
