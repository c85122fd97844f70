import SymbolGraph.Text.CharClass
import SymbolGraph.Text.Cut

/-!
# Blocks of a comment text

A comment text is cut into lines, each with its newline, and the lines into blocks: runs of
unindented lines are paragraphs, runs of indented lines are preformatted, and a line that reads
like a title and stands alone between blank lines is a heading. Whitespace that every line
begins with is no indentation.
-/

namespace SymbolGraph.Comment

open Text

/-- A line, its newline included. -/
abbrev Line := List Char

/-- A block of a comment text. -/
inductive Block where
  /-- Consecutive unindented lines. -/
  | paragraph (lines : List Line)
  /-- A title, trimmed. -/
  | heading (title : Line)
  /-- Indented lines and the blank lines between them, with their common indentation gone. -/
  | preformatted (lines : List Line)
  deriving DecidableEq, Repr

/-! ## Lines -/

/-- The lines of a text with their newlines. What follows the last newline is a line of its
own, even if it is empty. -/
def splitLines : List Char → List Line
  | [] => [[]]
  | c :: rest =>
    if c = '\n' then [c] :: splitLines rest
    else match splitLines rest with
      | [] => [[c]]
      | line :: lines => (c :: line) :: lines

/-- A line with nothing on it but, perhaps, its newline. -/
def isBlankLine (line : Line) : Bool := line == [] || line == ['\n']

/-- The spaces and tabs a line begins with. -/
def indentOf (line : Line) : List Char := line.takeWhile fun c => c == ' ' || c == '\t'

/-- Whether a line begins with a space or a tab. -/
def isIndented (line : Line) : Bool := !(indentOf line).isEmpty

/-- The longest common beginning of two texts. -/
def commonStart : List Char → List Char → List Char
  | a :: as, b :: bs => if a = b then a :: commonStart as bs else []
  | _, _ => []

/-- The longest whitespace beginning of the first line that all lines share; blank lines
after the first do not count. -/
def commonIndent : List Line → List Char
  | [] => []
  | first :: rest =>
    ((first :: rest).filter fun line => !isBlankLine line).foldl
      (fun shared line => commonStart shared (indentOf line)) (indentOf first)

/-- Removes the common indentation from every line that is not blank. -/
def unindent (lines : List Line) : List Line :=
  let n := (commonIndent lines).length
  lines.map fun line => if isBlankLine line then line else line.drop n

/-! ## Headings -/

/-- The characters that no heading contains. -/
def headingStops : List Char := ";:!?+*/=[]\x7b\x7d_^°&§~%#@<\">\\".toList

/-- Whether each apostrophe belongs to a possessive `'s` at the end of a word, and no full
stop ends a word. -/
def punctuationFits : List Char → Bool
  | [] => true
  | c :: rest =>
    (if c = '\x27' then
      match rest with
      | 's' :: [] => true
      | 's' :: next :: _ => next == ' '
      | _ => false
    else if c = '.' then
      match rest with
      | [] => false
      | next :: _ => next != ' '
    else true) && punctuationFits rest

/-- The title on a line, if the line reads like one: it starts with a capital letter, ends
with a letter or digit, and holds only the punctuation that titles have. -/
def heading? (line : Line) : Option Line :=
  let title := trim isBlank line
  match title.head?, title.getLast? with
  | some first, some last =>
    if isAlphabetic first && isUpper first && (isAlphabetic last || isNumeric last)
        && title.all (fun c => !headingStops.contains c) && punctuationFits title
    then some title else none
  | _, _ => none

/-- Whether the lines that follow leave a heading alone: a blank line, then an unindented line
of text. -/
def leavesAlone : List Line → Bool
  | blank :: next :: _ => isBlankLine blank && !isBlankLine next && !isIndented next
  | _ => false

/-! ## Blocks -/

/-- The paragraph made of the open lines, if there are any. -/
def closeParagraph (lines : List Line) : List Block :=
  if lines.isEmpty then [] else [.paragraph lines]

/-- Cuts a run of blank and indented lines into the run up to its last indented line and the
rest. -/
def splitRun : List Line → List Line × List Line
  | [] => ([], [])
  | line :: rest =>
    if isBlankLine line then
      match splitRun rest with
      | ([], _) => ([], line :: rest)
      | (run, after) => (line :: run, after)
    else if isIndented line then
      let (run, after) := splitRun rest
      (line :: run, after)
    else ([], line :: rest)

/-- What is left behind a run is no longer than the lines it is cut from, so that the cutting of
blocks ends. -/
theorem length_splitRun_snd_le (lines : List Line) :
    (splitRun lines).2.length ≤ lines.length := by
  induction lines with
  | nil => simp [splitRun]
  | cons line rest ih =>
    simp only [splitRun]
    split
    · split
      · simp
      · rename_i heq
        simp only [heq] at ih
        simp only [List.length_cons]
        omega
    · split
      · simp only [List.length_cons]
        omega
      · simp

/-- The blocks of a list of lines. `begun` holds the lines of the paragraph that has begun,
`afterBlank` whether the last line outside preformatted runs was blank, and `afterHeading`
whether the last block was a heading. -/
def blocksFrom (afterBlank afterHeading : Bool) (begun : List Line) : List Line → List Block
  | [] => closeParagraph begun
  | line :: rest =>
    if isBlankLine line then
      closeParagraph begun ++ blocksFrom true afterHeading [] rest
    else if isIndented line then
      closeParagraph begun ++ .preformatted (unindent (line :: (splitRun rest).1)) ::
        blocksFrom afterBlank false [] (splitRun rest).2
    else
      match if afterBlank && !afterHeading && leavesAlone rest then heading? line else none with
      | some title =>
        closeParagraph begun ++ .heading title :: blocksFrom afterBlank true [] (rest.drop 1)
      | none => blocksFrom false false (begun ++ [line]) rest
  termination_by lines => lines.length
  decreasing_by
    · simp
    · have := length_splitRun_snd_le rest
      simp only [List.length_cons]
      omega
    · simp only [List.length_drop, List.length_cons]
      omega
    · simp

/-- The blocks of a comment text. -/
def blocks (text : List Char) : List Block :=
  blocksFrom false false [] (unindent (splitLines text))

end SymbolGraph.Comment
