import SymbolGraph.Source.Position
import SymbolGraph.Text.CharClass
import SymbolGraph.Text.Cut

/-!
# Comment groups

A run of adjacent comments, with its raw tokens, and the text that remains when the comment
marks are taken away: one leading space after `//` goes, directives go altogether, line ends
are trimmed, and blank lines survive only singly and only between other lines.
-/

namespace SymbolGraph

/-- A run of comments with no blank line or token between them, markers included. -/
structure CommentGroup where
  file : FileId
  range : TextRange
  /-- The raw comment tokens. -/
  tokens : List String
  deriving DecidableEq, Repr

namespace Comment

open Text

/-- The characters that tool names and directive names are made of. -/
def isDirectiveChar (c : Char) : Bool := ('a' ≤ c && c ≤ 'z') || ('0' ≤ c && c ≤ '9')

/-- Whether a line comment is addressed to a tool. `body` is what follows the two slashes:
either one of three words with a space after it, or `tool:name` without any space before the
colon and with a name behind it. -/
def isDirective (body : List Char) : Bool :=
  startsWith "line ".toList body || startsWith "extern ".toList body
    || startsWith "export ".toList body
    || match splitFirst? [':'] body with
      | some (tool, name) =>
        !tool.isEmpty && tool.all isDirectiveChar && (name.head?.map isDirectiveChar).getD false
      | none => false

/-- What a token says once its comment marks are gone; `none` for a directive. -/
def tokenBody (token : List Char) : Option (List Char) :=
  match stripStart? ['/', '/'] token with
  | some body =>
    if isDirective body then none else some ((stripStart? [' '] body).getD body)
  | none =>
    match stripStart? ['/', '*'] token with
    | some body => some ((stripEnd? ['*', '/'] body).getD body)
    | none => some token

/-- The lines of a token's body, trimmed at the end. -/
def tokenLines (token : List Char) : List (List Char) :=
  match tokenBody token with
  | some body => (splitOn '\n' body).map (trimEnd isBlank)
  | none => []

/-- Drops blank lines at the start and all but the first of each run of blank lines;
`lastBlank` tells whether the line before is blank or missing. -/
def squeeze : (lastBlank : Bool) → List (List Char) → List (List Char)
  | _, [] => []
  | lastBlank, line :: rest =>
    if line.isEmpty then
      if lastBlank then squeeze true rest else line :: squeeze true rest
    else line :: squeeze false rest

/-- Lines as one text; a last line that is not blank is given its newline. -/
def closeLines (lines : List (List Char)) : List Char :=
  match lines.getLast? with
  | some last => join ['\n'] (if last.isEmpty then lines else lines ++ [[]])
  | none => []

/-- The text of a list of raw tokens. -/
def textOfTokens (tokens : List (List Char)) : List Char :=
  closeLines (squeeze true (tokens.flatMap tokenLines))

end Comment

/-- The text of a comment group with its markers removed. -/
def CommentGroup.text (g : CommentGroup) : String :=
  String.ofList (Comment.textOfTokens (g.tokens.map String.toList))

end SymbolGraph
