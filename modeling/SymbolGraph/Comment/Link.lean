import SymbolGraph.Text.CharClass
import SymbolGraph.Text.Cut

/-!
# Links in a line of text

A line is cut into web addresses, words and everything else. Words are recognised so that no
address starts inside one.

An address is a scheme, `://`, a host and a path. The host is a run of host characters, then
any number of further runs each behind a full stop or colon; the path is a run of path
characters, then any number of further runs each behind a colon, full stop or comma. The host
takes as much as it can and gives characters back, last one first, until a path is left.
-/

namespace SymbolGraph.Comment

open Text

/-- The schemes a link may have. -/
def schemes : List (List Char) :=
  ["https", "http", "ftp", "file", "gopher", "mailto", "news", "nntp", "telnet", "wais",
    "prospero"].map String.toList

/-- ASCII letters and digits. -/
def isAsciiAlphanum (c : Char) : Bool :=
  ('a' ≤ c && c ≤ 'z') || ('A' ≤ c && c ≤ 'Z') || ('0' ≤ c && c ≤ '9')

/-- Characters of host names and of the user names before them. -/
def isHostChar (c : Char) : Bool := isAsciiAlphanum c || "_@-".toList.contains c

/-- Characters of paths and queries. -/
def isPathChar (c : Char) : Bool := isAsciiAlphanum c || "_?%#~&/-+=".toList.contains c

/-- The longest run of path characters, at least one, followed by further runs behind a colon,
full stop or comma. Returns the part taken and what follows. -/
def takePath? : List Char → Option (List Char × List Char)
  | [] => none
  | [c] => if isPathChar c then some ([c], []) else none
  | c :: mark :: next =>
    if isPathChar c then
      match takePath? (mark :: next) with
      | some (path, after) => some (c :: path, after)
      | none =>
        if mark == ':' || mark == '.' || mark == ',' then
          match takePath? next with
          | some (path, after) => some (c :: mark :: path, after)
          | none => some ([c], mark :: next)
        else some ([c], mark :: next)
    else none

/-- The rest of an address once at least one character of the current host run is taken: first
as much more of the host as leads to a path, then the path itself. -/
def takeHostRest? : List Char → Option (List Char × List Char)
  | [] => none
  | c :: rest =>
    if isHostChar c then
      match takeHostRest? rest with
      | some (url, after) => some (c :: url, after)
      | none => takePath? (c :: rest)
    else if c == '.' || c == ':' then
      match rest with
      | d :: next =>
        if isHostChar d then
          match takeHostRest? next with
          | some (url, after) => some (c :: d :: url, after)
          | none => none
        else none
      | [] => none
    else takePath? (c :: rest)

/-- The host and path of an address, after the scheme. -/
def takeHost? : List Char → Option (List Char × List Char)
  | [] => none
  | c :: rest =>
    if isHostChar c then (takeHostRest? rest).map fun (url, after) => (c :: url, after) else none

/-- A whole address at the start of a text: the address and what follows. -/
def takeUrl? (text : List Char) : Option (List Char × List Char) :=
  schemes.findSome? fun scheme => do
    let afterScheme ← stripStart? scheme text
    let afterMark ← stripStart? "://".toList afterScheme
    let (url, after) ← takeHost? afterMark
    return (scheme ++ "://".toList ++ url, after)

/-- The characters that may start a word. -/
def isWordStart (c : Char) : Bool := isWordLetter c || c == '_'

/-- The characters that may continue a word. -/
def isWordRest (c : Char) : Bool := isWordLetter c || c == '_' || ('0' ≤ c && c ≤ '9')

/-- A part of a line: an address, a word, or text that belongs to neither. -/
inductive Piece where
  | url (text : List Char)
  | word (text : List Char)
  | other (text : List Char)
  deriving DecidableEq, Repr

/-- Puts a character that belongs to no address or word before the pieces after it. -/
def consOther (c : Char) : List Piece → List Piece
  | .other text :: pieces => .other (c :: text) :: pieces
  | pieces => .other [c] :: pieces

/-- The pieces of a line. The first `skip` characters belong to the piece before. -/
def piecesFrom : (skip : Nat) → List Char → List Piece
  | _, [] => []
  | skip + 1, _ :: rest => piecesFrom skip rest
  | 0, c :: rest =>
    match takeUrl? (c :: rest) with
    | some (url, _) => .url url :: piecesFrom (url.length - 1) rest
    | none =>
      if isWordStart c then
        let more := rest.takeWhile isWordRest
        .word (c :: more) :: piecesFrom more.length rest
      else consOther c (piecesFrom 0 rest)

/-- The addresses, words and other parts of a line, in order. -/
def pieces (line : List Char) : List Piece := piecesFrom 0 line

end SymbolGraph.Comment
