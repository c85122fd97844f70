import SymbolGraph.Comment.Block
import SymbolGraph.Comment.Link

/-!
# Comment text as HTML

Each block of a comment text becomes one element: a paragraph `<p>`, a heading `<h3>` with an
anchor, or `<pre>`. Web addresses become links, and doubled quotes become curly quotes outside
preformatted text.
-/

namespace SymbolGraph.Comment

open Text

/-- One character as HTML text. -/
def escapeChar (c : Char) : List Char :=
  if c = '"' then "&#34;".toList
  else if c = '\x27' then "&#39;".toList
  else if c = '&' then "&amp;".toList
  else if c = '<' then "&lt;".toList
  else if c = '>' then "&gt;".toList
  else if c.toNat = 0 then ['\uFFFD']
  else [c]

/-- A text as HTML text. -/
def escape (text : List Char) : List Char := text.flatMap escapeChar

/-- The curly quote that opens a quotation, as HTML text. -/
def openingQuote : List Char := "&ldquo;".toList

/-- The curly quote that closes a quotation, as HTML text. -/
def closingQuote : List Char := "&rdquo;".toList

/-- A text as HTML text in which two backquotes open and two apostrophes close a quotation. -/
def escapeQuoting : List Char → List Char
  | '\x60' :: '\x60' :: rest => openingQuote ++ escapeQuoting rest
  | '\x27' :: '\x27' :: rest => closingQuote ++ escapeQuoting rest
  | c :: rest => escapeChar c ++ escapeQuoting rest
  | [] => []

/-- A text as HTML text, with curly quotes if `curly`. -/
def escapeText (curly : Bool) (text : List Char) : List Char :=
  if curly then escapeQuoting text else escape text

/-- A piece of a line as HTML. -/
def renderPiece (curly : Bool) : Piece → List Char
  | .url text =>
    "<a href=\"".toList ++ escape text ++ "\">".toList ++ escapeText curly text ++ "</a>".toList
  | .word text => escapeText curly text
  | .other text => escapeText curly text

/-- A line as HTML, with links. -/
def renderLine (curly : Bool) (line : Line) : List Char :=
  (pieces line).flatMap (renderPiece curly)

/-- The anchor of a heading: ASCII letters and digits stay, all else becomes an underscore. -/
def anchor (title : Line) : List Char :=
  "hdr-".toList ++ title.map fun c => if isAsciiAlphanum c then c else '_'

/-- A block as HTML. -/
def renderBlock : Block → List Char
  | .paragraph lines => "<p>\n".toList ++ lines.flatMap (renderLine true) ++ "</p>\n".toList
  | .heading title =>
    "<h3 id=\"".toList ++ anchor title ++ "\">".toList ++ escapeQuoting title
      ++ "</h3>\n".toList
  | .preformatted lines =>
    "<pre>".toList ++ lines.flatMap (renderLine false) ++ "</pre>\n".toList

/-- A comment text as HTML. -/
def toHtml (text : String) : String :=
  String.ofList ((blocks text.toList).flatMap renderBlock)

end SymbolGraph.Comment
