import SymbolGraph.Json.Basic

/-!
# JSON text

Reading and writing JSON values as text. The written form is canonical: no spaces, the entries
of every object in increasing order of their keys, and no character escaped that need not be.
When a key occurs twice in an object that is read, the later value counts.
-/

namespace SymbolGraph.Json

/-! ## Writing -/

/-- One character inside a JSON string. -/
def escapeChar (c : Char) : List Char :=
  if c = '"' then ['\\', '"']
  else if c = '\\' then ['\\', '\\']
  else if c.toNat = 8 then ['\\', 'b']
  else if c = '\t' then ['\\', 't']
  else if c = '\n' then ['\\', 'n']
  else if c.toNat = 12 then ['\\', 'f']
  else if c = '\r' then ['\\', 'r']
  else if c.toNat < 16 then ['\\', 'u', '0', '0', '0'] ++ Nat.toDigits 16 c.toNat
  else if c.toNat < 32 then ['\\', 'u', '0', '0'] ++ Nat.toDigits 16 c.toNat
  else [c]

/-- A string in quotes. -/
def writeString (s : String) : List Char := '"' :: s.toList.flatMap escapeChar ++ ['"']

/-- Adds an entry to a list of entries in increasing order of their keys, replacing an entry
with the same key. -/
def insertEntry (key : String) (text : List Char) :
    List (String × List Char) → List (String × List Char)
  | [] => [(key, text)]
  | (k, t) :: rest =>
    if key = k then (key, text) :: rest
    else if key < k then (key, text) :: (k, t) :: rest
    else (k, t) :: insertEntry key text rest

/-- Texts with commas between them. -/
def commas : List (List Char) → List Char
  | [] => []
  | [t] => t
  | t :: u :: rest => t ++ ',' :: commas (u :: rest)

mutual

/-- A value as text. -/
def write : Json → List Char
  | .null => "null".toList
  | .bool b => if b then "true".toList else "false".toList
  | .int n => (toString n).toList
  | .float t => t.toList
  | .str s => writeString s
  | .arr items => '[' :: commas (writeItems items) ++ [']']
  | .obj entries =>
    '\x7b' :: commas ((writeEntries entries).map fun e => writeString e.1 ++ ':' :: e.2)
      ++ ['\x7d']

/-- The items of an array as texts. -/
def writeItems : List Json → List (List Char)
  | [] => []
  | j :: rest => write j :: writeItems rest

/-- The entries of an object as texts, in increasing order of their keys. -/
def writeEntries : List (String × Json) → List (String × List Char)
  | [] => []
  | (k, j) :: rest => insertEntry k (write j) (writeEntries rest)

end

/-- A value as a line of text. -/
def render (j : Json) : String := String.ofList (write j)

/-! ## Reading -/

/-- The white space that may stand between tokens. -/
def isSpace (c : Char) : Bool := c == ' ' || c == '\t' || c == '\n' || c == '\r'

/-- The value of a hexadecimal digit. -/
def hexValue? (c : Char) : Option Nat :=
  if '0' ≤ c && c ≤ '9' then some (c.toNat - '0'.toNat)
  else if 'a' ≤ c && c ≤ 'f' then some (c.toNat - 'a'.toNat + 10)
  else if 'A' ≤ c && c ≤ 'F' then some (c.toNat - 'A'.toNat + 10)
  else none

/-- The number given by four hexadecimal digits, and what follows. -/
def readHex4? : List Char → Option (Nat × List Char)
  | a :: b :: c :: d :: rest => do
    let a ← hexValue? a
    let b ← hexValue? b
    let c ← hexValue? c
    let d ← hexValue? d
    return (((a * 16 + b) * 16 + c) * 16 + d, rest)
  | _ => none

/-- The character behind `\u`, of one escape or of a pair of surrogates. -/
def readUnicode? (text : List Char) : Option (Char × List Char) := do
  let (high, rest) ← readHex4? text
  if 0xD800 ≤ high ∧ high < 0xDC00 then
    match rest with
    | '\\' :: 'u' :: rest =>
      let (low, rest) ← readHex4? rest
      if 0xDC00 ≤ low ∧ low < 0xE000 then
        return (Char.ofNat (0x10000 + (high - 0xD800) * 0x400 + (low - 0xDC00)), rest)
      else none
    | _ => none
  else if 0xDC00 ≤ high ∧ high < 0xE000 then none
  else return (Char.ofNat high, rest)

/-- The rest of a string after its opening quote, and what follows the closing quote. The
text read so far is kept in reverse. -/
def readString? : (fuel : Nat) → List Char → List Char → Option (String × List Char)
  | 0, _, _ => none
  | fuel + 1, seen, text =>
    match text with
    | '"' :: rest => some (String.ofList seen.reverse, rest)
    | '\\' :: 'u' :: rest => do
      let (c, rest) ← readUnicode? rest
      readString? fuel (c :: seen) rest
    | '\\' :: c :: rest =>
      match c with
      | '"' => readString? fuel ('"' :: seen) rest
      | '\\' => readString? fuel ('\\' :: seen) rest
      | '/' => readString? fuel ('/' :: seen) rest
      | 'b' => readString? fuel (Char.ofNat 8 :: seen) rest
      | 'f' => readString? fuel (Char.ofNat 12 :: seen) rest
      | 'n' => readString? fuel ('\n' :: seen) rest
      | 'r' => readString? fuel ('\r' :: seen) rest
      | 't' => readString? fuel ('\t' :: seen) rest
      | _ => none
    | c :: rest => if c.toNat < 32 then none else readString? fuel (c :: seen) rest
    | [] => none

/-- The value of a run of decimal digits. -/
def digitsValue (digits : List Char) : Nat :=
  digits.foldl (fun n c => n * 10 + (c.toNat - '0'.toNat)) 0

/-- Whether a character may occur in a number. -/
def isNumberChar (c : Char) : Bool :=
  ('0' ≤ c && c ≤ '9') || c == '-' || c == '+' || c == '.' || c == 'e' || c == 'E'

/-- A number from its text: an integer if it is written as one and fits into 64 bits. A zero
with a minus sign is no integer. -/
def readNumber? (text : List Char) : Option Json :=
  let isInt := fun (digits : List Char) =>
    !digits.isEmpty && digits.all fun c => '0' ≤ c && c ≤ '9'
  match text with
  | '-' :: digits =>
    if isInt digits then
      let n := digitsValue digits
      if n = 0 ∨ UInt64.size / 2 < n then some (.float (String.ofList text))
      else some (.int (-(n : Int)))
    else some (.float (String.ofList text))
  | digits =>
    if isInt digits then
      let n := digitsValue digits
      if n < UInt64.size then some (.int n) else some (.float (String.ofList text))
    else if digits.isEmpty then none
    else some (.float (String.ofList text))

/-- Adds an entry, replacing the value of an entry with the same key. -/
def setEntry (key : String) (value : Json) : List (String × Json) → List (String × Json)
  | [] => [(key, value)]
  | (k, v) :: rest =>
    if k = key then (k, value) :: rest else (k, v) :: setEntry key value rest

mutual

/-- A value at the start of a text, and what follows it. -/
def readValue? : (fuel : Nat) → List Char → Option (Json × List Char)
  | 0, _ => none
  | fuel + 1, text =>
    match text.dropWhile isSpace with
    | 'n' :: 'u' :: 'l' :: 'l' :: rest => some (.null, rest)
    | 't' :: 'r' :: 'u' :: 'e' :: rest => some (.bool true, rest)
    | 'f' :: 'a' :: 'l' :: 's' :: 'e' :: rest => some (.bool false, rest)
    | '"' :: rest => (readString? (rest.length + 1) [] rest).map fun (s, rest) => (.str s, rest)
    | '[' :: rest =>
      match rest.dropWhile isSpace with
      | ']' :: rest => some (.arr [], rest)
      | rest => (readItems? fuel rest).map fun (items, rest) => (.arr items, rest)
    | '\x7b' :: rest =>
      match rest.dropWhile isSpace with
      | '\x7d' :: rest => some (.obj [], rest)
      | rest => (readEntries? fuel [] rest).map fun (entries, rest) => (.obj entries, rest)
    | text =>
      (readNumber? (text.takeWhile isNumberChar)).map fun j => (j, text.dropWhile isNumberChar)

/-- The items of an array after its opening bracket, and what follows the closing one. -/
def readItems? : (fuel : Nat) → List Char → Option (List Json × List Char)
  | 0, _ => none
  | fuel + 1, text => do
    let (item, rest) ← readValue? fuel text
    match rest.dropWhile isSpace with
    | ',' :: rest =>
      let (items, rest) ← readItems? fuel rest
      return (item :: items, rest)
    | ']' :: rest => return ([item], rest)
    | _ => none

/-- The entries of an object after its opening brace, and what follows the closing one. -/
def readEntries? :
    (fuel : Nat) → List (String × Json) → List Char → Option (List (String × Json) × List Char)
  | 0, _, _ => none
  | fuel + 1, seen, text =>
    match text.dropWhile isSpace with
    | '"' :: rest => do
      let (key, rest) ← readString? (rest.length + 1) [] rest
      match rest.dropWhile isSpace with
      | ':' :: rest =>
        let (value, rest) ← readValue? fuel rest
        let seen := setEntry key value seen
        match rest.dropWhile isSpace with
        | ',' :: rest => readEntries? fuel seen rest
        | '\x7d' :: rest => return (seen, rest)
        | _ => none
      | _ => none
    | _ => none

end

/-- The value that a text holds, if it holds one value and nothing else. -/
def read? (s : String) : Option Json :=
  let text := s.toList
  match readValue? (text.length + 1) text with
  | some (j, rest) => if rest.all isSpace then some j else none
  | none => none

end SymbolGraph.Json
