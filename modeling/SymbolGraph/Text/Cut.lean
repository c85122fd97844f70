/-!
# Cutting and joining text

Operations on texts as lists of characters: taking off a known beginning or ending, splitting
at a character or at the first or last occurrence of a word, joining with a separator,
trimming, and replacing words. Byte lengths are those of the UTF-8 form.

Main statements: `stripStart?_eq_some_iff` and `stripEnd?_eq_some_iff` (a part is taken off
exactly when it is there), `splitOn_eq_listSplitOn` and `join_eq_intercalate` (splitting and
joining are those of lists, so that they are inverse) and `byteLength_append` (byte lengths add
up).
-/

namespace SymbolGraph.Text

/-! ## Beginnings and endings -/

/-- What follows `start` in `text`, if `text` begins with it. -/
def stripStart? : (start text : List Char) → Option (List Char)
  | [], text => some text
  | _ :: _, [] => none
  | p :: start, c :: text => if p = c then stripStart? start text else none

/-- What precedes `ending` in `text`, if `text` ends with it. -/
def stripEnd? (ending text : List Char) : Option (List Char) :=
  (stripStart? ending.reverse text.reverse).map List.reverse

/-- Whether `text` begins with `start`. -/
def startsWith (start text : List Char) : Bool := (stripStart? start text).isSome

/-- Whether `text` ends with `ending`. -/
def endsWith (ending text : List Char) : Bool := (stripEnd? ending text).isSome

/-- Taking a beginning away succeeds exactly where the text begins so. -/
theorem stripStart?_eq_some_iff {start text rest : List Char} :
    stripStart? start text = some rest ↔ text = start ++ rest := by
  induction start generalizing text with
  | nil => simp [stripStart?]
  | cons p start ih =>
    cases text with
    | nil => simp [stripStart?]
    | cons c text =>
      by_cases h : p = c
      · simp [stripStart?, h, ih]
      · simp [stripStart?, h, Ne.symm h]

/-- Taking an ending away succeeds exactly where the text ends so. -/
theorem stripEnd?_eq_some_iff {ending text rest : List Char} :
    stripEnd? ending text = some rest ↔ text = rest ++ ending := by
  simp only [stripEnd?, Option.map_eq_some_iff, stripStart?_eq_some_iff]
  constructor
  · rintro ⟨r, hr, rfl⟩
    simpa using congrArg List.reverse hr
  · rintro rfl
    exact ⟨rest.reverse, by simp, by simp⟩

/-! ## Splitting and joining -/

/-- The pieces of a text between the places where `sep` stands; at least one piece. -/
def splitOn (sep : Char) : List Char → List (List Char)
  | [] => [[]]
  | c :: rest =>
    if c = sep then [] :: splitOn sep rest
    else match splitOn sep rest with
      | [] => [[c]]
      | piece :: pieces => (c :: piece) :: pieces

/-- Pieces with a separator between each two. -/
def join (sep : List Char) : List (List Char) → List Char
  | [] => []
  | [piece] => piece
  | piece :: next :: rest => piece ++ sep ++ join sep (next :: rest)

/-- Strings with a separator between each two. -/
def joinStrings (sep : String) : List String → String
  | [] => ""
  | [piece] => piece
  | piece :: next :: rest => piece ++ sep ++ joinStrings sep (next :: rest)

/-- Splitting a text is the splitting of lists. -/
theorem splitOn_eq_listSplitOn (sep : Char) (text : List Char) :
    splitOn sep text = text.splitOn sep := by
  induction text with
  | nil => rfl
  | cons c rest ih =>
    rw [List.splitOn_cons_eq_if_modifyHead, splitOn, ih]
    by_cases h : c = sep
    · simp [h]
    · cases hs : rest.splitOn sep with
      | nil => exact absurd hs (List.splitOn_ne_nil sep rest)
      | cons piece pieces => simp [h]

/-- Joining pieces is the joining of lists. -/
theorem join_eq_intercalate (sep : List Char) (pieces : List (List Char)) :
    join sep pieces = sep.intercalate pieces := by
  induction pieces with
  | nil => rfl
  | cons piece rest ih =>
    cases rest with
    | nil => exact List.intercalate_singleton.symm
    | cons next rest => rw [join, ih, List.intercalate_cons_cons]

/-- Joining strings is the joining of the library. -/
theorem joinStrings_eq_intercalate (sep : String) (pieces : List String) :
    joinStrings sep pieces = sep.intercalate pieces := by
  induction pieces with
  | nil => exact String.intercalate_nil.symm
  | cons piece rest ih =>
    cases rest with
    | nil => exact String.intercalate_singleton.symm
    | cons next rest => rw [joinStrings, ih, String.intercalate_cons_cons]

/-- Cutting a text leaves a piece, be it an empty one. -/
theorem splitOn_ne_nil (sep : Char) (text : List Char) : splitOn sep text ≠ [] := by
  rw [splitOn_eq_listSplitOn]
  exact List.splitOn_ne_nil sep text

/-- Joining the pieces gives the text back. -/
theorem join_splitOn (sep : Char) (text : List Char) : join [sep] (splitOn sep text) = text := by
  rw [join_eq_intercalate, splitOn_eq_listSplitOn, List.intercalate_splitOn]

/-- The parts before and after the first occurrence of `word`. -/
def splitFirst? (word : List Char) : List Char → Option (List Char × List Char)
  | [] => if word = [] then some ([], []) else none
  | c :: rest =>
    match stripStart? word (c :: rest) with
    | some after => some ([], after)
    | none => (splitFirst? word rest).map fun (before, after) => (c :: before, after)

/-- The parts before and after the last occurrence of `word`. -/
def splitLast? (word : List Char) : List Char → Option (List Char × List Char)
  | [] => if word = [] then some ([], []) else none
  | c :: rest =>
    match splitLast? word rest with
    | some (before, after) => some (c :: before, after)
    | none => (stripStart? word (c :: rest)).map fun after => ([], after)

/-- The first piece of a text cut at `sep`. -/
def firstPiece (sep : Char) (text : List Char) : List Char := text.takeWhile (· ≠ sep)

/-! ## Trimming -/

/-- Drops the characters at the start that satisfy `p`. -/
def trimStart (p : Char → Bool) (text : List Char) : List Char := text.dropWhile p

/-- Drops the characters at the end that satisfy `p`. -/
def trimEnd (p : Char → Bool) : List Char → List Char
  | [] => []
  | c :: rest =>
    match trimEnd p rest with
    | [] => if p c then [] else [c]
    | d :: more => c :: d :: more

/-- Trimming keeps the characters that do not satisfy `p`. -/
theorem mem_trimEnd {p : Char → Bool} {c : Char} {text : List Char} (h : c ∈ text)
    (hc : p c = false) : c ∈ trimEnd p text := by
  induction text with
  | nil => exact h
  | cons d rest ih =>
    unfold trimEnd
    rcases List.mem_cons.mp h with rfl | hrest
    · split
      · simp [hc]
      · exact List.mem_cons_self
    · have hkept := ih hrest
      split
      · rename_i heq
        rw [heq] at hkept
        cases hkept
      · rename_i heq
        rw [heq] at hkept
        exact List.mem_cons_of_mem _ hkept

/-- Drops the characters at both ends that satisfy `p`. -/
def trim (p : Char → Bool) (text : List Char) : List Char := trimStart p (trimEnd p text)

/-- The maximal runs of characters that do not satisfy `p`. -/
def fields (p : Char → Bool) : List Char → List (List Char)
  | [] => []
  | c :: rest =>
    if p c then fields p rest
    else match rest with
      | [] => [[c]]
      | d :: _ =>
        if p d then [c] :: fields p rest
        else match fields p rest with
          | [] => [[c]]
          | word :: words => (c :: word) :: words

/-! ## Replacing -/

/-- Replaces the first occurrence of `word`, if there is one. -/
def replaceFirst (word new text : List Char) : List Char :=
  match splitFirst? word text with
  | some (before, after) => before ++ new ++ after
  | none => text

/-- Drops every occurrence of `word`, leftmost first and without overlaps; `skip` characters
at the start belong to an occurrence that has begun. -/
def removeFrom (word : List Char) : (skip : Nat) → List Char → List Char
  | _, [] => []
  | skip + 1, _ :: rest => removeFrom word skip rest
  | 0, c :: rest =>
    if startsWith word (c :: rest) then removeFrom word (word.length - 1) rest
    else c :: removeFrom word 0 rest

/-- Drops every occurrence of `word`, leftmost first and without overlaps. -/
def removeAll (word text : List Char) : List Char :=
  if word = [] then text else removeFrom word 0 text

/-- Replaces every `old` by `new`. -/
def replaceChar (old new : Char) (text : List Char) : List Char :=
  text.map fun c => if c = old then new else c

/-! ## Bytes -/

/-- The number of bytes of the UTF-8 form. -/
def byteLength : List Char → Nat
  | [] => 0
  | c :: rest => c.utf8Size + byteLength rest

/-- The bytes of two texts in a row are counted one after the other. -/
@[simp] theorem byteLength_append (text more : List Char) :
    byteLength (text ++ more) = byteLength text + byteLength more := by
  induction text with
  | nil => simp [byteLength]
  | cons c rest ih => simp [byteLength, ih, Nat.add_assoc]

/-- What follows the first `n` bytes, if a character ends there. -/
def dropBytes? : Nat → List Char → Option (List Char)
  | 0, text => some text
  | _ + 1, [] => none
  | n + 1, c :: rest => if c.utf8Size ≤ n + 1 then dropBytes? (n + 1 - c.utf8Size) rest else none

/-- The first `n` bytes, if a character ends there. -/
def takeBytes? : Nat → List Char → Option (List Char)
  | 0, _ => some []
  | _ + 1, [] => none
  | n + 1, c :: rest =>
    if c.utf8Size ≤ n + 1 then (takeBytes? (n + 1 - c.utf8Size) rest).map (c :: ·) else none

end SymbolGraph.Text
