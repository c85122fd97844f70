import Mathlib.Data.List.Basic
import SymbolGraph.Proofs.Text.Elements
import SymbolGraph.Text.CharClass

/-!
# Lexemes and words of type strings

The tokens of a text in Go (`lexemes`): white space and comments fall away, a name and a number
reach as far as they can, and of the operators the longest one is taken. Quoted literals are not
told apart; no type string has any.

A package path is no token but a run of tokens. Between the tokens of a type string it can be seen
where one word ends and the next one begins (`isApart`), so that the words are a function of the
tokens (`wordsOf`). What the words of a text are is shown word by word: a mark (`wordsOf_mark`), a
name (`wordsOf_name`), a number (`wordsOf_number`), and a name with its package path
(`wordsOf_run`), which stays one word if the path looks like one (`IsImportPath`).
-/

namespace SymbolGraph.Go

open Text

/-- A token as it is written. -/
abbrev Lexeme := List Char

/-- What holds of all characters of a list is decided along the list, and not for all characters
that there are. -/
scoped instance decidableForallMem {l : List Char} {p : Char → Prop} [DecidablePred p] :
    Decidable (∀ c ∈ l, p c) := List.decidableBAll p l

variable {c : Char} {text more front op : List Char} {p : Char → Bool}

/-! ## Characters -/

/-- Characters that names begin with. -/
def isNameStart (c : Char) : Bool := c = '_' || isLetter c

/-- Characters that names go on with. -/
def isNameRest (c : Char) : Bool := isNameStart c || isDigit c

/-- White space between tokens. -/
def isSpace (c : Char) : Bool := c = ' ' || c = '\t' || c = '\n' || c = '\r'

/-- Digits that numbers begin with. -/
def isDecimal (c : Char) : Bool := '0' ≤ c && c ≤ '9'

/-- Characters of a decimal, octal or binary number. -/
def isDecimalPart (c : Char) : Bool := isDecimal c || c = '_'

/-- Characters of a hexadecimal number. -/
def isHexPart (c : Char) : Bool :=
  isDecimalPart c || ('a' ≤ c && c ≤ 'f') || ('A' ≤ c && c ≤ 'F')

/-- The words that are no names. -/
def keywords : List String :=
  ["break", "case", "chan", "const", "continue", "default", "defer", "else", "fallthrough", "for",
    "func", "go", "goto", "if", "import", "interface", "map", "package", "range", "return",
    "select", "struct", "switch", "type", "var"]

/-- A letter or underscore, then letters, digits and underscores, and no keyword. -/
structure IsIdentifier (name : String) : Prop where
  begins : ∃ c ∈ name.toList.head?, isNameStart c = true
  consists : ∀ c ∈ name.toList, isNameRest c = true
  free : name ∉ keywords

/-! ## Tokens -/

/-- The operators of more than one character, longer ones first. -/
def operators : List (List Char) :=
  ["<<=", ">>=", "&^=", "...", "<<", ">>", "&^", "+=", "-=", "*=", "/=", "%=", "&=", "|=", "^=",
    "&&", "||", "<-", "++", "--", "==", "!=", "<=", ">=", ":="].map String.toList

/-- The length of the white space or comment that a text begins with. -/
def gapLength (text : List Char) : Nat :=
  if text.head?.any isSpace then 1
  else match stripStart? ['/', '/'] text with
    | some body => (body.takeWhile (· ≠ '\n')).length + 2
    | none => match stripStart? ['/', '*'] text with
      | some body => match splitFirst? ['*', '/'] body with
        | some (inside, _) => inside.length + 4
        | none => body.length + 2
      | none => 0

/-- A text behind its first character, if that is one of some characters. -/
def skip? (chars : List Char) : (text : List Char) → Option (List Char)
  | [] => none
  | c :: rest => if c ∈ chars then some rest else none

/-- What the digits of a number are, and where they begin. -/
def digitsOf (text : List Char) : (Char → Bool) × List Char :=
  match skip? ['0'] text with
  | none => (isDecimalPart, text)
  | some rest =>
    match skip? ['x', 'X'] rest with
    | some digits => (isHexPart, digits)
    | none => (isDecimalPart, (skip? ['o', 'O', 'b', 'B'] rest).getD rest)

/-- What follows a fraction, if there is one. -/
def afterFraction (isPart : Char → Bool) (text : List Char) : List Char :=
  ((skip? ['.'] text).map (List.dropWhile isPart)).getD text

/-- What follows an exponent, if there is one. -/
def afterExponent (text : List Char) : List Char :=
  ((skip? ['e', 'E', 'p', 'P'] text).map fun rest =>
    ((skip? ['+', '-'] rest).getD rest).dropWhile isDecimalPart).getD text

/-- What follows the mark of an imaginary number, if there is one. -/
def afterSuffix (text : List Char) : List Char := (skip? ['i'] text).getD text

/-- What follows the number that a text begins with. -/
def afterNumber (text : List Char) : List Char :=
  let (isPart, digits) := digitsOf text
  afterSuffix (afterExponent (afterFraction isPart (digits.dropWhile isPart)))

/-- Whether a text begins with a number: with a digit, or with a dot and a digit. -/
def beginsNumber (text : List Char) : Bool := ((skip? ['.'] text).getD text).head?.any isDecimal

/-- The length of the token that a text begins with. -/
def lexemeLength (text : List Char) : Nat :=
  if text.head?.any isNameStart then (text.takeWhile isNameRest).length
  else if beginsNumber text then text.length - (afterNumber text).length
  else match operators.find? fun op => startsWith op text with
    | some op => op.length
    | none => 1

/-- The tokens of a text from the place on where some characters have been passed over. -/
def lexemesFrom : (skip : Nat) → (text : List Char) → List Lexeme
  | _, [] => []
  | skip + 1, _ :: rest => lexemesFrom skip rest
  | 0, c :: rest =>
    match gapLength (c :: rest) with
    | skip + 1 => lexemesFrom skip rest
    | 0 =>
      let length := lexemeLength (c :: rest)
      (c :: rest).take length :: lexemesFrom (length - 1) rest

/-- The tokens of a text. -/
def lexemes (text : List Char) : List Lexeme := lexemesFrom 0 text

/-- Characters that are passed over belong to no token. -/
theorem lexemesFrom_eq (skip : Nat) (text : List Char) :
    lexemesFrom skip text = lexemes (text.drop skip) := by
  induction skip generalizing text with
  | zero => rfl
  | succ skip ih =>
    cases text with
    | nil => rfl
    | cons c rest => exact ih rest

/-- A text falls into its first token and those of what follows. -/
theorem lexemes_append {l : Lexeme} (hne : l ≠ []) (hgap : gapLength (l ++ text) = 0)
    (hlength : lexemeLength (l ++ text) = l.length) :
    lexemes (l ++ text) = l :: lexemes text := by
  obtain ⟨c, rest, rfl⟩ := List.exists_cons_of_ne_nil hne
  rw [List.cons_append] at hgap hlength ⊢
  rw [lexemes, lexemesFrom]
  simp only [hgap, hlength]
  rw [lexemesFrom_eq, ← List.cons_append, List.take_left, List.length_cons, Nat.add_sub_cancel,
    List.drop_left]

/-! ## Words -/

/-- The marks of one character that stand between the words of a type string. -/
def signs : List Char := "*[](),;\x7b\x7d".toList

/-- The marks that stand between the words of a type string. -/
def marks : List Lexeme := signs.map (fun c => [c]) ++ ["<-".toList, "...".toList]

/-- Whether two tokens that follow one another belong to different words of a type string: one of
them is a mark, or the first one is a name and would have gone on into the second one. -/
def isApart (x y : Lexeme) : Bool :=
  x ∈ marks || y ∈ marks || (x.head?.any isNameStart && y.head?.any isNameRest)

/-- Puts a token in front of the first word. -/
def glue (x : Lexeme) : (words : List (List Char)) → List (List Char)
  | [] => [x]
  | word :: words => (x ++ word) :: words

/-- Tokens put together to the words of a type string. -/
def regroup : List Lexeme → List (List Char)
  | [] => []
  | [x] => [x]
  | x :: y :: rest => if isApart x y then x :: regroup (y :: rest) else glue x (regroup (y :: rest))

/-- The words of a text. -/
def wordsOf (text : List Char) : List (List Char) := regroup (lexemes text)

/-- A token that belongs to another word than the next one is a word. -/
theorem regroup_cons {x : Lexeme} {rest : List Lexeme} (h : ∀ y ∈ rest.head?, isApart x y = true) :
    regroup (x :: rest) = x :: regroup rest := by
  cases rest with
  | nil => rfl
  | cons y rest => rw [regroup, if_pos (h y rfl)]

/-- A place in a type string where a name ends: what follows begins with a mark or with a character
that names go on with, blanks between. -/
def Parted (text : List Char) : Prop :=
  ∀ y ∈ (lexemes text).head?, y ∈ marks ∨ y.head?.any isNameRest = true

/-- A blank changes nothing about where a name ends. -/
theorem parted_space (h : Parted text) : Parted (' ' :: text) := h

/-- A blank is no word. -/
theorem wordsOf_space (text : List Char) : wordsOf (' ' :: text) = wordsOf text := rfl

/-! ### Marks -/

/-- The marks of one character: no token goes on from one of them, `*` before `=` apart. -/
theorem lexemes_sign (h : c ∈ signs) (hnext : c = '*' → text.head? ≠ some '=') :
    lexemes (c :: text) = [c] :: lexemes text := by
  have hchars : isNameStart c = false ∧ isDecimal c = false ∧ isSpace c = false ∧ c ≠ '.' ∧
      c ≠ '/' :=
    (by decide : ∀ c ∈ signs, isNameStart c = false ∧ isDecimal c = false ∧
      isSpace c = false ∧ c ≠ '.' ∧ c ≠ '/') c h
  have hops : ∀ op ∈ operators, op.head? = some c → c = '*' ∧ op.tail = ['='] :=
    (by decide : ∀ c ∈ signs, ∀ op ∈ operators, op.head? = some c → c = '*' ∧ op.tail = ['=']) c h
  obtain ⟨hname, hdecimal, hspace, hdot, hslash⟩ := hchars
  refine lexemes_append (l := [c]) (by simp) ?_ ?_
  · simp [gapLength, hspace, stripStart?, Ne.symm hslash]
  · have hnumber : beginsNumber (c :: text) = false := by
      simp [beginsNumber, skip?, hdot, hdecimal]
    have hfind : operators.find? (fun op => startsWith op (c :: text)) = none := by
      refine List.find?_eq_none.mpr fun op hmem hstarts => ?_
      obtain ⟨rest, hrest⟩ := startsWith_iff.mp hstarts
      cases op with
      | nil => exact absurd hmem (by decide)
      | cons d tail =>
        obtain ⟨rfl, rfl⟩ := List.cons.inj hrest
        obtain ⟨hstar, rfl⟩ := hops _ hmem rfl
        exact hnext hstar rfl
    simp [lexemeLength, hname, hnumber, hfind]

/-- A mark is a token of its own, but for a star before an equality sign. -/
theorem lexemes_mark {m : Lexeme} (h : m ∈ marks) (hnext : m = ['*'] → text.head? ≠ some '=') :
    lexemes (m ++ text) = m :: lexemes text := by
  rcases List.mem_append.mp h with hsign | hlong
  · obtain ⟨c, hc, rfl⟩ := List.mem_map.mp hsign
    exact lexemes_sign hc fun hstar => hnext (hstar ▸ rfl)
  · rcases (by simpa using hlong : m = ['<', '-'] ∨ m = ['.', '.', '.']) with rfl | rfl
    · exact lexemes_append (by decide) rfl rfl
    · exact lexemes_append (by decide) rfl rfl

/-- A mark that is a token is a word. -/
theorem wordsOf_of_lexemes {m : Lexeme} (h : m ∈ marks)
    (hmark : lexemes (m ++ text) = m :: lexemes text) :
    wordsOf (m ++ text) = m :: wordsOf text := by
  rw [wordsOf, hmark, regroup_cons, wordsOf]
  simp [isApart, h]

/-- Every mark but `*` is a word, whatever follows. -/
theorem wordsOf_mark {m : Lexeme} (h : m ∈ marks) (hstar : m ≠ ['*']) :
    wordsOf (m ++ text) = m :: wordsOf text :=
  wordsOf_of_lexemes h (lexemes_mark h fun heq => absurd heq hstar)

/-- A name ends before a mark. -/
theorem parted_mark {m : Lexeme} (h : m ∈ marks) (hstar : m ≠ ['*']) : Parted (m ++ text) := by
  intro y hy
  rw [lexemes_mark h fun heq => absurd heq hstar] at hy
  exact .inl (Option.some.inj hy ▸ h)

/-- The marks of one character are marks. -/
theorem mem_marks_of_mem_signs (h : c ∈ signs) : [c] ∈ marks :=
  List.mem_append_left _ (List.mem_map.mpr ⟨c, h, rfl⟩)

/-- A mark of one character is a word, but for the star, which may go on. -/
theorem wordsOf_sign (h : c ∈ signs) (hstar : c ≠ '*') (text : List Char) :
    wordsOf (c :: text) = [c] :: wordsOf text :=
  wordsOf_mark (m := [c]) (mem_marks_of_mem_signs h) (by simpa using hstar)

/-- A name ends before a mark of one character. -/
theorem parted_sign (h : c ∈ signs) (hstar : c ≠ '*') (text : List Char) : Parted (c :: text) :=
  parted_mark (m := [c]) (mem_marks_of_mem_signs h) (by simpa using hstar)

/-- An arrow is a word. -/
theorem wordsOf_arrow (text : List Char) :
    wordsOf ('<' :: '-' :: text) = ['<', '-'] :: wordsOf text :=
  wordsOf_mark (m := ['<', '-']) (by decide) (by decide)

/-- A name ends before an arrow. -/
theorem parted_arrow (text : List Char) : Parted ('<' :: '-' :: text) :=
  parted_mark (m := ['<', '-']) (by decide) (by decide)

/-- Three dots are a word. -/
theorem wordsOf_dots (text : List Char) :
    wordsOf ('.' :: '.' :: '.' :: text) = ['.', '.', '.'] :: wordsOf text :=
  wordsOf_mark (m := ['.', '.', '.']) (by decide) (by decide)

/-- A name ends before three dots. -/
theorem parted_dots (text : List Char) : Parted ('.' :: '.' :: '.' :: text) :=
  parted_mark (m := ['.', '.', '.']) (by decide) (by decide)

/-- Where a name could end, no `=` follows. -/
theorem Parted.head?_ne (h : Parted text) : text.head? ≠ some '=' := by
  intro hhead
  obtain ⟨rest, rfl⟩ := List.head?_eq_some_iff.mp hhead
  have hgap : gapLength ('=' :: rest) = 0 := rfl
  rw [Parted, lexemes, lexemesFrom, hgap] at h
  -- the token begins with `=`, or would be empty
  have hbegins : ∀ n, (('=' :: rest).take n).head? = some '=' ∨ ('=' :: rest).take n = [] := by
    intro n
    cases n <;> simp
  have hmarks : ∀ m ∈ marks, m.head? ≠ some '=' ∧ m ≠ [] := by decide
  have hother : isNameRest '=' = false := by decide
  rcases h _ rfl with hmark | hname <;> rcases hbegins (lexemeLength ('=' :: rest)) with heq | heq
  · exact (hmarks _ hmark).1 heq
  · exact (hmarks _ hmark).2 heq
  · simp [heq, hother] at hname
  · simp [heq] at hname

/-- A star is a token where a word begins behind it, which is no equality sign. -/
theorem lexemes_star (h : Parted text) : lexemes ('*' :: text) = ['*'] :: lexemes text :=
  lexemes_sign (by decide) fun _ => h.head?_ne

/-- A star is a word where a word begins behind it. -/
theorem wordsOf_star (h : Parted text) : wordsOf ('*' :: text) = ['*'] :: wordsOf text :=
  wordsOf_of_lexemes (m := ['*']) (by decide) (lexemes_star h)

/-- A name ends before a star. -/
theorem parted_star (h : Parted text) : Parted ('*' :: text) := by
  intro y hy
  rw [lexemes_star h] at hy
  exact .inl (Option.some.inj hy ▸ by decide)

/-! ### Names -/

/-- What is taken of a text ends with it if what follows stops the taking. -/
theorem takeWhile_append_stop (h : ∀ c ∈ more.head?, p c = false) :
    (text ++ more).takeWhile p = text.takeWhile p := by
  induction text with
  | nil =>
    cases more with
    | nil => rfl
    | cons c more => simp [h c rfl]
  | cons c text ih => simp [List.takeWhile_cons, ih]

/-- What is dropped of a text ends with it, too. -/
theorem dropWhile_append_stop (h : ∀ c ∈ more.head?, p c = false) :
    (text ++ more).dropWhile p = text.dropWhile p ++ more := by
  induction text with
  | nil =>
    cases more with
    | nil => rfl
    | cons c more => simp [h c rfl]
  | cons c text ih =>
    rw [List.cons_append, List.dropWhile_cons, List.dropWhile_cons, ih]
    split <;> rfl

/-- Whether a word is spelled like a name; keywords are. -/
structure IsNameLike (word : List Char) : Prop where
  begins : ∃ c ∈ word.head?, isNameStart c = true
  consists : ∀ c ∈ word, isNameRest c = true

/-- An identifier is spelled like a name. -/
theorem IsIdentifier.isNameLike {name : String} (h : IsIdentifier name) : IsNameLike name.toList :=
  ⟨h.begins, h.consists⟩

/-- Keywords are spelled like names. -/
theorem isNameLike_of_mem_keywords {word : String} (h : word ∈ keywords) :
    IsNameLike word.toList := by
  have hall : ∀ word ∈ keywords, word.toList.head?.any isNameStart = true ∧
      ∀ c ∈ word.toList, isNameRest c = true := by decide
  obtain ⟨hbegins, hconsists⟩ := hall word h
  exact ⟨(Option.any_eq_true _ _).mp hbegins, hconsists⟩

/-- Characters that names begin with begin neither white space nor a comment. -/
theorem gapLength_of_isNameStart (h : isNameStart c = true) : gapLength (c :: text) = 0 := by
  have hne : ∀ d ∈ [' ', '\t', '\n', '\r', '/'], c ≠ d := by
    rintro d hd rfl
    exact absurd h ((by decide : ∀ c ∈ [' ', '\t', '\n', '\r', '/'], ¬ isNameStart c = true) c hd)
  have hspace : isSpace c = false := by simp_all [isSpace]
  have hslash : c ≠ '/' := hne '/' (by simp)
  simp [gapLength, hspace, stripStart?, Ne.symm hslash]

/-- A name is a token where what follows does not continue it. -/
theorem lexemes_name {word : Lexeme} (h : IsNameLike word)
    (hnext : ∀ c ∈ text.head?, isNameRest c = false) :
    lexemes (word ++ text) = word :: lexemes text := by
  obtain ⟨c, hc, hstart⟩ := h.begins
  obtain ⟨rest, rfl⟩ := List.head?_eq_some_iff.mp hc
  refine lexemes_append (List.cons_ne_nil c rest) (gapLength_of_isNameStart hstart) ?_
  have htake : ((c :: rest) ++ text).takeWhile isNameRest = c :: rest := by
    rw [takeWhile_append_stop hnext, ← List.append_nil (c :: rest),
      List.takeWhile_append_of_pos h.consists, List.takeWhile_nil]
  rw [lexemeLength, if_pos (by simpa using hstart), htake]

/-- A name is a word where it is parted from what follows. -/
theorem wordsOf_name {word : List Char} (h : IsNameLike word)
    (hnext : ∀ c ∈ text.head?, isNameRest c = false) (hparted : Parted text) :
    wordsOf (word ++ text) = word :: wordsOf text := by
  rw [wordsOf, lexemes_name h hnext, regroup_cons, wordsOf]
  intro y hy
  obtain ⟨c, hc, hstart⟩ := h.begins
  rcases hparted y hy with hmark | hrest
  · simp [isApart, hmark]
  · simp [isApart, hrest, Option.mem_def.mp hc, hstart]

/-- A name ends before another one. -/
theorem parted_name {word : List Char} (h : IsNameLike word)
    (hnext : ∀ c ∈ text.head?, isNameRest c = false) : Parted (word ++ text) := by
  intro y hy
  rw [lexemes_name h hnext] at hy
  obtain rfl := Option.some.inj hy
  obtain ⟨c, hc, -⟩ := h.begins
  refine .inr ?_
  rw [Option.mem_def.mp hc]
  exact h.consists c (List.mem_of_mem_head? hc)

/-! ### Numbers -/

/-- The characters that a type in a type string is followed by. -/
def stops : List Char := ",)];\x7d".toList

/-- Behind a type in a type string: at the end, or before one of the characters that types are
followed by. -/
def Stops (text : List Char) : Prop := ∀ c ∈ text.head?, c ∈ stops

/-- What follows a type begins with none of the characters in question, so a text in front of it
decides. -/
theorem head?_append_stops (hp : ∀ c ∈ stops, p c = false) (hmore : Stops more) :
    (text ++ more).head?.any p = text.head?.any p := by
  cases text with
  | cons c text => rfl
  | nil =>
    cases more with
    | nil => rfl
    | cons c more => exact hp c (hmore c rfl)

/-- Dropping characters of a text ends before what follows a type. -/
theorem dropWhile_append_stops (hp : ∀ c ∈ stops, p c = false) (hmore : Stops more) :
    (text ++ more).dropWhile p = text.dropWhile p ++ more :=
  dropWhile_append_stop fun c hc => hp c (hmore c hc)

/-- A character is skipped in a text or not, whatever follows a type. -/
theorem skip?_append {chars : List Char} (hchars : ∀ c ∈ stops, c ∉ chars) (hmore : Stops more) :
    skip? chars (text ++ more) = (skip? chars text).map (· ++ more) := by
  cases text with
  | cons c text =>
    rw [List.cons_append, skip?, skip?]
    split <;> rfl
  | nil =>
    cases more with
    | nil => rfl
    | cons c more => simp [skip?, hchars c (hmore c rfl)]

/-- What is left behind a skipped character is an ending. -/
theorem suffix_of_skip? {chars rest : List Char} (h : skip? chars text = some rest) :
    rest <:+ text := by
  cases text with
  | nil => cases h
  | cons c text =>
    rw [skip?, Option.ite_none_right_eq_some] at h
    exact Option.some.inj h.2 ▸ List.suffix_cons c text

/-- What the digits are is told before what follows a type. -/
theorem digitsOf_append (hmore : Stops more) :
    digitsOf (text ++ more) = ((digitsOf text).1, (digitsOf text).2 ++ more) := by
  rw [digitsOf, digitsOf, skip?_append (by decide) hmore]
  cases skip? ['0'] text with
  | none => rfl
  | some rest =>
    simp only [Option.map_some]
    rw [skip?_append (by decide) hmore]
    cases skip? ['x', 'X'] rest with
    | some digits => rfl
    | none =>
      simp only [Option.map_none]
      rw [skip?_append (by decide) hmore]
      cases skip? ['o', 'O', 'b', 'B'] rest <;> rfl

/-- Whether a number begins is told before what follows a type. -/
theorem beginsNumber_append (hmore : Stops more) :
    beginsNumber (text ++ more) = beginsNumber text := by
  rw [beginsNumber, beginsNumber, skip?_append (by decide) hmore]
  cases skip? ['.'] text with
  | none => exact head?_append_stops (by decide) hmore
  | some rest => exact head?_append_stops (by decide) hmore

/-- The digits of a number are decimal or hexadecimal ones. -/
theorem digitsOf_cases (text : List Char) :
    (digitsOf text).1 = isDecimalPart ∨ (digitsOf text).1 = isHexPart := by
  rw [digitsOf]
  split
  · exact .inl rfl
  · split
    · exact .inr rfl
    · exact .inl rfl

/-- The digits are an ending. -/
theorem digitsOf_suffix (text : List Char) : (digitsOf text).2 <:+ text := by
  rw [digitsOf]
  split
  · exact List.suffix_rfl
  · next rest hrest =>
    refine List.IsSuffix.trans ?_ (suffix_of_skip? hrest)
    split
    · next digits hdigits => exact suffix_of_skip? hdigits
    · cases hskip : skip? ['o', 'O', 'b', 'B'] rest with
      | none => exact List.suffix_rfl
      | some digits => exact suffix_of_skip? hskip

/-- A fraction ends before what follows a type. -/
theorem afterFraction_append {isPart : Char → Bool} (hp : ∀ c ∈ stops, isPart c = false)
    (hmore : Stops more) :
    afterFraction isPart (text ++ more) = afterFraction isPart text ++ more := by
  rw [afterFraction, afterFraction, skip?_append (by decide) hmore]
  cases skip? ['.'] text with
  | none => rfl
  | some rest => exact dropWhile_append_stops hp hmore

/-- An exponent ends before what follows a type. -/
theorem afterExponent_append (hmore : Stops more) :
    afterExponent (text ++ more) = afterExponent text ++ more := by
  rw [afterExponent, afterExponent, skip?_append (by decide) hmore]
  cases skip? ['e', 'E', 'p', 'P'] text with
  | none => rfl
  | some rest =>
    simp only [Option.map_some, Option.getD_some]
    rw [skip?_append (by decide) hmore]
    cases skip? ['+', '-'] rest with
    | none => exact dropWhile_append_stops (by decide) hmore
    | some digits => exact dropWhile_append_stops (by decide) hmore

/-- The mark of an imaginary number stands before what follows a type. -/
theorem afterSuffix_append (hmore : Stops more) :
    afterSuffix (text ++ more) = afterSuffix text ++ more := by
  rw [afterSuffix, afterSuffix, skip?_append (by decide) hmore]
  cases skip? ['i'] text <;> rfl

/-- No number reaches beyond the end of a type. -/
theorem afterNumber_append (hmore : Stops more) :
    afterNumber (text ++ more) = afterNumber text ++ more := by
  have hpart : ∀ c ∈ stops, (digitsOf text).1 c = false := by
    rcases digitsOf_cases text with h | h <;> rw [h] <;> decide
  simp only [afterNumber, digitsOf_append hmore, dropWhile_append_stops hpart hmore,
    afterFraction_append hpart hmore, afterExponent_append hmore, afterSuffix_append hmore]

/-- What follows a fraction is an ending. -/
theorem afterFraction_suffix (isPart : Char → Bool) (text : List Char) :
    afterFraction isPart text <:+ text := by
  rw [afterFraction]
  cases hskip : skip? ['.'] text with
  | none => exact List.suffix_rfl
  | some rest => exact (List.dropWhile_suffix isPart).trans (suffix_of_skip? hskip)

/-- What follows an exponent is an ending. -/
theorem afterExponent_suffix (text : List Char) : afterExponent text <:+ text := by
  rw [afterExponent]
  cases hskip : skip? ['e', 'E', 'p', 'P'] text with
  | none => exact List.suffix_rfl
  | some rest =>
    refine (List.dropWhile_suffix isDecimalPart).trans
      (List.IsSuffix.trans ?_ (suffix_of_skip? hskip))
    cases hsign : skip? ['+', '-'] rest with
    | none => exact List.suffix_rfl
    | some digits => exact suffix_of_skip? hsign

/-- What follows the mark of an imaginary number is an ending. -/
theorem afterSuffix_suffix (text : List Char) : afterSuffix text <:+ text := by
  rw [afterSuffix]
  cases hskip : skip? ['i'] text with
  | none => exact List.suffix_rfl
  | some rest => exact suffix_of_skip? hskip

/-- A number is some of the text that it begins. -/
theorem afterNumber_suffix (text : List Char) :
    afterNumber text <:+ afterFraction (digitsOf text).1
      ((digitsOf text).2.dropWhile (digitsOf text).1) :=
  (afterSuffix_suffix _).trans (afterExponent_suffix _)

/-- The digit that a number begins with is passed over. -/
theorem length_digits_le {rest : List Char} (hc : isDecimal c = true) :
    ((digitsOf (c :: rest)).2.dropWhile (digitsOf (c :: rest)).1).length ≤ rest.length := by
  by_cases hzero : c = '0'
  · have hsuffix : (digitsOf (c :: rest)).2 <:+ rest := by
      subst hzero
      have hskip : skip? ['0'] ('0' :: rest) = some rest := rfl
      simp only [digitsOf, hskip]
      split
      · next digits hdigits => exact suffix_of_skip? hdigits
      · cases hskip : skip? ['o', 'O', 'b', 'B'] rest with
        | none => exact List.suffix_rfl
        | some digits => exact suffix_of_skip? hskip
    exact ((List.dropWhile_suffix _).trans hsuffix).length_le
  · have hdigits : digitsOf (c :: rest) = (isDecimalPart, c :: rest) := by
      simp [digitsOf, skip?, hzero]
    rw [hdigits, List.dropWhile_cons_of_pos (by simp [isDecimalPart, hc])]
    exact (List.dropWhile_suffix _).length_le

/-- A number has a character. -/
theorem length_afterNumber_lt (h : beginsNumber text = true) :
    (afterNumber text).length < text.length := by
  refine Nat.lt_of_le_of_lt (afterNumber_suffix text).length_le ?_
  cases text with
  | nil => cases h
  | cons c rest =>
    by_cases hdot : c = '.'
    · subst hdot
      have hdigits : digitsOf ('.' :: rest) = (isDecimalPart, '.' :: rest) := rfl
      have hdrop : ('.' :: rest).dropWhile isDecimalPart = '.' :: rest := rfl
      rw [hdigits, hdrop]
      exact Nat.lt_succ_of_le (List.dropWhile_suffix isDecimalPart).length_le
    · have hc : isDecimal c = true := by simpa [beginsNumber, skip?, hdot] using h
      exact Nat.lt_succ_of_le
        (Nat.le_trans (afterFraction_suffix _ _).length_le (length_digits_le hc))

/-- No name begins with a digit. -/
theorem isNameStart_of_isDecimal (h : isDecimal c = true) : isNameStart c = false := by
  simp only [isDecimal, Bool.and_eq_true, decide_eq_true_eq] at h
  have hlow : 48 ≤ c.toNat := h.1
  have hhigh : c.toNat ≤ 57 := h.2
  have hmem : c.toNat ∈ List.range' 48 10 := List.mem_range'_1.mpr ⟨hlow, by omega⟩
  have hletter : isLetter c = false :=
    (by decide : ∀ n ∈ List.range' 48 10, inRanges n CharTable.letters = false) _ hmem
  have hne : c ≠ '_' := by
    rintro rfl
    exact absurd hhigh (by decide)
  simp [isNameStart, hletter, hne]

/-- Digits alone are read as decimal ones, perhaps without a zero at the start. -/
theorem digitsOf_decimal {digits : List Char} (h : ∀ c ∈ digits, isDecimal c = true) :
    (digitsOf digits).1 = isDecimalPart ∧ (digitsOf digits).2 <:+ digits := by
  refine ⟨?_, digitsOf_suffix digits⟩
  rw [digitsOf]
  cases hzero : skip? ['0'] digits with
  | none => rfl
  | some rest =>
    have hstarts : skip? ['x', 'X'] rest = none := by
      cases rest with
      | nil => rfl
      | cons d rest =>
        have hd := h d ((suffix_of_skip? hzero).subset List.mem_cons_self)
        have hne : d ∉ ['x', 'X'] := fun hmem =>
          absurd hd ((by decide : ∀ c ∈ ['x', 'X'], ¬ isDecimal c = true) d hmem)
        rw [skip?, if_neg hne]
    simp [hstarts]

/-- Digits alone are a number as a whole. -/
theorem afterNumber_decimal {digits : List Char} (h : ∀ c ∈ digits, isDecimal c = true) :
    afterNumber digits = [] := by
  obtain ⟨hpart, hsuffix⟩ := digitsOf_decimal h
  have hdrop : (digitsOf digits).2.dropWhile isDecimalPart = [] := by
    have hall : ∀ c ∈ (digitsOf digits).2, isDecimalPart c = true := fun c hc => by
      simp [isDecimalPart, h c (hsuffix.subset hc)]
    rw [← List.append_nil (digitsOf digits).2, List.dropWhile_append_of_pos hall,
      List.dropWhile_nil]
  simp only [afterNumber, hpart, hdrop]
  rfl

/-- A type may be followed by a bracket. -/
theorem stops_bracket : Stops (']' :: text) := fun c hc => by
  obtain rfl := Option.some.inj hc
  decide

/-- The number of elements of an array is a token. -/
theorem lexemes_number {digits : Lexeme} (hne : digits ≠ [])
    (h : ∀ c ∈ digits, isDecimal c = true) :
    lexemes (digits ++ ']' :: text) = digits :: lexemes (']' :: text) := by
  obtain ⟨c, rest, rfl⟩ := List.exists_cons_of_ne_nil hne
  have hc : isDecimal c = true := h c List.mem_cons_self
  have hne' : ∀ d ∈ [' ', '\t', '\n', '\r', '/', '.'], c ≠ d := by
    rintro d hd rfl
    exact absurd hc
      ((by decide : ∀ c ∈ [' ', '\t', '\n', '\r', '/', '.'], ¬ isDecimal c = true) c hd)
  refine lexemes_append hne ?_ ?_
  · have hspace : isSpace c = false := by simp_all [isSpace]
    have hslash : c ≠ '/' := hne' '/' (by simp)
    simp [gapLength, hspace, stripStart?, Ne.symm hslash]
  · have hdot : c ≠ '.' := hne' '.' (by simp)
    have hnumber : beginsNumber (c :: rest ++ ']' :: text) = true := by
      simp [beginsNumber, skip?, hdot, hc]
    rw [lexemeLength, if_neg (by simp [isNameStart_of_isDecimal hc]), if_pos hnumber,
      afterNumber_append stops_bracket, afterNumber_decimal h, List.nil_append, List.length_append,
      Nat.add_sub_cancel]

/-- Digits before a bracket are a word, and so is the bracket. -/
theorem wordsOf_number {digits : List Char} (hne : digits ≠ [])
    (h : ∀ c ∈ digits, isDecimal c = true) :
    wordsOf (digits ++ ']' :: text) = digits :: [']'] :: wordsOf text := by
  have hmark : [']'] ∈ marks := by decide
  have hbracket : lexemes (']' :: text) = [']'] :: lexemes text :=
    lexemes_mark hmark fun heq => absurd heq (by decide)
  rw [wordsOf, lexemes_number hne h, hbracket, regroup_cons, ← hbracket]
  · exact congrArg (digits :: ·) (wordsOf_mark hmark (by decide))
  · intro y hy
    obtain rfl := Option.some.inj hy
    simp [isApart, hmark]

/-! ### Names with their package paths -/

/-- Characters that no package path has. -/
def forbidden : List Char := " \t\n\r!\"#$%&'()*,:;<=>?[\\]^`\x7b|\x7d".toList

/-- Tokens in a row that hold together: no white space, marks or comments among them. -/
structure IsRun (word : List Char) : Prop where
  plain : ∀ c ∈ word, c ∉ forbidden
  comments : ¬ ['/', '/'] <:+: word
  dots : ¬ ['.', '.', '.'] <:+: word

/-- What holds together does so in each part. -/
theorem IsRun.of_infix {word part : List Char} (h : IsRun word) (hpart : part <:+: word) :
    IsRun part where
  plain c hc := h.plain c (hpart.subset hc)
  comments hinside := h.comments (hinside.trans hpart)
  dots hinside := h.dots (hinside.trans hpart)

/-- What looks like the path of a package: it begins with a letter, digit or underscore, has no
empty element, and none of the characters that import paths may not have; with the dot behind it,
it has no three dots in a row. -/
structure IsImportPath (path : String) : Prop where
  begins : ∃ c ∈ path.toList.head?, isNameRest c = true
  plain : ∀ c ∈ path.toList, c ∉ forbidden
  elements : ¬ ['/', '/'] <:+: path.toList
  dots : ¬ ['.', '.', '.'] <:+: path.toList ++ ['.']

/-- A word whose last character does not occur in the second part of a text stands in the first
part. -/
theorem infix_of_infix_append {w front back : List Char} (h : w ++ [c] <:+: front ++ back)
    (hc : c ∉ back) : w ++ [c] <:+: front := by
  obtain ⟨start, rest, heq⟩ := h
  rw [List.append_eq_append_iff] at heq
  rcases heq with ⟨more, hfront, hback⟩ | ⟨more, hfront, hback⟩
  · exact ⟨start, more, hfront.symm⟩
  · rcases List.eq_nil_or_concat' more with rfl | ⟨more, d, rfl⟩
    · exact ⟨start, [], by simpa using hfront⟩
    · rw [← List.append_assoc, ← List.append_assoc] at hfront
      obtain ⟨-, hlast⟩ := List.append_inj' hfront rfl
      obtain rfl := List.singleton_inj.mp hlast
      exact absurd (by rw [hback]; simp) hc

/-- A path, a dot and a name hold together. -/
theorem isRun_qualified {path name : String} (hpath : IsImportPath path)
    (hname : IsIdentifier name) : IsRun (path.toList ++ '.' :: name.toList) := by
  have hrest : ∀ c ∈ forbidden ++ ['/', '.'], c ∉ name.toList := fun c hc hmem =>
    absurd (hname.consists c hmem)
      ((by decide : ∀ c ∈ forbidden ++ ['/', '.'], ¬ isNameRest c = true) c hc)
  have hsplit : path.toList ++ '.' :: name.toList = (path.toList ++ ['.']) ++ name.toList := by simp
  refine ⟨fun c hc => ?_, fun hinside => ?_, fun hinside => ?_⟩
  · rcases List.mem_append.mp hc with hc | hc
    · exact hpath.plain c hc
    · rcases List.mem_cons.mp hc with rfl | hc
      · decide
      · exact fun hmem => hrest c (List.mem_append_left _ hmem) hc
  · have hslash : '/' ∉ '.' :: name.toList := by simpa using hrest '/' (by simp)
    exact hpath.elements (infix_of_infix_append (w := ['/']) hinside hslash)
  · rw [hsplit] at hinside
    exact hpath.dots (infix_of_infix_append (w := ['.', '.']) hinside (hrest '.' (by simp)))

/-- An operator that has no character of what follows is found in the text before. -/
theorem prefix_of_prefix_append {word : List Char} (h : op <+: word ++ more)
    (hmore : ∀ c ∈ more.head?, c ∉ op) : op <+: word := by
  induction word generalizing op with
  | nil =>
    cases op with
    | nil => exact List.prefix_refl []
    | cons c op =>
      obtain ⟨rest, rfl⟩ := h
      exact absurd List.mem_cons_self (hmore c rfl)
  | cons c word ih =>
    cases op with
    | nil => exact List.nil_prefix
    | cons d op =>
      obtain ⟨rfl, hop⟩ := List.cons_prefix_cons.mp h
      exact List.cons_prefix_cons.mpr
        ⟨rfl, ih hop fun c hc hmem => hmore c hc (List.mem_cons_of_mem _ hmem)⟩

variable {word : List Char}

/-- Neither white space nor a comment begins where tokens hold together. -/
theorem gapLength_run (h : IsRun word) (hne : word ≠ []) (hmore : Stops more) :
    gapLength (word ++ more) = 0 := by
  obtain ⟨c, rest, rfl⟩ := List.exists_cons_of_ne_nil hne
  have hspace : isSpace c = false := by
    have hc := h.plain c List.mem_cons_self
    have hall : ∀ d ∈ [' ', '\t', '\n', '\r'], c ≠ d := by
      rintro d hd rfl
      exact hc ((by decide : ∀ c ∈ [' ', '\t', '\n', '\r'], c ∈ forbidden) c hd)
    simp_all [isSpace]
  have hline : stripStart? ['/', '/'] (c :: rest ++ more) = none := by
    by_contra hsome
    have hstarts := startsWith_iff.mp (Option.ne_none_iff_isSome.mp hsome)
    refine h.comments (prefix_of_prefix_append hstarts fun c hc => ?_).isInfix
    exact (by decide : ∀ c ∈ stops, c ∉ ['/', '/']) c (hmore c hc)
  have hblock : stripStart? ['/', '*'] (c :: rest ++ more) = none := by
    by_contra hsome
    have hstarts := startsWith_iff.mp (Option.ne_none_iff_isSome.mp hsome)
    have hword : ['/', '*'] <+: c :: rest := prefix_of_prefix_append hstarts fun c hc =>
      (by decide : ∀ c ∈ stops, c ∉ ['/', '*']) c (hmore c hc)
    exact h.plain '*' (hword.subset (by simp)) (by decide)
  simp only [gapLength, List.cons_append, List.head?_cons, Option.any_some, hspace]
    at hline hblock ⊢
  simp [hline, hblock]

/-- A token that is no name ends before a type does. -/
theorem lexemeLength_other (hne : word ≠ []) (hmore : Stops more)
    (hname : word.head?.any isNameStart = false) :
    0 < lexemeLength (word ++ more) ∧ lexemeLength (word ++ more) ≤ word.length := by
  rw [lexemeLength, head?_append_stops (by decide) hmore, hname, if_neg Bool.false_ne_true]
  rw [beginsNumber_append hmore]
  cases hnumber : beginsNumber word with
  | true =>
    have hlt := length_afterNumber_lt hnumber
    rw [if_pos rfl, afterNumber_append hmore, List.length_append, List.length_append]
    omega
  | false =>
    rw [if_neg Bool.false_ne_true]
    have hpos : 0 < word.length := List.length_pos_iff.mpr hne
    cases hfind : operators.find? fun op => startsWith op (word ++ more) with
    | none => exact ⟨Nat.one_pos, hpos⟩
    | some op =>
      have hop : op ∈ operators := List.mem_of_find?_eq_some hfind
      have hwithin : op <+: word := by
        have hstarts : startsWith op (word ++ more) = true := by simpa using List.find?_some hfind
        refine prefix_of_prefix_append (startsWith_iff.mp hstarts) fun c hc => ?_
        exact (by decide : ∀ c ∈ stops, ∀ op ∈ operators, c ∉ op) c (hmore c hc) op hop
      refine ⟨?_, hwithin.length_le⟩
      exact (by decide : ∀ op ∈ operators, 0 < op.length) op hop

/-- The first token of a run is part of it, and a name is as long as it can be. -/
theorem exists_lexemeLength (hne : word ≠ []) (hmore : Stops more) :
    ∃ l rest, l ≠ [] ∧ word = l ++ rest ∧ lexemeLength (word ++ more) = l.length ∧
      ∀ c ∈ l.head?, isNameStart c = true → ∀ d ∈ rest.head?, isNameRest d = false := by
  cases hname : word.head?.any isNameStart with
  | true =>
    have hstop : ∀ c ∈ more.head?, isNameRest c = false := fun c hc =>
      (by decide : ∀ c ∈ stops, isNameRest c = false) c (hmore c hc)
    refine ⟨word.takeWhile isNameRest, word.dropWhile isNameRest, ?_,
      List.takeWhile_append_dropWhile.symm, ?_, fun _ _ _ d hd => ?_⟩
    · cases word with
      | nil => exact absurd rfl hne
      | cons c rest =>
        have hc : isNameRest c = true := by
          simp only [List.head?_cons, Option.any_some] at hname
          simp [isNameRest, hname]
        simp [hc]
    · rw [lexemeLength, head?_append_stops (by decide) hmore, if_pos hname,
        takeWhile_append_stop hstop]
    · have hhead := List.head?_dropWhile_not isNameRest word
      rw [Option.mem_def.mp hd] at hhead
      simpa using hhead
  | false =>
    obtain ⟨hpos, hle⟩ := lexemeLength_other hne hmore hname
    generalize lexemeLength (word ++ more) = n at *
    have hlength : (word.take n).length = n := by rw [List.length_take, Nat.min_eq_left hle]
    refine ⟨word.take n, word.drop n, List.ne_nil_of_length_pos (by omega),
      (List.take_append_drop n word).symm, hlength.symm, fun c hc hstart => ?_⟩
    rw [List.head?_take, if_neg (Nat.pos_iff_ne_zero.mp hpos)] at hc
    rw [Option.mem_def.mp hc, Option.any_some, hstart] at hname
    cases hname

/-- The first token of a run, and what follows it. -/
theorem exists_lexeme (h : IsRun word) (hne : word ≠ []) (hmore : Stops more) :
    ∃ l rest, l ≠ [] ∧ word = l ++ rest ∧ lexemes (word ++ more) = l :: lexemes (rest ++ more) ∧
      ∀ c ∈ l.head?, isNameStart c = true → ∀ d ∈ rest.head?, isNameRest d = false := by
  have hgap := gapLength_run h hne hmore
  obtain ⟨l, rest, hl, rfl, hlength, hname⟩ := exists_lexemeLength hne hmore
  rw [List.append_assoc] at hgap hlength ⊢
  exact ⟨l, rest, hl, rfl, lexemes_append hl hgap hlength, hname⟩

/-- No mark is part of a run. -/
theorem IsRun.not_mem_marks {l : Lexeme} (h : IsRun l) : l ∉ marks := by
  intro hmark
  rcases List.mem_append.mp hmark with hsign | hlong
  · obtain ⟨c, hc, rfl⟩ := List.mem_map.mp hsign
    exact h.plain c List.mem_cons_self ((by decide : ∀ c ∈ signs, c ∈ forbidden) c hc)
  · rcases (by simpa using hlong : l = ['<', '-'] ∨ l = ['.', '.', '.']) with rfl | rfl
    · exact h.plain '<' List.mem_cons_self (by decide)
    · exact h.dots List.infix_rfl

/-- What types are followed by is a mark. -/
theorem mem_marks_of_stops (h : Stops more) : ∀ y ∈ (lexemes more).head?, y ∈ marks := by
  cases more with
  | nil => exact fun y hy => by cases hy
  | cons c more =>
    obtain ⟨hsign, hstar⟩ : c ∈ signs ∧ c ≠ '*' :=
      (by decide : ∀ c ∈ stops, c ∈ signs ∧ c ≠ '*') c (h c rfl)
    intro y hy
    rw [lexemes_sign hsign fun h => absurd h hstar] at hy
    obtain rfl := Option.some.inj hy
    exact List.mem_append_left _ (List.mem_map.mpr ⟨c, hsign, rfl⟩)

/-- Tokens that hold together are one word. -/
theorem wordsOf_run {word : List Char} (h : IsRun word) (hne : word ≠ []) (hmore : Stops more) :
    wordsOf (word ++ more) = word :: wordsOf more := by
  obtain ⟨l, rest, hl, hword, hlexemes, hname⟩ := exists_lexeme h hne hmore
  have hrunl : IsRun l := h.of_infix ⟨[], rest, by simp [hword]⟩
  have hrun : IsRun rest := h.of_infix ⟨l, [], by simp [hword]⟩
  by_cases hrest : rest = []
  · subst hrest
    rw [wordsOf, hlexemes, List.nil_append, regroup_cons, wordsOf, hword, List.append_nil]
    intro y hy
    simp [isApart, mem_marks_of_stops hmore y hy]
  · have ih := wordsOf_run hrun hrest hmore
    obtain ⟨y, rest', hy, hrest', hnext, -⟩ := exists_lexeme hrun hrest hmore
    have hruny : IsRun y := hrun.of_infix ⟨[], rest', by simp [hrest']⟩
    have hjoin : isApart l y = false := by
      have hseam : (l.head?.any isNameStart && y.head?.any isNameRest) = false := by
        obtain ⟨c, l', rfl⟩ := List.exists_cons_of_ne_nil hl
        obtain ⟨d, y', rfl⟩ := List.exists_cons_of_ne_nil hy
        cases hc : isNameStart c with
        | false => simp [hc]
        | true =>
          have hd : isNameRest d = false := hname c rfl hc d (by rw [hrest']; rfl)
          simp [hd]
      simp [isApart, hrunl.not_mem_marks, hruny.not_mem_marks, hseam]
    rw [wordsOf, hnext] at ih
    rw [wordsOf, hlexemes, hnext, regroup, hjoin, if_neg Bool.false_ne_true, ih, hword]
    rfl
termination_by word.length
decreasing_by
  rw [hword, List.length_append]
  have := List.length_pos_iff.mpr hl
  omega

/-- A name ends before what follows a type. -/
theorem parted_of_stops (h : Stops more) : Parted more :=
  fun y hy => .inl (mem_marks_of_stops h y hy)

/-- A name ends before tokens that hold together and begin like a name. -/
theorem parted_run (h : IsRun word) (hbegins : ∃ c ∈ word.head?, isNameRest c = true)
    (hmore : Stops more) : Parted (word ++ more) := by
  obtain ⟨c, hc, hrest⟩ := hbegins
  have hne : word ≠ [] := by
    rintro rfl
    cases hc
  obtain ⟨l, rest, hl, rfl, hlexemes, -⟩ := exists_lexeme h hne hmore
  intro y hy
  rw [hlexemes] at hy
  obtain rfl := Option.some.inj hy
  obtain ⟨d, l', rfl⟩ := List.exists_cons_of_ne_nil hl
  obtain rfl := Option.some.inj hc
  exact .inr hrest

end SymbolGraph.Go
