import Mathlib.Data.List.Basic
import Mathlib.Data.List.Forall2
import Mathlib.Data.List.Infix
import SymbolGraph.Comment.Html
import SymbolGraph.Proofs.Text.Elements

/-!
# What rendered comments display

Rendered text is read back by rules (`Displays`): a character that is no markup stands for itself,
an entity for its character, and a link for the address that both its target and its label stand
for. What the rules do not read displays nothing, so that no other tag and no stray quote, bracket
or ampersand is in a text that displays something; and what it displays is unique
(`Displays.unique`). A line is cut into addresses, words and what is left, all of it (`Cuts`), and
no cut parts a pair of quotes, so that the pieces of a line together display the line
(`displays_renderLine`), and each element its block (`shows_toHtml`).
-/

namespace SymbolGraph.Comment

open Text

variable {c : Char} {line url text front back : List Char} {taken after : List Char}
  {html html' text' : List Char} {made : List Piece} {linked curly : Bool}

/-! ## Addresses -/

/-- The characters of an address behind its scheme. -/
def IsAddressChar (c : Char) : Prop :=
  isHostChar c = true ∨ isPathChar c = true ∨ c = '.' ∨ c = ':' ∨ c = ','

/-- A scheme and `://`, with characters of hosts and paths behind it. -/
structure IsAddress (url : List Char) : Prop where
  scheme : ∃ scheme ∈ schemes, scheme ++ "://".toList <+: url
  chars : ∀ c ∈ url, IsAddressChar c

/-- An address has a scheme, so it is not empty. -/
theorem IsAddress.ne_nil (h : IsAddress url) : url ≠ [] := by
  rintro rfl
  obtain ⟨scheme, -, hscheme⟩ := h.scheme
  simpa using (List.append_eq_nil_iff.mp (List.prefix_nil.mp hscheme)).2

/-- A text that begins with characters of an address, and what follows them. -/
structure Consumes (text taken after : List Char) : Prop where
  text_eq : text = taken ++ after
  chars : ∀ c ∈ taken, IsAddressChar c

/-- One character of an address may be all that is taken. -/
theorem consumes_singleton (hc : IsAddressChar c) (text : List Char) :
    Consumes (c :: text) [c] text where
  text_eq := rfl
  chars := by simpa using hc

/-- A further character of an address may stand in front of what is taken. -/
theorem Consumes.cons (h : Consumes text taken after) (hc : IsAddressChar c) :
    Consumes (c :: text) (c :: taken) after where
  text_eq := by rw [h.text_eq, List.cons_append]
  chars := List.forall_mem_cons.mpr ⟨hc, h.chars⟩

/-- The marks between the runs of a path stand in addresses. -/
theorem isAddressChar_of_pathMark (h : (c == ':' || c == '.' || c == ',') = true) :
    IsAddressChar c := by
  simp only [Bool.or_eq_true, beq_iff_eq] at h
  unfold IsAddressChar
  tauto

/-- The marks between the runs of a host stand in addresses. -/
theorem isAddressChar_of_hostMark (h : (c == '.' || c == ':') = true) : IsAddressChar c := by
  simp only [Bool.or_eq_true, beq_iff_eq] at h
  unfold IsAddressChar
  tauto

/-- A path is a beginning of the text, of characters of addresses. -/
theorem consumes_of_takePath? (h : takePath? text = some (taken, after)) :
    Consumes text taken after := by
  fun_induction takePath? text generalizing taken after with
  | case1 | case3 | case8 => cases h
  | case2 c hc =>
    cases h
    exact consumes_singleton (.inr (.inl hc)) []
  | case4 c mark next hc path rest hrest ih =>
    cases h
    exact (ih hrest).cons (.inr (.inl hc))
  | case5 c mark next hc hnone hmark path rest hrest ih₁ ih =>
    cases h
    exact ((ih hrest).cons (isAddressChar_of_pathMark hmark)).cons (.inr (.inl hc))
  | case6 c mark next hc | case7 c mark next hc =>
    cases h
    exact consumes_singleton (.inr (.inl hc)) _

/-- The rest of a host with its path is a beginning of the text, of characters of addresses. -/
theorem consumes_of_takeHostRest? (h : takeHostRest? text = some (taken, after)) :
    Consumes text taken after := by
  fun_induction takeHostRest? text generalizing taken after with
  | case1 | case5 | case6 | case7 => cases h
  | case2 c rest hc url after hrest ih =>
    cases h
    exact (ih hrest).cons (.inl hc)
  | case3 | case8 => exact consumes_of_takePath? h
  | case4 c hc hmark d next hd url after hrest ih =>
    cases h
    exact ((ih hrest).cons (.inl hd)).cons (isAddressChar_of_hostMark hmark)

/-- A host with its path is a beginning of the text, of characters of addresses. -/
theorem consumes_of_takeHost? (h : takeHost? text = some (taken, after)) :
    Consumes text taken after := by
  unfold takeHost? at h
  split at h
  · cases h
  · obtain ⟨hc, hrest⟩ := Option.ite_none_right_eq_some.mp h
    obtain ⟨⟨url, after⟩, hurl, htaken⟩ := Option.map_eq_some_iff.mp hrest
    cases htaken
    exact (consumes_of_takeHostRest? hurl).cons (.inl hc)

/-- What is taken for an address is one, and stands where the text begins. -/
theorem exists_of_takeUrl? (h : takeUrl? text = some (url, after)) :
    text = url ++ after ∧ IsAddress url := by
  obtain ⟨scheme, hscheme, hfound⟩ := List.exists_of_findSome?_eq_some h
  simp only [Option.bind_eq_bind, Option.bind_eq_some_iff, stripStart?_eq_some_iff,
    Option.pure_def, Option.some.injEq, Prod.exists, Prod.mk.injEq] at hfound
  obtain ⟨behind, rfl, rest, rfl, host, _, hhost, rfl, rfl⟩ := hfound
  have hconsumes := consumes_of_takeHost? hhost
  refine ⟨?_, ⟨scheme, hscheme, List.prefix_append _ _⟩, ?_⟩
  · rw [hconsumes.text_eq, List.append_assoc, List.append_assoc]
  · have hschemes : schemes.all (fun scheme => scheme.all isHostChar) = true := by decide
    have hmark : "://".toList.all (fun c => isPathChar c || c == ':') = true := by decide
    simp only [List.all_eq_true, Bool.or_eq_true, beq_iff_eq] at hschemes hmark
    intro c hc
    rcases List.mem_append.mp hc with hc | hc
    · rcases List.mem_append.mp hc with hc | hc
      · exact .inl (hschemes scheme hscheme c hc)
      · rcases hmark c hc with hpath | hcolon
        · exact .inr (.inl hpath)
        · exact .inr (.inr (.inr (.inl hcolon)))
    · exact hconsumes.chars c hc

/-! ## Pieces -/

/-- Pieces into which a line is cut, in order and without a gap. What is neither an address nor a
word is not cut any further. -/
inductive Cuts : List Piece → Line → Prop
  | nil : Cuts [] []
  | url {url : List Char} {pieces : List Piece} {line : Line} : IsAddress url →
      Cuts pieces line → Cuts (.url url :: pieces) (url ++ line)
  | word {word : List Char} {pieces : List Piece} {line : Line} : word ≠ [] →
      (∀ c ∈ word, isWordRest c = true) → Cuts pieces line →
      Cuts (.word word :: pieces) (word ++ line)
  | other {text : List Char} {pieces : List Piece} {line : Line} :
      (∀ more, pieces.head? ≠ some (.other more)) → Cuts pieces line →
      Cuts (.other text :: pieces) (text ++ line)

/-- A further character before the pieces of a line. -/
theorem Cuts.consOther (h : Cuts made line) (c : Char) : Cuts (consOther c made) (c :: line) := by
  have hother : (∀ more, made.head? ≠ some (.other more)) →
      Cuts (.other [c] :: made) ([c] ++ line) := fun hnext => .other hnext h
  cases h with
  | nil | url | word => exact hother (by simp)
  | other hnext hrest => exact .other hnext hrest

/-- What may start a word may also continue one. -/
theorem isWordRest_of_isWordStart (h : isWordStart c = true) : isWordRest c = true := by
  unfold isWordStart at h
  unfold isWordRest
  rw [h, Bool.true_or]

/-- The pieces are cut from the line without the characters that belong to the piece before. -/
theorem cuts_piecesFrom (skip : Nat) (line : Line) :
    Cuts (piecesFrom skip line) (line.drop skip) := by
  fun_induction piecesFrom skip line with
  | case1 skip =>
    rw [List.drop_nil]
    exact .nil
  | case2 skip c rest ih => exact ih
  | case3 c rest url after hurl ih =>
    obtain ⟨hline, haddress⟩ := exists_of_takeUrl? hurl
    obtain ⟨d, host, rfl⟩ := List.exists_cons_of_ne_nil haddress.ne_nil
    obtain ⟨rfl, hrest⟩ := List.cons.inj hline
    rw [List.length_cons, Nat.add_sub_cancel, hrest, List.append_eq, List.drop_left] at ih
    rw [List.drop_zero, hline, hrest]
    exact .url haddress ih
  | case4 c rest hurl hword more ih =>
    have hmore : ∀ d ∈ c :: more, isWordRest d = true := by
      rw [List.forall_mem_cons]
      exact ⟨isWordRest_of_isWordStart hword, List.all_eq_true.mp List.all_takeWhile⟩
    have hrest : rest = more ++ rest.drop more.length :=
      List.prefix_append_drop (List.takeWhile_prefix _)
    have hcuts := Cuts.word (List.cons_ne_nil c more) hmore ih
    rwa [List.cons_append, ← hrest] at hcuts
  | case5 c rest hurl hword ih => exact ih.consOther c

/-- A line is cut into its pieces. -/
theorem cuts_pieces (line : Line) : Cuts (pieces line) line := cuts_piecesFrom 0 line

/-! ## Text as it is read -/

/-- The quotes that stand in pairs. -/
def IsQuote (c : Char) : Prop := c = '\x60' ∨ c = '\x27'

/-- A character as it is read: NUL as U+FFFD, any other as itself. -/
def shown (c : Char) : Char := if c = '\x00' then '\uFFFD' else c

/-- A text as it is read with curly quotes: from left to right, two backquotes open a quotation
and two apostrophes close one. -/
def curled : List Char → List Char
  | '\x60' :: '\x60' :: rest => '\u201c' :: curled rest
  | '\x27' :: '\x27' :: rest => '\u201d' :: curled rest
  | c :: rest => shown c :: curled rest
  | [] => []

/-- A text as it is read, with curly quotes if `curly`. -/
def reading (curly : Bool) (text : List Char) : List Char :=
  if curly then curled text else text.map shown

/-- The same quote does not stand at the end of the one text and at the start of the other. -/
def Seam (front back : List Char) : Prop :=
  ∀ c, IsQuote c → front.getLast? = some c → back.head? ≠ some c

/-- A seam depends only on the last character of the first text, so a first one may go. -/
theorem Seam.tail (h : Seam (c :: front) back) : Seam front back := by
  intro q hq hlast
  refine h q hq ?_
  rw [List.getLast?_cons, hlast, Option.getD_some]

/-- Curly quotes are set in both parts of a text apart if no pair of quotes stands across the
seam. -/
theorem curled_append (h : Seam front back) :
    curled (front ++ back) = curled front ++ curled back := by
  fun_induction curled front with
  | case1 rest ih =>
    show '\u201c' :: curled (rest ++ back) = _
    rw [ih h.tail.tail, List.cons_append]
  | case2 rest ih =>
    show '\u201d' :: curled (rest ++ back) = _
    rw [ih h.tail.tail, List.cons_append]
  | case3 c rest hopen hclose ih =>
    -- no pair begins here: it would be one already, or the seam would part it
    have hpair : ∀ q, IsQuote q → (∀ more, c = q → rest = q :: more → False) →
        ∀ more, c = q → rest ++ back = q :: more → False := by
      rintro q hq hrest more rfl hback
      cases rest with
      | nil =>
        refine h c hq rfl ?_
        rw [show back = c :: more from hback, List.head?_cons]
      | cons d rest =>
        obtain ⟨rfl, -⟩ := List.cons.inj hback
        exact hrest rest rfl rfl
    rw [List.cons_append, curled, ih h.tail, List.cons_append]
    · exact hpair _ (.inl rfl) hopen
    · exact hpair _ (.inr rfl) hclose
  | case4 => rfl

/-- A text is read in both parts apart if no pair of quotes stands across the seam. -/
theorem reading_append (h : Seam front back) :
    reading curly (front ++ back) = reading curly front ++ reading curly back := by
  cases curly with
  | false => exact List.map_append
  | true => exact curled_append h

/-- A text without quotes has a seam with any other. -/
theorem seam_of_front (h : ∀ c ∈ front, ¬ IsQuote c) : Seam front back := by
  intro c hc hlast
  exact absurd hc (h c (List.mem_of_getLast? hlast))

/-- Where there are no quotes, none become curly. -/
theorem curled_of_forall (h : ∀ c ∈ text, ¬ IsQuote c) : curled text = text.map shown := by
  fun_induction curled text with
  | case1 => simp [IsQuote] at h
  | case2 => simp [IsQuote] at h
  | case3 c rest hopen hclose ih =>
    rw [List.forall_mem_cons] at h
    rw [ih h.2, List.map_cons]
  | case4 => rfl

/-! ## What HTML displays -/

/-- The characters of which markup is made, and those that delimit it. -/
def markup : List Char := ['<', '>', '"', '\x27', '&']

/-- Entities and the characters they stand for. -/
def entities : List (List Char × Char) :=
  [("&#34;".toList, '"'), ("&#39;".toList, '\x27'), ("&amp;".toList, '&'), ("&lt;".toList, '<'),
    ("&gt;".toList, '>'), ("&ldquo;".toList, '\u201c'), ("&rdquo;".toList, '\u201d')]

/-- A link. -/
def linkTo (target label : List Char) : List Char :=
  "<a href=\"".toList ++ target ++ "\">".toList ++ label ++ "</a>".toList

/-- The text that HTML text displays, which may have links if `linked`. -/
inductive Displays : (linked : Bool) → (html text : List Char) → Prop
  | nil {linked : Bool} : Displays linked [] []
  | char {linked : Bool} {c : Char} {html text : List Char} : c ∉ markup →
      Displays linked html text → Displays linked (c :: html) (c :: text)
  | entity {linked : Bool} {name html text : List Char} {c : Char} : (name, c) ∈ entities →
      Displays linked html text → Displays linked (name ++ html) (c :: text)
  | link {target label url html text : List Char} : IsAddress url → Displays false target url →
      Displays false label url → Displays true html text →
      Displays true (linkTo target label ++ html) (url ++ text)

/-- HTML texts that stand in a row display their texts in a row. -/
theorem Displays.append (h : Displays linked html text) (h' : Displays linked html' text') :
    Displays linked (html ++ html') (text ++ text') := by
  induction h with
  | nil => exact h'
  | char hc _ ih => exact .char hc (ih h')
  | entity hname _ ih =>
    rw [List.append_assoc]
    exact .entity hname (ih h')
  | link haddress htarget hlabel _ _ _ ih =>
    rw [List.append_assoc, List.append_assoc]
    exact .link haddress htarget hlabel (ih h')

/-- Text without links holds none of the characters that delimit links. -/
theorem Displays.not_mem (h : Displays false html text) : '<' ∉ html ∧ '"' ∉ html := by
  have hentities : ∀ entity ∈ entities, '<' ∉ entity.1 ∧ '"' ∉ entity.1 := by decide
  generalize hlinked : false = linked at h
  induction h with
  | nil => simp
  | char hc _ ih =>
    simp only [markup, List.mem_cons, not_or] at hc
    simp only [List.mem_cons, not_or]
    exact ⟨⟨Ne.symm hc.1, (ih hlinked).1⟩, Ne.symm hc.2.2.1, (ih hlinked).2⟩
  | entity hname _ ih =>
    simp only [List.mem_append, not_or]
    exact ⟨⟨(hentities _ hname).1, (ih hlinked).1⟩, (hentities _ hname).2, (ih hlinked).2⟩
  | link => cases hlinked

/-- Entities begin with an ampersand. -/
theorem exists_of_entity {name : List Char} (h : (name, c) ∈ entities) :
    ∃ rest, name = '&' :: rest := by
  have hentities : ∀ entity ∈ entities, entity.1.head? = some '&' := by decide
  exact List.head?_eq_some_iff.mp (hentities _ h)

/-- No entity begins with another. -/
theorem entity_cancel {name name' : List Char} {c' : Char} (h : (name, c) ∈ entities)
    (h' : (name', c') ∈ entities) (heq : name ++ html = name' ++ html') :
    c = c' ∧ html = html' := by
  have hentities : ∀ entity ∈ entities, ∀ other ∈ entities,
      entity.1 <+: other.1 → entity = other := by decide
  have hsame : (name, c) = (name', c') := by
    have hprefix := List.prefix_or_prefix_of_prefix (List.prefix_append name html)
      (heq ▸ List.prefix_append name' html')
    rcases hprefix with hprefix | hprefix
    · exact hentities _ h _ h' hprefix
    · exact (hentities _ h' _ h hprefix).symm
  cases hsame
  exact ⟨rfl, List.append_cancel_left heq⟩

/-- A link with what follows it, by its characters that cannot stand in a target or a label. -/
theorem linkTo_append (target label html : List Char) :
    linkTo target label ++ html = '<' :: ("a href=\"".toList ++
      (target ++ '"' :: '>' :: (label ++ '<' :: ("/a>".toList ++ html)))) := by
  have hopen : "<a href=\"".toList = '<' :: "a href=\"".toList := rfl
  have hbetween : "\">".toList = ['"', '>'] := rfl
  have hclose : "</a>".toList = '<' :: "/a>".toList := rfl
  unfold linkTo
  rw [hopen, hbetween, hclose]
  simp only [List.append_assoc, List.cons_append, List.nil_append]

/-- Two links can be told apart from what follows them, since the quotation mark ends the target and
the next angle bracket the label. -/
theorem linkTo_cancel {target label target' label' : List Char} (htarget : '"' ∉ target)
    (htarget' : '"' ∉ target') (hlabel : '<' ∉ label) (hlabel' : '<' ∉ label')
    (heq : linkTo target label ++ html = linkTo target' label' ++ html') :
    target = target' ∧ html = html' := by
  rw [linkTo_append, linkTo_append] at heq
  have hlink := List.append_cancel_left (List.cons.inj heq).2
  obtain ⟨rfl, hbehind⟩ := separator_cancel htarget htarget' hlink
  obtain ⟨rfl, hhtml⟩ := separator_cancel hlabel hlabel' (List.cons.inj hbehind).2
  exact ⟨rfl, List.append_cancel_left hhtml⟩

/-- No HTML displays no text. -/
theorem Displays.of_nil (h : Displays linked [] text) : text = [] := by
  generalize hhtml : [] = html at h
  cases h with
  | nil => rfl
  | char => cases hhtml
  | entity hname =>
    obtain ⟨name, rfl⟩ := exists_of_entity hname
    cases hhtml
  | link =>
    rw [linkTo_append] at hhtml
    cases hhtml

/-- A character that is no markup is read as itself. -/
theorem Displays.of_char (h : Displays linked (c :: html) text) (hc : c ∉ markup) :
    ∃ rest, text = c :: rest ∧ Displays linked html rest := by
  generalize hhtml : c :: html = html' at h
  cases h with
  | nil => cases hhtml
  | char _ hrest =>
    cases hhtml
    exact ⟨_, rfl, hrest⟩
  | entity hname =>
    obtain ⟨name, rfl⟩ := exists_of_entity hname
    cases hhtml
    exact absurd (by decide) hc
  | link =>
    rw [linkTo_append] at hhtml
    cases hhtml
    exact absurd (by decide) hc

/-- An entity is read as the character it stands for. -/
theorem Displays.of_entity {name : List Char} (h : Displays linked (name ++ html) text)
    (hname : (name, c) ∈ entities) : ∃ rest, text = c :: rest ∧ Displays linked html rest := by
  generalize hhtml : name ++ html = html' at h
  obtain ⟨tail, htail⟩ := exists_of_entity hname
  cases h with
  | nil => simp [htail] at hhtml
  | char hc =>
    rw [htail] at hhtml
    cases hhtml
    exact absurd (by decide) hc
  | entity hname' hrest =>
    obtain ⟨rfl, rfl⟩ := entity_cancel hname hname' hhtml
    exact ⟨_, rfl, hrest⟩
  | link =>
    rw [linkTo_append, htail] at hhtml
    cases hhtml

/-- A link is read as the address that its target displays. -/
theorem Displays.of_link {target label : List Char}
    (h : Displays linked (linkTo target label ++ html) text) (htarget : '"' ∉ target)
    (hlabel : '<' ∉ label) :
    ∃ url rest, text = url ++ rest ∧ Displays false target url ∧ Displays linked html rest := by
  generalize hhtml : linkTo target label ++ html = html' at h
  cases h with
  | nil =>
    rw [linkTo_append] at hhtml
    cases hhtml
  | char hc =>
    rw [linkTo_append] at hhtml
    cases hhtml
    exact absurd (by decide) hc
  | entity hname =>
    obtain ⟨name, rfl⟩ := exists_of_entity hname
    rw [linkTo_append] at hhtml
    cases hhtml
  | link _ htarget' hlabel' hrest =>
    obtain ⟨rfl, rfl⟩ := linkTo_cancel htarget htarget'.not_mem.2 hlabel hlabel'.not_mem.1 hhtml
    exact ⟨_, _, rfl, htarget', hrest⟩

/-- No HTML text displays two texts. -/
theorem Displays.unique (h : Displays linked html text) (h' : Displays linked html text') :
    text = text' := by
  induction h generalizing text' with
  | nil => exact h'.of_nil.symm
  | char hc _ ih =>
    obtain ⟨rest, rfl, hrest⟩ := h'.of_char hc
    rw [ih hrest]
  | entity hname _ ih =>
    obtain ⟨rest, rfl, hrest⟩ := h'.of_entity hname
    rw [ih hrest]
  | link _ htarget hlabel _ ihtarget _ ih =>
    obtain ⟨url, rest, rfl, hurl, hrest⟩ := h'.of_link htarget.not_mem.2 hlabel.not_mem.1
    rw [ihtarget hurl, ih hrest]

/-! ## What escaped text displays -/

/-- An entity alone displays its character. -/
theorem displays_entity {name : List Char} (h : (name, c) ∈ entities) :
    Displays linked name [c] := by
  simpa using Displays.entity h .nil

/-- An escaped character displays that character as it is read. -/
theorem displays_escapeChar (c : Char) : Displays linked (escapeChar c) [shown c] := by
  unfold escapeChar
  split_ifs with hdouble hsingle hampersand hless hgreater hnul
  · exact hdouble ▸ displays_entity (by decide)
  · exact hsingle ▸ displays_entity (by decide)
  · exact hampersand ▸ displays_entity (by decide)
  · exact hless ▸ displays_entity (by decide)
  · exact hgreater ▸ displays_entity (by decide)
  · obtain rfl : c = '\x00' := Char.ext (UInt32.toNat_inj.mp hnul)
    exact .char (by decide) .nil
  · have hshown : shown c = c := if_neg fun hc => hnul (congrArg Char.toNat hc)
    have hplain : c ∉ markup := by simp [markup, *]
    rw [hshown]
    exact .char hplain .nil

/-- An escaped text displays the text as it is read. -/
theorem displays_escape (text : List Char) : Displays linked (escape text) (text.map shown) := by
  induction text with
  | nil => exact .nil
  | cons c text ih => exact (displays_escapeChar c).append ih

/-- A text escaped with curly quotes displays the text with curly quotes. -/
theorem displays_escapeQuoting (text : List Char) :
    Displays linked (escapeQuoting text) (curled text) := by
  fun_induction curled text with
  | case1 rest ih =>
    rw [escapeQuoting]
    exact .entity (by decide) ih
  | case2 rest ih =>
    rw [escapeQuoting]
    exact .entity (by decide) ih
  | case3 c rest hopen hclose ih =>
    rw [escapeQuoting]
    · exact (displays_escapeChar c).append ih
    · exact hopen
    · exact hclose
  | case4 => exact .nil

/-- An escaped text displays the reading of the text, curly or not. -/
theorem displays_escapeText (curly : Bool) (text : List Char) :
    Displays linked (escapeText curly text) (reading curly text) := by
  cases curly with
  | false => exact displays_escape text
  | true => exact displays_escapeQuoting text

/-! ## What a line displays -/

/-- No quote stands in an address. -/
theorem IsAddressChar.not_quote (h : IsAddressChar c) : ¬ IsQuote c := by
  unfold IsAddressChar at h
  rintro (rfl | rfl)
  · revert h
    decide
  · revert h
    decide

/-- The characters of addresses are read as they are. -/
theorem IsAddressChar.shown_eq (h : IsAddressChar c) : shown c = c := by
  have hnul : c ≠ '\x00' := by
    rintro rfl
    unfold IsAddressChar at h
    revert h
    decide
  exact if_neg hnul

/-- An address has no quote in it, its scheme included. -/
theorem IsAddress.not_quote (h : IsAddress url) : ∀ c ∈ url, ¬ IsQuote c :=
  fun c hc => (h.chars c hc).not_quote

/-- An address is read as it is. -/
theorem IsAddress.map_shown (h : IsAddress url) : url.map shown = url :=
  (List.map_congr_left fun c hc => (h.chars c hc).shown_eq).trans (List.map_id url)

/-- No quote stands in a word. -/
theorem not_quote_of_isWordRest (h : isWordRest c = true) : ¬ IsQuote c := by
  rintro (rfl | rfl)
  · revert h
    decide +kernel
  · revert h
    decide +kernel

/-- An address reads alike with curly quotes and without. -/
theorem IsAddress.reading_eq (h : IsAddress url) : reading curly url = url := by
  cases curly with
  | false => exact h.map_shown
  | true => exact (curled_of_forall h.not_quote).trans h.map_shown

/-- What is neither an address nor a word takes all the quotes that stand together. -/
theorem Cuts.seam (h : Cuts made line) (hnext : ∀ more, made.head? ≠ some (.other more))
    (text : List Char) : Seam text line := by
  intro c hc _ hhead
  cases h with
  | nil => cases hhead
  | url haddress =>
    rw [List.head?_append_of_ne_nil _ haddress.ne_nil] at hhead
    exact haddress.not_quote c (List.mem_of_head? hhead) hc
  | word hne hword =>
    rw [List.head?_append_of_ne_nil _ hne] at hhead
    exact not_quote_of_isWordRest (hword c (List.mem_of_head? hhead)) hc
  | other => exact hnext _ rfl

/-- The pieces of a line display the line, since no pair of quotes stands across two of them: an
address and a word have no quotes, and no two other texts are adjacent. -/
theorem Cuts.displays (h : Cuts made line) :
    Displays true (made.flatMap (renderPiece curly)) (reading curly line) := by
  induction h with
  | nil => cases curly <;> exact .nil
  | @url url made line haddress _ ih =>
    have htarget : Displays false (escape url) url := by
      simpa only [haddress.map_shown] using displays_escape url
    have hlabel : Displays false (escapeText curly url) url := by
      simpa only [haddress.reading_eq] using displays_escapeText curly url
    rw [reading_append (seam_of_front haddress.not_quote), haddress.reading_eq, List.flatMap_cons]
    exact .link haddress htarget hlabel ih
  | word _ hword _ ih =>
    have hquotes := fun c hc => not_quote_of_isWordRest (hword c hc)
    rw [reading_append (seam_of_front hquotes), List.flatMap_cons]
    exact (displays_escapeText curly _).append ih
  | other hnext hcuts ih =>
    rw [reading_append (hcuts.seam hnext _), List.flatMap_cons]
    exact (displays_escapeText curly _).append ih

/-- A line becomes HTML that displays the line. -/
theorem displays_renderLine (curly : Bool) (line : Line) :
    Displays true (renderLine curly line) (reading curly line) :=
  (cuts_pieces line).displays

/-- Lines become HTML that displays them in their order. -/
theorem displays_lines (curly : Bool) (lines : List Line) :
    Displays true (lines.flatMap (renderLine curly)) (lines.flatMap (reading curly)) := by
  induction lines with
  | nil => exact .nil
  | cons line lines ih => exact (displays_renderLine curly line).append ih

/-! ## Elements -/

/-- HTML text displays a text and no other. -/
def DisplaysOnly (linked : Bool) (html text : List Char) : Prop :=
  ∀ other, Displays linked html other ↔ other = text

/-- HTML displays one text at most, so what it displays is all it displays. -/
theorem Displays.only (h : Displays linked html text) : DisplaysOnly linked html text :=
  fun _ => ⟨fun hother => hother.unique h, fun hsame => hsame ▸ h⟩

/-- The characters that stand in anchors. -/
def IsAnchorChar (c : Char) : Prop := isAsciiAlphanum c = true ∨ c = '_' ∨ c = '-'

/-- The element that a block becomes: its content displays the lines of the block, and it has no
tags but those of links. -/
inductive Shows : (element : List Char) → Block → Prop
  | paragraph {content : List Char} {lines : List Line} :
      DisplaysOnly true content (lines.flatMap curled) →
      Shows ("<p>\n".toList ++ content ++ "</p>\n".toList) (.paragraph lines)
  | heading {id content : List Char} {title : Line} : "hdr-".toList <+: id →
      (∀ c ∈ id, IsAnchorChar c) → DisplaysOnly false content (curled title) →
      Shows ("<h3 id=\"".toList ++ id ++ "\">".toList ++ content ++ "</h3>\n".toList)
        (.heading title)
  | preformatted {content : List Char} {lines : List Line} :
      DisplaysOnly true content (lines.flatMap (List.map shown)) →
      Shows ("<pre>".toList ++ content ++ "</pre>\n".toList) (.preformatted lines)

/-- An anchor has only letters, digits, underscores and hyphens in it. -/
theorem isAnchorChar_of_mem_anchor {title : Line} (h : c ∈ anchor title) : IsAnchorChar c := by
  unfold anchor at h
  have hlead : "hdr-".toList.all (fun c => isAsciiAlphanum c || c == '-') = true := by decide
  simp only [List.all_eq_true, Bool.or_eq_true, beq_iff_eq] at hlead
  rcases List.mem_append.mp h with h | h
  · rcases hlead c h with halphanum | hhyphen
    · exact .inl halphanum
    · exact .inr (.inr hhyphen)
  · obtain ⟨d, -, rfl⟩ := List.mem_map.mp h
    by_cases hd : isAsciiAlphanum d = true
    · exact .inl (by rw [if_pos hd]; exact hd)
    · exact .inr (.inl (by rw [if_neg hd]))

/-- Every block becomes the element for it. -/
theorem shows_renderBlock (block : Block) : Shows (renderBlock block) block := by
  cases block with
  | paragraph lines => exact .paragraph (displays_lines true lines).only
  | heading title =>
    exact .heading (List.prefix_append _ _) (fun _ => isAnchorChar_of_mem_anchor)
      (displays_escapeQuoting title).only
  | preformatted lines => exact .preformatted (displays_lines false lines).only

/-- **Rendered comments are safe and faithful.** A comment becomes a sequence of elements, one for
each of its blocks and in their order, and each element shows its block. -/
theorem shows_toHtml (text : String) :
    ∃ elements : List (List Char), (toHtml text).toList = elements.flatten ∧
      List.Forall₂ Shows elements (blocks text.toList) := by
  refine ⟨(blocks text.toList).map renderBlock, ?_, ?_⟩
  · rw [toHtml, String.toList_ofList, List.flatMap_def]
  · rw [List.forall₂_map_left_iff, List.forall₂_same]
    intro block _
    exact shows_renderBlock block

end SymbolGraph.Comment
