import Mathlib.Data.List.Chain
import Mathlib.Data.List.Forall2
import SymbolGraph.Comment.Block
import SymbolGraph.Comment.Group
import SymbolGraph.Proofs.Text.Elements

/-!
# The text of comment tokens

What the raw tokens of a comment say (`Says`, `SaysAll`), line by line and trimmed at the end
(`TrimsTo`), is the text of the comment but for blank lines: the first ones and the last ones go,
and of those between two other lines one stays (`Condenses`). Texts that come out are in a normal
form (`IsTidy`), and a text in normal form that carries no comment mark is what a token of its own
says, so that nothing becomes of it (`text_tidy`).
-/

namespace SymbolGraph.Comment

open Text

variable {body token text : List Char} {line kept : Line} {lines said front rest blanks : List Line}
  {tokens bodies : List (List Char)}

/-! ## What tokens say -/

/-- What follows the slashes of a line comment that is addressed to a tool: one of three words and a
space, or the tool, a colon and the beginning of a name. -/
inductive IsDirectiveBody : List Char → Prop
  | word {word : String} (rest : List Char) : word ∈ ["line ", "extern ", "export "] →
      IsDirectiveBody (word.toList ++ rest)
  | tool {tool name : List Char} : tool ≠ [] → (∀ c ∈ tool, isDirectiveChar c = true) →
      (∃ c ∈ name.head?, isDirectiveChar c = true) → IsDirectiveBody (tool ++ ':' :: name)

/-- A line comment that is addressed to a tool. -/
def IsDirective (token : List Char) : Prop :=
  ∃ body, token = ['/', '/'] ++ body ∧ IsDirectiveBody body

/-- The body of a token that is no directive: of a line comment what follows the slashes and one
space, of a block comment what stands between the marks, of anything else the whole of it. -/
inductive Says : (token body : List Char) → Prop
  | spaced {body : List Char} : ¬ IsDirectiveBody (' ' :: body) →
      Says (['/', '/'] ++ ' ' :: body) body
  | line {body : List Char} : ¬ IsDirectiveBody body → body.head? ≠ some ' ' →
      Says (['/', '/'] ++ body) body
  | block (body : List Char) : Says (['/', '*'] ++ (body ++ ['*', '/'])) body
  | unclosed {body : List Char} : ¬ ['*', '/'] <:+ body → Says (['/', '*'] ++ body) body
  | unmarked {token : List Char} : ¬ ['/', '/'] <+: token → ¬ ['/', '*'] <+: token →
      Says token token

/-- The bodies of the tokens that are no directives. -/
inductive SaysAll : (tokens bodies : List (List Char)) → Prop
  | nil : SaysAll [] []
  | directive {token : List Char} {tokens bodies : List (List Char)} : IsDirective token →
      SaysAll tokens bodies → SaysAll (token :: tokens) bodies
  | body {token body : List Char} {tokens bodies : List (List Char)} : Says token body →
      SaysAll tokens bodies → SaysAll (token :: tokens) (body :: bodies)

/-- The tool of a directive ends at the first colon. -/
theorem splitFirst?_colon {tool name : List Char} (h : ':' ∉ tool) :
    splitFirst? [':'] (tool ++ ':' :: name) = some (tool, name) := by
  refine splitFirst?_of_not_infix fun hinfix => h ?_
  simpa using hinfix.subset List.mem_cons_self

/-- The test for directives finds exactly the bodies that are addressed to a tool. -/
theorem isDirective_iff : isDirective body = true ↔ IsDirectiveBody body := by
  constructor
  · intro h
    simp only [isDirective, Bool.or_eq_true, startsWith_iff] at h
    rcases h with ((⟨rest, rfl⟩ | ⟨rest, rfl⟩) | ⟨rest, rfl⟩) | htool
    · exact .word rest (by decide)
    · exact .word rest (by decide)
    · exact .word rest (by decide)
    · split at htool
      · rename_i tool name hsplit
        simp only [Bool.and_eq_true, Bool.not_eq_true', List.isEmpty_eq_false_iff,
          List.all_eq_true] at htool
        obtain ⟨⟨hne, htool⟩, hname⟩ := htool
        rw [eq_append_of_splitFirst? hsplit, List.append_assoc, List.singleton_append]
        refine .tool hne htool ?_
        cases hhead : name.head? with
        | none => simp [hhead] at hname
        | some c => exact ⟨c, rfl, by simpa [hhead] using hname⟩
      · cases htool
  · intro h
    cases h with
    | @word word rest hword =>
      have hstarts : startsWith word.toList (word.toList ++ rest) = true :=
        startsWith_iff.mpr (List.prefix_append _ _)
      simp only [List.mem_cons, List.not_mem_nil, or_false] at hword
      rcases hword with rfl | rfl | rfl
      · simp only [isDirective, hstarts, Bool.true_or]
      · simp only [isDirective, hstarts, Bool.true_or, Bool.or_true]
      · simp only [isDirective, hstarts, Bool.true_or, Bool.or_true]
    | @tool tool name hne htool hname =>
      have hcolon : ':' ∉ tool := fun hmem => absurd (htool _ hmem) (by decide)
      obtain ⟨c, hc, hchar⟩ := hname
      have hall : tool.all isDirectiveChar = true := List.all_eq_true.mpr htool
      simp [isDirective, splitFirst?_colon hcolon, hne, hall, Option.mem_def.mp hc, hchar]

/-- What a line comment says is what follows its slashes and a space, unless that is a directive. -/
theorem tokenBody_of_slashes (body : List Char) :
    tokenBody (['/', '/'] ++ body) =
      if isDirective body then none else some ((stripStart? [' '] body).getD body) := by
  simp [tokenBody, stripStart?]

/-- What a block comment says stands between its marks, of which the closing one may be missing. -/
theorem tokenBody_of_slashStar (body : List Char) :
    tokenBody (['/', '*'] ++ body) = some ((stripEnd? ['*', '/'] body).getD body) := by
  simp [tokenBody, stripStart?]

/-- A token without marks says what it is. -/
theorem tokenBody_of_unmarked (hline : ¬ ['/', '/'] <+: token) (hblock : ¬ ['/', '*'] <+: token) :
    tokenBody token = some token := by
  have hslashes : stripStart? ['/', '/'] token = none := by
    rwa [← startsWith_iff, startsWith, Bool.not_eq_true, Option.isSome_eq_false_iff,
      Option.isNone_iff_eq_none] at hline
  have hstar : stripStart? ['/', '*'] token = none := by
    rwa [← startsWith_iff, startsWith, Bool.not_eq_true, Option.isSome_eq_false_iff,
      Option.isNone_iff_eq_none] at hblock
  simp only [tokenBody, hslashes, hstar]

/-- A token is a directive, or its body is what it says. -/
theorem tokenBody_cases (token : List Char) :
    IsDirective token ∧ tokenBody token = none ∨
      ∃ body, Says token body ∧ tokenBody token = some body := by
  by_cases hline : ['/', '/'] <+: token
  · obtain ⟨body, rfl⟩ := hline
    rw [tokenBody_of_slashes]
    by_cases hdirective : isDirective body = true
    · exact .inl ⟨⟨body, rfl, isDirective_iff.mp hdirective⟩, if_pos hdirective⟩
    · have hbody : ¬ IsDirectiveBody body := mt isDirective_iff.mpr hdirective
      rw [if_neg hdirective]
      refine .inr ⟨_, ?_, rfl⟩
      cases hstrip : stripStart? [' '] body with
      | some rest =>
        obtain rfl := stripStart?_eq_some_iff.mp hstrip
        exact .spaced hbody
      | none =>
        refine .line hbody fun hhead => ?_
        obtain ⟨rest, rfl⟩ := List.head?_eq_some_iff.mp hhead
        simp [stripStart?] at hstrip
  · by_cases hblock : ['/', '*'] <+: token
    · obtain ⟨body, rfl⟩ := hblock
      rw [tokenBody_of_slashStar]
      refine .inr ⟨_, ?_, rfl⟩
      cases hstrip : stripEnd? ['*', '/'] body with
      | some rest =>
        obtain rfl := stripEnd?_eq_some_iff.mp hstrip
        exact .block rest
      | none =>
        refine .unclosed fun hsuffix => ?_
        rw [← endsWith_iff, endsWith, hstrip] at hsuffix
        cases hsuffix
    · exact .inr ⟨token, .unmarked hline hblock, tokenBody_of_unmarked hline hblock⟩

/-! ## Lines -/

/-- What is left of a line when it is trimmed at its end. -/
def TrimsTo (line kept : Line) : Prop :=
  ∃ white, line = kept ++ white ∧ (∀ c ∈ white, isBlank c = true) ∧
    ∀ c ∈ kept.getLast?, isBlank c = false

/-- Trimming at the end removes white space there, all of it and nothing else. -/
theorem trimsTo_trimEnd (line : Line) : TrimsTo line (trimEnd isBlank line) := by
  induction line with
  | nil => exact ⟨[], rfl, by simp, by simp [trimEnd]⟩
  | cons c line ih =>
    obtain ⟨white, hline, hwhite, hlast⟩ := ih
    cases hrest : trimEnd isBlank line with
    | nil =>
      rw [hrest, List.nil_append] at hline
      cases hc : isBlank c with
      | true =>
        refine ⟨c :: white, ?_, List.forall_mem_cons.mpr ⟨hc, hwhite⟩, ?_⟩
        · simp [trimEnd, hrest, hc, ← hline]
        · simp [trimEnd, hrest, hc]
      | false =>
        refine ⟨white, ?_, hwhite, ?_⟩
        · simp [trimEnd, hrest, hc, ← hline]
        · simp [trimEnd, hrest, hc]
    | cons d more =>
      rw [hrest] at hline hlast
      have htrim : trimEnd isBlank (c :: line) = c :: d :: more := by simp [trimEnd, hrest]
      rw [htrim, hline]
      exact ⟨white, rfl, hwhite, by simpa using hlast⟩

/-- What the tokens of a comment say, line by line. -/
theorem exists_saysAll (tokens : List (List Char)) :
    ∃ bodies, SaysAll tokens bodies ∧
      tokens.flatMap tokenLines =
        (bodies.flatMap (splitOn '\n')).map (trimEnd isBlank) := by
  induction tokens with
  | nil => exact ⟨[], .nil, rfl⟩
  | cons token tokens ih =>
    obtain ⟨bodies, hbodies, hlines⟩ := ih
    rcases tokenBody_cases token with ⟨hdirective, hbody⟩ | ⟨body, hsays, hbody⟩
    · refine ⟨bodies, .directive hdirective hbodies, ?_⟩
      rw [List.flatMap_cons, tokenLines, hbody, hlines]
      rfl
    · refine ⟨body :: bodies, .body hsays hbodies, ?_⟩
      rw [List.flatMap_cons, tokenLines, hbody, hlines, List.flatMap_cons, List.map_append]

/-! ## Blank lines -/

/-- The lines of a text in normal form: neither the first nor the last is blank, no two blank lines
follow one another, and no line ends in white space. -/
structure IsTidy (lines : List Line) : Prop where
  first : ∀ line ∈ lines.head?, line ≠ []
  last : ∀ line ∈ lines.getLast?, line ≠ []
  single : lines.IsChain fun line next => line ≠ [] ∨ next ≠ []
  trimmed : ∀ line ∈ lines, ∀ c ∈ line.getLast?, isBlank c = false
  flat : ∀ line ∈ lines, '\n' ∉ line

/-- The lines that are not blank. -/
def fullLines (lines : List Line) : List Line := lines.filter fun line => !line.isEmpty

/-- Some lines without needless blank ones: the lines that are not blank are kept, in their order,
and between two of them that follow one another a blank line stands exactly if one stood there. -/
structure Condenses (said lines : List Line) : Prop where
  full : fullLines lines = fullLines said
  gaps : ∀ front line blanks next back, said = front ++ line :: (blanks ++ next :: back) →
    line ≠ [] → next ≠ [] → (∀ blank ∈ blanks, blank = []) →
    ∃ front' back', lines =
        front' ++ line :: ((if blanks = [] then [] else [[]]) ++ next :: back') ∧
      fullLines front' = fullLines front ∧ fullLines back' = fullLines back

/-- The lines that are not blank, of lines in a row. -/
@[simp] theorem fullLines_append (front back : List Line) :
    fullLines (front ++ back) = fullLines front ++ fullLines back := List.filter_append ..

@[simp] theorem fullLines_nil : fullLines [] = [] := rfl

@[simp] theorem fullLines_cons_nil (lines : List Line) :
    fullLines ([] :: lines) = fullLines lines :=
  rfl

theorem fullLines_cons_of_ne_nil (h : line ≠ []) (lines : List Line) :
    fullLines (line :: lines) = line :: fullLines lines :=
  List.filter_cons_of_pos (by simpa using h)

/-- A blank line is kept unless the line before is blank or missing. -/
theorem squeeze_cons_nil (lastBlank : Bool) (lines : List Line) :
    squeeze lastBlank ([] :: lines) =
      if lastBlank then squeeze true lines else [] :: squeeze true lines := rfl

/-- A line that is not blank is kept. -/
theorem squeeze_cons_of_ne_nil (h : line ≠ []) (lastBlank : Bool) (lines : List Line) :
    squeeze lastBlank (line :: lines) = line :: squeeze false lines := by
  rw [squeeze, if_neg (by simpa using h)]

/-- Lines are squeezed up to a line that is not blank, and from there anew. -/
theorem squeeze_append_cons (h : line ≠ []) (lastBlank : Bool) (front rest : List Line) :
    squeeze lastBlank (front ++ line :: rest) =
      squeeze lastBlank front ++ line :: squeeze false rest := by
  induction front generalizing lastBlank with
  | nil => exact squeeze_cons_of_ne_nil h lastBlank rest
  | cons other front ih =>
    by_cases hother : other = []
    · subst hother
      cases lastBlank with
      | true => exact ih true
      | false => exact congrArg ([] :: ·) (ih true)
    · rw [List.cons_append, squeeze_cons_of_ne_nil hother, squeeze_cons_of_ne_nil hother, ih]
      rfl

/-- Behind a blank line all blank lines go. -/
theorem squeeze_true_blanks (h : ∀ blank ∈ blanks, blank = []) (lines : List Line) :
    squeeze true (blanks ++ lines) = squeeze true lines := by
  induction blanks with
  | nil => rfl
  | cons blank blanks ih =>
    obtain ⟨rfl, hblanks⟩ := List.forall_mem_cons.mp h
    exact ih hblanks

/-- No line but blank ones is dropped. -/
theorem fullLines_squeeze (lastBlank : Bool) (lines : List Line) :
    fullLines (squeeze lastBlank lines) = fullLines lines := by
  induction lines generalizing lastBlank with
  | nil => rfl
  | cons line lines ih =>
    by_cases hline : line = []
    · subst hline
      cases lastBlank with
      | true => exact ih true
      | false => exact ih true
    · rw [squeeze_cons_of_ne_nil hline, fullLines_cons_of_ne_nil hline,
        fullLines_cons_of_ne_nil hline, ih]

/-- What is kept stands in its order. -/
theorem squeeze_sublist (lastBlank : Bool) (lines : List Line) :
    (squeeze lastBlank lines).Sublist lines := by
  induction lines generalizing lastBlank with
  | nil => exact List.Sublist.refl _
  | cons line lines ih =>
    by_cases hline : line = []
    · subst hline
      cases lastBlank with
      | true => exact (ih true).cons _
      | false => exact (ih true).cons_cons _
    · rw [squeeze_cons_of_ne_nil hline]
      exact (ih false).cons_cons _

/-- No two blank lines follow one another when lines are squeezed, the line before them
included. -/
theorem isChain_squeeze (lastBlank : Bool) (lines : List Line) :
    (squeeze lastBlank lines).IsChain (fun line next => line ≠ [] ∨ next ≠ []) ∧
      (lastBlank = true → ∀ line ∈ (squeeze lastBlank lines).head?, line ≠ []) := by
  induction lines generalizing lastBlank with
  | nil => exact ⟨.nil, fun _ _ h => by cases h⟩
  | cons line lines ih =>
    by_cases hline : line = []
    · subst hline
      cases lastBlank with
      | true => exact ih true
      | false =>
        obtain ⟨hchain, hhead⟩ := ih true
        refine ⟨?_, fun h => by cases h⟩
        rw [squeeze_cons_nil, if_neg Bool.false_ne_true]
        exact hchain.cons fun next hnext => .inr (hhead rfl next hnext)
    · rw [squeeze_cons_of_ne_nil hline]
      refine ⟨(ih false).1.cons fun _ _ => .inl hline, fun _ other hother => ?_⟩
      obtain rfl := Option.some.inj hother
      exact hline

/-- Lines in which no two blank ones follow one another are not squeezed. -/
theorem squeeze_eq_self {lastBlank : Bool}
    (hchain : lines.IsChain fun line next => line ≠ [] ∨ next ≠ [])
    (hfirst : lastBlank = true → ∀ line ∈ lines.head?, line ≠ []) :
    squeeze lastBlank lines = lines := by
  induction lines generalizing lastBlank with
  | nil => rfl
  | cons line lines ih =>
    obtain ⟨hnext, hrest⟩ := List.isChain_cons.mp hchain
    by_cases hline : line = []
    · subst hline
      cases lastBlank with
      | true => exact absurd rfl (hfirst rfl [] rfl)
      | false =>
        have hhead : ∀ next ∈ lines.head?, next ≠ [] := fun next hmem =>
          (hnext next hmem).resolve_left (not_not_intro rfl)
        exact congrArg ([] :: ·) (ih hrest fun _ => hhead)
    · rw [squeeze_cons_of_ne_nil hline, ih hrest fun h => by cases h]

/-! ## The last line -/

/-- Lines as one text, every one with its newline. -/
def endLines (lines : List Line) : List Char := lines.flatMap (· ++ ['\n'])

/-- Joining lines and an empty last one ends each of them with a newline. -/
theorem join_concat_nil (lines : List Line) : join ['\n'] (lines ++ [[]]) = endLines lines := by
  induction lines with
  | nil => rfl
  | cons line lines ih =>
    rw [List.cons_append, join_cons (by simp), ih, endLines, endLines, List.flatMap_cons]

/-- Lines whose last one is empty become a text in which each other one has its newline. -/
theorem closeLines_concat_nil (lines : List Line) :
    closeLines (lines ++ [[]]) = endLines lines := by
  simp [closeLines, join_concat_nil]

/-- Lines whose last one is not blank become a text in which each has its newline. -/
theorem closeLines_of_getLast (hlast : ∀ line ∈ lines.getLast?, line ≠ []) :
    closeLines lines = endLines lines := by
  rcases List.eq_nil_or_concat' lines with rfl | ⟨front, last, rfl⟩
  · rfl
  · have hne : last ≠ [] := hlast last (by simp)
    simp [closeLines, hne, ← join_concat_nil]

/-- Squeezed lines end in one blank line at most, and are closed without it. -/
theorem exists_closeLines_eq (hchain : lines.IsChain fun line next => line ≠ [] ∨ next ≠ []) :
    ∃ kept, (lines = kept ∨ lines = kept ++ [[]]) ∧ (∀ line ∈ kept.getLast?, line ≠ []) ∧
      closeLines lines = endLines kept := by
  rcases List.eq_nil_or_concat' lines with rfl | ⟨front, last, rfl⟩
  · exact ⟨[], .inl rfl, by simp, rfl⟩
  · by_cases hlast : last = []
    · subst hlast
      refine ⟨front, .inr rfl, fun line hline => ?_, closeLines_concat_nil front⟩
      have hjoint := (List.isChain_append.mp hchain).2.2 line hline [] rfl
      exact hjoint.resolve_right (not_not_intro rfl)
    · have hne : ∀ line ∈ (front ++ [last]).getLast?, line ≠ [] := by simpa using hlast
      exact ⟨front ++ [last], .inl rfl, hne, closeLines_of_getLast hne⟩

/-- A text of ended lines is cut back into them, with an empty line at its end. -/
theorem splitOn_endLines (h : ∀ line ∈ lines, '\n' ∉ line) :
    splitOn '\n' (endLines lines) = lines ++ [[]] := by
  rw [← join_concat_nil]
  refine splitOn_join (by simp) fun line hline => ?_
  rcases List.mem_append.mp hline with hmem | hmem
  · exact h line hmem
  · simp [List.mem_singleton.mp hmem]

/-! ## The text of a comment -/

/-- A line that is not blank stands before the empty last one. -/
theorem eq_append_of_concat_nil {next : Line} {back : List Line} (hnext : next ≠ [])
    (h : front ++ next :: back = lines ++ [[]]) :
    ∃ back', back = back' ++ [[]] ∧ lines = front ++ next :: back' := by
  rcases List.eq_nil_or_concat' back with rfl | ⟨back', last, rfl⟩
  · exact absurd (List.append_inj' h rfl).2 (by simpa using hnext)
  · have hsplit : (front ++ next :: back') ++ [last] = lines ++ [[]] := by simpa using h
    obtain ⟨hfront, hlast⟩ := List.append_inj' hsplit rfl
    exact ⟨back', by simpa using hlast, hfront.symm⟩

/-- Squeezing condenses, with or without the blank line at the end. -/
theorem condenses_of_squeeze (h : squeeze true said = lines ∨ squeeze true said = lines ++ [[]]) :
    Condenses said lines := by
  have hfull : fullLines lines = fullLines said := by
    rw [← fullLines_squeeze true said]
    rcases h with h | h <;> simp [h]
  refine ⟨hfull, fun front line blanks next back hsaid hline hnext hblanks => ?_⟩
  have hgap : squeeze false (blanks ++ next :: back) =
      (if blanks = [] then [] else [[]]) ++ next :: squeeze false back := by
    cases blanks with
    | nil => exact squeeze_cons_of_ne_nil hnext false back
    | cons blank blanks =>
      obtain ⟨rfl, hrest⟩ := List.forall_mem_cons.mp hblanks
      rw [List.cons_append, squeeze_cons_nil, if_neg Bool.false_ne_true, squeeze_true_blanks hrest,
        squeeze_cons_of_ne_nil hnext]
      rfl
  rw [hsaid, squeeze_append_cons hline, hgap] at h
  rcases h with h | h
  · exact ⟨_, _, h.symm, fullLines_squeeze true front, fullLines_squeeze false back⟩
  · -- The blank line at the end comes after `next`, which is not blank.
    have hsplit : (squeeze true front ++ line :: if blanks = [] then [] else [[]]) ++
        next :: squeeze false back = lines ++ [[]] := by simpa using h
    obtain ⟨back', hback, rfl⟩ := eq_append_of_concat_nil hnext hsplit
    refine ⟨squeeze true front, back', by simp, fullLines_squeeze true front, ?_⟩
    rw [← fullLines_squeeze false back, hback]
    simp

/-- Trimmed lines do not end in white space. -/
theorem getLast?_of_trimsTo {said kept : List Line} (h : List.Forall₂ TrimsTo said kept) :
    ∀ line ∈ kept, ∀ c ∈ line.getLast?, isBlank c = false := by
  induction h with
  | nil => simp
  | cons hline _ ih =>
    obtain ⟨_, _, _, hlast⟩ := hline
    exact List.forall_mem_cons.mpr ⟨hlast, ih⟩

/-- A text in normal form is what a token says that carries no mark, and comes out unchanged. -/
theorem textOfTokens_endLines (htidy : IsTidy lines) (hline : ¬ ['/', '/'] <+: endLines lines)
    (hblock : ¬ ['/', '*'] <+: endLines lines) :
    textOfTokens [endLines lines] = endLines lines := by
  have htrim : ∀ line ∈ lines ++ [[]], trimEnd isBlank line = line := by
    refine fun line hmem => trimEnd_of_getLast? fun c hc => ?_
    rcases List.mem_append.mp hmem with hmem | hmem
    · exact htidy.trimmed line hmem c hc
    · simp [List.mem_singleton.mp hmem] at hc
  have hlines : [endLines lines].flatMap tokenLines = lines ++ [[]] := by
    rw [List.flatMap_singleton, tokenLines, tokenBody_of_unmarked hline hblock]
    simp only [splitOn_endLines htidy.flat, List.map_congr_left htrim, List.map_id']
  rw [textOfTokens, hlines]
  rcases List.eq_nil_or_concat' lines with rfl | ⟨front, last, rfl⟩
  · rfl
  · have hlast : last ≠ [] := htidy.last last (by simp)
    have hchain : (front ++ [last] ++ [[]]).IsChain fun line next => line ≠ [] ∨ next ≠ [] :=
      List.isChain_append.mpr ⟨htidy.single, .singleton _, by simp [hlast]⟩
    have hfirst : ∀ line ∈ (front ++ [last] ++ [[]]).head?, line ≠ [] := by
      simpa using htidy.first
    rw [squeeze_eq_self hchain fun _ => hfirst, closeLines_concat_nil]

/-- The lines of the text of some tokens: what the tokens say, condensed and in normal form. -/
theorem exists_textOfTokens_eq (tokens : List (List Char)) :
    ∃ bodies said lines, SaysAll tokens bodies ∧
      List.Forall₂ TrimsTo (bodies.flatMap (splitOn '\n')) said ∧ Condenses said lines ∧
      IsTidy lines ∧ textOfTokens tokens = endLines lines := by
  obtain ⟨bodies, hsays, hsaid⟩ := exists_saysAll tokens
  have htrims : List.Forall₂ TrimsTo (bodies.flatMap (splitOn '\n'))
      (tokens.flatMap tokenLines) := by
    rw [hsaid, List.forall₂_map_right_iff, List.forall₂_same]
    exact fun line _ => trimsTo_trimEnd line
  have hflat : ∀ line ∈ tokens.flatMap tokenLines, '\n' ∉ line := by
    rw [hsaid]
    intro line hmem
    obtain ⟨whole, hwhole, rfl⟩ := List.mem_map.mp hmem
    obtain ⟨body, _, hbody⟩ := List.mem_flatMap.mp hwhole
    obtain ⟨white, htrim, _⟩ := trimsTo_trimEnd whole
    refine fun hnl => not_mem_of_mem_splitOn hbody ?_
    rw [htrim]
    exact List.mem_append_left white hnl
  generalize hlines : tokens.flatMap tokenLines = said at *
  obtain ⟨hchain, hfirst⟩ := isChain_squeeze true said
  obtain ⟨lines, hkept, hlast, hclose⟩ := exists_closeLines_eq hchain
  have hstarts : lines <+: squeeze true said := by
    rcases hkept with h | h
    · exact h ▸ List.prefix_refl lines
    · exact h ▸ List.prefix_append lines [[]]
  have hsub : ∀ line ∈ lines, line ∈ said := fun line hmem =>
    (squeeze_sublist true said).subset (hstarts.subset hmem)
  obtain ⟨tail, htail⟩ := hstarts
  refine ⟨bodies, said, lines, hsays, htrims, condenses_of_squeeze hkept, ?_, ?_⟩
  · exact {
      first := fun line hline => hfirst rfl line (by
        rw [← htail, List.head?_append, Option.mem_def.mp hline]
        rfl)
      last := hlast
      single := List.IsChain.left_of_append (htail ▸ hchain)
      trimmed := fun line hmem => getLast?_of_trimsTo htrims line (hsub line hmem)
      flat := fun line hmem => hflat line (hsub line hmem) }
  · rw [textOfTokens, hlines, hclose]

/-- A text of ended lines, the last of them not blank, ends in a single newline. -/
theorem exists_endLines_eq (hne : lines ≠ []) (hlast : ∀ line ∈ lines.getLast?, line ≠ [])
    (hflat : ∀ line ∈ lines, '\n' ∉ line) :
    ∃ front c, endLines lines = front ++ [c, '\n'] ∧ c ≠ '\n' := by
  obtain ⟨front, last, rfl⟩ := (List.eq_nil_or_concat' lines).resolve_left hne
  have hmem : last ∈ front ++ [last] := by simp
  obtain ⟨start, c, rfl⟩ := (List.eq_nil_or_concat' last).resolve_left (hlast last (by simp))
  refine ⟨endLines front ++ start, c, by simp [endLines], ?_⟩
  rintro rfl
  exact hflat _ hmem (by simp)

/-- The text of a comment is complete and in normal form: its lines, each with its newline, are what
the tokens say that are no directives, trimmed at the end of every line and without needless blank
lines. It is empty or ends in exactly one newline, and a text that begins with no comment mark
becomes of itself when it is the only token of a comment. -/
theorem text_tidy (g : CommentGroup) :
    ∃ bodies said lines, SaysAll (g.tokens.map String.toList) bodies ∧
      List.Forall₂ TrimsTo (bodies.flatMap (splitOn '\n')) said ∧ Condenses said lines ∧
      IsTidy lines ∧ g.text.toList = lines.flatMap (· ++ ['\n']) ∧
      (g.text = "" ∨ ∃ front c, g.text.toList = front ++ [c, '\n'] ∧ c ≠ '\n') ∧
      (¬ "//".toList <+: g.text.toList → ¬ "/*".toList <+: g.text.toList →
        ∀ other : CommentGroup, other.tokens = [g.text] → other.text = g.text) := by
  obtain ⟨bodies, said, lines, hsays, htrims, hcondenses, htidy, htext⟩ :=
    exists_textOfTokens_eq (g.tokens.map String.toList)
  have hlist : g.text.toList = endLines lines := by
    rw [CommentGroup.text, String.toList_ofList, htext]
  refine ⟨bodies, said, lines, hsays, htrims, hcondenses, htidy, hlist, ?_, ?_⟩
  · by_cases hne : lines = []
    · exact .inl (String.toList_inj.mp (by rw [hlist, hne]; rfl))
    · rw [hlist]
      exact .inr (exists_endLines_eq hne htidy.last htidy.flat)
  · intro hline hblock other hother
    rw [hlist] at hline hblock
    rw [← String.toList_inj, CommentGroup.text, String.toList_ofList, hother, List.map_singleton,
      hlist]
    exact textOfTokens_endLines htidy hline hblock

/-- A comment of which only the tokens matter. -/
def groupOf (tokens : List String) : CommentGroup := ⟨⟨0⟩, ⟨0, 1, Nat.zero_le 1⟩, tokens⟩

/-- A directive leaves no line, the blank lines of a block comment become one, and the text is its
own text. -/
theorem text_tidy_block :
    (groupOf ["/*\n\nfirst  \n\n \nsecond\n*/", "//go:build x", "// \tend"]).text =
        "first\n\nsecond\n\n\tend\n" ∧
      (groupOf ["first\n\nsecond\n\n\tend\n"]).text = "first\n\nsecond\n\n\tend\n" := by
  have htext : (groupOf ["/*\n\nfirst  \n\n \nsecond\n*/", "//go:build x", "// \tend"]).text =
      "first\n\nsecond\n\n\tend\n" := by decide
  obtain ⟨_, _, _, _, _, _, _, _, _, hself⟩ := text_tidy (groupOf
    ["/*\n\nfirst  \n\n \nsecond\n*/", "//go:build x", "// \tend"])
  rw [htext] at hself
  exact ⟨htext, hself (by decide) (by decide) (groupOf ["first\n\nsecond\n\n\tend\n"]) rfl⟩

end SymbolGraph.Comment
