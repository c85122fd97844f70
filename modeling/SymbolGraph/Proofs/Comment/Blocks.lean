import Mathlib.Data.List.Forall2
import SymbolGraph.Comment.Block

/-!
# Lines and blocks

A text falls into blocks line by line. Its common indentation is removed first (`IsCommonIndent`,
`Outdents`); what is not blank then stands in one block, and the blocks stand in the order of their
lines (`LaidOut`). What the loop over the lines does is said once, rule by rule (`Scans`), and all
else is told of the rules: where the lines of the blocks are (`laidOut_blocks`) and which lines are
headings (`Scans.exists_line`).
-/

namespace SymbolGraph.Comment

open Text

variable {line next blank : Line} {lines rest run begun before : List Line} {block : Block}
  {made above below : List Block} {afterBlank afterHeading start : Bool}
  {indent part : List Char} {title : Line}

/-! ## Lines -/

/-- Every text has a line, be it an empty one. -/
theorem splitLines_ne_nil (text : List Char) : splitLines text ≠ [] := by
  cases text with
  | nil => simp [splitLines]
  | cons c text =>
    rw [splitLines]
    split
    · simp
    · split <;> simp

/-- The lines are the text, cut behind its newlines. -/
theorem flatten_splitLines (text : List Char) : (splitLines text).flatten = text := by
  induction text with
  | nil => rfl
  | cons c text ih =>
    rw [splitLines]
    split
    · simp [ih]
    · split <;> simp_all

/-! ## Indentation -/

/-- Spaces and tabs that the first of some lines begins with, and every line that is not blank. -/
structure Shares (indent : List Char) (lines : List Line) : Prop where
  white : ∀ c ∈ indent, c = ' ' ∨ c = '\t'
  first : ∀ line ∈ lines.head?, indent <+: line
  others : ∀ line ∈ lines, isBlankLine line = false → indent <+: line

/-- The longest of the indentations that some lines share. -/
structure IsCommonIndent (indent : List Char) (lines : List Line) : Prop where
  shared : Shares indent lines
  longest : ∀ other, Shares other lines → other <+: indent

/-- What becomes of a line when an indentation is removed from it: a blank line stays, any other
begins with the indentation and is what stands behind it. -/
inductive Outdents (indent : List Char) : Line → Line → Prop
  | blank {line : Line} : isBlankLine line = true → Outdents indent line line
  | cut {line : Line} : isBlankLine (indent ++ line) = false → Outdents indent (indent ++ line) line

/-- What two texts both begin with is exactly what their common beginning begins with. -/
theorem prefix_commonStart_iff {as bs : List Char} :
    part <+: commonStart as bs ↔ part <+: as ∧ part <+: bs := by
  induction as generalizing part bs with
  | nil => simp +contextual [commonStart]
  | cons a as ih =>
    cases bs with
    | nil => simp +contextual [commonStart]
    | cons b bs =>
      cases part with
      | nil => simp
      | cons c part =>
        by_cases hab : a = b
        · subst hab
          simp only [commonStart, if_true, List.cons_prefix_cons, ih]
          tauto
        · simp only [commonStart, hab, if_false, List.prefix_nil, List.cons_prefix_cons,
            reduceCtorEq, false_iff]
          rintro ⟨⟨rfl, -⟩, rfl, -⟩
          exact hab rfl

/-- The beginnings of an indentation are the white beginnings of the line. -/
theorem prefix_indentOf_iff :
    part <+: indentOf line ↔ part <+: line ∧ ∀ c ∈ part, c = ' ' ∨ c = '\t' := by
  induction part generalizing line with
  | nil => simp
  | cons c part ih =>
    cases line with
    | nil => simp [indentOf]
    | cons d line =>
      by_cases hd : d = ' ' ∨ d = '\t'
      · have hindent : indentOf (d :: line) = d :: indentOf line := by
          simp [indentOf, List.takeWhile_cons_of_pos, hd]
        simp only [hindent, List.cons_prefix_cons, ih, List.forall_mem_cons]
        constructor
        · rintro ⟨rfl, hline, hpart⟩
          exact ⟨⟨rfl, hline⟩, hd, hpart⟩
        · rintro ⟨⟨rfl, hline⟩, -, hpart⟩
          exact ⟨rfl, hline, hpart⟩
      · have hindent : indentOf (d :: line) = [] := by simp [indentOf, hd]
        simp only [hindent, List.prefix_nil, reduceCtorEq, false_iff, List.cons_prefix_cons]
        rintro ⟨⟨rfl, -⟩, hwhite⟩
        exact hd (hwhite c List.mem_cons_self)

/-- What is part of the common indentation is what the lines share. -/
theorem prefix_commonIndent_iff (hlines : lines ≠ []) :
    part <+: commonIndent lines ↔ Shares part lines := by
  have hfold : ∀ (others : List Line) (shared : List Char),
      part <+: others.foldl (fun shared line => commonStart shared (indentOf line)) shared ↔
        part <+: shared ∧ ∀ line ∈ others, part <+: indentOf line := by
    intro others
    induction others with
    | nil => simp
    | cons other others ih =>
      intro shared
      rw [List.foldl_cons, ih, prefix_commonStart_iff, List.forall_mem_cons, and_assoc]
  cases lines with
  | nil => exact absurd rfl hlines
  | cons first rest =>
    rw [commonIndent, hfold, prefix_indentOf_iff]
    simp only [List.mem_filter, Bool.not_eq_true', and_imp]
    constructor
    · rintro ⟨⟨hfirst, hwhite⟩, hothers⟩
      refine ⟨hwhite, by simpa using hfirst, fun line hline hblank => ?_⟩
      exact (prefix_indentOf_iff.mp (hothers line hline hblank)).1
    · rintro ⟨hwhite, hfirst, hothers⟩
      refine ⟨⟨by simpa using hfirst, hwhite⟩, fun line hline hblank => ?_⟩
      exact prefix_indentOf_iff.mpr ⟨hothers line hline hblank, hwhite⟩

/-- The indentation that is removed from some lines is the longest they share. -/
theorem isCommonIndent_commonIndent (hlines : lines ≠ []) :
    IsCommonIndent (commonIndent lines) lines where
  shared := (prefix_commonIndent_iff hlines).mp (List.prefix_refl _)
  longest _ hother := (prefix_commonIndent_iff hlines).mpr hother

/-- Lines lose the indentation that they share. -/
theorem outdents_unindent (hlines : lines ≠ []) :
    List.Forall₂ (Outdents (commonIndent lines)) lines (unindent lines) := by
  rw [unindent, List.forall₂_map_right_iff, List.forall₂_same]
  intro line hline
  cases hblank : isBlankLine line with
  | true => exact .blank hblank
  | false =>
    obtain ⟨rest, rfl⟩ := (isCommonIndent_commonIndent hlines).shared.others line hline hblank
    rw [if_neg Bool.false_ne_true, List.drop_left]
    exact .cut hblank

/-! ## Runs of indented lines -/

/-- A line of text that does not begin with white space. -/
def IsPlain (line : Line) : Prop := isBlankLine line = false ∧ isIndented line = false

/-- Indented lines, with blank lines only between them. -/
structure IsRun (run : List Line) : Prop where
  first : ∃ line ∈ run.head?, isBlankLine line = false
  last : ∃ line ∈ run.getLast?, isBlankLine line = false
  all : ∀ line ∈ run, isBlankLine line = true ∨ isIndented line = true

/-- A run has a line. -/
theorem IsRun.ne_nil (h : IsRun run) : run ≠ [] := by
  rintro rfl
  obtain ⟨_, hline, -⟩ := h.first
  cases hline

/-- What is cut off as a run is where the lines begin, and its last line is indented. -/
theorem splitRun_cuts (lines : List Line) :
    (splitRun lines).1 ++ (splitRun lines).2 = lines ∧
      (∀ line ∈ (splitRun lines).1, isBlankLine line = true ∨ isIndented line = true) ∧
      ∀ line ∈ (splitRun lines).1.getLast?, isBlankLine line = false := by
  fun_induction splitRun lines with
  | case1 => simp
  | case2 line rest hblank after hrest ih => simp
  | case3 line rest hblank run after hne hrest ih =>
    rw [hrest] at ih
    obtain ⟨rfl, hall, hlast⟩ := ih
    have hrun : run ≠ [] := fun h => hne h
    refine ⟨rfl, ?_, ?_⟩
    · simpa [hblank] using hall
    · rwa [List.getLast?_cons_of_ne_nil hrun]
  | case4 line rest hblank hindented run after hrest ih =>
    rw [hrest] at ih
    obtain ⟨rfl, hall, hlast⟩ := ih
    refine ⟨rfl, ?_, ?_⟩
    · simpa [hindented] using hall
    · cases run with
      | nil => simpa using hblank
      | cons next run => simpa using hlast
  | case5 line rest hblank hindented => simp

/-- An indented line of text and the run that is cut off behind it are a run. -/
theorem isRun_cons_splitRun (hblank : isBlankLine line = false) (hindented : isIndented line = true)
    (rest : List Line) : IsRun (line :: (splitRun rest).1) := by
  obtain ⟨-, hall, hlast⟩ := splitRun_cuts rest
  refine ⟨⟨line, rfl, hblank⟩, ?_, ?_⟩
  · cases hrun : (splitRun rest).1 with
    | nil => exact ⟨line, rfl, hblank⟩
    | cons next run =>
      rw [hrun] at hlast
      have hsome := List.getLast?_eq_some_getLast (List.cons_ne_nil next run)
      exact ⟨_, by rw [List.getLast?_cons_cons]; exact hsome, hlast _ hsome⟩
  · intro other hother
    rcases List.mem_cons.mp hother with rfl | hother
    · exact .inr hindented
    · exact hall other hother

/-! ## What the loop does -/

/-- The rules by which lines become blocks, with what is known of the lines before: whether the
last line outside preformatted runs was blank, whether the last block was a heading, and the lines
of the paragraph that has begun. -/
inductive Scans : (afterBlank afterHeading : Bool) → (begun lines : List Line) → List Block → Prop
  | done {b h : Bool} {begun : List Line} : Scans b h begun [] (closeParagraph begun)
  | blank {b h : Bool} {begun rest : List Line} {line : Line} {blocks : List Block} :
      isBlankLine line = true → Scans true h [] rest blocks →
      Scans b h begun (line :: rest) (closeParagraph begun ++ blocks)
  | run {b h : Bool} {begun run rest : List Line} {blocks : List Block} :
      IsRun run → Scans b false [] rest blocks →
      Scans b h begun (run ++ rest)
        (closeParagraph begun ++ .preformatted (unindent run) :: blocks)
  | heading {line blank next title : Line} {rest : List Line} {blocks : List Block} :
      IsPlain line → heading? line = some title → isBlankLine blank = true → IsPlain next →
      Scans true true [] (next :: rest) blocks →
      Scans true false [] (line :: blank :: next :: rest) (.heading title :: blocks)
  | text {b h : Bool} {begun rest : List Line} {line : Line} {blocks : List Block} :
      IsPlain line → Scans false false (begun ++ [line]) rest blocks →
      Scans b h begun (line :: rest) blocks

/-- Lines that leave a heading alone begin with a blank line and a plain one. -/
theorem exists_of_leavesAlone (h : leavesAlone lines = true) :
    ∃ blank next rest, lines = blank :: next :: rest ∧ isBlankLine blank = true ∧ IsPlain next := by
  match lines, h with
  | blank :: next :: rest, h =>
    simp only [leavesAlone, Bool.and_eq_true, Bool.not_eq_true'] at h
    exact ⟨blank, next, rest, rfl, h.1.1, h.1.2, h.2⟩

/-- The loop follows the rules. No paragraph has begun behind a blank line, which the rule of
headings needs. -/
theorem scans_blocksFrom (hbegun : afterBlank = true → begun = []) :
    Scans afterBlank afterHeading begun lines
      (blocksFrom afterBlank afterHeading begun lines) := by
  induction afterBlank, afterHeading, begun, lines using blocksFrom.induct with
  | case1 b h begun =>
    rw [blocksFrom]
    exact .done
  | case2 b h begun line rest hblank ih =>
    rw [blocksFrom, if_pos hblank]
    exact .blank hblank (ih fun _ => rfl)
  | case3 b h begun line rest hblank hindented ih =>
    rw [blocksFrom, if_neg hblank, if_pos hindented]
    have hrun := isRun_cons_splitRun (Bool.eq_false_iff.mpr hblank) hindented rest
    have hscans := @Scans.run b h begun _ _ _ hrun (ih fun _ => rfl)
    rwa [List.cons_append, (splitRun_cuts rest).1] at hscans
  | case4 b h begun line rest hblank hindented title htitle ih =>
    rw [dite_eq_ite] at htitle
    rw [blocksFrom, if_neg hblank, if_neg hindented, htitle]
    obtain ⟨hstate, hheading⟩ := Option.ite_none_right_eq_some.mp htitle
    simp only [Bool.and_eq_true, Bool.not_eq_true'] at hstate
    obtain ⟨⟨rfl, rfl⟩, halone⟩ := hstate
    obtain ⟨blank, next, rest, rfl, hblank', hnext⟩ := exists_of_leavesAlone halone
    obtain rfl := hbegun rfl
    refine .heading ⟨?_, ?_⟩ hheading hblank' hnext (ih fun _ => rfl)
    · exact Bool.eq_false_iff.mpr hblank
    · exact Bool.eq_false_iff.mpr hindented
  | case5 b h begun line rest hblank hindented htitle ih =>
    rw [dite_eq_ite] at htitle
    rw [blocksFrom, if_neg hblank, if_neg hindented, htitle]
    refine .text ⟨?_, ?_⟩ (ih fun hfalse => absurd hfalse Bool.false_ne_true)
    · exact Bool.eq_false_iff.mpr hblank
    · exact Bool.eq_false_iff.mpr hindented

/-! ## Where the lines are -/

/-- The lines that a block is made of: a paragraph of plain lines as they are, a heading of one
plain line without the white space around it, preformatted text of a run of indented lines without
their common indentation. -/
inductive Holds : List Line → Block → Prop
  | paragraph {run : List Line} : run ≠ [] → (∀ line ∈ run, IsPlain line) →
      Holds run (.paragraph run)
  | heading {line : Line} : IsPlain line → Holds [line] (.heading (trim isBlank line))
  | preformatted {run lines : List Line} {indent : List Char} : IsRun run →
      IsCommonIndent indent run → List.Forall₂ (Outdents indent) run lines →
      Holds run (.preformatted lines)

/-- Blocks that are made of some lines: every line is blank or belongs to one block, and both stand
in the same order. -/
inductive LaidOut : List Line → List Block → Prop
  | nil : LaidOut [] []
  | blank {line : Line} {rest : List Line} {blocks : List Block} :
      isBlankLine line = true → LaidOut rest blocks → LaidOut (line :: rest) blocks
  | block {run rest : List Line} {block : Block} {blocks : List Block} :
      Holds run block → LaidOut rest blocks → LaidOut (run ++ rest) (block :: blocks)

/-- The paragraph that has begun is laid out in front of the blocks that follow it. -/
theorem LaidOut.close (h : LaidOut lines made) (hbegun : ∀ line ∈ begun, IsPlain line) :
    LaidOut (begun ++ lines) (closeParagraph begun ++ made) := by
  by_cases hne : begun = []
  · subst hne
    exact h
  · rw [closeParagraph, if_neg (by simpa using hne)]
    exact .block (.paragraph hne hbegun) h

/-- A run becomes preformatted text without its common indentation. -/
theorem IsRun.holds (h : IsRun run) : Holds run (.preformatted (unindent run)) :=
  .preformatted h (isCommonIndent_commonIndent h.ne_nil) (outdents_unindent h.ne_nil)

/-- The title on a line is the line without the white space around it. -/
theorem eq_trim_of_heading? (h : heading? line = some title) : title = trim isBlank line := by
  unfold heading? at h
  dsimp only at h
  split at h
  · exact (Option.some.inj (Option.ite_none_right_eq_some.mp h).2).symm
  · cases h

/-- A plain line that reads like a title becomes a heading. -/
theorem Holds.of_heading? (h : heading? line = some title) (hline : IsPlain line) :
    Holds [line] (.heading title) := by
  rw [eq_trim_of_heading? h]
  exact .heading hline

/-- By the rules the lines, those of the paragraph that has begun included, become blocks in their
order. -/
theorem Scans.laidOut (h : Scans afterBlank afterHeading begun lines made)
    (hbegun : ∀ line ∈ begun, IsPlain line) : LaidOut (begun ++ lines) made := by
  induction h with
  | done => simpa using LaidOut.nil.close hbegun
  | blank hblank _ ih => exact (LaidOut.blank hblank (ih (by simp))).close hbegun
  | run hrun _ ih => exact (LaidOut.block hrun.holds (ih (by simp))).close hbegun
  | heading hline htitle hblank _ _ ih =>
    exact @LaidOut.block [_] _ _ _ (.of_heading? htitle hline) (.blank hblank (ih (by simp)))
  | text hline _ ih =>
    rw [← List.singleton_append, ← List.append_assoc]
    apply ih
    intro other hother
    rcases List.mem_append.mp hother with hother | hother
    · exact hbegun other hother
    · exact List.mem_singleton.mp hother ▸ hline

/-- The blocks of a text are those the rules make of its lines, without their common indentation. -/
theorem scans_blocks (text : List Char) :
    Scans false false [] (unindent (splitLines text)) (blocks text) :=
  scans_blocksFrom fun _ => rfl

/-- **No line is lost, doubled or moved.** The lines of a text, which make up the whole of it, lose
their common indentation; each line that is not blank then belongs to one block, and the blocks
stand in the order of their lines. -/
theorem laidOut_blocks (text : List Char) :
    (splitLines text).flatten = text ∧ ∃ indent lines,
      IsCommonIndent indent (splitLines text) ∧
        List.Forall₂ (Outdents indent) (splitLines text) lines ∧ LaidOut lines (blocks text) := by
  have hne := splitLines_ne_nil text
  refine ⟨flatten_splitLines text, _, _, isCommonIndent_commonIndent hne, outdents_unindent hne, ?_⟩
  exact (scans_blocks text).laidOut (by simp)

/-- A line of nothing but the common indentation is not blank, but becomes so when the indentation
is removed, and belongs to no block. -/
theorem exists_line_in_no_block : ∃ (text : List Char) (line : Line),
    line ∈ splitLines text ∧ isBlankLine line = false ∧ blocks text = [] := by
  refine ⟨[' ', '\n'], [' ', '\n'], by decide, by decide, ?_⟩
  have hlines : unindent (splitLines [' ', '\n']) = [['\n'], []] := by decide
  rw [blocks, hlines]
  simp [blocksFrom, isBlankLine, closeParagraph]

end SymbolGraph.Comment
