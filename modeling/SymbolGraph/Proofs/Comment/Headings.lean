import SymbolGraph.Proofs.Comment.Blocks

/-!
# Headings stand alone

The line of a heading has a blank line behind it and then a plain line, and no two headings follow
one another. A blank line stands before it too, or preformatted text does: what is remembered of
the lines before is whether the last one *outside* preformatted runs was blank (`AfterBlank`), so
that a title that follows preformatted text directly is a heading if a blank line stands before
that text.
-/

namespace SymbolGraph.Comment

open Text

variable {line next blank : Line} {lines rest run begun before more : List Line} {block : Block}
  {made above below others : List Block} {afterBlank afterHeading start start' : Bool}
  {title title' : Line}

/-- Whether the last line outside preformatted runs is blank, of some lines and the blocks made of
them; `start` says so of what stands before the first line. -/
inductive AfterBlank (start : Bool) : List Line → List Block → Prop
  | start : start = true → AfterBlank start [] []
  | blank {before : List Line} {line : Line} {above : List Block} :
      isBlankLine line = true → AfterBlank start (before ++ [line]) above
  | run {before run pre : List Line} {above : List Block} :
      AfterBlank start before above → Holds run (.preformatted pre) →
      AfterBlank start (before ++ run) (above ++ [.preformatted pre])

/-- What stands before the lines may be told by further lines. -/
theorem AfterBlank.append (h : AfterBlank start before above)
    (hmore : start = true → AfterBlank start' more others) :
    AfterBlank start' (more ++ before) (others ++ above) := by
  induction h with
  | start hstart => simpa using hmore hstart
  | blank hblank =>
    rw [← List.append_assoc]
    exact .blank hblank
  | run _ hrun ih =>
    rw [← List.append_assoc, ← List.append_assoc]
    exact .run ih hrun

/-- A heading is not among blocks that are none. -/
theorem exists_of_append_eq (hothers : ∀ block ∈ others, ∀ title, block ≠ .heading title)
    (h : others ++ made = above ++ .heading title :: below) :
    ∃ above', above = others ++ above' ∧ made = above' ++ .heading title :: below := by
  rcases List.append_eq_append_iff.mp h with ⟨above', habove, hmade⟩ | ⟨rest, hrest, hmade⟩
  · exact ⟨above', habove, hmade⟩
  · cases rest with
    | nil => exact ⟨[], by simpa using hrest.symm, by simpa using hmade.symm⟩
    | cons block rest =>
      obtain ⟨rfl, -⟩ := List.cons.inj hmade
      exact absurd rfl (hothers (.heading title) (by simp [hrest]) title)

/-- The end of a paragraph is no heading. -/
theorem ne_heading_of_mem_close (h : block ∈ closeParagraph begun) (title : Line) :
    block ≠ .heading title := by
  unfold closeParagraph at h
  split at h
  · cases h
  · rw [List.mem_singleton.mp h]
    exact Block.noConfusion

/-- A heading stands behind the paragraph that is closed before it. -/
theorem exists_of_close_append
    (h : closeParagraph begun ++ made = above ++ .heading title :: below) :
    ∃ above', above = closeParagraph begun ++ above' ∧ made = above' ++ .heading title :: below :=
  exists_of_append_eq (fun _ hblock => ne_heading_of_mem_close hblock) h

/-- A heading stands behind the preformatted text that is put before it. -/
theorem exists_of_run_append {pre : List Line}
    (h : closeParagraph begun ++ .preformatted pre :: made = above ++ .heading title :: below) :
    ∃ above', above = closeParagraph begun ++ [.preformatted pre] ++ above' ∧
      made = above' ++ .heading title :: below := by
  rw [← List.singleton_append, ← List.append_assoc] at h
  refine exists_of_append_eq ?_ h
  intro block hblock title
  rcases List.mem_append.mp hblock with hblock | hblock
  · exact ne_heading_of_mem_close hblock title
  · rw [List.mem_singleton.mp hblock]
    exact Block.noConfusion

/-- No heading stands among the blocks that the end of a paragraph makes. -/
theorem closeParagraph_ne (h : closeParagraph begun = above ++ .heading title :: below) : False :=
  ne_heading_of_mem_close (show Block.heading title ∈ closeParagraph begun by simp [h]) title rfl

/-- A line among lines that are made into blocks, with the title on it: the blocks above and below
are made of the lines before and behind it, a blank line and a plain one follow it, and the last
line before it that stands outside preformatted runs is blank. -/
structure IsHeadingLine (start : Bool) (lines before rest : List Line) (line title : Line)
    (above below : List Block) : Prop where
  lines_eq : lines = before ++ line :: rest
  holds : Holds [line] (.heading title)
  laidOut_above : LaidOut before above
  laidOut_below : LaidOut rest below
  followed : ∃ blank next more,
    rest = blank :: next :: more ∧ isBlankLine blank = true ∧ IsPlain next
  afterBlank : AfterBlank start before above

/-- Further lines before the first, with the blocks made of them. -/
theorem IsHeadingLine.append
    (h : IsHeadingLine start lines before rest line title above below)
    (hlaid : ∀ {lines made}, LaidOut lines made → LaidOut (more ++ lines) (others ++ made))
    (hmore : start = true → AfterBlank start' more others) :
    IsHeadingLine start' (more ++ lines) (more ++ before) rest line title (others ++ above)
      below where
  lines_eq := by rw [h.lines_eq, List.append_assoc]
  holds := h.holds
  laidOut_above := hlaid h.laidOut_above
  laidOut_below := h.laidOut_below
  followed := h.followed
  afterBlank := h.afterBlank.append hmore

/-- Each heading has its line. -/
theorem Scans.exists_line (h : Scans afterBlank afterHeading begun lines made)
    (hbegun : ∀ line ∈ begun, IsPlain line) (hblank : afterBlank = true → begun = [])
    (hmade : made = above ++ .heading title :: below) :
    ∃ before rest line,
      IsHeadingLine afterBlank (begun ++ lines) before rest line title above below := by
  induction h generalizing above with
  | done => exact (closeParagraph_ne hmade).elim
  | @blank b h begun rest line blocks hline _ ih =>
    obtain ⟨above', rfl, hblocks⟩ := exists_of_close_append hmade
    obtain ⟨before, more, titled, hfound⟩ := ih (by simp) (fun _ => rfl) hblocks
    have hlaid : ∀ {lines made}, LaidOut lines made →
        LaidOut (begun ++ [line] ++ lines) (closeParagraph begun ++ made) := fun hlines => by
      rw [List.append_assoc]
      exact (LaidOut.blank hline hlines).close hbegun
    have hafter : AfterBlank b (begun ++ [line]) (closeParagraph begun) := .blank hline
    have happend := hfound.append hlaid fun _ => hafter
    rw [List.nil_append, List.append_assoc, List.singleton_append] at happend
    exact ⟨_, _, _, happend⟩
  | @run b h begun run rest blocks hrun _ ih =>
    obtain ⟨above', rfl, hblocks⟩ := exists_of_run_append hmade
    obtain ⟨before, more, titled, hfound⟩ := ih (by simp) (fun _ => rfl) hblocks
    have hlaid : ∀ {lines made}, LaidOut lines made → LaidOut (begun ++ run ++ lines)
        (closeParagraph begun ++ [.preformatted (unindent run)] ++ made) := fun hlines => by
      rw [List.append_assoc, List.append_assoc]
      exact (LaidOut.block hrun.holds hlines).close hbegun
    have hafter : b = true → AfterBlank b (begun ++ run)
        (closeParagraph begun ++ [.preformatted (unindent run)]) := fun hb => by
      obtain rfl := hblank hb
      exact .run (.start hb) hrun.holds
    have happend := hfound.append hlaid hafter
    rw [List.nil_append, List.append_assoc] at happend
    exact ⟨_, _, _, happend⟩
  | @heading line blank next found rest blocks hline hfound hblank' hnext hrest ih =>
    have hholds : Holds [line] (.heading found) := .of_heading? hfound hline
    cases above with
    | nil =>
      obtain ⟨htitle, rfl⟩ := List.cons.inj hmade
      obtain rfl := Block.heading.inj htitle
      refine ⟨[], blank :: next :: rest, line, rfl, hholds, .nil, ?_, ?_, .start rfl⟩
      · exact .blank hblank' (hrest.laidOut (by simp))
      · exact ⟨blank, next, rest, rfl, hblank', hnext⟩
    | cons block above =>
      obtain ⟨rfl, hblocks⟩ := List.cons.inj hmade
      obtain ⟨before, more, titled, hfound⟩ := ih (by simp) (fun _ => rfl) hblocks
      have hlaid : ∀ {lines made}, LaidOut lines made →
          LaidOut ([line, blank] ++ lines) ([.heading found] ++ made) := fun hlines =>
        @LaidOut.block [line] _ _ _ hholds (.blank hblank' hlines)
      have hafter : AfterBlank true ([line] ++ [blank]) [.heading found] := .blank hblank'
      exact ⟨_, _, _, hfound.append hlaid fun _ => hafter⟩
  | @text b h begun rest line blocks hline _ ih =>
    have hplain : ∀ other ∈ begun ++ [line], IsPlain other := by
      simpa [or_imp, forall_and] using ⟨hbegun, hline⟩
    obtain ⟨before, more, titled, hfound⟩ := ih hplain (fun h => absurd h Bool.false_ne_true) hmade
    have hafter : AfterBlank b ([] ++ before) ([] ++ above) :=
      hfound.afterBlank.append fun hfalse => absurd hfalse Bool.false_ne_true
    rw [List.append_assoc] at hfound
    exact ⟨_, _, _, { hfound with afterBlank := hafter }⟩

/-- Where a paragraph has begun, it is the first block. -/
theorem scans_begun (h : Scans afterBlank afterHeading begun lines made) (hbegun : begun ≠ []) :
    ∃ run more, made = .paragraph run :: more := by
  have hclose : ∀ {begun}, begun ≠ [] → closeParagraph begun = [.paragraph begun] := by
    intro begun hne
    simp [closeParagraph, hne]
  induction h with
  | done => exact ⟨_, _, hclose hbegun⟩
  | blank | run => exact ⟨_, _, by rw [hclose hbegun, List.singleton_append]⟩
  | heading => exact absurd rfl hbegun
  | text _ _ ih => exact ih (by simp)

/-- What follows a heading is a paragraph. -/
theorem Scans.exists_paragraph (h : Scans afterBlank true [] (next :: rest) made)
    (hnext : IsPlain next) : ∃ run more, made = .paragraph run :: more := by
  generalize hlines : next :: rest = lines at h
  cases h with
  | done => cases hlines
  | blank hblank =>
    obtain ⟨rfl, -⟩ := List.cons.inj hlines
    rw [hnext.1] at hblank
    cases hblank
  | @run _ _ _ run rest' _ hrun =>
    obtain ⟨first, hfirst, hblank⟩ := hrun.first
    have hsame : next = first := by
      have hhead := congrArg List.head? hlines
      rw [List.head?_append, hfirst] at hhead
      simpa using hhead
    subst hsame
    rcases hrun.all next (List.mem_of_head? hfirst) with hline | hline
    · rw [hnext.1] at hline
      cases hline
    · rw [hnext.2] at hline
      cases hline
  | text _ htext => exact scans_begun htext (by simp)

/-- No two headings follow one another. -/
theorem Scans.not_adjacent (h : Scans afterBlank afterHeading begun lines made) :
    made ≠ above ++ .heading title :: .heading title' :: below := by
  intro hmade
  induction h generalizing above with
  | done => exact closeParagraph_ne hmade
  | blank _ _ ih =>
    obtain ⟨above', -, hblocks⟩ := exists_of_close_append hmade
    exact ih hblocks
  | run _ _ ih =>
    obtain ⟨above', -, hblocks⟩ := exists_of_run_append hmade
    exact ih hblocks
  | heading _ _ _ hnext hrest ih =>
    cases above with
    | nil =>
      obtain ⟨run, more, hparagraph⟩ := hrest.exists_paragraph hnext
      rw [hparagraph] at hmade
      cases (List.cons.inj hmade).2
    | cons block above => exact ih (List.cons.inj hmade).2
  | text _ _ ih => exact ih hmade

/-- **Headings stand alone.** The line of a heading is followed by a blank line and then by a line
of text that is not indented. It follows a blank line, or else the last line of preformatted text,
and in any case the last line before it that stands outside preformatted text is blank. No other
heading follows it. -/
theorem heading_stands_alone {text : List Char}
    (h : blocks text = above ++ .heading title :: below) :
    (∃ before rest line,
      IsHeadingLine false (unindent (splitLines text)) before rest line title above below ∧
        ((∃ prev ∈ before.getLast?, isBlankLine prev = true) ∨
          ∃ front run pre, before = front ++ run ∧ Holds run (.preformatted pre) ∧
            above.getLast? = some (.preformatted pre))) ∧
      ∀ title', below.head? ≠ some (.heading title') := by
  have hscans := scans_blocks text
  obtain ⟨before, rest, line, hline⟩ := hscans.exists_line (by simp) (fun _ => rfl) h
  refine ⟨⟨before, rest, line, hline, ?_⟩, ?_⟩
  · obtain hstart | ⟨hblank⟩ | ⟨_, hrun⟩ := hline.afterBlank
    · cases hstart
    · exact .inl ⟨_, by simp, hblank⟩
    · exact .inr ⟨_, _, _, rfl, hrun, by simp⟩
  · intro title' hbelow
    obtain ⟨more, rfl⟩ := List.head?_eq_some_iff.mp hbelow
    exact hscans.not_adjacent h

/-- A title between blank lines. -/
theorem heading_stands_alone_title :
    blocks "a\n\nC\n\nd\n".toList =
        [.paragraph ["a\n".toList]] ++ .heading "C".toList :: [.paragraph ["d\n".toList]] ∧
      ∃ before rest line,
        IsHeadingLine false (unindent (splitLines "a\n\nC\n\nd\n".toList)) before rest line
          "C".toList [.paragraph ["a\n".toList]] [.paragraph ["d\n".toList]] ∧
        ∃ prev ∈ before.getLast?, isBlankLine prev = true := by
  have hblocks : blocks "a\n\nC\n\nd\n".toList =
      [.paragraph ["a\n".toList]] ++ .heading "C".toList :: [.paragraph ["d\n".toList]] := by
    decide +kernel
  obtain ⟨⟨before, rest, line, hline, hbefore⟩, -⟩ := heading_stands_alone hblocks
  refine ⟨hblocks, before, rest, line, hline, ?_⟩
  rcases hbefore with hblank | ⟨_, _, _, -, -, habove⟩
  · exact hblank
  · cases habove

/-- The title of a heading is its line without the white space around it. -/
theorem Holds.title_eq (h : Holds [line] (.heading title)) : title = trim isBlank line := by
  generalize hrun : [line] = run at h
  cases h
  obtain rfl := List.singleton_inj.mp hrun
  rfl

/-- A title that follows preformatted text directly is a heading, although the line before the one
that it stands on is not blank. -/
theorem exists_heading_behind_preformatted : ∃ text above title below,
    blocks text = above ++ .heading title :: below ∧
      ∀ pair ∈ (unindent (splitLines text)).zip (unindent (splitLines text)).tail,
        Holds [pair.2] (.heading title) → isBlankLine pair.1 = false := by
  have hpairs : ∀ pair ∈ (unindent (splitLines "a\n\n\tb\nC\n\nd\n".toList)).zip
      (unindent (splitLines "a\n\n\tb\nC\n\nd\n".toList)).tail,
      "C".toList = trim isBlank pair.2 → isBlankLine pair.1 = false := by decide
  have hblocks : blocks "a\n\n\tb\nC\n\nd\n".toList =
      [.paragraph ["a\n".toList], .preformatted ["b\n".toList]] ++ .heading "C".toList ::
        [.paragraph ["d\n".toList]] := by decide +kernel
  exact ⟨_, _, _, _, hblocks, fun pair hpair hholds => hpairs pair hpair hholds.title_eq⟩

end SymbolGraph.Comment
