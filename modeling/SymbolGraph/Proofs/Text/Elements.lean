import SymbolGraph.Text.Cut

/-!
# Elements

A text is its pieces between separators, and nothing else: pieces without separators are found
again in the text that they are joined to (`splitOn_join`), and two texts with a separator between
them have the pieces of both (`splitOn_append_cons`). So what is asked of an import path as a text
can be told of its elements: that it lies at or below another path (`splitOn_prefix_iff`), and that
a word stands in it before a slash (`infix_concat_iff`).
-/

namespace SymbolGraph.Text

variable {sep : Char} {text more word before after : List Char}
  {pieces front back : List (List Char)}

/-! ## Joining -/

/-- One piece more in front of others. -/
theorem join_cons {s piece : List Char} (h : pieces ≠ []) :
    join s (piece :: pieces) = piece ++ s ++ join s pieces := by
  rw [join_eq_intercalate, join_eq_intercalate, List.intercalate_cons_of_ne_nil h]

/-- Pieces are joined in two parts with a separator between them. -/
theorem join_append {s : List Char} (hfront : front ≠ []) (hback : back ≠ []) :
    join s (front ++ back) = join s front ++ s ++ join s back := by
  induction front with
  | nil => exact absurd rfl hfront
  | cons piece rest ih =>
    cases rest with
    | nil => exact join_cons hback
    | cons next rest =>
      have hrest : next :: rest ≠ [] := List.cons_ne_nil _ _
      rw [List.cons_append, join_cons (by simp), ih hrest, join_cons hrest]
      simp only [List.append_assoc]

/-- Every character that is joined comes from the separator or from a piece. -/
theorem mem_of_mem_join {s : List Char} {c : Char} (h : c ∈ join s pieces) :
    c ∈ s ∨ ∃ piece ∈ pieces, c ∈ piece := by
  induction pieces with
  | nil => cases h
  | cons piece rest ih =>
    by_cases hrest : rest = []
    · subst hrest
      exact .inr ⟨piece, List.mem_cons_self, h⟩
    · rw [join_cons hrest, List.mem_append, List.mem_append] at h
      rcases h with (hpiece | hsep) | hbehind
      · exact .inr ⟨piece, List.mem_cons_self, hpiece⟩
      · exact .inl hsep
      · refine (ih hbehind).imp_right ?_
        rintro ⟨other, hother, hc⟩
        exact ⟨other, List.mem_cons_of_mem _ hother, hc⟩

/-- Every character of a piece is joined. -/
theorem mem_join_of_mem {s piece : List Char} {c : Char} (hpiece : piece ∈ pieces)
    (hc : c ∈ piece) : c ∈ join s pieces := by
  obtain ⟨front, back, rfl⟩ := List.append_of_mem hpiece
  have hhead : c ∈ join s (piece :: back) := by
    cases back with
    | nil => exact hc
    | cons _ _ => simp [join, hc]
  by_cases hfront : front = []
  · subst hfront
    exact hhead
  · rw [join_append hfront (List.cons_ne_nil _ _)]
    exact List.mem_append_right _ hhead

/-- What is joined begins with what the first pieces are joined to, and goes on with a separator if
there are others. -/
theorem exists_join_append (hfront : front ≠ []) :
    ∃ rest, join [sep] (front ++ back) = join [sep] front ++ rest ∧
      (rest = [] ∨ ∃ below, rest = sep :: below) := by
  by_cases hback : back = []
  · subst hback
    exact ⟨[], by rw [List.append_nil, List.append_nil], .inl rfl⟩
  · refine ⟨sep :: join [sep] back, ?_, .inr ⟨_, rfl⟩⟩
    rw [join_append hfront hback, List.append_assoc]
    rfl

/-- What is joined ends with the last piece. -/
theorem exists_join_concat (s : List Char) (front : List (List Char)) :
    ∃ start, (start = [] ∨ s <:+ start) ∧ ∀ last, join s (front ++ [last]) = start ++ last := by
  by_cases hfront : front = []
  · subst hfront
    exact ⟨[], .inl rfl, fun _ => rfl⟩
  · exact ⟨join s front ++ s, .inr (List.suffix_append _ _), fun last =>
      join_append hfront (List.cons_ne_nil _ _)⟩

/-! ## Splitting -/

/-- A separator at the start leaves an empty piece before it. -/
theorem splitOn_cons_self (sep : Char) (text : List Char) :
    splitOn sep (sep :: text) = [] :: splitOn sep text := by
  rw [splitOn, if_pos rfl]

/-- Any other character goes to the first piece. -/
theorem splitOn_cons_of_ne {c : Char} {piece : List Char} (h : c ≠ sep)
    (htext : splitOn sep text = piece :: pieces) :
    splitOn sep (c :: text) = (c :: piece) :: pieces := by
  rw [splitOn, if_neg h, htext]

/-- The first piece of a text is what stands before its first separator. -/
theorem exists_splitOn_eq (sep : Char) (text : List Char) :
    ∃ rest, splitOn sep text = firstPiece sep text :: rest := by
  induction text with
  | nil => exact ⟨[], rfl⟩
  | cons c text ih =>
    obtain ⟨rest, hrest⟩ := ih
    by_cases h : c = sep
    · subst h
      exact ⟨splitOn c text, by rw [splitOn_cons_self]; simp [firstPiece]⟩
    · exact ⟨rest, by rw [splitOn_cons_of_ne h hrest]; simp [firstPiece, h]⟩

/-- The first piece is that of the cut. -/
theorem firstPiece_of_splitOn {piece : List Char} (h : splitOn sep text = piece :: pieces) :
    firstPiece sep text = piece := by
  obtain ⟨rest, hrest⟩ := exists_splitOn_eq sep text
  rw [hrest] at h
  exact (List.cons.inj h).1

/-- A text without separators is one piece. -/
theorem splitOn_of_not_mem (h : sep ∉ text) : splitOn sep text = [text] := by
  rw [splitOn_eq_listSplitOn, List.splitOn_eq_singleton h]

/-- Two texts with a separator between them have the pieces of both. -/
theorem splitOn_append_cons (sep : Char) (text more : List Char) :
    splitOn sep (text ++ sep :: more) = splitOn sep text ++ splitOn sep more := by
  simp only [splitOn_eq_listSplitOn, List.splitOn_append_cons_self]

/-- Up to its first separator a text can be read in one way only. -/
theorem separator_cancel {x y u v : List Char} (hx : sep ∉ x) (hy : sep ∉ y)
    (h : x ++ sep :: u = y ++ sep :: v) : x = y ∧ u = v := by
  have hpieces := congrArg (splitOn sep) h
  rw [splitOn_append_cons, splitOn_append_cons, splitOn_of_not_mem hx,
    splitOn_of_not_mem hy] at hpieces
  obtain rfl := (List.cons.inj hpieces).1
  exact ⟨rfl, (List.cons.inj (List.append_cancel_left h)).2⟩

/-- There is no separator in a piece. -/
theorem not_mem_of_mem_splitOn {piece : List Char} (h : piece ∈ splitOn sep text) :
    sep ∉ piece := by
  induction text generalizing piece with
  | nil =>
    obtain rfl := List.mem_singleton.mp h
    exact List.not_mem_nil
  | cons c text ih =>
    by_cases hc : c = sep
    · subst hc
      rw [splitOn_cons_self] at h
      rcases List.mem_cons.mp h with rfl | hpiece
      · exact List.not_mem_nil
      · exact ih hpiece
    · obtain ⟨rest, hrest⟩ := exists_splitOn_eq sep text
      rw [splitOn_cons_of_ne hc hrest] at h
      rw [hrest] at ih
      rcases List.mem_cons.mp h with rfl | hpiece
      · rw [List.mem_cons, not_or]
        exact ⟨Ne.symm hc, ih List.mem_cons_self⟩
      · exact ih (List.mem_cons_of_mem _ hpiece)

/-- No separator is left in a piece. -/
theorem not_mem_of_splitOn_eq (h : splitOn sep text = pieces) : ∀ piece ∈ pieces, sep ∉ piece :=
  fun _ hpiece => not_mem_of_mem_splitOn (h ▸ hpiece)

/-- The pieces have only characters of the text. -/
theorem mem_of_mem_splitOn {piece : List Char} {c : Char} (h : piece ∈ splitOn sep text)
    (hc : c ∈ piece) : c ∈ text := by
  rw [← join_splitOn sep text]
  exact mem_join_of_mem h hc

/-- Pieces without separators are found again. -/
theorem splitOn_join (hpieces : pieces ≠ []) (h : ∀ piece ∈ pieces, sep ∉ piece) :
    splitOn sep (join [sep] pieces) = pieces := by
  rw [splitOn_eq_listSplitOn, join_eq_intercalate, List.splitOn_intercalate sep h hpieces]

/-- Some of the first pieces, joined, are where the text begins. -/
theorem splitOn_join_front (h : splitOn sep text = front ++ back) (hfront : front ≠ []) :
    splitOn sep (join [sep] front) = front :=
  splitOn_join hfront fun _ hpiece => not_mem_of_splitOn_eq h _ (List.mem_append_left back hpiece)

/-- A text is put together of the pieces it was cut into. -/
theorem eq_join_of_splitOn (h : splitOn sep text = pieces) : text = join [sep] pieces := by
  rw [← h, join_splitOn]

/-- More without separators is added to the last piece. -/
theorem splitOn_append_of_not_mem {last : List Char} (h : splitOn sep text = front ++ [last])
    (hmore : sep ∉ more) : splitOn sep (text ++ more) = front ++ [last ++ more] := by
  have hpieces : ∀ piece ∈ front ++ [last ++ more], sep ∉ piece := by
    intro _ hpiece
    rcases List.mem_append.mp hpiece with hpiece | hpiece
    · exact not_mem_of_splitOn_eq h _ (List.mem_append_left _ hpiece)
    · obtain rfl := List.mem_singleton.mp hpiece
      rw [List.mem_append, not_or]
      exact ⟨not_mem_of_splitOn_eq h _ (by simp), hmore⟩
  obtain ⟨start, -, hstart⟩ := exists_join_concat [sep] front
  rw [eq_join_of_splitOn h, hstart, List.append_assoc, ← hstart,
    splitOn_join (List.append_ne_nil_of_right_ne_nil _ (List.cons_ne_nil _ _)) hpieces]

/-- The pieces of a text begin with those of another exactly if it is that text, or goes on with a
separator behind it. -/
theorem splitOn_prefix_iff {root : List Char} :
    splitOn sep root <+: splitOn sep text ↔ text = root ∨ ∃ below, text = root ++ sep :: below := by
  constructor
  · rintro ⟨back, hback⟩
    obtain ⟨rest, hrest, hshape⟩ := @exists_join_append sep _ back (splitOn_ne_nil sep root)
    rw [hback, join_splitOn, join_splitOn] at hrest
    rcases hshape with rfl | ⟨below, rfl⟩
    · exact .inl (by rw [hrest, List.append_nil])
    · exact .inr ⟨below, hrest⟩
  · rintro (rfl | ⟨below, rfl⟩)
    · exact List.prefix_refl _
    · rw [splitOn_append_cons]
      exact List.prefix_append _ _

/-- A piece other than the last has others behind it. -/
theorem exists_of_mem_dropLast {piece : List Char} (h : piece ∈ pieces.dropLast) :
    ∃ front back, pieces = front ++ piece :: back ∧ back ≠ [] := by
  have hne : pieces ≠ [] := fun hnil => by rw [hnil] at h; cases h
  obtain ⟨front, back, hsplit⟩ := List.append_of_mem h
  refine ⟨front, back ++ [pieces.getLast hne], ?_, by simp⟩
  rw [← List.cons_append, ← List.append_assoc, ← hsplit, List.dropLast_concat_getLast]

/-- Of the pieces of which something is true, one is the last. -/
theorem exists_last {p : List Char → Prop} (h : ∃ piece ∈ pieces, p piece) :
    ∃ front piece back, pieces = front ++ piece :: back ∧ p piece ∧ ∀ other ∈ back, ¬ p other := by
  induction pieces with
  | nil =>
    obtain ⟨_, hmem, -⟩ := h
    cases hmem
  | cons first rest ih =>
    by_cases hrest : ∃ piece ∈ rest, p piece
    · obtain ⟨front, piece, back, rfl, hpiece, hback⟩ := ih hrest
      exact ⟨first :: front, piece, back, rfl, hpiece, hback⟩
    · obtain ⟨piece, hmem, hpiece⟩ := h
      rcases List.mem_cons.mp hmem with rfl | hmem
      · exact ⟨[], piece, rest, rfl, hpiece, fun other hother hp => hrest ⟨other, hother, hp⟩⟩
      · exact absurd ⟨piece, hmem, hpiece⟩ hrest

/-- A word without separators stands before a separator exactly if a piece other than the last ends
in it. -/
theorem infix_concat_iff (hword : sep ∉ word) :
    word ++ [sep] <:+: text ↔ ∃ piece ∈ (splitOn sep text).dropLast, word <:+ piece := by
  constructor
  · rintro ⟨before, after, rfl⟩
    have hlast := (List.dropLast_concat_getLast (splitOn_ne_nil sep before)).symm
    have htext : before ++ (word ++ [sep]) ++ after = (before ++ word) ++ sep :: after := by
      simp only [List.append_assoc, List.singleton_append]
    refine ⟨(splitOn sep before).getLast (splitOn_ne_nil _ _) ++ word, ?_, List.suffix_append _ _⟩
    rw [htext, splitOn_append_cons, splitOn_append_of_not_mem hlast hword,
      List.dropLast_append_of_ne_nil (splitOn_ne_nil _ _)]
    exact List.mem_append_left _ (List.mem_append_right _ (List.mem_singleton_self _))
  · rintro ⟨_, hpiece, stem, rfl⟩
    obtain ⟨front, back, hsplit, hback⟩ := exists_of_mem_dropLast hpiece
    obtain ⟨start, -, hstart⟩ := exists_join_concat [sep] front
    rw [← List.singleton_append, ← List.append_assoc] at hsplit
    refine ⟨start ++ stem, join [sep] back, ?_⟩
    rw [eq_join_of_splitOn hsplit, join_append (by simp) hback, hstart]
    simp only [List.append_assoc]

/-- The elements of an import path. -/
def elements (path : String) : List (List Char) := splitOn '/' path.toList

/-- An import path is put together of its elements. -/
theorem ofList_join_elements (path : String) :
    String.ofList (join ['/'] (elements path)) = path := by
  rw [elements, join_splitOn, String.ofList_toList]

/-! ## Fields -/

section Fields

variable {p : Char → Bool} {lead piece : List Char}

/-- White space at the start is passed over. -/
theorem fields_append_of_forall (h : ∀ c ∈ lead, p c = true) (text : List Char) :
    fields p (lead ++ text) = fields p text := by
  induction lead with
  | nil => rfl
  | cons c lead ih =>
    rw [List.cons_append, fields.eq_def]
    simp only [h c List.mem_cons_self, if_true]
    exact ih fun d hd => h d (List.mem_cons_of_mem _ hd)

/-- A field ends where a character follows that belongs to none. -/
theorem fields_append (hne : piece ≠ []) (h : ∀ c ∈ piece, p c = false)
    (hmore : ∀ c ∈ more.head?, p c = true) : fields p (piece ++ more) = piece :: fields p more := by
  induction piece with
  | nil => exact absurd rfl hne
  | cons c piece ih =>
    have hc : ¬ p c = true := by simp [h c List.mem_cons_self]
    cases piece with
    | nil =>
      cases more with
      | nil => simp [fields, hc]
      | cons d more => simp [fields, hc, hmore d rfl]
    | cons d piece =>
      have hd : ¬ p d = true := by simp [h d (by simp)]
      have hrest := ih (by simp) fun b hb => h b (List.mem_cons_of_mem _ hb)
      rw [List.cons_append] at hrest
      rw [List.cons_append, List.cons_append, fields.eq_def]
      simp [hc, hd, hrest]

/-- The first field stands behind characters that belong to none. -/
theorem fields_eq_cons (h : fields p text = piece :: pieces) :
    ∃ lead more, text = lead ++ (piece ++ more) ∧ (∀ c ∈ lead, p c = true) ∧
      (piece ≠ [] ∧ ∀ c ∈ piece, p c = false) ∧ (∀ c ∈ more.head?, p c = true) ∧
      fields p more = pieces := by
  have hlead : ∀ c ∈ text.takeWhile p, p c = true := List.all_eq_true.mp List.all_takeWhile
  have hcut := (@List.takeWhile_append_dropWhile _ p text).symm
  have hstart := List.head?_dropWhile_not p text
  generalize text.dropWhile p = rest at hcut hstart
  have hword : ∀ c ∈ rest.takeWhile (fun d => !p d), p c = false := fun c hc => by
    simpa using List.all_eq_true.mp List.all_takeWhile c hc
  have hrest := (@List.takeWhile_append_dropWhile _ (fun d => !p d) rest).symm
  have hend := List.head?_dropWhile_not (fun d => !p d) rest
  rw [hcut, fields_append_of_forall hlead] at h
  cases rest with
  | nil => cases h
  | cons c rest =>
    have hne : (c :: rest).takeWhile (fun d => !p d) ≠ [] := by
      simp [show p c = false from hstart]
    have hmore : ∀ d ∈ ((c :: rest).dropWhile fun d => !p d).head?, p d = true := by
      intro d hd
      rw [Option.mem_def.mp hd] at hend
      simpa using hend
    rw [hrest, fields_append hne hword hmore] at h
    obtain ⟨rfl, rfl⟩ := List.cons.inj h
    exact ⟨_, _, by rw [← hrest, ← hcut], hlead, ⟨hne, hword⟩, hmore, rfl⟩

end Fields

/-! ## Endings -/

/-- The test for a beginning. -/
theorem startsWith_iff : startsWith word text = true ↔ word <+: text := by
  rw [startsWith, Option.isSome_iff_exists]
  simp only [stripStart?_eq_some_iff]
  exact ⟨fun ⟨rest, hrest⟩ => ⟨rest, hrest.symm⟩, fun ⟨rest, hrest⟩ => ⟨rest, hrest.symm⟩⟩

/-- The test for an ending. -/
theorem endsWith_iff : endsWith word text = true ↔ word <:+ text := by
  rw [endsWith, Option.isSome_iff_exists]
  simp only [stripEnd?_eq_some_iff]
  exact ⟨fun ⟨rest, hrest⟩ => ⟨rest, hrest.symm⟩, fun ⟨rest, hrest⟩ => ⟨rest, hrest.symm⟩⟩

/-- A word without separators that a text ends in is in its last piece. -/
theorem suffix_of_suffix_append_cons (hword : sep ∉ word) (h : word <:+ before ++ sep :: after) :
    word <:+ after := by
  have hafter : sep :: after <:+ before ++ sep :: after := List.suffix_append _ _
  rcases List.suffix_or_suffix_of_suffix h hafter with hshort | hlong
  · rcases List.suffix_cons_iff.mp hshort with rfl | hsuffix
    · exact absurd List.mem_cons_self hword
    · exact hsuffix
  · exact absurd (hlong.subset List.mem_cons_self) hword

/-- Nothing is trimmed off a text whose last character stays. -/
theorem trimEnd_of_getLast? {p : Char → Bool} (h : ∀ c, text.getLast? = some c → p c = false) :
    trimEnd p text = text := by
  induction text with
  | nil => rfl
  | cons c rest ih =>
    cases rest with
    | nil => simp [trimEnd, h c rfl]
    | cons d more =>
      rw [trimEnd, ih fun c hc => h c (by rw [List.getLast?_cons_cons]; exact hc)]

/-- What is trimmed behind a text is trimmed with it. -/
theorem trimEnd_append_of_forall {p : Char → Bool} (h : ∀ c ∈ more, p c = true) :
    trimEnd p (text ++ more) = trimEnd p text := by
  induction text with
  | nil =>
    induction more with
    | nil => rfl
    | cons c more ih =>
      have hmore := ih fun d hd => h d (List.mem_cons_of_mem _ hd)
      rw [List.nil_append] at hmore ⊢
      simp [trimEnd, hmore, h c List.mem_cons_self]
  | cons c text ih => rw [List.cons_append, trimEnd, trimEnd, ih]

/-! ## Occurrences -/

/-- A word at the start is found there. -/
theorem splitFirst?_append (word after : List Char) :
    splitFirst? word (word ++ after) = some ([], after) := by
  have hstrip : stripStart? word (word ++ after) = some after := stripStart?_eq_some_iff.mpr rfl
  cases htext : word ++ after with
  | nil =>
    obtain ⟨rfl, rfl⟩ := List.append_eq_nil_iff.mp htext
    rfl
  | cons c rest =>
    rw [htext] at hstrip
    rw [splitFirst?, hstrip]

/-- A word at the start of a text is its first occurrence. -/
theorem replaceFirst_append (word new after : List Char) :
    replaceFirst word new (word ++ after) = new ++ after := by
  rw [replaceFirst, splitFirst?_append]
  rfl

/-- The first occurrence of a word is one before whose last character it does not occur. -/
theorem splitFirst?_of_not_infix (h : ¬ word <:+: before ++ word.dropLast) :
    splitFirst? word (before ++ (word ++ after)) = some (before, after) := by
  induction before with
  | nil => exact splitFirst?_append word after
  | cons c before ih =>
    have hrest : ¬ word <:+: before ++ word.dropLast := fun hoccurs =>
      h (hoccurs.trans (List.suffix_cons _ _).isInfix)
    have hnot : stripStart? word (c :: (before ++ (word ++ after))) = none := by
      rw [← Option.not_isSome_iff_eq_none]
      intro hstarts
      have hprefix : word <+: c :: (before ++ (word ++ after)) := startsWith_iff.mp hstarts
      have hlong : c :: (before ++ word.dropLast) <+: c :: (before ++ (word ++ after)) := by
        rw [List.prefix_cons_inj, List.prefix_append_right_inj]
        exact (List.dropLast_prefix word).trans (List.prefix_append word after)
      have hlength : word.length ≤ (c :: (before ++ word.dropLast)).length := by
        simp only [List.length_cons, List.length_append, List.length_dropLast]
        omega
      exact h (List.prefix_of_prefix_length_le hprefix hlong hlength).isInfix
    rw [List.cons_append, splitFirst?, hnot]
    simp [ih hrest]

/-- A text is put together of what is before and behind the first place of a word. -/
theorem eq_append_of_splitFirst? (h : splitFirst? word text = some (before, after)) :
    text = before ++ word ++ after := by
  induction text generalizing before with
  | nil =>
    rw [splitFirst?] at h
    obtain ⟨rfl, hparts⟩ := Option.ite_none_right_eq_some.mp h
    cases hparts
    rfl
  | cons c rest ih =>
    rw [splitFirst?] at h
    split at h
    · rename_i hstrip
      cases h
      exact stripStart?_eq_some_iff.mp hstrip
    · obtain ⟨_, hfirst, hparts⟩ := Option.map_eq_some_iff.mp h
      cases hparts
      rw [ih hfirst]
      rfl

/-- No last place of a word is found exactly where the word does not occur. -/
theorem splitLast?_eq_none_iff : splitLast? word text = none ↔ ¬ word <:+: text := by
  induction text with
  | nil => simp [splitLast?]
  | cons c rest ih =>
    have hstrip : stripStart? word (c :: rest) = none ↔ ¬ word <+: c :: rest := by
      rw [← startsWith_iff, startsWith, Bool.not_eq_true, Option.isSome_eq_false_iff,
        Option.isNone_iff_eq_none]
    rw [List.infix_cons_iff, not_or, ← ih, ← hstrip]
    cases hlast : splitLast? word rest with
    | some parts => simp [splitLast?, hlast]
    | none => simp [splitLast?, hlast]

/-- A text is put together of what is before and behind the last place of a word. -/
theorem eq_append_of_splitLast? (h : splitLast? word text = some (before, after)) :
    text = before ++ word ++ after := by
  induction text generalizing before with
  | nil =>
    rw [splitLast?] at h
    split at h
    · rename_i hword
      cases h
      rw [hword]
      rfl
    · cases h
  | cons c rest ih =>
    rw [splitLast?] at h
    split at h
    · rename_i hlast
      cases h
      rw [ih hlast]
      rfl
    · obtain ⟨_, hstrip, hparts⟩ := Option.map_eq_some_iff.mp h
      cases hparts
      exact stripStart?_eq_some_iff.mp hstrip

/-- The last occurrence of a word is one behind whose first character it does not occur. -/
theorem splitLast?_of_not_infix (hword : word ≠ []) (h : ¬ word <:+: word.tail ++ after) :
    splitLast? word (before ++ word ++ after) = some (before, after) := by
  induction before with
  | nil =>
    cases word with
    | nil => exact absurd rfl hword
    | cons c rest =>
      have hstrip : stripStart? (c :: rest) (c :: (rest ++ after)) = some after :=
        stripStart?_eq_some_iff.mpr rfl
      rw [List.nil_append, List.cons_append, splitLast?,
        splitLast?_eq_none_iff.mpr (show ¬ c :: rest <:+: rest ++ after from h), hstrip]
      rfl
  | cons c before ih =>
    rw [List.cons_append, List.cons_append, splitLast?, ih]

/-- The last place where a word without separators stands before one is the end of the last piece
that ends in it and has others behind it. -/
theorem splitLast?_concat {stem : List Char} (hword : sep ∉ word) (hne : word ≠ [])
    (htext : splitOn sep text = front ++ (stem ++ word) :: back) (hback : back ≠ [])
    (hlast : ∀ piece ∈ back.dropLast, ¬ word <:+ piece) :
    splitLast? (word ++ [sep]) text = some (join [sep] (front ++ [stem]), join [sep] back) := by
  have hbehind : splitOn sep (join [sep] back) = back := by
    refine splitOn_join hback fun piece hpiece => not_mem_of_splitOn_eq htext piece ?_
    exact List.mem_append_right _ (List.mem_cons_of_mem _ hpiece)
  have hagain : ¬ word ++ [sep] <:+: (word ++ [sep]).tail ++ join [sep] back := by
    rw [infix_concat_iff hword, List.tail_append_of_ne_nil hne, List.append_assoc,
      List.singleton_append, splitOn_append_cons, hbehind,
      splitOn_of_not_mem fun hmem => hword (List.mem_of_mem_tail hmem), List.singleton_append,
      List.dropLast_cons_of_ne_nil hback]
    rintro ⟨piece, hpiece, hsuffix⟩
    rcases List.mem_cons.mp hpiece with rfl | hpiece
    · have hlength := hsuffix.length_le
      rw [List.length_tail] at hlength
      have := List.length_pos_iff.mpr hne
      omega
    · exact hlast piece hpiece hsuffix
  obtain ⟨start, -, hstart⟩ := exists_join_concat [sep] front
  rw [← List.singleton_append, ← List.append_assoc] at htext
  have heq : text = join [sep] (front ++ [stem]) ++ (word ++ [sep]) ++ join [sep] back := by
    rw [eq_join_of_splitOn htext, join_append (by simp) hback, hstart, hstart]
    simp only [List.append_assoc]
  rw [heq]
  exact splitLast?_of_not_infix (by simp) hagain

end SymbolGraph.Text
