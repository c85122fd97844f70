import SymbolGraph.Program.Assembly

/-!
# Places of words

Where a text is found in a file. A scan from left to right stops at places behind one another
(`IsLeftmost`). Of an identifier only those count where it stands alone (`StandsAlone`), and no such
place is passed over: where the identifier begins inside another place of it, one of its own
characters stands in front (`eq_of_standsAlone`). The ranges in a file are told by `tryFind_eq`.
-/

namespace SymbolGraph.Text

variable {word text before after passed rest : List Char} {place : Nat}

/-! ## Byte lengths -/

/-- Only the empty text has no bytes. -/
theorem byteLength_eq_zero_iff : byteLength text = 0 ↔ text = [] := by
  cases text with
  | nil => simp [byteLength]
  | cons c text =>
    have := c.utf8Size_pos
    simp only [byteLength, reduceCtorEq, iff_false]
    omega

/-- A beginning has no more bytes than the text. -/
theorem byteLength_le_of_prefix (h : before <+: text) : byteLength before ≤ byteLength text := by
  obtain ⟨rest, rfl⟩ := h
  simp

/-- Of two beginnings of a text the one with fewer bytes is a beginning of the other. -/
theorem prefix_of_byteLength_le (hbefore : before <+: text) (hpassed : passed <+: text)
    (h : byteLength before ≤ byteLength passed) : before <+: passed := by
  rcases List.prefix_or_prefix_of_prefix hbefore hpassed with hstarts | ⟨more, rfl⟩
  · exact hstarts
  · have hmore : byteLength more = 0 := by
      rw [byteLength_append] at h
      omega
    simp [byteLength_eq_zero_iff.mp hmore]

/-! ## Identifiers -/

/-- Looking a code point up in an increasing table finds the range that it lies in. -/
theorem inRanges_iff {n : Nat} {ranges : List (Nat × Nat)}
    (h : ranges.Pairwise fun r s => r.1 ≤ s.1) :
    inRanges n ranges = true ↔ ∃ r ∈ ranges, r.1 ≤ n ∧ n ≤ r.2 := by
  induction ranges with
  | nil => simp [inRanges]
  | cons r ranges ih =>
    obtain ⟨hfirst, hothers⟩ := List.pairwise_cons.mp h
    rw [inRanges]
    by_cases hlow : n < r.1
    · rw [if_pos hlow]
      simp only [Bool.false_eq_true, false_iff, not_exists, not_and]
      intro s hs hle
      rcases List.mem_cons.mp hs with rfl | hs
      · omega
      · have := hfirst s hs
        omega
    · rw [if_neg hlow, Bool.or_eq_true, decide_eq_true_eq, ih hothers]
      simp [Nat.le_of_not_lt hlow]

/-- A character that may start an identifier may also continue one. -/
theorem isIdentifierRest_of_isIdentifierStart {c : Char} (h : isIdentifierStart c = true) :
    isIdentifierRest c = true := by
  simp only [isIdentifierStart, Bool.and_eq_true, Bool.or_eq_true, Bool.not_eq_true'] at h
  obtain ⟨hstart, hmissing⟩ := h
  have hkept : inRanges c.toNat CharTable.continueMissing = false := by
    rw [Bool.eq_false_iff, Ne, inRanges_iff (by decide)] at hmissing ⊢
    rintro ⟨r, hr, hin⟩
    have hsub : ∀ r ∈ CharTable.continueMissing, r ∈ CharTable.startMissing := by decide
    exact hmissing ⟨r, hsub r hr, hin⟩
  have hextra : inRanges c.toNat CharTable.startExtra = true →
      inRanges c.toNat CharTable.nonspacingMarks = true ∨
        inRanges c.toNat CharTable.continueExtra = true := by
    intro hextra
    obtain ⟨r, hr, hlo, hhi⟩ := (inRanges_iff (by decide)).mp hextra
    simp only [CharTable.startExtra, List.mem_cons, List.not_mem_nil, or_false] at hr
    have hcases : c.toNat = 0x1885 ∨ c.toNat = 0x1886 ∨ c.toNat = 0x2118 ∨ c.toNat = 0x212E := by
      rcases hr with rfl | rfl | rfl <;> simp only at hlo hhi <;> omega
    rcases hcases with hc | hc | hc | hc <;> rw [hc]
    · exact .inl (by decide)
    · exact .inl (by decide)
    · exact .inr (by decide)
    · exact .inr (by decide)
  simp only [isIdentifierRest, Bool.and_eq_true, Bool.or_eq_true, hkept, Bool.not_false]
  refine ⟨?_, trivial⟩
  rcases hstart with ((hletter | hnumber) | hstart) | hreserved
  · simp [hletter]
  · simp [hnumber]
  · rcases hextra hstart with hmark | hsymbol
    · simp [hmark]
    · simp [hsymbol]
  · simp [hreserved]

/-- Identifiers are made of identifier characters. -/
theorem isIdentifierChar_of_mem {c : Char} (h : isIdentifier word = true) (hc : c ∈ word) :
    isIdentifierChar c = true := by
  cases word with
  | nil => cases hc
  | cons first word =>
    simp only [isIdentifier, Bool.and_eq_true, List.all_eq_true] at h
    simp only [isIdentifierChar, Bool.or_eq_true, decide_eq_true_eq]
    rcases List.mem_cons.mp hc with rfl | hc
    · have hfirst := h.1
      rw [Bool.or_eq_true, decide_eq_true_eq] at hfirst
      exact hfirst.imp_right isIdentifierRest_of_isIdentifierStart
    · simpa using h.2 c hc

/-! ## Places -/

/-- A word occurs in a text behind a beginning of some bytes. -/
def OccursAt (word text : List Char) (place : Nat) : Prop :=
  ∃ before, before ++ word <+: text ∧ place = byteLength before

/-- A word occurs in a text with no identifier character next to it. -/
def StandsAlone (word text : List Char) (place : Nat) : Prop :=
  ∃ before after, text = before ++ word ++ after ∧ place = byteLength before ∧
    (∀ c ∈ before.getLast?, isIdentifierChar c = false) ∧
      ∀ c ∈ after.head?, isIdentifierChar c = false

/-- The places of a word that are met from left to right, each behind the end of the one before:
the word begins nowhere else but inside one of them. -/
structure IsLeftmost (word text : List Char) (places : List Nat) : Prop where
  occurs : ∀ place ∈ places, OccursAt word text place
  apart : places.Pairwise fun place next => place + byteLength word ≤ next
  covers : ∀ place, OccursAt word text place →
    ∃ found ∈ places, found ≤ place ∧ place < found + byteLength word

/-- Where a text has to be found: an identifier where it stands alone, any other text from left to
right. -/
def ArePlaces (word text : List Char) (places : List Nat) : Prop :=
  if isIdentifier word then
    places.Pairwise (· < ·) ∧ ∀ place, place ∈ places ↔ StandsAlone word text place
  else IsLeftmost word text places

/-! ## The scan -/

/-- The beginnings of a text, none shorter than `start`, behind which a scan for a word stops. -/
structure Marks (word text : List Char) (start : Nat) (fronts : List (List Char)) : Prop where
  found : ∀ front ∈ fronts, start ≤ front.length ∧ front ++ word <+: text
  apart : fronts.Pairwise fun front next => front.length + word.length ≤ next.length
  covers : ∀ front, front ++ word <+: text → start ≤ front.length →
    ∃ found ∈ fronts, found.length ≤ front.length ∧ front.length < found.length + word.length

/-- Behind the end of a text the scan stops nowhere. -/
theorem Marks.done {start : Nat} (hword : word ≠ []) (hstart : text.length ≤ start) :
    Marks word text start [] where
  found _ hfront := absurd hfront List.not_mem_nil
  apart := .nil
  covers front hfront hlong := by
    have hlength := hfront.length_le
    have := List.length_pos_iff.mpr hword
    rw [List.length_append] at hlength
    omega

/-- The scan stops where the word is, and goes on behind it. -/
theorem Marks.here {fronts : List (List Char)} (hpassed : passed ++ word <+: text)
    (h : Marks word text (passed.length + word.length) fronts) :
    Marks word text passed.length (passed :: fronts) where
  found := by
    refine List.forall_mem_cons.mpr ⟨⟨Nat.le_refl _, hpassed⟩, fun front hfront => ?_⟩
    obtain ⟨hlong, hstarts⟩ := h.found front hfront
    exact ⟨by omega, hstarts⟩
  apart := List.pairwise_cons.mpr ⟨fun front hfront => (h.found front hfront).1, h.apart⟩
  covers front hfront hlong := by
    by_cases hinside : front.length < passed.length + word.length
    · exact ⟨passed, List.mem_cons_self, hlong, hinside⟩
    · obtain ⟨found, hmem, hcovered⟩ := h.covers front hfront (by omega)
      exact ⟨found, List.mem_cons_of_mem _ hmem, hcovered⟩

/-- The scan passes a character where the word does not begin. -/
theorem Marks.pass {fronts : List (List Char)} (hpassed : passed <+: text)
    (hnot : ¬ passed ++ word <+: text) (h : Marks word text (passed.length + 1) fronts) :
    Marks word text passed.length fronts where
  found front hfront := by
    obtain ⟨hlong, hstarts⟩ := h.found front hfront
    exact ⟨by omega, hstarts⟩
  apart := h.apart
  covers front hfront hlong := by
    have hne : front.length ≠ passed.length := by
      intro hlength
      have hsame : front <+: passed := List.prefix_of_prefix_length_le
        ((List.prefix_append _ _).trans hfront) hpassed (Nat.le_of_eq hlength)
      rw [hsame.eq_of_length hlength] at hfront
      exact hnot hfront
    exact h.covers front hfront (by omega)

/-- What the scan notes where it finds the word behind `before`. -/
def occurrenceAt (word text before : List Char) : Occurrence :=
  ⟨byteLength before, before.getLast?, (text.drop (before.length + word.length)).head?⟩

/-- What the scan notes of the rest of a text, `skip` characters of which belong to a word found
before. -/
theorem exists_occurrencesFrom_eq (hword : word ≠ []) (skip : Nat) (passed rest : List Char) :
    ∃ fronts, Marks word (passed ++ rest) (passed.length + skip) fronts ∧
      occurrencesFrom word skip (byteLength passed) passed.getLast? rest =
        fronts.map (occurrenceAt word (passed ++ rest)) := by
  induction rest generalizing skip passed with
  | nil => exact ⟨[], .done hword (by simp), rfl⟩
  | cons c rest ih =>
    -- behind one character more
    have hnext : ∀ skip, ∃ fronts,
        Marks word (passed ++ c :: rest) (passed.length + 1 + skip) fronts ∧
          occurrencesFrom word skip (byteLength passed + c.utf8Size) (some c) rest =
            fronts.map (occurrenceAt word (passed ++ c :: rest)) := by
      intro skip
      obtain ⟨fronts, hmarks, heq⟩ := ih skip (passed ++ [c])
      refine ⟨fronts, ?_, ?_⟩
      · simpa using hmarks
      · simpa [byteLength] using heq
    cases skip with
    | succ skip =>
      obtain ⟨fronts, hmarks, heq⟩ := hnext skip
      refine ⟨fronts, ?_, by rw [occurrencesFrom, heq]⟩
      rwa [Nat.add_right_comm] at hmarks
    | zero =>
      cases hstrip : stripStart? word (c :: rest) with
      | some after =>
        obtain ⟨fronts, hmarks, heq⟩ := hnext (word.length - 1)
        have hrest := stripStart?_eq_some_iff.mp hstrip
        have hpos := List.length_pos_iff.mpr hword
        refine ⟨passed :: fronts, .here ?_ ?_, ?_⟩
        · rw [hrest, ← List.append_assoc]
          exact List.prefix_append _ _
        · rwa [show passed.length + word.length = passed.length + 1 + (word.length - 1) by omega]
        · have hhere : occurrenceAt word (passed ++ c :: rest) passed =
              ⟨byteLength passed, passed.getLast?, after.head?⟩ := by
            simp [occurrenceAt, hrest, List.drop_append]
          simp only [occurrencesFrom, hstrip, List.map_cons, hhere, heq]
      | none =>
        obtain ⟨fronts, hmarks, heq⟩ := hnext 0
        refine ⟨fronts, .pass (List.prefix_append _ _) ?_ hmarks, ?_⟩
        · rw [List.prefix_append_right_inj]
          rintro ⟨after, hafter⟩
          rw [stripStart?_eq_some_iff.mpr hafter.symm] at hstrip
          cases hstrip
        · simp only [occurrencesFrom, hstrip, heq]

/-! ## Where words are found -/

/-- The scan from the start notes what is around the word wherever it stops. -/
theorem exists_findAll_eq (hword : word ≠ []) (text : List Char) :
    ∃ fronts, Marks word text 0 fronts ∧
      occurrencesFrom word 0 0 none text = fronts.map (occurrenceAt word text) :=
  exists_occurrencesFrom_eq hword 0 [] text

/-- Where the scan stops are the places that are met from left to right. -/
theorem Marks.isLeftmost {fronts : List (List Char)} (h : Marks word text 0 fronts) :
    IsLeftmost word text (fronts.map byteLength) where
  occurs place hplace := by
    obtain ⟨front, hfront, rfl⟩ := List.mem_map.mp hplace
    exact ⟨front, (h.found front hfront).2, rfl⟩
  apart := by
    rw [List.pairwise_map]
    refine h.apart.imp_of_mem fun {front next} hfront hnext hlength => ?_
    have hstarts : front ++ word <+: next := List.prefix_of_prefix_length_le
      (h.found front hfront).2 ((List.prefix_append _ _).trans (h.found next hnext).2)
      (by rwa [List.length_append])
    have hbytes := byteLength_le_of_prefix hstarts
    rwa [byteLength_append] at hbytes
  covers place hplace := by
    obtain ⟨front, hfront, rfl⟩ := hplace
    obtain ⟨found, hmem, hle, hlt⟩ := h.covers front hfront (Nat.zero_le _)
    have htext := (List.prefix_append front word).trans hfront
    have hfound := (h.found found hmem).2
    refine ⟨_, List.mem_map_of_mem hmem, byteLength_le_of_prefix ?_, Nat.lt_of_not_le ?_⟩
    · exact List.prefix_of_prefix_length_le ((List.prefix_append _ _).trans hfound) htext hle
    · intro hbytes
      rw [← byteLength_append] at hbytes
      have hlength := (prefix_of_byteLength_le hfound htext hbytes).length_le
      rw [List.length_append] at hlength
      omega

/-- An identifier that stands alone does not begin inside another place of it: the character in
front would belong to the identifier. -/
theorem eq_of_standsAlone {front : List Char} (hword : isIdentifier word = true)
    (htext : before ++ word <+: text) (halone : ∀ c ∈ before.getLast?, isIdentifierChar c = false)
    (hfront : front ++ word <+: text) (hle : front.length ≤ before.length)
    (hlt : before.length < front.length + word.length) : front = before := by
  have hbefore : before <+: text := (List.prefix_append _ _).trans htext
  obtain ⟨part, rfl⟩ := List.prefix_of_prefix_length_le ((List.prefix_append _ _).trans hfront)
    hbefore hle
  by_cases hpart : part = []
  · rw [hpart, List.append_nil]
  · have hinside : front ++ part <+: front ++ word :=
      List.prefix_of_prefix_length_le hbefore hfront (by
        rw [List.length_append] at hlt ⊢
        rw [List.length_append]
        omega)
    have hmem : part.getLast hpart ∈ word :=
      ((List.prefix_append_right_inj front).mp hinside).subset (List.getLast_mem hpart)
    have hlast := halone (part.getLast hpart)
      (by simp [List.getLast?_append, List.getLast?_eq_some_getLast hpart])
    rw [isIdentifierChar_of_mem hword hmem] at hlast
    cases hlast

/-- What the scan notes tells whether the word stands alone. -/
theorem isWhole_occurrenceAt {front : List Char} (h : text = front ++ word ++ after) :
    (occurrenceAt word text front).isWhole = true ↔
      (∀ c ∈ front.getLast?, isIdentifierChar c = false) ∧
        ∀ c ∈ after.head?, isIdentifierChar c = false := by
  have hafter : text.drop (front.length + word.length) = after := by
    rw [h, ← List.length_append, List.drop_left]
  rw [Occurrence.isWhole, occurrenceAt, hafter]
  cases front.getLast? <;> cases after.head? <;> simp

/-- What is found of an identifier are the places where it stands alone. -/
theorem mem_findAll_iff (hword : isIdentifier word = true) :
    place ∈ findAll word text ↔ StandsAlone word text place := by
  have hne : word ≠ [] := by
    rintro rfl
    cases hword
  obtain ⟨fronts, hmarks, heq⟩ := exists_findAll_eq hne text
  simp only [findAll, heq, if_pos hword, List.mem_map, List.mem_filter]
  constructor
  · rintro ⟨_, ⟨⟨front, hfront, rfl⟩, hwhole⟩, rfl⟩
    obtain ⟨after, hafter⟩ := (hmarks.found front hfront).2
    exact ⟨front, after, hafter.symm, rfl, (isWhole_occurrenceAt hafter.symm).mp hwhole⟩
  · rintro ⟨before, after, htext, rfl, halone⟩
    have hbefore : before ++ word <+: text := ⟨after, htext.symm⟩
    obtain ⟨front, hfront, hle, hlt⟩ := hmarks.covers before hbefore (Nat.zero_le _)
    obtain rfl := eq_of_standsAlone hword hbefore halone.1 (hmarks.found front hfront).2 hle hlt
    exact ⟨_, ⟨⟨front, hfront, rfl⟩, (isWhole_occurrenceAt htext).mpr halone⟩, rfl⟩

/-- A text that is no identifier is found at the places that are met from left to right. -/
theorem isLeftmost_findAll (hne : word ≠ []) (hword : isIdentifier word = false) :
    IsLeftmost word text (findAll word text) := by
  obtain ⟨fronts, hmarks, heq⟩ := exists_findAll_eq hne text
  have hplaces : findAll word text = fronts.map byteLength := by
    simp [findAll, heq, hword, occurrenceAt]
  rw [hplaces]
  exact hmarks.isLeftmost

/-- What is found is found from left to right. -/
theorem exists_findAll_sublist (hne : word ≠ []) (text : List Char) :
    ∃ places, IsLeftmost word text places ∧ (findAll word text).Sublist places := by
  obtain ⟨fronts, hmarks, heq⟩ := exists_findAll_eq hne text
  refine ⟨_, hmarks.isLeftmost, ?_⟩
  have hall : fronts.map byteLength =
      (fronts.map (occurrenceAt word text)).map Occurrence.start := by
    simp [occurrenceAt]
  rw [hall, findAll, heq]
  refine List.Sublist.map _ ?_
  split
  · exact List.filter_sublist
  · exact List.Sublist.refl _

/-- Places are found in increasing order. -/
theorem pairwise_findAll (hne : word ≠ []) : (findAll word text).Pairwise (· < ·) := by
  obtain ⟨places, hplaces, hsub⟩ := exists_findAll_sublist hne text
  have hbytes : 0 < byteLength word := Nat.pos_of_ne_zero (mt byteLength_eq_zero_iff.mp hne)
  refine List.Pairwise.sublist hsub (hplaces.apart.imp fun hapart => ?_)
  omega

/-- The places that are found are those where the text has to be found. -/
theorem arePlaces_findAll (hne : word ≠ []) : ArePlaces word text (findAll word text) := by
  unfold ArePlaces
  split
  · rename_i hword
    exact ⟨pairwise_findAll hne, fun place => mem_findAll_iff hword⟩
  · rename_i hword
    exact isLeftmost_findAll hne (Bool.eq_false_iff.mpr hword)

/-- The bytes of a word that is found lie in the text. -/
theorem le_of_mem_findAll (hne : word ≠ []) (h : place ∈ findAll word text) :
    place + byteLength word ≤ byteLength text := by
  obtain ⟨places, hplaces, hsub⟩ := exists_findAll_sublist hne text
  obtain ⟨before, hbefore, rfl⟩ := hplaces.occurs place (hsub.subset h)
  rw [← byteLength_append]
  exact byteLength_le_of_prefix hbefore

end SymbolGraph.Text

namespace SymbolGraph.Assembly

open Text

/-- **Finding is complete.** In a file of less than 2³² bytes the `n`-th range found, counted from
zero, is that of the `n`-th place, if there are that many places: for an identifier those where it
stands alone, in increasing order, for any other text that is not empty the leftmost ones that do
not overlap. -/
theorem tryFind_eq (a : Assembly) (file : FileId) (needle : String) (hneedle : needle ≠ "")
    (hsize : byteLength (a.program.sources.text file).toList < UInt32.size) :
    ∃ places, ArePlaces needle.toList (a.program.sources.text file).toList places ∧
      ∀ n, ∃ range?, a.tryFind file needle n = .ok range? ∧
        range?.map (fun range => (range.start.toNat, range.stop.toNat)) =
          places[n]?.map fun place => (place, place + byteLength needle.toList) := by
  have hne : needle.toList ≠ [] := by simpa using hneedle
  refine ⟨_, arePlaces_findAll hne, fun n => ?_⟩
  simp only [tryFind, findNth?, List.isEmpty_eq_false_iff.mpr hne, Bool.false_eq_true, if_false]
  cases hplace : (findAll needle.toList (a.program.sources.text file).toList)[n]? with
  | none => exact ⟨none, rfl, rfl⟩
  | some place =>
    have hle := le_of_mem_findAll hne (List.mem_of_getElem? hplace)
    have hstart : (UInt32.ofNat place).toNat = place := UInt32.toNat_ofNat_of_lt' (by omega)
    have hstop : (UInt32.ofNat (place + byteLength needle.toList)).toNat =
        place + byteLength needle.toList := UInt32.toNat_ofNat_of_lt' (by omega)
    have hrange : (UInt32.ofNat place).toNat ≤
        (UInt32.ofNat (place + byteLength needle.toList)).toNat := by omega
    refine ⟨some ⟨_, _, hrange⟩, by simp only [TextRange.ofBounds?, dif_pos hrange], ?_⟩
    simp only [Option.map_some, hstart, hstop]

/-- A program of one file. -/
def ofText (text : String) : Assembly :=
  { bare with program := { bare.program with sources := ⟨#[⟨"p.go", text⟩]⟩ } }

/-- The word stands twice in the first, longer word, each time overlapping the other. -/
theorem tryFind_eq_overlapping :
    ("aéa" ≠ "" ∧
      byteLength ((ofText "aéaéa aéa").program.sources.text ⟨0⟩).toList < UInt32.size) ∧
    ∃ places, ArePlaces "aéa".toList ((ofText "aéaéa aéa").program.sources.text ⟨0⟩).toList places ∧
      ∀ n, ∃ range?, (ofText "aéaéa aéa").tryFind ⟨0⟩ "aéa" n = .ok range? ∧
        range?.map (fun range => (range.start.toNat, range.stop.toNat)) =
          places[n]?.map fun place => (place, place + byteLength "aéa".toList) :=
  ⟨⟨by decide, by decide⟩, tryFind_eq (ofText "aéaéa aéa") ⟨0⟩ "aéa" (by decide) (by decide)⟩

example : findAll "aéa".toList "aéaéa aéa".toList = [8] := by decide

end SymbolGraph.Assembly
