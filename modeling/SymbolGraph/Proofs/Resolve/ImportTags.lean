import Mathlib.Data.List.Basic
import SymbolGraph.Proofs.Resolve.Repositories
import SymbolGraph.Resolve.Resolver

/-!
# Tags that announce a repository

What a page announces is told here without going through it. A tag is a text of eleven parts
(`IsImportTag`), and the tags of a page are found from left to right, each behind the end of the
one before (`TagsIn`); what such a tag says is the first three words of its content (`Announces`).
The search finds exactly these (`tagsIn_iff`, `announced?_eq_some_iff`), so the repository that is
found for a path is the first that covers it (`findRepoRoot?_eq_some_iff`).
-/

namespace SymbolGraph

open Text

variable {word : String} {text part rest gap content tag after : List Char}

/-! ## Parts of a tag -/

/-- A word in any case of its letters. -/
def IsAnyCase (word : String) (part : List Char) : Prop := part.map toAsciiLower = word.toList

/-- White space. -/
def IsGap (part : List Char) : Prop := part ≠ [] ∧ ∀ c ∈ part, isBlank c = true

/-- A quote. -/
def IsQuote (part : List Char) : Prop := ∃ q, isAttributeQuote q = true ∧ part = [q]

/-- What may stand between the quotes of an attribute. -/
def IsValue (part : List Char) : Prop := part ≠ [] ∧ ∀ c ∈ part, isAttributeQuote c = false

/-- A text that is made of parts, one behind the other, each of its kind. -/
def Parts : List (List Char → Prop) → List Char → Prop
  | [], text => text = []
  | kind :: kinds, text => ∃ part rest, text = part ++ rest ∧ kind part ∧ Parts kinds rest

/-- A tag that announces a repository, with its content. -/
def IsImportTag (content tag : List Char) : Prop :=
  Parts [IsAnyCase "<meta", IsGap, IsAnyCase "name=", IsQuote, IsAnyCase "go-import", IsQuote,
    IsGap, IsAnyCase "content=", IsQuote, fun part => part = content ∧ IsValue part, IsQuote] tag

/-- One part more in front. -/
theorem Parts.cons {kind : List Char → Prop} {kinds : List (List Char → Prop)} (h : kind part)
    (hrest : Parts kinds rest) : Parts (kind :: kinds) (part ++ rest) :=
  ⟨part, rest, rfl, h, hrest⟩

/-- A word is taken off exactly where the text begins with it in some case. -/
theorem stripStartAnyCase?_eq_some_iff {word : List Char} :
    stripStartAnyCase? word text = some rest ↔
      ∃ part, text = part ++ rest ∧ part.map toAsciiLower = word := by
  induction word generalizing text with
  | nil => simp [stripStartAnyCase?]
  | cons p word ih =>
    cases text with
    | nil => simp [stripStartAnyCase?]
    | cons c text =>
      simp only [stripStartAnyCase?, Option.ite_none_right_eq_some, ih]
      constructor
      · rintro ⟨rfl, part, rfl, rfl⟩
        exact ⟨c :: part, rfl, rfl⟩
      · rintro ⟨_ | ⟨d, part⟩, htext, hpart⟩
        · cases hpart
        · obtain ⟨rfl, rfl⟩ := List.cons.inj htext
          obtain ⟨rfl, rfl⟩ := List.cons.inj hpart
          exact ⟨rfl, part, rfl, rfl⟩

/-- A word in any case is taken off the text that it begins. -/
theorem stripStartAnyCase?_append (h : IsAnyCase word part) (rest : List Char) :
    stripStartAnyCase? word.toList (part ++ rest) = some rest :=
  stripStartAnyCase?_eq_some_iff.mpr ⟨part, rfl, h⟩

/-- What is taken off as blanks is white space, and not nothing. -/
theorem exists_of_stripBlanks? (h : stripBlanks? text = some rest) :
    ∃ part, text = part ++ rest ∧ IsGap part := by
  cases text with
  | nil => cases h
  | cons c text =>
    simp only [stripBlanks?, Option.ite_none_right_eq_some, Option.some.injEq] at h
    obtain ⟨hc, rfl⟩ := h
    refine ⟨c :: text.takeWhile isBlank, by simp, by simp, ?_⟩
    intro d hd
    rcases List.mem_cons.mp hd with rfl | hd
    · exact hc
    · exact (List.all_eq_true.mp List.all_takeWhile) d hd

/-- White space is taken up to the first character that is none. -/
theorem stripBlanks?_append (h : IsGap gap) (hrest : ∀ c ∈ rest.head?, isBlank c = false) :
    stripBlanks? (gap ++ rest) = some rest := by
  have hstop : rest.dropWhile isBlank = rest := by
    cases rest with
    | nil => rfl
    | cons c rest => exact List.dropWhile_cons_of_neg (by simp [hrest c rfl])
  obtain ⟨hne, hblank⟩ := h
  cases gap with
  | nil => exact absurd rfl hne
  | cons c gap =>
    have hgap : (gap ++ rest).dropWhile isBlank = rest := by
      rw [List.dropWhile_append_of_pos fun d hd => hblank d (List.mem_cons_of_mem _ hd), hstop]
    simp [stripBlanks?, hblank c List.mem_cons_self, hgap]

/-- A quote is taken off exactly where the text begins with one. -/
theorem stripQuote?_eq_some_iff :
    stripQuote? text = some rest ↔ ∃ part, text = part ++ rest ∧ IsQuote part := by
  cases text with
  | nil => simp [stripQuote?, IsQuote]
  | cons c text =>
    simp only [stripQuote?, Option.ite_none_right_eq_some, Option.some.injEq]
    constructor
    · rintro ⟨hc, rfl⟩
      exact ⟨[c], rfl, c, hc, rfl⟩
    · rintro ⟨_, htext, q, hq, rfl⟩
      obtain ⟨rfl, rfl⟩ := List.cons.inj htext
      exact ⟨hq, rfl⟩

/-- A quote is taken off the text that it begins. -/
theorem stripQuote?_append (h : IsQuote part) (rest : List Char) :
    stripQuote? (part ++ rest) = some rest :=
  stripQuote?_eq_some_iff.mpr ⟨part, rfl, h⟩

/-- A value ends at the quote behind it. -/
theorem takeWhile_value {quote : List Char} (h : IsValue content) (hquote : IsQuote quote) :
    (content ++ (quote ++ rest)).takeWhile (fun c => !isAttributeQuote c) = content := by
  obtain ⟨q, hq, rfl⟩ := hquote
  rw [List.takeWhile_append_of_pos fun c hc => by simp [h.2 c hc]]
  simp [hq]

/-- White space has no case. -/
theorem toAsciiLower_of_isBlank {c : Char} (h : isBlank c = true) : toAsciiLower c = c := by
  refine if_neg fun hupper => ?_
  rw [Bool.and_eq_true, decide_eq_true_eq, decide_eq_true_eq] at hupper
  have hlow : 65 ≤ c.toNat := hupper.1
  have hhigh : c.toNat ≤ 90 := hupper.2
  simp [isBlank, CharTable.blanks, inRanges] at h
  omega

/-- A word that does not begin with white space does so in no case of its letters. -/
theorem IsAnyCase.head_not_blank {d : Char} {more : List Char} (h : IsAnyCase word part)
    (hword : word.toList = d :: more) (hd : isBlank d = false) (rest : List Char) :
    ∀ c ∈ (part ++ rest).head?, isBlank c = false := by
  unfold IsAnyCase at h
  rw [hword] at h
  obtain ⟨b, _, rfl, rfl, -⟩ := List.map_eq_cons_iff.mp h
  intro c hc
  obtain rfl : b = c := by simpa using hc
  cases hb : isBlank b with
  | false => rfl
  | true => rw [toAsciiLower_of_isBlank hb, hb] at hd; cases hd

/-! ## Tags -/

/-- A tag that is taken off a text is where the text begins. -/
theorem exists_of_takeImportTag? (h : takeImportTag? text = some (content, after)) :
    ∃ tag, text = tag ++ after ∧ IsImportTag content tag := by
  simp only [takeImportTag?, Option.bind_eq_bind, Option.bind_eq_some_iff] at h
  obtain ⟨_, h₁, _, h₂, _, h₃, _, h₄, _, h₅, _, h₆, _, h₇, _, h₈, t, h₉, h⟩ := h
  split at h
  · cases h
  · rename_i hcontent
    obtain ⟨_, h₁₁, h⟩ := Option.bind_eq_some_iff.mp h
    obtain ⟨hvalue, rfl⟩ := Prod.mk.inj (Option.some.inj h)
    rw [hvalue] at hcontent h₁₁
    have hkind : IsValue content := by
      refine ⟨by simpa using hcontent, fun c hc => ?_⟩
      have hall := List.all_eq_true.mp List.all_takeWhile c (hvalue ▸ hc)
      simpa using hall
    have ht : t = content ++ t.drop content.length := by
      have hcut := List.takeWhile_append_dropWhile (p := fun c => !isAttributeQuote c) (l := t)
      rw [hvalue] at hcut
      rw [← hcut, List.drop_left]
    obtain ⟨p₁, rfl, hp₁⟩ := stripStartAnyCase?_eq_some_iff.mp h₁
    obtain ⟨p₂, rfl, hp₂⟩ := exists_of_stripBlanks? h₂
    obtain ⟨p₃, rfl, hp₃⟩ := stripStartAnyCase?_eq_some_iff.mp h₃
    obtain ⟨p₄, rfl, hp₄⟩ := stripQuote?_eq_some_iff.mp h₄
    obtain ⟨p₅, rfl, hp₅⟩ := stripStartAnyCase?_eq_some_iff.mp h₅
    obtain ⟨p₆, rfl, hp₆⟩ := stripQuote?_eq_some_iff.mp h₆
    obtain ⟨p₇, rfl, hp₇⟩ := exists_of_stripBlanks? h₇
    obtain ⟨p₈, rfl, hp₈⟩ := stripStartAnyCase?_eq_some_iff.mp h₈
    obtain ⟨p₉, rfl, hp₉⟩ := stripQuote?_eq_some_iff.mp h₉
    obtain ⟨p₁₁, hlast, hp₁₁⟩ := stripQuote?_eq_some_iff.mp h₁₁
    refine ⟨_, ?_, .cons hp₁ (.cons hp₂ (.cons hp₃ (.cons hp₄ (.cons hp₅ (.cons hp₆ (.cons hp₇
      (.cons hp₈ (.cons hp₉ (.cons ⟨rfl, hkind⟩ (.cons hp₁₁ rfl))))))))))⟩
    rw [ht, hlast]
    simp only [List.append_assoc, List.append_nil]

/-- A tag is taken off wherever it stands. -/
theorem takeImportTag?_append (h : IsImportTag content tag) (after : List Char) :
    takeImportTag? (tag ++ after) = some (content, after) := by
  obtain ⟨p₁, _, rfl, hp₁, p₂, _, rfl, hp₂, p₃, _, rfl, hp₃, p₄, _, rfl, hp₄, p₅, _, rfl, hp₅,
    p₆, _, rfl, hp₆, p₇, _, rfl, hp₇, p₈, _, rfl, hp₈, p₉, _, rfl, hp₉, p₁₀, _, rfl,
    ⟨rfl, hvalue⟩, p₁₁, _, rfl, hp₁₁, rfl⟩ := h
  have hname := hp₃.head_not_blank rfl (by decide)
  have hcontent := hp₈.head_not_blank rfl (by decide)
  have hne : p₁₀.isEmpty = false := by simpa using hvalue.1
  simp only [takeImportTag?, List.append_assoc, List.append_nil, Option.bind_eq_bind,
    Option.bind_some, stripStartAnyCase?_append hp₁, stripBlanks?_append hp₂ (hname _),
    stripStartAnyCase?_append hp₃, stripQuote?_append hp₄, stripStartAnyCase?_append hp₅,
    stripQuote?_append hp₆, stripBlanks?_append hp₇ (hcontent _), stripStartAnyCase?_append hp₈,
    stripQuote?_append hp₉, takeWhile_value hvalue hp₁₁, hne, List.drop_left,
    stripQuote?_append hp₁₁]
  rfl

/-- The contents of the tags of a text, found from left to right: a character is passed if no tag
begins at it, and behind a tag the search goes on at its end. What stands inside a tag is therefore
no tag. -/
inductive TagsIn : List Char → List (List Char) → Prop
  | nil : TagsIn [] []
  | pass {c : Char} {rest : List Char} {contents : List (List Char)} :
      (∀ content tag, IsImportTag content tag → ¬ tag <+: c :: rest) → TagsIn rest contents →
      TagsIn (c :: rest) contents
  | tag {content tag after : List Char} {contents : List (List Char)} :
      IsImportTag content tag → TagsIn after contents → TagsIn (tag ++ after) (content :: contents)

/-- A tag is not empty. -/
theorem IsImportTag.ne_nil (h : IsImportTag content tag) : tag ≠ [] := by
  rintro rfl
  have htake := takeImportTag?_append h []
  cases htake

/-- No tag is taken exactly where the text begins with none. -/
theorem takeImportTag?_eq_none_iff : takeImportTag? text = none ↔
    ∀ content tag, IsImportTag content tag → ¬ tag <+: text := by
  constructor
  · rintro h content tag htag ⟨after, rfl⟩
    rw [takeImportTag?_append htag] at h
    cases h
  · intro h
    cases htake : takeImportTag? text with
    | none => rfl
    | some parts =>
      obtain ⟨tag, rfl, htag⟩ := exists_of_takeImportTag? htake
      exact absurd (List.prefix_append _ _) (h _ tag htag)

/-- The characters that belong to a tag found before are passed over. -/
theorem importTagsFrom_eq_drop (skip : Nat) (text : List Char) :
    importTagsFrom skip text = importTagsFrom 0 (text.drop skip) := by
  induction skip generalizing text with
  | zero => rfl
  | succ skip ih =>
    cases text with
    | nil => simp [importTagsFrom]
    | cons c rest => exact ih rest

/-- Behind a tag the search goes on at its end. -/
theorem importTagsFrom_append (h : IsImportTag content tag) (after : List Char) :
    importTagsFrom 0 (tag ++ after) = content :: importTagsFrom 0 after := by
  have htake := takeImportTag?_append h after
  cases tag with
  | nil => exact absurd rfl h.ne_nil
  | cons c tag =>
    rw [List.cons_append] at htake ⊢
    rw [importTagsFrom, htake]
    dsimp only
    rw [importTagsFrom_eq_drop, List.length_append, Nat.add_sub_cancel, List.drop_left]

/-- The search finds the tags of a text, and these only. -/
theorem tagsIn_iff {contents : List (List Char)} :
    TagsIn text contents ↔ importTagsFrom 0 text = contents := by
  constructor
  · intro h
    induction h with
    | nil => rfl
    | pass hnone _ ih => rw [importTagsFrom, takeImportTag?_eq_none_iff.mpr hnone, ih]
    | tag htag _ ih => rw [importTagsFrom_append htag, ih]
  · rintro rfl
    induction hn : text.length using Nat.strongRecOn generalizing text with
    | ind n ih =>
      cases text with
      | nil => exact .nil
      | cons c rest =>
        cases htake : takeImportTag? (c :: rest) with
        | none =>
          rw [importTagsFrom, htake]
          exact .pass (takeImportTag?_eq_none_iff.mp htake) (ih _ (by simp [← hn]) rfl)
        | some parts =>
          obtain ⟨tag, htext, htag⟩ := exists_of_takeImportTag? htake
          have hlength := congrArg List.length htext
          have hpos := List.length_pos_iff.mpr htag.ne_nil
          rw [hn, List.length_append] at hlength
          rw [htext, importTagsFrom_append htag]
          exact .tag htag (ih _ (by omega) rfl)

/-! ## What a tag says -/

/-- A word between white space. -/
def IsField (part : List Char) : Prop := part ≠ [] ∧ ∀ c ∈ part, isBlank c = false

/-- The content of a well-formed tag: a root, a version control system and a repository, with
white space between them, and perhaps more behind further white space. -/
def Announces (content : List Char) (r : RepoRoot) : Prop :=
  ∃ lead gap system gap' more,
    content = lead ++ (r.root.toList ++ (gap ++ (system ++ (gap' ++ (r.repo.toList ++ more))))) ∧
      (∀ c ∈ lead, isBlank c = true) ∧ IsField r.root.toList ∧ IsGap gap ∧ IsField system ∧
      IsGap gap' ∧ IsField r.repo.toList ∧ ∀ c ∈ more.head?, isBlank c = true

/-- A repository is read off the content of a tag exactly if the content announces it. The root, the
system and the repository are the first three words between white space, so that nothing else can be
read. -/
theorem announced?_eq_some_iff {r : RepoRoot} :
    announced? content = some r ↔ Announces content r := by
  -- what follows a field begins with white space, which is the gap before the next one
  have hgap : ∀ {gap field more : List Char}, (∀ c ∈ gap, isBlank c = true) → IsField field →
      (∀ c ∈ (gap ++ (field ++ more)).head?, isBlank c = true) → IsGap gap := by
    intro gap field more hblank hfield hhead
    refine ⟨?_, hblank⟩
    rintro rfl
    obtain ⟨hne, hfield⟩ := hfield
    obtain ⟨c, field, rfl⟩ := List.exists_cons_of_ne_nil hne
    have hc := hfield c List.mem_cons_self
    rw [hhead c rfl] at hc
    cases hc
  constructor
  · intro h
    unfold announced? at h
    split at h
    · rename_i root system repo _ hfields
      obtain rfl := Option.some.inj h
      obtain ⟨lead, _, rfl, hlead, hroot, hhead, hfields⟩ := fields_eq_cons hfields
      obtain ⟨gap, _, rfl, hblank, hsystem, hhead', hfields⟩ := fields_eq_cons hfields
      obtain ⟨gap', more, rfl, hblank', hrepo, hmore, -⟩ := fields_eq_cons hfields
      refine ⟨lead, gap, system, gap', more, ?_, hlead, ?_, hgap hblank hsystem hhead, hsystem,
        hgap hblank' hrepo hhead', ?_, hmore⟩
      · simp
      · simpa [IsField] using hroot
      · simpa [IsField] using hrepo
    · cases h
  · rintro ⟨lead, gap, system, gap', more, rfl, hlead, hroot, hgap₁, hsystem, hgap₂, hrepo, hmore⟩
    have hhead : ∀ {gap : List Char} (rest), IsGap gap → ∀ c ∈ (gap ++ rest).head?,
        isBlank c = true := by
      rintro (_ | ⟨d, gap⟩) rest ⟨hne, hblank⟩ c hc
      · exact absurd rfl hne
      · obtain rfl : d = c := by simpa using hc
        exact hblank d List.mem_cons_self
    have hfields : fields isBlank (lead ++ (r.root.toList ++ (gap ++ (system ++ (gap' ++
        (r.repo.toList ++ more)))))) = r.root.toList :: system :: r.repo.toList ::
          fields isBlank more := by
      rw [fields_append_of_forall hlead, fields_append hroot.1 hroot.2 (hhead _ hgap₁),
        fields_append_of_forall hgap₁.2, fields_append hsystem.1 hsystem.2 (hhead _ hgap₂),
        fields_append_of_forall hgap₂.2, fields_append hrepo.1 hrepo.2 hmore]
    simp [announced?, hfields]

/-! ## The repository of a path -/

/-- A path is a root or lies below it. -/
def Covers (root path : String) : Prop := path = root ∨ ∃ below, path = root ++ "/" ++ below

/-- A root is one of a path, element by element, exactly if the path is the root or lies below
it. -/
theorem hasRootPath_iff_covers {root path : String} :
    hasRootPath root path = true ↔ Covers root path := by
  rw [hasRootPath_iff, elements, elements, splitOn_prefix_iff, Covers, String.toList_inj]
  refine or_congr_right ⟨?_, ?_⟩
  · rintro ⟨below, hbelow⟩
    exact ⟨String.ofList below, String.toList_inj.mp (by simpa using hbelow)⟩
  · rintro ⟨below, rfl⟩
    exact ⟨below.toList, by simp⟩

/-- The repository that a page announces for a path is that of the first of its tags that is
well-formed and covers the path. -/
theorem findRepoRoot?_eq_some_iff {page path : String} {found : RepoRoot} :
    findRepoRoot? page path = some found ↔
      ∃ earlier content later, TagsIn page.toList (earlier ++ content :: later) ∧
        Announces content found ∧ Covers found.root path ∧
        ∀ other ∈ earlier, ∀ r, Announces other r → ¬ Covers r.root path := by
  have hfirst : ∀ {content : List Char} {r : RepoRoot},
      ((announced? content).bind fun r => if hasRootPath r.root path then some r else none) =
        some r ↔ Announces content r ∧ Covers r.root path := by
    intro content r
    simp only [Option.bind_eq_some_iff, announced?_eq_some_iff, Option.ite_none_right_eq_some,
      hasRootPath_iff_covers, Option.some.injEq]
    constructor
    · rintro ⟨r, hr, hcovers, rfl⟩
      exact ⟨hr, hcovers⟩
    · rintro ⟨hr, hcovers⟩
      exact ⟨r, hr, hcovers, rfl⟩
  rw [findRepoRoot?, List.findSome?_eq_some_iff]
  constructor
  · rintro ⟨earlier, content, later, htags, hfound, hnone⟩
    obtain ⟨hcontent, hcovers⟩ := hfirst.mp hfound
    refine ⟨earlier, content, later, tagsIn_iff.mpr htags, hcontent, hcovers, ?_⟩
    intro other hother r hr hcovers'
    have hsome := hfirst.mpr ⟨hr, hcovers'⟩
    rw [hnone other hother] at hsome
    cases hsome
  · rintro ⟨earlier, content, later, htags, hcontent, hcovers, hnone⟩
    refine ⟨earlier, content, later, tagsIn_iff.mp htags, hfirst.mpr ⟨hcontent, hcovers⟩, ?_⟩
    intro other hother
    rw [Option.eq_none_iff_forall_ne_some]
    intro r hr
    obtain ⟨hannounces, hcovers'⟩ := hfirst.mp hr
    exact hnone other hother r hannounces hcovers'

/-- An address of the repository at a place, as a page may write it: perhaps with the ending that
such addresses have, and with any number of slashes behind. -/
structure IsAddressOf (scheme place address : String) : Prop where
  /-- No other scheme ends in the scheme. -/
  scheme_whole : ¬ "://".toList <:+: scheme.toList
  place_ne : place ≠ ""
  bare : IsBare place.toList
  eq : ∃ slashes : String, (∀ c ∈ slashes.toList, c = '/') ∧
    (address = scheme ++ "://" ++ place ++ slashes ∨
      address = scheme ++ "://" ++ place ++ ".git" ++ slashes)

namespace IsAddressOf

variable {scheme place address : String}

/-- What is left of an address when slashes and ending are taken off. -/
theorem cloneUrl_eq (h : IsAddressOf scheme place address) :
    String.ofList (dropGit (trimEnd (· == '/') address.toList)) = scheme ++ "://" ++ place := by
  obtain ⟨slashes, hslashes, haddress⟩ := h.eq
  have hall : ∀ c ∈ slashes.toList, (c == '/') = true := fun c hc => by simp [hslashes c hc]
  have hbare : IsBare (scheme ++ "://" ++ place).toList := by
    rw [String.toList_append]
    refine h.bare.append (by simpa using h.place_ne) ⟨scheme.toList ++ [':', '/'], ?_⟩
    simp
  rcases haddress with rfl | rfl
  · rw [String.toList_append, trimEnd_append_of_forall hall, trimEnd_of_getLast?_ne hbare.1,
      hbare.dropGit_eq, String.ofList_toList]
  · have hlast : (scheme ++ "://" ++ place ++ ".git").toList.getLast? ≠ some '/' := by
      rw [String.toList_append, List.getLast?_append_of_ne_nil _ (by decide)]
      decide
    rw [String.toList_append, trimEnd_append_of_forall hall, trimEnd_of_getLast?_ne hlast,
      String.toList_append, dropGit_append, String.ofList_toList]

/-- The target of a path below the root of a repository: its clone address is that of the place,
and its unit lies below the place as the path lies below the root. -/
theorem lookupTarget_eq (h : IsAddressOf scheme place address) (root rest : String) :
    Resolver.lookupTarget (root ++ rest) (some ⟨root, address⟩) =
      Target.ofUnit (scheme ++ "://" ++ place) (place ++ rest) := by
  have hlocation : afterScheme? (scheme ++ "://" ++ place).toList = some place.toList := by
    rw [String.toList_append, String.toList_append, List.append_assoc]
    exact afterScheme?_of_not_infix h.scheme_whole _
  dsimp only [Resolver.lookupTarget]
  rw [h.cloneUrl_eq, replaceRoot, hlocation]
  dsimp only
  rw [h.bare.dropGit_eq, String.toList_append, replaceFirst_append]
  simp

end IsAddressOf

/-- **Paths resolve below the repository that covers them.** The repository that is found on a page
for a path is announced by a well-formed tag whose root is the path or stands before a slash in it,
and no earlier tag of the page covers the path with its root. If the tag gives the address of a
place, the target of the path is cloned from that place without `.git` and slashes, its unit is the
place with the part of the path behind the root, and the identifier of its repository is the
place. -/
theorem relocates_of_findRepoRoot? {page path : String} {found : RepoRoot}
    (h : findRepoRoot? page path = some found) :
    ∃ rest : String, path = found.root ++ rest ∧ (rest = "" ∨ ∃ below, rest = "/" ++ below) ∧
      (∃ earlier content later, TagsIn page.toList (earlier ++ content :: later) ∧
        Announces content found ∧
        ∀ other ∈ earlier, ∀ r, Announces other r → ¬ Covers r.root path) ∧
      ∀ scheme place, IsAddressOf scheme place found.repo →
        Resolver.lookupTarget path (findRepoRoot? page path) =
          Target.ofUnit (scheme ++ "://" ++ place) (place ++ rest) ∧
        repoUri (scheme ++ "://" ++ place) = place := by
  obtain ⟨earlier, content, later, htags, hcontent, hcovers, hnone⟩ :=
    findRepoRoot?_eq_some_iff.mp h
  have hrest : ∃ rest, path = found.root ++ rest ∧ (rest = "" ∨ ∃ below, rest = "/" ++ below) := by
    rcases hcovers with rfl | ⟨below, rfl⟩
    · exact ⟨"", by simp, .inl rfl⟩
    · exact ⟨"/" ++ below, by rw [String.append_assoc], .inr ⟨below, rfl⟩⟩
  obtain ⟨rest, rfl, hshape⟩ := hrest
  refine ⟨rest, rfl, hshape, ⟨earlier, content, later, htags, hcontent, hnone⟩, ?_⟩
  intro scheme place haddress
  rw [h]
  exact ⟨haddress.lookupTarget_eq found.root rest,
    repoUri_of_isBare haddress.scheme_whole haddress.bare⟩

/-- Neither a tag without a repository nor one for another root ends the search. -/
theorem relocates_of_findRepoRoot?_third :
    let page := "<meta name='go-import' content='h.org/x git'>" ++
      "<META NAME=\"go-import\" content=\"h.org/y git https://a.org/y\">" ++
      "<meta name=\"go-import\" content=\"h.org/x git https://github.com/u/x.git//\">"
    let found : RepoRoot := ⟨"h.org/x", "https://github.com/u/x.git//"⟩
    findRepoRoot? page "h.org/x/sub" = some found ∧
      IsAddressOf "https" "github.com/u/x" found.repo ∧
      Resolver.lookupTarget "h.org/x/sub" (findRepoRoot? page "h.org/x/sub") =
        Target.ofUnit "https://github.com/u/x" "github.com/u/x/sub" ∧
      repoUri "https://github.com/u/x" = "github.com/u/x" := by
  intro page found
  have hfound : findRepoRoot? page "h.org/x/sub" = some found := by
    unfold findRepoRoot?
    rw [String.toList_append, String.toList_append]
    decide +kernel
  have haddress : IsAddressOf "https" "github.com/u/x" found.repo :=
    ⟨by decide, by decide, by decide, "//", by simp, .inr (by decide)⟩
  obtain ⟨rest, hpath, -, -, htarget⟩ := relocates_of_findRepoRoot? hfound
  have hrest : rest = "/sub" := by
    have hlists : "h.org/x".toList ++ rest.toList = "h.org/x".toList ++ "/sub".toList := by
      rw [← String.toList_append, ← hpath]
      decide
    exact String.toList_inj.mp (List.append_cancel_left hlists)
  obtain ⟨htarget, huri⟩ := htarget _ _ haddress
  subst hrest
  exact ⟨hfound, haddress, htarget, huri⟩

end SymbolGraph
