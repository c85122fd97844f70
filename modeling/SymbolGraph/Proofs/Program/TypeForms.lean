import SymbolGraph.Proofs.Program.TypeWords

/-!
# What the first words of a type tell

The form of a piece of a type (`Form`) is told by its first words: by the first one, unless that
may be the name of a member as well as a type; then by whether the type that it would be is at its
end there (`formOf`). For that the words must be followed by what can follow such a piece
(`Ends`), and it matters which words no type begins with (`exists_words`): a parenthesis is one of
them. The main statement is `formOf_words`.
-/

namespace SymbolGraph

namespace TypeSyntax

open Go Text

variable {k : Piece}

/-! ## Forms -/

/-- The forms that the pieces of a type have. -/
inductive Form where
  | named
  | pointer
  | slice
  | array
  | map
  | chan (dir : ChanDir)
  | struct
  | interface
  | func
  /-- A list with nothing in it. -/
  | empty
  | field
  | embedding
  | method
  | element
  | param (hasName : Bool)
  | spread (hasName : Bool)

/-- The form of a piece. -/
def form : {k : Piece} → TypeSyntax k → Form
  | _, .named _ _ => .named
  | _, .pointer _ => .pointer
  | _, .slice _ => .slice
  | _, .array _ _ => .array
  | _, .map _ _ => .map
  | _, .chan dir _ => .chan dir
  | _, .struct _ => .struct
  | _, .interface _ => .interface
  | _, .func _ _ => .func
  | _, .noFields | _, .noElements | _, .noParams => .empty
  | _, .field _ _ _ => .field
  | _, .embedding _ _ => .embedding
  | _, .method _ _ _ _ => .method
  | _, .element _ _ => .element
  | _, .param name _ _ => .param name.isSome
  | _, .spread name _ => .spread name.isSome

/-- What the words of a piece are followed by: a list by a closing mark, a type by that or by what
separates it from the next one. -/
def follow : Piece → List (List Char)
  | .type => [[','], [')'], [']'], [';'], ['\x7d']]
  | _ => [[')'], ['\x7d']]

/-- Whether a word can follow a piece is found by comparing it with the words that can. -/
instance (k : Piece) (w : List Char) : Decidable (w ∈ follow k) :=
  decidable_of_iff ((follow k).contains w = true) List.contains_iff_mem

/-- What stands behind a piece is nothing, or begins with what can follow it. -/
def Ends (k : Piece) (rest : List (List Char)) : Prop := ∀ w ∈ rest.head?, w ∈ follow k

/-- Whether a word is an identifier. -/
def isName (w : List Char) : Bool :=
  w.head?.any isNameStart && w.all isNameRest && !(keywords.map String.toList).contains w

/-- The form of a piece, by its first words and what follows it. -/
def formOf : Piece → List (List Char) → Form
  | _, [] => .empty
  | .type, w :: rest =>
    if w = ['*'] then .pointer
    else if w = ['['] then if rest.head? = some [']'] then .slice else .array
    else if w = mapWord then .map
    else if w = chanWord then
      if rest.head? = some ['<', '-'] then .chan .send else .chan .both
    else if w = ['<', '-'] then .chan .recv
    else if w = structWord then .struct
    else if w = interfaceWord then .interface
    else if w = funcWord then .func
    else .named
  | .fields, w :: rest =>
    if w ∈ follow .fields then .empty
    else if isName w ∧ ∃ v ∈ rest.head?, v ∉ follow .type then .field
    else .embedding
  | .elements, w :: rest =>
    if w ∈ follow .elements then .empty
    else if isName w ∧ rest.head? = some ['('] then .method
    else .element
  | .params, w :: rest =>
    if w ∈ follow .params then .empty
    else if w = ['.', '.', '.'] then .spread false
    else if isName w ∧ rest.head? = some ['.', '.', '.'] then .spread true
    else .param (isName w ∧ ∃ v ∈ rest.head?, v ∉ follow .type)

section Named

variable {path : Option String} {name : String}

/-- The test for names accepts all identifiers. -/
theorem isName_of_isIdentifier (h : IsIdentifier name) : isName name.toList = true := by
  obtain ⟨c, hc, hstart⟩ := h.begins
  have hfree : name.toList ∉ keywords.map String.toList := by
    intro hmem
    obtain ⟨word, hword, heq⟩ := List.mem_map.mp hmem
    exact h.free (String.toList_inj.mp heq ▸ hword)
  have hall : name.toList.all isNameRest = true := List.all_eq_true.mpr h.consists
  simp [isName, Option.mem_def.mp hc, hstart, hall, hfree]

/-- No dot stands in an identifier. -/
theorem dot_not_mem (h : IsIdentifier name) : '.' ∉ name.toList := fun hmem =>
  absurd (h.consists '.' hmem) (by decide)

/-- A name with a path has a dot in it. -/
theorem dot_mem_namedText (path name : String) : '.' ∈ namedText (some path) name := by
  simp [namedText]

/-- No mark is a name, with a path or without. -/
theorem namedText_not_mem_marks (path : Option String) (h : IsIdentifier name) :
    namedText path name ∉ marks := by
  have hmarks : ∀ m ∈ marks, m.getLast?.any isNameRest = false := by decide
  intro hmem
  obtain ⟨c, hc⟩ : ∃ c, c ∈ name.toList.getLast? := by
    obtain ⟨c, hc, -⟩ := h.begins
    obtain ⟨rest, hname⟩ := List.head?_eq_some_iff.mp hc
    exact ⟨_, by rw [hname]; exact List.getLast?_eq_some_getLast (List.cons_ne_nil c rest)⟩
  have hlast : c ∈ (namedText path name).getLast? := by
    cases path with
    | none => exact hc
    | some path =>
      simp [namedText, List.getLast?_append, List.getLast?_cons, Option.mem_def.mp hc]
  have hrest : (namedText path name).getLast?.any isNameRest = true := by
    rw [Option.mem_def.mp hlast, Option.any_some, h.consists c (List.mem_of_mem_getLast? hc)]
  rw [hmarks _ hmem] at hrest
  cases hrest

/-- No keyword is a name: with a path it has a dot, and without it is an identifier. -/
theorem namedText_not_mem_keywords (path : Option String) (h : IsIdentifier name) :
    namedText path name ∉ keywords.map String.toList := by
  intro hmem
  obtain ⟨word, hword, heq⟩ := List.mem_map.mp hmem
  cases path with
  | none => exact h.free (String.toList_inj.mp heq ▸ hword)
  | some path =>
    have hall : ∀ word ∈ keywords, '.' ∉ word.toList := by decide
    exact hall word hword (heq ▸ dot_mem_namedText path name)

/-- Path and name can be read off, since the last dot is between them. -/
theorem namedText_cancel {path' : Option String} {name' : String} (hname : IsIdentifier name)
    (hname' : IsIdentifier name') (h : namedText path name = namedText path' name') :
    path = path' ∧ name = name' := by
  cases path with
  | none =>
    cases path' with
    | none => exact ⟨rfl, String.toList_inj.mp h⟩
    | some path' =>
      have hdot : '.' ∈ namedText none name := h ▸ dot_mem_namedText path' name'
      exact absurd hdot (dot_not_mem hname)
  | some path =>
    cases path' with
    | none =>
      have hdot : '.' ∈ namedText none name' := h ▸ dot_mem_namedText path name
      exact absurd hdot (dot_not_mem hname')
    | some path' =>
      have hreverse : name.toList.reverse ++ '.' :: path.toList.reverse =
          name'.toList.reverse ++ '.' :: path'.toList.reverse := by
        simpa [namedText] using congrArg List.reverse h
      obtain ⟨hnames, hpaths⟩ := separator_cancel (by simpa using dot_not_mem hname)
        (by simpa using dot_not_mem hname') hreverse
      refine ⟨congrArg some (String.toList_inj.mp (List.reverse_inj.mp hpaths)),
        String.toList_inj.mp (List.reverse_inj.mp hnames)⟩

end Named

/-- The words that no type begins with. -/
def notFirst : List (List Char) := ['('] :: ['.', '.', '.'] :: follow .type

/-- The first word of a type that is told by the word alone. -/
theorem exists_words_of {a : TypeSyntax .type} {w : List Char} {rest : List (List Char)}
    (h : a.words = w :: rest) (hfirst : w ∉ notFirst) (hname : isName w = false)
    (harrow : w ≠ ['<', '-']) :
    ∃ w rest, a.words = w :: rest ∧ w ∉ notFirst ∧ (isName w = true → rest = []) ∧
      (w = ['<', '-'] → a.isReceiver = true) :=
  ⟨w, rest, h, hfirst, fun h => absurd h (by simp [hname]), fun h => absurd h harrow⟩

/-- The first word of a type is a name only where it is the whole type, and an arrow only if the
type is a channel that can only be received from. -/
theorem exists_words {a : TypeSyntax .type} (h : a.HasNames) :
    ∃ w rest, a.words = w :: rest ∧ w ∉ notFirst ∧ (isName w = true → rest = []) ∧
      (w = ['<', '-'] → a.isReceiver = true) := by
  cases a with
  | named path name =>
    have hmark := namedText_not_mem_marks path h.2
    have hmarks : ∀ w ∈ notFirst, w ∈ marks := by decide
    refine ⟨_, [], rfl, fun hmem => hmark (hmarks _ hmem), fun _ => rfl, fun heq => ?_⟩
    exact absurd (by rw [heq]; decide) hmark
  | pointer elem => exact exists_words_of rfl (by decide) (by decide) (by decide)
  | slice elem => exact exists_words_of rfl (by decide) (by decide) (by decide)
  | array len elem => exact exists_words_of rfl (by decide) (by decide) (by decide)
  | map key value => exact exists_words_of rfl (by decide) (by decide) (by decide)
  | chan dir elem =>
    cases dir with
    | both => exact exists_words_of rfl (by decide) (by decide) (by decide)
    | send => exact exists_words_of rfl (by decide) (by decide) (by decide)
    | recv => exact ⟨_, _, rfl, by decide, fun h => absurd h (by decide), fun _ => rfl⟩
  | struct fields => exact exists_words_of rfl (by decide) (by decide) (by decide)
  | interface elements => exact exists_words_of rfl (by decide) (by decide) (by decide)
  | func params results => exact exists_words_of rfl (by decide) (by decide) (by decide)

/-- A name begins a type with a name. -/
theorem formOf_named (path : Option String) {name : String} (h : IsIdentifier name)
    (rest : List (List Char)) : formOf .type (namedText path name :: rest) = .named := by
  have hne : ∀ w ∈ [['*'], ['['], mapWord, chanWord, ['<', '-'], structWord, interfaceWord,
      funcWord],
      namedText path name ≠ w := by
    have hall : ∀ w ∈ [['*'], ['['], mapWord, chanWord, ['<', '-'], structWord, interfaceWord,
        funcWord], w ∈ marks ∨ w ∈ keywords.map String.toList := by decide
    rintro w hw rfl
    rcases hall _ hw with hmark | hkeyword
    · exact namedText_not_mem_marks path h hmark
    · exact namedText_not_mem_keywords path h hkeyword
  simp only [List.forall_mem_cons] at hne
  obtain ⟨h₁, h₂, h₃, h₄, h₅, h₆, h₇, h₈, -⟩ := hne
  simp only [formOf, h₁, h₂, h₃, h₄, h₅, h₆, h₇, h₈, if_false]

/-- A bracket and a number begin an array type. -/
theorem formOf_array (len : Nat) (rest : List (List Char)) :
    formOf .type (['['] :: (toString len).toList :: rest) = .array := by
  have hne : (toString len).toList ≠ [']'] := fun h =>
    absurd (isDecimal_of_mem_toString ']' (by rw [h]; exact List.mem_cons_self)) (by decide)
  exact if_neg fun h => hne (Option.some.inj h)

/-- The word for channels without an arrow behind it begins a bidirectional one. -/
theorem formOf_chan {rest : List (List Char)} (h : rest.head? ≠ some ['<', '-']) :
    formOf .type (chanWord :: rest) = .chan .both := if_neg h

/-- The first words of a type tell its form. -/
theorem formOf_type {a : TypeSyntax .type} (h : a.HasNames) (rest : List (List Char)) :
    formOf .type (a.words ++ rest) = a.form := by
  cases a with
  | named path name => exact formOf_named path h.2 rest
  | pointer elem => rfl
  | slice elem => rfl
  | array len elem => exact formOf_array len _
  | map key value => rfl
  | chan dir elem =>
    cases dir with
    | both =>
      refine formOf_chan fun harrow => ?_
      cases hreceiver : elem.isReceiver with
      | true => simp [hreceiver] at harrow
      | false =>
        obtain ⟨w, ws, hwords, -, -, hw⟩ := exists_words h.2
        have hfirst : w = ['<', '-'] := by simpa [hreceiver, hwords] using harrow
        rw [hw hfirst] at hreceiver
        cases hreceiver
    | send => rfl
    | recv => rfl
  | struct fields => rfl
  | interface elements => rfl
  | func params results => rfl

section Lists

variable {rest : List (List Char)}

/-- What can follow a list can follow a type. -/
theorem mem_follow_type {w : List Char} (h : w ∈ follow k) : w ∈ follow .type := by
  have hall : ∀ w ∈ follow k, w ∈ follow .type := by cases k <;> decide
  exact hall w h

/-- No name follows a piece. -/
theorem not_mem_follow_of_isName {w : List Char} (h : isName w = true) : w ∉ follow k := by
  intro hmem
  have hall : ∀ w ∈ follow .type, isName w = false := by decide
  rw [hall w (mem_follow_type hmem)] at h
  cases h

/-- What a type can begin with follows no piece. -/
theorem not_mem_follow_of_notFirst {w : List Char} (h : w ∉ notFirst) : w ∉ follow k :=
  fun hmem => h (List.mem_cons_of_mem _ (List.mem_cons_of_mem _ (mem_follow_type hmem)))

/-- Behind a type in a list. -/
theorem Ends.type {c : Char} {a : TypeSyntax k} (hc : [c] ∈ follow .type) (h : Ends k rest) :
    Ends .type (a.mark c ++ (a.words ++ rest)) := by
  intro w hw
  cases hempty : a.isEmpty with
  | true =>
    simp only [mark, hempty, (text_of_isEmpty hempty).2, if_true, List.nil_append] at hw
    exact mem_follow_type (h w hw)
  | false =>
    simp only [mark, hempty, Bool.false_eq_true, if_false] at hw
    obtain rfl := Option.some.inj hw
    exact hc

/-- Where a list has nothing in it, what follows is found at once. -/
theorem formOf_empty {a : TypeSyntax k} (h : a.isEmpty = true) (hrest : Ends k rest) :
    formOf k (a.words ++ rest) = .empty := by
  cases rest with
  | nil =>
    rw [(text_of_isEmpty h).2]
    cases k <;> rfl
  | cons w rest =>
    have hw := hrest w rfl
    cases a with
    | noFields => exact if_pos hw
    | noElements => exact if_pos hw
    | noParams => exact if_pos hw
    | _ => cases h

/-- Behind a name that is a type of its own, nothing begins. -/
theorem not_exists_of_ends {rest : List (List Char)} (h : Ends .type rest) :
    ¬ ∃ v ∈ rest.head?, v ∉ follow .type := by
  rintro ⟨v, hv, hnot⟩
  exact hnot (h v hv)

/-- The words of a type and what follows it: the first word begins nothing else, and if it is a
name, the type is at its end. -/
theorem exists_words_append {type : TypeSyntax .type} (h : type.HasNames)
    (hrest : Ends .type rest) :
    ∃ w more, type.words ++ rest = w :: more ∧ w ∉ notFirst ∧
      (isName w = true → Ends .type more) := by
  obtain ⟨w, ws, hwords, hfirst, hname, -⟩ := exists_words h
  refine ⟨w, ws ++ rest, by rw [hwords]; rfl, hfirst, fun hw => ?_⟩
  rw [hname hw]
  exact hrest

/-- A name in front of a type begins a field. -/
theorem formOf_field {name : String} {more : List (List Char)} {v : List Char}
    (hname : IsIdentifier name) (hv : v ∉ notFirst) :
    formOf .fields (name.toList :: v :: more) = .field := by
  have hw := isName_of_isIdentifier hname
  rw [formOf, if_neg (not_mem_follow_of_isName hw),
    if_pos ⟨hw, v, rfl, not_mem_follow_of_notFirst hv⟩]

/-- A type without a name in front of it begins an embedded field. -/
theorem formOf_embedding {w : List Char} {more : List (List Char)} (hw : w ∉ notFirst)
    (hmore : isName w = true → Ends .type more) : formOf .fields (w :: more) = .embedding := by
  rw [formOf, if_neg (not_mem_follow_of_notFirst hw),
    if_neg fun h => not_exists_of_ends (hmore h.1) h.2]

/-- A name in front of a parenthesis begins a method. -/
theorem formOf_method {name : String} {more : List (List Char)} (hname : IsIdentifier name) :
    formOf .elements (name.toList :: ['('] :: more) = .method := by
  have hw := isName_of_isIdentifier hname
  rw [formOf, if_neg (not_mem_follow_of_isName hw), if_pos ⟨hw, rfl⟩]

/-- A type begins an embedded one. -/
theorem formOf_element {w : List Char} {more : List (List Char)} (hw : w ∉ notFirst)
    (hmore : isName w = true → Ends .type more) : formOf .elements (w :: more) = .element := by
  rw [formOf, if_neg (not_mem_follow_of_notFirst hw), if_neg]
  rintro ⟨hname, hparen⟩
  exact absurd (hmore hname ['('] hparen) (by decide)

/-- A type without a name in front of it begins a parameter. -/
theorem formOf_param {w : List Char} {more : List (List Char)} (hw : w ∉ notFirst)
    (hmore : isName w = true → Ends .type more) : formOf .params (w :: more) = .param false := by
  have hdots : w ≠ ['.', '.', '.'] := by
    rintro rfl
    exact hw (by decide)
  have hspread : ¬ (isName w = true ∧ more.head? = some ['.', '.', '.']) := fun h =>
    absurd (hmore h.1 ['.', '.', '.'] h.2) (by decide)
  have hnone : ¬ (isName w = true ∧ ∃ v ∈ more.head?, v ∉ follow .type) := fun h =>
    not_exists_of_ends (hmore h.1) h.2
  rw [formOf, if_neg (not_mem_follow_of_notFirst hw), if_neg hdots, if_neg hspread]
  exact congrArg Form.param (decide_eq_false hnone)

/-- A name in front of a type begins a parameter with a name. -/
theorem formOf_namedParam {name : String} {v : List Char} {more : List (List Char)}
    (hname : IsIdentifier name) (hv : v ∉ notFirst) :
    formOf .params (name.toList :: v :: more) = .param true := by
  have hw := isName_of_isIdentifier hname
  have hdots : name.toList ≠ ['.', '.', '.'] := fun h => by
    rw [h] at hw
    exact absurd hw (by decide)
  have hspread : ¬ (isName name.toList = true ∧ (v :: more).head? = some ['.', '.', '.']) := by
    rintro ⟨-, h⟩
    exact hv (Option.some.inj h ▸ by decide)
  rw [formOf, if_neg (not_mem_follow_of_isName hw), if_neg hdots, if_neg hspread]
  exact congrArg Form.param (decide_eq_true ⟨hw, v, rfl, not_mem_follow_of_notFirst hv⟩)

/-- A name in front of three dots begins the last parameter of a variadic function. -/
theorem formOf_spread {name : String} {more : List (List Char)} (hname : IsIdentifier name) :
    formOf .params (name.toList :: ['.', '.', '.'] :: more) = .spread true := by
  have hw := isName_of_isIdentifier hname
  have hdots : name.toList ≠ ['.', '.', '.'] := fun h => by
    rw [h] at hw
    exact absurd hw (by decide)
  rw [formOf, if_neg (not_mem_follow_of_isName hw), if_neg hdots, if_pos ⟨hw, rfl⟩]

end Lists

/-- The first words of a piece tell its form. -/
theorem formOf_words {a : TypeSyntax k} {rest : List (List Char)} (h : a.HasNames)
    (hrest : Ends k rest) : formOf k (a.words ++ rest) = a.form := by
  cases a with
  | noFields => exact formOf_empty rfl hrest
  | noElements => exact formOf_empty rfl hrest
  | noParams => exact formOf_empty rfl hrest
  | field name type more =>
    obtain ⟨w, ws, hwords, hw, -⟩ :=
      exists_words_append h.2.1 (Ends.type (c := ';') (a := more) (by decide) hrest)
    simp only [words, List.cons_append, List.append_assoc, hwords]
    exact formOf_field h.1 hw
  | embedding type more =>
    obtain ⟨w, ws, hwords, hw, hends⟩ :=
      exists_words_append h.1 (Ends.type (c := ';') (a := more) (by decide) hrest)
    simp only [words, List.append_assoc, hwords]
    exact formOf_embedding hw hends
  | method name params results more => exact formOf_method h.1
  | element type more =>
    obtain ⟨w, ws, hwords, hw, hends⟩ :=
      exists_words_append h.1 (Ends.type (c := ';') (a := more) (by decide) hrest)
    simp only [words, List.append_assoc, hwords]
    exact formOf_element hw hends
  | param name type more =>
    obtain ⟨w, ws, hwords, hw, hends⟩ :=
      exists_words_append h.2.1 (Ends.type (c := ',') (a := more) (by decide) hrest)
    cases name with
    | none =>
      simp only [words, labelWords, List.nil_append, List.append_assoc, hwords]
      exact formOf_param hw hends
    | some name =>
      simp only [words, labelWords, List.cons_append, List.append_assoc, hwords]
      exact formOf_namedParam (h.1 name rfl) hw
  | spread name elem =>
    cases name with
    | none => rfl
    | some name => exact formOf_spread (h.1 name rfl)
  | named path name => exact formOf_type h rest
  | pointer elem => exact formOf_type (a := pointer elem) h rest
  | slice elem => exact formOf_type (a := slice elem) h rest
  | array len elem => exact formOf_type (a := array len elem) h rest
  | map key value => exact formOf_type (a := map key value) h rest
  | chan dir elem => exact formOf_type (a := chan dir elem) h rest
  | struct fields => exact formOf_type (a := struct fields) h rest
  | interface elements => exact formOf_type (a := interface elements) h rest
  | func params results => exact formOf_type (a := func params results) h rest

end TypeSyntax

end SymbolGraph
