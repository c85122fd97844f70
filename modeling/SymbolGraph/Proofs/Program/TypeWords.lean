import SymbolGraph.Proofs.Program.TypeText

/-!
# The words of a type

The words of a piece of a type (`TypeSyntax.words`) are those of its text, whatever follows the
text, if that is nothing or begins with a mark that ends a type (`wordsOf_text`).
-/

namespace SymbolGraph

namespace TypeSyntax

open Go

variable {k : Piece} {more : List Char} {text : List Char}

/-! ## Words -/

/-- What stands in front of the rest of a list, as words. -/
def mark (sign : Char) (rest : TypeSyntax k) : List (List Char) :=
  if rest.isEmpty then [] else [[sign]]

/-- The name of a parameter, as words. -/
def labelWords : Option String → List (List Char)
  | some name => [name.toList]
  | none => []

/-- Results behind the parameters, as words. -/
def resultWords (results : TypeSyntax .params) (words : List (List Char)) : List (List Char) :=
  match results with
  | .noParams => []
  | .param none _ .noParams => words
  | _ => ['('] :: (words ++ [[')']])

/-- A channel type, as words. -/
def chanWords (dir : ChanDir) (elem : TypeSyntax .type) (words : List (List Char)) :
    List (List Char) :=
  match dir with
  | .both => chanWord :: if elem.isReceiver then ['('] :: (words ++ [[')']]) else words
  | .send => chanWord :: ['<', '-'] :: words
  | .recv => ['<', '-'] :: chanWord :: words

/-- The words of a piece, a name with its package path being one word. -/
def words : {k : Piece} → TypeSyntax k → List (List Char)
  | _, .named path name => [namedText path name]
  | _, .pointer elem => ['*'] :: elem.words
  | _, .slice elem => ['['] :: [']'] :: elem.words
  | _, .array len elem => ['['] :: (toString len).toList :: [']'] :: elem.words
  | _, .map key value => mapWord :: ['['] :: (key.words ++ [']'] :: value.words)
  | _, .chan dir elem => chanWords dir elem elem.words
  | _, .struct fields => structWord :: ['\x7b'] :: (fields.words ++ [['\x7d']])
  | _, .interface elements => interfaceWord :: ['\x7b'] :: (elements.words ++ [['\x7d']])
  | _, .func params results =>
    funcWord :: ['('] :: (params.words ++ [')'] :: resultWords results results.words)
  | _, .noFields | _, .noElements | _, .noParams => []
  | _, .field name type rest => name.toList :: (type.words ++ rest.mark ';' ++ rest.words)
  | _, .embedding type rest => type.words ++ rest.mark ';' ++ rest.words
  | _, .method name params results rest =>
    name.toList :: ['('] :: (params.words ++ [')'] :: (resultWords results results.words
      ++ rest.mark ';' ++ rest.words))
  | _, .element type rest => type.words ++ rest.mark ';' ++ rest.words
  | _, .param name type rest => labelWords name ++ type.words ++ rest.mark ',' ++ rest.words
  | _, .spread name elem => labelWords name ++ ['.', '.', '.'] :: elem.words

/-! ## The words of the text of a type -/

/-- The keyword of channel types is read like a name. -/
theorem isNameLike_chanWord : IsNameLike chanWord := isNameLike_of_mem_keywords (by decide)

/-- The keyword of map types is read like a name. -/
theorem isNameLike_mapWord : IsNameLike mapWord := isNameLike_of_mem_keywords (by decide)

/-- The keyword of struct types is read like a name. -/
theorem isNameLike_structWord : IsNameLike structWord := isNameLike_of_mem_keywords (by decide)

/-- The keyword of interface types is read like a name. -/
theorem isNameLike_interfaceWord : IsNameLike interfaceWord :=
  isNameLike_of_mem_keywords (by decide)

/-- The keyword of function types is read like a name. -/
theorem isNameLike_funcWord : IsNameLike funcWord := isNameLike_of_mem_keywords (by decide)

/-- A name before a sign is a word. -/
theorem wordsOf_name_sign {word : List Char} {c : Char} (hword : IsNameLike word) (h : c ∈ signs)
    (hstar : c ≠ '*') (text : List Char) :
    wordsOf (word ++ c :: text) = word :: [c] :: wordsOf text := by
  have hnext : ∀ d ∈ (c :: text).head?, isNameRest d = false := fun d hd => by
    obtain rfl := Option.some.inj hd
    exact (by decide : ∀ c ∈ signs, isNameRest c = false) c h
  rw [wordsOf_name hword hnext (parted_sign h hstar text), wordsOf_sign h hstar]

/-- A name before a blank is a word, if a word begins behind it. -/
theorem wordsOf_name_space {word : List Char} (hword : IsNameLike word) (h : Parted text) :
    wordsOf (word ++ ' ' :: text) = word :: wordsOf text := by
  have hnext : ∀ d ∈ (' ' :: text).head?, isNameRest d = false := fun d hd => by
    obtain rfl := Option.some.inj hd
    decide
  rw [wordsOf_name hword hnext (parted_space h), wordsOf_space]

/-- A text that begins with a mark stops a word. -/
theorem stops_cons {c : Char} (h : c ∈ stops) (text : List Char) :
    Stops (c :: text) := fun d hd => by
  obtain rfl := Option.some.inj hd
  exact h

/-- What stops a word continues no name. -/
theorem isNameRest_of_stops (h : Stops more) : ∀ c ∈ more.head?, isNameRest c = false := fun c hc =>
  (by decide : ∀ c ∈ stops, isNameRest c = false) c (h c hc)

section Named

variable {path : Option String} {name : String}

/-- A name, with its path or without, is one word. -/
theorem wordsOf_namedText (hpath : ∀ x ∈ path, IsImportPath x) (hname : IsIdentifier name)
    (hmore : Stops more) :
    wordsOf (namedText path name ++ more) = namedText path name :: wordsOf more := by
  cases path with
  | none => exact wordsOf_name hname.isNameLike (isNameRest_of_stops hmore) (parted_of_stops hmore)
  | some path =>
    exact wordsOf_run (isRun_qualified (hpath path rfl) hname) (by simp [namedText]) hmore

/-- A name in front of something is parted from what stands before it. -/
theorem parted_namedText (hpath : ∀ x ∈ path, IsImportPath x) (hname : IsIdentifier name)
    (hmore : Stops more) : Parted (namedText path name ++ more) := by
  cases path with
  | none => exact parted_name hname.isNameLike (isNameRest_of_stops hmore)
  | some path =>
    have hbegins : ∃ c ∈ (namedText (some path) name).head?, isNameRest c = true := by
      obtain ⟨c, hc, hrest⟩ := (hpath path rfl).begins
      refine ⟨c, ?_, hrest⟩
      simp [namedText, Option.mem_def.mp hc]
    exact parted_run (isRun_qualified (hpath path rfl) hname) hbegins hmore

end Named

/-- A keyword before another character is a word. -/
theorem parted_keyword {word : List Char} {c : Char} (hword : IsNameLike word)
    (hc : isNameRest c = false) (text : List Char) : Parted (word ++ c :: text) :=
  parted_name hword fun d hd => by
    obtain rfl := Option.some.inj hd
    exact hc

/-- A type begins with a word of its own. -/
theorem parted_text : {a : TypeSyntax .type} → a.HasNames → a.HasPaths → Stops more →
    Parted (a.text ++ more)
  | .named _ _, hnames, hpaths, hmore => parted_namedText hpaths.1 hnames.2 hmore
  | .pointer _, hnames, hpaths, hmore => parted_star (parted_text hnames hpaths hmore)
  | .slice _, _, _, _ => parted_sign (by decide) (by decide) _
  | .array _ _, _, _, _ => parted_sign (by decide) (by decide) _
  | .map key value, _, _, _ => by
    rw [text, textWith, List.append_assoc, List.append_assoc]
    exact parted_keyword isNameLike_mapWord (by decide) _
  | .chan dir elem, _, _, _ => by
    rw [text, textWith]
    cases dir with
    | both =>
      rw [chanText, List.append_assoc]
      exact parted_keyword isNameLike_chanWord (by decide) _
    | send =>
      rw [chanText, List.append_assoc]
      exact parted_keyword isNameLike_chanWord (by decide) _
    | recv => exact parted_arrow _
  | .struct _, _, _, _ => by
    rw [text, textWith, List.append_assoc, List.append_assoc]
    exact parted_keyword isNameLike_structWord (by decide) _
  | .interface _, _, _, _ => by
    rw [text, textWith, List.append_assoc, List.append_assoc]
    exact parted_keyword isNameLike_interfaceWord (by decide) _
  | .func _ _, _, _, _ => by
    rw [text, textWith, List.append_assoc, List.append_assoc]
    exact parted_keyword isNameLike_funcWord (by decide) _

/-- A list with nothing in it has neither text nor words. -/
theorem text_of_isEmpty {a : TypeSyntax k} (h : a.isEmpty = true) : a.text = [] ∧ a.words = [] := by
  cases a <;> first | exact ⟨rfl, rfl⟩ | cases h

/-- What stands between the parts of a list. -/
theorem wordsOf_separator {c : Char} {rest : TypeSyntax k} (hc : c ∈ signs) (hstar : c ≠ '*')
    (h : wordsOf (rest.text ++ more) = rest.words ++ wordsOf more) :
    wordsOf (rest.separator [c, ' '] ++ (rest.text ++ more)) =
      rest.mark c ++ (rest.words ++ wordsOf more) := by
  cases hempty : rest.isEmpty with
  | true => simpa [separator, mark, hempty] using h
  | false =>
    have hseparator : rest.separator [c, ' '] = [c, ' '] := by simp [separator, hempty]
    have hmark : rest.mark c = [[c]] := by simp [mark, hempty]
    rw [hseparator, hmark, List.cons_append, wordsOf_sign hc hstar]
    exact congrArg ([c] :: ·) h

/-- Behind an item of a list a word stops, be it at the separator or at what follows the list. -/
theorem stops_separator {c : Char} {rest : TypeSyntax k} (hc : c ∈ stops) (hmore : Stops more) :
    Stops (rest.separator [c, ' '] ++ (rest.text ++ more)) := by
  cases hempty : rest.isEmpty with
  | true => simpa [separator, hempty, (text_of_isEmpty hempty).1] using hmore
  | false =>
    rw [separator, hempty]
    exact stops_cons hc _

/-- Results are none, or one type without a name, or stand in parentheses. -/
theorem results_cases (results : TypeSyntax .params) :
    results = .noParams ∨ (∃ type, results = .param none type .noParams) ∨
      (∀ text, results.resultsText text = ' ' :: '(' :: text ++ [')']) ∧
        ∀ words, results.resultWords words = ['('] :: (words ++ [[')']]) := by
  match results with
  | .noParams => exact .inl rfl
  | .param none type .noParams => exact .inr (.inl ⟨type, rfl⟩)
  | .param (some _) _ _ => exact .inr (.inr ⟨fun _ => rfl, fun _ => rfl⟩)
  | .param none _ (.param _ _ _) => exact .inr (.inr ⟨fun _ => rfl, fun _ => rfl⟩)
  | .param none _ (.spread _ _) => exact .inr (.inr ⟨fun _ => rfl, fun _ => rfl⟩)
  | .spread _ _ => exact .inr (.inr ⟨fun _ => rfl, fun _ => rfl⟩)

/-- The words of results are those of their list, in parentheses where the text has them. -/
theorem wordsOf_results {results : TypeSyntax .params}
    (h : ∀ {more}, Stops more → wordsOf (results.text ++ more) = results.words ++ wordsOf more)
    (hmore : Stops more) :
    wordsOf (results.resultsText results.text ++ more) =
      results.resultWords results.words ++ wordsOf more := by
  rcases results_cases results with rfl | ⟨type, rfl⟩ | ⟨htext, hwords⟩
  · rfl
  · exact h hmore
  · rw [htext, hwords]
    calc wordsOf (' ' :: '(' :: results.text ++ [')'] ++ more)
      _ = wordsOf ('(' :: (results.text ++ ')' :: more)) := by simp [wordsOf_space]
      _ = ['('] :: (results.words ++ [')'] :: wordsOf more) := by
        rw [wordsOf_sign (by decide) (by decide), h (stops_cons (by decide) more),
          wordsOf_sign (by decide) (by decide)]
      _ = ['('] :: (results.words ++ [[')']]) ++ wordsOf more := by simp

/-- The name of a parameter is a word of its own. -/
theorem wordsOf_label {name : Option String} (hname : ∀ x ∈ name, IsIdentifier x)
    (h : Parted text) :
    wordsOf (label name ++ text) = labelWords name ++ wordsOf text := by
  cases name with
  | none => rfl
  | some name =>
    rw [label, List.append_assoc]
    exact wordsOf_name_space (hname name rfl).isNameLike h

/-- Numbers are written with digits. -/
theorem isDecimal_of_mem_toString {n : Nat} : ∀ c ∈ (toString n).toList, isDecimal c = true := by
  intro c hc
  rw [Nat.toString_eq_repr, Nat.toList_repr] at hc
  have hdigit := Nat.isDigit_of_mem_toDigits (by decide) (by decide) hc
  simp only [Char.isDigit, Bool.and_eq_true, decide_eq_true_eq] at hdigit
  simp only [isDecimal, Bool.and_eq_true, decide_eq_true_eq]
  exact hdigit

/-- A number has a digit. -/
theorem toString_ne_nil (n : Nat) : (toString n).toList ≠ [] := by
  rw [Nat.toString_eq_repr, Nat.toList_repr]
  exact Nat.toDigits_ne_nil

/-- The words of an array type: brackets, the length between them, and the element's. -/
theorem wordsOf_array {elem : TypeSyntax .type} (len : Nat)
    (h : wordsOf (elem.text ++ more) = elem.words ++ wordsOf more) :
    wordsOf ((array len elem).text ++ more) = (array len elem).words ++ wordsOf more := by
  calc wordsOf ((array len elem).text ++ more)
    _ = wordsOf ('[' :: ((toString len).toList ++ ']' :: (elem.text ++ more))) := by
      simp [text, textWith]
    _ = ['['] :: (toString len).toList :: [']'] :: (elem.words ++ wordsOf more) := by
      rw [wordsOf_sign (by decide) (by decide),
        wordsOf_number (toString_ne_nil len) isDecimal_of_mem_toString, h]
    _ = (array len elem).words ++ wordsOf more := by simp [words]

/-- The words of a map type: the key's in brackets, and the value's. -/
theorem wordsOf_map {key value : TypeSyntax .type}
    (hkey : ∀ {more}, Stops more → wordsOf (key.text ++ more) = key.words ++ wordsOf more)
    (hvalue : wordsOf (value.text ++ more) = value.words ++ wordsOf more) :
    wordsOf ((map key value).text ++ more) = (map key value).words ++ wordsOf more := by
  calc wordsOf ((map key value).text ++ more)
    _ = wordsOf (mapWord ++ '[' :: (key.text ++ ']' :: (value.text ++ more))) := by
      simp [text, textWith]
    _ = mapWord :: ['['] :: (key.words ++ [']'] :: (value.words ++ wordsOf more)) := by
      rw [wordsOf_name_sign isNameLike_mapWord (by decide) (by decide),
        hkey (stops_cons (by decide) _), wordsOf_sign (by decide) (by decide), hvalue]
    _ = (map key value).words ++ wordsOf more := by simp [words]

/-- The words of a channel type: the arrow on its side, and the element's, in parentheses if the
element itself begins with an arrow and values go both ways. -/
theorem wordsOf_chan {elem : TypeSyntax .type} (dir : ChanDir)
    (hparted : ∀ {more}, Stops more → Parted (elem.text ++ more))
    (helem : ∀ {more}, Stops more → wordsOf (elem.text ++ more) = elem.words ++ wordsOf more)
    (hmore : Stops more) :
    wordsOf ((chan dir elem).text ++ more) = (chan dir elem).words ++ wordsOf more := by
  cases dir with
  | both =>
    cases hreceiver : elem.isReceiver with
    | true =>
      calc wordsOf ((chan .both elem).text ++ more)
        _ = wordsOf (chanWord ++ ' ' :: '(' :: (elem.text ++ ')' :: more)) := by
          simp [text, textWith, chanText, hreceiver]
        _ = chanWord :: ['('] :: (elem.words ++ [')'] :: wordsOf more) := by
          rw [wordsOf_name_space isNameLike_chanWord (parted_sign (by decide) (by decide) _),
            wordsOf_sign (by decide) (by decide), helem (stops_cons (by decide) more),
            wordsOf_sign (by decide) (by decide)]
        _ = (chan .both elem).words ++ wordsOf more := by simp [words, chanWords, hreceiver]
    | false =>
      calc wordsOf ((chan .both elem).text ++ more)
        _ = wordsOf (chanWord ++ ' ' :: (elem.text ++ more)) := by
          simp [text, textWith, chanText, hreceiver]
        _ = chanWord :: (elem.words ++ wordsOf more) := by
          rw [wordsOf_name_space isNameLike_chanWord (hparted hmore), helem hmore]
        _ = (chan .both elem).words ++ wordsOf more := by simp [words, chanWords, hreceiver]
  | send =>
    have hchan : ∀ text, wordsOf (chanWord ++ '<' :: '-' :: text) =
        chanWord :: wordsOf ('<' :: '-' :: text) := fun text =>
      wordsOf_name isNameLike_chanWord (fun c hc => by obtain rfl := Option.some.inj hc; decide)
        (parted_arrow text)
    calc wordsOf ((chan .send elem).text ++ more)
      _ = wordsOf (chanWord ++ '<' :: '-' :: ' ' :: (elem.text ++ more)) := by
        simp [text, textWith, chanText]
      _ = chanWord :: ['<', '-'] :: (elem.words ++ wordsOf more) := by
        rw [hchan, wordsOf_arrow, wordsOf_space, helem hmore]
      _ = (chan .send elem).words ++ wordsOf more := by simp [words, chanWords]
  | recv =>
    calc wordsOf ((chan .recv elem).text ++ more)
      _ = wordsOf ('<' :: '-' :: (chanWord ++ ' ' :: (elem.text ++ more))) := by
        simp [text, textWith, chanText]
      _ = ['<', '-'] :: chanWord :: (elem.words ++ wordsOf more) := by
        rw [wordsOf_arrow, wordsOf_name_space isNameLike_chanWord (hparted hmore), helem hmore]
      _ = (chan .recv elem).words ++ wordsOf more := by simp [words, chanWords]

/-- A list in braces behind its keyword. -/
theorem wordsOf_braced {word : List Char} {inner : TypeSyntax k} (hword : IsNameLike word)
    (hinner : ∀ {more}, Stops more → wordsOf (inner.text ++ more) = inner.words ++ wordsOf more) :
    wordsOf (word ++ '\x7b' :: (inner.text ++ '\x7d' :: more)) =
      word :: ['\x7b'] :: (inner.words ++ ['\x7d'] :: wordsOf more) := by
  rw [wordsOf_name_sign hword (by decide) (by decide), hinner (stops_cons (by decide) more),
    wordsOf_sign (by decide) (by decide)]

/-- Parameters and results behind the keyword of functions or the name of a method. -/
theorem wordsOf_signature {word : List Char} {params results : TypeSyntax .params}
    (hword : IsNameLike word)
    (hparams : ∀ {more}, Stops more → wordsOf (params.text ++ more) = params.words ++ wordsOf more)
    (hresults : ∀ {more}, Stops more →
      wordsOf (results.text ++ more) = results.words ++ wordsOf more) (hmore : Stops more) :
    wordsOf (word ++ '(' :: (params.text ++ ')' :: (results.resultsText results.text ++ more))) =
      word :: ['('] :: (params.words ++ [')'] ::
        (results.resultWords results.words ++ wordsOf more)) := by
  rw [wordsOf_name_sign hword (by decide) (by decide), hparams (stops_cons (by decide) _),
    wordsOf_sign (by decide) (by decide), wordsOf_results hresults hmore]

/-- A type in a list, with the items behind it. -/
theorem wordsOf_item {c : Char} {type : TypeSyntax .type} {rest : TypeSyntax k} (hsign : c ∈ signs)
    (hstar : c ≠ '*') (hstop : c ∈ stops)
    (htype : ∀ {more}, Stops more → wordsOf (type.text ++ more) = type.words ++ wordsOf more)
    (hrest : wordsOf (rest.text ++ more) = rest.words ++ wordsOf more) (hmore : Stops more) :
    wordsOf (type.text ++ (rest.separator [c, ' '] ++ (rest.text ++ more))) =
      type.words ++ (rest.mark c ++ (rest.words ++ wordsOf more)) := by
  rw [htype (stops_separator hstop hmore), wordsOf_separator hsign hstar hrest]

/-- The words of the text of a piece. -/
theorem wordsOf_text {a : TypeSyntax k} (hnames : a.HasNames) (hpaths : a.HasPaths)
    (hmore : Stops more) : wordsOf (a.text ++ more) = a.words ++ wordsOf more := by
  induction a generalizing more with
  | named path name => exact wordsOf_namedText hpaths.1 hnames.2 hmore
  | pointer elem ih =>
    have hparted : Parted (elem.text ++ more) := parted_text hnames hpaths hmore
    calc wordsOf ((pointer elem).text ++ more)
      _ = wordsOf ('*' :: (elem.text ++ more)) := by simp [text, textWith]
      _ = ['*'] :: (elem.words ++ wordsOf more) := by
        rw [wordsOf_star hparted, ih hnames hpaths hmore]
      _ = (pointer elem).words ++ wordsOf more := by simp [words]
  | slice elem ih =>
    calc wordsOf ((slice elem).text ++ more)
      _ = wordsOf ('[' :: ']' :: (elem.text ++ more)) := by simp [text, textWith]
      _ = ['['] :: [']'] :: (elem.words ++ wordsOf more) := by
        rw [wordsOf_sign (by decide) (by decide), wordsOf_sign (by decide) (by decide),
          ih hnames hpaths hmore]
      _ = (slice elem).words ++ wordsOf more := by simp [words]
  | array len elem ih => exact wordsOf_array len (ih hnames hpaths hmore)
  | map key value ihkey ihvalue =>
    exact wordsOf_map (ihkey hnames.1 hpaths.1) (ihvalue hnames.2 hpaths.2 hmore)
  | chan dir elem ih =>
    exact wordsOf_chan dir (parted_text hnames.2 hpaths.2) (ih hnames.2 hpaths.2) hmore
  | struct fields ih =>
    calc wordsOf ((struct fields).text ++ more)
      _ = wordsOf (structWord ++ '\x7b' :: (fields.text ++ '\x7d' :: more)) := by
        simp [text, textWith]
      _ = structWord :: ['\x7b'] :: (fields.words ++ ['\x7d'] :: wordsOf more) := by
        rw [wordsOf_braced isNameLike_structWord (ih hnames hpaths)]
      _ = (struct fields).words ++ wordsOf more := by simp [words]
  | interface elements ih =>
    calc wordsOf ((interface elements).text ++ more)
      _ = wordsOf (interfaceWord ++ '\x7b' :: (elements.text ++ '\x7d' :: more)) := by
        simp [text, textWith]
      _ = interfaceWord :: ['\x7b'] :: (elements.words ++ ['\x7d'] :: wordsOf more) := by
        rw [wordsOf_braced isNameLike_interfaceWord (ih hnames hpaths)]
      _ = (interface elements).words ++ wordsOf more := by simp [words]
  | func params results ihparams ihresults =>
    calc wordsOf ((func params results).text ++ more)
      _ = wordsOf (funcWord ++ '(' :: (params.text ++ ')' ::
          (results.resultsText results.text ++ more))) := by simp [text, textWith]
      _ = funcWord :: ['('] :: (params.words ++ [')'] ::
          (results.resultWords results.words ++ wordsOf more)) := by
        rw [wordsOf_signature isNameLike_funcWord (ihparams hnames.1 hpaths.1)
          (ihresults hnames.2 hpaths.2) hmore]
      _ = (func params results).words ++ wordsOf more := by simp [words]
  | noFields => rfl
  | field name type rest ihtype ihrest =>
    have hstops : Stops (rest.separator [';', ' '] ++ (rest.text ++ more)) :=
      stops_separator (by decide) hmore
    calc wordsOf ((field name type rest).text ++ more)
      _ = wordsOf (name.toList ++ ' ' :: (type.text ++
          (rest.separator [';', ' '] ++ (rest.text ++ more)))) := by simp [text, textWith]
      _ = name.toList :: (type.words ++ (rest.mark ';' ++ (rest.words ++ wordsOf more))) := by
        rw [wordsOf_name_space hnames.1.isNameLike (parted_text hnames.2.1 hpaths.2.1 hstops),
          wordsOf_item (by decide) (by decide) (by decide) (ihtype hnames.2.1 hpaths.2.1)
            (ihrest hnames.2.2 hpaths.2.2 hmore) hmore]
      _ = (field name type rest).words ++ wordsOf more := by simp [words]
  | embedding type rest ihtype ihrest =>
    calc wordsOf ((embedding type rest).text ++ more)
      _ = wordsOf (type.text ++ (rest.separator [';', ' '] ++ (rest.text ++ more))) := by
        simp [text, textWith]
      _ = type.words ++ (rest.mark ';' ++ (rest.words ++ wordsOf more)) := by
        exact wordsOf_item (by decide) (by decide) (by decide) (ihtype hnames.1 hpaths.1)
          (ihrest hnames.2 hpaths.2 hmore) hmore
      _ = (embedding type rest).words ++ wordsOf more := by simp [words]
  | noElements => rfl
  | method name params results rest ihparams ihresults ihrest =>
    calc wordsOf ((method name params results rest).text ++ more)
      _ = wordsOf (name.toList ++ '(' :: (params.text ++ ')' :: (results.resultsText results.text ++
          (rest.separator [';', ' '] ++ (rest.text ++ more))))) := by simp [text, textWith]
      _ = name.toList :: ['('] :: (params.words ++ [')'] :: (results.resultWords results.words ++
          (rest.mark ';' ++ (rest.words ++ wordsOf more)))) := by
        rw [wordsOf_signature hnames.1.isNameLike (ihparams hnames.2.1 hpaths.2.1)
            (ihresults hnames.2.2.1 hpaths.2.2.1) (stops_separator (by decide) hmore),
          wordsOf_separator (by decide) (by decide) (ihrest hnames.2.2.2 hpaths.2.2.2 hmore)]
      _ = (method name params results rest).words ++ wordsOf more := by simp [words]
  | element type rest ihtype ihrest =>
    calc wordsOf ((element type rest).text ++ more)
      _ = wordsOf (type.text ++ (rest.separator [';', ' '] ++ (rest.text ++ more))) := by
        simp [text, textWith]
      _ = type.words ++ (rest.mark ';' ++ (rest.words ++ wordsOf more)) := by
        exact wordsOf_item (by decide) (by decide) (by decide) (ihtype hnames.1 hpaths.1)
          (ihrest hnames.2 hpaths.2 hmore) hmore
      _ = (element type rest).words ++ wordsOf more := by simp [words]
  | noParams => rfl
  | param name type rest ihtype ihrest =>
    have hstops : Stops (rest.separator [',', ' '] ++ (rest.text ++ more)) :=
      stops_separator (by decide) hmore
    calc wordsOf ((param name type rest).text ++ more)
      _ = wordsOf (label name ++ (type.text ++
          (rest.separator [',', ' '] ++ (rest.text ++ more)))) := by simp [text, textWith]
      _ = labelWords name ++ (type.words ++ (rest.mark ',' ++ (rest.words ++ wordsOf more))) := by
        rw [wordsOf_label hnames.1 (parted_text hnames.2.1 hpaths.2.1 hstops),
          wordsOf_item (by decide) (by decide) (by decide) (ihtype hnames.2.1 hpaths.2.1)
            (ihrest hnames.2.2 hpaths.2.2 hmore) hmore]
      _ = (param name type rest).words ++ wordsOf more := by simp [words]
  | spread name elem ih =>
    calc wordsOf ((spread name elem).text ++ more)
      _ = wordsOf (label name ++ '.' :: '.' :: '.' :: (elem.text ++ more)) := by
        simp [text, textWith]
      _ = labelWords name ++ ['.', '.', '.'] :: (elem.words ++ wordsOf more) := by
        rw [wordsOf_label hnames.1 (parted_dots _), wordsOf_dots, ih hnames.2 hpaths.2 hmore]
      _ = (spread name elem).words ++ wordsOf more := by simp [words]

end TypeSyntax

end SymbolGraph
