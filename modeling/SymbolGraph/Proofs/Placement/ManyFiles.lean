import SymbolGraph.Proofs.Placement.Leads

/-!
# Packages of many files

What a package of many files looks like that was found to be in order by a checker (`ManyFiles`),
and how the paths open of what is in a file (`Opening`): with the name of a function or of a type
and its method, which the package has once, with a word that carries the file's name without
extension, or with the blank name of a function.

The main statement is `Opening.file_eq_or_blank`: paths that are written alike open alike only in
one file, or in the bodies of two functions called `_`.
-/

namespace SymbolGraph

open Text PlacementContext
open FlatFile (stem LabelOf blockLabel)

namespace Program

/-- A scope lies in a file, at or below a child of the file's scope. -/
structure InFile (p : Program) (top file child scope : ScopeId) : Prop where
  isFile : p.HasChild top file
  isChild : p.HasChild file child
  below : p.Below child scope

variable {p : Program} {top file file' child child' scope : ScopeId}

/-- What is strictly below the scope of a file lies in the file. -/
theorem inFile_of_below (hfile : p.HasChild top file) (hbelow : p.Below file scope)
    (hne : scope ≠ file) : ∃ child, p.InFile top file child scope := by
  rcases hbelow.eq_or_child with rfl | ⟨child, hchild, hbelow⟩
  · exact absurd rfl hne
  · exact ⟨child, hfile, hchild, hbelow⟩

/-- What is in a file lies below the scope of the file. -/
theorem InFile.below_file (h : p.InFile top file child scope) : p.Below file scope :=
  Below.trans (.child .refl h.isChild) h.below

/-- A scope lies in one file, and there below one child of the file's scope. -/
theorem InFile.eq (hp : p.ScopeTree) (h : p.InFile top file child scope)
    (h' : p.InFile top file' child' scope) : file = file' ∧ child = child' := by
  obtain rfl := hp.child_eq h.isFile h'.isFile h.below_file h'.below_file
  exact ⟨rfl, hp.child_eq h.isChild h'.isChild h.below h'.below⟩

/-- Scopes in files come after those of the files, and these after that of the package. -/
theorem InFile.index_lt (hp : p.ScopeTree) (h : p.InFile top file child scope) :
    top.index < file.index ∧ file.index < scope.index := by
  have hfile := hp.later h.isFile
  have hchild := hp.later h.isChild
  have hbelow := hp.index_le h.below
  omega

/-- Neither the scope of the package nor that of a file lies in a file. -/
theorem InFile.not_file (hp : p.ScopeTree) (h : p.InFile top file child scope) :
    scope ≠ top ∧ ¬ p.HasChild top scope := by
  have hlt := h.index_lt hp
  refine ⟨?_, fun hscope => ?_⟩
  · rintro rfl
    omega
  · obtain rfl := hp.child_eq h.isFile hscope h.below_file .refl
    omega

end Program

/-- What has a name of its own as a type is no function. -/
theorem Program.Names.not_ownsScope {p : Program} {obj : ObjectId} {type : TypeId}
    (h : p.Names obj type) (scope : ScopeId) : ¬ p.OwnsScope obj scope := by
  rintro ⟨o, ho, hfunc⟩
  obtain ⟨o', ho', hkind, -⟩ := h
  rw [ho] at ho'
  cases ho'
  rw [hkind] at hfunc
  cases hfunc

/-- A package consists of files, and what was found out about it is as the language has it. `top`
is the scope of the package; its children are the scopes of the files, and `src` tells which file
each of them is of. -/
structure ManyFiles (p : Program) (k : CheckedPackage) (top : ScopeId) (src : ScopeId → FileId) :
    Prop where
  tree : p.ScopeTree
  members : p.Members
  owner : ∃ owner, p.package k.pkg = .ok owner ∧ owner.scope = top
  files : ∀ {file}, p.HasChild top file → FileScopes p k file (src file)
  /-- The name of a file without extension is not that of another one, nor does it go on like it
  with digits. -/
  stemsApart : ∀ {file file'}, p.HasChild top file → p.HasChild top file' → file ≠ file' →
    ∀ digits : List Char, (∀ d ∈ digits, d.isDigit) →
      (stem p (src file')).toList ≠ (stem p (src file)).toList ++ digits
  stemFlat : ∀ {file}, p.HasChild top file → '/' ∉ (stem p (src file)).toList
  boundOnce : ∀ {a b name name' obj}, p.Binds a name obj → p.Binds b name' obj → a = b
  plainBinding : ∀ {name obj}, p.Binds top name obj → Word.Plain name ∧ name ≠ ""
  plainMethod : ∀ {obj o}, p.IsMethod obj → p.object obj = .ok o → Word.Plain o.name
  methodNames : ∀ {type a b}, p.HasMethod type a → p.HasMethod type b → p.SameName a b → a = b
  /-- The package has no types with the names that any number of functions can have. -/
  typeNames : ∀ {name obj type}, p.Binds top name obj → p.Names obj type →
    name ≠ "init" ∧ name ≠ "_"
  /-- The functions with scopes stand side by side in the files. -/
  funcNested : ∀ {scope recv name obj}, p.FuncScope k scope recv name obj →
    ∃ file, p.HasChild top file ∧ p.HasChild file scope
  funcBound : ∀ {scope name obj o}, p.FuncScope k scope none name obj →
    p.object obj = .ok o → o.name ≠ "init" → o.name ≠ "_" → p.Binds top o.name obj
  funcListed : ∀ {scope recv name obj o}, p.FuncScope k scope (some recv) name obj →
    p.object obj = .ok o → o.name ≠ "_" →
    ∃ bound typeName type, p.Binds top bound typeName ∧ p.Names typeName type ∧
      p.HasMethod type obj
  /-- A method with a scope is declared, and it is the method of types that the package names. -/
  methodDeclared : ∀ {type obj scope}, p.HasMethod type obj → p.OwnsScope obj scope →
    ∃ recv name, p.FuncScope k scope recv name obj
  methodNamed : ∀ {typeName type obj scope}, p.Names typeName type → p.HasMethod type obj →
    p.OwnsScope obj scope → ∃ name, p.Binds top name typeName
  /-- Different functions called `init` are declared at different offsets of a file. -/
  initApart : ∀ {file scope scope' name name' a b oa ob r r'}, p.HasChild file scope →
    p.HasChild file scope' → p.FuncScope k scope none name a →
    p.FuncScope k scope' none name' b → p.object a = .ok oa → p.object b = .ok ob →
    oa.name = "init" → ob.name = "init" → p.tree.range name = .ok r →
    p.tree.range name' = .ok r' → r.start = r'.start → a = b

/-! ## Names that are told apart -/

/-- A word is a name, or a name that was told apart from those of siblings. -/
inductive Suffixed (name : String) : String → Prop
  | bare : Suffixed name name
  | told {word : String} (i : Nat) : Suffixed name word →
      Suffixed name (word ++ ("$" ++ toString i))

/-- What a name may be followed by in a word. -/
def IsTail (tail : List Char) : Prop := tail = [] ∨ ∃ rest, tail = '$' :: rest

/-- A word is a name with what makes it unique behind it, in which no slash stands. -/
theorem Suffixed.exists_tail {name word : String} (h : Suffixed name word) :
    ∃ tail, word.toList = name.toList ++ tail ∧ IsTail tail ∧ '/' ∉ tail := by
  induction h with
  | bare => exact ⟨[], (List.append_nil _).symm, .inl rfl, List.not_mem_nil⟩
  | told i _ ih =>
    obtain ⟨tail, hword, htail, hflat⟩ := ih
    refine ⟨tail ++ '$' :: (toString i).toList, by simp [hword], ?_, ?_⟩
    · rcases htail with rfl | ⟨rest, rfl⟩
      · exact .inr ⟨_, rfl⟩
      · exact .inr ⟨_, rfl⟩
    · intro hmem
      rcases List.mem_append.mp hmem with hmem | hmem
      · exact hflat hmem
      · rcases List.mem_cons.mp hmem with heq | hmem
        · exact absurd heq (by decide)
        · exact Word.slash_not_mem_toString i hmem

/-- No slash stands in a word that is made of a name. -/
theorem Suffixed.slash_not_mem {name word : String} (h : Suffixed name word)
    (hname : Word.Plain name) : '/' ∉ word.toList := by
  obtain ⟨tail, hword, -, hflat⟩ := h.exists_tail
  rw [hword]
  exact fun hmem => (List.mem_append.mp hmem).elim hname.2 hflat

/-- A name can be read off a word in one way only. -/
theorem tail_cancel {x y u v : List Char} (hx : '$' ∉ x) (hy : '$' ∉ y) (hu : IsTail u)
    (hv : IsTail v) (h : x ++ u = y ++ v) : x = y := by
  induction x generalizing y with
  | nil =>
    cases y with
    | nil => rfl
    | cons b y =>
      rcases hu with rfl | ⟨rest, rfl⟩
      · cases h
      · obtain rfl : '$' = b := List.head_eq_of_cons_eq h
        exact absurd List.mem_cons_self hy
  | cons a x ih =>
    cases y with
    | nil =>
      rcases hv with rfl | ⟨rest, rfl⟩
      · cases h
      · obtain rfl : a = '$' := List.head_eq_of_cons_eq h
        exact absurd List.mem_cons_self hx
    | cons b y =>
      obtain rfl : a = b := List.head_eq_of_cons_eq h
      rw [ih (fun hm => hx (List.mem_cons_of_mem _ hm)) (fun hm => hy (List.mem_cons_of_mem _ hm))
        (List.tail_eq_of_cons_eq h)]

/-- The name can be read off a word that is made of it. -/
theorem Suffixed.name_eq {name name' word : String} (h : Suffixed name word)
    (h' : Suffixed name' word) (hname : Word.Plain name) (hname' : Word.Plain name') :
    name = name' := by
  obtain ⟨tail, hword, htail, -⟩ := h.exists_tail
  obtain ⟨tail', hword', htail', -⟩ := h'.exists_tail
  exact String.toList_inj.mp (tail_cancel hname.1 hname'.1 htail htail' (hword ▸ hword'))

/-- Numbers are written with digits. -/
theorem isDigit_of_mem_toString {n : Nat} {d : Char} (h : d ∈ (toString n).toList) :
    d.isDigit := by
  rw [Nat.toString_eq_repr, Nat.toList_repr] at h
  exact Nat.isDigit_of_mem_toDigits (by decide) (by decide) h

/-- Two texts that digits follow are read alike only if one of them goes on like the other with
digits. -/
theorem append_digits_cancel {x y : List Char} {m n : Nat}
    (hx : ∀ digits : List Char, (∀ d ∈ digits, d.isDigit) → x ≠ y ++ digits)
    (hy : ∀ digits : List Char, (∀ d ∈ digits, d.isDigit) → y ≠ x ++ digits) :
    x ++ (toString m).toList ≠ y ++ (toString n).toList := by
  intro h
  rcases List.append_eq_append_iff.mp h with ⟨digits, rfl, hdigits⟩ | ⟨digits, rfl, hdigits⟩
  · refine hy digits (fun d hd => ?_) rfl
    exact isDigit_of_mem_toString (hdigits ▸ List.mem_append_left _ hd)
  · refine hx digits (fun d hd => ?_) rfl
    exact isDigit_of_mem_toString (hdigits ▸ List.mem_append_left _ hd)

/-- The first word ends at the first slash. -/
theorem slashed_cons (word : String) (path : DefPath) :
    Word.slashed (word :: path) = word.toList ++ '/' :: Word.slashed path := by
  simp [Word.slashed]

/-- The first word can be read off a path in one way only. -/
theorem slashed_cons_cancel {word word' : String} {path path' : DefPath}
    (hword : '/' ∉ word.toList) (hword' : '/' ∉ word'.toList)
    (h : Word.slashed (word :: path) = Word.slashed (word' :: path')) :
    word = word' ∧ Word.slashed path = Word.slashed path' := by
  rw [slashed_cons, slashed_cons] at h
  obtain ⟨hwords, hpaths⟩ := separator_cancel hword hword' h
  exact ⟨String.toList_inj.mp hwords, hpaths⟩

namespace ManyFiles

variable {p : Program} {k : CheckedPackage} {top file file' : ScopeId} {src : ScopeId → FileId}

/-- The names of files tell them apart. -/
theorem file_eq_of_stem (hk : ManyFiles p k top src) (hfile : p.HasChild top file)
    (hfile' : p.HasChild top file')
    (h : (stem p (src file)).toList = (stem p (src file')).toList) : file = file' := by
  refine Decidable.byContradiction fun hne => ?_
  refine hk.stemsApart hfile hfile' hne [] (fun _ hd => absurd hd List.not_mem_nil) ?_
  rw [List.append_nil, h]

/-- The names of files tell them apart even where numbers follow them. -/
theorem file_eq_of_digits (hk : ManyFiles p k top src) (hfile : p.HasChild top file)
    (hfile' : p.HasChild top file') {m n : Nat}
    (h : (stem p (src file)).toList ++ (toString m).toList =
      (stem p (src file')).toList ++ (toString n).toList) : file = file' := by
  refine Decidable.byContradiction fun hne => ?_
  exact append_digits_cancel (hk.stemsApart hfile' hfile (Ne.symm hne))
    (hk.stemsApart hfile hfile' hne) h

end ManyFiles

/-! ## How paths open -/

/-- A scope is that of a function called `_`. -/
def IsBlank (p : Program) (k : CheckedPackage) (scope : ScopeId) : Prop :=
  ∃ recv ident obj o, p.FuncScope k scope recv ident obj ∧ p.object obj = .ok o ∧ o.name = "_"

/-- The words that the paths of what is in a child of a file's scope open with, and the name that
stands first in them. The file is called `stem` without its extension. -/
inductive Opening (p : Program) (k : CheckedPackage) (top : ScopeId) (stem : String)
    (child : ScopeId) : String → DefPath → Prop
  | func {ident : NodeId} {obj : ObjectId} {o : Object} {word : String} :
      p.FuncScope k child none ident obj → p.object obj = .ok o → p.Binds top o.name obj →
      o.name ≠ "init" → o.name ≠ "_" → Suffixed o.name word →
      Opening p k top stem child o.name [word]
  | method {lead : String} {typeName method : ObjectId} {type : TypeId} {o : Object}
      {word : String} : p.Binds top lead typeName → p.Names typeName type →
      p.HasMethod type method → p.OwnsScope method child → p.object method = .ok o →
      Suffixed o.name word → Opening p k top stem child lead [lead, word]
  | blank {word : String} : IsBlank p k child → Suffixed "_" word →
      Opening p k top stem child "_" [word]
  | init {ident : NodeId} {obj : ObjectId} {o : Object} {r : TextRange} :
      p.FuncScope k child none ident obj → p.object obj = .ok o → o.name = "init" →
      p.tree.range ident = .ok r →
      Opening p k top stem child "init" [(Word.init r.start.toNat).text stem]
  | block (word : String) : Opening p k top stem child "" [Word.file.text stem, word]

namespace Opening

variable {p : Program} {k : CheckedPackage} {top : ScopeId} {src : ScopeId → FileId}
  {file file' child child' : ScopeId} {lead lead' : String} {opening opening' rest rest' : DefPath}

/-- The name that stands first in an opening has neither a dollar sign nor a slash. -/
theorem lead_plain (hk : ManyFiles p k top src) {name : String}
    (h : Opening p k top name child lead opening) : Word.Plain lead := by
  cases h with
  | func _ _ hbinds _ _ _ => exact (hk.plainBinding hbinds).1
  | method hbinds _ _ _ _ _ => exact (hk.plainBinding hbinds).1
  | blank _ _ => exact ⟨by decide, by decide⟩
  | init _ _ _ _ => exact ⟨by decide, by decide⟩
  | block _ => exact ⟨by decide, by decide⟩

/-- The first word of an opening. -/
theorem exists_word (hk : ManyFiles p k top src) {name : String} (hname : '/' ∉ name.toList)
    (h : Opening p k top name child lead opening) :
    ∃ word more tail, opening = word :: more ∧ '/' ∉ word.toList ∧
      word.toList = lead.toList ++ tail ∧ IsTail tail := by
  have hlead := h.lead_plain hk
  cases h with
  | func _ _ _ _ _ hword =>
    obtain ⟨tail, heq, htail, -⟩ := hword.exists_tail
    exact ⟨_, _, tail, rfl, hword.slash_not_mem hlead, heq, htail⟩
  | method _ _ _ _ _ _ =>
    exact ⟨_, _, [], rfl, hlead.2, (List.append_nil _).symm, .inl rfl⟩
  | blank _ hword =>
    obtain ⟨tail, heq, htail, -⟩ := hword.exists_tail
    exact ⟨_, _, tail, rfl, hword.slash_not_mem hlead, heq, htail⟩
  | @init _ _ _ r _ _ _ _ =>
    exact ⟨_, _, '$' :: (Word.init r.start.toNat).tail name, rfl,
      Word.slash_not_mem_text hname trivial, by simp [Word.text, Word.tail], .inr ⟨_, rfl⟩⟩
  | block _ =>
    exact ⟨_, _, '$' :: Word.file.tail name, rfl, Word.slash_not_mem_text hname trivial,
      by simp [Word.text, Word.tail], .inr ⟨_, rfl⟩⟩

/-- Paths that are written alike open with the same word and the same name. -/
theorem cancel (hk : ManyFiles p k top src) {name name' : String} (hname : '/' ∉ name.toList)
    (hname' : '/' ∉ name'.toList) (h : Opening p k top name child lead opening)
    (h' : Opening p k top name' child' lead' opening')
    (heq : Word.slashed (opening ++ rest) = Word.slashed (opening' ++ rest')) :
    lead = lead' ∧ opening.head? = opening'.head? ∧
      Word.slashed (opening.tail ++ rest) = Word.slashed (opening'.tail ++ rest') := by
  obtain ⟨word, more, tail, rfl, hflat, hword, htail⟩ := h.exists_word hk hname
  obtain ⟨word', more', tail', rfl, hflat', hword', htail'⟩ := h'.exists_word hk hname'
  obtain ⟨rfl, hmore⟩ := slashed_cons_cancel hflat hflat' heq
  have hleads := tail_cancel (h.lead_plain hk).1 (h'.lead_plain hk).1 htail htail'
    (hword ▸ hword')
  exact ⟨String.toList_inj.mp hleads, rfl, hmore⟩

/-- A path that opens with the name of a function belongs to the scope of the function. -/
theorem child_eq_of_func (hk : ManyFiles p k top src) {name : String} {ident : NodeId}
    {obj : ObjectId} {o : Object} (hf : p.FuncScope k child none ident obj)
    (hbinds : p.Binds top o.name obj) (hinit : o.name ≠ "init") (hblank : o.name ≠ "_")
    (h : Opening p k top name child' lead opening) (hlead : lead = o.name) : child' = child := by
  cases h with
  | func hf' _ hbinds' _ _ _ =>
    rw [hlead] at hbinds'
    obtain rfl := hk.tree.unique hbinds hbinds'
    exact hf'.owns.eq hf.owns
  | method hbinds' hnames _ _ _ _ =>
    rw [hlead] at hbinds'
    obtain rfl := hk.tree.unique hbinds hbinds'
    exact absurd hf.owns (hnames.not_ownsScope child)
  | blank _ _ => exact absurd hlead.symm hblank
  | init _ _ _ _ => exact absurd hlead.symm hinit
  | block _ => exact absurd hlead.symm (hk.plainBinding hbinds).2

/-- A path that opens with the name of a type and of its method belongs to the scope of the
method. -/
theorem child_eq_of_method (hk : ManyFiles p k top src) {name word : String}
    {typeName method : ObjectId} {type : TypeId} {o : Object} (hbinds : p.Binds top lead typeName)
    (hnames : p.Names typeName type) (hmethod : p.HasMethod type method)
    (hown : p.OwnsScope method child) (ho : p.object method = .ok o) (hword : Suffixed o.name word)
    (h : Opening p k top name child' lead' opening) (hlead : lead' = lead)
    (heq : Word.slashed (word :: rest) = Word.slashed (opening.tail ++ rest')) :
    child' = child := by
  cases h with
  | func hf' _ hbinds' _ _ _ =>
    rw [hlead] at hbinds'
    obtain rfl := hk.tree.unique hbinds hbinds'
    exact absurd hf'.owns (hnames.not_ownsScope child')
  | @method _ _ method' _ o' word' hbinds' hnames' hmethod' hown' ho' hword' =>
    rw [hlead] at hbinds'
    obtain rfl := hk.tree.unique hbinds hbinds'
    obtain rfl := hnames.eq hnames'
    have hplain := hk.plainMethod hmethod.isMethod ho
    have hplain' := hk.plainMethod hmethod'.isMethod ho'
    obtain ⟨rfl, -⟩ := slashed_cons_cancel (hword.slash_not_mem hplain)
      (hword'.slash_not_mem hplain') heq
    have hsame : p.SameName method method' :=
      ⟨o, o', ho, ho', hword.name_eq hword' hplain hplain'⟩
    obtain rfl := hk.methodNames hmethod hmethod' hsame
    exact hown'.eq hown
  | blank _ _ => exact absurd hlead.symm (hk.typeNames hbinds hnames).2
  | init _ _ _ _ => exact absurd hlead.symm (hk.typeNames hbinds hnames).1
  | block _ => exact absurd hlead.symm (hk.plainBinding hbinds).2

/-- A path that opens with `init` and an offset belongs to the scope of the function there. -/
theorem child_eq_of_init (hk : ManyFiles p k top src) (hchild : p.HasChild file child)
    (hchild' : p.HasChild file child') {name : String} {ident : NodeId} {obj : ObjectId}
    {o : Object} {r : TextRange} (hf : p.FuncScope k child none ident obj)
    (ho : p.object obj = .ok o) (hinit : o.name = "init") (hr : p.tree.range ident = .ok r)
    (h : Opening p k top name child' lead opening) (hlead : lead = "init")
    (hword : opening.head? = some ((Word.init r.start.toNat).text name)) : child' = child := by
  cases h with
  | func _ _ _ hne _ _ => exact absurd hlead hne
  | method hbinds hnames _ _ _ _ => exact absurd hlead (hk.typeNames hbinds hnames).1
  | blank _ _ => exact absurd hlead (by decide)
  | init hf' ho' hinit' hr' =>
    have htexts := congrArg String.toList (Option.some.inj hword)
    have hoffsets := Word.toString_injective (by simpa [Word.text] using htexts)
    have hstarts := UInt32.toNat_inj.mp hoffsets
    obtain rfl := hk.initApart hchild' hchild hf' hf ho' ho hinit' hinit hr' hr hstarts
    exact hf'.owns.eq hf.owns
  | block _ => exact absurd hlead (by decide)

/-- Paths that are written alike open alike only in one file, or in the bodies of two functions
called `_`. -/
theorem file_eq_or_blank (hk : ManyFiles p k top src) (hfile : p.HasChild top file)
    (hfile' : p.HasChild top file') (hchild : p.HasChild file child)
    (hchild' : p.HasChild file' child')
    (h : Opening p k top (stem p (src file)) child lead opening)
    (h' : Opening p k top (stem p (src file')) child' lead' opening')
    (heq : Word.slashed (opening ++ rest) = Word.slashed (opening' ++ rest')) :
    file = file' ∨ IsBlank p k child ∧ IsBlank p k child' := by
  obtain ⟨hlead, hword, hrest⟩ := h.cancel hk (hk.stemFlat hfile) (hk.stemFlat hfile') h' heq
  cases h with
  | func hf _ hbinds hinit hblank _ =>
    obtain rfl := child_eq_of_func hk hf hbinds hinit hblank h' hlead.symm
    exact .inl (hk.tree.parent_eq hchild hchild')
  | method hbinds hnames hmethod hown ho hsuffixed =>
    obtain rfl := child_eq_of_method hk hbinds hnames hmethod hown ho hsuffixed h' hlead.symm hrest
    exact .inl (hk.tree.parent_eq hchild hchild')
  | blank hblank _ =>
    cases h' with
    | func _ _ _ _ hne _ => exact absurd hlead.symm hne
    | method hbinds hnames _ _ _ _ => exact absurd hlead.symm (hk.typeNames hbinds hnames).2
    | blank hblank' _ => exact .inr ⟨hblank, hblank'⟩
    | init _ _ _ _ => exact absurd hlead (by decide)
    | block _ => exact absurd hlead (by decide)
  | init _ _ _ _ =>
    cases h' with
    | func _ _ _ hne _ _ => exact absurd hlead.symm hne
    | method hbinds hnames _ _ _ _ => exact absurd hlead.symm (hk.typeNames hbinds hnames).1
    | blank _ _ => exact absurd hlead (by decide)
    | init _ _ _ _ =>
      have htexts := congrArg String.toList (Option.some.inj hword)
      exact .inl (hk.file_eq_of_digits hfile hfile' (by simpa [Word.text] using htexts))
    | block _ => exact absurd hlead (by decide)
  | block _ =>
    cases h' with
    | func _ _ hbinds _ _ _ => exact absurd hlead.symm (hk.plainBinding hbinds).2
    | method hbinds _ _ _ _ _ => exact absurd hlead.symm (hk.plainBinding hbinds).2
    | blank _ _ => exact absurd hlead (by decide)
    | init _ _ _ _ => exact absurd hlead (by decide)
    | block _ =>
      have htexts := congrArg String.toList (Option.some.inj hword)
      exact .inl (hk.file_eq_of_stem hfile hfile' (by simpa [Word.text] using htexts))

end Opening

/-! ## Two packages of two files -/

/-- What the function in the first of two files is. The one in the second file is called `_`. -/
inductive TwoFiles where
  /-- A method `m` of the type `T`. -/
  | method
  /-- A function that is also called `_`. -/
  | blank
  deriving DecidableEq, Repr

namespace TwoFiles

/-- The name of the first function. -/
def funcName : TwoFiles → String
  | .method => "m"
  | .blank => "_"

/-- The list of receivers of the first function. -/
def recv : TwoFiles → Option NodeId
  | .method => some ⟨6⟩
  | .blank => none

/-- The lists of receivers of both functions, by their numbers. -/
def recvs (l : TwoFiles) : Fin 2 → Option NodeId
  | 0 => l.recv
  | 1 => none

/-- The methods of the type `T`. -/
def methods : TwoFiles → List ObjectId
  | .method => [⟨0⟩]
  | .blank => []

/-- The program that consists of the package: each of the two functions has a variable `x`. -/
def program (l : TwoFiles) : Program where
  sources := ⟨#[⟨"a.go", ""⟩, ⟨"b.go", ""⟩]⟩
  tree := ⟨#[⟨.ident l.funcName, ⟨0⟩, .upTo 1, some ⟨3⟩⟩,
    ⟨.fieldList [], ⟨0⟩, .upTo 1, some ⟨2⟩⟩, ⟨.funcType ⟨1⟩ none, ⟨0⟩, .upTo 1, some ⟨3⟩⟩,
    ⟨.funcDecl l.recv ⟨0⟩ ⟨2⟩ none none, ⟨0⟩, .upTo 1, some ⟨8⟩⟩,
    ⟨.ident "T", ⟨0⟩, .upTo 1, some ⟨5⟩⟩, ⟨.field [] ⟨4⟩ none none, ⟨0⟩, .upTo 1, some ⟨6⟩⟩,
    ⟨.fieldList [⟨5⟩], ⟨0⟩, .upTo 1, some ⟨3⟩⟩, ⟨.ident "p", ⟨0⟩, .upTo 1, some ⟨8⟩⟩,
    ⟨.file ⟨7⟩ [⟨3⟩] none [], ⟨0⟩, .upTo 1, none⟩,
    ⟨.ident "_", ⟨1⟩, .upTo 1, some ⟨12⟩⟩, ⟨.fieldList [], ⟨1⟩, .upTo 1, some ⟨11⟩⟩,
    ⟨.funcType ⟨10⟩ none, ⟨1⟩, .upTo 1, some ⟨12⟩⟩,
    ⟨.funcDecl none ⟨9⟩ ⟨11⟩ none none, ⟨1⟩, .upTo 1, some ⟨14⟩⟩,
    ⟨.ident "p", ⟨1⟩, .upTo 1, some ⟨14⟩⟩, ⟨.file ⟨13⟩ [⟨12⟩] none [], ⟨1⟩, .upTo 1, none⟩]⟩
  objects := #[⟨l.funcName, .func (some ⟨3⟩), some ⟨0⟩, none, none, none⟩,
    ⟨"x", .var, some ⟨0⟩, some ⟨3⟩, none, none⟩,
    ⟨"_", .func (some ⟨4⟩), some ⟨0⟩, none, none, none⟩,
    ⟨"x", .var, some ⟨0⟩, some ⟨4⟩, none, none⟩,
    ⟨"T", .typeName, some ⟨0⟩, some ⟨0⟩, none, some ⟨0⟩⟩]
  types := #[.named ⟨4⟩ (some ⟨1⟩) l.methods, .struct []]
  scopes := #[⟨none, [⟨1⟩, ⟨2⟩], [("T", ⟨4⟩)]⟩, ⟨some ⟨0⟩, [⟨3⟩], []⟩, ⟨some ⟨0⟩, [⟨4⟩], []⟩,
    ⟨some ⟨1⟩, [], [("x", ⟨1⟩)]⟩, ⟨some ⟨2⟩, [], [("x", ⟨3⟩)]⟩]
  packages := #[⟨"p", "p", ⟨0⟩⟩]

/-- The package as it was checked. -/
def package : CheckedPackage where
  pkg := ⟨0⟩
  files := [⟨8⟩, ⟨14⟩]
  facts := { Facts.empty with
    defs := ⟨[(⟨0⟩, ⟨0⟩), (⟨9⟩, ⟨2⟩)]⟩
    scopes := ⟨[(⟨2⟩, ⟨3⟩), (⟨8⟩, ⟨1⟩), (⟨11⟩, ⟨4⟩), (⟨14⟩, ⟨2⟩)]⟩ }

/-- The files that the scopes below that of the package are of. -/
def src (scope : ScopeId) : FileId := if scope = ⟨1⟩ then ⟨0⟩ else ⟨1⟩

variable (l : TwoFiles)

/-- Which scopes of the sample are children of which. -/
theorem eq_of_hasChild {scope child : ScopeId} (h : l.program.HasChild scope child) :
    scope = ⟨0⟩ ∧ (child = ⟨1⟩ ∨ child = ⟨2⟩) ∨ scope = ⟨1⟩ ∧ child = ⟨3⟩ ∨
      scope = ⟨2⟩ ∧ child = ⟨4⟩ := by
  have hall : ∀ x ∈ l.program.childList, x.1 = ⟨0⟩ ∧ (x.2 = ⟨1⟩ ∨ x.2 = ⟨2⟩) ∨
      x.1 = ⟨1⟩ ∧ x.2 = ⟨3⟩ ∨ x.1 = ⟨2⟩ ∧ x.2 = ⟨4⟩ := by
    cases l <;> decide
  exact hall _ h.mem_childList

/-- The scope of the package has those of the files for children. -/
theorem eq_of_hasChild_top {child : ScopeId} (h : l.program.HasChild ⟨0⟩ child) :
    child = ⟨1⟩ ∨ child = ⟨2⟩ := by
  rcases l.eq_of_hasChild h with ⟨-, hchild⟩ | ⟨heq, -⟩ | ⟨heq, -⟩
  · exact hchild
  · cases heq
  · cases heq

/-- Below a file's scope there is only the scope of its function. -/
theorem eq_of_below {file scope : ScopeId} (hfile : file = ⟨1⟩ ∨ file = ⟨2⟩)
    (h : l.program.Below file scope) (hne : scope ≠ file) :
    ∃ i : Fin 2, file = ⟨i + 1⟩ ∧ scope = ⟨i + 3⟩ := by
  have hleaf : ∀ {a b}, l.program.Below a b → a = ⟨3⟩ ∨ a = ⟨4⟩ → b = a := by
    intro a b hbelow ha
    rcases hbelow.eq_or_child with heq | ⟨child, hchild, -⟩
    · exact heq
    · rcases l.eq_of_hasChild hchild with ⟨rfl, -⟩ | ⟨rfl, -⟩ | ⟨rfl, -⟩ <;>
        rcases ha with heq | heq <;> cases heq
  rcases h.eq_or_child with heq | ⟨child, hchild, hbelow⟩
  · exact absurd heq hne
  · rcases l.eq_of_hasChild hchild with ⟨rfl, -⟩ | ⟨rfl, rfl⟩ | ⟨rfl, rfl⟩
    · rcases hfile with heq | heq <;> cases heq
    · exact ⟨0, rfl, hleaf hbelow (.inl rfl)⟩
    · exact ⟨1, rfl, hleaf hbelow (.inr rfl)⟩

/-- The struct of the sample has no fields. -/
theorem not_isField (obj : ObjectId) : ¬ l.program.IsField obj := by
  intro h
  have hnone : l.program.fieldList = [] := by cases l <;> rfl
  have hmem := h.mem_fieldList
  rw [hnone] at hmem
  cases hmem

/-- There is one method at most, and it is that of the type `T`. -/
theorem eq_of_hasMethod {type : TypeId} {obj : ObjectId} (h : l.program.HasMethod type obj) :
    l = .method ∧ type = ⟨0⟩ ∧ obj = ⟨0⟩ := by
  obtain ⟨methods, hmethods, hmem⟩ := h
  rcases type with ⟨_ | _ | i⟩
  · cases l
    · cases hmethods
      exact ⟨rfl, rfl, List.mem_singleton.mp hmem⟩
    · cases hmethods
      cases hmem
  · cases l <;> (cases hmethods; cases hmem)
  · cases l <;> cases hmethods

/-- The only method is the first function, if it is one. -/
theorem eq_of_isMethod {obj : ObjectId} (h : l.program.IsMethod obj) :
    l = .method ∧ obj = ⟨0⟩ := by
  obtain ⟨type, h⟩ := h
  obtain ⟨hl, -, hobj⟩ := l.eq_of_hasMethod h
  exact ⟨hl, hobj⟩

/-- The only type name is `T`. -/
theorem eq_of_names {obj : ObjectId} {type : TypeId} (h : l.program.Names obj type) :
    obj = ⟨4⟩ ∧ type = ⟨0⟩ := by
  obtain ⟨o, ho, hkind, htype⟩ := h
  have hall : ∀ x ∈ l.program.objectList, x.2.kind = .typeName →
      x.1 = ⟨4⟩ ∧ x.2.type = some ⟨0⟩ := by
    cases l <;> decide
  obtain ⟨hobj, htype'⟩ := hall _ (Program.mem_objectList ho) hkind
  rw [htype] at htype'
  exact ⟨hobj, Option.some.inj htype'⟩

/-- The type name `T` stands for its type. -/
theorem names : l.program.Names ⟨4⟩ ⟨0⟩ := by
  cases l <;> exact ⟨_, rfl, rfl, rfl⟩

/-- The object of the function of number `i`, and its scope. -/
theorem eq_of_ownsScope {obj : ObjectId} {scope : ScopeId} (h : l.program.OwnsScope obj scope) :
    ∃ i : Fin 2, obj = ⟨2 * i⟩ ∧ scope = ⟨i + 3⟩ := by
  obtain ⟨o, ho, hkind⟩ := h
  have hall : ∀ x ∈ l.program.objectList, ∀ scope, x.2.kind = .func (some scope) →
      ∃ i : Fin 2, x.1 = ⟨2 * i⟩ ∧ scope = ⟨i + 3⟩ := by
    cases l <;> simp [Program.objectList, program]
  exact hall _ (Program.mem_objectList ho) scope hkind

/-- The two functions are declared by names and types that stand nine nodes apart. -/
theorem declaresFunc (i : Fin 2) : l.program.DeclaresFunc ⟨9 * i + 2⟩ (l.recvs i) ⟨9 * i⟩ := by
  match i with
  | 0 | 1 => exact ⟨_, _, _, _, _, _, _, rfl, rfl, rfl, rfl⟩

/-- The function of number `i` has its scope. -/
theorem funcScope (i : Fin 2) :
    l.program.FuncScope package ⟨i + 3⟩ (l.recvs i) ⟨9 * i⟩ ⟨2 * i⟩ where
  declared := ⟨⟨9 * i + 2⟩, by decide +revert, l.declaresFunc i⟩
  defines := by decide +revert
  owns := by
    match i with
    | 0 | 1 => cases l <;> exact ⟨_, rfl, rfl⟩

/-- What a scope is introduced by declares a function only where it is one of the two. -/
theorem eq_of_declaresFunc {type : NodeId} {scope : ScopeId} {recv : Option NodeId}
    {name : NodeId} (hmem : (type, scope) ∈ package.facts.scopes.entries)
    (h : l.program.DeclaresFunc type recv name) :
    ∃ i : Fin 2, scope = ⟨i + 3⟩ ∧ recv = l.recvs i ∧ name = ⟨9 * i⟩ := by
  have hfile : ∀ {n : Node}, l.program.tree.node type = .ok n → n.kind.isFile = false := by
    obtain ⟨n, _, _, _, _, _, _, hn, hkind, -⟩ := h
    intro n' hn'
    rw [hn] at hn'
    cases hn'
    rw [hkind]
    rfl
  simp only [package, List.mem_cons, Prod.mk.injEq, List.not_mem_nil, or_false] at hmem
  rcases hmem with ⟨rfl, rfl⟩ | ⟨rfl, rfl⟩ | ⟨rfl, rfl⟩ | ⟨rfl, rfl⟩
  · obtain ⟨rfl, rfl⟩ := h.eq (l.declaresFunc 0)
    exact ⟨0, rfl, rfl, rfl⟩
  · cases hfile rfl
  · obtain ⟨rfl, rfl⟩ := h.eq (l.declaresFunc 1)
    exact ⟨1, rfl, rfl, rfl⟩
  · cases hfile rfl

/-- There are no functions with scopes but the two. -/
theorem eq_of_funcScope {scope : ScopeId} {recv : Option NodeId} {name : NodeId} {obj : ObjectId}
    (h : l.program.FuncScope package scope recv name obj) :
    ∃ i : Fin 2, scope = ⟨i + 3⟩ ∧ recv = l.recvs i ∧ name = ⟨9 * i⟩ ∧ obj = ⟨2 * i⟩ := by
  obtain ⟨type, hmem, hdecl⟩ := h.declared
  obtain ⟨i, rfl, rfl, rfl⟩ := l.eq_of_declaresFunc hmem hdecl
  exact ⟨i, rfl, rfl, rfl, Option.some.inj (h.defines.symm.trans (l.funcScope i).defines)⟩

/-- Of the functions at most the second one is a function of the package, and it is called `_`. -/
theorem name_eq_blank_of_funcScope {scope : ScopeId} {name : NodeId} {obj : ObjectId} {o : Object}
    (h : l.program.FuncScope package scope none name obj) (ho : l.program.object obj = .ok o) :
    o.name = "_" := by
  have hall : ∀ (i : Fin 2) {o}, l.recvs i = none → l.program.object ⟨2 * i⟩ = .ok o →
      o.name = "_" := by
    refine Fin.forall_fin_two.mpr ⟨fun hrecv ho => ?_, fun _ ho => ?_⟩
    · cases l with
      | method => cases hrecv
      | blank => cases ho; rfl
    · cases l <;> (cases ho; rfl)
  obtain ⟨i, -, hrecv, -, rfl⟩ := l.eq_of_funcScope h
  exact hall i hrecv.symm ho

/-- The scopes of the sample are a tree. -/
theorem scopeTree : l.program.ScopeTree :=
  Program.scopeTree_of_lists (by cases l <;> decide) (by cases l <;> decide)
    (by cases l <;> decide) (by cases l <;> decide)

/-- The scope of the second function is in the second file. -/
theorem hasChild_second : l.program.HasChild ⟨2⟩ ⟨4⟩ := by
  cases l <;> exact ⟨_, rfl, List.mem_singleton_self _⟩

/-- In both files scopes have the origins that the language gives them. -/
theorem fileScopes {file : ScopeId} (hfile : file = ⟨1⟩ ∨ file = ⟨2⟩) :
    FileScopes l.program package file (src file) where
  tree := l.scopeTree
  fileScope := by
    rcases hfile with rfl | rfl
    · exact ⟨⟨8⟩, _, fun node => by simp [package], rfl, rfl, rfl⟩
    · exact ⟨⟨14⟩, _, fun node => by simp [package], rfl, rfl, rfl⟩
  introduced := fun hbelow hne => by
    obtain ⟨i, rfl, rfl⟩ := l.eq_of_below hfile hbelow hne
    match i with
    | 0 => exact ⟨⟨2⟩, _, fun other => by simp [package], rfl, rfl, rfl⟩
    | 1 => exact ⟨⟨11⟩, _, fun other => by simp [package], rfl, rfl, rfl⟩
  funcDeclared := fun _ hown => by
    obtain ⟨i, rfl, rfl⟩ := l.eq_of_ownsScope hown
    exact ⟨_, _, l.funcScope i⟩
  funcOwned := fun hmem hdecl => by
    obtain ⟨i, rfl, rfl, rfl⟩ := l.eq_of_declaresFunc hmem hdecl
    exact ⟨_, l.funcScope i⟩
  funcUnique := fun ha hb => by
    obtain ⟨i, rfl, -, -, rfl⟩ := l.eq_of_funcScope ha
    obtain ⟨j, hscope, -, -, rfl⟩ := l.eq_of_funcScope hb
    injection hscope with hscope
    exact congrArg (fun n => ObjectId.mk (2 * n)) (Nat.add_right_cancel hscope)
  funcName := fun hmem hown hbelow ho => by
    have hne : ∀ i : Fin 2, (⟨i + 3⟩ : ScopeId) ≠ ⟨1⟩ ∧ (⟨i + 3⟩ : ScopeId) ≠ ⟨2⟩ := by decide
    have hdefs : ∀ x ∈ package.facts.defs.entries, ∀ i : Fin 2, x.2 = ⟨2 * i⟩ →
        x.1 = ⟨9 * i⟩ := by decide
    obtain ⟨i, rfl, rfl⟩ := l.eq_of_ownsScope hown
    obtain rfl := hdefs _ hmem i rfl
    have hall : ∀ (i : Fin 2) {o}, l.program.object ⟨2 * i⟩ = .ok o →
        ∃ n, l.program.tree.node ⟨9 * i⟩ = .ok n ∧ n.file = src ⟨i + 1⟩ ∧
          n.kind = .ident o.name := by
      refine Fin.forall_fin_two.mpr ⟨fun ho => ?_, fun ho => ?_⟩ <;>
        (cases l <;> (cases ho; exact ⟨_, rfl, rfl, rfl⟩))
    obtain ⟨j, rfl, hscope⟩ :=
      l.eq_of_below hfile hbelow (hfile.elim (· ▸ (hne i).1) (· ▸ (hne i).2))
    injection hscope with hscope
    rw [← Nat.add_right_cancel hscope]
    exact hall i ho

/-- Both samples are packages as the language has them. -/
theorem manyFiles : ManyFiles l.program package ⟨0⟩ src where
  tree := l.scopeTree
  members := {
    fieldKind := fun h => absurd h (l.not_isField _)
    methodKind := fun h ho => by
      obtain ⟨rfl, rfl⟩ := l.eq_of_isMethod h
      cases ho
      exact ⟨_, rfl⟩
    fieldUnbound := fun h => absurd h (l.not_isField _)
    methodUnbound := fun h hb => by
      obtain ⟨rfl, rfl⟩ := l.eq_of_isMethod h
      have hall : ∀ x ∈ TwoFiles.method.program.bindingList, x.2.2 ≠ ⟨0⟩ := by decide
      exact hall _ hb.mem_bindingList rfl }
  owner := ⟨_, rfl, rfl⟩
  files := fun hfile => l.fileScopes (l.eq_of_hasChild_top hfile)
  stemsApart := fun hfile hfile' hne digits _ heq => by
    have hstems : (stem l.program ⟨0⟩).toList = ['a'] ∧ (stem l.program ⟨1⟩).toList = ['b'] := by
      cases l <;> decide
    rcases l.eq_of_hasChild_top hfile with rfl | rfl <;>
      rcases l.eq_of_hasChild_top hfile' with rfl | rfl
    · exact hne rfl
    · cases hstems.2.symm.trans (heq.trans (congrArg (· ++ digits) hstems.1))
    · cases hstems.1.symm.trans (heq.trans (congrArg (· ++ digits) hstems.2))
    · exact hne rfl
  stemFlat := fun hfile => by
    rcases l.eq_of_hasChild_top hfile with rfl | rfl <;> cases l <;> decide
  boundOnce := fun ha hb => by
    have hall : ∀ x ∈ l.program.bindingList, ∀ y ∈ l.program.bindingList,
        x.2.2 = y.2.2 → x.1 = y.1 := by cases l <;> decide
    exact hall _ ha.mem_bindingList _ hb.mem_bindingList rfl
  plainBinding := fun h => by
    have hall : ∀ x ∈ l.program.bindingList,
        ('$' ∉ x.2.1.toList ∧ '/' ∉ x.2.1.toList) ∧ x.2.1 ≠ "" := by cases l <;> decide
    exact hall _ h.mem_bindingList
  plainMethod := fun _ ho => by
    have hall : ∀ x ∈ l.program.objectList, '$' ∉ x.2.name.toList ∧ '/' ∉ x.2.name.toList := by
      cases l <;> decide
    exact hall _ (Program.mem_objectList ho)
  methodNames := fun ha hb _ =>
    (l.eq_of_hasMethod ha).2.2.trans (l.eq_of_hasMethod hb).2.2.symm
  typeNames := fun hb _ => by
    have hall : ∀ x ∈ l.program.bindingList, x.2.1 ≠ "init" ∧ x.2.1 ≠ "_" := by
      cases l <;> decide
    exact hall _ hb.mem_bindingList
  funcNested := fun h => by
    have hall : ∀ i : Fin 2, l.program.HasChild ⟨0⟩ ⟨i + 1⟩ ∧
        l.program.HasChild ⟨i + 1⟩ ⟨i + 3⟩ := by
      refine Fin.forall_fin_two.mpr ⟨⟨?_, ?_⟩, ?_, ?_⟩ <;>
        exact ⟨_, rfl, by cases l <;> decide⟩
    obtain ⟨i, rfl, -⟩ := l.eq_of_funcScope h
    exact ⟨_, (hall i).1, (hall i).2⟩
  funcBound := fun h ho _ hblank => absurd (l.name_eq_blank_of_funcScope h ho) hblank
  funcListed := fun h _ _ => by
    have hall : ∀ (i : Fin 2) {recv}, some recv = l.recvs i → l = .method ∧ i = 0 := by
      refine Fin.forall_fin_two.mpr ⟨fun hrecv => ?_, fun hrecv => ?_⟩
      · cases l with
        | method => exact ⟨rfl, rfl⟩
        | blank => cases hrecv
      · cases hrecv
    obtain ⟨i, -, hrecv, -, rfl⟩ := l.eq_of_funcScope h
    obtain ⟨rfl, rfl⟩ := hall i hrecv
    exact ⟨"T", ⟨4⟩, ⟨0⟩, ⟨_, rfl, by decide⟩, TwoFiles.method.names, _, rfl,
      List.mem_singleton_self _⟩
  methodDeclared := fun _ hown => by
    obtain ⟨i, rfl, rfl⟩ := l.eq_of_ownsScope hown
    exact ⟨_, _, l.funcScope i⟩
  methodNamed := fun hnames _ _ => by
    obtain ⟨rfl, -⟩ := l.eq_of_names hnames
    exact ⟨"T", _, rfl, by cases l <;> decide⟩
  initApart := fun _ _ hf _ ho _ hinit => by
    have hblank := l.name_eq_blank_of_funcScope hf ho
    rw [hinit] at hblank
    exact absurd hblank (by decide)

end TwoFiles

end SymbolGraph
