import SymbolGraph.Proofs.Program.WellFormed
import SymbolGraph.Proofs.Text.Lexemes

/-!
# Types as they are written

The syntax of Go's types (`TypeSyntax`), in which named types are leaves, with the string that Go
gives to a type (`TypeSyntax.string`), the same without parentheses around elements of channels
(`TypeSyntax.bareString`), and what a type of a program looks like when it is written
(`Program.Denotes`). A type is written in one way at most (`Denotes.unique`), and in some way,
with identifiers as its names, if following its parts comes to an end and all of them have what
they must have (`Spellable`, `Spellable.isWritten`). In a closed program without circles this is
only about what they must have (`Grounded.spellable`).
-/

namespace SymbolGraph

/-- The kinds of pieces that written types are made of. -/
inductive Piece where
  | type
  /-- The fields of a struct type. -/
  | fields
  /-- The methods and embedded types of an interface type. -/
  | elements
  /-- Parameters or results. -/
  | params

/-- A piece of a type as it is written. Types with a name, the predeclared ones among them, are
their path and name; an embedded field is its type. -/
inductive TypeSyntax : Piece → Type where
  | named (path : Option String) (name : String) : TypeSyntax .type
  | pointer (elem : TypeSyntax .type) : TypeSyntax .type
  | slice (elem : TypeSyntax .type) : TypeSyntax .type
  | array (len : Nat) (elem : TypeSyntax .type) : TypeSyntax .type
  | map (key value : TypeSyntax .type) : TypeSyntax .type
  | chan (dir : ChanDir) (elem : TypeSyntax .type) : TypeSyntax .type
  | struct (fields : TypeSyntax .fields) : TypeSyntax .type
  | interface (elements : TypeSyntax .elements) : TypeSyntax .type
  | func (params results : TypeSyntax .params) : TypeSyntax .type
  | noFields : TypeSyntax .fields
  | field (name : String) (type : TypeSyntax .type) (rest : TypeSyntax .fields) : TypeSyntax .fields
  | embedding (type : TypeSyntax .type) (rest : TypeSyntax .fields) : TypeSyntax .fields
  | noElements : TypeSyntax .elements
  | method (name : String) (params results : TypeSyntax .params) (rest : TypeSyntax .elements) :
      TypeSyntax .elements
  | element (type : TypeSyntax .type) (rest : TypeSyntax .elements) : TypeSyntax .elements
  | noParams : TypeSyntax .params
  | param (name : Option String) (type : TypeSyntax .type) (rest : TypeSyntax .params) :
      TypeSyntax .params
  /-- A last parameter that stands for any number of values. -/
  | spread (name : Option String) (elem : TypeSyntax .type) : TypeSyntax .params
  deriving DecidableEq

namespace TypeSyntax

variable {k : Piece}

/-! ## The string of a type -/

/-- The word that channel types begin with. -/
def chanWord : List Char := "chan".toList

/-- The word that map types begin with. -/
def mapWord : List Char := "map".toList

/-- The word that struct types begin with. -/
def structWord : List Char := "struct".toList

/-- The word that interface types begin with. -/
def interfaceWord : List Char := "interface".toList

/-- The word that function types begin with. -/
def funcWord : List Char := "func".toList

/-- Whether a type is a channel that can only be received from. -/
def isReceiver : TypeSyntax .type → Bool
  | .chan .recv _ => true
  | _ => false

/-- Whether a piece is a list without anything in it. -/
def isEmpty : TypeSyntax k → Bool
  | .noFields | .noElements | .noParams => true
  | _ => false

/-- What stands in front of the rest of a list, if there is any. -/
def separator (sep : List Char) (rest : TypeSyntax k) : List Char :=
  if rest.isEmpty then [] else sep

/-- The name of a parameter and a blank. -/
def label : Option String → List Char
  | some name => name.toList ++ [' ']
  | none => []

/-- Results behind the parameters, given their text: nothing, or a type that has no name, or a list
in parentheses. -/
def resultsText (results : TypeSyntax .params) (text : List Char) : List Char :=
  match results with
  | .noParams => []
  | .param none _ .noParams => ' ' :: text
  | _ => ' ' :: '(' :: text ++ [')']

/-- The text of a type with a name: its path, a dot and the name, or the name alone. -/
def namedText : (path : Option String) → (name : String) → List Char
  | some path, name => path.toList ++ '.' :: name.toList
  | none, name => name.toList

/-- The text of a channel type, given that of its element, which may be in parentheses if values go
both ways. -/
def chanText (dir : ChanDir) (parens : Bool) (text : List Char) : List Char :=
  match dir with
  | .both => chanWord ++ ' ' :: if parens then '(' :: text ++ [')'] else text
  | .send => chanWord ++ '<' :: '-' :: ' ' :: text
  | .recv => '<' :: '-' :: chanWord ++ ' ' :: text

/-- The text of a type, given which elements of bidirectional channels are in parentheses. -/
def textWith (inParens : TypeSyntax .type → Bool) : {k : Piece} → TypeSyntax k → List Char
  | _, .named path name => namedText path name
  | _, .pointer elem => '*' :: elem.textWith inParens
  | _, .slice elem => '[' :: ']' :: elem.textWith inParens
  | _, .array len elem => '[' :: (toString len).toList ++ ']' :: elem.textWith inParens
  | _, .map key value => mapWord ++ '[' :: key.textWith inParens ++ ']' :: value.textWith inParens
  | _, .chan dir elem => chanText dir (inParens elem) (elem.textWith inParens)
  | _, .struct fields => structWord ++ '\x7b' :: fields.textWith inParens ++ ['\x7d']
  | _, .interface elements => interfaceWord ++ '\x7b' :: elements.textWith inParens ++ ['\x7d']
  | _, .func params results =>
    funcWord ++ '(' :: params.textWith inParens ++ ')' ::
      resultsText results (results.textWith inParens)
  | _, .noFields | _, .noElements | _, .noParams => []
  | _, .field name type rest =>
    name.toList ++ ' ' :: type.textWith inParens ++ rest.separator [';', ' ']
      ++ rest.textWith inParens
  | _, .embedding type rest =>
    type.textWith inParens ++ rest.separator [';', ' '] ++ rest.textWith inParens
  | _, .method name params results rest =>
    name.toList ++ '(' :: params.textWith inParens ++ ')' ::
      resultsText results (results.textWith inParens) ++ rest.separator [';', ' ']
      ++ rest.textWith inParens
  | _, .element type rest =>
    type.textWith inParens ++ rest.separator [';', ' '] ++ rest.textWith inParens
  | _, .param name type rest =>
    label name ++ type.textWith inParens ++ rest.separator [',', ' '] ++ rest.textWith inParens
  | _, .spread name elem => label name ++ '.' :: '.' :: '.' :: elem.textWith inParens

/-- The text of a type in Go. In a bidirectional channel an element that can only be received from
is put in parentheses. -/
def text (a : TypeSyntax k) : List Char := a.textWith isReceiver

/-- The text of a type without any parentheses around elements of channels. -/
def bareText (a : TypeSyntax k) : List Char := a.textWith fun _ => false

/-- The string of a type in Go. -/
def string (a : TypeSyntax .type) : String := String.ofList a.text

/-- The string of a type without any parentheses around elements of channels. -/
def bareString (a : TypeSyntax .type) : String := String.ofList a.bareText

/-! ## Conditions on the parts of a type -/

/-- All names, package paths and channels in a piece are as wanted. -/
def All (ofName ofPath : String → Prop) (ofChan : ChanDir → TypeSyntax .type → Prop) :
    {k : Piece} → TypeSyntax k → Prop
  | _, .named path name => (∀ x ∈ path, ofPath x) ∧ ofName name
  | _, .pointer elem | _, .slice elem | _, .array _ elem => elem.All ofName ofPath ofChan
  | _, .map key value => key.All ofName ofPath ofChan ∧ value.All ofName ofPath ofChan
  | _, .chan dir elem => ofChan dir elem ∧ elem.All ofName ofPath ofChan
  | _, .struct fields => fields.All ofName ofPath ofChan
  | _, .interface elements => elements.All ofName ofPath ofChan
  | _, .func params results =>
    params.All ofName ofPath ofChan ∧ results.All ofName ofPath ofChan
  | _, .noFields | _, .noElements | _, .noParams => True
  | _, .field name type rest =>
    ofName name ∧ type.All ofName ofPath ofChan ∧ rest.All ofName ofPath ofChan
  | _, .embedding type rest => type.All ofName ofPath ofChan ∧ rest.All ofName ofPath ofChan
  | _, .method name params results rest =>
    ofName name ∧ params.All ofName ofPath ofChan ∧ results.All ofName ofPath ofChan ∧
      rest.All ofName ofPath ofChan
  | _, .element type rest => type.All ofName ofPath ofChan ∧ rest.All ofName ofPath ofChan
  | _, .param name type rest =>
    (∀ x ∈ name, ofName x) ∧ type.All ofName ofPath ofChan ∧ rest.All ofName ofPath ofChan
  | _, .spread name elem => (∀ x ∈ name, ofName x) ∧ elem.All ofName ofPath ofChan

/-- All names in a piece are identifiers. -/
def HasNames (a : TypeSyntax k) : Prop :=
  a.All Go.IsIdentifier (fun _ => True) fun _ _ => True

/-- All package paths in a piece look like import paths. -/
def HasPaths (a : TypeSyntax k) : Prop :=
  a.All (fun _ => True) Go.IsImportPath fun _ _ => True

/-- No bidirectional channel in a piece has an element that is a channel which can only be received
from. -/
def IsPlain (a : TypeSyntax k) : Prop :=
  a.All (fun _ => True) (fun _ => True) fun dir elem => dir = .both → elem.isReceiver = false

end TypeSyntax

/-! ## What the types of a program are -/

/-- The numbers that a piece of a type is made of in a program: a type; fields; methods and embedded
types; parameters, and whether the last one stands for any number of values. -/
@[reducible] def Piece.Ids : Piece → Type
  | .type => TypeId
  | .fields => List ObjectId
  | .elements => List ObjectId × List TypeId
  | .params => List ObjectId × Bool

/-- The name of a parameter; it may have none. -/
def Object.label (o : Object) : Option String := if o.name.isEmpty then none else some o.name

namespace Program

variable {p : Program}

/-- The path of the package that an object belongs to, if it belongs to any. -/
def IsPath (p : Program) (o : Object) (path : Option String) : Prop :=
  o.pkg = none ∧ path = none ∨
    ∃ pkg owner, o.pkg = some pkg ∧ p.package pkg = .ok owner ∧ path = some owner.path

/-- A piece of a type in a program is as written. -/
def Denotes (p : Program) : {k : Piece} → TypeSyntax k → k.Ids → Prop
  | _, .named path name, id => path = none ∧ p.type id = .ok (.basic name) ∨
    ∃ obj under methods o, p.type id = .ok (.named obj under methods) ∧ p.object obj = .ok o ∧
      p.IsPath o path ∧ o.name = name
  | _, .pointer elem, id => ∃ e, p.type id = .ok (.pointer e) ∧ p.Denotes elem e
  | _, .slice elem, id => ∃ e, p.type id = .ok (.slice e) ∧ p.Denotes elem e
  | _, .array len elem, id => ∃ e, p.type id = .ok (.array len e) ∧ p.Denotes elem e
  | _, .map key value, id => ∃ k v,
    p.type id = .ok (.map k v) ∧ p.Denotes key k ∧ p.Denotes value v
  | _, .chan dir elem, id => ∃ e, p.type id = .ok (.chan dir e) ∧ p.Denotes elem e
  | _, .struct fields, id => ∃ fs, p.type id = .ok (.struct fs) ∧ p.Denotes fields fs
  | _, .interface elements, id => ∃ ms es,
    p.type id = .ok (.interface ms es) ∧ p.Denotes elements (ms, es)
  | _, .func params results, id => ∃ recv ps rs variadic,
    p.type id = .ok (.signature recv ps rs variadic) ∧ p.Denotes params (ps, variadic) ∧
      p.Denotes results (rs, false)
  | _, .noFields, ids => ids = []
  | _, .field name type rest, ids => ∃ obj o t more,
    ids = obj :: more ∧ p.object obj = .ok o ∧ o.kind ≠ .field true ∧ o.name = name ∧
      o.type = some t ∧ p.Denotes type t ∧ p.Denotes rest more
  | _, .embedding type rest, ids => ∃ obj o t more,
    ids = obj :: more ∧ p.object obj = .ok o ∧ o.kind = .field true ∧ o.type = some t ∧
      p.Denotes type t ∧ p.Denotes rest more
  | _, .noElements, ids => ids = ([], [])
  | _, .method name params results rest, ids => ∃ obj o t recv ps rs variadic more embedded,
    ids = (obj :: more, embedded) ∧ p.object obj = .ok o ∧ o.name = name ∧ o.type = some t ∧
      p.type t = .ok (.signature recv ps rs variadic) ∧ p.Denotes params (ps, variadic) ∧
      p.Denotes results (rs, false) ∧ p.Denotes rest (more, embedded)
  | _, .element type rest, ids => ∃ e more,
    ids = ([], e :: more) ∧ p.Denotes type e ∧ p.Denotes rest ([], more)
  | _, .noParams, ids => ids = ([], false)
  | _, .param name type rest, ids => ∃ obj o t more variadic,
    ids = (obj :: more, variadic) ∧ (more = [] → variadic = false) ∧ p.object obj = .ok o ∧
      o.label = name ∧ o.type = some t ∧ p.Denotes type t ∧ p.Denotes rest (more, variadic)
  | _, .spread name elem, ids => ∃ obj o t e,
    ids = ([obj], true) ∧ p.object obj = .ok o ∧ o.label = name ∧ o.type = some t ∧
      p.type t = .ok (.slice e) ∧ p.Denotes elem e

/-- What a type must have so that it can be written: the names in it are identifiers, its members
have types, those of methods being signatures, and if the last parameter stands for any number of
values, it is a slice. -/
def Lawful (p : Program) : GoType → Prop
  | .basic name => Go.IsIdentifier name
  | .named obj _ _ => ∃ o, p.object obj = .ok o ∧ Go.IsIdentifier o.name ∧
    ∀ pkg ∈ o.pkg, ∃ owner, p.package pkg = .ok owner
  | .struct fields => ∀ obj ∈ fields, ∃ o, p.object obj = .ok o ∧ o.type.isSome ∧
    (o.kind ≠ .field true → Go.IsIdentifier o.name)
  | .interface methods _ => ∀ obj ∈ methods, ∃ o, p.object obj = .ok o ∧ Go.IsIdentifier o.name ∧
    ∃ t recv params results variadic, o.type = some t ∧
      p.type t = .ok (.signature recv params results variadic)
  | .signature _ params results variadic =>
    (∀ obj ∈ params ++ results, ∃ o, p.object obj = .ok o ∧ o.type.isSome ∧
      ∀ name ∈ o.label, Go.IsIdentifier name) ∧
    (variadic = true → ∃ last ∈ params.getLast?, ∃ o t e, p.object last = .ok o ∧ o.type = some t ∧
      p.type t = .ok (.slice e))
  | _ => True

/-- A type that can be written: following its parts comes to an end, named types having none, and
every type among the parts is there and has what it must have. -/
structure Spellable (p : Program) (id : TypeId) : Prop where
  wellFounded : Acc (fun part whole => p.HasPart whole part) id
  lawful : ∀ part, Relation.ReflTransGen p.HasPart id part →
    ∃ found, p.type part = .ok found ∧ p.Lawful found

variable {id : TypeId} {o : Object}

/-- In a closed program without circles, types can be written if all types have what they must
have. -/
theorem Grounded.spellable (hg : p.Grounded) (hp : p.Closed)
    (hlawful : ∀ found ∈ p.types.toList, p.Lawful found) (h : p.HasType id) : p.Spellable id where
  wellFounded := by
    obtain ⟨rank, hlt, -⟩ := exists_rank TypeId.eq_of_index
      (fun _ _ hpart => Program.HasPart.hasType hp hpart) hg.types
    exact Subrelation.accessible (fun hpart => hlt _ _ hpart) ((measure rank).wf.apply id)
  lawful part hreach := by
    have hpart : p.HasType part := by
      induction hreach with
      | refl => exact h
      | tail _ hstep _ => exact hstep.hasType hp
    obtain ⟨found, hfound, -⟩ := answers_type hpart
    exact ⟨found, hfound, hlawful found (mem_of_fetch hfound)⟩

/-! ## A type is written in one way only -/

/-- What is written, given the type that it stands for. -/
def Matches (p : Program) (a : TypeSyntax .type) : GoType → Prop
  | .basic name => a = .named none name
  | .named obj _ _ => ∃ o path, p.object obj = .ok o ∧ p.IsPath o path ∧ a = .named path o.name
  | .pointer e => ∃ elem, a = .pointer elem ∧ p.Denotes elem e
  | .slice e => ∃ elem, a = .slice elem ∧ p.Denotes elem e
  | .array len e => ∃ elem, a = .array len elem ∧ p.Denotes elem e
  | .map k v => ∃ key value, a = .map key value ∧ p.Denotes key k ∧ p.Denotes value v
  | .chan dir e => ∃ elem, a = .chan dir elem ∧ p.Denotes elem e
  | .struct fs => ∃ fields, a = .struct fields ∧ p.Denotes fields fs
  | .interface ms es => ∃ elements, a = .interface elements ∧ p.Denotes elements (ms, es)
  | .signature _ ps rs variadic => ∃ params results,
    a = .func params results ∧ p.Denotes params (ps, variadic) ∧ p.Denotes results (rs, false)

/-- A type that is found is written as its kind demands, of what its parts are written as. -/
theorem Denotes.matches {a : TypeSyntax .type} {found : GoType} (h : p.Denotes a id)
    (hfound : p.type id = .ok found) : p.Matches a found := by
  have hsame : ∀ {other}, p.type id = .ok other → found = other := fun hother =>
    Except.ok.inj (hfound.symm.trans hother)
  cases a with
  | named path name =>
    rcases h with ⟨rfl, htype⟩ | ⟨obj, under, methods, o, htype, ho, hpath, rfl⟩
    · obtain rfl := hsame htype
      rfl
    · obtain rfl := hsame htype
      exact ⟨o, path, ho, hpath, rfl⟩
  | pointer elem =>
    obtain ⟨e, htype, helem⟩ := h
    obtain rfl := hsame htype
    exact ⟨elem, rfl, helem⟩
  | slice elem =>
    obtain ⟨e, htype, helem⟩ := h
    obtain rfl := hsame htype
    exact ⟨elem, rfl, helem⟩
  | array len elem =>
    obtain ⟨e, htype, helem⟩ := h
    obtain rfl := hsame htype
    exact ⟨elem, rfl, helem⟩
  | map key value =>
    obtain ⟨k, v, htype, hkey, hvalue⟩ := h
    obtain rfl := hsame htype
    exact ⟨key, value, rfl, hkey, hvalue⟩
  | chan dir elem =>
    obtain ⟨e, htype, helem⟩ := h
    obtain rfl := hsame htype
    exact ⟨elem, rfl, helem⟩
  | struct fields =>
    obtain ⟨fs, htype, hfields⟩ := h
    obtain rfl := hsame htype
    exact ⟨fields, rfl, hfields⟩
  | interface elements =>
    obtain ⟨ms, es, htype, helements⟩ := h
    obtain rfl := hsame htype
    exact ⟨elements, rfl, helements⟩
  | func params results =>
    obtain ⟨recv, ps, rs, variadic, htype, hparams, hresults⟩ := h
    obtain rfl := hsame htype
    exact ⟨params, results, rfl, hparams, hresults⟩

/-- An object has one path at most. -/
theorem IsPath.unique {path path' : Option String} (h : p.IsPath o path) (h' : p.IsPath o path') :
    path = path' := by
  rcases h with ⟨hnone, rfl⟩ | ⟨pkg, owner, hsome, howner, rfl⟩
  · rcases h' with ⟨-, rfl⟩ | ⟨pkg', owner', hsome', -, -⟩
    · rfl
    · cases hnone.symm.trans hsome'
  · rcases h' with ⟨hnone', -⟩ | ⟨pkg', owner', hsome', howner', rfl⟩
    · cases hsome.symm.trans hnone'
    · obtain rfl := Option.some.inj (hsome.symm.trans hsome')
      rw [Except.ok.inj (howner.symm.trans howner')]

section Members

variable {obj : ObjectId} {t : TypeId} {objs : List ObjectId}

/-- An object that is found has one type at most. -/
theorem typed_unique {o' : Object} {t' : TypeId} (ho : p.object obj = .ok o) (ht : o.type = some t)
    (ho' : p.object obj = .ok o') (ht' : o'.type = some t') : o = o' ∧ t = t' := by
  obtain rfl := Except.ok.inj (ho.symm.trans ho')
  exact ⟨rfl, Option.some.inj (ht.symm.trans ht')⟩

/-- The first of some fields is written with its name, or as its type alone if it is embedded. -/
theorem Denotes.matches_field {a : TypeSyntax .fields} (h : p.Denotes a (obj :: objs))
    (ho : p.object obj = .ok o) (ht : o.type = some t) : ∃ type rest,
      (o.kind ≠ .field true ∧ a = .field o.name type rest ∨
        o.kind = .field true ∧ a = .embedding type rest) ∧
      p.Denotes type t ∧ p.Denotes rest objs := by
  cases a with
  | noFields => cases h
  | field name type rest =>
    obtain ⟨obj', o', t', more, hids, ho', hkind, rfl, ht', htype, hrest⟩ := h
    obtain ⟨rfl, rfl⟩ := List.cons.inj hids
    obtain ⟨rfl, rfl⟩ := typed_unique ho ht ho' ht'
    exact ⟨type, rest, .inl ⟨hkind, rfl⟩, htype, hrest⟩
  | embedding type rest =>
    obtain ⟨obj', o', t', more, hids, ho', hkind, ht', htype, hrest⟩ := h
    obtain ⟨rfl, rfl⟩ := List.cons.inj hids
    obtain ⟨rfl, rfl⟩ := typed_unique ho ht ho' ht'
    exact ⟨type, rest, .inr ⟨hkind, rfl⟩, htype, hrest⟩

/-- The first of some methods is written with its name and its signature. -/
theorem Denotes.matches_method {a : TypeSyntax .elements} {embedded : List TypeId}
    {recv : Option ObjectId} {ps rs : List ObjectId} {variadic : Bool}
    (h : p.Denotes a (obj :: objs, embedded)) (ho : p.object obj = .ok o) (ht : o.type = some t)
    (hfound : p.type t = .ok (.signature recv ps rs variadic)) : ∃ params results rest,
      a = .method o.name params results rest ∧ p.Denotes params (ps, variadic) ∧
        p.Denotes results (rs, false) ∧ p.Denotes rest (objs, embedded) := by
  cases a with
  | noElements => cases h
  | method name params results rest =>
    obtain ⟨obj', o', t', recv', ps', rs', variadic', more, embedded', hids, ho', rfl, ht', hfound',
      hparams, hresults, hrest⟩ := h
    obtain ⟨hobjs, rfl⟩ := Prod.mk.inj hids
    obtain ⟨rfl, rfl⟩ := List.cons.inj hobjs
    obtain ⟨rfl, rfl⟩ := typed_unique ho ht ho' ht'
    obtain ⟨⟩ := hfound.symm.trans hfound'
    exact ⟨params, results, rest, rfl, hparams, hresults, hrest⟩
  | element type rest =>
    obtain ⟨t', more, hids, -⟩ := h
    cases hids

/-- The first of some embedded types is written as itself. -/
theorem Denotes.matches_element {a : TypeSyntax .elements} {embedded : List TypeId}
    (h : p.Denotes a ([], t :: embedded)) : ∃ type rest,
      a = .element type rest ∧ p.Denotes type t ∧ p.Denotes rest ([], embedded) := by
  cases a with
  | noElements => cases h
  | method name params results rest =>
    obtain ⟨obj', o', t', recv', ps', rs', variadic', more, embedded', hids, -⟩ := h
    cases hids
  | element type rest =>
    obtain ⟨t', more, hids, htype, hrest⟩ := h
    obtain ⟨rfl, rfl⟩ := List.cons.inj (Prod.mk.inj hids).2
    exact ⟨type, rest, rfl, htype, hrest⟩

/-- The first of some parameters is written with its type, unless it stands for any number of
values. -/
theorem Denotes.matches_param {a : TypeSyntax .params} {variadic : Bool}
    (h : p.Denotes a (obj :: objs, variadic)) (hlast : objs = [] → variadic = false)
    (ho : p.object obj = .ok o) (ht : o.type = some t) : ∃ type rest,
      a = .param o.label type rest ∧ p.Denotes type t ∧ p.Denotes rest (objs, variadic) := by
  cases a with
  | noParams => cases h
  | param name type rest =>
    obtain ⟨obj', o', t', more, variadic', hids, -, ho', rfl, ht', htype, hrest⟩ := h
    obtain ⟨hobjs, rfl⟩ := Prod.mk.inj hids
    obtain ⟨rfl, rfl⟩ := List.cons.inj hobjs
    obtain ⟨rfl, rfl⟩ := typed_unique ho ht ho' ht'
    exact ⟨type, rest, rfl, htype, hrest⟩
  | spread name elem =>
    obtain ⟨obj', o', t', e, hids, -⟩ := h
    obtain ⟨hobjs, rfl⟩ := Prod.mk.inj hids
    cases hlast (List.cons.inj hobjs).2

/-- A last parameter that stands for any number of values is written with their type. -/
theorem Denotes.matches_spread {a : TypeSyntax .params} {e : TypeId}
    (h : p.Denotes a ([obj], true)) (ho : p.object obj = .ok o) (ht : o.type = some t)
    (hfound : p.type t = .ok (.slice e)) : ∃ elem,
      a = .spread o.label elem ∧ p.Denotes elem e := by
  cases a with
  | noParams => cases h
  | param name type rest =>
    obtain ⟨obj', o', t', more, variadic', hids, hlast, -⟩ := h
    obtain ⟨hobjs, rfl⟩ := Prod.mk.inj hids
    cases hlast (List.cons.inj hobjs).2.symm
  | spread name elem =>
    obtain ⟨obj', o', t', e', hids, ho', rfl, ht', hfound', helem⟩ := h
    obtain ⟨rfl, -⟩ := List.cons.inj (Prod.mk.inj hids).1
    obtain ⟨rfl, rfl⟩ := typed_unique ho ht ho' ht'
    obtain ⟨⟩ := hfound.symm.trans hfound'
    exact ⟨elem, rfl, helem⟩

end Members

/-- A piece of a type is written in one way only. -/
theorem Denotes.unique {k : Piece} {a b : TypeSyntax k} {ids : k.Ids} (ha : p.Denotes a ids)
    (hb : p.Denotes b ids) : a = b := by
  induction a with
  | named path name =>
    rcases ha with ⟨rfl, htype⟩ | ⟨obj, under, methods, o, htype, ho, hpath, rfl⟩
    · exact (hb.matches htype).symm
    · obtain ⟨o', path', ho', hpath', rfl⟩ := hb.matches htype
      obtain rfl := Except.ok.inj (ho.symm.trans ho')
      rw [hpath.unique hpath']
  | pointer elem ih =>
    obtain ⟨e, htype, helem⟩ := ha
    obtain ⟨elem', rfl, helem'⟩ := hb.matches htype
    rw [ih helem helem']
  | slice elem ih =>
    obtain ⟨e, htype, helem⟩ := ha
    obtain ⟨elem', rfl, helem'⟩ := hb.matches htype
    rw [ih helem helem']
  | array len elem ih =>
    obtain ⟨e, htype, helem⟩ := ha
    obtain ⟨elem', rfl, helem'⟩ := hb.matches htype
    rw [ih helem helem']
  | map key value ihkey ihvalue =>
    obtain ⟨k, v, htype, hkey, hvalue⟩ := ha
    obtain ⟨key', value', rfl, hkey', hvalue'⟩ := hb.matches htype
    rw [ihkey hkey hkey', ihvalue hvalue hvalue']
  | chan dir elem ih =>
    obtain ⟨e, htype, helem⟩ := ha
    obtain ⟨elem', rfl, helem'⟩ := hb.matches htype
    rw [ih helem helem']
  | struct fields ih =>
    obtain ⟨fs, htype, hfields⟩ := ha
    obtain ⟨fields', rfl, hfields'⟩ := hb.matches htype
    rw [ih hfields hfields']
  | interface elements ih =>
    obtain ⟨ms, es, htype, helements⟩ := ha
    obtain ⟨elements', rfl, helements'⟩ := hb.matches htype
    rw [ih helements helements']
  | func params results ihparams ihresults =>
    obtain ⟨recv, ps, rs, variadic, htype, hparams, hresults⟩ := ha
    obtain ⟨params', results', rfl, hparams', hresults'⟩ := hb.matches htype
    rw [ihparams hparams hparams', ihresults hresults hresults']
  | noFields =>
    obtain rfl := ha
    cases b <;> simp_all [Denotes]
  | field name type rest ihtype ihrest =>
    obtain ⟨obj, o, t, more, rfl, ho, hkind, rfl, ht, htype, hrest⟩ := ha
    obtain ⟨type', rest', ⟨-, rfl⟩ | ⟨hkind', -⟩, htype', hrest'⟩ := hb.matches_field ho ht
    · rw [ihtype htype htype', ihrest hrest hrest']
    · exact absurd hkind' hkind
  | embedding type rest ihtype ihrest =>
    obtain ⟨obj, o, t, more, rfl, ho, hkind, ht, htype, hrest⟩ := ha
    obtain ⟨type', rest', ⟨hkind', -⟩ | ⟨-, rfl⟩, htype', hrest'⟩ := hb.matches_field ho ht
    · exact absurd hkind hkind'
    · rw [ihtype htype htype', ihrest hrest hrest']
  | noElements =>
    obtain rfl := ha
    cases b <;> simp_all [Denotes]
  | method name params results rest ihparams ihresults ihrest =>
    obtain ⟨obj, o, t, recv, ps, rs, variadic, more, embedded, rfl, ho, rfl, ht, hfound, hparams,
      hresults, hrest⟩ := ha
    obtain ⟨params', results', rest', rfl, hparams', hresults', hrest'⟩ :=
      hb.matches_method ho ht hfound
    rw [ihparams hparams hparams', ihresults hresults hresults', ihrest hrest hrest']
  | element type rest ihtype ihrest =>
    obtain ⟨t, more, rfl, htype, hrest⟩ := ha
    obtain ⟨type', rest', rfl, htype', hrest'⟩ := hb.matches_element
    rw [ihtype htype htype', ihrest hrest hrest']
  | noParams =>
    obtain rfl := ha
    cases b <;> simp_all [Denotes]
  | param name type rest ihtype ihrest =>
    obtain ⟨obj, o, t, more, variadic, rfl, hlast, ho, rfl, ht, htype, hrest⟩ := ha
    obtain ⟨type', rest', rfl, htype', hrest'⟩ := hb.matches_param hlast ho ht
    rw [ihtype htype htype', ihrest hrest hrest']
  | spread name elem ih =>
    obtain ⟨obj, o, t, e, rfl, ho, rfl, ht, hfound, helem⟩ := ha
    obtain ⟨elem', rfl, helem'⟩ := hb.matches_spread ho ht hfound
    rw [ih helem helem']

/-! ## Every type that can be written is written in some way -/

/-- A type is written in some way, with identifiers as its names. -/
def IsWritten (p : Program) (id : TypeId) : Prop :=
  ∃ a : TypeSyntax .type, p.Denotes a id ∧ a.HasNames

/-- Fields are written in some way if their types are. -/
theorem exists_fields {fields : List ObjectId}
    (h : ∀ obj ∈ fields, ∃ o, p.object obj = .ok o ∧ (∃ t, o.type = some t ∧ p.IsWritten t) ∧
      (o.kind ≠ .field true → Go.IsIdentifier o.name)) :
    ∃ a : TypeSyntax .fields, p.Denotes a fields ∧ a.HasNames := by
  induction fields with
  | nil => exact ⟨.noFields, rfl, trivial⟩
  | cons obj fields ih =>
    obtain ⟨⟨o, ho, ⟨t, ht, a, ha, hnames⟩, hname⟩, hrest⟩ := List.forall_mem_cons.mp h
    obtain ⟨rest, hdenotes, hrestNames⟩ := ih hrest
    by_cases hkind : o.kind = .field true
    · exact ⟨.embedding a rest, ⟨obj, o, t, fields, rfl, ho, hkind, ht, ha, hdenotes⟩,
        hnames, hrestNames⟩
    · exact ⟨.field o.name a rest, ⟨obj, o, t, fields, rfl, ho, hkind, rfl, ht, ha, hdenotes⟩,
        hname hkind, hnames, hrestNames⟩

/-- Parameters are written in some way if their types are, the last one with dots if it may stand
for any number of values. -/
theorem exists_params {params : List ObjectId} (variadic : Bool)
    (h : ∀ obj ∈ params, ∃ o, p.object obj = .ok o ∧ (∃ t, o.type = some t ∧ p.IsWritten t) ∧
      ∀ name ∈ o.label, Go.IsIdentifier name)
    (hlast : variadic = true → ∃ last ∈ params.getLast?, ∃ o t e, p.object last = .ok o ∧
      o.type = some t ∧ p.type t = .ok (.slice e)) :
    ∃ a : TypeSyntax .params, p.Denotes a (params, variadic) ∧ a.HasNames := by
  induction params with
  | nil =>
    cases variadic with
    | false => exact ⟨.noParams, rfl, trivial⟩
    | true =>
      obtain ⟨last, hnone, -⟩ := hlast rfl
      cases hnone
  | cons obj params ih =>
    obtain ⟨⟨o, ho, ⟨t, ht, a, ha, hnames⟩, hname⟩, hrest⟩ := List.forall_mem_cons.mp h
    by_cases hend : params = [] ∧ variadic = true
    · obtain ⟨rfl, rfl⟩ := hend
      obtain ⟨last, hmem, o', t', e, ho', ht', hslice⟩ := hlast rfl
      obtain rfl := Option.some.inj hmem
      obtain ⟨rfl, rfl⟩ := typed_unique ho ht ho' ht'
      obtain ⟨elem, rfl, helem⟩ := ha.matches hslice
      exact ⟨.spread o.label elem, ⟨obj, o, t, e, rfl, ho, rfl, ht, hslice, helem⟩, hname, hnames⟩
    · obtain ⟨rest, hdenotes, hrestNames⟩ := ih hrest fun hvariadic => by
        obtain ⟨last, hmem, hslice⟩ := hlast hvariadic
        have hne : params ≠ [] := fun hnil => hend ⟨hnil, hvariadic⟩
        rw [List.getLast?_cons_of_ne_nil hne] at hmem
        exact ⟨last, hmem, hslice⟩
      refine ⟨.param o.label a rest, ⟨obj, o, t, params, variadic, rfl, fun hnil => ?_, ho, rfl, ht,
        ha, hdenotes⟩, hname, hnames, hrestNames⟩
      exact Bool.eq_false_iff.mpr fun hvariadic => hend ⟨hnil, hvariadic⟩

/-- Methods and embedded types are written in some way if their types are. -/
theorem exists_elements {methods : List ObjectId} {embedded : List TypeId}
    (hmethods : ∀ obj ∈ methods, ∃ o, p.object obj = .ok o ∧ Go.IsIdentifier o.name ∧
      ∃ t recv params results variadic, o.type = some t ∧
        p.type t = .ok (.signature recv params results variadic) ∧ p.IsWritten t)
    (hembedded : ∀ t ∈ embedded, p.IsWritten t) :
    ∃ a : TypeSyntax .elements, p.Denotes a (methods, embedded) ∧ a.HasNames := by
  induction methods with
  | nil =>
    induction embedded with
    | nil => exact ⟨.noElements, rfl, trivial⟩
    | cons t embedded ih =>
      obtain ⟨⟨a, ha, hnames⟩, hrest⟩ := List.forall_mem_cons.mp hembedded
      obtain ⟨rest, hdenotes, hrestNames⟩ := ih hrest
      exact ⟨.element a rest, ⟨t, embedded, rfl, ha, hdenotes⟩, hnames, hrestNames⟩
  | cons obj methods ih =>
    obtain ⟨⟨o, ho, hname, t, recv, params, results, variadic, ht, htype, a, ha, hnames⟩, hrest⟩ :=
      List.forall_mem_cons.mp hmethods
    obtain ⟨ps, rs, rfl, hps, hrs⟩ := ha.matches htype
    obtain ⟨rest, hdenotes, hrestNames⟩ := ih hrest
    exact ⟨.method o.name ps rs rest, ⟨obj, o, t, recv, params, results, variadic, methods,
      embedded, rfl, ho, rfl, ht, htype, hps, hrs, hdenotes⟩, hname, hnames.1, hnames.2, hrestNames⟩

/-- A type that can be written is written in some way. -/
theorem Spellable.isWritten (h : p.Spellable id) : p.IsWritten id := by
  obtain ⟨hacc, hlawful⟩ := h
  induction hacc with
  | intro id _ ih =>
    have hpart : ∀ part, p.HasPart id part → p.IsWritten part := fun part hpart =>
      ih part hpart fun inner hinner => hlawful inner (.head hpart hinner)
    obtain ⟨found, hfound, hlaw⟩ := hlawful id .refl
    have helem : ∀ part ∈ found.elems, p.IsWritten part := fun part hmem =>
      hpart part (.elem hfound hmem)
    have hmember : ∀ {obj o t}, obj ∈ found.members → p.object obj = .ok o → o.type = some t →
        p.IsWritten t := fun hmem ho ht => hpart _ (.member hfound hmem ho ht)
    cases found with
    | basic name => exact ⟨.named none name, .inl ⟨rfl, hfound⟩, by simp, hlaw⟩
    | named obj under methods =>
      obtain ⟨o, ho, hname, howner⟩ := hlaw
      obtain ⟨path, hpath⟩ : ∃ path, p.IsPath o path := by
        cases hpkg : o.pkg with
        | none => exact ⟨none, .inl ⟨hpkg, rfl⟩⟩
        | some pkg =>
          obtain ⟨owner, hpackage⟩ := howner pkg hpkg
          exact ⟨some owner.path, .inr ⟨pkg, owner, hpkg, hpackage, rfl⟩⟩
      exact ⟨.named path o.name, .inr ⟨obj, under, methods, o, hfound, ho, hpath, rfl⟩, by simp,
        hname⟩
    | pointer elem =>
      obtain ⟨a, ha, hnames⟩ := helem elem (by simp [GoType.elems])
      exact ⟨.pointer a, ⟨elem, hfound, ha⟩, hnames⟩
    | slice elem =>
      obtain ⟨a, ha, hnames⟩ := helem elem (by simp [GoType.elems])
      exact ⟨.slice a, ⟨elem, hfound, ha⟩, hnames⟩
    | array len elem =>
      obtain ⟨a, ha, hnames⟩ := helem elem (by simp [GoType.elems])
      exact ⟨.array len a, ⟨elem, hfound, ha⟩, hnames⟩
    | map key value =>
      obtain ⟨a, ha, hnames⟩ := helem key (by simp [GoType.elems])
      obtain ⟨b, hb, hvalueNames⟩ := helem value (by simp [GoType.elems])
      exact ⟨.map a b, ⟨key, value, hfound, ha, hb⟩, hnames, hvalueNames⟩
    | chan dir elem =>
      obtain ⟨a, ha, hnames⟩ := helem elem (by simp [GoType.elems])
      exact ⟨.chan dir a, ⟨elem, hfound, ha⟩, trivial, hnames⟩
    | struct fields =>
      obtain ⟨a, ha, hnames⟩ := exists_fields fun obj hobj => by
        obtain ⟨o, ho, htyped, hname⟩ := hlaw obj hobj
        obtain ⟨t, ht⟩ := Option.isSome_iff_exists.mp htyped
        exact ⟨o, ho, ⟨t, ht, hmember hobj ho ht⟩, hname⟩
      exact ⟨.struct a, ⟨fields, hfound, ha⟩, hnames⟩
    | interface methods embedded =>
      obtain ⟨a, ha, hnames⟩ := exists_elements (fun obj hobj => by
        obtain ⟨o, ho, hname, t, recv, params, results, variadic, ht, htype⟩ := hlaw obj hobj
        exact ⟨o, ho, hname, t, recv, params, results, variadic, ht, htype, hmember hobj ho ht⟩)
        (helem : ∀ t ∈ embedded, p.IsWritten t)
      exact ⟨.interface a, ⟨methods, embedded, hfound, ha⟩, hnames⟩
    | signature recv params results variadic =>
      obtain ⟨hall, hlast⟩ := hlaw
      have htyped : ∀ obj ∈ params ++ results, ∃ o, p.object obj = .ok o ∧
          (∃ t, o.type = some t ∧ p.IsWritten t) ∧ ∀ name ∈ o.label, Go.IsIdentifier name := by
        intro obj hobj
        obtain ⟨o, ho, htyped, hname⟩ := hall obj hobj
        obtain ⟨t, ht⟩ := Option.isSome_iff_exists.mp htyped
        exact ⟨o, ho, ⟨t, ht, hmember hobj ho ht⟩, hname⟩
      obtain ⟨a, ha, hnames⟩ := exists_params variadic
        (fun obj hobj => htyped obj (List.mem_append_left _ hobj)) hlast
      obtain ⟨b, hb, hresultNames⟩ := exists_params false
        (fun obj hobj => htyped obj (List.mem_append_right _ hobj)) fun h => by cases h
      exact ⟨.func a b, ⟨recv, params, results, variadic, hfound, ha, hb⟩, hnames, hresultNames⟩

end Program

end SymbolGraph
