import SymbolGraph.Proofs.Placement.OneFile

/-!
# Words that lead to scopes and objects

Which words can lead to a scope or to an object of a package of one file, said without the walk
(`FlatFile.Leads`): a scope is reached from the scope around it or from the method that it
belongs to, an object from the scope that binds it or from the type or variable that it is a
member of.

The main statement is `FlatFile.apart`: words tell scopes and objects apart. It is shown by
induction on their number, with one more thing to be shown at each step: words that lead to a
scope lead to no object with members.
-/

namespace SymbolGraph

open Text Placements PlacementContext

namespace Program

/-- An object has a name. -/
def Named (p : Program) (obj : ObjectId) (name : String) : Prop :=
  ∃ o, p.object obj = .ok o ∧ o.name = name

/-- A scope is the `i`-th child of another. -/
def ChildAt (p : Program) (scope : ScopeId) (i : Nat) (child : ScopeId) : Prop :=
  ∃ found before rest, p.scope scope = .ok found ∧ found.children = before ++ child :: rest ∧
    before.length = i

/-- An object is a member of a type name, or of a variable or field whose type is a struct without
a name. -/
inductive Member (p : Program) (owner obj : ObjectId) : Prop
  | ofTypeName {type under : TypeId} : p.Names owner type → p.underlying type = .ok under →
      p.HasMethod type obj ∨ p.HasField under obj → Member p owner obj
  | ofValue {o : Object} {type : TypeId} : p.object owner = .ok o →
      o.kind = .var ∨ p.IsField owner → o.type = some type → p.HasField type obj →
      Member p owner obj

variable {p : Program}

/-- Two objects that have one name. -/
theorem Named.sameName {a b : ObjectId} {name : String} (ha : p.Named a name)
    (hb : p.Named b name) : p.SameName a b := by
  obtain ⟨oa, hoa, rfl⟩ := ha
  obtain ⟨ob, hob, hname⟩ := hb
  exact ⟨oa, ob, hoa, hob, hname.symm⟩

/-- The `i`-th child is a child. -/
theorem ChildAt.hasChild {scope child : ScopeId} {i : Nat} (h : p.ChildAt scope i child) :
    p.HasChild scope child := by
  obtain ⟨found, before, rest, hfound, hchildren, -⟩ := h
  refine ⟨found, hfound, ?_⟩
  rw [hchildren]
  exact List.mem_append_right _ List.mem_cons_self

/-- There is one `i`-th child at most. -/
theorem ChildAt.eq {scope a b : ScopeId} {i : Nat} (ha : p.ChildAt scope i a)
    (hb : p.ChildAt scope i b) : a = b := by
  obtain ⟨found, before, rest, hfound, hchildren, hi⟩ := ha
  obtain ⟨found', before', rest', hfound', hchildren', hi'⟩ := hb
  rw [hfound] at hfound'
  cases hfound'
  rw [hchildren] at hchildren'
  exact (List.cons.inj (List.append_inj hchildren' (hi.trans hi'.symm)).2).1

/-- A type name stands for one type. -/
theorem Names.eq {obj : ObjectId} {a b : TypeId} (ha : p.Names obj a) (hb : p.Names obj b) :
    a = b := by
  obtain ⟨o, ho, -, ha⟩ := ha
  obtain ⟨o', ho', -, hb⟩ := hb
  rw [ho] at ho'
  cases ho'
  rw [ha] at hb
  exact Option.some.inj hb

/-- A type has methods only if it can be looked through. -/
theorem HasMethod.underlying {type : TypeId} {obj : ObjectId} (h : p.HasMethod type obj) :
    ∃ under, p.underlying type = .ok under := by
  obtain ⟨methods, hmethods, -⟩ := h
  obtain ⟨found, under, target, -, hunder, -⟩ := methodsOf_eq_ok hmethods
  exact ⟨under, hunder⟩

end Program

namespace FlatFile

variable {p : Program} {k : CheckedPackage} {top inner : ScopeId} {file : NodeId} {src : FileId}
  {first : Option ScopeId}

/-! ## Members -/

/-- What has members is a type name, a variable or a field. -/
theorem member_kind (hk : FlatFile p k top inner file src) {owner obj : ObjectId} {o : Object}
    (h : p.Member owner obj) (ho : p.object owner = .ok o) :
    o.kind = .typeName ∨ o.kind = .var ∨
      p.IsField owner ∧ ∃ embedded, o.kind = .field embedded := by
  cases h with
  | ofTypeName hnames _ _ =>
    obtain ⟨o', ho', hkind, -⟩ := hnames
    rw [ho] at ho'
    cases ho'
    exact .inl hkind
  | ofValue ho' hkind _ _ =>
    rw [ho] at ho'
    cases ho'
    rcases hkind with hkind | hfield
    · exact .inr (.inl hkind)
    · exact .inr (.inr ⟨hfield, hk.members.fieldKind hfield ho⟩)

/-- What has members is no import. -/
theorem not_isImport_of_member (hk : FlatFile p k top inner file src) {owner obj : ObjectId}
    (h : p.Member owner obj) : ¬ p.IsImport owner := by
  rintro ⟨o, ho, himport⟩
  rcases hk.member_kind h ho with hkind | hkind | ⟨-, embedded, hkind⟩ <;>
    (rw [hkind] at himport; cases himport)

/-- What has members is no function. -/
theorem not_ownsScope_of_member (hk : FlatFile p k top inner file src) {owner obj : ObjectId}
    (h : p.Member owner obj) (scope : ScopeId) : ¬ p.OwnsScope owner scope := by
  rintro ⟨o, ho, hfunc⟩
  rcases hk.member_kind h ho with hkind | hkind | ⟨-, embedded, hkind⟩ <;>
    (rw [hkind] at hfunc; cases hfunc)

/-- A method is no import. -/
theorem not_isImport_of_isMethod (hk : FlatFile p k top inner file src) {obj : ObjectId}
    (h : p.IsMethod obj) : ¬ p.IsImport obj := by
  rintro ⟨o, ho, himport⟩
  obtain ⟨scope?, hkind⟩ := hk.members.methodKind h ho
  rw [hkind] at himport
  cases himport

/-- A type name is neither a variable nor a field. -/
theorem not_value_of_names (hk : FlatFile p k top inner file src) {obj : ObjectId} {o : Object}
    {type : TypeId} (h : p.Names obj type) (ho : p.object obj = .ok o)
    (hvalue : o.kind = .var ∨ p.IsField obj) : False := by
  obtain ⟨o', ho', hkind, -⟩ := h
  rw [ho] at ho'
  cases ho'
  rcases hvalue with hvar | hfield
  · rw [hkind] at hvar
    cases hvar
  · obtain ⟨embedded, hkind'⟩ := hk.members.fieldKind hfield ho
    rw [hkind] at hkind'
    cases hkind'

/-- Fields of one type have different names. -/
theorem eq_of_hasField (hk : FlatFile p k top inner file src) {type : TypeId} {a b : ObjectId}
    (ha : p.HasField type a) (hb : p.HasField type b) (hname : p.SameName a b) : a = b := by
  obtain ⟨target, fields, htarget, hfields, hmem⟩ := ha
  obtain ⟨target', fields', htarget', hfields', hmem'⟩ := hb
  rw [htarget] at htarget'
  cases htarget'
  rw [hfields] at hfields'
  cases hfields'
  exact hk.fieldNames hfields hmem hmem' hname

/-- Members of one object have different names. -/
theorem eq_of_member (hk : FlatFile p k top inner file src) {owner a b : ObjectId}
    (ha : p.Member owner a) (hb : p.Member owner b) (hname : p.SameName a b) : a = b := by
  cases ha with
  | ofTypeName hnames hunder hmem =>
    cases hb with
    | ofTypeName hnames' hunder' hmem' =>
      obtain rfl := hnames.eq hnames'
      rw [hunder] at hunder'
      cases hunder'
      exact hk.memberNames hunder hmem hmem' hname
    | ofValue ho hvalue _ _ => exact (hk.not_value_of_names hnames ho hvalue).elim
  | ofValue ho hvalue htype hfield =>
    cases hb with
    | ofTypeName hnames _ _ => exact (hk.not_value_of_names hnames ho hvalue).elim
    | ofValue ho' _ htype' hfield' =>
      rw [ho] at ho'
      cases ho'
      rw [htype] at htype'
      cases htype'
      exact hk.eq_of_hasField hfield hfield' hname

/-! ## Words that lead to scopes and objects -/

/-- A scope or an object. -/
inductive Site where
  | scope (scope : ScopeId)
  | object (obj : ObjectId)

/-- Words that lead to a scope or to an object, the innermost first. `first` is the scope of the
function called `_` that keeps the bare name, if there is one. -/
inductive Leads (p : Program) (k : CheckedPackage) (top inner : ScopeId)
    (first : Option ScopeId) : Site → List Word → Prop
  | package : Leads p k top inner first (.scope top) []
  | file : Leads p k top inner first (.scope inner) []
  | func {scope recv ident obj name} : p.FuncScope k scope recv ident obj → p.Named obj name →
      p.Binds top name obj → name ≠ "_" → Leads p k top inner first (.scope scope) [.name name]
  | first {scope} : first = some scope → p.HasChild inner scope →
      Leads p k top inner first (.scope scope) [.name "_"]
  | blank {scope i} : p.ChildAt inner i scope → Leads p k top inner first (.scope scope) [.blank i]
  | init {scope ident obj r offset} : p.FuncScope k scope none ident obj → p.Named obj "init" →
      p.tree.range ident = .ok r → r.start.toNat = offset →
      Leads p k top inner first (.scope scope) [.init offset]
  | topBlock {scope i} : p.ChildAt inner i scope →
      Leads p k top inner first (.scope scope) [.block i, .file]
  | block {parent scope ws i} : Leads p k top inner first (.scope parent) ws →
      p.Below inner parent → parent ≠ inner → p.ChildAt parent i scope →
      Leads p k top inner first (.scope scope) (.block i :: ws)
  | body {method scope ws} : Leads p k top inner first (.object method) ws →
      p.IsMethod method → p.OwnsScope method scope → p.HasChild inner scope →
      Leads p k top inner first (.scope scope) ws
  | bound {scope ws name obj} : Leads p k top inner first (.scope scope) ws →
      p.Binds scope name obj → Leads p k top inner first (.object obj) (.name name :: ws)
  | member {owner ws obj name} : Leads p k top inner first (.object owner) ws →
      p.Member owner obj → p.Named obj name →
      Leads p k top inner first (.object obj) (.name name :: ws)

/-- Words that lead somewhere without a first function called `_` do so with one. -/
theorem Leads.mono {x : Site} {ws : List Word} (h : Leads p k top inner none x ws)
    (first : Option ScopeId) : Leads p k top inner first x ws := by
  induction h with
  | package => exact .package
  | file => exact .file
  | func hf hnamed hbinds hne => exact .func hf hnamed hbinds hne
  | first hfirst _ => cases hfirst
  | blank hat => exact .blank hat
  | init hf hnamed hrange hoffset => exact .init hf hnamed hrange hoffset
  | topBlock hat => exact .topBlock hat
  | block _ hbelow hne hat ih => exact .block ih hbelow hne hat
  | body _ hmethod hown hchild ih => exact .body ih hmethod hown hchild
  | bound _ hbinds ih => exact .bound ih hbinds
  | member _ hmember hnamed ih => exact .member ih hmember hnamed

/-- Words lead to the scope of the package and to those of its file. -/
theorem leads_below (hk : FlatFile p k top inner file src) {scope : ScopeId} {ws : List Word}
    (h : Leads p k top inner first (.scope scope) ws) :
    scope = top ∨ p.Below inner scope := by
  cases h with
  | package => exact .inl rfl
  | file => exact .inr .refl
  | func hf _ _ _ => exact .inr (.child .refl (hk.funcNested hf))
  | first _ hchild => exact .inr (.child .refl hchild)
  | blank hat => exact .inr (.child .refl hat.hasChild)
  | init hf _ _ _ => exact .inr (.child .refl (hk.funcNested hf))
  | topBlock hat => exact .inr (.child .refl hat.hasChild)
  | block _ hbelow _ hat => exact .inr (.child hbelow hat.hasChild)
  | body _ _ _ hchild => exact .inr (.child .refl hchild)

/-- The scopes that words lead to lie below that of the package. -/
theorem below_top_of_leads (hk : FlatFile p k top inner file src) {scope : ScopeId}
    {ws : List Word} (h : Leads p k top inner first (.scope scope) ws) : p.Below top scope := by
  rcases hk.leads_below h with rfl | hbelow
  · exact .refl
  · exact hk.below_top hbelow

/-- Only scopes are reached without a word. -/
theorem not_leads_object_nil {obj : ObjectId} : ¬ Leads p k top inner first (.object obj) [] :=
  nofun

/-- Without words one gets to the scopes of the package and of the file only. -/
theorem eq_of_leads_nil {scope : ScopeId} (h : Leads p k top inner first (.scope scope) []) :
    scope = top ∨ scope = inner := by
  cases h with
  | package => exact .inl rfl
  | file => exact .inr rfl
  | body hmethod _ _ _ => exact absurd hmethod not_leads_object_nil

/-- One gets to the scopes of the package and of the file without words only. -/
theorem nil_of_leads (hk : FlatFile p k top inner file src) {scope : ScopeId} {ws : List Word}
    (h : Leads p k top inner first (.scope scope) ws) (heq : scope = top ∨ scope = inner) :
    ws = [] := by
  have hout : ∀ {parent : ScopeId}, p.Below inner parent → p.HasChild parent scope → False := by
    intro parent hbelow hchild
    obtain ⟨htop, hinner⟩ := hk.ne_of_hasChild hbelow hchild
    rcases heq with rfl | rfl
    · exact htop rfl
    · exact hinner rfl
  cases h with
  | package => rfl
  | file => rfl
  | func hf _ _ _ => exact (hout .refl (hk.funcNested hf)).elim
  | first _ hchild => exact (hout .refl hchild).elim
  | blank hat => exact (hout .refl hat.hasChild).elim
  | init hf _ _ _ => exact (hout .refl (hk.funcNested hf)).elim
  | topBlock hat => exact (hout .refl hat.hasChild).elim
  | block _ hbelow _ hat => exact (hout hbelow hat.hasChild).elim
  | body _ _ _ hchild => exact (hout .refl hchild).elim

/-- The names among the words that lead somewhere are names of the language. -/
theorem good_of_leads (hk : FlatFile p k top inner file src) {x : Site} {ws : List Word}
    (h : Leads p k top inner first x ws) : ∀ w ∈ ws, w.Good := by
  have hplain : ∀ {obj name}, p.Named obj name → Word.Plain name := by
    rintro obj name ⟨o, ho, rfl⟩
    exact hk.plainObject ho
  induction h with
  | package => exact fun w hw => absurd hw List.not_mem_nil
  | file => exact fun w hw => absurd hw List.not_mem_nil
  | func _ hnamed _ _ => exact List.forall_mem_singleton.mpr (hplain hnamed)
  | first _ _ =>
    exact List.forall_mem_singleton.mpr
      (show Word.Plain "_" from ⟨by decide, by decide⟩)
  | blank _ => exact List.forall_mem_singleton.mpr trivial
  | init _ _ _ _ => exact List.forall_mem_singleton.mpr trivial
  | topBlock _ =>
    exact List.forall_mem_cons.mpr ⟨trivial, List.forall_mem_singleton.mpr trivial⟩
  | block _ _ _ _ ih => exact List.forall_mem_cons.mpr ⟨trivial, ih⟩
  | body _ _ _ _ ih => exact ih
  | bound hscope hbinds ih =>
    exact List.forall_mem_cons.mpr ⟨hk.plainBinding (hk.below_top_of_leads hscope) hbinds, ih⟩
  | member _ _ hnamed ih => exact List.forall_mem_cons.mpr ⟨hplain hnamed, ih⟩

/-! ## Words tell scopes and objects apart -/

/-- What some words lead to is told apart by them. -/
structure Apart (p : Program) (k : CheckedPackage) (top inner : ScopeId)
    (first : Option ScopeId) (ws : List Word) : Prop where
  objects : ∀ {a b}, Leads p k top inner first (.object a) ws →
    Leads p k top inner first (.object b) ws → ¬ p.IsImport a → ¬ p.IsImport b → a = b
  scopes : ∀ {a b}, Leads p k top inner first (.scope a) ws →
    Leads p k top inner first (.scope b) ws → ws ≠ [] → a = b
  /-- Nothing has members where a scope is. -/
  members : ∀ {scope owner obj}, Leads p k top inner first (.scope scope) ws →
    Leads p k top inner first (.object owner) ws → ¬ p.Member owner obj

/-- Without a word only the scopes of the package and of the file are reached, and no objects. -/
theorem apart_nil : Apart p k top inner first [] where
  objects h := absurd h not_leads_object_nil
  scopes _ _ hne := absurd rfl hne
  members _ h := absurd h not_leads_object_nil

variable {w : Word} {ws : List Word}

/-- Of the scopes of the package and of the file only that of the package binds anything that is
no import. -/
theorem binds_top_of_leads_nil (hk : FlatFile p k top inner file src) {scope : ScopeId}
    {name : String} {obj : ObjectId} (h : Leads p k top inner first (.scope scope) [])
    (hbinds : p.Binds scope name obj) (himport : ¬ p.IsImport obj) : p.Binds top name obj := by
  rcases eq_of_leads_nil h with rfl | rfl
  · exact hbinds
  · exact absurd (hk.imports hbinds) himport

/-- If the words behind it tell things apart, one more word leads to at most one object that is not
imported. Such an object is bound in a scope or is a member, and not both: where a scope is, nothing
has members. -/
theorem Apart.objects_cons (hk : FlatFile p k top inner file src)
    (hws : Apart p k top inner first ws) {a b : ObjectId}
    (ha : Leads p k top inner first (.object a) (w :: ws))
    (hb : Leads p k top inner first (.object b) (w :: ws)) (hia : ¬ p.IsImport a)
    (hib : ¬ p.IsImport b) : a = b := by
  cases ha with
  | bound hscope hbinds =>
    cases hb with
    | bound hscope' hbinds' =>
      by_cases hnil : ws = []
      · subst hnil
        exact hk.tree.unique (hk.binds_top_of_leads_nil hscope hbinds hia)
          (hk.binds_top_of_leads_nil hscope' hbinds' hib)
      · obtain rfl := hws.scopes hscope hscope' hnil
        exact hk.tree.unique hbinds hbinds'
    | member howner hmember _ => exact absurd hmember (hws.members hscope howner)
  | member howner hmember hnamed =>
    cases hb with
    | bound hscope _ => exact absurd hmember (hws.members hscope howner)
    | member howner' hmember' hnamed' =>
      obtain rfl := hws.objects howner howner' (hk.not_isImport_of_member hmember)
        (hk.not_isImport_of_member hmember')
      exact hk.eq_of_member hmember hmember' (hnamed.sameName hnamed')

/-- Where a method is, a scope can only be the body of a method. -/
theorem body_of_method (hk : FlatFile p k top inner file src) {method : ObjectId}
    {scope : ScopeId} (hm : Leads p k top inner first (.object method) ws)
    (hmethod : p.IsMethod method) (h : Leads p k top inner first (.scope scope) ws) :
    ∃ other, Leads p k top inner first (.object other) ws ∧ p.IsMethod other ∧
      p.OwnsScope other scope := by
  cases hm with
  | bound _ hbinds => exact absurd hbinds (hk.members.methodUnbound hmethod)
  | member howner _ _ =>
    cases h with
    | func _ _ _ _ => exact absurd howner not_leads_object_nil
    | first _ _ => exact absurd howner not_leads_object_nil
    | body hm' hmethod' hown' _ => exact ⟨_, hm', hmethod', hown'⟩

/-- Where a method is, there is one scope at most. -/
theorem eq_of_method (hk : FlatFile p k top inner file src) {method : ObjectId} {a b : ScopeId}
    (hobjects : ∀ {x y}, Leads p k top inner first (.object x) ws →
      Leads p k top inner first (.object y) ws → ¬ p.IsImport x → ¬ p.IsImport y → x = y)
    (hm : Leads p k top inner first (.object method) ws) (hmethod : p.IsMethod method)
    (ha : Leads p k top inner first (.scope a) ws)
    (hb : Leads p k top inner first (.scope b) ws) : a = b := by
  obtain ⟨x, hx, hisMethod, hown⟩ := hk.body_of_method hm hmethod ha
  obtain ⟨y, hy, hisMethod', hown'⟩ := hk.body_of_method hm hmethod hb
  obtain rfl := hobjects hx hy (hk.not_isImport_of_isMethod hisMethod)
    (hk.not_isImport_of_isMethod hisMethod')
  exact hown.eq hown'

/-- Words lead to what lies below the scope of the file. -/
theorem ne_nil_of_below (hk : FlatFile p k top inner file src) {scope : ScopeId}
    (hbelow : p.Below inner scope) (hne : scope ≠ inner)
    (hws : Leads p k top inner first (.scope scope) ws) : ws ≠ [] := by
  rintro rfl
  rcases eq_of_leads_nil hws with rfl | rfl
  · have hlater := hk.tree.later hk.hasChild_top
    have hle := hk.tree.index_le hbelow
    omega
  · exact hne rfl

/-- If the words behind it tell things apart, one more word leads to one scope at most. The first
word tells which rule led there, but for bodies of methods: those are settled by the method, which
is one object. -/
theorem Apart.scopes_cons (hk : FlatFile p k top inner file src)
    (hws : Apart p k top inner first ws) {a b : ScopeId}
    (ha : Leads p k top inner first (.scope a) (w :: ws))
    (hb : Leads p k top inner first (.scope b) (w :: ws)) : a = b := by
  -- the body of a method on either side settles it, and other scopes end in words of their own
  have hbody : ∀ {method}, Leads p k top inner first (.object method) (w :: ws) →
      p.IsMethod method → a = b := by
    intro method hm hmethod
    exact hk.eq_of_method (fun hx hy hix hiy => hws.objects_cons hk hx hy hix hiy) hm hmethod ha hb
  cases ha with
  | body hm hmethod _ _ => exact hbody hm hmethod
  | func hf hnamed hbinds hne =>
    cases hb with
    | body hm hmethod _ _ => exact hbody hm hmethod
    | func hf' _ hbinds' _ =>
      obtain rfl := hk.tree.unique hbinds hbinds'
      exact hf.owns.eq hf'.owns
    | first _ _ => exact absurd rfl hne
  | first hfirst hchild =>
    cases hb with
    | body hm hmethod _ _ => exact hbody hm hmethod
    | func _ _ _ hne => exact absurd rfl hne
    | first hfirst' _ =>
      rw [hfirst] at hfirst'
      exact Option.some.inj hfirst'
  | blank hat =>
    cases hb with
    | body hm hmethod _ _ => exact hbody hm hmethod
    | blank hat' => exact hat.eq hat'
  | init hf hnamed hrange hoffset =>
    cases hb with
    | body hm hmethod _ _ => exact hbody hm hmethod
    | init hf' hnamed' hrange' hoffset' =>
      obtain ⟨oa, hoa, hna⟩ := hnamed
      obtain ⟨ob, hob, hnb⟩ := hnamed'
      have hstart := UInt32.toNat_inj.mp (hoffset.trans hoffset'.symm)
      obtain rfl := hk.initApart hf hf' hoa hob hna hnb hrange hrange' hstart
      exact hf.owns.eq hf'.owns
  | topBlock hat =>
    cases hb with
    | body hm hmethod _ _ => exact hbody hm hmethod
    | topBlock hat' => exact hat.eq hat'
    | block hparent _ _ _ =>
      cases hparent with
      | body hm _ _ _ => cases hm
  | block hparent hbelow hne hat =>
    have hnil := hk.ne_nil_of_below hbelow hne hparent
    cases hb with
    | body hm hmethod _ _ => exact hbody hm hmethod
    | topBlock _ =>
      cases hparent with
      | body hm _ _ _ => cases hm
    | block hparent' hbelow' hne' hat' =>
      obtain rfl := hws.scopes hparent hparent' hnil
      exact hat.eq hat'

/-- If the words behind it tell things apart, nothing has members where one more word leads to a
scope. What is there is a function, or else the scope is a block and no object is there at all. -/
theorem Apart.members_cons (hk : FlatFile p k top inner file src)
    (hws : Apart p k top inner first ws) {scope : ScopeId} {owner obj : ObjectId}
    (hs : Leads p k top inner first (.scope scope) (w :: ws))
    (ho : Leads p k top inner first (.object owner) (w :: ws)) : ¬ p.Member owner obj := by
  intro hmember
  have himport := hk.not_isImport_of_member hmember
  cases hs with
  | func hf _ hbinds _ =>
    cases ho with
    | bound hscope' hbinds' =>
      obtain rfl := hk.tree.unique hbinds (hk.binds_top_of_leads_nil hscope' hbinds' himport)
      exact hk.not_ownsScope_of_member hmember _ hf.owns
    | member howner _ _ => exact not_leads_object_nil howner
  | first _ _ =>
    cases ho with
    | bound hscope' hbinds' =>
      have hbinds := hk.binds_top_of_leads_nil hscope' hbinds' himport
      rcases hmember with ⟨⟨o, hobj, hkind, -⟩, -, -⟩ | ⟨hobj, hvalue, -, -⟩
      · exact (hk.blankFree hbinds hobj).1 hkind
      · rcases hvalue with hvar | hfield
        · exact (hk.blankFree hbinds hobj).2 hvar
        · exact hk.members.fieldUnbound hfield hbinds
    | member howner _ _ => exact not_leads_object_nil howner
  | blank _ => cases ho
  | init _ _ _ _ => cases ho
  | topBlock _ => cases ho
  | block _ _ _ _ => cases ho
  | body hm hmethod hown _ =>
    obtain rfl := hws.objects_cons hk hm ho (hk.not_isImport_of_isMethod hmethod) himport
    exact hk.not_ownsScope_of_member hmember _ hown

/-- Words tell apart what they lead to. -/
theorem apart (hk : FlatFile p k top inner file src) (first : Option ScopeId) :
    (ws : List Word) → Apart p k top inner first ws
  | [] => apart_nil
  | _ :: ws =>
    have hws := apart hk first ws
    { objects := hws.objects_cons hk
      scopes := fun ha hb _ => hws.scopes_cons hk ha hb
      members := hws.members_cons hk }

end FlatFile

end SymbolGraph
