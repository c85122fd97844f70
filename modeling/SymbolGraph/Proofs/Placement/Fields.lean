import SymbolGraph.Proofs.Placement.Guide

/-!
# Places of nested fields

The fields of a named struct type, and the fields of the struct types without a name that these
have, get their places below the type's name (`place_of_nested`), provided that the walk has not
come to one of them before. It goes through the type names and variables that are bound before the
type, and through the bodies of methods, the type's own methods included; a variable found there
whose type is one of the struct types without a name takes the fields for itself
(`place_of_nested_tangled`).
-/

namespace SymbolGraph

open Text Placements PlacementContext

namespace Program

/-! ## What the walk comes to -/

/-- The fields of a type and, under them, those of their struct types without a name; each with the
names on the way. -/
inductive Nested (p : Program) (type : TypeId) : ObjectId → DefPath → Prop
  | own {x : ObjectId} {o : Object} : p.HasField type x → p.object x = .ok o →
      Nested p type x [o.name]
  | inner {outer x : ObjectId} {around o : Object} {inner : TypeId} {path : DefPath} :
      Nested p type outer path → p.object outer = .ok around → around.type = some inner →
      p.HasField inner x → p.object x = .ok o → Nested p type x (path ++ [o.name])

/-- The objects that the walk may come to before the fields of a type name: those bound before it,
methods and fields of these, methods of the type name itself, and what is bound in the bodies of
all these methods. -/
inductive Met (p : Program) (first : List ObjectId) (name : ObjectId) : ObjectId → Prop
  | bound {x : ObjectId} : x ∈ first → Met p first name x
  | ownMethod {type : TypeId} {x : ObjectId} : p.Names name type → p.HasMethod type x →
      Met p first name x
  | method {other x : ObjectId} {type : TypeId} : Met p first name other → p.Names other type →
      p.HasMethod type x → Met p first name x
  | typeField {other x : ObjectId} {type under : TypeId} : Met p first name other →
      p.Names other type → p.underlying type = .ok under → p.HasField under x →
      Met p first name x
  | field {other x : ObjectId} {o : Object} {type : TypeId} : Met p first name other →
      p.object other = .ok o → (o.kind = .var ∨ p.IsField other) → o.type = some type →
      p.HasField type x → Met p first name x
  | inBody {method x : ObjectId} {own scope : ScopeId} {n : String} : Met p first name method →
      p.IsMethod method → p.OwnsScope method own → p.Below own scope → p.Binds scope n x →
      Met p first name x

/-- A type name stands for a struct type. -/
def NamesStruct (p : Program) (t : ObjectId) (under : TypeId) : Prop :=
  ∃ type fields, p.Names t type ∧ p.underlying type = .ok under ∧
    p.type under = .ok (.struct fields)

/-- What is nested in a type is a field. -/
theorem Nested.isField {p : Program} {type : TypeId} {x : ObjectId} {path : DefPath}
    (h : p.Nested type x path) : p.IsField x := by
  cases h with
  | own hfield _ => exact hfield.isField
  | inner _ _ _ hfield _ => exact hfield.isField

end Program

namespace PlacementContext

variable {c : PlacementContext} {s s' : Placements}

/-! ## Before the fields -/

/-- Until the walk comes to the fields of a type name, only what it may come to before has a place,
besides what has `already` got one. -/
def metGuide (c : PlacementContext) (first : List ObjectId) (name : ObjectId)
    (already : ObjectId → Prop) : Guide c where
  enters _ _ := True
  places x _ := already x ∨ c.program.Met first name x
  takes
    | .scope scope _ _ => ∃ method own, c.program.Met first name method ∧
        c.program.IsMethod method ∧ c.program.OwnsScope method own ∧ c.program.Below own scope
    | .method x _ _ => c.program.Met first name x ∧ c.program.IsMethod x
    | .field x _ _ => c.program.Met first name x ∧ c.program.IsField x
  binds scope _ _ := ∃ method own, c.program.Met first name method ∧
    c.program.IsMethod method ∧ c.program.OwnsScope method own ∧ c.program.Below own scope

variable {first : List ObjectId} {name : ObjectId} {already : ObjectId → Prop}

/-- What lies below an object that the walk may come to may be come to. -/
theorem takes_of_isBelow {x : ObjectId} {o : Object} {path : DefPath} {packageScope : Bool}
    {t : Pending} (hx : c.program.Met first name x) (ho : c.program.object x = .ok o)
    (ht : IsBelow c.program o path packageScope t) : (metGuide c first name already).takes t := by
  cases ht with
  | method hkind htype hmethod =>
    exact ⟨.method hx ⟨o, ho, hkind, htype⟩ hmethod, hmethod.isMethod⟩
  | typeField hkind htype hunder hfield =>
    exact ⟨.typeField hx ⟨o, ho, hkind, htype⟩ hunder hfield, hfield.isField⟩
  | varField hkind htype hfield =>
    exact ⟨.field hx ho (.inl hkind) htype hfield, hfield.isField⟩

/-- From what the walk may meet before the fields of a type name it comes only to such objects. -/
theorem sound_metGuide : (metGuide c first name already).Sound := by
  constructor
  case scope => exact fun h => ⟨trivial, h⟩
  case binding =>
    rintro scope base packageScope found n x o ⟨method, own, hmet, hmethod, howns, hbelow⟩
      hfound hmem ho
    have hx : c.program.Met first name x := .inBody hmet hmethod howns hbelow ⟨found, hfound, hmem⟩
    exact ⟨.inr hx, fun t ht => takes_of_isBelow hx ho ht⟩
  case method =>
    rintro x base packageScope o ⟨hmet, hmethod⟩ ho
    refine ⟨.inr hmet, fun t ht => ?_⟩
    unfold bodyOf at ht
    split at ht
    · rename_i own hkind
      obtain rfl := List.mem_singleton.mp ht
      exact ⟨x, own, hmet, hmethod, ⟨o, ho, hkind⟩, .refl⟩
    · cases ht
  case field =>
    rintro x base packageScope o ⟨hmet, hx⟩ ho
    exact ⟨.inr hmet, fun type inner htype hfield =>
      ⟨.field hmet ho (.inr hx) htype hfield, hfield.isField⟩⟩
  case child =>
    rintro scope base packageScope found before child rest seen path
      ⟨method, own, hmet, hmethod, howns, hbelow⟩ hfound hchildren - -
    refine ⟨method, own, hmet, hmethod, howns, .child hbelow ⟨found, hfound, ?_⟩⟩
    rw [hchildren]
    exact List.mem_append_right _ List.mem_cons_self

/-- Bindings are gone through one after another. -/
theorem Runs.bindings_append {scope : ScopeId} {base : DefPath} {packageScope : Bool}
    {before after : List (String × ObjectId)}
    (h : c.Runs s (.bindings scope base packageScope (before ++ after)) s') :
    ∃ s₁, c.Runs s (.bindings scope base packageScope before) s₁ ∧
      c.Runs s₁ (.bindings scope base packageScope after) s' := by
  induction before generalizing s with
  | nil => exact ⟨s, .unbound, h⟩
  | cons b before ih =>
    cases h with
    | known hp hrest =>
      obtain ⟨s₁, hbefore, hafter⟩ := ih hrest
      exact ⟨s₁, .known hp hbefore, hafter⟩
    | binding hp ho hts hitems hrest =>
      obtain ⟨s₁, hbefore, hafter⟩ := ih hrest
      exact ⟨s₁, .binding hp ho hts hitems hbefore, hafter⟩

/-- Items are taken up one after another. -/
theorem Runs.items_append {before after : List Pending}
    (h : c.Runs s (.items (before ++ after)) s') :
    ∃ s₁, c.Runs s (.items before) s₁ ∧ c.Runs s₁ (.items after) s' := by
  induction before generalizing s with
  | nil => exact ⟨s, .nil, h⟩
  | cons t before ih =>
    cases h with
    | cons hfirst hrest =>
      obtain ⟨s₁, hbefore, hafter⟩ := ih hrest
      exact ⟨s₁, .cons hfirst hbefore, hafter⟩

/-- The bindings before a type name give places only to what the walk may come to before. -/
theorem admits_of_bindings {scope : ScopeId} {base : DefPath} {packageScope : Bool}
    {list : List (String × ObjectId)} (h : c.Runs s (.bindings scope base packageScope list) s')
    (hlist : ∀ b ∈ list, b.2 ∈ first) (hs : (metGuide c first name already).Admits s) :
    (metGuide c first name already).Admits s' := by
  induction list generalizing s with
  | nil =>
    cases h
    exact hs
  | cons b rest ih =>
    have hrest : ∀ b ∈ rest, b.2 ∈ first := fun b hb => hlist b (List.mem_cons_of_mem _ hb)
    cases h with
    | known _ hrun => exact ih hrun hrest hs
    | binding _ ho hts hitems hrun =>
      have hx : c.program.Met first name _ := .bound (hlist _ List.mem_cons_self)
      refine ih hrun hrest (sound_metGuide.admits hitems (fun t ht => ?_) (hs.record (.inr hx)))
      exact takes_of_isBelow hx ho (mem_below hts ht)

/-! ## The fields -/

/-- All fields of a struct type are among what is to be placed below it. -/
theorem field_mem_items {p : Program} {type target : TypeId} {fields? : Option (List ObjectId)}
    {x : ObjectId} {path : DefPath} {packageScope : Bool} (htarget : p.deref type = .ok target)
    (hfields : p.ownFields? target = .ok fields?) (hx : p.HasField type x) :
    .field x path packageScope ∈ (fields?.getD []).map (Pending.field · path packageScope) := by
  obtain ⟨target', fields, htarget', hfields', hmem⟩ := hx
  rw [htarget] at htarget'
  cases htarget'
  rw [hfields] at hfields'
  cases hfields'
  exact List.mem_map.mpr ⟨x, hmem, rfl⟩

/-- Only fields are to be placed. -/
def Task.OnlyFields : Task → Prop
  | .item (.field ..) => True
  | .items ts => ∀ t ∈ ts, ∃ x path packageScope, t = .field x path packageScope
  | _ => False

/-- Whatever field gets a place, the fields of its struct type without a name have places in the
end. -/
theorem Runs.inner_placed {task : Task} (h : c.Runs s task s') (htask : task.OnlyFields)
    {x y : ObjectId} {o : Object} {type : TypeId} (hbefore : s.place? x = none)
    (hafter : (s'.place? x).isSome) (ho : c.program.object x = .ok o) (htype : o.type = some type)
    (hy : c.program.HasField type y) : (s'.place? y).isSome := by
  induction h with
  | fieldKnown _ =>
    rw [hbefore] at hafter
    cases hafter
  | @field s s' obj o' base packageScope ts _ ho' hts hrun ih =>
    have hfields : ∀ t ∈ ts, ∃ x path packageScope, t = .field x path packageScope := by
      intro t ht
      obtain ⟨_, inner, -, -, rfl⟩ := mem_fieldsBelow hts ht
      exact ⟨inner, _, _, rfl⟩
    by_cases heq : obj = x
    · -- the field itself: its own fields are the items that are gone on to
      subst heq
      rw [ho] at ho'
      cases ho'
      unfold fieldsBelow at hts
      rw [htype] at hts
      obtain ⟨target, htarget, hts⟩ := bind_eq_ok_iff.mp hts
      obtain ⟨fields?, hfields?, hts⟩ := bind_eq_ok_iff.mp hts
      cases hts
      exact hrun.done _ (field_mem_items htarget hfields? hy)
    · refine ih hfields ?_ hafter
      rw [place?_record, if_neg heq]
      exact hbefore
  | nil =>
    rw [hbefore] at hafter
    cases hafter
  | @cons s s₁ s' t ts _ hrest ih₁ ih₂ =>
    have hfirst : Task.OnlyFields (.item t) := by
      obtain ⟨_, _, _, rfl⟩ := htask t List.mem_cons_self
      trivial
    cases hmid : s₁.place? x with
    | none => exact ih₂ (fun t ht => htask t (List.mem_cons_of_mem _ ht)) hmid hafter
    | some place => exact hrest.grows.isSome_place? (ih₁ hfirst hbefore (by rw [hmid]; rfl))
  | _ => exact absurd htask id

variable {under : TypeId} {n : String}

/-- While the fields of a type name are placed, what is nested in it gets its place below the
name. -/
def nestedGuide (c : PlacementContext) (under : TypeId) (n : String) : Guide c where
  enters _ _ := True
  places x place := ∀ path, c.program.Nested under x path →
    ∃ around, c.program.Nested under x around ∧ place.path = n :: around
  takes
    | .field x base _ => ∀ o, c.program.object x = .ok o →
        ∃ around, base = n :: around ∧ c.program.Nested under x (around ++ [o.name])
    | _ => False
  binds _ _ _ := False

/-- From what is nested in a type the walk comes only to what is nested further in. -/
theorem sound_nestedGuide : (nestedGuide c under n).Sound := by
  constructor
  case scope => exact fun h => h.elim
  case binding => exact fun h => h.elim
  case method => exact fun h => h.elim
  case field =>
    intro x base packageScope o htakes ho
    obtain ⟨around, rfl, hnested⟩ := htakes o ho
    exact ⟨fun _ _ => ⟨_, hnested, rfl⟩, fun inner y htype hy o' ho' =>
      ⟨around ++ [o.name], rfl, .inner hnested ho htype hy ho'⟩⟩
  case child => exact fun h => h.elim

/-- The fields of a type name, once they are gone through, have their places below the name, and so
has what is nested in them, if none of this had a place before. -/
theorem nested_of_items {fields : List ObjectId} {packageScope : Bool}
    (hfields : ∀ x, c.program.HasField under x ↔ x ∈ fields)
    (h : c.Runs s (.items (fields.map (.field · [n] packageScope))) s')
    (hfree : ∀ {x path}, c.program.Nested under x path → s.place? x = none)
    {x : ObjectId} {path : DefPath} (hx : c.program.Nested under x path) :
    ∃ place around, s'.place? x = some place ∧ c.program.Nested under x around ∧
      place.path = n :: around := by
  have honly : Task.OnlyFields (.items (fields.map (.field · [n] packageScope))) := by
    intro t ht
    obtain ⟨x, -, rfl⟩ := List.mem_map.mp ht
    exact ⟨x, _, _, rfl⟩
  have hplaced : (s'.place? x).isSome := by
    induction hx with
    | own hfield _ => exact h.done _ (List.mem_map.mpr ⟨_, (hfields _).mp hfield, rfl⟩)
    | inner houter ho htype hfield _ ih =>
      exact h.inner_placed honly (hfree houter) ih ho htype hfield
  have hs : (nestedGuide c under n).Admits s := by
    refine ⟨fun _ _ _ => trivial, fun x place hplace path hx => ?_⟩
    rw [hfree hx] at hplace
    cases hplace
  have hs' : (nestedGuide c under n).Admits s' := by
    refine sound_nestedGuide.admits h (fun t ht => ?_) hs
    obtain ⟨field, hfield, rfl⟩ := List.mem_map.mp ht
    exact fun o ho => ⟨[], rfl, .own ((hfields field).mpr hfield) ho⟩
  obtain ⟨place, hplace⟩ := Option.isSome_iff_exists.mp hplaced
  obtain ⟨around, haround, hpath⟩ := hs'.objects x place hplace path hx
  exact ⟨place, around, hplace, haround, hpath⟩

/-! ## The whole walk -/

/-- The fields of a type that is written as a struct are those listed. -/
theorem hasField_iff_of_struct {p : Program} {type : TypeId} {fields : List ObjectId} {x : ObjectId}
    (h : p.type type = .ok (.struct fields)) : p.HasField type x ↔ x ∈ fields := by
  have hderef : p.deref type = .ok type := bind_eq_ok_iff.mpr ⟨_, h, rfl⟩
  have hown : p.ownFields? type = .ok (some fields) := bind_eq_ok_iff.mpr ⟨_, h, rfl⟩
  constructor
  · rintro ⟨target, fields', htarget, hfields', hx⟩
    rw [hderef] at htarget
    cases htarget
    rw [hown] at hfields'
    cases hfields'
    exact hx
  · exact fun hx => ⟨type, fields, hderef, hown, hx⟩

/-- What lies below a type name that stands for a struct type: its methods, then its fields. -/
theorem below_of_namesStruct {p : Program} {t : ObjectId} {o : Object} {path : DefPath}
    {packageScope : Bool} {ts : List Pending} (hstruct : p.NamesStruct t under)
    (ho : p.object t = .ok o) (h : below p o path packageScope = .ok ts) :
    ∃ (type : TypeId) (methods fields : List ObjectId), p.Names t type ∧
      methodsOf p type = .ok methods ∧ (∀ x, p.HasField under x ↔ x ∈ fields) ∧
      ts = methods.map (.method · path packageScope) ++
        fields.map (.field · path packageScope) := by
  obtain ⟨type, fields, hnames, hunder, hfields⟩ := hstruct
  obtain ⟨o', ho', hkind, htype⟩ := id hnames
  rw [ho] at ho'
  cases ho'
  have hderef : p.deref under = .ok under := bind_eq_ok_iff.mpr ⟨_, hfields, rfl⟩
  have hown : p.ownFields? under = .ok (some fields) := bind_eq_ok_iff.mpr ⟨_, hfields, rfl⟩
  unfold below at h
  rw [htype, hkind] at h
  obtain ⟨methods, hmethods, h⟩ := bind_eq_ok_iff.mp h
  obtain ⟨under', hunder', h⟩ := bind_eq_ok_iff.mp h
  rw [hunder] at hunder'
  cases hunder'
  obtain ⟨target, htarget, h⟩ := bind_eq_ok_iff.mp h
  rw [hderef] at htarget
  cases htarget
  obtain ⟨fields?, hfields?, h⟩ := bind_eq_ok_iff.mp h
  rw [hown] at hfields?
  cases hfields?
  cases h
  exact ⟨type, methods, fields, hnames, hmethods, fun x => hasField_iff_of_struct hfields, rfl⟩

/-- Whatever is nested in a type name of the package has its place below the name, if the walk
cannot come to the type name or to anything nested in it before. (Where two fields share a struct
type without a name, its fields can be below one of them only.) -/
theorem place_of_nested {p : Program} {k : CheckedPackage} {labels : Labelling}
    {owner : Package} {found : Scope} {before after : List (String × ObjectId)} {t : ObjectId}
    (hc : PlacementContext.ofPackage p k labels = .ok c) (h : c.placePackage .empty = .ok s)
    (howner : p.package k.pkg = .ok owner) (hfound : p.scope owner.scope = .ok found)
    (hbindings : found.bindings = before ++ (n, t) :: after)
    (hstruct : p.NamesStruct t under) (hfield : ¬ p.IsField t)
    (hfree : ∀ x, (x = t ∨ ∃ path, p.Nested under x path) → ¬ p.Met (before.map Prod.snd) t x)
    {x : ObjectId} {path : DefPath} (hx : p.Nested under x path)
    (hone : ∀ other, p.Nested under x other → other = path) :
    ∃ place, s.place? x = some place ∧ place.path = n :: path := by
  obtain ⟨rfl, -, hpkg, -⟩ := ofPackage_eq_ok hc
  rw [← hpkg] at howner
  obtain ⟨found', s₄, hfound', hrun, hchildren⟩ := runs_bindings_of_placePackage h howner
  rw [hfound] at hfound'
  cases hfound'
  rw [hbindings] at hrun
  obtain ⟨s₁, hbefore, hrest⟩ := hrun.bindings_append
  have hs₁ : (metGuide c (before.map Prod.snd) t fun _ => False).Admits s₁ :=
    admits_of_bindings hbefore (fun b hb => List.mem_map_of_mem hb)
      ((Guide.admits_empty _).setScope trivial)
  cases hrest with
  | known hp _ =>
    exact absurd ((hs₁.objects _ _ hp).resolve_left id) (hfree t (.inl rfl))
  | binding _ ho hts hitems hafter =>
    obtain ⟨type, methods, fields, hnames, hmethods, hfields, rfl⟩ :=
      below_of_namesStruct hstruct ho hts
    obtain ⟨s₂, hmethodRun, hfieldRun⟩ := hitems.items_append
    have hs₂ : (metGuide c (before.map Prod.snd) t (· = t)).Admits s₂ := by
      have hstart : (metGuide c (before.map Prod.snd) t (· = t)).Admits s₁ :=
        ⟨fun _ _ _ => trivial,
          fun x place hplace => .inr ((hs₁.objects x place hplace).resolve_left id)⟩
      refine sound_metGuide.admits hmethodRun (fun item hitem => ?_) (hstart.record (.inl rfl))
      obtain ⟨m, hm, rfl⟩ := List.mem_map.mp hitem
      have hmethod : c.program.HasMethod type m := ⟨methods, hmethods, hm⟩
      exact ⟨.ownMethod hnames hmethod, hmethod.isMethod⟩
    obtain ⟨place, around, hplace, haround, hpath⟩ := nested_of_items hfields hfieldRun
      (fun {y path} hy => by
        cases hplace : s₂.place? y with
        | none => rfl
        | some place =>
          rcases hs₂.objects y place hplace with rfl | hmet
          · exact absurd hy.isField hfield
          · exact absurd hmet (hfree y (.inr ⟨path, hy⟩))) hx
    rw [hone around haround] at hpath
    exact ⟨place, (hafter.grows.trans hchildren.grows).places x place hplace, hpath⟩

end PlacementContext

/-! ## A variable in a method -/

/-- What the variable in the body of a type's method is: something else, or of the type without a
name that a field of the type has. -/
inductive Nesting where
  | clear
  | tangled
  deriving DecidableEq, Repr

namespace Nesting

/-- The type of the variable. -/
def varType : Nesting → Option TypeId
  | .clear => none
  | .tangled => some ⟨2⟩

/-- A type `T` with a field `f`, whose type is a struct without a name and has a field `x`, and with
a method `m`, in whose body there is a variable `v`. -/
def program (l : Nesting) : Program where
  sources := ⟨#[⟨"p.go", ""⟩]⟩
  tree := ⟨#[⟨.ident "p", ⟨0⟩, .upTo 1, some ⟨1⟩⟩, ⟨.file ⟨0⟩ [] none [], ⟨0⟩, .upTo 1, none⟩]⟩
  objects := #[⟨"T", .typeName, some ⟨0⟩, some ⟨0⟩, none, some ⟨0⟩⟩,
    ⟨"f", .field false, some ⟨0⟩, none, none, some ⟨2⟩⟩,
    ⟨"x", .field false, some ⟨0⟩, none, none, none⟩,
    ⟨"m", .func (some ⟨2⟩), some ⟨0⟩, none, none, none⟩,
    ⟨"v", .var, some ⟨0⟩, some ⟨2⟩, none, l.varType⟩]
  types := #[.named ⟨0⟩ (some ⟨1⟩) [⟨3⟩], .struct [⟨1⟩], .struct [⟨2⟩]]
  scopes := #[⟨none, [⟨1⟩], [("T", ⟨0⟩)]⟩, ⟨some ⟨0⟩, [⟨2⟩], []⟩, ⟨some ⟨1⟩, [], [("v", ⟨4⟩)]⟩]
  packages := #[⟨"p", "p", ⟨0⟩⟩]

/-- The package as it was checked. -/
def package : CheckedPackage where
  pkg := ⟨0⟩
  files := [⟨1⟩]
  facts := { Facts.empty with scopes := ⟨[(⟨1⟩, ⟨1⟩)]⟩ }

variable (l : Nesting)

/-- The type `T` is a struct. -/
theorem namesStruct : l.program.NamesStruct ⟨0⟩ ⟨1⟩ :=
  ⟨⟨0⟩, [⟨1⟩], ⟨_, rfl, rfl, rfl⟩, rfl, rfl⟩

/-- The two fields, with the struct types that they are fields of. -/
theorem eq_of_hasField {type : TypeId} {x : ObjectId} (h : l.program.HasField type x) :
    type = ⟨1⟩ ∧ x = ⟨1⟩ ∨ type = ⟨2⟩ ∧ x = ⟨2⟩ := by
  obtain ⟨target, fields, htarget, hfields, hx⟩ := h
  rcases type with ⟨_ | _ | _ | i⟩
  · cases htarget
    cases hfields
  · cases htarget
    cases hfields
    exact .inl ⟨rfl, List.mem_singleton.mp hx⟩
  · cases htarget
    cases hfields
    exact .inr ⟨rfl, List.mem_singleton.mp hx⟩
  · cases htarget

/-- There are two fields. -/
theorem eq_of_isField {x : ObjectId} (h : l.program.IsField x) : x = ⟨1⟩ ∨ x = ⟨2⟩ := by
  have hmem := h.mem_fieldList
  have hlist : l.program.fieldList = [⟨1⟩, ⟨2⟩] := rfl
  rw [hlist] at hmem
  simpa using hmem

/-- What is nested in the struct of `T`: the field `f`, and under it `x`. -/
theorem eq_of_nested {x : ObjectId} {path : DefPath} (h : l.program.Nested ⟨1⟩ x path) :
    x = ⟨1⟩ ∧ path = ["f"] ∨ x = ⟨2⟩ ∧ path = ["f", "x"] := by
  induction h with
  | own hfield ho =>
    rcases l.eq_of_hasField hfield with ⟨-, rfl⟩ | ⟨htype, -⟩
    · cases ho
      exact .inl ⟨rfl, rfl⟩
    · cases htype
  | inner _ haround htype hfield ho ih =>
    rcases ih with ⟨rfl, rfl⟩ | ⟨rfl, rfl⟩
    · cases haround
      cases htype
      rcases l.eq_of_hasField hfield with ⟨htype, -⟩ | ⟨-, rfl⟩
      · cases htype
      · cases ho
        exact .inr ⟨rfl, rfl⟩
    · cases haround
      cases htype

/-- The field `x` is nested in the struct of `T`. -/
theorem nested_x : l.program.Nested ⟨1⟩ ⟨2⟩ ["f", "x"] := by
  have hf : l.program.HasField ⟨1⟩ ⟨1⟩ := ⟨⟨1⟩, [⟨1⟩], rfl, rfl, List.mem_singleton_self _⟩
  have hx : l.program.HasField ⟨2⟩ ⟨2⟩ := ⟨⟨2⟩, [⟨2⟩], rfl, rfl, List.mem_singleton_self _⟩
  exact .inner (.own hf rfl) rfl rfl hx rfl

/-- The type name is no field. -/
theorem not_isField : ¬ l.program.IsField ⟨0⟩ := by
  intro h
  rcases l.eq_of_isField h with heq | heq <;> cases heq

/-- There is one way to the field `x`. -/
theorem eq_of_nested_x {other : DefPath} (h : l.program.Nested ⟨1⟩ ⟨2⟩ other) :
    other = ["f", "x"] := by
  rcases l.eq_of_nested h with ⟨heq, -⟩ | ⟨-, heq⟩
  · cases heq
  · exact heq

/-- Where the variable is something else, the walk comes only to it and to the method. -/
theorem eq_of_met {x : ObjectId} (h : Nesting.clear.program.Met [] ⟨0⟩ x) :
    x = ⟨3⟩ ∨ x = ⟨4⟩ := by
  have hnames : ∀ {obj type}, Nesting.clear.program.Names obj type → obj = ⟨0⟩ ∧ type = ⟨0⟩ := by
    rintro obj type ⟨o, ho, hkind, htype⟩
    have hall : ∀ y ∈ Nesting.clear.program.objectList, y.2.kind = .typeName →
        y.1 = ⟨0⟩ ∧ y.2.type = some ⟨0⟩ := by decide
    obtain ⟨rfl, htype'⟩ := hall _ (Program.mem_objectList ho) hkind
    rw [htype] at htype'
    exact ⟨rfl, Option.some.inj htype'⟩
  induction h with
  | bound hmem => cases hmem
  | ownMethod hname hmethod =>
    obtain ⟨-, rfl⟩ := hnames hname
    obtain ⟨methods, hmethods, hx⟩ := hmethod
    cases hmethods
    exact .inl (List.mem_singleton.mp hx)
  | method _ hname _ ih =>
    obtain ⟨rfl, -⟩ := hnames hname
    rcases ih with heq | heq <;> cases heq
  | typeField _ hname _ _ ih =>
    obtain ⟨rfl, -⟩ := hnames hname
    rcases ih with heq | heq <;> cases heq
  | field _ ho _ htype _ ih =>
    rcases ih with rfl | rfl
    · cases ho
      cases htype
    · cases ho
      cases htype
  | inBody _ _ howns hbelow hbinds ih =>
    obtain ⟨o, ho, hkind⟩ := howns
    rcases ih with rfl | rfl
    · cases ho
      cases hkind
      rcases hbelow.eq_or_child with rfl | ⟨child, ⟨found, hfound, hchild⟩, -⟩
      · obtain ⟨found, hfound, hmem⟩ := hbinds
        cases hfound
        exact .inr (Prod.mk.inj (List.mem_singleton.mp hmem)).2
      · cases hfound
        cases hchild
    · cases ho
      cases hkind

end Nesting

/-- Where the variable is something else, the inner field has its place below the type name. -/
theorem place_of_nested_clear : Nesting.clear.program.NamesStruct ⟨0⟩ ⟨1⟩ ∧
    (∀ x, (x = ⟨0⟩ ∨ ∃ path, Nesting.clear.program.Nested ⟨1⟩ x path) →
      ¬ Nesting.clear.program.Met [] ⟨0⟩ x) ∧
    Nesting.clear.program.Nested ⟨1⟩ ⟨2⟩ ["f", "x"] ∧
    ∃ c s place, PlacementContext.ofPackage Nesting.clear.program Nesting.package .deterministic
        = .ok c ∧ c.placePackage .empty = .ok s ∧ s.place? ⟨2⟩ = some place ∧
      place.path = ["T", "f", "x"] := by
  have hfree : ∀ x, (x = ⟨0⟩ ∨ ∃ path, Nesting.clear.program.Nested ⟨1⟩ x path) →
      ¬ Nesting.clear.program.Met [] ⟨0⟩ x := by
    rintro x (rfl | ⟨path, hx⟩) hmet
    · rcases Nesting.eq_of_met hmet with heq | heq <;> cases heq
    · rcases Nesting.clear.eq_of_nested hx with ⟨rfl, -⟩ | ⟨rfl, -⟩ <;>
        rcases Nesting.eq_of_met hmet with heq | heq <;> cases heq
  obtain ⟨c, s, hc, hs⟩ : ∃ c s, PlacementContext.ofPackage Nesting.clear.program Nesting.package
      .deterministic = .ok c ∧ c.placePackage .empty = .ok s := ⟨_, _, rfl, rfl⟩
  obtain ⟨place, hplace, hpath⟩ := PlacementContext.place_of_nested hc hs rfl rfl
    (List.nil_append _).symm Nesting.clear.namesStruct Nesting.clear.not_isField hfree
    Nesting.clear.nested_x fun _ => Nesting.clear.eq_of_nested_x
  exact ⟨Nesting.clear.namesStruct, hfree, Nesting.clear.nested_x, c, s, place, hc, hs, hplace,
    hpath⟩

/-- A variable in the body of the type's method that has the type without a name takes the inner
field, although every object is bound once, every field belongs to one struct type, the outer
struct type is that of one named type, and the type has no other name. -/
theorem place_of_nested_tangled :
    (∀ {scope scope' n n' x}, Nesting.tangled.program.Binds scope n x →
      Nesting.tangled.program.Binds scope' n' x → scope = scope' ∧ n = n') ∧
    (∀ {type type' fields fields' x}, Nesting.tangled.program.type type = .ok (.struct fields) →
      Nesting.tangled.program.type type' = .ok (.struct fields') → x ∈ fields → x ∈ fields' →
      type = type') ∧
    Nesting.tangled.program.Binds ⟨0⟩ "T" ⟨0⟩ ∧ Nesting.tangled.program.NamesStruct ⟨0⟩ ⟨1⟩ ∧
    (∀ {type name under methods}, Nesting.tangled.program.type type =
      .ok (.named name under methods) → type = ⟨0⟩) ∧
    (∀ {x}, Nesting.tangled.program.Names x ⟨0⟩ → x = ⟨0⟩) ∧
    (∀ {path}, Nesting.tangled.program.Nested ⟨1⟩ ⟨2⟩ path ↔ path = ["f", "x"]) ∧
    ∃ c s place, PlacementContext.ofPackage Nesting.tangled.program Nesting.package .deterministic
        = .ok c ∧ c.placePackage .empty = .ok s ∧ s.place? ⟨2⟩ = some place ∧
      place.path = ["T", "m", "v", "x"] := by
  refine ⟨fun ha hb => ?_, fun {type type'} => ?_, ⟨_, rfl, List.mem_singleton_self _⟩,
    Nesting.tangled.namesStruct, fun {type} => ?_, fun hx => ?_,
    ⟨Nesting.tangled.eq_of_nested_x, fun h => h ▸ Nesting.tangled.nested_x⟩,
    _, _, _, rfl, rfl, rfl, rfl⟩
  · have hall : ∀ x ∈ Nesting.tangled.program.bindingList,
        ∀ y ∈ Nesting.tangled.program.bindingList, x.2.2 = y.2.2 → x.1 = y.1 ∧ x.2.1 = y.2.1 := by
      decide
    exact hall _ ha.mem_bindingList _ hb.mem_bindingList rfl
  · intro fields fields' x htype htype' hx hx'
    have hfield := PlacementContext.hasField_iff_of_struct htype |>.mpr hx
    have hfield' := PlacementContext.hasField_iff_of_struct htype' |>.mpr hx'
    rcases Nesting.tangled.eq_of_hasField hfield with ⟨rfl, rfl⟩ | ⟨rfl, rfl⟩ <;>
      rcases Nesting.tangled.eq_of_hasField hfield' with ⟨rfl, heq⟩ | ⟨rfl, heq⟩ <;>
      first | rfl | cases heq
  · intro name under methods htype
    have hall : ∀ x ∈ Nesting.tangled.program.namedList, x.1 = ⟨0⟩ := by decide
    exact hall _ (Program.mem_namedList htype)
  · obtain ⟨o, ho, hkind, -⟩ := hx
    have hall : ∀ x ∈ Nesting.tangled.program.objectList, x.2.kind = .typeName → x.1 = ⟨0⟩ := by
      decide
    exact hall _ (Program.mem_objectList ho) hkind

end SymbolGraph
