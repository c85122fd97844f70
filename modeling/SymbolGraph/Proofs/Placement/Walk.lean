import SymbolGraph.Proofs.Placement.Shape

/-!
# The walk over the scopes as a relation

The walk that gives places to objects goes up and down between scopes, methods and fields, no
more than so many levels deep. Here it is a relation between a state, a task and the state
afterwards (`PlacementContext.Runs`), with one rule for each thing that can happen, so that what
is true of every walk is shown by induction on its rules. A walk that comes to an end is one of
the relation (`runs_placeUpTo`).

What holds of every walk:

* nothing is lost on the way, and an object keeps its first place (`Runs.grows`);
* at its end all scopes at or below those it was set on have a path, and all that they bind has
  a place (`Runs.done`);
* whatever it gave a place to, it also went on to what lies below (`Runs.settles`), so that the
  bodies of methods have their paths once the types have been placed (`bodiesEntered`).
-/

namespace SymbolGraph

/-! ## States -/

namespace Placements

variable {s t u : Placements}

/-- The place of an object after one has been given. -/
theorem place?_record (s : Placements) (obj obj' : ObjectId) (p : Placement) :
    (s.record obj p).place? obj' = if obj = obj' then some p else s.place? obj' :=
  Table.get?_insert s.objects obj' obj p

/-- An object has the place that it was given. -/
@[simp] theorem place?_record_self (s : Placements) (obj : ObjectId) (p : Placement) :
    (s.record obj p).place? obj = some p := by
  rw [place?_record, if_pos rfl]

/-- The path of a scope is no place of an object. -/
@[simp] theorem place?_setScope (s : Placements) (scope : ScopeId) (path : DefPath)
    (obj : ObjectId) : (s.setScope scope path).place? obj = s.place? obj := rfl

/-- The path of a scope after one has been given. -/
theorem get?_setScope (s : Placements) (scope scope' : ScopeId) (path : DefPath) :
    (s.setScope scope path).scopes.get? scope' =
      if scope = scope' then some path else s.scopes.get? scope' :=
  Table.get?_insert s.scopes scope' scope path

/-- Places stay as they are, and a scope that has a path keeps having one. -/
structure Grows (s t : Placements) : Prop where
  places : ∀ obj p, s.place? obj = some p → t.place? obj = some p
  scopes : ∀ scope, (s.scopes.get? scope).isSome → (t.scopes.get? scope).isSome

/-- A state grows into itself. -/
theorem Grows.refl (s : Placements) : Grows s s := ⟨fun _ _ h => h, fun _ h => h⟩

/-- Growth goes on. -/
theorem Grows.trans (hst : Grows s t) (htu : Grows t u) : Grows s u :=
  ⟨fun obj p h => htu.places obj p (hst.places obj p h),
    fun scope h => htu.scopes scope (hst.scopes scope h)⟩

/-- An object that has a place keeps having one. -/
theorem Grows.isSome_place? (h : Grows s t) {obj : ObjectId} (hs : (s.place? obj).isSome) :
    (t.place? obj).isSome := by
  obtain ⟨p, hp⟩ := Option.isSome_iff_exists.mp hs
  rw [h.places obj p hp]
  rfl

/-- Giving a scope a path keeps the places. -/
theorem Grows.setScope (s : Placements) (scope : ScopeId) (path : DefPath) :
    Grows s (s.setScope scope path) where
  places _ _ h := h
  scopes scope' h := by
    rw [get?_setScope]
    split
    · rfl
    · exact h

/-- Giving a place to an object that had none keeps the others. -/
theorem Grows.record {obj : ObjectId} (h : s.place? obj = none) (p : Placement) :
    Grows s (s.record obj p) where
  places obj' p' h' := by
    rw [place?_record, if_neg]
    · exact h'
    · rintro rfl
      rw [h] at h'
      cases h'
  scopes _ h := h

end Placements

open Text Placements

namespace PlacementContext

/-! ## Rules -/

/-- The body of a method, if it has one. -/
def bodyOf (o : Object) (path : DefPath) : List Pending :=
  match o.kind with
  | .func (some scope) => [.scope scope path false]
  | _ => []

/-- The fields of a field whose type is a struct without a name. -/
def fieldsBelow (p : Program) (o : Object) (path : DefPath) (packageScope : Bool) :
    Except Fault (List Pending) := do
  match o.type with
  | some type =>
    let fields ← p.ownFields? (← p.deref type)
    return (fields.getD []).map (.field · path packageScope)
  | none => return []

/-- The path of a child scope, told apart from those that earlier siblings have. -/
def toldApart (seen : List String) (i : Nat) (path : DefPath) : DefPath :=
  if joinStrings "/" path ∈ seen then suffixLast ("$" ++ toString i) path else path

/-- The paths of a scope's children, one child later. -/
def noted (seen : List String) (path : DefPath) : List String :=
  if path.isEmpty then seen else joinStrings "/" path :: seen

/-- What a walk is set on. -/
inductive Task where
  | item (t : Pending)
  | items (ts : List Pending)
  /-- The bindings of a scope that has its path, and what lies below it. -/
  | within (scope : ScopeId) (base : DefPath) (packageScope : Bool)
  /-- Some bindings of a scope. -/
  | bindings (scope : ScopeId) (base : DefPath) (packageScope : Bool)
      (list : List (String × ObjectId))
  /-- The children of a scope that come after those `before` them. -/
  | children (scope : ScopeId) (base : DefPath) (before : List ScopeId) (seen : List String)
      (rest : List ScopeId)

/-- What a walk makes of a state. -/
inductive Runs (c : PlacementContext) : Placements → Task → Placements → Prop
  | scope {s s' scope base packageScope} :
      Runs c (s.setScope scope base) (.within scope base packageScope) s' →
      Runs c s (.item (.scope scope base packageScope)) s'
  | within {s s₁ s' scope base packageScope found} :
      c.program.scope scope = .ok found →
      Runs c s (.bindings scope base packageScope found.bindings) s₁ →
      Runs c s₁ (.children scope base [] [] found.children) s' →
      Runs c s (.within scope base packageScope) s'
  | methodKnown {s obj base packageScope p} : s.place? obj = some p →
      Runs c s (.item (.method obj base packageScope)) s
  | method {s s' obj o base packageScope} : s.place? obj = none →
      c.program.object obj = .ok o →
      Runs c (s.record obj ⟨base ++ [o.name], isExported o.name, packageScope⟩)
        (.items (bodyOf o (base ++ [o.name]))) s' →
      Runs c s (.item (.method obj base packageScope)) s'
  | fieldKnown {s obj base packageScope p} : s.place? obj = some p →
      Runs c s (.item (.field obj base packageScope)) s
  | field {s s' obj o base packageScope ts} : s.place? obj = none →
      c.program.object obj = .ok o →
      fieldsBelow c.program o (base ++ [o.name]) packageScope = .ok ts →
      Runs c (s.record obj ⟨base ++ [o.name], isExported o.name, packageScope⟩) (.items ts) s' →
      Runs c s (.item (.field obj base packageScope)) s'
  | nil {s} : Runs c s (.items []) s
  | cons {s s₁ s' t ts} : Runs c s (.item t) s₁ → Runs c s₁ (.items ts) s' →
      Runs c s (.items (t :: ts)) s'
  | unbound {s scope base packageScope} : Runs c s (.bindings scope base packageScope []) s
  | known {s s' scope base packageScope name obj rest p} : s.place? obj = some p →
      Runs c s (.bindings scope base packageScope rest) s' →
      Runs c s (.bindings scope base packageScope ((name, obj) :: rest)) s'
  | binding {s s₁ s' scope base packageScope name obj rest o ts} : s.place? obj = none →
      c.program.object obj = .ok o →
      below c.program o (base ++ [name]) packageScope = .ok ts →
      Runs c (s.record obj ⟨base ++ [name], isExported name && packageScope, packageScope⟩)
        (.items ts) s₁ →
      Runs c s₁ (.bindings scope base packageScope rest) s' →
      Runs c s (.bindings scope base packageScope ((name, obj) :: rest)) s'
  | childless {s scope base before seen} : Runs c s (.children scope base before seen []) s
  | child {s s₁ s₂ s' scope base before seen child rest path} :
      c.scopePath s base child = .ok (path, s₁) →
      Runs c (s₁.setScope child (toldApart seen before.length path))
        (.within child (toldApart seen before.length path) false) s₂ →
      Runs c s₂ (.children scope base (before ++ [child]) (noted seen path) rest) s' →
      Runs c s (.children scope base before seen (child :: rest)) s'

variable {c : PlacementContext} {s s' : Placements}

/-! ## Items -/

/-- The fields that are to be placed for a type are its fields. -/
theorem mem_fieldItems {p : Program} {type target : TypeId} {path : DefPath}
    {packageScope : Bool} {fields? : Option (List ObjectId)} {t : Pending}
    (htarget : p.deref type = .ok target) (hfields : p.ownFields? target = .ok fields?)
    (ht : t ∈ (fields?.getD []).map (.field · path packageScope)) :
    ∃ obj, p.HasField type obj ∧ t = .field obj path packageScope := by
  obtain ⟨obj, hobj, rfl⟩ := List.mem_map.mp ht
  cases fields? with
  | none => cases hobj
  | some fields => exact ⟨obj, ⟨target, fields, htarget, hfields, hobj⟩, rfl⟩

/-- What is to be placed below a field are the fields of its type. -/
theorem mem_fieldsBelow {p : Program} {o : Object} {path : DefPath} {packageScope : Bool}
    {ts : List Pending} {t : Pending} (h : fieldsBelow p o path packageScope = .ok ts)
    (ht : t ∈ ts) :
    ∃ type obj, o.type = some type ∧ p.HasField type obj ∧ t = .field obj path packageScope := by
  unfold fieldsBelow at h
  split at h
  · rename_i type htype
    obtain ⟨target, htarget, h⟩ := bind_eq_ok_iff.mp h
    obtain ⟨fields?, hfields, h⟩ := bind_eq_ok_iff.mp h
    cases h
    obtain ⟨obj, hfield, rfl⟩ := mem_fieldItems htarget hfields ht
    exact ⟨type, obj, htype, hfield, rfl⟩
  · cases h
    cases ht

/-- What lies below an object that a scope binds. -/
inductive IsBelow (p : Program) (o : Object) (path : DefPath) (packageScope : Bool) :
    Pending → Prop
  | method {type : TypeId} {obj : ObjectId} : o.kind = .typeName → o.type = some type →
      p.HasMethod type obj → IsBelow p o path packageScope (.method obj path packageScope)
  | typeField {type under : TypeId} {obj : ObjectId} : o.kind = .typeName →
      o.type = some type → p.underlying type = .ok under → p.HasField under obj →
      IsBelow p o path packageScope (.field obj path packageScope)
  | varField {type : TypeId} {obj : ObjectId} : o.kind = .var → o.type = some type →
      p.HasField type obj → IsBelow p o path packageScope (.field obj path packageScope)

/-- What is to be placed below an object is told by the rules for it. -/
theorem mem_below {p : Program} {o : Object} {path : DefPath} {packageScope : Bool}
    {ts : List Pending} {t : Pending} (h : below p o path packageScope = .ok ts) (ht : t ∈ ts) :
    IsBelow p o path packageScope t := by
  unfold below at h
  split at h
  · rename_i type htype hkind
    obtain ⟨methods, hmethods, h⟩ := bind_eq_ok_iff.mp h
    obtain ⟨under, hunder, h⟩ := bind_eq_ok_iff.mp h
    obtain ⟨target, htarget, h⟩ := bind_eq_ok_iff.mp h
    obtain ⟨fields?, hfields, h⟩ := bind_eq_ok_iff.mp h
    cases h
    rcases List.mem_append.mp ht with ht | ht
    · obtain ⟨obj, hobj, rfl⟩ := List.mem_map.mp ht
      exact .method hkind htype ⟨methods, hmethods, hobj⟩
    · obtain ⟨obj, hfield, rfl⟩ := mem_fieldItems htarget hfields ht
      exact .typeField hkind htype hunder hfield
  · rename_i type htype hkind
    obtain ⟨target, htarget, h⟩ := bind_eq_ok_iff.mp h
    obtain ⟨fields?, hfields, h⟩ := bind_eq_ok_iff.mp h
    cases h
    obtain ⟨obj, hfield, rfl⟩ := mem_fieldItems htarget hfields ht
    exact .varField hkind htype hfield
  · cases h
    cases ht

/-- All methods of a type name are among what lies below it. -/
theorem method_mem_below {p : Program} {o : Object} {path : DefPath} {packageScope : Bool}
    {ts : List Pending} {type : TypeId} {obj : ObjectId}
    (h : below p o path packageScope = .ok ts) (hkind : o.kind = .typeName)
    (htype : o.type = some type) (hmethod : p.HasMethod type obj) :
    .method obj path packageScope ∈ ts := by
  unfold below at h
  rw [htype, hkind] at h
  obtain ⟨methods, hmethods, h⟩ := bind_eq_ok_iff.mp h
  obtain ⟨under, -, h⟩ := bind_eq_ok_iff.mp h
  obtain ⟨target, -, h⟩ := bind_eq_ok_iff.mp h
  obtain ⟨fields?, -, h⟩ := bind_eq_ok_iff.mp h
  cases h
  obtain ⟨methods', hmethods', hobj⟩ := hmethod
  rw [hmethods] at hmethods'
  cases hmethods'
  exact List.mem_append_left _ (List.mem_map.mpr ⟨obj, hobj, rfl⟩)

/-! ## Walks that come to an end -/

section Adequacy

variable {go : Placements → Pending → Except Fault Placements}

/-- Going through items one after another follows the rules. -/
theorem runs_items (hgo : ∀ {s t s'}, go s t = .ok s' → c.Runs s (.item t) s')
    {ts : List Pending} (h : inTurn go s ts = .ok s') : c.Runs s (.items ts) s' := by
  induction ts generalizing s with
  | nil =>
    cases h
    exact .nil
  | cons t ts ih =>
    obtain ⟨s₁, hfirst, hrest⟩ := bind_eq_ok_iff.mp h
    exact .cons (hgo hfirst) (ih hrest)

/-- Going through bindings one after another follows the rules. -/
theorem runs_bindings (hgo : ∀ {s t s'}, go s t = .ok s' → c.Runs s (.item t) s')
    {scope : ScopeId} {base : DefPath} {packageScope : Bool}
    {bindings : List (String × ObjectId)}
    (h : inTurn (c.placeBinding go base packageScope) s bindings = .ok s') :
    c.Runs s (.bindings scope base packageScope bindings) s' := by
  induction bindings generalizing s with
  | nil =>
    cases h
    exact .unbound
  | cons b rest ih =>
    obtain ⟨s₁, hfirst, hrest⟩ := bind_eq_ok_iff.mp h
    unfold placeBinding at hfirst
    cases hp : s.place? b.2 with
    | some p =>
      rw [hp] at hfirst
      cases hfirst
      exact .known hp (ih hrest)
    | none =>
      rw [hp] at hfirst
      obtain ⟨o, ho, hfirst⟩ := bind_eq_ok_iff.mp hfirst
      obtain ⟨ts, hts, hfirst⟩ := bind_eq_ok_iff.mp hfirst
      exact .binding hp ho hts (runs_items hgo hfirst) (ih hrest)

/-- Going through children one after another follows the rules. -/
theorem runs_children (hgo : ∀ {s t s'}, go s t = .ok s' → c.Runs s (.item t) s')
    {scope : ScopeId} {base : DefPath} {seen : List String} {rest before : List ScopeId}
    (h : c.placeChildren go base seen before.length s rest = .ok s') :
    c.Runs s (.children scope base before seen rest) s' := by
  induction rest generalizing s seen before with
  | nil =>
    cases h
    exact .childless
  | cons child rest ih =>
    unfold placeChildren at h
    obtain ⟨⟨path, s₁⟩, hpath, h⟩ := bind_eq_ok_iff.mp h
    have hlength : before.length + 1 = (before ++ [child]).length := by simp
    rw [hlength] at h
    have hstep : ∃ s₂, go s₁ (.scope child (toldApart seen before.length path) false) = .ok s₂ ∧
        c.placeChildren go base (noted seen path) (before ++ [child]).length s₂ rest = .ok s' := by
      dsimp only at h
      split at h
      · rename_i hempty
        obtain rfl := List.isEmpty_iff.mp hempty
        obtain ⟨s₂, hgo₂, h⟩ := bind_eq_ok_iff.mp h
        refine ⟨s₂, ?_, h⟩
        unfold toldApart suffixLast
        rw [ite_self]
        exact hgo₂
      · rename_i hempty
        obtain ⟨s₂, hgo₂, h⟩ := bind_eq_ok_iff.mp h
        refine ⟨s₂, hgo₂, ?_⟩
        unfold noted
        rw [if_neg hempty]
        exact h
    obtain ⟨s₂, hfirst, hrest⟩ := hstep
    cases hgo hfirst with
    | scope hwithin => exact .child hpath hwithin (ih hrest)

/-- A walk that comes to an end follows the rules. -/
theorem runs_placeUpTo {depth : Nat} {t : Pending} (h : c.placeUpTo depth s t = .ok s') :
    c.Runs s (.item t) s' := by
  induction depth generalizing s t s' with
  | zero => cases h
  | succ depth ih =>
    cases t with
    | scope scope base packageScope =>
      unfold placeUpTo at h
      obtain ⟨found, hfound, h⟩ := bind_eq_ok_iff.mp h
      obtain ⟨s₁, hbindings, hchildren⟩ := bind_eq_ok_iff.mp h
      have hfirst : c.placeChildren (c.placeUpTo depth) base [] ([] : List ScopeId).length s₁
          found.children = .ok s' := hchildren
      exact .scope (.within hfound (runs_bindings ih hbindings) (runs_children ih hfirst))
    | method obj base packageScope =>
      unfold placeUpTo at h
      cases hp : s.place? obj with
      | some p =>
        rw [hp] at h
        cases h
        exact .methodKnown hp
      | none =>
        rw [hp] at h
        obtain ⟨o, ho, h⟩ := bind_eq_ok_iff.mp h
        refine .method hp ho (runs_items ih ?_)
        unfold bodyOf
        cases hkind : o.kind with
        | func scope? =>
          simp only [hkind] at h
          cases scope? with
          | some scope => exact bind_eq_ok_iff.mpr ⟨s', h, rfl⟩
          | none => exact h
        | _ =>
          simp only [hkind] at h
          exact h
    | field obj base packageScope =>
      unfold placeUpTo at h
      cases hp : s.place? obj with
      | some p =>
        rw [hp] at h
        cases h
        exact .fieldKnown hp
      | none =>
        rw [hp] at h
        obtain ⟨o, ho, h⟩ := bind_eq_ok_iff.mp h
        cases htype : o.type with
        | none =>
          simp only [htype] at h
          cases h
          exact .field hp ho (by unfold fieldsBelow; rw [htype]; rfl) .nil
        | some type =>
          simp only [htype] at h
          obtain ⟨target, htarget, h⟩ := bind_eq_ok_iff.mp h
          obtain ⟨fields, hfields, h⟩ := bind_eq_ok_iff.mp h
          refine .field hp ho ?_ (runs_items ih h)
          unfold fieldsBelow
          rw [htype]
          exact bind_eq_ok_iff.mpr ⟨target, htarget, bind_eq_ok_iff.mpr ⟨fields, hfields, rfl⟩⟩

end Adequacy

/-- Placing all objects of a package is a walk from its scope. -/
theorem runs_placePackage (h : c.placePackage s = .ok s') :
    ∃ owner, c.program.package c.pkg = .ok owner ∧
      c.Runs s (.item (.scope owner.scope [] true)) s' := by
  obtain ⟨owner, howner, h⟩ := bind_eq_ok_iff.mp h
  exact ⟨owner, howner, runs_placeUpTo h⟩

/-! ## What holds of every walk -/

/-- Looking up the path of a scope gives it one, at most. -/
theorem scopePath_eq_ok {base path : DefPath} {scope : ScopeId}
    (h : c.scopePath s base scope = .ok (path, s')) :
    (s.scopes.get? scope = some path ∧ s' = s) ∨
      s.scopes.get? scope = none ∧ s'.objects = s.objects ∧
        s'.scopes = s.scopes.insert scope path ∧
        ((∃ label, c.scopeLabel? scope = .ok (some label) ∧ path = base ++ label) ∨
          c.scopeLabel? scope = .ok none ∧ path = base ++ [madeUpLabel c.labels s.madeUp]) := by
  unfold scopePath at h
  cases hknown : s.scopes.get? scope with
  | some known =>
    rw [hknown] at h
    cases h
    exact .inl ⟨rfl, rfl⟩
  | none =>
    rw [hknown] at h
    obtain ⟨label?, hlabel, h⟩ := bind_eq_ok_iff.mp h
    cases label? with
    | some label =>
      cases h
      exact .inr ⟨rfl, rfl, rfl, .inl ⟨label, hlabel, rfl⟩⟩
    | none =>
      cases h
      exact .inr ⟨rfl, rfl, rfl, .inr ⟨hlabel, rfl⟩⟩

/-- Finding the path of a scope gives no object a place. -/
theorem place?_of_scopePath {base path : DefPath} {scope : ScopeId}
    (h : c.scopePath s base scope = .ok (path, s')) (obj : ObjectId) :
    s'.place? obj = s.place? obj := by
  rcases scopePath_eq_ok h with ⟨-, rfl⟩ | ⟨-, hobjects, -⟩
  · rfl
  · unfold place?
    rw [hobjects]

/-- Finding the path of a scope does not change that of another. -/
theorem get?_of_scopePath {base path : DefPath} {scope other : ScopeId}
    (h : c.scopePath s base scope = .ok (path, s')) (hne : scope ≠ other) :
    s'.scopes.get? other = s.scopes.get? other := by
  rcases scopePath_eq_ok h with ⟨-, rfl⟩ | ⟨-, -, hscopes, -⟩
  · rfl
  · rw [hscopes, Table.get?_insert_of_ne _ hne]

/-- Finding the path of a scope loses nothing. -/
theorem grows_of_scopePath {base path : DefPath} {scope : ScopeId}
    (h : c.scopePath s base scope = .ok (path, s')) : Grows s s' where
  places obj p hp := by
    rw [place?_of_scopePath h]
    exact hp
  scopes other hother := by
    rcases scopePath_eq_ok h with ⟨-, rfl⟩ | ⟨-, -, hscopes, -⟩
    · exact hother
    · rw [hscopes, Table.get?_insert]
      split
      · rfl
      · exact hother

/-- Nothing is lost on the way. -/
theorem Runs.grows {task : Task} (h : c.Runs s task s') : Grows s s' := by
  induction h with
  | scope _ ih => exact (Grows.setScope _ _ _).trans ih
  | within _ _ _ ih₁ ih₂ => exact ih₁.trans ih₂
  | methodKnown _ => exact Grows.refl _
  | method hp _ _ ih => exact (Grows.record hp _).trans ih
  | fieldKnown _ => exact Grows.refl _
  | field hp _ _ _ ih => exact (Grows.record hp _).trans ih
  | nil => exact Grows.refl _
  | cons _ _ ih₁ ih₂ => exact ih₁.trans ih₂
  | unbound => exact Grows.refl _
  | known _ _ ih => exact ih
  | binding hp _ _ _ _ ih₁ ih₂ => exact ((Grows.record hp _).trans ih₁).trans ih₂
  | childless => exact Grows.refl _
  | child hpath _ _ ih₁ ih₂ =>
    exact ((grows_of_scopePath hpath).trans ((Grows.setScope _ _ _).trans ih₁)).trans ih₂

/-! ### Scopes and bindings -/

/-- A scope has a path, and all that it binds has a place. -/
def Covered (c : PlacementContext) (s : Placements) (scope : ScopeId) : Prop :=
  (s.scopes.get? scope).isSome ∧
    ∀ found, c.program.scope scope = .ok found → ∀ b ∈ found.bindings, (s.place? b.2).isSome

/-- A scope that is covered stays so. -/
theorem Covered.grows {scope : ScopeId} (h : c.Covered s scope) (hgrows : Grows s s') :
    c.Covered s' scope :=
  ⟨hgrows.scopes scope h.1, fun found hfound b hb =>
    hgrows.isSome_place? (h.2 found hfound b hb)⟩

/-- What was to be placed has been placed. -/
def Handled (c : PlacementContext) (s : Placements) : Pending → Prop
  | .scope scope _ _ => ∀ other, c.program.Below scope other → c.Covered s other
  | .method obj _ _ => (s.place? obj).isSome
  | .field obj _ _ => (s.place? obj).isSome

/-- What has been handled stays so. -/
theorem Handled.grows {t : Pending} (h : c.Handled s t) (hgrows : Grows s s') :
    c.Handled s' t := by
  cases t with
  | scope scope base packageScope => exact fun other hother => (h other hother).grows hgrows
  | method obj base packageScope => exact hgrows.isSome_place? h
  | field obj base packageScope => exact hgrows.isSome_place? h

/-- What a walk was set on is done. -/
def Task.Done (c : PlacementContext) (s : Placements) : Task → Prop
  | .item t => c.Handled s t
  | .items ts => ∀ t ∈ ts, c.Handled s t
  | .within scope base packageScope =>
    (s.scopes.get? scope).isSome → c.Handled s (.scope scope base packageScope)
  | .bindings _ _ _ list => ∀ b ∈ list, (s.place? b.2).isSome
  | .children _ _ _ _ rest => ∀ child ∈ rest, ∀ other, c.program.Below child other →
      c.Covered s other

/-- At the end of a walk what it was set on is done. -/
theorem Runs.done {task : Task} (h : c.Runs s task s') : task.Done c s' := by
  induction h with
  | scope hrun ih =>
    refine ih (hrun.grows.scopes _ ?_)
    rw [get?_setScope, if_pos rfl]
    rfl
  | within hfound _ hchildren ih₁ ih₂ =>
    intro hpath other hother
    rcases hother.eq_or_child with rfl | ⟨child, ⟨found', hfound', hchild⟩, hbelow⟩
    · refine ⟨hpath, fun found' hfound' b hb => ?_⟩
      rw [hfound] at hfound'
      cases hfound'
      exact hchildren.grows.isSome_place? (ih₁ b hb)
    · rw [hfound] at hfound'
      cases hfound'
      exact ih₂ child hchild other hbelow
  | methodKnown hp => exact Option.isSome_iff_exists.mpr ⟨_, hp⟩
  | method hp _ hrun _ =>
    refine hrun.grows.isSome_place? ?_
    rw [place?_record_self]
    rfl
  | fieldKnown hp => exact Option.isSome_iff_exists.mpr ⟨_, hp⟩
  | field hp _ _ hrun _ =>
    refine hrun.grows.isSome_place? ?_
    rw [place?_record_self]
    rfl
  | nil => exact fun t ht => absurd ht List.not_mem_nil
  | cons _ hrest ih₁ ih₂ =>
    intro t ht
    rcases List.mem_cons.mp ht with rfl | ht
    · exact Handled.grows ih₁ hrest.grows
    · exact ih₂ t ht
  | unbound => exact fun b hb => absurd hb List.not_mem_nil
  | known hp hrest ih =>
    intro b hb
    rcases List.mem_cons.mp hb with rfl | hb
    · refine hrest.grows.isSome_place? ?_
      rw [hp]
      rfl
    · exact ih b hb
  | binding _ _ _ hitems hrest _ ih =>
    intro b hb
    rcases List.mem_cons.mp hb with rfl | hb
    · refine (hitems.grows.trans hrest.grows).isSome_place? ?_
      rw [place?_record_self]
      rfl
    · exact ih b hb
  | childless => exact fun child hchild => absurd hchild List.not_mem_nil
  | child _ hwithin hrest ih₁ ih₂ =>
    intro child hchild other hother
    rcases List.mem_cons.mp hchild with rfl | hchild
    · refine (ih₁ (hwithin.grows.scopes _ ?_) other hother).grows hrest.grows
      rw [get?_setScope, if_pos rfl]
      rfl
    · exact ih₂ child hchild other hother

/-! ### What was gone on to -/

/-- A method or field that is to be placed is in the list of a type. -/
def Listed (p : Program) : Pending → Prop
  | .scope .. => True
  | .method obj _ _ => p.IsMethod obj
  | .field obj _ _ => p.IsField obj

/-- The body of a method may be taken up. -/
theorem listed_of_mem_bodyOf {p : Program} {o : Object} {path : DefPath} {t : Pending}
    (h : t ∈ bodyOf o path) : Listed p t := by
  unfold bodyOf at h
  split at h
  · obtain rfl := List.mem_singleton.mp h
    trivial
  · cases h

/-- The fields of a field may be taken up. -/
theorem listed_of_mem_fieldsBelow {p : Program} {o : Object} {path : DefPath}
    {packageScope : Bool} {ts : List Pending} {t : Pending}
    (h : fieldsBelow p o path packageScope = .ok ts) (ht : t ∈ ts) : Listed p t := by
  obtain ⟨type, obj, -, hfield, rfl⟩ := mem_fieldsBelow h ht
  exact hfield.isField

/-- What lies below an object may be taken up. -/
theorem listed_of_mem_below {p : Program} {o : Object} {path : DefPath} {packageScope : Bool}
    {ts : List Pending} {t : Pending} (h : below p o path packageScope = .ok ts) (ht : t ∈ ts) :
    Listed p t := by
  cases mem_below h ht with
  | method _ _ hmethod => exact hmethod.isMethod
  | typeField _ _ _ hfield => exact hfield.isField
  | varField _ _ hfield => exact hfield.isField

/-- What a walk is set on is there. -/
def Task.Listed (c : PlacementContext) : Task → Prop
  | .item t => PlacementContext.Listed c.program t
  | .items ts => ∀ t ∈ ts, PlacementContext.Listed c.program t
  | .within .. => True
  | .bindings scope _ _ list =>
    ∃ found, c.program.scope scope = .ok found ∧ ∀ b ∈ list, b ∈ found.bindings
  | .children .. => True

/-- How an object came by its place, and that what lies below it has been gone on to. -/
inductive Settled (c : PlacementContext) (s : Placements) (obj : ObjectId) : Prop
  | bound {scope : ScopeId} {found : Scope} {name : String} {o : Object} {path : DefPath}
      {packageScope : Bool} {ts : List Pending} (hfound : c.program.scope scope = .ok found)
      (hmem : (name, obj) ∈ found.bindings) (ho : c.program.object obj = .ok o)
      (hbelow : below c.program o path packageScope = .ok ts)
      (hhandled : ∀ t ∈ ts, c.Handled s t)
  | method {o : Object} {path : DefPath} (hmethod : c.program.IsMethod obj)
      (ho : c.program.object obj = .ok o) (hhandled : ∀ t ∈ bodyOf o path, c.Handled s t)
  | field (hfield : c.program.IsField obj)

/-- An object that is settled stays so. -/
theorem Settled.grows {obj : ObjectId} (h : c.Settled s obj) (hgrows : Grows s s') :
    c.Settled s' obj := by
  cases h with
  | bound hfound hmem ho hbelow hhandled =>
    exact .bound hfound hmem ho hbelow fun t ht => (hhandled t ht).grows hgrows
  | method hmethod ho hhandled => exact .method hmethod ho fun t ht => (hhandled t ht).grows hgrows
  | field hfield => exact .field hfield

/-- Whatever has got a place in between is settled. -/
def Settles (c : PlacementContext) (s s' : Placements) : Prop :=
  ∀ obj, s.place? obj = none → (s'.place? obj).isSome → c.Settled s' obj

/-- Where no object gets a place, none has to be settled. -/
theorem Settles.of_place?_eq (h : ∀ obj, s'.place? obj = s.place? obj) : c.Settles s s' := by
  intro obj hnone hsome
  rw [h, hnone] at hsome
  cases hsome

/-- Two stretches of a walk that settle what they place do so together. -/
theorem Settles.trans {s₁ : Placements} (h : c.Settles s s₁) (hgrows : Grows s₁ s')
    (h' : c.Settles s₁ s') : c.Settles s s' := by
  intro obj hnone hsome
  cases hmid : s₁.place? obj with
  | none => exact h' obj hmid hsome
  | some p =>
    refine (h obj hnone ?_).grows hgrows
    rw [hmid]
    rfl

/-- An object that is settled at the end of a walk may be given its place at the start. -/
theorem Settles.record {obj : ObjectId} {p : Placement} (hobj : c.Settled s' obj)
    (h : c.Settles (s.record obj p) s') : c.Settles s s' := by
  intro other hnone hsome
  by_cases heq : obj = other
  · subst heq
    exact hobj
  · refine h other ?_ hsome
    rw [place?_record, if_neg heq]
    exact hnone

/-- Whatever a walk gives a place to, it settles. -/
theorem Runs.settles {task : Task} (h : c.Runs s task s') (hlisted : task.Listed c) :
    c.Settles s s' := by
  induction h with
  | scope _ ih => exact ih trivial
  | within hfound _ hchildren ih₁ ih₂ =>
    exact (ih₁ ⟨_, hfound, fun _ hb => hb⟩).trans hchildren.grows (ih₂ trivial)
  | methodKnown _ => exact .of_place?_eq fun _ => rfl
  | method _ ho hrun ih =>
    exact .record (.method hlisted ho hrun.done) (ih fun t ht => listed_of_mem_bodyOf ht)
  | fieldKnown _ => exact .of_place?_eq fun _ => rfl
  | field _ _ hts _ ih =>
    exact .record (.field hlisted) (ih fun t ht => listed_of_mem_fieldsBelow hts ht)
  | nil => exact .of_place?_eq fun _ => rfl
  | cons _ hrest ih₁ ih₂ =>
    exact (ih₁ (hlisted _ List.mem_cons_self)).trans hrest.grows
      (ih₂ fun t ht => hlisted t (List.mem_cons_of_mem _ ht))
  | unbound => exact .of_place?_eq fun _ => rfl
  | known _ _ ih =>
    obtain ⟨found, hfound, hmem⟩ := hlisted
    exact ih ⟨found, hfound, fun b hb => hmem b (List.mem_cons_of_mem _ hb)⟩
  | binding _ ho hts hitems hrest ih₁ ih₂ =>
    obtain ⟨found, hfound, hmem⟩ := hlisted
    refine Settles.trans (.record ?_ (ih₁ fun t ht => listed_of_mem_below hts ht)) hrest.grows
      (ih₂ ⟨found, hfound, fun b hb => hmem b (List.mem_cons_of_mem _ hb)⟩)
    exact .bound hfound (hmem _ List.mem_cons_self) ho hts hitems.done
  | childless => exact .of_place?_eq fun _ => rfl
  | child hpath hwithin hrest ih₁ ih₂ =>
    refine Settles.trans (Settles.trans (.of_place?_eq fun obj => ?_) hwithin.grows (ih₁ trivial))
      hrest.grows (ih₂ trivial)
    rw [place?_setScope]
    exact place?_of_scopePath hpath obj

/-! ### Packages -/

/-- The context of a package has the package's own program, facts and number, and the origins made
from the facts. -/
theorem ofPackage_eq_ok {p : Program} {k : CheckedPackage} {labels : Labelling}
    (hc : PlacementContext.ofPackage p k labels = .ok c) :
    c.program = p ∧ c.facts = k.facts ∧ c.pkg = k.pkg ∧
      ScopeOrigins.ofFacts p k.facts = .ok c.origins := by
  obtain ⟨origins, horigins, hc⟩ := bind_eq_ok_iff.mp hc
  cases hc
  exact ⟨rfl, rfl, rfl, horigins⟩

/-- Placing all objects of a package goes through the bindings of its scope, then to the scopes
below. -/
theorem runs_bindings_of_placePackage {owner : Package} (h : c.placePackage s = .ok s')
    (howner : c.program.package c.pkg = .ok owner) :
    ∃ found s₁, c.program.scope owner.scope = .ok found ∧
      c.Runs (s.setScope owner.scope []) (.bindings owner.scope [] true found.bindings) s₁ ∧
      c.Runs s₁ (.children owner.scope [] [] [] found.children) s' := by
  obtain ⟨owner', howner', hrun⟩ := runs_placePackage h
  rw [howner] at howner'
  cases howner'
  cases hrun with
  | scope hwithin =>
    cases hwithin with
    | within hfound hbindings hchildren => exact ⟨_, _, hfound, hbindings, hchildren⟩

/-- When the objects of a package are placed, every scope at or below its scope is covered. -/
theorem covered_of_placePackage {owner : Package} (h : c.placePackage s = .ok s')
    (howner : c.program.package c.pkg = .ok owner) {scope : ScopeId}
    (hbelow : c.program.Below owner.scope scope) : c.Covered s' scope := by
  obtain ⟨owner', howner', hrun⟩ := runs_placePackage h
  rw [howner] at howner'
  cases howner'
  exact hrun.done scope hbelow

/-! ### Bodies of methods -/

/-- The bodies of the methods of the types that a scope names have their paths. -/
def BodiesEntered (p : Program) (top : ScopeId) (s : Placements) : Prop :=
  ∀ name typeName type method scope, p.Binds top name typeName → p.Names typeName type →
    p.HasMethod type method → p.OwnsScope method scope → (s.scopes.get? scope).isSome

/-- Bodies that have their paths keep having paths. -/
theorem BodiesEntered.grows {p : Program} {top : ScopeId} (h : BodiesEntered p top s)
    (hgrows : Grows s s') : BodiesEntered p top s' :=
  fun _ _ _ _ _ hbinds hnames hmethod hown =>
    hgrows.scopes _ (h _ _ _ _ _ hbinds hnames hmethod hown)

/-- A scope without a path is not the body of such a method. -/
theorem BodiesEntered.not_hasMethod {p : Program} {top scope : ScopeId} {name : String}
    {typeName method : ObjectId} {type : TypeId} (h : BodiesEntered p top s)
    (hnone : s.scopes.get? scope = none) (hown : p.OwnsScope method scope)
    (hbinds : p.Binds top name typeName) (hnames : p.Names typeName type) :
    ¬ p.HasMethod type method := by
  intro hmethod
  have hsome := h _ _ _ _ _ hbinds hnames hmethod hown
  rw [hnone] at hsome
  cases hsome

/-- When all that a scope binds has been placed, the bodies of methods have their paths. -/
theorem bodiesEntered (hmembers : c.program.Members) {top : ScopeId} {found : Scope}
    (hfound : c.program.scope top = .ok found)
    (hrun : c.Runs (Placements.empty.setScope top []) (.bindings top [] true found.bindings) s) :
    BodiesEntered c.program top s := by
  intro name typeName type method scope hbinds hnames hmethod hown
  have hsettled := hrun.settles ⟨found, hfound, fun _ hb => hb⟩
  obtain ⟨o, ho, hkind, htype⟩ := hnames
  obtain ⟨m, hm, hmkind⟩ := hown
  have hplaced : (s.place? typeName).isSome := by
    obtain ⟨found', hfound', hmem⟩ := hbinds
    rw [hfound] at hfound'
    cases hfound'
    exact hrun.done _ hmem
  have hmethodPlaced : (s.place? method).isSome := by
    cases hsettled typeName rfl hplaced with
    | bound _ _ ho' hbelow hhandled =>
      rw [ho] at ho'
      cases ho'
      exact hhandled _ (method_mem_below hbelow hkind htype hmethod)
    | method hisMethod _ _ =>
      obtain ⟨scope?, hfunc⟩ := hmembers.methodKind hisMethod ho
      rw [hkind] at hfunc
      cases hfunc
    | field hisField =>
      obtain ⟨embedded, hfield⟩ := hmembers.fieldKind hisField ho
      rw [hkind] at hfield
      cases hfield
  cases hsettled method rfl hmethodPlaced with
  | bound hfound' hmem _ _ _ =>
    exact absurd ⟨_, hfound', hmem⟩ (hmembers.methodUnbound hmethod.isMethod)
  | method _ hm' hhandled =>
    rw [hm] at hm'
    cases hm'
    unfold bodyOf at hhandled
    rw [hmkind] at hhandled
    exact (hhandled _ List.mem_cons_self scope .refl).1
  | field hisField =>
    obtain ⟨embedded, hfield⟩ := hmembers.fieldKind hisField hm
    rw [hmkind] at hfield
    cases hfield

end PlacementContext

end SymbolGraph
