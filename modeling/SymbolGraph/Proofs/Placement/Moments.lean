import SymbolGraph.Proofs.Placement.Termination
import SymbolGraph.Proofs.Program.Building

/-!
# Places are given out once

The walk over the scopes goes on from moment to moment. At each, certain places have been given out
and certain tasks are left (`PlacementContext.Moment`), of which the first one is taken up next
(`PlacementContext.advance`). However deep the walk goes, there is nothing here that counts levels.

A walk that follows the rules passes through such moments (`leads_of_runs`). As there is but one way
to go on, a walk that comes to an end does so from each of its moments (`Leads.ends`), and what is
known of single steps holds between any two of them: an object keeps the place that it was given
(`Leads.grows`). In a program that is put together by calls, where no name stands for itself by way
of others, this is so for every package, whatever types contain themselves and wherever methods have
their scopes (`placed_once_of_builds`).
-/

namespace SymbolGraph

open Text Placements

namespace PlacementContext

variable {c : PlacementContext} {s s' : Placements} {task : Task}

/-! ## Moments -/

/-- A moment of a walk: the places given out so far, and the tasks left, the next one first. -/
structure Moment where
  places : Placements
  tasks : List Task

/-- What the next task makes of the places at once, and the tasks that have to follow for it. -/
def advance (c : PlacementContext) (s : Placements) : Task → Except Fault (Placements × List Task)
  | .item (.scope scope base packageScope) =>
    return (s.setScope scope base, [.within scope base packageScope])
  | .item (.method obj base packageScope) =>
    match s.place? obj with
    | some _ => return (s, [])
    | none => do
      let o ← c.program.object obj
      let path := base ++ [o.name]
      return (s.record obj ⟨path, isExported o.name, packageScope⟩, [.items (bodyOf o path)])
  | .item (.field obj base packageScope) =>
    match s.place? obj with
    | some _ => return (s, [])
    | none => do
      let o ← c.program.object obj
      let path := base ++ [o.name]
      let ts ← fieldsBelow c.program o path packageScope
      return (s.record obj ⟨path, isExported o.name, packageScope⟩, [.items ts])
  | .items [] => return (s, [])
  | .items (t :: ts) => return (s, [.item t, .items ts])
  | .within scope base packageScope => do
    let found ← c.program.scope scope
    return (s, [.bindings scope base packageScope found.bindings,
      .children scope base [] [] found.children])
  | .bindings _ _ _ [] => return (s, [])
  | .bindings scope base packageScope ((name, obj) :: rest) =>
    match s.place? obj with
    | some _ => return (s, [.bindings scope base packageScope rest])
    | none => do
      let o ← c.program.object obj
      let path := base ++ [name]
      let ts ← below c.program o path packageScope
      return (s.record obj ⟨path, isExported name && packageScope, packageScope⟩,
        [.items ts, .bindings scope base packageScope rest])
  | .children _ _ _ _ [] => return (s, [])
  | .children scope base before seen (child :: rest) => do
    let (path, s) ← c.scopePath s base child
    let own := toldApart seen before.length path
    return (s.setScope child own, [.within child own false,
      .children scope base (before ++ [child]) (noted seen path) rest])

/-- The next moment is the one at which the next task has been taken up. -/
inductive Next (c : PlacementContext) : Moment → Moment → Prop
  | intro {s s' : Placements} {task : Task} {tasks rest : List Task} :
      c.advance s task = .ok (s', tasks) → Next c ⟨s, task :: rest⟩ ⟨s', tasks ++ rest⟩

/-- A moment leads to another if the walk comes from one to the other. -/
def Leads (c : PlacementContext) : Moment → Moment → Prop := Relation.ReflTransGen c.Next

/-- There is but one way to go on. -/
theorem Next.unique {m m₁ m₂ : Moment} (h₁ : c.Next m m₁) (h₂ : c.Next m m₂) : m₁ = m₂ := by
  cases h₁ with
  | intro h₁ =>
    cases h₂ with
    | intro h₂ =>
      rw [h₁] at h₂
      cases h₂
      rfl

/-- Where no task is left, the walk is at its end. -/
theorem not_next_end {m : Moment} : ¬ c.Next ⟨s, []⟩ m := by
  intro h
  cases h

/-! ## Nothing is lost -/

/-- Taking up a task keeps all places. -/
theorem grows_of_advance {tasks : List Task} (h : c.advance s task = .ok (s', tasks)) :
    Grows s s' := by
  cases task with
  | item t =>
    cases t with
    | scope scope base packageScope =>
      cases h
      exact .setScope s scope base
    | method obj base packageScope =>
      rw [advance] at h
      cases hp : s.place? obj with
      | some p =>
        rw [hp] at h
        cases h
        exact .refl s
      | none =>
        rw [hp] at h
        obtain ⟨o, -, h⟩ := bind_eq_ok_iff.mp h
        cases h
        exact .record hp _
    | field obj base packageScope =>
      rw [advance] at h
      cases hp : s.place? obj with
      | some p =>
        rw [hp] at h
        cases h
        exact .refl s
      | none =>
        rw [hp] at h
        obtain ⟨o, -, h⟩ := bind_eq_ok_iff.mp h
        obtain ⟨ts, -, h⟩ := bind_eq_ok_iff.mp h
        cases h
        exact .record hp _
  | items ts =>
    cases ts <;> cases h <;> exact .refl s
  | within scope base packageScope =>
    obtain ⟨found, -, h⟩ := bind_eq_ok_iff.mp h
    cases h
    exact .refl s
  | bindings scope base packageScope list =>
    cases list with
    | nil =>
      cases h
      exact .refl s
    | cons b rest =>
      obtain ⟨name, obj⟩ := b
      rw [advance] at h
      cases hp : s.place? obj with
      | some p =>
        rw [hp] at h
        cases h
        exact .refl s
      | none =>
        rw [hp] at h
        obtain ⟨o, -, h⟩ := bind_eq_ok_iff.mp h
        obtain ⟨ts, -, h⟩ := bind_eq_ok_iff.mp h
        cases h
        exact .record hp _
  | children scope base before seen list =>
    cases list with
    | nil =>
      cases h
      exact .refl s
    | cons child rest =>
      obtain ⟨⟨path, s₁⟩, hpath, h⟩ := bind_eq_ok_iff.mp h
      cases h
      exact (grows_of_scopePath hpath).trans (.setScope s₁ child _)

/-- A step keeps the places that have been given. -/
theorem Next.grows {m m' : Moment} (h : c.Next m m') : Grows m.places m'.places := by
  cases h with
  | intro h => exact grows_of_advance h

/-- An object keeps its place from any moment on. -/
theorem Leads.grows {m m' : Moment} (h : c.Leads m m') : Grows m.places m'.places := by
  induction h with
  | refl => exact .refl _
  | tail _ hnext ih => exact ih.trans hnext.grows

/-! ## From rules to moments -/

/-- One step more before a way that leads to a moment. -/
theorem Leads.next {rest tasks : List Task} {m : Moment} (h : c.advance s task = .ok (s', tasks))
    (hrest : c.Leads ⟨s', tasks ++ rest⟩ m) : c.Leads ⟨s, task :: rest⟩ m :=
  Relation.ReflTransGen.head (.intro h) hrest

/-- A walk that follows the rules for a task goes on until the task is done, and leaves the others
alone. -/
theorem leads_of_runs (h : c.Runs s task s') (rest : List Task) :
    c.Leads ⟨s, task :: rest⟩ ⟨s', rest⟩ := by
  -- a part of a walk has the parts after it among the tasks left
  induction h generalizing rest with
  | scope _ ih => exact .next rfl (ih rest)
  | within hfound _ _ ih₁ ih₂ =>
    exact .next (bind_eq_ok_iff.mpr ⟨_, hfound, rfl⟩) ((ih₁ _).trans (ih₂ rest))
  | @methodKnown s obj base packageScope p hp =>
    have hstep : c.advance s (.item (.method obj base packageScope)) = .ok (s, []) := by
      rw [advance, hp]
      rfl
    exact .next hstep .refl
  | @method s s' obj o base packageScope hp ho _ ih =>
    have hstep : c.advance s (.item (.method obj base packageScope)) =
        .ok (s.record obj ⟨base ++ [o.name], isExported o.name, packageScope⟩,
          [.items (bodyOf o (base ++ [o.name]))]) := by
      rw [advance, hp]
      exact bind_eq_ok_iff.mpr ⟨o, ho, rfl⟩
    exact .next hstep (ih rest)
  | @fieldKnown s obj base packageScope p hp =>
    have hstep : c.advance s (.item (.field obj base packageScope)) = .ok (s, []) := by
      rw [advance, hp]
      rfl
    exact .next hstep .refl
  | @field s s' obj o base packageScope ts hp ho hts _ ih =>
    have hstep : c.advance s (.item (.field obj base packageScope)) =
        .ok (s.record obj ⟨base ++ [o.name], isExported o.name, packageScope⟩, [.items ts]) := by
      rw [advance, hp]
      exact bind_eq_ok_iff.mpr ⟨o, ho, bind_eq_ok_iff.mpr ⟨ts, hts, rfl⟩⟩
    exact .next hstep (ih rest)
  | nil => exact .next rfl .refl
  | cons _ _ ih₁ ih₂ => exact .next rfl ((ih₁ _).trans (ih₂ rest))
  | unbound => exact .next rfl .refl
  | @known s s' scope base packageScope name obj list p hp _ ih =>
    have hstep : c.advance s (.bindings scope base packageScope ((name, obj) :: list)) =
        .ok (s, [.bindings scope base packageScope list]) := by
      rw [advance, hp]
      rfl
    exact .next hstep (ih rest)
  | @binding s s₁ s' scope base packageScope name obj list o ts hp ho hts _ _ ih₁ ih₂ =>
    have hstep : c.advance s (.bindings scope base packageScope ((name, obj) :: list)) =
        .ok (s.record obj ⟨base ++ [name], isExported name && packageScope, packageScope⟩,
          [.items ts, .bindings scope base packageScope list]) := by
      rw [advance, hp]
      exact bind_eq_ok_iff.mpr ⟨o, ho, bind_eq_ok_iff.mpr ⟨ts, hts, rfl⟩⟩
    exact .next hstep ((ih₁ _).trans (ih₂ rest))
  | childless => exact .next rfl .refl
  | child hpath _ _ ih₁ ih₂ =>
    exact .next (bind_eq_ok_iff.mpr ⟨_, hpath, rfl⟩) ((ih₁ _).trans (ih₂ rest))

/-! ## Walks that come to an end -/

/-- A walk takes finitely many steps, is at its end with certain places from whatever moment it goes
on, and no object loses the place that it got. -/
structure Ends (c : PlacementContext) (first : Moment) (last : Placements) : Prop where
  finite : Acc (fun later m => c.Next m later) first
  leads : ∀ m, c.Leads first m → c.Leads m ⟨last, []⟩
  kept : ∀ m later, c.Leads first m → c.Leads m later → ∀ obj p, m.places.place? obj = some p →
    later.places.place? obj = some p

/-- As there is but one way to go on, a walk that leads to an end ends. -/
theorem Leads.ends {first : Moment} {last : Placements} (h : c.Leads first ⟨last, []⟩) :
    c.Ends first last where
  finite := by
    induction h using Relation.ReflTransGen.head_induction_on with
    | refl => exact .intro _ fun later hnext => absurd hnext not_next_end
    | head hnext _ ih => exact .intro _ fun later hlater => hlater.unique hnext ▸ ih
  leads m hm := by
    -- of two moments that one walk passes through, one leads to the other
    have hunique : Relator.RightUnique c.Next := fun _ _ _ => Next.unique
    rcases Relation.ReflTransGen.total_of_right_unique hunique hm h with hend | hback
    · exact hend
    · cases hback.cases_head with
      | inl heq => exact heq ▸ .refl
      | inr hnext =>
        obtain ⟨_, hnext, -⟩ := hnext
        exact absurd hnext not_next_end
  kept m later _ hlater obj p hp := hlater.grows.places obj p hp

/-- Placing all objects of a package comes to an end. -/
theorem exists_ends_placePackage (hc : c.Placeable) {owner : Package}
    (howner : c.program.package c.pkg = .ok owner) (s : Placements) :
    ∃ last, c.placePackage s = .ok last ∧
      c.Ends ⟨s, [.item (.scope owner.scope [] true)]⟩ last := by
  obtain ⟨last, hlast, -⟩ := answers_placePackage hc (Program.hasPackage_iff.mpr ⟨owner, howner⟩) s
  obtain ⟨_, hsame, hruns⟩ := runs_placePackage hlast
  cases howner.symm.trans hsame
  exact ⟨last, hlast, (leads_of_runs hruns []).ends⟩

end PlacementContext

/-! ## Programs that are put together by calls -/

/-- No type stands for itself by way of others if a name never stands for a type made later. -/
theorem Program.names_acyclic_of_le {p : Program}
    (h : ∀ x ∈ p.types.toList.zipIdx, ∀ next ∈ x.1.standsFor?.toList, next.index ≤ x.2)
    (type : TypeId) : ¬ Relation.TransGen p.StandsFor type type := by
  have hlt : ∀ a b, Function.swap p.StandsFor a b → a.index < b.index := by
    rintro next type ⟨found, hfound, hnext, hne⟩
    have hget := fetch_eq_ok_iff.mp hfound
    rw [← Array.getElem?_toList] at hget
    have hmem : (found, type.index) ∈ p.types.toList.zipIdx := by
      rw [List.mem_zipIdx_iff_getElem?]
      exact hget
    refine Nat.lt_of_le_of_ne (h _ hmem next (Option.mem_toList.mpr hnext)) fun heq => ?_
    exact hne (TypeId.eq_of_index _ _ heq)
  exact fun hcircle => acyclic_of_lt hlt type (Relation.transGen_swap.mpr hcircle)

namespace Assembly

/-- In a program that is put together by calls, each mentioning only numbers given out before, and
in which no type stands for itself by way of others, placing the objects of a package comes to an
end, wherever it begins, and an object keeps the first place that it gets. -/
theorem placed_once_of_builds {given : List Number} {a : Assembly} (h : Builds given a)
    (hnames : ∀ type, ¬ Relation.TransGen a.program.StandsFor type type) {k : CheckedPackage}
    (hk : k ∈ a.packages.toList) (labels : Labelling) :
    ∃ c owner, PlacementContext.ofPackage a.program k labels = .ok c ∧
      a.program.package k.pkg = .ok owner ∧ ∀ first : Placements, ∃ last,
        c.placePackage first = .ok last ∧
          c.Ends ⟨first, [.item (.scope owner.scope [] true)]⟩ last := by
  obtain ⟨ha, -⟩ := h.sound
  have hcovers := ha.covers hk
  have hscopes : ∀ scope, ¬ Relation.TransGen a.program.HasChild scope scope :=
    acyclic_of_lt fun _ _ hchild => ha.fit.lt_of_hasChild hchild
  obtain ⟨c, hc, hprogram, hpkg, -, hplaceable⟩ :=
    PlacementContext.answers_ofPackage ha.fit.closed hscopes hnames hcovers labels
  obtain ⟨owner, howner, -⟩ := Program.answers_package hcovers.package
  refine ⟨c, owner, hc, howner, fun first => ?_⟩
  rw [← hprogram, ← hpkg] at howner
  exact PlacementContext.exists_ends_placePackage hplaceable howner first

/-- The calls that make a variable whose type is a struct with a pointer to itself, and a type that
stands for itself and has a method whose scope is that of the predeclared names. -/
def selfContaining : List Call :=
  [.addPackage "example.com/p" "p", .packageScope ⟨0⟩, .universeScope,
    .addObject ⟨"next", .field false, some ⟨0⟩, none, none, none⟩, .addType (.struct [⟨41⟩]),
    .addType (.pointer ⟨22⟩), .setType ⟨41⟩ ⟨23⟩,
    .addObject ⟨"x", .var, some ⟨0⟩, none, none, some ⟨22⟩⟩, .declare ⟨1⟩ ⟨42⟩,
    .addObject ⟨"T", .typeName, some ⟨0⟩, none, none, none⟩, .addNamed ⟨43⟩,
    .setUnderlying ⟨24⟩ ⟨24⟩, .declare ⟨1⟩ ⟨43⟩,
    .addObject ⟨"M", .func (some ⟨0⟩), some ⟨0⟩, none, none, none⟩, .addMethod ⟨24⟩ ⟨44⟩]

/-- The walk comes to the variable by way of the method, below whose scope the package is once more,
and the field keeps the place that it gets then. -/
theorem placed_once_of_selfContaining : ∃ given a, Builds given a ∧
    (∀ type, ¬ Relation.TransGen a.program.StandsFor type type) ∧
    ∃ k c owner last, k ∈ a.packages.toList ∧
      PlacementContext.ofPackage a.program k .deterministic = .ok c ∧
      a.program.package k.pkg = .ok owner ∧ c.placePackage .empty = .ok last ∧
      c.Ends ⟨.empty, [.item (.scope owner.scope [] true)]⟩ last ∧
      last.place? ⟨41⟩ = some ⟨["x", "next"], false, false⟩ := by
  have hmade : ((making selfContaining).any fun x =>
      (∀ t ∈ x.2.program.types.toList.zipIdx, ∀ next ∈ t.1.standsFor?.toList, next.index ≤ t.2) ∧
      ∃ k ∈ x.2.packages.toList,
        ((PlacementContext.ofPackage x.2.program k .deterministic >>= fun c =>
          c.placePackage .empty).toOption.bind fun last => last.place? ⟨41⟩) =
            some ⟨["x", "next"], false, false⟩) = true := by decide +kernel
  obtain ⟨⟨given, a⟩, hmaking, hchecked⟩ := (Option.any_eq_true _ _).mp hmade
  obtain ⟨hle, k, hk, hplace⟩ := of_decide_eq_true hchecked
  have hbuilds := builds_of_making hmaking
  have hnames := Program.names_acyclic_of_le hle
  obtain ⟨c, owner, hc, howner, hends⟩ := placed_once_of_builds hbuilds hnames hk .deterministic
  obtain ⟨last, hlast, hends⟩ := hends .empty
  rw [bind_eq_ok_iff.mpr ⟨c, hc, hlast⟩] at hplace
  exact ⟨given, a, hbuilds, hnames, k, c, owner, last, hk, hc, howner, hlast, hends, hplace⟩

end Assembly

end SymbolGraph
