import SymbolGraph.Proofs.Resolve.History

/-!
# Failure policies

A record of a package graph is converted, is dropped because a path in it has no target, or fails
because a path in it cannot be resolved; which of these it is, the record and the paths tell, and
not what was resolved before. So all conversions of a graph agree (`toGlobal_policies`): those that
skip failures give the converted records in order and put every failure on record, those that
abort end with the first of these failures, or give the same records if there are none.

That aborting and skipping agree (`PackageGraph.toGlobal_abort_of_skip`) holds of any resolver,
because up to the first failure they go the same way. That a record's fate does not depend on the
records before needs a lookup whose answers do not change.
-/

namespace SymbolGraph

/-! ## Obstacles -/

/-- What keeps a record from being converted. -/
inductive Obstacle where
  /-- A path without a target, for which the record is dropped. -/
  | noTarget
  /-- A path that cannot be resolved, for which the conversion fails. -/
  | failure (cause : ResolveError)
  deriving DecidableEq, Repr

/-- The obstacle that a result without a value tells. -/
def obstacleOf? {α : Type} : Except ResolveError (Option α) → Option Obstacle
  | .ok (some _) => none
  | .ok none => some .noTarget
  | .error e => some (.failure e)

/-- The first obstacle among some paths that are resolved in order. -/
def Resolver.obstacle? (r : Resolver) (paths : List String) : Option Obstacle :=
  paths.findSome? fun path => obstacleOf? (r.answer path)

/-- A definition is dropped if it has no file. Its package needs a target. -/
def Def.obstacle? (d : Def) (r : Resolver) : Option Obstacle :=
  if d.file.isEmpty then some .noTarget else r.obstacle? [d.key.pkg]

/-- The package that a reference refers to needs a target, and so does the one it stands in. -/
def Ref.obstacle? (x : Ref) (r : Resolver) : Option Obstacle :=
  r.obstacle? [x.target.pkg, x.unit]

/-- The package of what is documented needs a target, if something is, and so does the one that
the documentation stands in. -/
def Doc.obstacle? (d : Doc) (r : Resolver) : Option Obstacle :=
  r.obstacle? (d.key.toList.map DefKey.pkg ++ [d.unit])

/-- Only a path that is resolved to nothing lacks a target. -/
theorem obstacleOf?_eq_noTarget_iff {α : Type} {result : Except ResolveError (Option α)} :
    obstacleOf? result = some .noTarget ↔ result = .ok none := by
  rcases result with e | _ | a <;> simp [obstacleOf?]

/-- The first obstacle is at the first path or else among the others. -/
theorem Resolver.obstacle?_cons (r : Resolver) (path : String) (paths : List String) :
    r.obstacle? (path :: paths) = (obstacleOf? (r.answer path)).or (r.obstacle? paths) := by
  unfold obstacle?
  rw [List.findSome?_cons]
  cases obstacleOf? (r.answer path) <;> rfl

/-- Where a target is lacking, one of the paths is resolved to nothing. -/
theorem Resolver.exists_of_obstacle?_eq_noTarget {r : Resolver} {paths : List String}
    (h : r.obstacle? paths = some .noTarget) : ∃ path ∈ paths, r.answer path = .ok none := by
  obtain ⟨path, hpath, hobstacle⟩ := List.exists_of_findSome?_eq_some h
  exact ⟨path, hpath, obstacleOf?_eq_noTarget_iff.mp hobstacle⟩

/-- The failure on record for an obstacle. -/
def Obstacle.error? (kind : RecordKind) (name : String) : Option Obstacle → Option ConversionError
  | some (.failure cause) => some ⟨kind, name, cause⟩
  | _ => none

/-! ## Steps under any history -/

/-- A step whose result is the same under any history, and a value if there is no obstacle. -/
structure Resolving.Meets {α : Type} (r : Resolver) (obstacle : Option Obstacle)
    (step : Resolving α) : Prop where
  fst_eq : ∀ {s}, r.Later .initial s → (step s).1 = (step .initial).1
  later : ∀ {s}, r.Later .initial s → r.Later s (step s).2
  obstacle_eq : obstacleOf? (step .initial).1 = obstacle

namespace Resolving

variable {α : Type} {r : Resolver} {s : ResolverState}

/-- A step without a value has met a path without target. -/
theorem Meets.eq_noTarget {obstacle : Option Obstacle} {step : Resolving α}
    (hmeets : Meets r obstacle step) (h : (step .initial).1 = .ok none) :
    obstacle = some .noTarget := by
  rw [← hmeets.obstacle_eq, h]
  rfl

/-- A step that resolves nothing meets no obstacle. -/
theorem meets_done (a : α) : Meets r (r.obstacle? []) (done a) where
  fst_eq _ := rfl
  later _ := .refl
  obstacle_eq := rfl

/-- What is dropped at once counts as a path without target. -/
theorem meets_dropped : Meets (α := α) r (some .noTarget) fun s => (.ok none, s) where
  fst_eq _ := rfl
  later _ := .refl
  obstacle_eq := rfl

/-- Under any history, a step that needs the target of a path goes on from a later state with what
a resolver without memory answers. -/
theorem exists_withTarget_eq (hr : r.Steady) (hs : r.Later .initial s) (path : String)
    (next : Target → Resolving α) :
    ∃ t, r.Later s t ∧ withTarget r path next s =
      match r.answer path with
      | .ok (some target) => next target t
      | .ok none => (.ok none, t)
      | .error e => (.error e, t) := by
  have hanswer := hs.resolve_fst hr path
  refine ⟨_, Resolver.Later.resolve path .refl, ?_⟩
  unfold withTarget
  rw [← hanswer]
  rcases r.resolve s path with ⟨e | _ | target, t⟩ <;> rfl

/-- A step that needs the target of a path meets the obstacle on that path, or else that of what
follows. -/
theorem meets_withTarget (hr : r.Steady) (path : String) {paths : List String}
    {next : Target → Resolving α} (hnext : ∀ t, Meets r (r.obstacle? paths) (next t)) :
    Meets r (r.obstacle? (path :: paths)) (withTarget r path next) where
  fst_eq hs := by
    obtain ⟨t, hlater, heq⟩ := exists_withTarget_eq hr hs path next
    obtain ⟨t', hlater', heq'⟩ := exists_withTarget_eq hr .refl path next
    rw [heq, heq']
    rcases r.answer path with e | _ | target
    · rfl
    · rfl
    · exact ((hnext target).fst_eq (hs.trans hlater)).trans ((hnext target).fst_eq hlater').symm
  later hs := by
    obtain ⟨t, hlater, heq⟩ := exists_withTarget_eq hr hs path next
    rw [heq]
    rcases r.answer path with e | _ | target
    · exact hlater
    · exact hlater
    · exact hlater.trans ((hnext target).later (hs.trans hlater))
  obstacle_eq := by
    obtain ⟨t, hlater, heq⟩ := exists_withTarget_eq hr .refl path next
    rw [heq, Resolver.obstacle?_cons]
    rcases r.answer path with e | _ | target
    · rfl
    · rfl
    · dsimp only
      rw [(hnext target).fst_eq hlater]
      exact (hnext target).obstacle_eq

end Resolving

variable {r : Resolver} {s s' : ResolverState}

open Resolving

/-- The conversion of a definition meets the obstacle that its paths have. -/
theorem Def.meets_toGlobal (hr : r.Steady) (d : Def) (root : UnixPath) :
    Meets r (d.obstacle? r) (d.toGlobal r root) := by
  unfold Def.toGlobal Def.obstacle?
  split
  · exact meets_dropped
  · exact meets_withTarget hr d.key.pkg fun _ => meets_done _

/-- The conversion of a reference meets the obstacle that its paths have. -/
theorem Ref.meets_toGlobal (hr : r.Steady) (x : Ref) (root : UnixPath) :
    Meets r (x.obstacle? r) (x.toGlobal r root) :=
  meets_withTarget hr x.target.pkg fun _ => meets_withTarget hr x.unit fun _ => meets_done _

/-- The conversion of a documentation meets the obstacle that its paths have. -/
theorem Doc.meets_toGlobal (hr : r.Steady) (d : Doc) (root : UnixPath) :
    Meets r (d.obstacle? r) (d.toGlobal r root) := by
  unfold Doc.toGlobal Doc.obstacle?
  cases d.key with
  | some key =>
    exact meets_withTarget hr key.pkg fun _ => meets_withTarget hr d.unit fun _ => meets_done _
  | none => exact meets_withTarget hr d.unit fun _ => meets_done _

/-- A definition is dropped only without a file or where its package has no target. -/
theorem Def.of_toGlobal_eq_none (hr : r.Steady) {d : Def} {root : UnixPath}
    (h : (d.toGlobal r root .initial).1 = .ok none) :
    d.file = "" ∨ r.answer d.key.pkg = .ok none := by
  have hobstacle := (d.meets_toGlobal hr root).eq_noTarget h
  unfold Def.obstacle? at hobstacle
  split at hobstacle
  · rename_i hfile
    exact .inl (String.isEmpty_iff.mp hfile)
  · obtain ⟨path, hpath, hnone⟩ := Resolver.exists_of_obstacle?_eq_noTarget hobstacle
    cases List.mem_singleton.mp hpath
    exact .inr hnone

/-- A reference is dropped only where one of its two packages has no target. -/
theorem Ref.of_toGlobal_eq_none (hr : r.Steady) {x : Ref} {root : UnixPath}
    (h : (x.toGlobal r root .initial).1 = .ok none) :
    r.answer x.target.pkg = .ok none ∨ r.answer x.unit = .ok none := by
  obtain ⟨path, hpath, hnone⟩ :=
    Resolver.exists_of_obstacle?_eq_noTarget ((x.meets_toGlobal hr root).eq_noTarget h)
  rcases List.mem_pair.mp hpath with rfl | rfl
  · exact .inl hnone
  · exact .inr hnone

/-- A documentation is dropped only where one of its packages has no target. -/
theorem Doc.of_toGlobal_eq_none (hr : r.Steady) {d : Doc} {root : UnixPath}
    (h : (d.toGlobal r root .initial).1 = .ok none) :
    (∃ key, d.key = some key ∧ r.answer key.pkg = .ok none) ∨ r.answer d.unit = .ok none := by
  obtain ⟨path, hpath, hnone⟩ :=
    Resolver.exists_of_obstacle?_eq_noTarget ((d.meets_toGlobal hr root).eq_noTarget h)
  rcases List.mem_append.mp hpath with hkey | hunit
  · obtain ⟨key, hmem, rfl⟩ := List.mem_map.mp hkey
    exact .inl ⟨key, Option.mem_toList.mp hmem, hnone⟩
  · cases List.mem_singleton.mp hunit
    exact .inr hnone

/-! ## Lists of records -/

section Lists

variable {ρ α : Type} {convert : ρ → Resolving α} {list : List ρ}

/-- Up to the first failure, aborting and skipping go the same way. -/
theorem convertAll_abort_of_skip {fail : ρ → ResolveError → ConversionError} {out : List α}
    {errors : List ConversionError}
    (h : convertAll .skip convert fail list s = (.ok (out, errors), s')) :
    (errors = [] → convertAll .abort convert fail list s = (.ok (out, []), s')) ∧
      ∀ e, errors.head? = some e → ∃ t, convertAll .abort convert fail list s = (.error e, t) := by
  induction list generalizing s out errors with
  | nil =>
    cases h
    exact ⟨fun _ => rfl, nofun⟩
  | cons x rest ih =>
    unfold convertAll at h ⊢
    cases hx : convert x s with
    | mk result s₁ =>
      rw [hx] at h
      cases hrest : convertAll .skip convert fail rest s₁ with
      | mk result' s₂ =>
        cases result with
        | error e =>
          dsimp only at h ⊢
          rw [hrest] at h
          rcases result' with e' | ⟨out', errors'⟩
          · cases h
          · cases h
            refine ⟨nofun, fun e' he' => ?_⟩
            cases he'
            exact ⟨s₁, rfl⟩
        | ok y? =>
          dsimp only at h ⊢
          rw [hrest] at h
          rcases result' with e' | ⟨out', errors'⟩
          · cases h
          · cases h
            obtain ⟨hnone, hsome⟩ := ih hrest
            refine ⟨fun hempty => by rw [hnone hempty], fun e he => ?_⟩
            obtain ⟨t, habort⟩ := hsome e he
            exact ⟨t, by rw [habort]⟩

/-- Skipping failures gives the conversions of the records without an obstacle, in order, and puts
the failures of the others on record, in order. -/
theorem convertAll_of_meets {obstacle : ρ → Option Obstacle}
    (hmeets : ∀ x, Meets r (obstacle x) (convert x)) (kind : RecordKind) (name : ρ → String)
    (list : List ρ) (hs : r.Later .initial s) :
    ∃ out s', convertAll .skip convert (fun x e => ⟨kind, name x, e⟩) list s =
        (.ok (out, list.filterMap fun x => Obstacle.error? kind (name x) (obstacle x)), s') ∧
      r.Later s s' ∧
      List.Forall₂ (fun x y => (convert x .initial).1 = .ok (some y))
        (list.filter fun x => (obstacle x).isNone) out := by
  induction list generalizing s with
  | nil => exact ⟨[], s, rfl, .refl, .nil⟩
  | cons x rest ih =>
    have hlater := (hmeets x).later hs
    have hobstacle := (hmeets x).obstacle_eq
    rw [← (hmeets x).fst_eq hs] at hobstacle
    cases hx : convert x s with
    | mk result s₁ =>
      rw [hx] at hlater hobstacle
      dsimp only at hlater hobstacle
      obtain ⟨out, s', hrest, hlater', hout⟩ := ih (hs.trans hlater)
      have hlater'' := hlater.trans hlater'
      unfold convertAll
      rw [hx, List.filterMap_cons, List.filter_cons, ← hobstacle]
      rcases result with e | _ | y
      · dsimp only
        rw [hrest]
        exact ⟨out, s', rfl, hlater'', hout⟩
      · dsimp only
        rw [hrest]
        exact ⟨out, s', rfl, hlater'', hout⟩
      · dsimp only
        rw [hrest]
        have hy := ((hmeets x).fst_eq hs).symm
        rw [hx] at hy
        exact ⟨y :: out, s', rfl, hlater'', .cons hy hout⟩

end Lists

/-! ## Package graphs -/

namespace PackageGraph

variable {g : PackageGraph} {root : UnixPath}

/-- Up to the first failure, aborting and skipping go the same way through a graph. -/
theorem toGlobal_abort_of_skip {out : GlobalGraph} {errors : List ConversionError}
    (h : g.toGlobal r root .skip s = (.ok (out, errors), s')) :
    (errors = [] → g.toGlobal r root .abort s = (.ok (out, []), s')) ∧
      ∀ e, errors.head? = some e → ∃ t, g.toGlobal r root .abort s = (.error e, t) := by
  unfold toGlobal at h ⊢
  split at h
  · cases h
  rename_i defs defErrors s₁ hdefs
  split at h
  · cases h
  rename_i refs refErrors s₂ hrefs
  split at h
  · cases h
  rename_i docs docErrors s₃ hdocs
  cases h
  obtain ⟨hdefs, hdefError⟩ := convertAll_abort_of_skip hdefs
  obtain ⟨hrefs, hrefError⟩ := convertAll_abort_of_skip hrefs
  obtain ⟨hdocs, hdocError⟩ := convertAll_abort_of_skip hdocs
  cases defErrors with
  | cons e _ =>
    obtain ⟨t, habort⟩ := hdefError e rfl
    rw [habort]
    exact ⟨nofun, fun e' he' => ⟨t, by cases he'; rfl⟩⟩
  | nil =>
    rw [hdefs rfl]
    dsimp only
    cases refErrors with
    | cons e _ =>
      obtain ⟨t, habort⟩ := hrefError e rfl
      rw [habort]
      exact ⟨nofun, fun e' he' => ⟨t, by cases he'; rfl⟩⟩
    | nil =>
      rw [hrefs rfl]
      dsimp only
      cases docErrors with
      | cons e _ =>
        obtain ⟨t, habort⟩ := hdocError e rfl
        rw [habort]
        exact ⟨nofun, fun e' he' => ⟨t, by cases he'; rfl⟩⟩
      | nil =>
        rw [hdocs rfl]
        exact ⟨fun _ => rfl, nofun⟩

/-- Aborting ends with the first of the failures that skipping puts on record. -/
theorem toGlobal_abort_eq_error_iff {out : GlobalGraph} {errors : List ConversionError}
    (h : g.toGlobal r root .skip s = (.ok (out, errors), s')) {e : ConversionError} :
    (g.toGlobal r root .abort s).1 = .error e ↔ errors.head? = some e := by
  obtain ⟨hnone, hsome⟩ := toGlobal_abort_of_skip h
  constructor
  · intro habort
    cases errors with
    | nil =>
      rw [hnone rfl] at habort
      cases habort
    | cons first _ =>
      obtain ⟨t, hfirst⟩ := hsome first rfl
      rw [hfirst] at habort
      cases habort
      rfl
  · intro hhead
    obtain ⟨t, habort⟩ := hsome e hhead
    rw [habort]

/-- The failures of the definitions of a graph, then of its references, then of its documentation,
in the order of the records. -/
def failures (g : PackageGraph) (r : Resolver) : List ConversionError :=
  (g.defs.filterMap fun d => Obstacle.error? .definition d.name (d.obstacle? r)) ++
    (g.refs.filterMap fun x => Obstacle.error? .reference x.target.text (x.obstacle? r)) ++
    g.docs.filterMap fun d => Obstacle.error? .documentation d.messageName (d.obstacle? r)

/-- A global graph has, in order, what the records of a graph without an obstacle are converted to
by a resolver without memory, and no other records. -/
structure ConvertsTo (g : PackageGraph) (r : Resolver) (root : UnixPath) (out : GlobalGraph) :
    Prop where
  defs : List.Forall₂ (fun d y => (d.toGlobal r root .initial).1 = .ok (some y))
    (g.defs.filter fun d => (d.obstacle? r).isNone) out.defs
  refs : List.Forall₂ (fun x y => (x.toGlobal r root .initial).1 = .ok (some y))
    (g.refs.filter fun x => (x.obstacle? r).isNone) out.refs
  docs : List.Forall₂ (fun d y => (d.toGlobal r root .initial).1 = .ok (some y))
    (g.docs.filter fun d => (d.obstacle? r).isNone) out.docs

/-- The only records that are dropped, without a failure, are definitions without a file and
records with a package or a unit that has no target. -/
structure DropsOnly (g : PackageGraph) (r : Resolver) (root : UnixPath) : Prop where
  defs : ∀ d ∈ g.defs, (d.toGlobal r root .initial).1 = .ok none →
    d.file = "" ∨ r.answer d.key.pkg = .ok none
  refs : ∀ x ∈ g.refs, (x.toGlobal r root .initial).1 = .ok none →
    r.answer x.target.pkg = .ok none ∨ r.answer x.unit = .ok none
  docs : ∀ d ∈ g.docs, (d.toGlobal r root .initial).1 = .ok none →
    (∃ key, d.key = some key ∧ r.answer key.pkg = .ok none) ∨ r.answer d.unit = .ok none

/-- The records that are dropped are those with such a reason. -/
theorem dropsOnly (hr : r.Steady) (g : PackageGraph) (root : UnixPath) : g.DropsOnly r root where
  defs _ _ := Def.of_toGlobal_eq_none hr
  refs _ _ := Ref.of_toGlobal_eq_none hr
  docs _ _ := Doc.of_toGlobal_eq_none hr

/-- Skipping failures converts the records without an obstacle and puts all failures on record. -/
theorem exists_toGlobal_skip (hr : r.Steady) (hs : r.Later .initial s) (g : PackageGraph)
    (root : UnixPath) :
    ∃ out s', g.ConvertsTo r root out ∧
      g.toGlobal r root .skip s = (.ok (out, g.failures r), s') := by
  obtain ⟨defs, s₁, hdefs, hlater₁, hdefsOut⟩ := convertAll_of_meets
    (fun d => Def.meets_toGlobal hr d root) .definition (fun d => d.name) g.defs hs
  have hs₁ := hs.trans hlater₁
  obtain ⟨refs, s₂, hrefs, hlater₂, hrefsOut⟩ := convertAll_of_meets
    (fun x => Ref.meets_toGlobal hr x root) .reference (fun x => x.target.text) g.refs hs₁
  have hs₂ := hs₁.trans hlater₂
  obtain ⟨docs, s₃, hdocs, -, hdocsOut⟩ := convertAll_of_meets
    (fun d => Doc.meets_toGlobal hr d root) .documentation Doc.messageName g.docs hs₂
  refine ⟨⟨defs, refs, docs⟩, s₃, ⟨hdefsOut, hrefsOut, hdocsOut⟩, ?_⟩
  unfold toGlobal
  rw [hdefs]
  dsimp only
  rw [hrefs]
  dsimp only
  rw [hdocs]
  rfl

/-- **Aborting and skipping agree, and no record is lost.** Let the lookups answer the same at all
times, and let any paths have been resolved before. If failures are skipped, the records without
an obstacle are converted, in order, and all failures are on record, in order. If a failure ends
the conversion, it is the first of them, and if there is none, the global graph is the same. -/
theorem toGlobal_policies (hr : r.Steady) (hs : r.Later .initial s) (g : PackageGraph)
    (root : UnixPath) :
    ∃ out, g.ConvertsTo r root out ∧ g.DropsOnly r root ∧
      (g.toGlobal r root .skip s).1 = .ok (out, g.failures r) ∧
      (∀ e, (g.toGlobal r root .abort s).1 = .error e ↔ (g.failures r).head? = some e) ∧
      (g.failures r = [] → (g.toGlobal r root .abort s).1 = .ok (out, [])) := by
  obtain ⟨out, s', hout, hskip⟩ := exists_toGlobal_skip hr hs g root
  refine ⟨out, hout, g.dropsOnly hr root, by rw [hskip], fun e => ?_, fun hempty => ?_⟩
  · exact toGlobal_abort_eq_error_iff hskip
  · rw [(toGlobal_abort_of_skip hskip).1 hempty]

/-- A graph with records that are converted, dropped and failing. -/
def sampleMixed : PackageGraph where
  defs :=
    [{ (default : Def) with name := "F", key := ⟨"a", ["F"]⟩, file := "/tree/a/a.go" },
      { (default : Def) with name := "a", key := ⟨"a", []⟩, file := "" },
      { (default : Def) with name := "T", key := ⟨"b_test", ["T"]⟩, file := "/tree/b/b_test.go" }]
  refs :=
    [{ unit := "a", file := "/tree/a/a.go", span := default, target := ⟨"C", ["puts"]⟩,
       isDef := false },
      { unit := "a", file := "/tree/a/a.go", span := default, target := ⟨"fmt", ["Println"]⟩,
        isDef := false }]
  docs := [{ (default : Doc) with unit := "b_test", file := "/tree/b/b_test.go" }]

/-- After `fmt` and `b.org/x` have been resolved: one definition and one reference are converted,
one of each is dropped, and a definition and a comment fail. -/
theorem toGlobal_policies_mixed :
    Resolver.sample.Steady ∧
      ∃ out s, Resolver.sample.Later .initial s ∧ sampleMixed.ConvertsTo .sample ⟨"/tree"⟩ out ∧
        out.defs.length = 1 ∧ out.refs.length = 1 ∧ out.docs = [] ∧
        (sampleMixed.toGlobal .sample ⟨"/tree"⟩ .skip s).1 =
          .ok (out, [⟨.definition, "T", .testPackage "b_test"⟩,
            ⟨.documentation, "/tree/b/b_test.go", .testPackage "b_test"⟩]) ∧
        (sampleMixed.toGlobal .sample ⟨"/tree"⟩ .abort s).1 =
          .error ⟨.definition, "T", .testPackage "b_test"⟩ := by
  have hsteady : Resolver.sample.Steady := fun _ _ _ => rfl
  have hlater := Resolver.sample.later_resolveEach .initial ["fmt", "b.org/x"]
  obtain ⟨out, hout, -, hskip, habort, -⟩ :=
    toGlobal_policies hsteady hlater sampleMixed ⟨"/tree"⟩
  have hfailures : sampleMixed.failures .sample = [⟨.definition, "T", .testPackage "b_test"⟩,
      ⟨.documentation, "/tree/b/b_test.go", .testPackage "b_test"⟩] := by
    decide +kernel
  rw [hfailures] at hskip habort
  refine ⟨hsteady, out, _, hlater, hout, ?_, ?_, ?_, hskip, (habort _).mpr rfl⟩
  · rw [← hout.defs.length_eq]
    decide +kernel
  · rw [← hout.refs.length_eq]
    decide +kernel
  · rw [← List.length_eq_zero_iff, ← hout.docs.length_eq]
    decide +kernel

end PackageGraph

end SymbolGraph
