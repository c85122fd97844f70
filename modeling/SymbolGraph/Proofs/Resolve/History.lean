import SymbolGraph.Global.Conversion
import SymbolGraph.Proofs.Resolve.Repetition

/-!
# Histories of a resolver

The states that a resolver goes through while paths are resolved (`Resolver.Later`). A target
that is remembered stays remembered, and so a path that had a target once has the same one
later, whatever the lookups answer by then (`Resolver.Later.resolve_eq`). Records whose keys are
made global at different times of one history therefore get one global key for one key
(`toGlobal_key_eq`).
-/

namespace SymbolGraph

open Text

namespace Resolver

variable {r : Resolver} {s t u : ResolverState} {path : String} {target : Target}

/-- The states that a resolver comes to from a state by resolving paths. -/
inductive Later (r : Resolver) (s : ResolverState) : ResolverState → Prop
  | refl : Later r s s
  | resolve {t : ResolverState} (path : String) : Later r s t → Later r s (r.resolve t path).2

/-- What a resolver comes to from a state it has come to. -/
theorem Later.trans (hst : r.Later s t) (htu : r.Later t u) : r.Later s u := by
  induction htu with
  | refl => exact hst
  | resolve path _ ih => exact .resolve path ih

/-- A path that is not remembered is resolved anew if it is not that of an external test package,
and is remembered from then on exactly if that gives a target. -/
theorem resolve_of_uncached (h : s.cache.get? path = none) :
    (∃ t, endsWith "_test".toList path.toList = false ∧
      (r.resolveAnew s path).1 = .ok (some t) ∧ (r.resolve s path).1 = .ok (some t) ∧
      (r.resolve s path).2.cache = s.cache.insertNew path t) ∨
    ((∀ t, (r.resolve s path).1 ≠ .ok (some t)) ∧ (r.resolve s path).2.cache = s.cache) := by
  have hanew := r.resolveAnew_cache s path
  unfold resolve
  rw [h]
  dsimp only
  split
  · exact .inr ⟨nofun, rfl⟩
  · rename_i hproper
    rw [Bool.not_eq_true] at hproper
    cases hr : r.resolveAnew s path with
    | mk result s' =>
      rw [hr] at hanew
      dsimp only at hanew
      rcases result with e | _ | t
      · exact .inr ⟨nofun, hanew⟩
      · exact .inr ⟨nofun, hanew⟩
      · exact .inl ⟨t, hproper, rfl, rfl, by rw [← hanew]⟩

/-- Resolving paths one after another leads to a later state. -/
theorem later_resolveEach (r : Resolver) (s : ResolverState) (paths : List String) :
    r.Later s (r.resolveEach s paths).2 := by
  induction paths generalizing s with
  | nil => exact .refl
  | cons path rest ih => exact (Later.resolve path .refl).trans (ih _)

/-- A path that is not remembered has the result of resolving it anew, if it is not that of an
external test package. -/
theorem resolve_fst_of_uncached (h : s.cache.get? path = none)
    (hproper : endsWith "_test".toList path.toList = false) :
    (r.resolve s path).1 = (r.resolveAnew s path).1 := by
  unfold resolve
  rw [h, hproper]
  dsimp only
  rw [if_neg Bool.false_ne_true]
  cases r.resolveAnew s path with
  | mk result s' => rcases result with e | _ | t <;> rfl

/-- Resolving a path loses no target. -/
theorem cache_get?_resolve (h : s.cache.get? path = some target) (other : String) :
    (r.resolve s other).2.cache.get? path = some target := by
  cases hc : s.cache.get? other with
  | some t =>
    rw [resolve_of_cached hc]
    exact h
  | none =>
    rcases resolve_of_uncached (r := r) hc with ⟨t, -, -, -, hcache⟩ | ⟨-, hcache⟩
    · rw [hcache, Table.get?_insertNew]
      split
      · rw [h, Option.getD_some]
      · exact h
    · rw [hcache]
      exact h

/-- What is remembered after a call was remembered before, or is its answer. -/
theorem get?_resolve_eq_some_iff {other : String} :
    (r.resolve s other).2.cache.get? path = some target ↔
      s.cache.get? path = some target ∨
        path = other ∧ (r.resolve s path).1 = .ok (some target) := by
  constructor
  · intro h
    cases hc : s.cache.get? other with
    | some t =>
      rw [resolve_of_cached hc] at h
      exact .inl h
    | none =>
      rcases resolve_of_uncached (r := r) hc with ⟨t, -, -, hanswer, hcache⟩ | ⟨-, hcache⟩
      · rw [hcache, Table.get?_insertNew] at h
        split at h
        · rename_i hsame
          subst hsame
          rw [hc, Option.getD_none] at h
          exact .inr ⟨rfl, by rw [hanswer, h]⟩
        · exact .inl h
      · rw [hcache] at h
        exact .inl h
  · rintro (hold | ⟨rfl, hanswer⟩)
    · exact cache_get?_resolve hold other
    · exact cache_get?_of_target (Prod.ext hanswer rfl)

/-- What holds of every target that a path is resolved to anew, at whatever time, holds of every
target that the path is answered with under any history. -/
theorem Later.forall_of_resolve {P : String → Target → Prop} (hs : r.Later .initial s)
    (hanew : ∀ s path t, endsWith "_test".toList path.toList = false →
      (r.resolveAnew s path).1 = .ok (some t) → P path t)
    (h : (r.resolve s path).1 = .ok (some target)) : P path target := by
  -- the invariant is that it holds of what is remembered
  have hcall : ∀ {s path t}, (∀ t, s.cache.get? path = some t → P path t) →
      (r.resolve s path).1 = .ok (some t) → P path t := by
    intro s path t hcached h
    cases hc : s.cache.get? path with
    | some known =>
      rw [resolve_of_cached hc] at h
      cases h
      exact hcached t hc
    | none =>
      rcases resolve_of_uncached (r := r) hc with ⟨t', hproper, hfound, hanswer, -⟩ | ⟨hnone, -⟩
      · rw [hanswer] at h
        cases h
        exact hanew s path t hproper hfound
      · exact absurd h (hnone t)
  have hcached : ∀ path t, s.cache.get? path = some t → P path t := by
    clear h
    induction hs with
    | refl => exact nofun
    | resolve other _ ih =>
      intro path t h
      rcases get?_resolve_eq_some_iff.mp h with hold | ⟨rfl, hanswer⟩
      · exact ih path t hold
      · exact hcall (ih path) hanswer
  exact hcall (hcached path) h

/-- What is remembered is never forgotten or changed. -/
theorem Later.cache_get? (hlater : r.Later s t) (h : s.cache.get? path = some target) :
    t.cache.get? path = some target := by
  induction hlater with
  | refl => exact h
  | resolve other _ ih => exact cache_get?_resolve ih other

/-- A path that had a target once has it later. -/
theorem Later.resolve_eq (hlater : r.Later t u) (h : r.resolve s path = (.ok (some target), t)) :
    r.resolve u path = (.ok (some target), u) :=
  resolve_of_cached (hlater.cache_get? (cache_get?_of_target h))

/-- Whatever a steady resolver has come to, it remembers the targets of the paths that it has
resolved. -/
theorem Later.remembers (hr : r.Steady) (hs : r.Later .initial s) :
    ∃ done, r.Remembers done s := by
  induction hs with
  | refl => exact ⟨[], .initial r⟩
  | resolve path _ ih =>
    obtain ⟨done, hdone⟩ := ih
    exact ⟨_, (hdone.resolve hr path).2⟩

/-- If the lookups answer the same at all times, a path has one answer under any history. -/
theorem Later.resolve_fst (hs : r.Later .initial s) (hr : r.Steady) (path : String) :
    (r.resolve s path).1 = r.answer path := by
  obtain ⟨done, hdone⟩ := hs.remembers hr
  exact (hdone.resolve hr path).1

end Resolver

/-! ## Records -/

variable {r : Resolver} {s s' : ResolverState}

/-- A step that needs a target has a value only if the path has one. -/
theorem withTarget_eq_ok {α : Type} {path : String} {next : Target → Resolving α} {a : α}
    (h : Resolving.withTarget r path next s = (.ok (some a), s')) :
    ∃ target t, r.resolve s path = (.ok (some target), t) ∧ next target t = (.ok (some a), s') := by
  unfold Resolving.withTarget at h
  split at h
  · rename_i target t heq
    exact ⟨target, t, heq, h⟩
  · cases h
  · cases h

/-- The global form of a reference has the key of what the target of its package gives. -/
theorem Ref.toGlobal_eq_ok {x : Ref} {root : UnixPath} {gx : GlobalRef}
    (h : x.toGlobal r root s = (.ok (some gx), s')) :
    ∃ target t, r.resolve s x.target.pkg = (.ok (some target), t) ∧ r.Later t s' ∧
      (gx.defRepo, gx.defUnit, gx.defUnitType, gx.defPath) =
        ((x.target.toGlobal target).repo, (x.target.toGlobal target).unit,
          (x.target.toGlobal target).unitType, (x.target.toGlobal target).path) := by
  obtain ⟨target, t, htarget, h⟩ := withTarget_eq_ok h
  obtain ⟨unit, t', hunit, h⟩ := withTarget_eq_ok h
  cases h
  refine ⟨target, t, htarget, ?_, rfl⟩
  have hlater := Resolver.Later.resolve (r := r) x.unit (.refl (s := t))
  rw [hunit] at hlater
  exact hlater

/-- A definition that is converted has the target of its package in its key. -/
theorem Def.toGlobal_eq_ok {d : Def} {root : UnixPath} {gd : GlobalDef}
    (h : d.toGlobal r root s = (.ok (some gd), s')) :
    ∃ target, r.resolve s d.key.pkg = (.ok (some target), s') ∧
      gd.key = d.key.toGlobal target := by
  unfold Def.toGlobal at h
  split at h
  · cases h
  · obtain ⟨target, t, htarget, h⟩ := withTarget_eq_ok h
    cases h
    exact ⟨target, htarget, rfl⟩

/-- A reference and a definition with one key, made global at different times of one history, get
one global key. -/
theorem toGlobal_key_eq {x : Ref} {d : Def} (hkey : x.target = d.key) {root root' : UnixPath}
    {gx : GlobalRef} {gd : GlobalDef} {t t' : ResolverState}
    (hx : x.toGlobal r root s = (.ok (some gx), s'))
    (hd : d.toGlobal r root' t = (.ok (some gd), t')) (hlater : r.Later s' t ∨ r.Later t' s) :
    (gx.defRepo, gx.defUnit, gx.defUnitType, gx.defPath) =
      (gd.key.repo, gd.key.unit, gd.key.unitType, gd.key.path) := by
  obtain ⟨target, mid, htarget, hmid, heq⟩ := x.toGlobal_eq_ok hx
  obtain ⟨target', htarget', hkey'⟩ := d.toGlobal_eq_ok hd
  rw [heq, hkey', hkey]
  rw [hkey] at htarget
  have hsame : target = target' := by
    rcases hlater with hlater | hlater
    · have hagain := (hmid.trans hlater).resolve_eq htarget
      rw [htarget'] at hagain
      cases hagain
      rfl
    · have hagain := hlater.resolve_eq htarget'
      rw [htarget] at hagain
      cases hagain
      rfl
  rw [hsame]

end SymbolGraph
