import Mathlib.Data.List.Nodup
import SymbolGraph.Resolve.Resolver

/-!
# Resolving many paths

A resolver remembers targets, so that what it answers could depend on what was asked before. It
does not, as long as the lookups answer the same at all times (`Resolver.Steady`): paths that are
resolved one after another get the answers that a resolver without memory gives them, and what is
remembered then are the targets among those answers, each path once
(`resolveEach_eq_map_answer`).

The invariant that a call keeps is `Resolver.Remembers`. It holds although what is remembered is
looked at before anything else: a target was only put there by a call that went through all the
tests, the one for external test packages included.
-/

namespace SymbolGraph

open Text

namespace Resolver

variable {r : Resolver} {s : ResolverState} {path : String}

/-! ## One call -/

/-- What a resolver answers that remembers nothing. -/
def answer (r : Resolver) (path : String) : Except ResolveError (Option Target) :=
  (r.resolve .initial path).1

/-- The answers of the remote lookup do not change over time. -/
def Steady (r : Resolver) : Prop := ∀ n m path, r.lookup n path = r.lookup m path

/-- Resolved anew, a path has the same result at all times. -/
theorem Steady.resolveAnew_fst (hr : r.Steady) (s t : ResolverState) (path : String) :
    (r.resolveAnew s path).1 = (r.resolveAnew t path).1 := by
  unfold resolveAnew
  rw [hr s.lookups t.lookups path]
  split
  · rfl
  · split <;> rfl

/-- A path that is not remembered gets the answer of a resolver without memory, and is remembered
from then on if that is a target. -/
theorem Steady.resolve_of_uncached (hr : r.Steady) (h : s.cache.get? path = none) :
    (r.resolve s path).1 = r.answer path ∧
      (r.resolve s path).2.cache =
        match r.answer path with
        | .ok (some t) => s.cache.insertNew path t
        | _ => s.cache := by
  have hempty : ResolverState.initial.cache.get? path = none := rfl
  have hsame := hr.resolveAnew_fst s .initial path
  have hcache := r.resolveAnew_cache s path
  unfold answer
  simp only [resolve, h, hempty]
  split
  · exact ⟨rfl, rfl⟩
  · cases hs : r.resolveAnew s path with
    | mk result s' =>
      cases hi : r.resolveAnew .initial path with
      | mk result' i' =>
        rw [hs, hi] at hsame
        rw [hs] at hcache
        dsimp only at hsame hcache
        subst hsame
        rcases result with e | _ | t
        · exact ⟨rfl, hcache⟩
        · exact ⟨rfl, hcache⟩
        · exact ⟨rfl, by rw [← hcache]⟩

/-- What is remembered after some paths have been resolved: the targets among their answers, and
each path once. -/
structure Remembers (r : Resolver) (done : List String) (s : ResolverState) : Prop where
  nodup : s.cache.keys.Nodup
  entries : ∀ path t, (path, t) ∈ s.cache.entries ↔ path ∈ done ∧ r.answer path = .ok (some t)

/-- At the start nothing is remembered. -/
theorem Remembers.initial (r : Resolver) : r.Remembers [] .initial where
  nodup := List.nodup_nil
  entries _ _ := ⟨fun h => absurd h List.not_mem_nil, fun h => absurd h.1 List.not_mem_nil⟩

/-- If nothing is written for a path, it had no target, or the same was remembered before. -/
theorem Remembers.concat {done : List String} {s' : ResolverState} (hs : r.Remembers done s)
    (hcache : s'.cache = s.cache)
    (hpath : ∀ t, r.answer path = .ok (some t) → path ∈ done) :
    r.Remembers (done ++ [path]) s' where
  nodup := by
    rw [hcache]
    exact hs.nodup
  entries other t := by
    rw [hcache, hs.entries, List.mem_append, List.mem_singleton]
    constructor
    · rintro ⟨hdone, ht⟩
      exact ⟨.inl hdone, ht⟩
    · rintro ⟨hdone | rfl, ht⟩
      · exact ⟨hdone, ht⟩
      · exact ⟨hpath t ht, ht⟩

/-- A path that was not remembered gets an entry for its target. -/
theorem Remembers.insertNew {done : List String} {s' : ResolverState} {target : Target}
    (hs : r.Remembers done s) (hc : s.cache.get? path = none)
    (hcache : s'.cache = s.cache.insertNew path target)
    (hpath : r.answer path = .ok (some target)) : r.Remembers (done ++ [path]) s' where
  nodup := by
    rw [hcache]
    exact Table.nodup_keys_insertNew hs.nodup path target
  entries other t := by
    rw [hcache, s.cache.entries_insertNew target hc, List.mem_append, hs.entries, List.mem_append,
      List.mem_singleton, List.mem_singleton]
    constructor
    · rintro (⟨hdone, ht⟩ | hlast)
      · exact ⟨.inl hdone, ht⟩
      · obtain ⟨rfl, rfl⟩ := Prod.mk.inj hlast
        exact ⟨.inr rfl, hpath⟩
    · rintro ⟨hdone | rfl, ht⟩
      · exact .inl ⟨hdone, ht⟩
      · rw [hpath] at ht
        cases ht
        exact .inr rfl

/-- A call answers as a resolver without memory does, and keeps what is to be remembered. -/
theorem Remembers.resolve {done : List String} (hs : r.Remembers done s) (hr : r.Steady)
    (path : String) :
    (r.resolve s path).1 = r.answer path ∧ r.Remembers (done ++ [path]) (r.resolve s path).2 := by
  cases hc : s.cache.get? path with
  | some t =>
    obtain ⟨hdone, hanswer⟩ := (hs.entries path t).mp (Table.mem_of_get? hc)
    rw [resolve_of_cached hc]
    exact ⟨hanswer.symm, hs.concat rfl fun _ _ => hdone⟩
  | none =>
    obtain ⟨hfst, hcache⟩ := hr.resolve_of_uncached hc
    refine ⟨hfst, ?_⟩
    cases hanswer : r.answer path with
    | error e =>
      rw [hanswer] at hcache
      exact hs.concat hcache fun t ht => by rw [hanswer] at ht; cases ht
    | ok target? =>
      rw [hanswer] at hcache
      cases target? with
      | none => exact hs.concat hcache fun t ht => by rw [hanswer] at ht; cases ht
      | some target => exact hs.insertNew hc hcache hanswer

/-! ## Many calls -/

/-- Resolves paths one after another. -/
def resolveEach (r : Resolver) :
    ResolverState → List String → List (Except ResolveError (Option Target)) × ResolverState
  | s, [] => ([], s)
  | s, path :: rest =>
    let (result, next) := r.resolve s path
    let (results, last) := resolveEach r next rest
    (result :: results, last)

/-- Resolving paths one after another answers each as a resolver without memory does, and keeps what
is remembered. -/
theorem Remembers.resolveEach {done : List String} (hs : r.Remembers done s) (hr : r.Steady)
    (paths : List String) :
    (r.resolveEach s paths).1 = paths.map r.answer ∧
      r.Remembers (done ++ paths) (r.resolveEach s paths).2 := by
  induction paths generalizing s done with
  | nil =>
    rw [List.append_nil]
    exact ⟨rfl, hs⟩
  | cons path rest ih =>
    obtain ⟨hfirst, hnext⟩ := hs.resolve hr path
    obtain ⟨hrest, hlast⟩ := ih hnext
    rw [List.append_assoc] at hlast
    refine ⟨?_, hlast⟩
    rw [List.map_cons, ← hfirst, ← hrest]
    rfl

/-- **Resolving does not depend on what was resolved before.** If the remote lookup answers the
same at all times, paths that are resolved one after another get the answers of a resolver that is
made for each of them. After them, what is remembered has one entry for each path that some call
gave a target to, with that target, and no others. -/
theorem resolveEach_eq_map_answer (hr : r.Steady) (paths : List String) :
    (r.resolveEach .initial paths).1 = paths.map (fun path => (r.resolve .initial path).1) ∧
      (r.resolveEach .initial paths).2.cache.keys.Nodup ∧
      ∀ path t, (path, t) ∈ (r.resolveEach .initial paths).2.cache.entries ↔
        (path, .ok (some t)) ∈ paths.zip (r.resolveEach .initial paths).1 := by
  obtain ⟨hresults, hremembers⟩ := (Remembers.initial r).resolveEach hr paths
  refine ⟨hresults, hremembers.nodup, fun path t => ?_⟩
  have hzip : paths.zip (paths.map r.answer) = paths.map fun path => (path, r.answer path) := by
    rw [List.zip_eq_zipWith, List.zipWith_map_right, List.zipWith_self]
  rw [hremembers.entries, hresults, hzip, List.nil_append, List.mem_map]
  constructor
  · rintro ⟨hpath, ht⟩
    exact ⟨path, hpath, by rw [ht]⟩
  · rintro ⟨other, hother, heq⟩
    obtain ⟨rfl, ht⟩ := Prod.mk.inj heq
    exact ⟨hother, ht⟩

/-- A resolver that finds the package `a` in its tree, and looks up all else at one address. -/
def sample : Resolver where
  tree := .ofRoot ⟨"/tree"⟩
  findDir := fun path => if path = "a" then some ⟨"/tree/a"⟩ else none
  rules := Rule.standard
  version := ""
  lookup := fun _ path => if path = "b.org/x" then some ⟨"b.org", "https://c.org/r.git/"⟩ else none

/-- The packages that the sample is asked for, some of them twice: one of its tree, one that a rule
decides, one that has no target, one that is looked up, and one for external tests. -/
def samplePaths : List String := ["a", "fmt", "a", "C", "b.org/x", "fmt", "b_test", "b.org/x"]

/-- Three of the paths have targets, which are remembered once each. -/
theorem resolveEach_eq_map_answer_sample :
    sample.Steady ∧
      (sample.resolveEach .initial samplePaths).2.cache.keys = ["a", "fmt", "b.org/x"] ∧
      (sample.resolveEach .initial samplePaths).1 =
        samplePaths.map (fun path => (sample.resolve .initial path).1) ∧
      ("b.org/x", Target.ofUnit "https://c.org/r" "c.org/r/x") ∈
        (sample.resolveEach .initial samplePaths).2.cache.entries := by
  have hsteady : sample.Steady := fun _ _ _ => rfl
  obtain ⟨hresults, -, hentries⟩ := resolveEach_eq_map_answer hsteady samplePaths
  refine ⟨hsteady, by decide +kernel, hresults, (hentries _ _).mpr ?_⟩
  rw [hresults]
  decide +kernel

end Resolver

end SymbolGraph
