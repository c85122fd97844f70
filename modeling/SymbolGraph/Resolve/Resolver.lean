import SymbolGraph.Resolve.RepoRoot
import SymbolGraph.Resolve.SourceTree
import SymbolGraph.Table

/-!
# Resolving import paths

An import path is looked for in the tree being graphed, then among the rules, and last in a
remote lookup, whose failure leaves the path to stand for itself. Targets are remembered;
failures and paths without a target are not, so that they are tried again.

Main statements: `resolve_of_cached` (a remembered target is the answer) and
`cache_get?_of_target` (after an answer the target is remembered).
-/

namespace SymbolGraph

open Text

/-- The targets found so far, by import path. -/
abbrev TargetCache := Table String Target

/-- Remembers a target unless the path has one already, and gives the one it has. -/
def TargetCache.remember (c : TargetCache) (path : String) (t : Target) :
    Target × TargetCache :=
  ((c.get? path).getD t, c.insertNew path t)

/-- What resolving depends on. -/
structure Resolver where
  tree : SourceTree
  /-- The directory of a package seen from the tree's root. -/
  findDir : String → Option UnixPath
  rules : List Rule
  /-- The version reported for the language's own packages. -/
  version : String
  /-- The answer of a remote lookup, given the number of lookups before it. -/
  lookup : Nat → String → Option RepoRoot

/-- What a resolver remembers between calls. -/
structure ResolverState where
  cache : TargetCache
  /-- The number of remote lookups made. -/
  lookups : Nat
  deriving Repr, Inhabited

/-- The state before the first call. -/
def ResolverState.initial : ResolverState := ⟨.empty, 0⟩

namespace Resolver

/-- A resolver for a tree in which no package is found and that has no remote lookup. -/
def ofTree (tree : SourceTree) : Resolver where
  tree := tree
  findDir := fun _ => none
  rules := Rule.standard
  version := ""
  lookup := fun _ _ => none

/-- The unit of a path inside the tree. -/
def localUnit? (r : Resolver) (path : String) : Option String :=
  (r.findDir path).bind fun dir => r.tree.unitFor? dir path

/-- The target of a path whose repository a lookup has found, or not. -/
def lookupTarget (path : String) : Option RepoRoot → Target
  | some found =>
    let url := String.ofList (dropGit (trimEnd (· == '/') found.repo.toList))
    Target.ofUnit url (replaceRoot path found.root url)
  | none => Target.ofUnit path path

/-- Resolves a path without regard to what is remembered. -/
def resolveAnew (r : Resolver) (s : ResolverState) (path : String) :
    Except ResolveError (Option Target) × ResolverState :=
  match r.localUnit? path with
  | some unit => (.ok (some (Target.inTree unit)), s)
  | none =>
    match r.rules.find? (·.accepts path) with
    | some rule => (rule.target path r.version, s)
    | none =>
      (.ok (some (lookupTarget path (r.lookup s.lookups path))),
        { s with lookups := s.lookups + 1 })

/-- The target of an import path; `none` if it has none. -/
def resolve (r : Resolver) (s : ResolverState) (path : String) :
    Except ResolveError (Option Target) × ResolverState :=
  match s.cache.get? path with
  | some t => (.ok (some t), s)
  | none =>
    if endsWith "_test".toList path.toList then (.error (.testPackage path), s)
    else
      match r.resolveAnew s path with
      | (.ok (some t), s) => (.ok (some t), { s with cache := s.cache.insertNew path t })
      | (.ok none, s) => (.ok none, s)
      | (.error e, s) => (.error e, s)

/-- A remembered target is the answer. -/
theorem resolve_of_cached {r : Resolver} {s : ResolverState} {path : String} {t : Target}
    (h : s.cache.get? path = some t) : r.resolve s path = (.ok (some t), s) := by
  simp [resolve, h]

/-- Resolving anew leaves the cache alone. -/
theorem resolveAnew_cache (r : Resolver) (s : ResolverState) (path : String) :
    (r.resolveAnew s path).2.cache = s.cache := by
  unfold resolveAnew
  split
  · rfl
  · split <;> rfl

/-- After an answer the target is remembered. -/
theorem cache_get?_of_target {r : Resolver} {s s' : ResolverState} {path : String} {t : Target}
    (h : r.resolve s path = (.ok (some t), s')) : s'.cache.get? path = some t := by
  cases hc : s.cache.get? path with
  | some u =>
    rw [resolve_of_cached hc] at h
    obtain ⟨h1, rfl⟩ := Prod.mk.inj h
    cases h1
    exact hc
  | none =>
    have hcache := resolveAnew_cache r s path
    simp only [resolve, hc] at h
    split at h
    · cases h
    · split at h
      · rename_i u s2 heq
        rw [heq] at hcache
        obtain ⟨h1, rfl⟩ := Prod.mk.inj h
        cases h1
        simp only at hcache
        simp [Table.get?_insertNew, hcache, hc]
      · cases h
      · cases h

/-- The form used in listings. -/
def describe (r : Resolver) (s : ResolverState) : String :=
  "ImportResolver \x7b layout: " ++ r.tree.describe ++ ", rules: " ++ toString r.rules.length
    ++ ", cached: " ++ toString s.cache.size ++ ", go_version: " ++ quoted r.version ++ " \x7d"

end Resolver

end SymbolGraph
