import SymbolGraph.Proofs.Resolve.History

/-!
# What lies in the tree

A target in the tree being graphed is told from others by one thing only, that it has no address.
No other target is without one (`Resolver.cloneUrl_eq_empty_iff`): a rule always gives an address
that begins with a scheme, a lookup's answer keeps the colon of its scheme when slashes and `.git`
are taken off its end, and a path that stands for itself is not empty. A path is in the tree
exactly if the build context finds a directory for it whose components begin with those of the
tree's root or of a vendor root. For such a path neither rules nor lookups matter, nor what was
resolved before.
-/

namespace SymbolGraph

open Text

/-! ## Trees -/

/-- A path can be seen from a base exactly if its components begin with the base's. -/
theorem UnixPath.isSome_relativeTo? {p base : UnixPath} :
    (p.relativeTo? base).isSome ↔ base.components <+: p.components := by
  rw [Option.isSome_iff_exists]
  simp only [UnixPath.relativeTo?_eq_some_iff]
  constructor
  · rintro ⟨rest, hrest⟩
    exact ⟨rest, hrest.symm⟩
  · rintro ⟨rest, hrest⟩
    exact ⟨rest, hrest.symm⟩

namespace SourceTree

variable {tree : SourceTree} {dir : UnixPath} {path : String}

/-- A directory lies in a tree if its path begins, component by component, with the tree's root or
with a vendor root. -/
def Holds (tree : SourceTree) (dir : UnixPath) : Prop :=
  ∃ base ∈ tree.root :: tree.vendorRoots, base.components <+: dir.components

/-- The directories that have a unit are those that lie in the tree. -/
theorem isSome_unitFor? : (tree.unitFor? dir path).isSome ↔ tree.Holds dir := by
  have hvendor : (tree.vendorRoots.findSome? dir.relativeTo?).isSome ↔
      ∃ base ∈ tree.vendorRoots, base.components <+: dir.components := by
    rw [List.findSome?_isSome_iff]
    simp only [UnixPath.isSome_relativeTo?]
  simp only [Holds, List.mem_cons, or_and_right, exists_or, exists_eq_left]
  rw [← hvendor, ← UnixPath.isSome_relativeTo?]
  unfold unitFor? UnixPath.isUnder
  cases tree.vendorRoots.findSome? dir.relativeTo? with
  | some rest => simp
  | none => cases dir.relativeTo? tree.root <;> simp

end SourceTree

/-! ## Addresses -/

/-- The ending `.git` takes only its own characters away. -/
theorem mem_dropGit {c : Char} {text : List Char} (h : c ∈ text) (hc : c ∉ ".git".toList) :
    c ∈ dropGit text := by
  unfold dropGit
  cases hrest : stripEnd? ".git".toList text with
  | none => exact h
  | some rest =>
    rw [stripEnd?_eq_some_iff.mp hrest, List.mem_append] at h
    exact h.resolve_right hc

/-- Every target of a rule has an address. -/
theorem Rule.exists_cloneUrl {rule : Rule} {path version : String} {t : Target}
    (h : rule.target path version = .ok (some t)) :
    ∃ place, t.cloneUrl = "https://" ++ place := by
  unfold Rule.target at h
  split at h
  · cases h
  · cases h
    exact ⟨"github.com/golang/go", (by decide : libraryRepo = _)⟩
  · dsimp only at h
    split at h
    · cases h
    · cases h
      exact ⟨_, rfl⟩
  · cases h
    exact ⟨_, rfl⟩
  · dsimp only at h
    split at h
    · cases h
    · cases h
      exact ⟨_, by rw [Target.ofUnit, String.append_assoc, String.append_assoc]⟩
  · split at h
    · cases h
      exact ⟨_, rfl⟩
    · cases h

/-- The targets of rules have addresses. -/
theorem Rule.cloneUrl_ne {rule : Rule} {path version : String} {t : Target}
    (h : rule.target path version = .ok (some t)) : t.cloneUrl ≠ "" := by
  obtain ⟨place, hplace⟩ := rule.exists_cloneUrl h
  rw [hplace]
  intro hempty
  have hchars := congrArg String.toList hempty
  simp at hchars

namespace Resolver

variable {r : Resolver} {s : ResolverState} {path : String} {t : Target}

/-- Every address that the remote lookup answers with has a scheme. -/
def FindsAddresses (r : Resolver) : Prop :=
  ∀ n path found, r.lookup n path = some found → "://".toList <:+: found.repo.toList

/-- The address in an answer of the lookup stays one when slashes and `.git` are taken off its
end, because the colon of its scheme stays. -/
theorem lookupTarget_cloneUrl_ne {found? : Option RepoRoot} (hpath : path ≠ "")
    (hfound : ∀ found, found? = some found → "://".toList <:+: found.repo.toList) :
    (lookupTarget path found?).cloneUrl ≠ "" := by
  cases found? with
  | none => exact hpath
  | some found =>
    have hcolon : ':' ∈ found.repo.toList := (hfound found rfl).subset (by decide)
    have hkept : ':' ∈ dropGit (trimEnd (· == '/') found.repo.toList) :=
      mem_dropGit (mem_trimEnd hcolon (by decide)) (by decide)
    intro hempty
    have hchars := congrArg String.toList hempty
    rw [lookupTarget, Target.ofUnit, String.toList_ofList] at hchars
    rw [hchars] at hkept
    cases hkept

/-! ## Paths in the tree -/

/-- The build context finds a directory for a path, and it lies in the tree. -/
def FindsInTree (r : Resolver) (path : String) : Prop :=
  ∃ dir, r.findDir path = some dir ∧ r.tree.Holds dir

/-- A path has a unit in the tree exactly if the build context finds a directory for it there. -/
theorem isSome_localUnit? : (r.localUnit? path).isSome ↔ r.FindsInTree path := by
  unfold localUnit? FindsInTree
  cases r.findDir path with
  | none => simp
  | some dir => simp [SourceTree.isSome_unitFor?]

/-- A path with a unit in the tree has that for its target. -/
theorem resolveAnew_of_localUnit {unit : String} (h : r.localUnit? path = some unit) :
    (r.resolveAnew s path).1 = .ok (some (.inTree unit)) := by
  unfold resolveAnew
  rw [h]

/-- Resolved anew, a path gets a target without an address exactly if it is in the tree. -/
theorem cloneUrl_of_resolveAnew (hr : r.FindsAddresses) (hpath : path ≠ "")
    (h : (r.resolveAnew s path).1 = .ok (some t)) : t.cloneUrl = "" ↔ r.FindsInTree path := by
  rw [← isSome_localUnit?]
  cases hunit : r.localUnit? path with
  | some unit =>
    rw [resolveAnew_of_localUnit hunit] at h
    cases h
    exact ⟨fun _ => rfl, fun _ => rfl⟩
  | none =>
    have hne : t.cloneUrl ≠ "" := by
      unfold resolveAnew at h
      rw [hunit] at h
      dsimp only at h
      split at h
      · exact Rule.cloneUrl_ne h
      · cases h
        exact lookupTarget_cloneUrl_ne hpath fun found => hr _ _ found
    exact ⟨fun hempty => absurd hempty hne, fun hsome => by cases hsome⟩

/-- A path in the tree that is not that of an external test package has its unit as target, under
any history. -/
theorem Later.resolve_of_localUnit {unit : String} (hs : r.Later .initial s)
    (hunit : r.localUnit? path = some unit)
    (hproper : endsWith "_test".toList path.toList = false) :
    (r.resolve s path).1 = .ok (some (.inTree unit)) := by
  cases hc : s.cache.get? path with
  | some t =>
    have hcall : (r.resolve s path).1 = .ok (some t) := by rw [resolve_of_cached hc]
    have hall : ∀ unit, r.localUnit? path = some unit → t = .inTree unit := by
      refine hs.forall_of_resolve
        (P := fun path t => ∀ unit, r.localUnit? path = some unit → t = .inTree unit) ?_ hcall
      intro _ path t _ hanew unit hunit
      rw [resolveAnew_of_localUnit hunit] at hanew
      cases hanew
      rfl
    rw [hcall, hall unit hunit]
  | none => rw [resolve_fst_of_uncached hc hproper, resolveAnew_of_localUnit hunit]

/-- Two resolvers for one tree that find the same directories. Their rules, versions and lookups
may differ. -/
def SameTree (r other : Resolver) : Prop := other.tree = r.tree ∧ other.findDir = r.findDir

/-- Resolvers for one tree find the same units in it. -/
theorem SameTree.localUnit?_eq {other : Resolver} (h : r.SameTree other) (path : String) :
    other.localUnit? path = r.localUnit? path := by
  unfold localUnit?
  rw [h.1, h.2]

/-- **What is in the tree is told by the address.** If the addresses that the remote lookup answers
with have a scheme, then under any history the target of a path that is not empty has no address
exactly if the build context finds a directory for the path that lies in the tree. Such a path has
the same target with any other rules, version and lookup, under any history of its own. -/
theorem cloneUrl_eq_empty_iff (hr : r.FindsAddresses) (hs : r.Later .initial s)
    (hpath : path ≠ "") (h : (r.resolve s path).1 = .ok (some t)) :
    (t.cloneUrl = "" ↔ r.FindsInTree path) ∧
      (r.FindsInTree path → ∀ other, r.SameTree other → ∀ s', other.Later .initial s' →
        (other.resolve s' path).1 = .ok (some t)) := by
  have hproper : endsWith "_test".toList path.toList = false :=
    hs.forall_of_resolve (P := fun path _ => endsWith "_test".toList path.toList = false)
      (fun _ _ _ hproper _ => hproper) h
  have hiff : path ≠ "" → (t.cloneUrl = "" ↔ r.FindsInTree path) :=
    hs.forall_of_resolve
      (P := fun path t => path ≠ "" → (t.cloneUrl = "" ↔ r.FindsInTree path))
      (fun _ _ _ _ hanew hpath => cloneUrl_of_resolveAnew hr hpath hanew) h
  refine ⟨hiff hpath, fun hin other hother s' hs' => ?_⟩
  obtain ⟨unit, hunit⟩ := Option.isSome_iff_exists.mp (isSome_localUnit?.mpr hin)
  have hown := hs.resolve_of_localUnit hunit hproper
  rw [h] at hown
  rw [hs'.resolve_of_localUnit ((hother.localUnit?_eq path).trans hunit) hproper, hown]

/-- A resolver for a tree with a vendor root beside it, in which a package is found that the
standard rules have a repository for. One lookup answers, with an address that ends in `.git`. -/
def vendoring : Resolver where
  tree := ⟨⟨"/tree"⟩, [⟨"/deps/src"⟩]⟩
  findDir := fun path =>
    if path = "github.com/x/y" then some ⟨"/deps/src/github.com/x/y/"⟩
    else if path = "fmt" then some ⟨"/go/src/fmt"⟩ else none
  rules := Rule.standard
  version := ""
  lookup := fun _ path => if path = "v.org/p" then some ⟨"v.org/p", "https://h.org/.git"⟩ else none

/-- The vendored package is in the tree, also when a package outside the tree has been found before
and another one has been looked up, and although a rule accepts its path. -/
theorem cloneUrl_eq_empty_iff_vendored :
    vendoring.FindsAddresses ∧ vendoring.FindsInTree "github.com/x/y" ∧
      Rule.standard.any (·.accepts "github.com/x/y") = true ∧
      (vendoring.resolve (vendoring.resolveEach .initial ["fmt", "v.org/p"]).2
        "github.com/x/y").1 = .ok (some (.inTree "github.com/x/y")) ∧
      ∀ other, vendoring.SameTree other → ∀ s', other.Later .initial s' →
        (other.resolve s' "github.com/x/y").1 = .ok (some (.inTree "github.com/x/y")) := by
  have hr : vendoring.FindsAddresses := by
    intro n path found h
    unfold vendoring at h
    dsimp only at h
    split at h
    · cases h
      exact ⟨"https".toList, "h.org/.git".toList, by decide⟩
    · cases h
  have h : (vendoring.resolve (vendoring.resolveEach .initial ["fmt", "v.org/p"]).2
      "github.com/x/y").1 = .ok (some (.inTree "github.com/x/y")) := by
    decide +kernel
  obtain ⟨hiff, hsame⟩ :=
    cloneUrl_eq_empty_iff hr (vendoring.later_resolveEach _ _) (by decide) h
  have hin := hiff.mp rfl
  exact ⟨hr, hin, by decide +kernel, h, hsame hin⟩

end Resolver

end SymbolGraph
