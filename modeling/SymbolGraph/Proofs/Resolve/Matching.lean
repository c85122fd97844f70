import SymbolGraph.Proofs.Resolve.Repetition
import SymbolGraph.Proofs.Text.Elements

/-!
# Which rule is for a path

Every matcher asks for certain first elements of a path (`Matcher.roots`). If what two matchers ask
for is not the beginning of one another, they accept no path in common
(`Matcher.Apart.not_accepts`), and that can be told without looking at any path. The standard rules
are apart in this way, so that at most one of them is for a path, and the order of their list
decides nothing (`Resolver.resolveEach_of_perm`).
-/

namespace SymbolGraph

open Text

/-! ## Matchers -/

/-- A path is a root or lies below it exactly if its elements begin with those of the root. -/
theorem hasRootPath_iff {root path : String} :
    hasRootPath root path = true ↔ elements root <+: elements path := by
  unfold hasRootPath belowRoot? elements
  rw [splitOn_prefix_iff]
  constructor
  · intro h
    split at h
    · rename_i hrest
      rw [stripStart?_eq_some_iff] at hrest
      exact .inl (by simpa using hrest)
    · rename_i below hrest
      exact .inr ⟨below, stripStart?_eq_some_iff.mp hrest⟩
    · cases h
  · rintro (hsame | ⟨below, hbelow⟩)
    · rw [stripStart?_eq_some_iff.mpr (hsame.trans (List.append_nil _).symm)]
      rfl
    · rw [stripStart?_eq_some_iff.mpr hbelow]
      rfl

namespace Matcher

variable {m m' : Matcher} {path : String}

/-- The first elements that a matcher asks for. -/
def roots : Matcher → List (List (List Char))
  | .exact p => [elements p]
  | .root p => [elements p]
  | .library => libraryRoots.map elements

/-- A path that a matcher accepts begins with what it asks for. -/
theorem exists_root_of_accepts (h : m.accepts path = true) :
    ∃ root ∈ m.roots, root <+: elements path := by
  cases m with
  | exact p =>
    obtain rfl : path = p := by simpa [accepts] using h
    exact ⟨_, List.mem_singleton_self _, List.prefix_refl _⟩
  | root p => exact ⟨_, List.mem_singleton_self _, hasRootPath_iff.mp h⟩
  | library =>
    obtain ⟨rest, hrest⟩ := exists_splitOn_eq '/' path.toList
    have hslash : '/' ∉ firstPiece '/' path.toList :=
      not_mem_of_splitOn_eq hrest _ List.mem_cons_self
    refine ⟨elements (String.ofList (firstPiece '/' path.toList)), ?_, ?_⟩
    · exact List.mem_map_of_mem (by simpa [accepts] using h)
    · rw [elements, elements, String.toList_ofList, splitOn_of_not_mem hslash, hrest]
      exact List.prefix_append _ _

/-- Nothing that one matcher asks for is the beginning of what the other asks for. -/
def Apart (m m' : Matcher) : Prop :=
  ∀ root ∈ m.roots, ∀ root' ∈ m'.roots, ¬ root <+: root' ∧ ¬ root' <+: root

instance (m m' : Matcher) : Decidable (m.Apart m') :=
  inferInstanceAs (Decidable (∀ root ∈ m.roots, ∀ root' ∈ m'.roots,
    ¬ root <+: root' ∧ ¬ root' <+: root))

/-- Matchers that are apart accept no path in common. -/
theorem Apart.not_accepts (h : m.Apart m') (hm : m.accepts path = true) :
    ¬ m'.accepts path = true := by
  intro hm'
  obtain ⟨root, hroot, hpath⟩ := exists_root_of_accepts hm
  obtain ⟨root', hroot', hpath'⟩ := exists_root_of_accepts hm'
  obtain ⟨hnot, hnot'⟩ := h root hroot root' hroot'
  rcases List.prefix_or_prefix_of_prefix hpath hpath' with hprefix | hprefix
  · exact hnot hprefix
  · exact hnot' hprefix

end Matcher

/-! ## Lists of rules -/

namespace Rule

variable {rules rules' : List Rule} {path : String}

/-- Of rules that are apart at most one is for a path. -/
theorem length_filter_accepts_le
    (h : rules.Pairwise fun rule rule' => rule.matcher.Apart rule'.matcher) (path : String) :
    (rules.filter (·.accepts path)).length ≤ 1 := by
  have hpairs := h.filter (·.accepts path)
  cases hfound : rules.filter (·.accepts path) with
  | nil => simp
  | cons rule rest =>
    cases rest with
    | nil => simp
    | cons rule' rest =>
      rw [hfound, List.pairwise_cons] at hpairs
      have hboth : ∀ other ∈ rule :: rule' :: rest, other.accepts path = true := by
        intro other hother
        rw [← hfound] at hother
        exact (List.mem_filter.mp hother).2
      have hapart := hpairs.1 rule' List.mem_cons_self
      exact absurd (hboth rule' (by simp)) (hapart.not_accepts (hboth rule (by simp)))

/-- If at most one rule is for a path, the first one that is does not depend on the order. -/
theorem find?_accepts_of_perm (hperm : rules.Perm rules')
    (hone : (rules.filter (·.accepts path)).length ≤ 1) :
    rules.find? (·.accepts path) = rules'.find? (·.accepts path) := by
  have hfound := hperm.filter (·.accepts path)
  rw [← List.head?_filter, ← List.head?_filter]
  cases hrules : rules.filter (·.accepts path) with
  | nil =>
    rw [hrules] at hfound
    rw [hfound.symm.eq_nil]
  | cons rule rest =>
    rw [hrules, List.length_cons] at hone
    obtain rfl : rest = [] := List.eq_nil_of_length_eq_zero (by omega)
    rw [hrules] at hfound
    rw [hfound.symm.eq_singleton]

/-- The standard rules are apart. -/
theorem pairwise_apart_standard :
    standard.Pairwise fun rule rule' => rule.matcher.Apart rule'.matcher := by
  decide +kernel

end Rule

/-! ## Resolvers -/

namespace Resolver

variable {r : Resolver} {rules rules' : List Rule}

/-- A resolver with other rules. -/
def withRules (r : Resolver) (rules : List Rule) : Resolver := { r with rules := rules }

/-- Of its rules a resolver only asks which one is the first for a path. -/
theorem resolve_withRules {path : String}
    (h : rules.find? (·.accepts path) = rules'.find? (·.accepts path)) (s : ResolverState) :
    (r.withRules rules).resolve s path = (r.withRules rules').resolve s path := by
  have hanew :
      (r.withRules rules).resolveAnew s path = (r.withRules rules').resolveAnew s path := by
    unfold resolveAnew withRules
    dsimp only
    rw [h]
    rfl
  unfold resolve
  rw [hanew]

/-- Rules in another order decide paths alike if the first one that accepts a path is the same. -/
theorem resolveEach_withRules
    (h : ∀ path, rules.find? (·.accepts path) = rules'.find? (·.accepts path))
    (s : ResolverState) (paths : List String) :
    (r.withRules rules).resolveEach s paths = (r.withRules rules').resolveEach s paths := by
  induction paths generalizing s with
  | nil => rfl
  | cons path rest ih =>
    unfold resolveEach
    rw [resolve_withRules (h path)]
    simp only [ih]

/-- **The order of the standard rules decides nothing.** At most one of them is for a path. So two
resolvers that have them in any two orders, and are alike otherwise, give the same answers to any
paths that are resolved one after another, and remember the same. -/
theorem resolveEach_of_perm :
    (∀ path, (Rule.standard.filter (·.accepts path)).length ≤ 1) ∧
      ∀ rules rules', rules.Perm Rule.standard → rules'.Perm Rule.standard →
        ∀ (r : Resolver) (s : ResolverState) (paths : List String),
          (r.withRules rules).resolveEach s paths = (r.withRules rules').resolveEach s paths := by
  have hone := Rule.length_filter_accepts_le Rule.pairwise_apart_standard
  refine ⟨hone, fun rules rules' hrules hrules' r s paths => ?_⟩
  apply resolveEach_withRules
  intro path
  rw [← Rule.find?_accepts_of_perm hrules.symm (hone path),
    Rule.find?_accepts_of_perm hrules'.symm (hone path)]

/-- The standard rules from the last to the first, for paths whose first elements begin alike. -/
theorem resolveEach_of_perm_reverse :
    let paths := ["google.golang.org/api/x", "google.golang.org/appengine", "C", "cmd/go"]
    Rule.standard.reverse.Perm Rule.standard ∧
      (sample.withRules Rule.standard.reverse).resolveEach .initial paths =
        sample.resolveEach .initial paths := by
  intro paths
  have hperm : Rule.standard.reverse.Perm Rule.standard := List.reverse_perm _
  exact ⟨hperm, resolveEach_of_perm.2 _ _ hperm (.refl _) sample .initial paths⟩

end Resolver

end SymbolGraph
