import Mathlib.Data.List.Basic
import SymbolGraph.Proofs.Resolve.History

/-!
# Lookups over time

What a remote lookup answers may change from call to call. A path is looked up once: the first
time it is resolved, unless it is in the tree, is accepted by a rule, or is that of an external
test package. The answer of that lookup decides its target from then on. This is so for a lookup
that fails, too: the path that then stands for itself is remembered as every target is, and
nothing is asked again. So all that is ever answered and remembered is told by the list of paths
that are looked up, in order (`Resolver.resolveEach_eq_map_firstAnswer`).
-/

namespace SymbolGraph

open Text

namespace Resolver

variable {r : Resolver} {s : ResolverState} {path : String}

/-- Whether a path is left to the remote lookup: it is not that of an external test package, it is
not in the tree, and no rule accepts it. -/
def leftToLookup (r : Resolver) (path : String) : Bool :=
  !endsWith "_test".toList path.toList && (r.localUnit? path).isNone &&
    (r.rules.find? (·.accepts path)).isNone

/-- What is left to the lookup: no external test package, nothing in the tree, and nothing that a
rule accepts. -/
theorem leftToLookup_iff : r.leftToLookup path = true ↔
    endsWith "_test".toList path.toList = false ∧ r.localUnit? path = none ∧
      r.rules.find? (·.accepts path) = none := by
  simp only [leftToLookup, Bool.and_eq_true, Bool.not_eq_true', Option.isNone_iff_eq_none,
    and_assoc]

/-- A path that is left to the lookup and not remembered is looked up, and the target made of the
answer is remembered. -/
theorem resolve_of_leftToLookup (h : s.cache.get? path = none)
    (hleft : r.leftToLookup path = true) :
    r.resolve s path =
      (.ok (some (lookupTarget path (r.lookup s.lookups path))),
        ⟨s.cache.insertNew path (lookupTarget path (r.lookup s.lookups path)), s.lookups + 1⟩) := by
  obtain ⟨hproper, hunit, hrule⟩ := leftToLookup_iff.mp hleft
  unfold resolve resolveAnew
  rw [h, hproper, hunit, hrule]
  rfl

/-- Other paths are never looked up, and their answers do not depend on when they are resolved. -/
theorem resolve_of_not_leftToLookup (h : s.cache.get? path = none)
    (hleft : r.leftToLookup path = false) :
    (r.resolve s path).1 = r.answer path ∧ (r.resolve s path).2.lookups = s.lookups := by
  have hinitial : ResolverState.initial.cache.get? path = none := rfl
  unfold answer
  cases hproper : endsWith "_test".toList path.toList with
  | true =>
    unfold resolve
    rw [h, hinitial, hproper]
    exact ⟨rfl, rfl⟩
  | false =>
    have hanew : ∃ result, ∀ s, r.resolveAnew s path = (result, s) := by
      unfold resolveAnew
      cases hunit : r.localUnit? path with
      | some unit => exact ⟨_, fun _ => rfl⟩
      | none =>
        cases hrule : r.rules.find? (·.accepts path) with
        | some rule => exact ⟨_, fun _ => rfl⟩
        | none => rw [leftToLookup_iff.mpr ⟨hproper, hunit, hrule⟩] at hleft; cases hleft
    obtain ⟨result, hresult⟩ := hanew
    refine ⟨?_, ?_⟩
    · rw [resolve_fst_of_uncached h hproper, resolve_fst_of_uncached hinitial hproper, hresult,
        hresult]
    · unfold resolve
      rw [h, hproper, hresult]
      rcases result with e | _ | t <;> rfl

/-! ## The paths that are looked up -/

/-- The paths that are looked up while some paths are resolved, in order. -/
def lookedUp (r : Resolver) (paths : List String) : List String :=
  (paths.filter r.leftToLookup).eraseDups

/-- The answer for a path when some paths are looked up in order: what the lookup made for it
answers, or what is answered without a lookup. -/
def firstAnswer (r : Resolver) (asked : List String) (path : String) :
    Except ResolveError (Option Target) :=
  if r.leftToLookup path then .ok (some (lookupTarget path (r.lookup (asked.idxOf path) path)))
  else r.answer path

/-- The paths that are looked up are those among the resolved ones that are left to the lookup. -/
theorem mem_lookedUp {paths : List String} :
    path ∈ r.lookedUp paths ↔ path ∈ paths ∧ r.leftToLookup path = true := by
  rw [lookedUp, List.mem_eraseDups, List.mem_filter]

/-- Resolving more paths only adds to what is looked up. -/
theorem exists_lookedUp_append (r : Resolver) (paths more : List String) :
    ∃ rest, r.lookedUp (paths ++ more) = r.lookedUp paths ++ rest := by
  unfold lookedUp
  rw [List.filter_append, List.eraseDups_append]
  exact ⟨_, rfl⟩

/-- A new path that is left to the lookup is looked up after the others. -/
theorem lookedUp_concat_of_new {paths : List String} (hleft : r.leftToLookup path = true)
    (hnew : path ∉ paths) : r.lookedUp (paths ++ [path]) = r.lookedUp paths ++ [path] := by
  have hrest : [path].removeAll (paths.filter r.leftToLookup) = [path] := by
    simp [List.removeAll, hnew]
  unfold lookedUp
  rw [List.filter_append, List.eraseDups_append, List.filter_cons_of_pos hleft, List.filter_nil,
    hrest]
  rfl

/-- Any other path causes no lookup. -/
theorem lookedUp_concat_of_old {paths : List String}
    (h : r.leftToLookup path = true → path ∈ paths) :
    r.lookedUp (paths ++ [path]) = r.lookedUp paths := by
  have hrest : ([path].filter r.leftToLookup).removeAll (paths.filter r.leftToLookup) = [] := by
    cases hleft : r.leftToLookup path with
    | true => simp [List.removeAll, hleft, h hleft]
    | false => simp [hleft]
  unfold lookedUp
  rw [List.filter_append, List.eraseDups_append, hrest]
  simp

/-- The answer for a path stands when more paths are resolved. -/
theorem firstAnswer_append {paths : List String} (more : List String) (h : path ∈ paths) :
    r.firstAnswer (r.lookedUp (paths ++ more)) path = r.firstAnswer (r.lookedUp paths) path := by
  unfold firstAnswer
  split
  · rename_i hleft
    obtain ⟨rest, hrest⟩ := r.exists_lookedUp_append paths more
    rw [hrest, List.idxOf_append_of_mem (mem_lookedUp.mpr ⟨h, hleft⟩)]
  · rfl

/-! ## Histories -/

/-- What a resolver has done when some paths have been resolved: it has made one lookup for each
path that is looked up, and remembers the targets among the answers that stand. -/
structure Recalls (r : Resolver) (done : List String) (s : ResolverState) : Prop where
  lookups : s.lookups = (r.lookedUp done).length
  cached : ∀ path t, s.cache.get? path = some t ↔
    path ∈ done ∧ r.firstAnswer (r.lookedUp done) path = .ok (some t)

variable {done : List String}

/-- At the start nothing has been looked up. -/
theorem Recalls.initial (r : Resolver) : r.Recalls [] .initial where
  lookups := rfl
  cached _ _ := ⟨nofun, fun h => absurd h.1 List.not_mem_nil⟩

/-- Only a path that was not resolved before is looked up. -/
theorem Recalls.not_mem_of_leftToLookup (hs : r.Recalls done s) (h : s.cache.get? path = none)
    (hleft : r.leftToLookup path = true) : path ∉ done := by
  intro hmem
  have hcached := (hs.cached path _).mpr ⟨hmem, by rw [firstAnswer, if_pos hleft]⟩
  rw [h] at hcached
  cases hcached

/-- A call gives the answer that stands from then on, and makes a lookup if that is the first one
for the path. -/
theorem Recalls.resolve_eq (hs : r.Recalls done s) (path : String) :
    (r.resolve s path).1 = r.firstAnswer (r.lookedUp (done ++ [path])) path ∧
      (r.resolve s path).2.lookups = (r.lookedUp (done ++ [path])).length := by
  cases hc : s.cache.get? path with
  | some t =>
    obtain ⟨hmem, hanswer⟩ := (hs.cached path t).mp hc
    rw [resolve_of_cached hc, lookedUp_concat_of_old fun _ => hmem]
    exact ⟨hanswer.symm, hs.lookups⟩
  | none =>
    cases hleft : r.leftToLookup path with
    | true =>
      have hnew := hs.not_mem_of_leftToLookup hc hleft
      have hindex : (r.lookedUp done ++ [path]).idxOf path = s.lookups := by
        rw [List.idxOf_append_of_notMem fun hmem => hnew (mem_lookedUp.mp hmem).1,
          List.idxOf_cons_self, hs.lookups, Nat.add_zero]
      rw [resolve_of_leftToLookup hc hleft, lookedUp_concat_of_new hleft hnew, firstAnswer,
        if_pos hleft, hindex, List.length_append, hs.lookups]
      exact ⟨rfl, rfl⟩
    | false =>
      obtain ⟨hanswer, hlookups⟩ := resolve_of_not_leftToLookup hc hleft
      have hold : r.leftToLookup path = true → path ∈ done := fun h => by rw [hleft] at h; cases h
      rw [hanswer, hlookups, lookedUp_concat_of_old hold, firstAnswer, hleft]
      exact ⟨rfl, hs.lookups⟩

/-- Resolving one path more keeps what is recalled of all paths. -/
theorem Recalls.resolve (hs : r.Recalls done s) (path : String) :
    r.Recalls (done ++ [path]) (r.resolve s path).2 where
  lookups := (hs.resolve_eq path).2
  cached other t := by
    rw [get?_resolve_eq_some_iff, hs.cached, List.mem_append, List.mem_singleton]
    constructor
    · rintro (⟨hmem, hanswer⟩ | ⟨rfl, hanswer⟩)
      · exact ⟨.inl hmem, by rw [firstAnswer_append _ hmem, hanswer]⟩
      · exact ⟨.inr rfl, by rw [← (hs.resolve_eq other).1, hanswer]⟩
    · rintro ⟨hmem | rfl, hanswer⟩
      · exact .inl ⟨hmem, by rw [← firstAnswer_append [path] hmem, hanswer]⟩
      · exact .inr ⟨rfl, by rw [(hs.resolve_eq other).1, hanswer]⟩

/-- Resolving paths one after another answers each by the lookup that was made for it first, and
keeps what is recalled. -/
theorem Recalls.resolveEach (hs : r.Recalls done s) (paths : List String) :
    (r.resolveEach s paths).1 = paths.map (r.firstAnswer (r.lookedUp (done ++ paths))) ∧
      r.Recalls (done ++ paths) (r.resolveEach s paths).2 := by
  induction paths generalizing s done with
  | nil =>
    rw [List.append_nil]
    exact ⟨rfl, hs⟩
  | cons path rest ih =>
    obtain ⟨hrest, hlast⟩ := ih (hs.resolve path)
    have hmem : path ∈ done ++ [path] := List.mem_append_right _ List.mem_cons_self
    have hfirst :
        (r.resolve s path).1 = r.firstAnswer (r.lookedUp (done ++ path :: rest)) path := by
      rw [(hs.resolve_eq path).1, ← firstAnswer_append rest hmem, List.append_assoc]
      rfl
    rw [List.append_assoc] at hrest hlast
    refine ⟨?_, hlast⟩
    rw [List.map_cons, ← hfirst]
    exact congrArg _ hrest

end Resolver

end SymbolGraph
