import SymbolGraph.Proofs.Resolve.Matching
import SymbolGraph.Resolve.RepoRoot

/-!
# Units and their repositories

A rule that is not about the language's own packages reads a repository off the first elements of a
path (`Rule.IsRepo`), and may put another place for it. In either case the unit of the target is the
identifier of the target's repository and behind it the rest of the path (`Rule.Relocates`). The
identifier is found from the address that the repository is cloned from, which is why no element of
the path may end as such an address does (`repoUri_https`).
-/

namespace SymbolGraph

open Text

variable {path version : String} {front back : List (List Char)} {start last : List Char}

/-! ## Identifiers of repositories -/

/-- Nothing is taken off the end of a bare text when an address becomes an identifier. -/
def IsBare (text : List Char) : Prop := text.getLast? ≠ some '/' ∧ ¬ ".git".toList <:+ text

instance (text : List Char) : Decidable (IsBare text) :=
  inferInstanceAs (Decidable (_ ≠ _ ∧ ¬ _))

/-- Nothing is taken off where a bare text stands behind a slash. -/
theorem IsBare.append (h : IsBare last) (hne : last ≠ []) (hstart : ['/'] <:+ start) :
    IsBare (start ++ last) := by
  refine ⟨by rw [List.getLast?_append_of_ne_nil _ hne]; exact h.1, fun hgit => h.2 ?_⟩
  obtain ⟨stem, rfl⟩ := hstart
  rw [List.append_assoc] at hgit
  exact suffix_of_suffix_append_cons (by decide) hgit

/-- An element that may be the last of a repository's place. -/
structure IsPlainElem (elem : List Char) : Prop where
  ne_nil : elem ≠ []
  slash_not_mem : '/' ∉ elem
  not_git : ¬ ".git".toList <:+ elem

/-- An element that may be the last of a place is bare alone. -/
theorem IsPlainElem.isBare (h : IsPlainElem last) : IsBare last :=
  ⟨fun hlast => h.slash_not_mem (List.mem_of_getLast? hlast), h.not_git⟩

/-- An element that may be the last of a place is bare behind a slash, too. -/
theorem IsPlainElem.isBare_append (h : IsPlainElem last) (hstart : start = [] ∨ ['/'] <:+ start) :
    IsBare (start ++ last) := by
  rcases hstart with rfl | hstart
  · exact h.isBare
  · exact h.isBare.append h.ne_nil hstart

/-- The ending `.git` is taken off. -/
theorem dropGit_append (text : List Char) : dropGit (text ++ ".git".toList) = text := by
  rw [dropGit, stripEnd?_eq_some_iff.mpr rfl, Option.getD_some]

/-- A bare text has no such ending. -/
theorem IsBare.dropGit_eq {text : List Char} (h : IsBare text) : dropGit text = text := by
  have hkept : stripEnd? ".git".toList text = none := by
    rw [← Option.not_isSome_iff_eq_none]
    exact fun hends => h.2 (endsWith_iff.mp hends)
  rw [dropGit, hkept, Option.getD_none]

/-- Where there is no slash at the end, none is taken off. -/
theorem trimEnd_of_getLast?_ne {text : List Char} (h : text.getLast? ≠ some '/') :
    trimEnd (· == '/') text = text := by
  apply trimEnd_of_getLast?
  rintro c hc
  by_contra hslash
  obtain rfl : c = '/' := by simpa using hslash
  exact h hc

/-- A scheme in which no other ends is what stands before the place. -/
theorem afterScheme?_of_not_infix {scheme : List Char} (h : ¬ "://".toList <:+: scheme)
    (place : List Char) : afterScheme? (scheme ++ ("://".toList ++ place)) = some place := by
  have hend : ¬ "://".toList <:+: scheme ++ "://".toList.dropLast := by
    have hmark : scheme ++ "://".toList.dropLast = scheme ++ [':'] ++ ['/'] := by simp
    rw [hmark, List.infix_concat_iff, List.infix_concat_iff]
    rintro (⟨start, hstart⟩ | ⟨start, hstart⟩ | hoccurs)
    · have hlast := congrArg List.reverse hstart
      simp at hlast
    · have hlast := congrArg List.reverse hstart
      simp at hlast
    · exact h hoccurs
  rw [afterScheme?, splitFirst?_of_not_infix hend]
  rfl

/-- The identifier of a repository at a bare place is that place. -/
theorem repoUri_of_isBare {scheme place : String} (hscheme : ¬ "://".toList <:+: scheme.toList)
    (h : IsBare place.toList) : repoUri (scheme ++ "://" ++ place) = place := by
  have hlocation : afterScheme? (scheme ++ "://" ++ place).toList = some place.toList := by
    rw [String.toList_append, String.toList_append, List.append_assoc]
    exact afterScheme?_of_not_infix hscheme _
  rw [repoUri, hlocation, Option.getD_some, trimEnd_of_getLast?_ne h.1, h.dropGit_eq,
    String.ofList_toList]

/-- The identifier of a repository at a bare place is the place. -/
theorem repoUri_https {place : String} (h : IsBare place.toList) :
    repoUri ("https://" ++ place) = place :=
  @repoUri_of_isBare "https" place (by decide) h

/-! ## Paths and their first elements -/

/-- The path of some elements. -/
def pathOf (elems : List (List Char)) : String := String.ofList (join ['/'] elems)

/-- The path of some elements, by its characters. -/
theorem toList_pathOf (elems : List (List Char)) : (pathOf elems).toList = join ['/'] elems :=
  String.toList_ofList

/-- A path is that of its elements. -/
theorem pathOf_elements (path : String) : pathOf (elements path) = path :=
  ofList_join_elements path

/-- The elements of the first part of a path are the first ones. -/
theorem elements_pathOf (hpath : elements path = front ++ back) (hfront : front ≠ []) :
    elements (pathOf front) = front := by
  rw [elements, toList_pathOf]
  exact splitOn_join_front hpath hfront

/-- The identifier of the repository that is cloned from the place `pathOf front`. -/
theorem repoUri_pathOf (hfront : front ≠ []) (hlast : IsPlainElem (front.getLast hfront)) :
    repoUri ("https://" ++ pathOf front) = pathOf front := by
  obtain ⟨start, hstart, hjoin⟩ := exists_join_concat ['/'] front.dropLast
  apply repoUri_https
  rw [toList_pathOf, ← List.dropLast_concat_getLast hfront, hjoin]
  exact hlast.isBare_append hstart

@[simp] theorem pathOf_singleton (elem : List Char) : pathOf [elem] = String.ofList elem := rfl

/-- A path has an element, be it an empty one. -/
theorem elements_ne_nil (path : String) : elements path ≠ [] := splitOn_ne_nil _ _

/-- A path is that of its first elements, a slash, and that of the others. -/
theorem pathOf_append (hfront : front ≠ []) (hback : back ≠ []) :
    pathOf (front ++ back) = pathOf front ++ "/" ++ pathOf back := by
  rw [pathOf, join_append hfront hback, String.ofList_append, String.ofList_append]
  rfl

/-- A path begins with the path of its first elements, and goes on with a slash if there are
others. -/
theorem exists_pathOf_append (hfront : front ≠ []) (back : List (List Char)) :
    ∃ rest : String, pathOf (front ++ back) = pathOf front ++ rest ∧
      (rest = "" ∨ ∃ below, rest = "/" ++ below) := by
  obtain ⟨rest, hrest, hshape⟩ := @exists_join_append '/' _ back hfront
  refine ⟨String.ofList rest, by rw [pathOf, hrest, String.ofList_append, pathOf], ?_⟩
  rcases hshape with rfl | ⟨below, rfl⟩
  · exact .inl rfl
  · exact .inr ⟨String.ofList below, @String.ofList_append ['/'] below⟩

/-- One slash before an element that is not empty is taken off, and no more. -/
theorem IsPlainElem.trimStart_pathOf {elem : List Char} (h : IsPlainElem elem)
    (back : List (List Char)) :
    trimStart (· == '/') ('/' :: (pathOf (elem :: back)).toList) =
      (pathOf (elem :: back)).toList := by
  obtain ⟨rest, hrest, -⟩ := @exists_pathOf_append [elem] (by simp) back
  rw [List.singleton_append] at hrest
  match elem, h with
  | c :: elem, h =>
    have hc : (c == '/') = false := beq_false_of_ne fun heq => h.slash_not_mem (heq ▸ by simp)
    simp [trimStart, hrest, hc]
  | [], h => exact absurd rfl h.ne_nil

/-! ## What rules read off a path -/

/-- An element that ends in `.v` and a number, with something before. -/
def HasVersion (elem : List Char) : Prop :=
  ∃ name version, elem = name ++ ['.', 'v'] ++ version ∧ name ≠ [] ∧ version ≠ [] ∧
    ∀ c ∈ version, '0' ≤ c ∧ c ≤ '9'

/-- The test for versions finds the elements that end in one. -/
theorem isVersioned_iff {elem : List Char} : isVersioned elem = true ↔ HasVersion elem := by
  constructor
  · intro h
    unfold isVersioned at h
    split at h
    · rename_i name version hsplit
      simp only [Bool.and_eq_true, Bool.not_eq_true', List.isEmpty_eq_false_iff, List.all_eq_true,
        decide_eq_true_eq] at h
      exact ⟨name, version, eq_append_of_splitLast? hsplit, h.1.1, h.1.2, h.2⟩
    · cases h
  · rintro ⟨name, version, rfl, hname, hversion, hdigits⟩
    have hagain : ¬ ['.', 'v'] <:+: ['.', 'v'].tail ++ version := by
      intro hinfix
      have hdot : '.' ∈ 'v' :: version := hinfix.subset List.mem_cons_self
      rcases List.mem_cons.mp hdot with hv | hdigit
      · exact absurd hv (by decide)
      · exact absurd (hdigits '.' hdigit) (by decide)
    rw [isVersioned, splitLast?_of_not_infix (by decide) hagain]
    simpa [hname, hversion] using hdigits

namespace Rule

variable {rule : Rule} {t : Target}

/-- The elements of the path that a rule reads as a repository. -/
inductive IsRepo (rule : Rule) : List (List Char) → Prop
  | root {place : String} : rule.form = .movedTo place → IsRepo rule (elements rule.matcher.path)
  | belowRoot {place : String} (name : List Char) : rule.form = .reposBelow place →
      IsRepo rule (elements rule.matcher.path ++ [name])
  | host (front : List (List Char)) : rule.form = .hostRepo → front.length = 3 → IsRepo rule front
  | versioned (pkg : List Char) : rule.form = .gopkgIn → HasVersion pkg →
      IsRepo rule ["gopkg.in".toList, pkg]
  | userVersioned (user pkg : List Char) : rule.form = .gopkgIn → ¬ HasVersion user →
      HasVersion pkg → IsRepo rule ["gopkg.in".toList, user, pkg]

/-- The unit is the path with the identifier of the target's repository in place of the repository
that the rule reads off the path. -/
def Relocates (rule : Rule) (path : String) (t : Target) : Prop :=
  ∃ repo rest : String, rule.IsRepo (elements repo) ∧ path = repo ++ rest ∧
    t.unit = repoUri t.cloneUrl ++ rest ∧ (rest = "" ∨ ∃ below, rest = "/" ++ below)

/-- The place of a repository has an element. -/
theorem IsRepo.ne_nil (h : rule.IsRepo front) : front ≠ [] := by
  cases h with
  | root => exact splitOn_ne_nil _ _
  | host _ _ hlength => exact List.ne_nil_of_length_pos (by omega)
  | belowRoot | versioned | userVersioned => simp

/-- Where a repository stays, the path is the unit. -/
theorem relocates_of_kept (hrepo : rule.IsRepo front) (hpath : elements path = front ++ back)
    (hplain : ∀ e ∈ front, IsPlainElem e) :
    rule.Relocates path (Target.ofUnit ("https://" ++ pathOf front) path) := by
  have hne := hrepo.ne_nil
  obtain ⟨rest, hrest, hshape⟩ := exists_pathOf_append hne back
  rw [← hpath, pathOf_elements] at hrest
  refine ⟨pathOf front, rest, ?_, hrest, ?_, hshape⟩
  · rwa [elements_pathOf hpath hne]
  · rw [Target.ofUnit, repoUri_pathOf hne (hplain _ (List.getLast_mem hne))]
    exact hrest

/-- Below a host that names owners and repositories, the first three elements are the place. -/
theorem exists_repo_of_hostRepo (hform : rule.form = .hostRepo)
    (ht : rule.target path version = .ok (some t)) :
    ∃ front back, rule.IsRepo front ∧ elements path = front ++ back ∧
      t = Target.ofUnit ("https://" ++ pathOf front) path := by
  unfold target at ht
  rw [hform] at ht
  dsimp only at ht
  split at ht
  · cases ht
  · rename_i hlength
    cases ht
    refine ⟨(elements path).take 3, (elements path).drop 3, .host _ hform ?_,
      (List.take_append_drop 3 _).symm, rfl⟩
    rw [List.length_take, elements]
    omega

/-- The place of a repository with a version, written behind its host. -/
theorem pathOf_gopkgIn (hfront : front ≠ []) :
    pathOf ("gopkg.in".toList :: front) = "gopkg.in/" ++ pathOf front := by
  have hhost : pathOf ["gopkg.in".toList] ++ "/" = "gopkg.in/" := by decide
  rw [← List.singleton_append, pathOf_append (by simp) hfront, hhost]

/-- The repository of a path below `gopkg.in` is that of its first two or three elements. -/
theorem exists_repo_of_gopkgInRepo? {repo : String} (hform : rule.form = .gopkgIn)
    (hpath : elements path = "gopkg.in".toList :: front) (h : gopkgInRepo? path = some repo) :
    ∃ front back, rule.IsRepo front ∧ elements path = front ++ back ∧ repo = pathOf front := by
  unfold gopkgInRepo? at h
  rw [← elements, hpath] at h
  rw [hpath]
  cases front with
  | nil => cases h
  | cons first rest =>
    dsimp only at h
    split at h
    · rename_i hfirst
      cases h
      exact ⟨_, rest, .versioned first hform (isVersioned_iff.mp hfirst), rfl,
        by rw [pathOf_gopkgIn (by simp), pathOf_singleton]⟩
    · rename_i hfirst
      cases rest with
      | nil => cases h
      | cons second rest =>
        obtain ⟨hsecond, hrepo⟩ := Option.ite_none_right_eq_some.mp h
        cases hrepo
        refine ⟨_, rest, .userVersioned first second hform (mt isVersioned_iff.mpr hfirst)
          (isVersioned_iff.mp hsecond), rfl, ?_⟩
        rw [pathOf_gopkgIn (by simp), ← List.singleton_append, pathOf_append (by simp) (by simp),
          pathOf_singleton, pathOf_singleton]
        simp only [String.append_assoc]

/-- Below `gopkg.in` the place ends in the first element with a version. -/
theorem exists_repo_of_gopkgIn (hform : rule.form = .gopkgIn)
    (haccepts : hasRootPath "gopkg.in" path = true)
    (ht : rule.target path version = .ok (some t)) :
    ∃ front back, rule.IsRepo front ∧ elements path = front ++ back ∧
      t = Target.ofUnit ("https://" ++ pathOf front) path := by
  obtain ⟨below, hbelow⟩ := hasRootPath_iff.mp haccepts
  unfold target at ht
  rw [hform] at ht
  dsimp only at ht
  split at ht
  · rename_i repo hrepo
    cases ht
    obtain ⟨front, back, hisRepo, hpath, rfl⟩ :=
      exists_repo_of_gopkgInRepo? hform hbelow.symm hrepo
    exact ⟨front, back, hisRepo, hpath, rfl⟩
  · cases ht

/-- A rule that moves a whole root puts what is below the root below the new place. -/
theorem relocates_of_movedTo {root place : String} (hmatcher : rule.matcher = .root root)
    (hform : rule.form = .movedTo place) (hplace : IsBare place.toList)
    (haccepts : hasRootPath root path = true) (ht : rule.target path version = .ok (some t)) :
    rule.Relocates path t := by
  obtain ⟨back, hpath⟩ := hasRootPath_iff.mp haccepts
  obtain ⟨rest, hrest, hshape⟩ := exists_pathOf_append (elements_ne_nil root) back
  rw [hpath, pathOf_elements, pathOf_elements] at hrest
  subst hrest
  unfold target at ht
  rw [hform, hmatcher, Matcher.path] at ht
  dsimp only at ht
  cases ht
  refine ⟨root, rest, ?_, rfl, ?_, hshape⟩
  · have hroot := IsRepo.root hform
    rwa [hmatcher] at hroot
  · rw [Target.ofUnit, repoUri_https hplace, String.toList_append, replaceFirst_append]
    simp

/-- The target of a path whose repository stands below the rule's root. -/
theorem target_reposBelow {root place : String} {name : List Char} {more : List (List Char)}
    (hmatcher : rule.matcher = .root root) (hform : rule.form = .reposBelow place)
    (hpath : elements path = elements root ++ name :: more)
    (hplain : ∀ e ∈ elements path, IsPlainElem e) :
    rule.target path version = .ok (some (Target.ofUnit
      ("https://" ++ (place ++ "/" ++ pathOf [name]))
      (place ++ "/" ++ pathOf (name :: more)))) := by
  have hname : IsPlainElem name := hplain name (hpath ▸ by simp)
  have hbelow : path.toList = root.toList ++ '/' :: (pathOf (name :: more)).toList := by
    rw [← pathOf_elements path, hpath, pathOf_append (elements_ne_nil root) (by simp),
      pathOf_elements, String.append_assoc, String.toList_append, String.toList_append]
    rfl
  have hfirst : firstPiece '/' (pathOf (name :: more)).toList = name := by
    have hpieces : splitOn '/' (pathOf (name :: more)).toList = name :: more := by
      rw [toList_pathOf]
      exact splitOn_join (by simp) fun e he =>
        (hplain e (hpath ▸ List.mem_append_right _ he)).slash_not_mem
    exact firstPiece_of_splitOn hpieces
  unfold target
  rw [hform, hmatcher, Matcher.path]
  dsimp only
  rw [stripStart?_eq_some_iff.mpr hbelow, Option.getD_some, hname.trimStart_pathOf, hfirst,
    if_neg (by simp [hname.ne_nil])]
  simp [String.append_assoc]

/-- The root of such a rule has no target itself. -/
theorem target_reposBelow_root {root place : String} (hmatcher : rule.matcher = .root root)
    (hform : rule.form = .reposBelow place) (version : String) :
    rule.target root version = .error (.malformed root "expected a repository after the host") := by
  unfold target
  rw [hform, hmatcher, Matcher.path]
  dsimp only
  rw [stripStart?_eq_some_iff.mpr (List.append_nil root.toList).symm]
  rfl

/-- A rule that moves repositories puts each of them below the new place by its own element. -/
theorem relocates_of_reposBelow {root place : String} (hmatcher : rule.matcher = .root root)
    (hform : rule.form = .reposBelow place) (hplain : ∀ e ∈ elements path, IsPlainElem e)
    (haccepts : hasRootPath root path = true) (ht : rule.target path version = .ok (some t)) :
    rule.Relocates path t := by
  obtain ⟨back, hpath⟩ := hasRootPath_iff.mp haccepts
  cases back with
  | nil =>
    rw [← pathOf_elements path, ← hpath, List.append_nil, pathOf_elements,
      target_reposBelow_root hmatcher hform] at ht
    cases ht
  | cons name more =>
    rw [target_reposBelow hmatcher hform hpath.symm hplain] at ht
    cases ht
    have hsplit : elements path = (elements root ++ [name]) ++ more := by simp [← hpath]
    have hroot : pathOf (elements root ++ [name]) = root ++ "/" ++ pathOf [name] := by
      rw [pathOf_append (elements_ne_nil root) (by simp), pathOf_elements]
    have hname : IsBare (place ++ "/" ++ pathOf [name]).toList := by
      rw [String.toList_append, toList_pathOf]
      exact (hplain name (hsplit ▸ by simp)).isBare_append (.inr ⟨place.toList, by simp⟩)
    obtain ⟨rest, hrest, hshape⟩ := @exists_pathOf_append [name] (by simp) more
    refine ⟨pathOf (elements root ++ [name]), rest, ?_, ?_, ?_, hshape⟩
    · have hrepo := IsRepo.belowRoot name hform
      rwa [hmatcher, Matcher.path, ← elements_pathOf hsplit (by simp)] at hrepo
    · calc path = pathOf (elements root ++ ([name] ++ more)) := by
            rw [← pathOf_elements path, ← hpath, List.singleton_append]
        _ = pathOf (elements root ++ [name]) ++ rest := by
            rw [pathOf_append (elements_ne_nil root) (by simp), hrest, hroot, pathOf_elements]
            simp only [String.append_assoc]
    · rw [List.singleton_append] at hrest
      show place ++ "/" ++ pathOf (name :: more) =
        repoUri ("https://" ++ (place ++ "/" ++ pathOf [name])) ++ rest
      rw [repoUri_https hname, hrest]
      simp only [String.append_assoc]

/-- Whether a rule takes repositories off the paths at or below a root, and none of the places that
it puts for them would be changed on the way to the identifier. -/
def readsRepo (rule : Rule) : Bool :=
  match rule.matcher, rule.form with
  | .root _, .hostRepo => true
  | .root _, .movedTo place => decide (IsBare place.toList)
  | .root _, .reposBelow _ => true
  | .root root, .gopkgIn => root == "gopkg.in"
  | _, _ => false

/-- All standard rules but two read repositories off paths. -/
theorem readsRepo_of_mem_standard : ∀ rule ∈ standard, rule.name ≠ "cgo" → rule.name ≠ "stdlib" →
    rule.readsRepo = true := by
  decide

/-- **A unit stays inside its repository.** The target of a path by a standard rule, other than
those of the language's own packages, has as its unit the identifier of the target's repository
and behind it the part of the path that stands behind the repository in it. That part is empty or
begins with a slash. No element of the path may be empty or end as the address of a repository
does. -/
theorem relocates_of_mem_standard (hrule : rule ∈ standard) (hcgo : rule.name ≠ "cgo")
    (hlibrary : rule.name ≠ "stdlib") (hpath : ∀ e ∈ elements path, e ≠ [] ∧ ¬ ".git".toList <:+ e)
    (haccepts : rule.accepts path = true) (ht : rule.target path version = .ok (some t)) :
    ∃ repo rest : String, rule.IsRepo (elements repo) ∧ path = repo ++ rest ∧
      t.unit = repoUri t.cloneUrl ++ rest ∧ (rest = "" ∨ ∃ below, rest = "/" ++ below) := by
  have hplain : ∀ e ∈ elements path, IsPlainElem e := fun e he =>
    ⟨(hpath e he).1, not_mem_of_mem_splitOn he, (hpath e he).2⟩
  have hreads := readsRepo_of_mem_standard rule hrule hcgo hlibrary
  unfold readsRepo at hreads
  unfold accepts at haccepts
  have hkept : (∃ front back, rule.IsRepo front ∧ elements path = front ++ back ∧
      t = Target.ofUnit ("https://" ++ pathOf front) path) → rule.Relocates path t := by
    rintro ⟨front, back, hrepo, hsplit, rfl⟩
    exact relocates_of_kept hrepo hsplit fun e he =>
      hplain e (hsplit ▸ List.mem_append_left _ he)
  split at hreads <;> rename_i hmatcher hform
  · exact hkept (exists_repo_of_hostRepo hform ht)
  · rw [hmatcher] at haccepts
    exact relocates_of_movedTo hmatcher hform (of_decide_eq_true hreads) haccepts ht
  · rw [hmatcher] at haccepts
    exact relocates_of_reposBelow hmatcher hform hplain haccepts ht
  · rw [hmatcher, eq_of_beq hreads] at haccepts
    exact hkept (exists_repo_of_gopkgIn hform haccepts ht)
  · cases hreads

/-- A package below a repository that has moved to another host. -/
theorem relocates_of_mem_standard_golang :
    let rule : Rule := ⟨"golang-x", .root "golang.org/x", .reposBelow "github.com/golang"⟩
    let path := "golang.org/x/net/http/httpguts"
    let t := Target.ofUnit "https://github.com/golang/net" "github.com/golang/net/http/httpguts"
    rule ∈ standard ∧ rule.name ≠ "cgo" ∧ rule.name ≠ "stdlib" ∧
      (∀ e ∈ elements path, e ≠ [] ∧ ¬ ".git".toList <:+ e) ∧ rule.accepts path = true ∧
      rule.target path "" = .ok (some t) ∧
      ∃ repo rest : String, rule.IsRepo (elements repo) ∧ path = repo ++ rest ∧
        t.unit = repoUri t.cloneUrl ++ rest ∧ (rest = "" ∨ ∃ below, rest = "/" ++ below) := by
  intro rule path t
  have hrule : rule ∈ standard := by decide
  have hpath : ∀ e ∈ elements path, e ≠ [] ∧ ¬ ".git".toList <:+ e := by decide
  have haccepts : rule.accepts path = true := by decide
  have ht : rule.target path "" = .ok (some t) := by decide
  exact ⟨hrule, by decide, by decide, hpath, haccepts, ht,
    relocates_of_mem_standard hrule (by decide) (by decide) hpath haccepts ht⟩

end Rule

end SymbolGraph
