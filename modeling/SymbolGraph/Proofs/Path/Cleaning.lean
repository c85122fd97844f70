import Mathlib.Logic.Relation
import SymbolGraph.Proofs.Text.Elements
import SymbolGraph.UnixPath

/-!
# Clean paths

What a path is without `.` and `..`, told by rules that take components out (`Shortens`): `.` goes,
`..` goes together with the name before it, and at the root it goes alone. Cleaning is what the
rules come to (`clean_eq_of_shortens`), so the clean form of a path (`IsCleanForm`) is there and is
the only one (`isCleanForm_iff`). A clean path is its own clean form from wherever it is seen
(`IsClean.absolutize_eq`).
-/

namespace SymbolGraph.UnixPath

open Text Relation

variable {cs ds front back : List Component} {names : List (List Char)} {root path dir : UnixPath}
  {text piece : List Char} {c : Component}

/-! ## Taking components out -/

/-- One component less, or two: `.` is taken out, and `..` with the name that it takes back; there
is nothing above the root. -/
inductive Shortens : List Component → List Component → Prop
  | here (front back : List Component) : Shortens (front ++ .here :: back) (front ++ back)
  | name (front back : List Component) (text : List Char) :
      Shortens (front ++ .name text :: .up :: back) (front ++ back)
  | root (front back : List Component) :
      Shortens (front ++ .root :: .up :: back) (front ++ .root :: back)

/-- The components of the directory that some names lead to from the root. -/
def below (names : List (List Char)) : List Component := .root :: names.map .name

/-- Different names lead to different directories. -/
theorem below_injective {names' : List (List Char)} (h : below names = below names') :
    names = names' :=
  (List.map_inj_right fun _ _ => Component.name.inj).mp (List.cons.inj h).2

/-- Names are added to what is clean already. -/
theorem foldl_cleanStep_name (done : List Component) (names : List (List Char)) :
    (names.map .name).foldl cleanStep done = done ++ names.map .name := by
  induction names generalizing done with
  | nil => simp
  | cons name names ih => simp [cleanStep, ih]

/-- Names below the root are clean. -/
theorem clean_below (names : List (List Char)) : clean (below names) = below names :=
  foldl_cleanStep_name [.root] names

/-- Taking components out does not change what cleaning gives. -/
theorem Shortens.clean_eq (h : Shortens cs ds) : clean cs = clean ds := by
  cases h with
  | here front back => simp [clean, cleanStep]
  | name front back text => simp [clean, cleanStep]
  | root front back => simp [clean, cleanStep]

/-- A way down from the root can be shortened to names alone. -/
theorem exists_shortens_below (names : List (List Char)) (hback : .root ∉ back) :
    ∃ names', ReflTransGen Shortens (below names ++ back) (below names') ∧
      ∀ name ∈ names', name ∈ names ∨ .name name ∈ back := by
  induction back generalizing names with
  | nil => exact ⟨names, by rw [List.append_nil], fun name hname => .inl hname⟩
  | cons c back ih =>
    rw [List.mem_cons, not_or] at hback
    have hnext := fun names => ih names hback.2
    cases c with
    | root => exact absurd rfl hback.1
    | here =>
      obtain ⟨names', hshort, hfrom⟩ := hnext names
      refine ⟨names', .head (.here _ _) hshort, fun name hname => ?_⟩
      exact (hfrom name hname).imp_right (List.mem_cons_of_mem _)
    | name text =>
      obtain ⟨names', hshort, hfrom⟩ := hnext (names ++ [text])
      refine ⟨names', ?_, fun name hname => ?_⟩
      · simpa [below] using hshort
      · rcases hfrom name hname with hold | hnew
        · rcases List.mem_append.mp hold with hold | hself
          · exact .inl hold
          · rw [List.mem_singleton.mp hself]
            exact .inr List.mem_cons_self
        · exact .inr (List.mem_cons_of_mem _ hnew)
    | up =>
      rcases List.eq_nil_or_concat names with rfl | ⟨above, last, rfl⟩
      · obtain ⟨names', hshort, hfrom⟩ := hnext []
        refine ⟨names', .head (.root [] back) hshort, fun name hname => ?_⟩
        exact (hfrom name hname).imp_right (List.mem_cons_of_mem _)
      · obtain ⟨names', hshort, hfrom⟩ := hnext above
        have hstep : Shortens (below (above.concat last) ++ .up :: back) (below above ++ back) := by
          simpa [below] using Shortens.name (below above) back last
        refine ⟨names', .head hstep hshort, fun name hname => ?_⟩
        rcases hfrom name hname with hold | hnew
        · exact .inl (by simp [hold])
        · exact .inr (List.mem_cons_of_mem _ hnew)

/-- If taking components out leaves names below the root, cleaning gives these, whatever was taken
out first. -/
theorem clean_eq_of_shortens (h : ReflTransGen Shortens cs (below names)) :
    clean cs = below names := by
  rw [← clean_below names]
  induction h using ReflTransGen.head_induction_on with
  | refl => rfl
  | head hstep _ ih => rw [hstep.clean_eq, ih]

/-! ## Components of a text -/

/-- A piece of a text between slashes that is the name of something. -/
structure IsName (piece : List Char) : Prop where
  ne_nil : piece ≠ []
  ne_here : piece ≠ ['.']
  ne_up : piece ≠ ['.', '.']
  flat : '/' ∉ piece

/-- The components of a text apart from where it starts. -/
def bodyOf (text : List Char) : List Component := (splitOn '/' text).filterMap component?

/-- A name is a component. -/
theorem component?_of_isName (h : IsName piece) : component? piece = some (.name piece) := by
  have hvoid : isVoid piece = false := by simp [isVoid, h.ne_nil, h.ne_here]
  rw [component?, hvoid, if_neg Bool.false_ne_true, if_neg h.ne_up]

/-- The components that a piece without slash can stand for: the way up, and a name. -/
theorem component?_eq_some_iff (hflat : '/' ∉ piece) :
    component? piece = some c ↔ c = .up ∧ piece = ['.', '.'] ∨ c = .name piece ∧ IsName piece := by
  by_cases hname : IsName piece
  · rw [component?_of_isName hname]
    simp [hname, hname.ne_up, eq_comm]
  · simp only [hname, and_false, or_false]
    unfold component?
    cases hvoid : isVoid piece with
    | true =>
      simp only [if_true, reduceCtorEq, false_iff, not_and]
      rintro - rfl
      exact absurd hvoid (by decide)
    | false =>
      simp only [isVoid, Bool.or_eq_false_iff, beq_eq_false_iff_ne] at hvoid
      by_cases hup : piece = ['.', '.']
      · simp [hup, eq_comm]
      · exact absurd ⟨hvoid.1, hvoid.2, hup, hflat⟩ hname

/-- A text has a root only at its start. -/
theorem root_not_mem_bodyOf (text : List Char) : .root ∉ bodyOf text := by
  intro h
  obtain ⟨piece, hpiece, hroot⟩ := List.mem_filterMap.mp h
  rw [component?_eq_some_iff (not_mem_of_mem_splitOn hpiece)] at hroot
  simp at hroot

/-- The names in a text are pieces between its slashes. -/
theorem isName_of_mem_bodyOf (h : .name piece ∈ bodyOf text) :
    IsName piece ∧ piece ∈ splitOn '/' text := by
  obtain ⟨other, hother, hname⟩ := List.mem_filterMap.mp h
  rw [component?_eq_some_iff (not_mem_of_mem_splitOn hother)] at hname
  obtain ⟨heq, -⟩ | ⟨heq, hname⟩ := hname
  · cases heq
  · cases heq
    exact ⟨hname, hother⟩

/-- The components on both sides of a slash. -/
theorem bodyOf_append_slash (front back : List Char) :
    bodyOf (front ++ '/' :: back) = bodyOf front ++ bodyOf back := by
  rw [bodyOf, splitOn_append_cons, List.filterMap_append]
  rfl

/-- A text that starts at the root has the root for its first component. -/
theorem componentsOf_of_hasRoot (h : hasRoot text = true) :
    componentsOf text = .root :: bodyOf text := by
  rw [componentsOf, if_pos h]
  rfl

/-- All names are components. -/
theorem filterMap_component? (h : ∀ name ∈ names, IsName name) :
    names.filterMap component? = names.map .name := by
  induction names with
  | nil => rfl
  | cons name names ih =>
    obtain ⟨hname, hnames⟩ := List.forall_mem_cons.mp h
    rw [List.filterMap_cons_some (component?_of_isName hname), ih hnames, List.map_cons]

/-- Names with slashes between them have these names for components. -/
theorem bodyOf_join (h : ∀ name ∈ names, IsName name) :
    bodyOf (Text.join ['/'] names) = names.map .name := by
  by_cases hne : names = []
  · subst hne
    rfl
  · rw [bodyOf, splitOn_join hne fun name hname => (h name hname).flat, filterMap_component? h]

/-- The components of the path that leads along some names. -/
theorem components_of_names (hdir : dir.text.toList = '/' :: Text.join ['/'] names)
    (h : ∀ name ∈ names, IsName name) : dir.components = below names := by
  have hbody : bodyOf ('/' :: Text.join ['/'] names) = names.map .name := by
    rw [← bodyOf_join h]
    exact bodyOf_append_slash [] _
  rw [components, hdir, componentsOf_of_hasRoot rfl, hbody]
  rfl

/-! ## Clean forms -/

/-- The components of a path as it is seen from a directory. -/
def seenFrom (root path : UnixPath) : List Component :=
  if path.isAbsolute then path.components else root.components ++ path.components

/-- A path leads from the root along names to where another path leads from a directory, when its
components are taken one after the other. -/
def IsCleanForm (root path dir : UnixPath) : Prop :=
  ∃ names, dir.text.toList = '/' :: Text.join ['/'] names ∧
    ReflTransGen Shortens (root.seenFrom path) (below names)

/-- Where a text starts does not depend on what follows it. -/
theorem hasRoot_append (h : hasRoot text = true) (more : List Char) :
    hasRoot (text ++ more) = true := by
  cases text with
  | nil => cases h
  | cons c text => exact h

/-- The empty text has no components. -/
theorem bodyOf_nil : bodyOf [] = [] := rfl

/-- A relative path, joined to a directory, has the components of both. -/
theorem components_join_of_relative (hroot : root.isAbsolute = true)
    (hpath : path.isAbsolute = false) :
    (root.join path).components =
      .root :: (bodyOf root.text.toList ++ bodyOf path.text.toList) := by
  have hne : root.text.toList ≠ [] := fun hnil => by
    rw [isAbsolute, hnil] at hroot
    cases hroot
  have htext : ∃ text, (root.join path).text.toList = root.text.toList ++ text ∧
      bodyOf (root.text.toList ++ text) =
        bodyOf root.text.toList ++ bodyOf path.text.toList := by
    by_cases hslash : root.text.toList.getLast? = some '/'
    · -- the directory is written with a slash at its end
      obtain ⟨front, hfront⟩ := List.getLast?_eq_some_iff.mp hslash
      refine ⟨path.text.toList, ?_, ?_⟩
      · simp only [isAbsolute] at hpath
        simp [UnixPath.join, hpath, hslash]
      · rw [hfront, List.append_assoc, List.singleton_append, bodyOf_append_slash,
          bodyOf_append_slash, bodyOf_nil, List.append_nil]
    · refine ⟨'/' :: path.text.toList, ?_, bodyOf_append_slash _ _⟩
      simp only [isAbsolute] at hpath
      simp [UnixPath.join, hpath, hslash, hne]
  obtain ⟨text, htext, hbody⟩ := htext
  rw [components, htext, componentsOf_of_hasRoot (hasRoot_append hroot text), hbody]

/-- What stands before the body of a relative path is at most a `.`. -/
theorem components_of_relative (hpath : path.isAbsolute = false) :
    path.components = .here :: bodyOf path.text.toList ∨
      path.components = bodyOf path.text.toList := by
  rw [isAbsolute] at hpath
  rw [components, componentsOf, hpath, if_neg Bool.false_ne_true]
  split
  · exact .inl rfl
  · exact .inr rfl

/-- A joined path leads to where its parts lead one after the other. -/
theorem exists_components_join (hroot : root.isAbsolute = true) (path : UnixPath) :
    ∃ body, (root.join path).components = .root :: body ∧ .root ∉ body ∧
      ReflTransGen Shortens (root.seenFrom path) (.root :: body) ∧
      ∀ name, .name name ∈ body → IsName name ∧
        (name ∈ splitOn '/' root.text.toList ∨ name ∈ splitOn '/' path.text.toList) := by
  cases hpath : path.isAbsolute with
  | true =>
    have hjoin : root.join path = path := by
      rw [isAbsolute] at hpath
      simp [UnixPath.join, hpath]
    have hcomponents : path.components = .root :: bodyOf path.text.toList :=
      componentsOf_of_hasRoot hpath
    refine ⟨_, by rw [hjoin, hcomponents], root_not_mem_bodyOf _, ?_, fun name hname => ?_⟩
    · rw [seenFrom, if_pos hpath, hcomponents]
    · exact (isName_of_mem_bodyOf hname).imp_right .inr
  | false =>
    have hcomponents : root.components = .root :: bodyOf root.text.toList :=
      componentsOf_of_hasRoot hroot
    refine ⟨_, components_join_of_relative hroot hpath, ?_, ?_, fun name hname => ?_⟩
    · rw [List.mem_append, not_or]
      exact ⟨root_not_mem_bodyOf _, root_not_mem_bodyOf _⟩
    · rw [seenFrom, if_neg (Bool.eq_false_iff.mp hpath), hcomponents]
      rcases components_of_relative hpath with hhere | hbody
      · rw [hhere]
        exact .single (.here (.root :: bodyOf root.text.toList) _)
      · rw [hbody]
        rfl
    · rcases List.mem_append.mp hname with hname | hname
      · exact (isName_of_mem_bodyOf hname).imp_right .inl
      · exact (isName_of_mem_bodyOf hname).imp_right .inr

/-- Names below the root are written with a slash before each. -/
theorem toList_ofComponents_below (names : List (List Char)) :
    (ofComponents (below names)).text.toList = '/' :: Text.join ['/'] names := by
  have htext : (names.map Component.name).map Component.text = names := by
    simp [Component.text, Function.comp_def]
  rw [below, ofComponents, slashed, htext]
  simp

/-- Where a path leads from the root: along names that stand in the path or in the directory that
it is seen from. -/
theorem exists_names_absolutize (hroot : root.isAbsolute = true) (path : UnixPath) :
    ∃ names, (root.absolutize path).text.toList = '/' :: Text.join ['/'] names ∧
      ReflTransGen Shortens (root.seenFrom path) (below names) ∧
      ∀ name ∈ names, IsName name ∧
        (name ∈ splitOn '/' root.text.toList ∨ name ∈ splitOn '/' path.text.toList) := by
  obtain ⟨body, hbody, hflat, hseen, hnames⟩ := exists_components_join hroot path
  obtain ⟨names, hshort, hfrom⟩ := exists_shortens_below [] hflat
  refine ⟨names, ?_, hseen.trans hshort, fun name hname => ?_⟩
  · have hclean : clean (.root :: body) = below names := clean_eq_of_shortens hshort
    rw [absolutize, hbody, hclean, toList_ofComponents_below]
  · exact hnames name ((hfrom name hname).resolve_left List.not_mem_nil)

/-- The clean form of a path is there and is the only one. -/
theorem isCleanForm_iff (hroot : root.isAbsolute = true) :
    root.IsCleanForm path dir ↔ dir = root.absolutize path := by
  obtain ⟨names, htext, hshort, -⟩ := exists_names_absolutize hroot path
  constructor
  · rintro ⟨names', htext', hshort'⟩
    have hsame : below names = below names' :=
      (clean_eq_of_shortens hshort).symm.trans (clean_eq_of_shortens hshort')
    have hnames : names = names' := below_injective hsame
    have hdir : dir.text = (root.absolutize path).text := by
      rw [← String.toList_inj, htext, htext', hnames]
    exact congrArg UnixPath.mk hdir
  · rintro rfl
    exact ⟨names, htext, hshort⟩

/-- A path that leads from the root along names, and is written so. -/
def IsClean (dir : UnixPath) : Prop :=
  ∃ names, dir.text.toList = '/' :: Text.join ['/'] names ∧ dir.components = below names

/-- A path seen from an absolute directory becomes clean. -/
theorem isClean_absolutize (hroot : root.isAbsolute = true) (path : UnixPath) :
    (root.absolutize path).IsClean := by
  obtain ⟨names, htext, -, hnames⟩ := exists_names_absolutize hroot path
  exact ⟨names, htext, components_of_names htext fun name hname => (hnames name hname).1⟩

/-- A clean path starts at the root. -/
theorem IsClean.isAbsolute (h : dir.IsClean) : dir.isAbsolute = true := by
  obtain ⟨names, htext, -⟩ := h
  rw [UnixPath.isAbsolute, htext]
  rfl

/-- A clean path has a slash at least. -/
theorem IsClean.text_ne_empty (h : dir.IsClean) : dir.text ≠ "" := by
  obtain ⟨names, htext, -⟩ := h
  intro hempty
  rw [hempty] at htext
  cases htext

/-- A clean path holds neither `.` nor `..`. -/
theorem IsClean.not_dots (h : dir.IsClean) (hc : c ∈ dir.components) : c ≠ .here ∧ c ≠ .up := by
  obtain ⟨names, -, hcomponents⟩ := h
  rw [hcomponents, below, List.mem_cons] at hc
  rcases hc with rfl | hc
  · simp
  · obtain ⟨name, -, rfl⟩ := List.mem_map.mp hc
    simp

/-- Clean paths with the same components are written in the same way. -/
theorem IsClean.eq_of_components {other : UnixPath} (h : dir.IsClean) (hother : other.IsClean)
    (heq : dir.components = other.components) : dir = other := by
  obtain ⟨names, htext, hcomponents⟩ := h
  obtain ⟨names', htext', hcomponents'⟩ := hother
  rw [hcomponents, hcomponents'] at heq
  have hnames : names = names' := below_injective heq
  have hsame : dir.text = other.text := by
    rw [← String.toList_inj, htext, htext', hnames]
  exact congrArg UnixPath.mk hsame

/-- A clean path is its own clean form, from wherever it is seen. -/
theorem IsClean.absolutize_eq (h : dir.IsClean) (root : UnixPath) : root.absolutize dir = dir := by
  have hjoin : root.join dir = dir := by
    have habsolute := h.isAbsolute
    rw [UnixPath.isAbsolute] at habsolute
    simp only [UnixPath.join, habsolute, if_true]
  obtain ⟨names, htext, hcomponents⟩ := h
  have hsame : (ofComponents (below names)).text = dir.text := by
    rw [← String.toList_inj, toList_ofComponents_below, htext]
  rw [UnixPath.absolutize, hjoin, hcomponents, clean_below]
  exact congrArg UnixPath.mk hsame

/-- Cleaning a path brings in nothing but slashes. -/
theorem not_mem_absolutize {d : Char} (hroot : root.isAbsolute = true) (hd : d ≠ '/')
    (hfrom : d ∉ root.text.toList) (hpath : d ∉ path.text.toList) :
    d ∉ (root.absolutize path).text.toList := by
  obtain ⟨names, htext, -, hnames⟩ := exists_names_absolutize hroot path
  rw [htext, List.mem_cons, not_or]
  refine ⟨hd, fun hjoin => ?_⟩
  rcases mem_of_mem_join hjoin with hslash | ⟨name, hname, hmem⟩
  · exact hd (List.mem_singleton.mp hslash)
  · rcases (hnames name hname).2 with hpiece | hpiece
    · exact hfrom (mem_of_mem_splitOn hpiece hmem)
    · exact hpath (mem_of_mem_splitOn hpiece hmem)

end SymbolGraph.UnixPath
