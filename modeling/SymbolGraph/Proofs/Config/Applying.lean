import Mathlib.Data.List.Forall2
import SymbolGraph.Config
import SymbolGraph.Proofs.Path.Cleaning

/-!
# Applying a configuration

A configuration that is applied to a source tree holds its directories in clean form, each once,
in the order in which they were first named (`IsFirsts`). A list of directories is read back as it
was written as long as no directory has a colon in its name (`namedDirs_joinStrings`), so applying
once more changes nothing: `apply_projection`.
-/

namespace SymbolGraph

open Text

variable {α : Type} [DecidableEq α] {seen items kept : List α}

/-! ## First appearances -/

/-- The items of a list, each once, in the order in which they appear first. -/
structure IsFirsts (items kept : List α) : Prop where
  mem_iff : ∀ a, a ∈ kept ↔ a ∈ items
  ordered : kept.Pairwise fun a b => items.idxOf a < items.idxOf b

/-- What is kept of some items are those that were not seen before. -/
theorem mem_distinct {a : α} : a ∈ distinct seen items ↔ a ∈ items ∧ a ∉ seen := by
  induction items generalizing seen with
  | nil => simp [distinct]
  | cons b items ih =>
    by_cases hb : b ∈ seen
    · rw [distinct, if_pos hb, ih, List.mem_cons]
      constructor
      · rintro ⟨hmem, hnew⟩
        exact ⟨.inr hmem, hnew⟩
      · rintro ⟨rfl | hmem, hnew⟩
        · exact absurd hb hnew
        · exact ⟨hmem, hnew⟩
    · rw [distinct, if_neg hb, List.mem_cons, ih, List.mem_cons, List.mem_cons, not_or]
      constructor
      · rintro (rfl | ⟨hmem, -, hnew⟩)
        · exact ⟨.inl rfl, hb⟩
        · exact ⟨.inr hmem, hnew⟩
      · rintro ⟨rfl | hmem, hnew⟩
        · exact .inl rfl
        · by_cases heq : a = b
          · exact .inl heq
          · exact .inr ⟨hmem, heq, hnew⟩

/-- The items that are kept stand in the order in which they appear first. -/
theorem pairwise_distinct (seen items : List α) :
    (distinct seen items).Pairwise fun a b => items.idxOf a < items.idxOf b := by
  induction items generalizing seen with
  | nil => exact .nil
  | cons b items ih =>
    have hlater : ∀ a, b ≠ a → (b :: items).idxOf a = items.idxOf a + 1 := by
      intro a hne
      simp [hne]
    have hothers : ∀ seen, b ∈ seen →
        (distinct seen items).Pairwise fun a c => (b :: items).idxOf a < (b :: items).idxOf c := by
      intro seen hb
      refine (ih seen).imp_of_mem fun {a c} ha hc hlt => ?_
      rw [hlater a fun heq => (mem_distinct.mp ha).2 (heq ▸ hb),
        hlater c fun heq => (mem_distinct.mp hc).2 (heq ▸ hb)]
      exact Nat.succ_lt_succ hlt
    by_cases hb : b ∈ seen
    · rw [distinct, if_pos hb]
      exact hothers seen hb
    · rw [distinct, if_neg hb]
      refine List.pairwise_cons.mpr ⟨fun a ha => ?_, hothers _ List.mem_cons_self⟩
      have hne : b ≠ a := fun heq => (mem_distinct.mp ha).2 (heq ▸ List.mem_cons_self)
      rw [List.idxOf_cons_self, hlater a hne]
      exact Nat.succ_pos _

/-- Leaving out repetitions keeps the first appearances. -/
theorem isFirsts_distinct (items : List α) : IsFirsts items (distinct [] items) where
  mem_iff a := by simp [mem_distinct]
  ordered := pairwise_distinct [] items

/-- First appearances are at different places, so none stands twice. -/
theorem IsFirsts.nodup (h : IsFirsts items kept) : kept.Nodup :=
  h.ordered.imp fun hlt heq => by
    rw [heq] at hlt
    exact Nat.lt_irrefl _ hlt

/-- Where an item appears first does not depend on how the items are written. -/
theorem idxOf_map {β : Type} [DecidableEq β] {f : α → β} (hf : ∀ a b, f a = f b → a = b)
    (items : List α) (a : α) : (items.map f).idxOf (f a) = items.idxOf a := by
  induction items with
  | nil => rfl
  | cons b items ih =>
    by_cases hb : b = a
    · simp [hb]
    · have hne : f b ≠ f a := fun heq => hb (hf b a heq)
      simp [hb, hne, ih]

/-- First appearances do not depend on how the items are written. -/
theorem IsFirsts.map {β : Type} [DecidableEq β] (h : IsFirsts items kept) {f : α → β}
    (hf : ∀ a b, f a = f b → a = b) : IsFirsts (items.map f) (kept.map f) where
  mem_iff b := by simp [h.mem_iff]
  ordered := by
    rw [List.pairwise_map]
    simpa only [idxOf_map hf] using h.ordered

/-- A list without repetitions is left as it is. -/
theorem distinct_of_nodup (hitems : items.Nodup) (hnew : ∀ a ∈ items, a ∉ seen) :
    distinct seen items = items := by
  induction items generalizing seen with
  | nil => rfl
  | cons b items ih =>
    obtain ⟨hb, hrest⟩ := List.nodup_cons.mp hitems
    rw [distinct, if_neg (hnew b List.mem_cons_self), ih hrest]
    intro a ha
    rw [List.mem_cons, not_or]
    exact ⟨fun heq => hb (heq ▸ ha), hnew a (List.mem_cons_of_mem _ ha)⟩

/-! ## Lists of directories -/

/-- The characters of joined strings are those of the strings, joined. -/
theorem toList_joinStrings (sep : String) (pieces : List String) :
    (joinStrings sep pieces).toList = join sep.toList (pieces.map String.toList) := by
  rw [joinStrings_eq_intercalate, join_eq_intercalate, String.toList_intercalate]

/-- Directories without colons are found again in the list that they are written to. -/
theorem namedDirs_joinStrings {dirs : List String} (hne : ∀ dir ∈ dirs, dir ≠ "")
    (hflat : ∀ dir ∈ dirs, ':' ∉ dir.toList) : namedDirs (joinStrings ":" dirs) = dirs := by
  by_cases hdirs : dirs = []
  · subst hdirs
    rfl
  · have hpieces : splitOn ':' (joinStrings ":" dirs).toList = dirs.map String.toList := by
      rw [toList_joinStrings]
      refine splitOn_join (by simpa using hdirs) fun piece hpiece => ?_
      obtain ⟨dir, hdir, rfl⟩ := List.mem_map.mp hpiece
      exact hflat dir hdir
    have hsplit : splitDirs (joinStrings ":" dirs) = dirs := by
      rw [splitDirs, hpieces]
      simp [Function.comp_def]
    rw [namedDirs, hsplit, List.filter_eq_self]
    intro dir hdir
    simpa using hne dir hdir

/-- A list of directories is cut at its colons, so none is left in a directory. -/
theorem colon_not_mem_of_mem_namedDirs {dirs dir : String} (h : dir ∈ namedDirs dirs) :
    ':' ∉ dir.toList := by
  obtain ⟨piece, hpiece, rfl⟩ := List.mem_map.mp (List.mem_filter.mp h).1
  rw [String.toList_ofList]
  exact not_mem_of_mem_splitOn hpiece

/-! ## Projection -/

namespace Config

variable {c applied : Config} {root : UnixPath}

/-- A configuration as it is applied to a tree. -/
structure IsApplied (c : Config) (root : UnixPath) (applied : Config) : Prop where
  /-- The workspace directories are the clean forms of those that were named. -/
  dirs : ∃ clean, List.Forall₂ root.IsCleanForm ((namedDirs c.goPath).map UnixPath.mk) clean ∧
    IsFirsts clean applied.goPathDirs
  apart : applied.goPathDirs.Pairwise fun dir other => dir.components ≠ other.components
  absolute : ∀ dir ∈ applied.goPathDirs, dir.isAbsolute = true ∧
    ∀ component ∈ dir.components, component ≠ .here ∧ component ≠ .up
  goRoot : c.goRoot ≠ "" → root.IsCleanForm ⟨c.goRoot⟩ ⟨applied.goRoot⟩
  noGoRoot : c.goRoot = "" → applied.goRoot = ""
  others : applied = { c with goRoot := applied.goRoot, goPath := applied.goPath }

/-- The clean forms of the directories that a configuration names. -/
def cleanDirs (c : Config) (root : UnixPath) : List String :=
  (namedDirs c.goPath).map fun dir => (root.absolutize ⟨dir⟩).text

/-- The clean form of the directory of the language's own packages, if there is one. -/
def cleanRoot (c : Config) (root : UnixPath) : String :=
  if c.goRoot.isEmpty then "" else (root.absolutize ⟨c.goRoot⟩).text

/-- A configuration with other directories. -/
def withDirs (c : Config) (goRoot goPath : String) : Config :=
  { c with goRoot := goRoot, goPath := goPath }

/-- Directories that are set replace those that were set before. -/
@[simp] theorem withDirs_withDirs (c : Config) (goRoot goPath goRoot' goPath' : String) :
    (c.withDirs goRoot goPath).withDirs goRoot' goPath' = c.withDirs goRoot' goPath' := rfl

/-- A configuration whose directories are in clean form. -/
def cleaned (c : Config) (root : UnixPath) : Config :=
  c.withDirs (c.cleanRoot root) (joinStrings ":" (distinct [] (c.cleanDirs root)))

/-- With a supported version the configuration is applied, with cleaned directories. -/
theorem apply_eq_ok (hversion : c.goVersion ∈ supportedVersions) (root : UnixPath) :
    c.apply root = .ok (c.cleaned root) := by
  rw [apply, if_pos hversion]
  rfl

section Cleaned

variable (c) (hroot : root.isAbsolute = true) (hcolon : ':' ∉ root.text.toList)
include hroot

/-- The directories that are kept are in normal form. -/
theorem isClean_of_mem_cleanDirs {dir : String} (h : dir ∈ distinct [] (c.cleanDirs root)) :
    (UnixPath.mk dir).IsClean := by
  obtain ⟨named, -, rfl⟩ := List.mem_map.mp (mem_distinct.mp h).1
  exact UnixPath.isClean_absolutize hroot _

/-- The root of a cleaned configuration is clean already. -/
theorem cleanRoot_cleaned : (c.cleaned root).cleanRoot root = c.cleanRoot root := by
  have hgoRoot : (c.cleaned root).goRoot = c.cleanRoot root := rfl
  by_cases hempty : c.goRoot = ""
  · simp [cleanRoot, hgoRoot, hempty]
  · have hclean := UnixPath.isClean_absolutize hroot ⟨c.goRoot⟩
    simp [cleanRoot, hgoRoot, hempty, hclean.text_ne_empty, hclean.absolutize_eq root]

include hcolon

/-- The directories of a cleaned configuration are read as they were written. -/
theorem namedDirs_cleaned :
    namedDirs (c.cleaned root).goPath = distinct [] (c.cleanDirs root) := by
  refine namedDirs_joinStrings (fun dir hdir => ?_) fun dir hdir => ?_
  · exact (isClean_of_mem_cleanDirs c hroot hdir).text_ne_empty
  · obtain ⟨named, hnamed, rfl⟩ := List.mem_map.mp (mem_distinct.mp hdir).1
    exact UnixPath.not_mem_absolutize hroot (by decide) hcolon
      (colon_not_mem_of_mem_namedDirs hnamed)

/-- Cleaned directories are found clean again, each once. -/
theorem cleanDirs_cleaned :
    (c.cleaned root).cleanDirs root = distinct [] (c.cleanDirs root) := by
  rw [cleanDirs, namedDirs_cleaned c hroot hcolon]
  refine (List.map_congr_left fun dir hdir => ?_).trans (List.map_id _)
  rw [(isClean_of_mem_cleanDirs c hroot hdir).absolutize_eq]
  rfl

/-- Cleaning a second time changes nothing. -/
theorem cleaned_cleaned : (c.cleaned root).cleaned root = c.cleaned root := by
  have hagain : distinct [] (distinct [] (c.cleanDirs root)) = distinct [] (c.cleanDirs root) :=
    distinct_of_nodup (isFirsts_distinct _).nodup fun _ _ => List.not_mem_nil
  rw [cleaned, cleanRoot_cleaned c hroot, cleanDirs_cleaned c hroot hcolon, hagain]
  exact withDirs_withDirs ..

/-- What is cleaned is as a configuration that is applied has to be. -/
theorem isApplied_cleaned : c.IsApplied root (c.cleaned root) where
  dirs := by
    refine ⟨(c.cleanDirs root).map UnixPath.mk, ?_, ?_⟩
    · rw [cleanDirs, List.map_map, List.forall₂_map_left_iff, List.forall₂_map_right_iff,
        List.forall₂_same]
      exact fun dir _ => (UnixPath.isCleanForm_iff hroot).mpr rfl
    · rw [goPathDirs, namedDirs_cleaned c hroot hcolon]
      exact (isFirsts_distinct _).map fun _ _ => UnixPath.mk.inj
  apart := by
    rw [goPathDirs, namedDirs_cleaned c hroot hcolon, List.pairwise_map]
    refine (isFirsts_distinct _).nodup.imp_of_mem fun {dir other} hdir hother hne heq => hne ?_
    exact UnixPath.mk.inj ((isClean_of_mem_cleanDirs c hroot hdir).eq_of_components
      (isClean_of_mem_cleanDirs c hroot hother) heq)
  absolute dir hdir := by
    rw [goPathDirs, namedDirs_cleaned c hroot hcolon] at hdir
    obtain ⟨text, htext, rfl⟩ := List.mem_map.mp hdir
    have hclean := isClean_of_mem_cleanDirs c hroot htext
    exact ⟨hclean.isAbsolute, fun component => hclean.not_dots⟩
  goRoot hne := by
    have hgoRoot : (c.cleaned root).goRoot = (root.absolutize ⟨c.goRoot⟩).text := by
      simp [cleaned, withDirs, cleanRoot, hne]
    rw [hgoRoot]
    exact (UnixPath.isCleanForm_iff hroot).mpr rfl
  noGoRoot hempty := by simp [cleaned, withDirs, cleanRoot, hempty]
  others := rfl

end Cleaned

/-- **Applying a configuration is a projection.** Seen from an absolute directory without a colon, a
configuration with a supported version can be applied, what comes out is as it has to be
(`IsApplied`), and applying it once more changes nothing. -/
theorem apply_projection (c : Config) (root : UnixPath) (hversion : c.goVersion ∈ supportedVersions)
    (hroot : root.isAbsolute = true) (hcolon : ':' ∉ root.text.toList) :
    ∃ applied, c.apply root = .ok applied ∧ applied.apply root = .ok applied ∧
      c.IsApplied root applied := by
  refine ⟨c.cleaned root, apply_eq_ok hversion root, ?_, isApplied_cleaned c hroot hcolon⟩
  have hagain : (c.cleaned root).goVersion ∈ supportedVersions := hversion
  rw [apply_eq_ok hagain root, cleaned_cleaned c hroot hcolon]

/-- Directories are named twice, past the root, and above the tree. -/
def detours : Config :=
  ⟨"go/../r", "a/./b::/../tree/a//b/:../c", "1.3", true, .random, ["v"]⟩

/-- The configuration with detours and repetitions is applied, and once more without a change. -/
theorem apply_projection_detours :
    (detours.goVersion ∈ supportedVersions ∧ (UnixPath.mk "/tree").isAbsolute = true ∧
      ':' ∉ (UnixPath.mk "/tree").text.toList) ∧
    ∃ applied, detours.apply ⟨"/tree"⟩ = .ok applied ∧ applied.apply ⟨"/tree"⟩ = .ok applied ∧
      detours.IsApplied ⟨"/tree"⟩ applied := by
  have hcolon : ':' ∉ (UnixPath.mk "/tree").text.toList := by decide
  exact ⟨⟨by decide, by decide, hcolon⟩,
    apply_projection detours ⟨"/tree"⟩ (by decide) (by decide) hcolon⟩

example : detours.cleaned ⟨"/tree"⟩ = ⟨"/tree/r", "/tree/a/b:/c", "1.3", true, .random, ["v"]⟩ := by
  decide

end Config

end SymbolGraph
