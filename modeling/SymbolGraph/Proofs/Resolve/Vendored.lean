import SymbolGraph.Proofs.Resolve.Locality
import SymbolGraph.Proofs.Text.Elements

/-!
# Vendored packages

A package in the tree that lies under no vendor root is named by what follows the last element
`vendor` of its import path. That element is looked for as the text `vendor/`, which also stands at
the end of any longer element. The last such place decides (`dropVendor_of_last`): if the element
there is `vendor` itself, what follows it is the unit, and otherwise the whole path is, although an
element `vendor` may come before (`SourceTree.exists_vendor_overlooked`).
-/

namespace SymbolGraph

open Text

namespace SourceTree

variable {tree : SourceTree} {dir : UnixPath} {path : String} {before after : List (List Char)}
  {elem : List Char}

/-- The element that vendored packages lie below. -/
def vendor : List Char := "vendor".toList

/-- The name of vendor directories is one element. -/
theorem slash_not_mem_vendor : '/' ∉ vendor := by decide

/-- A path none of whose elements with others behind it ends in `vendor` is kept. -/
theorem dropVendor_of_forall (h : ∀ e ∈ (elements path).dropLast, ¬ vendor <:+ e) :
    dropVendor path = path := by
  have hnone : splitLast? "vendor/".toList path.toList = none := by
    rw [splitLast?_eq_none_iff]
    exact fun hinfix =>
      have ⟨e, he, hend⟩ := (infix_concat_iff slash_not_mem_vendor).mp hinfix
      h e he hend
  rw [dropVendor, hnone]

/-- What stands before a place in a text is empty or ends with a slash exactly if the place is the
start of an element. -/
theorem isBoundary_iff {stem : List Char} (hstem : '/' ∉ stem) :
    ((join ['/'] (before ++ [stem])).isEmpty ||
      (join ['/'] (before ++ [stem])).getLast? == some '/') = true ↔ stem = [] := by
  obtain ⟨start, hstart, hjoin⟩ := exists_join_concat ['/'] before
  rw [hjoin, Bool.or_eq_true, List.isEmpty_iff, List.append_eq_nil_iff, beq_iff_eq]
  constructor
  · rintro (⟨-, hempty⟩ | hslash)
    · exact hempty
    · by_contra hne
      rw [List.getLast?_append_of_ne_nil _ hne] at hslash
      exact hstem (List.mem_of_getLast? hslash)
  · rintro rfl
    rcases hstart with rfl | ⟨front, rfl⟩
    · exact .inl ⟨rfl, rfl⟩
    · exact .inr (by simp)

/-- The last element that ends in `vendor` and has others behind it decides: they are left if it is
`vendor`, and else the path is kept. -/
theorem dropVendor_of_last (hpath : elements path = before ++ elem :: after) (hafter : after ≠ [])
    (hend : vendor <:+ elem) (hlast : ∀ e ∈ after.dropLast, ¬ vendor <:+ e) :
    dropVendor path = if elem = vendor then String.ofList (join ['/'] after) else path := by
  obtain ⟨stem, rfl⟩ := hend
  have hstem : '/' ∉ stem := by
    have hmem : stem ++ vendor ∈ elements path := by
      rw [hpath]
      exact List.mem_append_right _ List.mem_cons_self
    exact fun hslash => not_mem_of_mem_splitOn hmem (List.mem_append_left _ hslash)
  have hfound : splitLast? "vendor/".toList path.toList =
      some (join ['/'] (before ++ [stem]), join ['/'] after) :=
    splitLast?_concat slash_not_mem_vendor (by decide) hpath hafter hlast
  rw [dropVendor, hfound]
  simp only [isBoundary_iff hstem, List.append_left_eq_self]

/-- An element that ends in `vendor` without being it, and has others behind it, keeps the path
whole, unless an element `vendor` with others behind it comes later. -/
theorem dropVendor_of_exists (before : List (List Char)) (hpath : elements path = before ++ after)
    (hend : ∃ e ∈ after.dropLast, vendor <:+ e) (hproper : vendor ∉ after.dropLast) :
    dropVendor path = path := by
  obtain ⟨front, elem, back, hsplit, hsuffix, hback⟩ := exists_last hend
  have hne : after ≠ [] := fun hnil => by rw [hnil] at hsplit; simp at hsplit
  have hafter : after = front ++ elem :: (back ++ [after.getLast hne]) := by
    rw [← List.cons_append, ← List.append_assoc, ← hsplit, List.dropLast_concat_getLast]
  have helem : elem ≠ vendor := fun heq =>
    hproper (by rw [hsplit, heq]; exact List.mem_append_right _ List.mem_cons_self)
  have hpath' : elements path = (before ++ front) ++ elem :: (back ++ [after.getLast hne]) := by
    rw [hpath, List.append_assoc, ← hafter]
  rw [dropVendor_of_last hpath' (by simp) hsuffix (by rwa [List.dropLast_concat]), if_neg helem]

/-- The unit of a directory that lies under the root of a tree, and under none of its vendor roots,
is its import path without what `dropVendor` takes off. -/
theorem unitFor?_eq_dropVendor (hroot : tree.root.components <+: dir.components)
    (hvendor : ∀ root ∈ tree.vendorRoots, ¬ root.components <+: dir.components) (path : String) :
    tree.unitFor? dir path = some (dropVendor path) := by
  have hnone : tree.vendorRoots.findSome? dir.relativeTo? = none := by
    rw [List.findSome?_eq_none_iff]
    intro root hmem
    rw [← Option.not_isSome_iff_eq_none, UnixPath.isSome_relativeTo?]
    exact hvendor root hmem
  have hunder : dir.isUnder tree.root = true := UnixPath.isSome_relativeTo?.mpr hroot
  rw [unitFor?, hnone]
  dsimp only
  rw [if_pos hunder]

/-- **Vendored packages are named by what follows `vendor`.** Of a directory that lies under the
tree's root but under no vendor root, the unit is the whole import path if no element is `vendor`
with others behind it. Otherwise it consists of the elements behind the last one of these, if none
behind it ends in `vendor` that has others behind it; if one does, the unit is the whole path. -/
theorem unitFor?_of_vendor (hroot : tree.root.components <+: dir.components)
    (hvendor : ∀ root ∈ tree.vendorRoots, ¬ root.components <+: dir.components) (path : String) :
    (vendor ∉ (elements path).dropLast → tree.unitFor? dir path = some path) ∧
      ∀ before after, elements path = before ++ vendor :: after → after ≠ [] →
        vendor ∉ after.dropLast →
        ((∀ e ∈ after.dropLast, ¬ vendor <:+ e) →
          tree.unitFor? dir path = some (String.ofList (join ['/'] after))) ∧
        ((∃ e ∈ after.dropLast, vendor <:+ e) → tree.unitFor? dir path = some path) := by
  rw [unitFor?_eq_dropVendor hroot hvendor]
  refine ⟨fun hproper => ?_, fun before after hpath hafter hproper => ⟨fun hclear => ?_,
    fun hend => ?_⟩⟩
  · by_cases hend : ∃ e ∈ (elements path).dropLast, vendor <:+ e
    · rw [dropVendor_of_exists [] rfl hend hproper]
    · rw [dropVendor_of_forall fun e he hsuffix => hend ⟨e, he, hsuffix⟩]
  · rw [dropVendor_of_last hpath hafter List.suffix_rfl hclear, if_pos rfl]
  · rw [← List.singleton_append, ← List.append_assoc] at hpath
    rw [dropVendor_of_exists _ hpath hend hproper]

/-- A package below the second of two elements `vendor`, next to elements that only begin or end
with it. -/
theorem unitFor?_of_vendor_nested :
    let tree : SourceTree := .ofRoot ⟨"/tree"⟩
    let dir : UnixPath := ⟨"/tree/vendor/a/vendor/x"⟩
    tree.root.components <+: dir.components ∧
      (∀ root ∈ tree.vendorRoots, ¬ root.components <+: dir.components) ∧
      tree.unitFor? dir "xvendor/vendor/a/vendor/vendored/notvendor" =
        some "vendored/notvendor" := by
  intro tree dir
  have hroot : tree.root.components <+: dir.components := by decide
  have hvendor : ∀ root ∈ tree.vendorRoots, ¬ root.components <+: dir.components := nofun
  obtain ⟨-, hlast⟩ :=
    unitFor?_of_vendor hroot hvendor "xvendor/vendor/a/vendor/vendored/notvendor"
  obtain ⟨hunit, -⟩ := hlast ["xvendor".toList, vendor, "a".toList]
    ["vendored".toList, "notvendor".toList] (by decide) (by decide) (by decide)
  exact ⟨hroot, hvendor, hunit (by decide)⟩

/-- An element that only ends in `vendor` hides an element `vendor` before it: the unit should be
`b/notvendor/c`, and is the whole path. -/
theorem exists_vendor_overlooked :
    ∃ (tree : SourceTree) (dir : UnixPath) (path : String) (before after : List (List Char)),
      tree.root.components <+: dir.components ∧ tree.vendorRoots = [] ∧
      (∀ e ∈ elements path, e ≠ []) ∧ elements path = before ++ vendor :: after ∧ after ≠ [] ∧
      vendor ∉ after ∧ String.ofList (join ['/'] after) = "b/notvendor/c" ∧
      tree.unitFor? dir path ≠ some "b/notvendor/c" :=
  ⟨ofRoot ⟨"/tree"⟩, ⟨"/tree/vendor/b"⟩, "a/vendor/b/notvendor/c", ["a".toList],
    ["b".toList, "notvendor".toList, "c".toList], by decide, rfl, by decide, by decide,
    by decide, by decide, by decide, by decide⟩

end SourceTree

end SymbolGraph
