import SymbolGraph.Proofs.Run.Pieces

/-!
# Known keys in a run

What the keys known at the end of a run have to do with those that were looked up on the way.
No key is lost (`MadeOf.grows`), and each one that was not there before was found by looking at
its object (`MadeOf.found`). An object that has no key at one time has none at any
(`objectKey?_none_of_none`), so that what a lookup gives is what is known of the object in the
end (`keyOf_eq_ok`).
-/

namespace SymbolGraph

namespace KeyStore

variable {pkg : PackageId} {s t u : KeyStore}

/-- The keys known for a package in one store are known in the other. -/
def PartOf (pkg : PackageId) (s t : KeyStore) : Prop :=
  ∀ obj k, s.find? pkg obj = some k → t.find? pkg obj = some k

/-- Every store is part of itself. -/
theorem PartOf.refl (pkg : PackageId) (s : KeyStore) : PartOf pkg s s := fun _ _ h => h

/-- What is part of a part is part of the whole. -/
theorem PartOf.trans (hst : PartOf pkg s t) (htu : PartOf pkg t u) : PartOf pkg s u :=
  fun obj k h => htu obj k (hst obj k h)

/-- The empty store is part of every store. -/
theorem PartOf.of_empty (pkg : PackageId) (t : KeyStore) : PartOf pkg empty t := by
  intro obj k h
  rw [find?_empty] at h
  cases h

/-- A store is part of what it becomes when a key is made known, for whichever package. -/
theorem PartOf.install (s : KeyStore) (pkg pkg' : PackageId) (obj : ObjectId) (k : KeyedObject) :
    PartOf pkg s (s.install pkg' obj k) := by
  intro o k' h
  rw [find?_install]
  split
  · rw [h, Option.getD_some]
  · exact h

/-- A key that a larger store has can be made known in the smaller one. -/
theorem PartOf.install_left {obj : ObjectId} {k : KeyedObject} (hst : PartOf pkg s t)
    (h : t.find? pkg obj = some k) : PartOf pkg (s.install pkg obj k) t := by
  intro o k' ho
  rw [find?_install] at ho
  split at ho
  · rename_i heq
    cases heq
    cases hold : s.find? pkg obj with
    | none => rw [hold] at ho; cases ho; exact h
    | some old => rw [hold] at ho; cases ho; exact hst obj _ hold
  · exact hst o k' ho

/-- A key that is made known of an object without one is found. -/
theorem find?_install_self {pkg : PackageId} {obj : ObjectId} (k : KeyedObject)
    (h : s.find? pkg obj = none) : (s.install pkg obj k).find? pkg obj = some k := by
  rw [find?_install, if_pos rfl, h, Option.getD_none]

/-- A key that is made known of one object makes no difference to another one. -/
theorem find?_install_of_ne {pkg' : PackageId} {obj o : ObjectId} (k : KeyedObject)
    (h : (pkg, obj) ≠ (pkg', o)) : (s.install pkg obj k).find? pkg' o = s.find? pkg' o := by
  rw [find?_install, if_neg h]

end KeyStore

open KeyStore Emit

variable {α : Type} {c : GraphContext}

/-! ## What a key depends on -/

namespace GraphContext

/-- An object is keyed by its place alone, unless it belongs to another package: it is neither
predeclared nor a package name. -/
def IsPlain (p : Program) (o : Object) : Prop :=
  match o.kind with
  | .builtin | .nil | .package _ => False
  | .typeName => isPredeclaredType p o = .ok false
  | _ => True

/-- Only objects of the package itself can be without a key, namely when they have no path. -/
theorem plainKey?_eq_none_iff {selected : Selected} {obj : ObjectId} {o : Object} :
    c.plainKey? selected obj o = .ok none ↔
      o.pkg = some c.package.pkg ∧ c.placement.localPath? c.places obj = .ok none := by
  unfold plainKey?
  cases hpkg : o.pkg with
  | none =>
    constructor
    · intro h
      cases h
    · rintro ⟨h, -⟩
      cases h
  | some pkg =>
    have howned : c.ownedKey? selected obj o pkg = .ok none ↔
        c.objectPath? selected obj o = .ok none := by
      unfold ownedKey?
      constructor
      · intro h
        obtain ⟨path?, hpath, h⟩ := bind_eq_ok_iff.mp h
        cases path? with
        | none => exact hpath
        | some path =>
          obtain ⟨owner, -, h⟩ := bind_eq_ok_iff.mp h
          cases h
      · intro h
        exact bind_eq_ok_iff.mpr ⟨none, h, rfl⟩
    dsimp only
    rw [howned]
    unfold objectPath?
    rw [hpkg]
    by_cases hown : some pkg = some c.package.pkg
    · rw [if_pos hown]
      exact ⟨fun h => ⟨hown, h⟩, fun h => h.2⟩
    · -- the path of another package's object is always there
      rw [if_neg hown]
      constructor
      · intro h
        cases hf : c.foreignPath selected obj o with
        | error f => rw [hf] at h; cases h
        | ok path => rw [hf] at h; cases h
      · rintro ⟨h, -⟩
        exact absurd h hown

/-- Whether an object has a key does not depend on what has been selected. -/
theorem objectKey?_eq_none_iff {selected : Selected} {obj : ObjectId} :
    c.objectKey? selected obj = .ok none ↔
      ∃ o, c.program.object obj = .ok o ∧ IsPlain c.program o ∧
        o.pkg = some c.package.pkg ∧ c.placement.localPath? c.places obj = .ok none := by
  unfold objectKey? IsPlain
  constructor
  · intro h
    obtain ⟨o, ho, h⟩ := bind_eq_ok_iff.mp h
    refine ⟨o, ho, ?_⟩
    cases hk : o.kind with
    | builtin => rw [hk] at h; cases h
    | nil => rw [hk] at h; cases h
    | package imported =>
      rw [hk] at h
      obtain ⟨owner, -, h⟩ := bind_eq_ok_iff.mp h
      cases h
    | typeName =>
      rw [hk] at h
      obtain ⟨basic, hbasic, h⟩ := bind_eq_ok_iff.mp h
      cases basic with
      | true => cases h
      | false => exact ⟨hbasic, plainKey?_eq_none_iff.mp h⟩
    | _ => rw [hk] at h; exact ⟨trivial, plainKey?_eq_none_iff.mp h⟩
  · rintro ⟨o, ho, hplain, hnone⟩
    refine bind_eq_ok_iff.mpr ⟨o, ho, ?_⟩
    cases hk : o.kind with
    | builtin => rw [hk] at hplain; cases hplain
    | nil => rw [hk] at hplain; cases hplain
    | package imported => rw [hk] at hplain; cases hplain
    | typeName =>
      rw [hk] at hplain
      exact bind_eq_ok_iff.mpr ⟨false, hplain, plainKey?_eq_none_iff.mpr hnone⟩
    | _ => exact plainKey?_eq_none_iff.mpr hnone

/-- An object without a key at one time has none at any time. -/
theorem objectKey?_none_of_none {selected : Selected} {obj : ObjectId}
    (h : c.objectKey? selected obj = .ok none) (later : Selected) :
    c.objectKey? later obj = .ok none :=
  objectKey?_eq_none_iff.mpr (objectKey?_eq_none_iff.mp h)

/-- The keys known for the package being graphed are those of `base`, or were found by looking
at their objects. -/
def Found (c : GraphContext) (base keys : KeyStore) : Prop :=
  ∀ obj k, keys.find? c.package.pkg obj = some k →
    base.find? c.package.pkg obj = some k ∨
      ∃ selected, c.objectKey? selected obj = .ok (some k)

/-- Making known what was found by looking keeps this. -/
theorem Found.install {base keys : KeyStore} {selected : Selected} {obj : ObjectId}
    {k : KeyedObject} (h : c.Found base keys) (hk : c.objectKey? selected obj = .ok (some k)) :
    c.Found base (keys.install c.package.pkg obj k) := by
  intro o k' ho
  by_cases heq : obj = o
  · subst heq
    rw [find?_install, if_pos rfl] at ho
    cases hold : keys.find? c.package.pkg obj with
    | none =>
      rw [hold] at ho
      cases ho
      exact .inr ⟨selected, hk⟩
    | some old =>
      rw [hold] at ho
      cases ho
      exact h obj _ hold
  · rw [find?_install_of_ne k (by simpa using heq)] at ho
    exact h o k' ho

end GraphContext

/-! ## What steps do to the keys -/

namespace MadeOf

variable {allowed : Change → Prop} {m : Emit α}

/-- A step loses no key. -/
theorem grows (h : MadeOf c allowed m) (s : Emission) :
    PartOf c.package.pkg s.keys (endState (m s)).keys := by
  refine h.relates (R := fun s t => PartOf c.package.pkg s.keys t.keys) (fun s => PartOf.refl _ _)
    (fun hst htu => hst.trans htu) (fun s obj => ?_) (fun change _ s => ?_) s
  · rw [GraphContext.keyOf_apply]
    split
    · exact PartOf.refl _ _
    · split
      · exact PartOf.refl _ _
      · exact PartOf.refl _ _
      · exact PartOf.install _ _ _ _ _
  · rw [change.apply_keys]
    exact PartOf.refl _ _

/-- A step makes keys known by looking at their objects. -/
theorem found (h : MadeOf c allowed m) (base : KeyStore) (s : Emission)
    (hs : c.Found base s.keys) : c.Found base (endState (m s)).keys := by
  refine h.relates (R := fun s t => c.Found base s.keys → c.Found base t.keys) (fun _ h => h)
    (fun hst htu h => htu (hst h)) (fun s obj hs => ?_) (fun change _ s hs => ?_) s hs
  · rw [GraphContext.keyOf_apply]
    split
    · exact hs
    · split
      · exact hs
      · exact hs
      · rename_i hk
        exact hs.install hk
  · rw [change.apply_keys]
    exact hs

/-- A step that comes to a value loses no key. -/
theorem grows_ok (h : MadeOf c allowed m) {s t : Emission} {a : α} (hm : m s = .ok a t) :
    PartOf c.package.pkg s.keys t.keys := by
  rw [← endState_of_ok hm]
  exact h.grows s

/-- A step that comes to a value makes keys known by looking at their objects. -/
theorem found_ok (h : MadeOf c allowed m) {base : KeyStore} {s t : Emission} {a : α}
    (hm : m s = .ok a t) (hs : c.Found base s.keys) : c.Found base t.keys := by
  rw [← endState_of_ok hm]
  exact h.found base s hs

end MadeOf

/-- What a lookup gives is what is known of the object in the end. -/
theorem GraphContext.keyOf_eq_ok {base last : KeyStore} {obj : ObjectId} {s t : Emission}
    {k? : Option KeyedObject} (h : c.keyOf obj s = .ok k? t)
    (hbase : PartOf c.package.pkg base s.keys) (hlast : PartOf c.package.pkg t.keys last)
    (hfound : c.Found base last) :
    last.find? c.package.pkg obj = k? ∧ t = s.withKeys t.keys ∧
      (k? = none → c.objectKey? s.selected obj = .ok none) := by
  cases keyOf_cases h with
  | @known k hs => exact ⟨hlast obj k hs, rfl, fun h => by cases h⟩
  | @found k hs hk => exact ⟨hlast obj k (find?_install_self k hs), rfl, fun h => by cases h⟩
  | none hs hk =>
    refine ⟨?_, rfl, fun _ => hk⟩
    -- a key that is known in the end would have been known or found before
    cases hend : last.find? c.package.pkg obj with
    | none => rfl
    | some k =>
      rcases hfound obj k hend with hbefore | ⟨selected, hfound⟩
      · rw [hbase obj k hbefore] at hs
        cases hs
      · rw [objectKey?_none_of_none hk selected] at hfound
        cases hfound

end SymbolGraph
