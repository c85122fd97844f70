/-!
# Finite tables

A finite map kept as a list of entries in the order in which their keys first appeared.
Writing to a key that is already there replaces its value in place, so the order of the keys
is the order of first insertion.

Main statements: `get?_insert_self` and `get?_insert_of_ne` (what a write does to later
lookups), `get?_insertNew` (a guarded write keeps the value that was there first),
`mem_of_get?` (what is looked up is an entry) and `nodup_keys_insertNew` (guarded writes keep each
key to one entry).
-/

namespace SymbolGraph

/-- A finite map from `κ` to `υ` in order of first insertion. -/
structure Table (κ : Type) (υ : Type) where
  /-- The entries, oldest key first. -/
  entries : List (κ × υ)
  deriving Repr, DecidableEq

namespace Table

variable {κ υ : Type} [DecidableEq κ]

/-- The table without entries. -/
def empty : Table κ υ := ⟨[]⟩

instance : Inhabited (Table κ υ) := ⟨empty⟩

/-- The value of the first entry for `k` in a list of entries. -/
def find? (k : κ) : List (κ × υ) → Option υ
  | [] => none
  | (k', v) :: rest => if k' = k then some v else find? k rest

/-- The value stored under `k`. -/
def get? (t : Table κ υ) (k : κ) : Option υ := find? k t.entries

/-- Whether `k` has a value. -/
def contains (t : Table κ υ) (k : κ) : Bool := (t.get? k).isSome

/-- Replaces the value of the first entry for `k`, or adds an entry at the end. -/
def put (k : κ) (v : υ) : List (κ × υ) → List (κ × υ)
  | [] => [(k, v)]
  | (k', v') :: rest => if k' = k then (k', v) :: rest else (k', v') :: put k v rest

/-- Stores `v` under `k`, replacing an earlier value in place. -/
def insert (t : Table κ υ) (k : κ) (v : υ) : Table κ υ := ⟨put k v t.entries⟩

/-- Stores `v` under `k` unless `k` already has a value. -/
def insertNew (t : Table κ υ) (k : κ) (v : υ) : Table κ υ :=
  if t.contains k then t else t.insert k v

/-- The number of keys. -/
def size (t : Table κ υ) : Nat := t.entries.length

/-- Whether the table has no entries. -/
def isEmpty (t : Table κ υ) : Bool := t.entries.isEmpty

/-- The keys, oldest first. -/
def keys (t : Table κ υ) : List κ := t.entries.map (·.1)

/-- The table made by inserting the pairs of a list one after another. -/
def ofList (pairs : List (κ × υ)) : Table κ υ :=
  pairs.foldl (fun t p => t.insert p.1 p.2) empty

/-! ## Lookups after writes -/

/-- What was written under a key is found. -/
theorem find?_put_self (k : κ) (v : υ) (l : List (κ × υ)) : find? k (put k v l) = some v := by
  induction l with
  | nil => simp [put, find?]
  | cons p rest ih => by_cases h : p.1 = k <;> simp [put, find?, h, ih]

/-- A write under another key is not seen. -/
theorem find?_put_of_ne {k k' : κ} (h : k' ≠ k) (v : υ) (l : List (κ × υ)) :
    find? k (put k' v l) = find? k l := by
  induction l with
  | nil => simp [put, find?, h]
  | cons p rest ih =>
    by_cases hp : p.1 = k'
    · simp [put, find?, hp, h]
    · simp [put, find?, hp, ih]

/-- What was stored under a key is found. -/
@[simp] theorem get?_insert_self (t : Table κ υ) (k : κ) (v : υ) :
    (t.insert k v).get? k = some v := find?_put_self k v t.entries

/-- What is stored under another key is not seen. -/
theorem get?_insert_of_ne (t : Table κ υ) {k k' : κ} (h : k' ≠ k) (v : υ) :
    (t.insert k' v).get? k = t.get? k := find?_put_of_ne h v t.entries

/-- Both cases of a look-up after a write. -/
theorem get?_insert (t : Table κ υ) (k k' : κ) (v : υ) :
    (t.insert k' v).get? k = if k' = k then some v else t.get? k := by
  by_cases h : k' = k
  · subst h; simp
  · simp [h, get?_insert_of_ne t h]

/-- A guarded write keeps the value that was there first. -/
theorem get?_insertNew (t : Table κ υ) (k k' : κ) (v : υ) :
    (t.insertNew k' v).get? k = if k' = k then some ((t.get? k).getD v) else t.get? k := by
  unfold insertNew contains
  cases h : t.get? k' with
  | none =>
    by_cases hk : k' = k
    · subst hk; simp [h]
    · simp [hk, get?_insert_of_ne t hk]
  | some w =>
    by_cases hk : k' = k
    · subst hk; simp [h]
    · simp [hk]

/-! ## Entries -/

/-- What is found is an entry. -/
theorem mem_of_find? {k : κ} {v : υ} {l : List (κ × υ)} (h : find? k l = some v) :
    (k, v) ∈ l := by
  induction l with
  | nil => cases h
  | cons e rest ih =>
    unfold find? at h
    split at h
    · rename_i hkey
      cases h
      exact hkey ▸ List.mem_cons_self
    · exact List.mem_cons_of_mem _ (ih h)

/-- What is found is an entry of the table. -/
theorem mem_of_get? {k : κ} {v : υ} {t : Table κ υ} (h : t.get? k = some v) :
    (k, v) ∈ t.entries := mem_of_find? h

/-- After a write there is one entry that may be new. -/
theorem mem_put {k : κ} {v : υ} {l : List (κ × υ)} {e : κ × υ} (h : e ∈ put k v l) :
    e ∈ l ∨ e = (k, v) := by
  induction l with
  | nil => exact .inr (List.mem_singleton.mp h)
  | cons first rest ih =>
    unfold put at h
    split at h
    · rename_i heq
      rcases List.mem_cons.mp h with rfl | hrest
      · exact .inr (by rw [heq])
      · exact .inl (List.mem_cons_of_mem _ hrest)
    · rcases List.mem_cons.mp h with rfl | hrest
      · exact .inl List.mem_cons_self
      · exact (ih hrest).imp_left (List.mem_cons_of_mem _)

/-- A write adds at most one entry. -/
theorem mem_entries_insert {t : Table κ υ} {k : κ} {v : υ} {e : κ × υ}
    (h : e ∈ (t.insert k v).entries) : e ∈ t.entries ∨ e = (k, v) := mem_put h

/-- A key that is not there yet is written at the end. -/
theorem put_of_find?_eq_none {k : κ} (v : υ) {l : List (κ × υ)} (h : find? k l = none) :
    put k v l = l ++ [(k, v)] := by
  induction l with
  | nil => rfl
  | cons e rest ih =>
    by_cases hk : e.1 = k
    · simp [find?, hk] at h
    · simp only [find?, hk, if_false] at h
      simp [put, hk, ih h]

/-- A key without a value is written at the end. -/
theorem entries_insertNew (t : Table κ υ) {k : κ} (v : υ) (h : t.get? k = none) :
    (t.insertNew k v).entries = t.entries ++ [(k, v)] := by
  unfold insertNew contains
  rw [h]
  exact put_of_find?_eq_none v h

/-- A key that is not found stands in no entry. -/
theorem not_mem_of_find?_eq_none {k : κ} {l : List (κ × υ)} (h : find? k l = none) :
    k ∉ l.map (·.1) := by
  induction l with
  | nil => exact List.not_mem_nil
  | cons e rest ih =>
    by_cases hk : e.1 = k
    · simp [find?, hk] at h
    · simp only [find?, hk, if_false] at h
      rw [List.map_cons, List.mem_cons, not_or]
      exact ⟨fun heq => hk heq.symm, ih h⟩

/-- A guarded write keeps each key to one entry. -/
theorem nodup_keys_insertNew {t : Table κ υ} (h : t.keys.Nodup) (k : κ) (v : υ) :
    (t.insertNew k v).keys.Nodup := by
  cases hk : t.get? k with
  | some w =>
    unfold insertNew contains
    rw [hk]
    exact h
  | none =>
    unfold keys at h ⊢
    rw [entries_insertNew t v hk, List.map_append, List.nodup_append]
    refine ⟨h, by simp, fun other hother last hlast heq => ?_⟩
    obtain rfl := List.mem_singleton.mp hlast
    exact not_mem_of_find?_eq_none hk (heq ▸ hother)

end Table

end SymbolGraph
