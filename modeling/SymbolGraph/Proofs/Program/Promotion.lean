import SymbolGraph.Program.Basic

/-!
# Promoted fields

A selection picks a field of a type or of a struct that is embedded in it, at whatever depth, and
keeps the way there as an index path (`Program.Leads`). Whatever the length of the path, the type
that is said to declare the field has it at the path's last place (`Leads.exists_declaringType`),
and is the selection's own type if nothing is embedded (`declaringType_of_length_le`).
-/

namespace SymbolGraph

namespace Program

variable {p : Program} {type recv : TypeId} {i : Nat} {index : List Nat} {obj field : ObjectId}

/-- A struct type, or what a pointer to one points to, has an object in a place of its fields. Names
are looked through. -/
def FieldAt (p : Program) (type : TypeId) (i : Nat) (obj : ObjectId) : Prop :=
  ∃ target fields, p.deref type = .ok target ∧ p.structFields? target = .ok (some fields) ∧
    fields[i]? = some obj

/-- An index path leads from a type to a field: each index but the last takes a field, whose type
the rest of the path starts at. -/
inductive Leads (p : Program) : TypeId → List Nat → ObjectId → Prop
  | last {type : TypeId} {i : Nat} {obj : ObjectId} : p.FieldAt type i obj → Leads p type [i] obj
  | through {type next : TypeId} {i : Nat} {rest : List Nat} {field obj : ObjectId} {o : Object} :
      p.FieldAt type i field → p.object field = .ok o → o.type = some next →
      Leads p next rest obj → Leads p type (i :: rest) obj

/-- A route has an index at least, that of its end. -/
theorem Leads.ne_nil (h : p.Leads type index obj) : index ≠ [] := by
  cases h <;> exact List.cons_ne_nil _ _

/-- The first index is followed to the type of its field, from where the others are followed. -/
theorem throughFields_cons {next : TypeId} {o : Object} (h : p.FieldAt recv i field)
    (ho : p.object field = .ok o) (hnext : o.type = some next) (rest : List Nat) :
    p.throughFields recv (i :: rest) = p.throughFields next rest := by
  obtain ⟨target, fields, htarget, hfields, hfield⟩ := h
  simp only [throughFields, htarget, hfields, hfield, ho, hnext, bind, Except.bind]

/-- Going through all fields of a path but the last ends at a type that has the last one. -/
theorem Leads.exists_throughFields (h : p.Leads recv index obj) :
    ∃ type last, p.throughFields recv index.dropLast = .ok type ∧ index.getLast? = some last ∧
      p.FieldAt type last obj := by
  induction h with
  | @last type i obj hfield => exact ⟨type, i, rfl, rfl, hfield⟩
  | @through recv next i rest field obj o hfield ho hnext hrest ih =>
    obtain ⟨type, last, hthrough, hlast, hhas⟩ := ih
    refine ⟨type, last, ?_, ?_, hhas⟩
    · rw [List.dropLast_cons_of_ne_nil hrest.ne_nil, throughFields_cons hfield ho hnext, hthrough]
    · obtain ⟨j, rest, rfl⟩ := List.exists_cons_of_ne_nil hrest.ne_nil
      rw [List.getLast?_cons_cons, hlast]

/-- The declaring type of a selection whose index path leads to its object has the object at the
path's last place. -/
theorem Leads.exists_declaringType {s : Selection} (h : p.Leads s.recv s.index s.obj) :
    ∃ type last, p.declaringType s = .ok type ∧ s.index.getLast? = some last ∧
      p.FieldAt type last s.obj :=
  h.exists_throughFields

/-- A member that is not promoted is declared by the type that it is selected from. -/
theorem declaringType_of_length_le {s : Selection} (h : s.index.length ≤ 1) :
    p.declaringType s = .ok s.recv := by
  have hnil : s.index.dropLast = [] := by
    rw [← List.length_eq_zero_iff, List.length_dropLast]
    omega
  rw [declaringType, hnil]
  rfl

end Program

end SymbolGraph
