import SymbolGraph.Json.GlobalRecords
import SymbolGraph.Json.Settings

/-!
# Reading undoes writing

Every record is read back from its JSON form (`records_roundTrip`). The written forms leave out
what has no value: an optional field is there or not (`entryIf`), an empty text is left out
(`entryIfText`), and a documentation text has the fields of its key among its own, or none of
them. What a record is read from is seen through `lookup` only, so each of these conventions is
one lemma about looking up a field in a written list of entries, and one about reading the field
from what is found.
-/

namespace SymbolGraph

namespace Json

variable {α : Type} {read : Json → Option α} {write : α → Json}

/-- Reading undoes writing. Whatever spelling a value has been read from, it is so read from what
is written for it. -/
structure RoundTrips (read : Json → Option α) (write : α → Json) : Prop where
  undoes : ∀ a, read (write a) = some a
  rereads : ∀ {j a}, read j = some a → read (write a) = some a

/-- If reading undoes writing, then whatever text is accepted, what it is read as is written and
read as the same again. -/
theorem RoundTrips.of_undoes (h : ∀ a, read (write a) = some a) : RoundTrips read write where
  undoes := h
  rereads _ := h _

/-! ## Values -/

@[simp] theorem str?_str (s : String) : str? (.str s) = some s := rfl

@[simp] theorem bool?_bool (b : Bool) : bool? (.bool b) = some b := rfl

/-- An offset is below the bound that is tested when it is read. -/
@[simp] theorem uint32?_ofUInt32 (n : UInt32) : uint32? (ofUInt32 n) = some n := by
  have hsize : (n.toNat : Int) < UInt32.size := by exact_mod_cast n.toNat_lt
  unfold ofUInt32 uint32?
  dsimp only
  rw [if_pos ⟨Int.natCast_nonneg _, hsize⟩, Int.toNat_natCast, UInt32.ofNat_toNat]

/-- A list is read back if its items are. -/
theorem listOf?_ofList (h : ∀ a, read (write a) = some a) (as : List α) :
    listOf? read (ofList write as) = some as :=
  readAll_map h as

/-! ## Fields -/

variable {key : String}

@[simp] theorem lookup_nil : lookup key [] = none := rfl

/-- A key is found in the first field that has it. -/
@[simp] theorem lookup_cons (k : String) (v : Json) (rest : List (String × Json)) :
    lookup key ((k, v) :: rest) = if k = key then some v else lookup key rest := by
  rw [lookup]

/-- A key is found in the first of two lists of fields or else in the second. -/
@[simp] theorem lookup_append (xs ys : List (String × Json)) :
    lookup key (xs ++ ys) = (lookup key xs).or (lookup key ys) := by
  induction xs with
  | nil => rfl
  | cons x rest ih =>
    rw [List.cons_append, lookup_cons, lookup_cons, ih]
    split <;> rfl

/-- A key that no field has is not found. -/
theorem lookup_eq_none {es : List (String × Json)} (h : key ∉ es.map Prod.fst) :
    lookup key es = none := by
  induction es with
  | nil => rfl
  | cons e rest ih =>
    rw [List.map_cons, List.mem_cons, not_or] at h
    rw [lookup_cons, if_neg (Ne.symm h.1), ih h.2]

/-- A field that may be left out is found under its key if it has a value. -/
@[simp] theorem lookup_entryIf (k : String) (a? : Option α) :
    lookup key (entryIf k write a?) = if k = key then a?.map write else none := by
  cases a? with
  | none => exact (ite_self none).symm
  | some a => rfl

/-- A text that may be left out is found under its key unless it is empty. -/
@[simp] theorem lookup_entryIfText (k text : String) :
    lookup key (entryIfText k text) =
      if k = key then if text.isEmpty then none else some (.str text) else none := by
  unfold entryIfText
  cases text.isEmpty with
  | true => exact (ite_self none).symm
  | false => rfl

/-- A field that is left out when it has no value is read from what is found for it. -/
theorem optional_eq (hread : ∀ a, read (write a) = some a) (hnull : ∀ a, write a ≠ .null)
    {a? : Option α} {es : List (String × Json)} (h : lookup key es = a?.map write) :
    optional read key es = some a? := by
  unfold optional withDefault
  rw [h]
  cases a? with
  | none => rfl
  | some a =>
    dsimp only [Option.map_some]
    unfold nullable
    split
    · exact absurd ‹_› (hnull a)
    · rw [hread, Option.map_some]

/-- A text that is left out when it is empty. -/
theorem withDefault_text_eq {text : String} {es : List (String × Json)}
    (h : lookup key es = if text.isEmpty then none else some (.str text)) :
    withDefault "" str? key es = some text := by
  unfold withDefault
  rw [h]
  cases hempty : text.isEmpty with
  | true => rw [String.isEmpty_iff.mp hempty]; rfl
  | false => rfl

/-- An object is read by the fields it was written with. -/
theorem bind_entries?_obj (fields : List String) (es : List (String × Json))
    (next : List (String × Json) → Option α) : (entries? fields (.obj es) >>= next) = next es :=
  rfl

/-- An object is read by its fields also where an array of the values is not accepted. -/
theorem bind_objectEntries?_obj (es : List (String × Json))
    (next : List (String × Json) → Option α) : (objectEntries? (.obj es) >>= next) = next es :=
  rfl

end Json

open Json

/-! ## Records of a package graph

Fields are looked up by rewriting and the values that are read are put together by computation. No
offset may be read by computation, or the kernel would count up to its bound. -/

/-- A span is read back. -/
theorem Span.ofJson?_toJson (s : Span) : Span.ofJson? s.toJson = some s := by
  simp only [ofJson?, toJson, uint32?_ofUInt32]
  rfl

/-- A key is read back, with or without a path. -/
theorem DefKey.ofJson?_toJson (k : DefKey) : DefKey.ofJson? k.toJson = some k := by
  rw [ofJson?, toJson, bind_entries?_obj]
  simp only [required, lookup_cons, String.reduceEq, ↓reduceIte, Option.bind_some, str?_str,
    listOf?_ofList str?_str]
  rfl

/-- A kind is read back by its name. -/
theorem DefKind.ofJson?_toJson (k : DefKind) : DefKind.ofJson? k.toJson = some k := by
  cases k <;> rfl

/-- A format is read back by its name. -/
theorem DocFormat.ofJson?_toJson (f : DocFormat) : DocFormat.ofJson? f.toJson = some f := by
  cases f <;> rfl

/-- A definition is read back, with its fields that may be left out. -/
theorem Def.ofJson?_toJson (d : Def) : Def.ofJson? d.toJson = some d := by
  rw [ofJson?, toJson, bind_entries?_obj]
  generalize hes : (_ ++ _ : List (String × Json)) = es
  have hreceiver : optional str? "Receiver" es = some d.receiver :=
    optional_eq str?_str nofun (by simp [← hes])
  have hstruct : optional str? "FieldOfStruct" es = some d.structName :=
    optional_eq str?_str nofun (by simp [← hes])
  simp only [hreceiver, hstruct]
  subst hes
  simp -implicitDefEqProofs only [required, lookup_append, lookup_cons, lookup_nil, lookup_entryIf,
    String.reduceEq, ↓reduceIte, Option.or_none, Option.or_some, Option.getD_none,
    Option.bind_some, str?_str, bool?_bool, Span.ofJson?_toJson, DefKey.ofJson?_toJson,
    DefKind.ofJson?_toJson]
  rfl

/-- A reference is read back. -/
theorem Ref.ofJson?_toJson (x : Ref) : Ref.ofJson? x.toJson = some x := by
  rw [ofJson?, toJson, bind_entries?_obj]
  simp -implicitDefEqProofs only [required, lookup_cons, String.reduceEq, ↓reduceIte,
    Option.bind_some, str?_str, bool?_bool, Span.ofJson?_toJson, DefKey.ofJson?_toJson]
  rfl

/-- A documentation is read back, with a key or without. -/
theorem Doc.ofJson?_toJson (d : Doc) : Doc.ofJson? d.toJson = some d := by
  rw [ofJson?, toJson, bind_entries?_obj]
  generalize hes : (_ ++ _ : List (String × Json)) = es
  have hkey : optional DefKey.ofJson? "DefKey" es = some d.key :=
    optional_eq DefKey.ofJson?_toJson nofun (by simp [← hes])
  simp only [hkey]
  subst hes
  simp -implicitDefEqProofs only [required, lookup_append, lookup_cons, lookup_entryIf,
    String.reduceEq, ↓reduceIte, Option.none_or, Option.bind_some, str?_str,
    Span.ofJson?_toJson, DocFormat.ofJson?_toJson]
  rfl

/-- A package graph is read back, list by list. -/
theorem PackageGraph.ofJson?_toJson (g : PackageGraph) :
    PackageGraph.ofJson? g.toJson = some g := by
  rw [ofJson?, toJson, bind_entries?_obj]
  simp only [required, lookup_cons, String.reduceEq, ↓reduceIte, Option.bind_some,
    listOf?_ofList Def.ofJson?_toJson, listOf?_ofList Ref.ofJson?_toJson,
    listOf?_ofList Doc.ofJson?_toJson]
  rfl

/-! ## Targets and configurations -/

/-- A target is read back. -/
theorem Target.ofJson?_toJson (t : Target) : Target.ofJson? t.toJson = some t := by
  rw [ofJson?, toJson, bind_entries?_obj]
  generalize hes : (_ ++ _ : List (String × Json)) = es
  have hversion : withDefault "" str? "ToVersionString" es = some t.version :=
    withDefault_text_eq (by simp [← hes])
  have hrevision : withDefault "" str? "ToRevSpec" es = some t.revision :=
    withDefault_text_eq (by simp [← hes])
  simp only [hversion, hrevision]
  subst hes
  simp only [required, lookup_append, lookup_cons, String.reduceEq, ↓reduceIte, Option.some_or,
    Option.bind_some, str?_str]
  rfl

/-- A mode of labels is read back by its name. -/
theorem ScopeLabels.ofJson?_toJson (l : ScopeLabels) : ScopeLabels.ofJson? l.toJson = some l := by
  cases l <;> rfl

/-- A configuration is read back. -/
theorem Config.ofJson?_toJson (c : Config) : Config.ofJson? c.toJson = some c := by
  rw [toJson, ofJson?, bind_entries?_obj]
  · simp only [withDefault, lookup_cons, String.reduceEq, ↓reduceIte, str?_str, bool?_bool,
      ScopeLabels.ofJson?_toJson, listOf?_ofList str?_str]
    rfl
  · nofun

/-! ## Records with global keys -/

namespace GlobalKey

/-- The fields of a key are found in front of those of the record it is part of. -/
theorem ofEntries?_entries_append (k : GlobalKey) (rest : List (String × Json)) :
    ofEntries? (k.entries ++ rest) = some k := by
  simp only [ofEntries?, entries, required, lookup_append, lookup_cons, String.reduceEq,
    ↓reduceIte, Option.some_or, Option.bind_some, str?_str]
  rfl

/-- The entries of a key do not hide those of other fields. -/
theorem lookup_entries_eq_none (k : GlobalKey) {key : String} (h : key ∉ fields) :
    lookup key k.entries = none :=
  lookup_eq_none h

/-- A record without the field of the repository has no key. -/
theorem ofEntries?_eq_none {es : List (String × Json)} (h : lookup "Repo" es = none) :
    ofEntries? es = none := by
  simp only [ofEntries?, required, h, Option.bind_none]
  rfl

/-- A global key is read back. -/
theorem ofJson?_toJson (k : GlobalKey) : ofJson? k.toJson = some k := by
  have hentries := k.ofEntries?_entries_append []
  rw [List.append_nil] at hentries
  exact hentries

end GlobalKey

/-- A global definition is read back, its key out of the record's own fields. -/
theorem GlobalDef.ofJson?_toJson (d : GlobalDef) : GlobalDef.ofJson? d.toJson = some d := by
  rw [ofJson?, toJson, bind_objectEntries?_obj, GlobalKey.ofEntries?_entries_append]
  simp -implicitDefEqProofs only [required, lookup_append, lookup_cons,
    GlobalKey.lookup_entries_eq_none, GlobalKey.fields, List.mem_cons, List.not_mem_nil, or_self,
    not_false_eq_true, String.reduceEq, ↓reduceIte, Option.none_or, Option.bind_some, str?_str,
    bool?_bool, uint32?_ofUInt32]
  rfl

/-- A global reference is read back. -/
theorem GlobalRef.ofJson?_toJson (x : GlobalRef) : GlobalRef.ofJson? x.toJson = some x := by
  rw [ofJson?, toJson, bind_entries?_obj]
  simp -implicitDefEqProofs only [required, lookup_cons, String.reduceEq, ↓reduceIte,
    Option.bind_some, str?_str, bool?_bool, uint32?_ofUInt32]
  rfl

/-- A global documentation is read back, with a key among its fields or without. -/
theorem GlobalDoc.ofJson?_toJson (d : GlobalDoc) : GlobalDoc.ofJson? d.toJson = some d := by
  obtain ⟨key, format, data, file, start, stop, docUnit⟩ := d
  rw [ofJson?, toJson, bind_objectEntries?_obj]
  cases key with
  | none =>
    simp -implicitDefEqProofs only [GlobalKey.ofEntries?_eq_none, required, List.nil_append,
      lookup_cons, lookup_nil, String.reduceEq, ↓reduceIte, Option.bind_some, str?_str,
      uint32?_ofUInt32, DocFormat.ofJson?_toJson]
    rfl
  | some key =>
    simp -implicitDefEqProofs only [GlobalKey.ofEntries?_entries_append, required, lookup_append,
      lookup_cons, GlobalKey.lookup_entries_eq_none, GlobalKey.fields, List.mem_cons,
      List.not_mem_nil, or_self, not_false_eq_true, String.reduceEq, ↓reduceIte, Option.none_or,
      Option.bind_some, str?_str, uint32?_ofUInt32, DocFormat.ofJson?_toJson]
    rfl

/-- A global graph is read back, list by list. -/
theorem GlobalGraph.ofJson?_toJson (g : GlobalGraph) :
    GlobalGraph.ofJson? g.toJson = some g := by
  rw [ofJson?, toJson, bind_entries?_obj]
  simp only [required, lookup_cons, String.reduceEq, ↓reduceIte, Option.bind_some,
    listOf?_ofList GlobalDef.ofJson?_toJson, listOf?_ofList GlobalRef.ofJson?_toJson,
    listOf?_ofList GlobalDoc.ofJson?_toJson]
  rfl

/-- **Reading undoes writing**, for spans and keys, the records of a package graph and of its
global form, targets and configurations: what is written for a record is read as that record, and
so is what is written for a record that has been read from any other spelling. -/
theorem records_roundTrip :
    RoundTrips Span.ofJson? Span.toJson ∧ RoundTrips DefKey.ofJson? DefKey.toJson ∧
      RoundTrips Def.ofJson? Def.toJson ∧ RoundTrips Ref.ofJson? Ref.toJson ∧
      RoundTrips Doc.ofJson? Doc.toJson ∧ RoundTrips PackageGraph.ofJson? PackageGraph.toJson ∧
      RoundTrips Target.ofJson? Target.toJson ∧ RoundTrips GlobalKey.ofJson? GlobalKey.toJson ∧
      RoundTrips GlobalDef.ofJson? GlobalDef.toJson ∧
      RoundTrips GlobalRef.ofJson? GlobalRef.toJson ∧
      RoundTrips GlobalDoc.ofJson? GlobalDoc.toJson ∧
      RoundTrips GlobalGraph.ofJson? GlobalGraph.toJson ∧
      RoundTrips Config.ofJson? Config.toJson :=
  ⟨.of_undoes Span.ofJson?_toJson, .of_undoes DefKey.ofJson?_toJson,
    .of_undoes Def.ofJson?_toJson, .of_undoes Ref.ofJson?_toJson, .of_undoes Doc.ofJson?_toJson,
    .of_undoes PackageGraph.ofJson?_toJson, .of_undoes Target.ofJson?_toJson,
    .of_undoes GlobalKey.ofJson?_toJson, .of_undoes GlobalDef.ofJson?_toJson,
    .of_undoes GlobalRef.ofJson?_toJson, .of_undoes GlobalDoc.ofJson?_toJson,
    .of_undoes GlobalGraph.ofJson?_toJson, .of_undoes Config.ofJson?_toJson⟩

/-- Another spelling: an array of the first fields, without the texts that may be left out. -/
example :
    Target.ofJson? (.arr [.str "https://b.org/r", .str "b.org/r/x", .str "GoPackage"]) =
      some (.ofUnit "https://b.org/r" "b.org/r/x") := by
  rfl

end SymbolGraph
