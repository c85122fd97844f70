import SymbolGraph.Proofs.Program.TypeSyntax

/-!
# The text of a type

A program writes a type out as Go does, but without the parentheses around an element of a channel
(`Spellable.typeText_eq`). It looks at types down to a depth that no type which can be written
reaches (`Spellable.shallow`). What is written for fields, methods and parameters are texts to be
joined, so that what is shown for each piece is that its texts join to that of the piece (`Joins`,
`Written`).
-/

namespace SymbolGraph

namespace Program

variable {p : Program} {id : TypeId} {obj : ObjectId} {o : Object} {t : TypeId}

/-! ## How deep types are -/

/-- Following the parts of a type comes to an end in fewer than a number of steps. -/
def Shallow (p : Program) : Nat → TypeId → Prop
  | 0, _ => False
  | n + 1, id => ∀ part, p.HasPart id part → p.Shallow n part

/-- What ends in fewer than some steps ends in fewer than one more. -/
theorem Shallow.succ {n : Nat} (h : p.Shallow n id) : p.Shallow (n + 1) id := by
  induction n generalizing id with
  | zero => exact h.elim
  | succ n ih => exact fun part hpart => ih (h part hpart)

/-- A part is as shallow as the whole. -/
theorem Shallow.of_hasPart {n : Nat} (h : p.Shallow n id) (part : TypeId)
    (hpart : p.HasPart id part) : p.Shallow n part := by
  cases n with
  | zero => exact h.elim
  | succ n => exact (h part hpart).succ

/-- A type whose parts come to an end is no part of itself. -/
theorem not_transGen_of_acc (h : Acc (fun part whole => p.HasPart whole part) id) :
    ¬ Relation.TransGen p.HasPart id id := by
  induction h with
  | intro id _ ih =>
    intro hcircle
    obtain ⟨part, hpart, hback⟩ := Relation.TransGen.head'_iff.mp hcircle
    exact ih part hpart (Relation.TransGen.tail' hback hpart)

/-- A type that can be written is no deeper than there are types. -/
theorem Spellable.shallow (h : p.Spellable id) : p.Shallow (p.types.size + 1) id := by
  let below (whole part : TypeId) : Prop :=
    Relation.ReflTransGen p.HasPart id whole ∧ p.HasPart whole part
  have hacc : ∀ {part}, Relation.ReflTransGen p.HasPart id part →
      Acc (fun part whole => p.HasPart whole part) part := by
    intro part hreach
    induction hreach with
    | refl => exact h.wellFounded
    | tail _ hpart ih => exact ih.inv hpart
  obtain ⟨rank, hlt, hle⟩ := exists_rank (r := below) (n := p.types.size) TypeId.eq_of_index
    (fun whole part hbelow => by
      obtain ⟨found, hfound, -⟩ := h.lawful part (hbelow.1.tail hbelow.2)
      exact (Array.getElem?_eq_some_iff.mp (fetch_eq_ok_iff.mp hfound)).1)
    (fun whole hcircle => by
      obtain ⟨part, hpart, -⟩ := Relation.TransGen.head'_iff.mp hcircle
      have hle : below ≤ p.HasPart := fun _ _ hbelow => hbelow.2
      exact not_transGen_of_acc (hacc hpart.1) (Relation.TransGen.mono hle _ _ hcircle))
  have hshallow : ∀ n part, Relation.ReflTransGen p.HasPart id part → rank part < n →
      p.Shallow n part := by
    intro n
    induction n with
    | zero => exact fun part _ hrank => absurd hrank (Nat.not_lt_zero _)
    | succ n ih =>
      intro part hreach hrank inner hinner
      have hstep := hlt part inner ⟨hreach, hinner⟩
      exact ih inner (hreach.tail hinner) (by omega)
  exact hshallow _ id .refl (Nat.lt_succ_of_le (hle id))

/-- The types in a piece are not deep. -/
def Within (p : Program) (n : Nat) : {k : Piece} → k.Ids → Prop
  | .type, id => p.Shallow n id
  | .fields, objs => ∀ obj ∈ objs, ∀ o t, p.object obj = .ok o → o.type = some t → p.Shallow n t
  | .elements, (methods, embedded) =>
    (∀ obj ∈ methods, ∀ o t, p.object obj = .ok o → o.type = some t → p.Shallow n t) ∧
      ∀ t ∈ embedded, p.Shallow n t
  | .params, (objs, _) =>
    ∀ obj ∈ objs, ∀ o t, p.object obj = .ok o → o.type = some t → p.Shallow n t

/-! ## Writing types out -/

open TypeExpr Text

/-- Texts with a separator between each two are the text of a list. -/
def Joins {k : Piece} (sep : List Char) (texts : List (List Char)) (a : TypeSyntax k) : Prop :=
  texts.isEmpty = a.isEmpty ∧ join sep texts = a.bareText

/-- One more text in front, with a separator behind it if a text follows. -/
theorem join_cons_of_joins {k : Piece} {sep : List Char} {texts : List (List Char)}
    {rest : TypeSyntax k} (h : Joins sep texts rest) (first : List Char) :
    join sep (first :: texts) = first ++ rest.separator sep ++ rest.bareText := by
  obtain ⟨hempty, hjoin⟩ := h
  cases texts with
  | nil => simp [TypeSyntax.separator, ← hempty, ← hjoin, join]
  | cons text texts =>
    rw [join_cons (List.cons_ne_nil text texts), hjoin, TypeSyntax.separator, ← hempty]
    simp

/-- Results behind the parameters, as they are written. -/
def renderResults : List SymbolGraph.Member → List Char
  | [] => []
  | [.mk none spread type] => ' ' :: renderMember (.mk none spread type)
  | results => ' ' :: '(' :: join [',', ' '] (renderMembers results) ++ [')']

/-- A piece of a type is written out as Go writes it, but for parentheses around elements of
channels. -/
def Written (p : Program) (n : Nat) : {k : Piece} → TypeSyntax k → k.Ids → Prop
  | .type, a, id => ∃ e, p.typeExprUpTo n id = .ok e ∧ render e = a.bareText
  | .fields, a, objs => ∃ ms, objs.mapM (p.fieldOf (p.typeExprUpTo n)) = .ok ms ∧
    Joins [';', ' '] (renderMembers ms) a
  | .elements, a, (methods, embedded) => ∃ ms es,
    methods.mapM (p.methodOf (p.typeExprUpTo n)) = .ok ms ∧
      embedded.mapM (p.typeExprUpTo n) = .ok es ∧
        Joins [';', ' '] (renderMethods ms ++ renderAll es) a
  | .params, a, (objs, variadic) => ∃ ms, p.paramsOf (p.typeExprUpTo n) variadic objs = .ok ms ∧
    Joins [',', ' '] (renderMembers ms) a ∧
      (variadic = false → renderResults ms = a.resultsText a.bareText)

section Texts

variable {x y : TypeExpr} {type key value : TypeSyntax .type}

/-- A map type is written out if its key and its value are. -/
theorem render_map (hkey : render x = key.bareText) (hvalue : render y = value.bareText) :
    render (.map x y) = (TypeSyntax.map key value).bareText := by
  have hword : "map[".toList = TypeSyntax.mapWord ++ ['['] := by decide
  calc render (.map x y) = "map[".toList ++ render x ++ ']' :: render y := rfl
    _ = TypeSyntax.mapWord ++ '[' :: key.bareText ++ ']' :: value.bareText := by
      rw [hkey, hvalue, hword]
      simp

/-- A channel type is written out if its element is. -/
theorem render_chan (dir : ChanDir) (helem : render x = type.bareText) :
    render (.chan dir x) = (TypeSyntax.chan dir type).bareText := by
  have hboth : chanWords .both = TypeSyntax.chanWord ++ [' '] := by decide
  have hsend : chanWords .send = TypeSyntax.chanWord ++ ['<', '-', ' '] := by decide
  have hrecv : chanWords .recv = '<' :: '-' :: TypeSyntax.chanWord ++ [' '] := by decide
  calc render (.chan dir x) = chanWords dir ++ render x := rfl
    _ = TypeSyntax.chanText dir false type.bareText := by
      rw [helem]
      cases dir with
      | both => simp [TypeSyntax.chanText, hboth]
      | send => simp [TypeSyntax.chanText, hsend]
      | recv => simp [TypeSyntax.chanText, hrecv]

/-- A struct type is written out if its fields are. -/
theorem render_struct {ms : List SymbolGraph.Member} {fields : TypeSyntax .fields}
    (h : join [';', ' '] (renderMembers ms) = fields.bareText) :
    render (.struct ms) = (TypeSyntax.struct fields).bareText := by
  have hword : "struct\x7b".toList = TypeSyntax.structWord ++ ['\x7b'] := by decide
  calc render (.struct ms) =
      "struct\x7b".toList ++ join [';', ' '] (renderMembers ms) ++ ['\x7d'] := rfl
    _ = TypeSyntax.structWord ++ '\x7b' :: fields.bareText ++ ['\x7d'] := by
      rw [h, hword]
      simp

/-- An interface type is written out if its methods and embedded types are. -/
theorem render_interface {ms : List Method} {es : List TypeExpr} {elements : TypeSyntax .elements}
    (h : join [';', ' '] (renderMethods ms ++ renderAll es) = elements.bareText) :
    render (.interface ms es) = (TypeSyntax.interface elements).bareText := by
  have hword : "interface\x7b".toList = TypeSyntax.interfaceWord ++ ['\x7b'] := by decide
  calc render (.interface ms es) =
      "interface\x7b".toList ++ join [';', ' '] (renderMethods ms ++ renderAll es)
        ++ ['\x7d'] := rfl
    _ = TypeSyntax.interfaceWord ++ '\x7b' :: elements.bareText ++ ['\x7d'] := by
      rw [h, hword]
      simp

/-- A function type is written out if its signature is. -/
theorem render_func {signature : Signature} {params results : TypeSyntax .params}
    (h : renderSignature signature =
      '(' :: params.bareText ++ ')' :: results.resultsText results.bareText) :
    render (.func signature) = (TypeSyntax.func params results).bareText := by
  calc render (.func signature) = TypeSyntax.funcWord ++ renderSignature signature := rfl
    _ = TypeSyntax.funcWord ++ '(' :: params.bareText ++
        ')' :: results.resultsText results.bareText := by
      rw [h]
      simp

end Texts

section Members

variable {n : Nat} {a : TypeSyntax .type} {go : TypeId → Except Fault TypeExpr} {e : TypeExpr}
  {objs : List ObjectId} {variadic : Bool}

/-- A field is written with its name unless it is embedded. -/
theorem fieldOf_eq_ok (ho : p.object obj = .ok o) (ht : o.type = some t) (hgo : go t = .ok e) :
    p.fieldOf go obj = .ok (.mk (if o.kind = .field true then none else some o.name) false e) := by
  refine bind_eq_ok_iff.mpr ⟨o, ho, ?_⟩
  rw [ht]
  exact bind_eq_ok_iff.mpr ⟨e, hgo, rfl⟩

/-- A parameter is written with its name if it has one. -/
theorem memberOf_eq_ok (ho : p.object obj = .ok o) (ht : o.type = some t) (hgo : go t = .ok e) :
    p.memberOf go false obj = .ok (.mk o.label false e) := by
  refine bind_eq_ok_iff.mpr ⟨o, ho, ?_⟩
  rw [ht]
  exact bind_eq_ok_iff.mpr ⟨e, hgo, rfl⟩

/-- The last parameter of a variadic function is written by the element of its slice. -/
theorem memberOf_spread_eq_ok {elem : TypeId} (ho : p.object obj = .ok o) (ht : o.type = some t)
    (hslice : p.type t = .ok (.slice elem)) (hgo : go elem = .ok e) :
    p.memberOf go true obj = .ok (.mk o.label true e) := by
  refine bind_eq_ok_iff.mpr ⟨o, ho, ?_⟩
  rw [ht]
  exact bind_eq_ok_iff.mpr ⟨_, hslice, bind_eq_ok_iff.mpr ⟨e, hgo, rfl⟩⟩

/-- A parameter that is not the last one, or not of a variadic signature. -/
theorem paramsOf_cons_eq_ok {m : SymbolGraph.Member} {ms : List SymbolGraph.Member}
    (hlast : objs = [] → variadic = false) (hm : p.memberOf go false obj = .ok m)
    (hms : p.paramsOf go variadic objs = .ok ms) :
    p.paramsOf go variadic (obj :: objs) = .ok (m :: ms) := by
  cases objs with
  | nil =>
    obtain rfl := hlast rfl
    obtain rfl := Except.ok.inj hms
    exact bind_eq_ok_iff.mpr ⟨m, hm, rfl⟩
  | cons next rest => exact bind_eq_ok_iff.mpr ⟨m, hm, bind_eq_ok_iff.mpr ⟨ms, hms, rfl⟩⟩

/-- If no parameter stands for any number of values, all are written alike. -/
theorem paramsOf_false : p.paramsOf go false objs = objs.mapM (p.memberOf go false) := by
  induction objs with
  | nil => rfl
  | cons obj objs ih =>
    cases objs with
    | nil => rfl
    | cons next rest => rw [paramsOf, ih, List.mapM_cons (a := obj)]

/-- A step for the first item and steps for the others are steps for all. -/
theorem mapM_cons_eq_ok {α β : Type} {f : α → Except Fault β} {x : α} {xs : List α} {y : β}
    {ys : List β} (hx : f x = .ok y) (hxs : xs.mapM f = .ok ys) :
    (x :: xs).mapM f = .ok (y :: ys) := by
  rw [List.mapM_cons]
  exact bind_eq_ok_iff.mpr ⟨y, hx, bind_eq_ok_iff.mpr ⟨ys, hxs, rfl⟩⟩

/-- A method is written with its name and its signature. -/
theorem methodOf_eq_ok {recv : Option ObjectId} {params results : List ObjectId}
    {ps rs : List SymbolGraph.Member} (ho : p.object obj = .ok o) (ht : o.type = some t)
    (hfound : p.type t = .ok (.signature recv params results variadic))
    (hps : p.paramsOf go variadic params = .ok ps) (hrs : p.paramsOf go false results = .ok rs) :
    p.methodOf go obj = .ok (.mk o.name (some (.mk ps rs))) := by
  rw [paramsOf_false] at hrs
  have hsignature : p.signatureOf? go t = .ok (some (.mk ps rs)) := bind_eq_ok_iff.mpr
    ⟨_, hfound, bind_eq_ok_iff.mpr ⟨ps, hps, bind_eq_ok_iff.mpr ⟨rs, hrs, rfl⟩⟩⟩
  refine bind_eq_ok_iff.mpr ⟨o, ho, ?_⟩
  rw [ht]
  exact bind_eq_ok_iff.mpr ⟨_, hsignature, rfl⟩

/-- The signature of a method or a function. -/
theorem renderSignature_eq {ps rs : List SymbolGraph.Member} {params results : TypeSyntax .params}
    (hps : Joins [',', ' '] (renderMembers ps) params)
    (hrs : renderResults rs = results.resultsText results.bareText) :
    renderSignature (.mk ps rs) =
      '(' :: params.bareText ++ ')' :: results.resultsText results.bareText := by
  have hunfold : renderSignature (.mk ps rs) =
      '(' :: join [',', ' '] (renderMembers ps) ++ ')' :: renderResults rs := by
    match rs with
    | [] => rfl
    | [.mk none _ _] => rfl
    | .mk none _ _ :: _ :: _ => rfl
    | .mk (some _) _ _ :: _ => rfl
  rw [hunfold, hps.2, hrs]

/-- A member is its name, three dots if it stands for any number of values, and its type. -/
theorem renderMember_eq (name : Option String) (spread : Bool) (e : TypeExpr) :
    renderMember (.mk name spread e) =
      TypeSyntax.label name ++ (if spread then ['.', '.', '.'] else []) ++ render e := by
  cases name <;> rfl

/-- A parameter in front of others that are written out. -/
theorem joins_param {ms : List SymbolGraph.Member} {type : TypeSyntax .type}
    {rest : TypeSyntax .params} (name : Option String) (htext : render e = type.bareText)
    (hms : Joins [',', ' '] (renderMembers ms) rest) :
    Joins [',', ' '] (renderMembers (.mk name false e :: ms)) (.param name type rest) := by
  refine ⟨rfl, ?_⟩
  rw [renderMembers, join_cons_of_joins hms, renderMember_eq, htext]
  simp [TypeSyntax.bareText, TypeSyntax.textWith]

/-- The results of a signature, of which one alone has no parentheses if it has no name. -/
theorem renderResults_cons {ms : List SymbolGraph.Member} {type : TypeSyntax .type}
    {rest : TypeSyntax .params} (name : Option String) (htext : render e = type.bareText)
    (hms : Joins [',', ' '] (renderMembers ms) rest) :
    renderResults (.mk name false e :: ms) =
      (TypeSyntax.param name type rest).resultsText (TypeSyntax.param name type rest).bareText := by
  obtain ⟨-, hjoin⟩ := joins_param name htext hms
  rw [← hjoin]
  match ms, rest, hms.1 with
  | [], .noParams, _ => cases name <;> rfl
  | _ :: _, .param _ _ _, _ => cases name <;> rfl
  | _ :: _, .spread _ _, _ => cases name <;> rfl

end Members

/-! ## One lemma for each form of a piece -/

section Forms

variable {n : Nat} {type key value elem : TypeSyntax .type}

/-- Parts of a type that is within a depth are within one less, so there is one less to go down. -/
theorem written_of_parts {a : TypeSyntax .type} (h : p.Shallow n id)
    (hparts : ∀ m, (∀ part, p.HasPart id part → p.Shallow m part) → p.Written (m + 1) a id) :
    p.Written n a id := by
  cases n with
  | zero => exact h.elim
  | succ n => exact hparts n h

/-- The parameters and the results of a signature are within the depth of its parts. -/
theorem within_signature {recv : Option ObjectId} {ps rs : List ObjectId} {variadic : Bool}
    (hfound : p.type id = .ok (.signature recv ps rs variadic))
    (hparts : ∀ part, p.HasPart id part → p.Shallow n part) :
    Within p n (k := .params) (ps, variadic) ∧ Within p n (k := .params) (rs, false) :=
  ⟨fun _ hobj _ t ho ht => hparts t (.member hfound (List.mem_append_left _ hobj) ho ht),
    fun _ hobj _ t ho ht => hparts t (.member hfound (List.mem_append_right _ hobj) ho ht)⟩

/-- A type with a name, at any depth, since it has no parts. -/
theorem written_named {path : Option String} {name : String}
    (h : p.Denotes (.named path name) id) : p.Written (n + 1) (.named path name) id := by
  rcases h with ⟨rfl, hbasic⟩ | ⟨obj, under, methods, o, hfound, ho, hpath, rfl⟩
  · exact ⟨.basic name, bind_eq_ok_iff.mpr ⟨_, hbasic, rfl⟩, rfl⟩
  · refine ⟨.named path o.name,
      bind_eq_ok_iff.mpr ⟨_, hfound, bind_eq_ok_iff.mpr ⟨o, ho, ?_⟩⟩, by cases path <;> rfl⟩
    rcases hpath with ⟨hpkg, rfl⟩ | ⟨pkg, owner, hpkg, howner, rfl⟩
    · rw [hpkg]
      rfl
    · rw [hpkg]
      exact bind_eq_ok_iff.mpr ⟨owner, howner, rfl⟩

/-- A pointer type. -/
theorem written_pointer {e : TypeId} (hfound : p.type id = .ok (.pointer e))
    (helem : p.Written n elem e) : p.Written (n + 1) (.pointer elem) id := by
  obtain ⟨x, hx, htext⟩ := helem
  exact ⟨.pointer x, bind_eq_ok_iff.mpr ⟨_, hfound, bind_eq_ok_iff.mpr ⟨x, hx, rfl⟩⟩,
    congrArg _ htext⟩

/-- A slice type. -/
theorem written_slice {e : TypeId} (hfound : p.type id = .ok (.slice e))
    (helem : p.Written n elem e) : p.Written (n + 1) (.slice elem) id := by
  obtain ⟨x, hx, htext⟩ := helem
  exact ⟨.slice x, bind_eq_ok_iff.mpr ⟨_, hfound, bind_eq_ok_iff.mpr ⟨x, hx, rfl⟩⟩,
    congrArg _ htext⟩

/-- An array type. -/
theorem written_array {len : Nat} {e : TypeId} (hfound : p.type id = .ok (.array len e))
    (helem : p.Written n elem e) : p.Written (n + 1) (.array len elem) id := by
  obtain ⟨x, hx, htext⟩ := helem
  exact ⟨.array len x, bind_eq_ok_iff.mpr ⟨_, hfound, bind_eq_ok_iff.mpr ⟨x, hx, rfl⟩⟩,
    congrArg ('[' :: (toString len).toList ++ ']' :: ·) htext⟩

/-- A channel type, in which no element has parentheses. -/
theorem written_chan {dir : ChanDir} {e : TypeId} (hfound : p.type id = .ok (.chan dir e))
    (helem : p.Written n elem e) : p.Written (n + 1) (.chan dir elem) id := by
  obtain ⟨x, hx, htext⟩ := helem
  exact ⟨.chan dir x, bind_eq_ok_iff.mpr ⟨_, hfound, bind_eq_ok_iff.mpr ⟨x, hx, rfl⟩⟩,
    render_chan dir htext⟩

/-- A map type. -/
theorem written_map {k v : TypeId} (hfound : p.type id = .ok (.map k v))
    (hkey : p.Written n key k) (hvalue : p.Written n value v) :
    p.Written (n + 1) (.map key value) id := by
  obtain ⟨x, hx, hkeyText⟩ := hkey
  obtain ⟨y, hy, hvalueText⟩ := hvalue
  refine ⟨.map x y, ?_, render_map hkeyText hvalueText⟩
  exact bind_eq_ok_iff.mpr
    ⟨_, hfound, bind_eq_ok_iff.mpr ⟨x, hx, bind_eq_ok_iff.mpr ⟨y, hy, rfl⟩⟩⟩

/-- A struct type. -/
theorem written_struct {fields : TypeSyntax .fields} {fs : List ObjectId}
    (hfound : p.type id = .ok (.struct fs)) (hfields : p.Written n fields fs) :
    p.Written (n + 1) (.struct fields) id := by
  obtain ⟨ms, hms, -, htext⟩ := hfields
  exact ⟨.struct ms, bind_eq_ok_iff.mpr ⟨_, hfound, bind_eq_ok_iff.mpr ⟨ms, hms, rfl⟩⟩,
    render_struct htext⟩

/-- An interface type, with methods before embedded types. -/
theorem written_interface {elements : TypeSyntax .elements} {methods : List ObjectId}
    {embedded : List TypeId} (hfound : p.type id = .ok (.interface methods embedded))
    (helements : p.Written n elements (methods, embedded)) :
    p.Written (n + 1) (.interface elements) id := by
  obtain ⟨ms, es, hms, hes, -, htext⟩ := helements
  refine ⟨.interface ms es, ?_, render_interface htext⟩
  exact bind_eq_ok_iff.mpr
    ⟨_, hfound, bind_eq_ok_iff.mpr ⟨ms, hms, bind_eq_ok_iff.mpr ⟨es, hes, rfl⟩⟩⟩

section Signatures

variable {params results : TypeSyntax .params} {recv : Option ObjectId} {ps rs : List ObjectId}
  {variadic : Bool}

/-- A function type. -/
theorem written_func (hfound : p.type id = .ok (.signature recv ps rs variadic))
    (hparams : p.Written n params (ps, variadic)) (hresults : p.Written n results (rs, false)) :
    p.Written (n + 1) (.func params results) id := by
  obtain ⟨ms, hms, hjoins, -⟩ := hparams
  obtain ⟨es, hes, -, hrender⟩ := hresults
  rw [paramsOf_false] at hes
  refine ⟨.func (.mk ms es), ?_, render_func (renderSignature_eq hjoins (hrender rfl))⟩
  exact bind_eq_ok_iff.mpr
    ⟨_, hfound, bind_eq_ok_iff.mpr ⟨ms, hms, bind_eq_ok_iff.mpr ⟨es, hes, rfl⟩⟩⟩

/-- A method in front of others. -/
theorem written_method {rest : TypeSyntax .elements} {more : List ObjectId}
    {embedded : List TypeId} (ho : p.object obj = .ok o) (ht : o.type = some t)
    (hfound : p.type t = .ok (.signature recv ps rs variadic))
    (hparams : p.Written n params (ps, variadic)) (hresults : p.Written n results (rs, false))
    (hrest : p.Written n rest (more, embedded)) :
    p.Written n (.method o.name params results rest) (obj :: more, embedded) := by
  obtain ⟨ms, hms, hjoins, -⟩ := hparams
  obtain ⟨es, hes, -, hrender⟩ := hresults
  obtain ⟨later, types, hlater, htypes, hrestJoins⟩ := hrest
  refine ⟨_, types, mapM_cons_eq_ok (methodOf_eq_ok ho ht hfound hms hes) hlater, htypes, rfl, ?_⟩
  have hunfold : renderMethods (.mk o.name (some (.mk ms es)) :: later) ++ renderAll types =
      (o.name.toList ++ renderSignature (.mk ms es)) :: (renderMethods later ++ renderAll types) :=
    rfl
  rw [hunfold, join_cons_of_joins hrestJoins, renderSignature_eq hjoins (hrender rfl)]
  simp [TypeSyntax.bareText, TypeSyntax.textWith]

end Signatures

/-- An embedded type in front of others, behind which no methods come. -/
theorem written_element {rest : TypeSyntax .elements} {embedded : List TypeId}
    (htype : p.Written n type t) (hrest : p.Written n rest ([], embedded)) :
    p.Written n (.element type rest) ([], t :: embedded) := by
  obtain ⟨e, he, htext⟩ := htype
  obtain ⟨ms, es, hms, hes, hjoins⟩ := hrest
  obtain rfl := Except.ok.inj hms
  refine ⟨[], e :: es, rfl, mapM_cons_eq_ok he hes, rfl, ?_⟩
  refine (join_cons_of_joins hjoins (render e)).trans ?_
  rw [htext]
  simp [TypeSyntax.bareText, TypeSyntax.textWith]

section Typed

variable {more : List ObjectId} (ho : p.object obj = .ok o) (ht : o.type = some t)
include ho ht

/-- A field in front of others. -/
theorem written_field {rest : TypeSyntax .fields} (hkind : o.kind ≠ .field true)
    (htype : p.Written n type t) (hrest : p.Written n rest more) :
    p.Written n (.field o.name type rest) (obj :: more) := by
  obtain ⟨e, he, htext⟩ := htype
  obtain ⟨ms, hms, hjoins⟩ := hrest
  refine ⟨_, mapM_cons_eq_ok (fieldOf_eq_ok ho ht he) hms, rfl, ?_⟩
  rw [renderMembers, join_cons_of_joins hjoins, if_neg hkind, renderMember, htext]
  simp [TypeSyntax.bareText, TypeSyntax.textWith]

/-- An embedded field in front of others. -/
theorem written_embedding {rest : TypeSyntax .fields} (hkind : o.kind = .field true)
    (htype : p.Written n type t) (hrest : p.Written n rest more) :
    p.Written n (.embedding type rest) (obj :: more) := by
  obtain ⟨e, he, htext⟩ := htype
  obtain ⟨ms, hms, hjoins⟩ := hrest
  refine ⟨_, mapM_cons_eq_ok (fieldOf_eq_ok ho ht he) hms, rfl, ?_⟩
  rw [renderMembers, join_cons_of_joins hjoins, if_pos hkind, renderMember, htext]
  simp [TypeSyntax.bareText, TypeSyntax.textWith]

/-- A parameter in front of others. If it is the last one, it does not stand for any number of
values. -/
theorem written_param {rest : TypeSyntax .params} {variadic : Bool}
    (hlast : more = [] → variadic = false) (htype : p.Written n type t)
    (hrest : p.Written n rest (more, variadic)) :
    p.Written n (.param o.label type rest) (obj :: more, variadic) := by
  obtain ⟨e, he, htext⟩ := htype
  obtain ⟨ms, hms, hjoins, -⟩ := hrest
  exact ⟨_, paramsOf_cons_eq_ok hlast (memberOf_eq_ok ho ht he) hms, joins_param _ htext hjoins,
    fun _ => renderResults_cons _ htext hjoins⟩

/-- The last parameter of a variadic function. -/
theorem written_spread {e : TypeId} (hfound : p.type t = .ok (.slice e))
    (helem : p.Written n elem e) : p.Written n (.spread o.label elem) ([obj], true) := by
  obtain ⟨x, hx, htext⟩ := helem
  refine ⟨[.mk o.label true x], ?_, ⟨rfl, ?_⟩, fun h => by cases h⟩
  · exact bind_eq_ok_iff.mpr ⟨_, memberOf_spread_eq_ok ho ht hfound hx, rfl⟩
  · rw [renderMembers, renderMembers, join, renderMember_eq, htext]
    simp [TypeSyntax.bareText, TypeSyntax.textWith]

end Typed

end Forms

/-! ## The text of a type -/

/-- What the pieces of a type are written as, by induction on how the type is written; each type on
the way uses up one step of depth. -/
theorem written_of_denotes {k : Piece} {n : Nat} {a : TypeSyntax k} {ids : k.Ids}
    (h : p.Denotes a ids) (hwithin : p.Within n ids) : p.Written n a ids := by
  induction a generalizing n with
  | named path name => exact written_of_parts hwithin fun _ _ => written_named h
  | pointer elem ih =>
    obtain ⟨e, hfound, helem⟩ := h
    refine written_of_parts hwithin fun m hparts => written_pointer hfound (ih helem ?_)
    exact hparts e (.elem hfound List.mem_cons_self)
  | slice elem ih =>
    obtain ⟨e, hfound, helem⟩ := h
    refine written_of_parts hwithin fun m hparts => written_slice hfound (ih helem ?_)
    exact hparts e (.elem hfound List.mem_cons_self)
  | array len elem ih =>
    obtain ⟨e, hfound, helem⟩ := h
    refine written_of_parts hwithin fun m hparts => written_array hfound (ih helem ?_)
    exact hparts e (.elem hfound List.mem_cons_self)
  | map key value ihkey ihvalue =>
    obtain ⟨k, v, hfound, hkey, hvalue⟩ := h
    refine written_of_parts hwithin fun m hparts =>
      written_map hfound (ihkey hkey ?_) (ihvalue hvalue ?_)
    · exact hparts k (.elem hfound (by simp [GoType.elems]))
    · exact hparts v (.elem hfound (by simp [GoType.elems]))
  | chan dir elem ih =>
    obtain ⟨e, hfound, helem⟩ := h
    refine written_of_parts hwithin fun m hparts => written_chan hfound (ih helem ?_)
    exact hparts e (.elem hfound List.mem_cons_self)
  | struct fields ih =>
    obtain ⟨fs, hfound, hfields⟩ := h
    refine written_of_parts hwithin fun m hparts => written_struct hfound (ih hfields ?_)
    exact fun obj hobj o t ho ht => hparts t (.member hfound hobj ho ht)
  | interface elements ih =>
    obtain ⟨methods, embedded, hfound, helements⟩ := h
    refine written_of_parts hwithin fun m hparts => written_interface hfound (ih helements ?_)
    exact ⟨fun obj hobj o t ho ht => hparts t (.member hfound hobj ho ht),
      fun t ht => hparts t (.elem hfound ht)⟩
  | func params results ihparams ihresults =>
    obtain ⟨recv, ps, rs, variadic, hfound, hparams, hresults⟩ := h
    refine written_of_parts hwithin fun m hparts => ?_
    obtain ⟨hps, hrs⟩ := within_signature hfound hparts
    exact written_func hfound (ihparams hparams hps) (ihresults hresults hrs)
  | noFields =>
    obtain rfl := h
    exact ⟨[], rfl, rfl, rfl⟩
  | field name type rest ihtype ihrest =>
    obtain ⟨obj, o, t, more, rfl, ho, hkind, rfl, ht, htype, hrest⟩ := h
    obtain ⟨hfirst, hmore⟩ := List.forall_mem_cons.mp hwithin
    exact written_field ho ht hkind (ihtype htype (hfirst o t ho ht)) (ihrest hrest hmore)
  | embedding type rest ihtype ihrest =>
    obtain ⟨obj, o, t, more, rfl, ho, hkind, ht, htype, hrest⟩ := h
    obtain ⟨hfirst, hmore⟩ := List.forall_mem_cons.mp hwithin
    exact written_embedding ho ht hkind (ihtype htype (hfirst o t ho ht)) (ihrest hrest hmore)
  | noElements =>
    obtain rfl := h
    exact ⟨[], [], rfl, rfl, rfl, rfl⟩
  | method name params results rest ihparams ihresults ihrest =>
    obtain ⟨obj, o, t, recv, ps, rs, variadic, more, embedded, rfl, ho, rfl, ht, hfound, hparams,
      hresults, hrest⟩ := h
    obtain ⟨hmethods, hembedded⟩ := hwithin
    obtain ⟨hfirst, hmore⟩ := List.forall_mem_cons.mp hmethods
    obtain ⟨hps, hrs⟩ := within_signature hfound (hfirst o t ho ht).of_hasPart
    exact written_method ho ht hfound (ihparams hparams hps) (ihresults hresults hrs)
      (ihrest hrest ⟨hmore, hembedded⟩)
  | element type rest ihtype ihrest =>
    obtain ⟨t, more, rfl, htype, hrest⟩ := h
    obtain ⟨hmethods, hembedded⟩ := hwithin
    obtain ⟨hfirst, hmore⟩ := List.forall_mem_cons.mp hembedded
    exact written_element (ihtype htype hfirst) (ihrest hrest ⟨hmethods, hmore⟩)
  | noParams =>
    obtain rfl := h
    exact ⟨[], rfl, ⟨rfl, rfl⟩, fun _ => rfl⟩
  | param name type rest ihtype ihrest =>
    obtain ⟨obj, o, t, more, variadic, rfl, hlast, ho, rfl, ht, htype, hrest⟩ := h
    obtain ⟨hfirst, hmore⟩ := List.forall_mem_cons.mp hwithin
    exact written_param ho ht hlast (ihtype htype (hfirst o t ho ht)) (ihrest hrest hmore)
  | spread name elem ih =>
    obtain ⟨obj, o, t, e, rfl, ho, rfl, ht, hfound, helem⟩ := h
    have hslice : p.Shallow n t := hwithin obj List.mem_cons_self o t ho ht
    refine written_spread ho ht hfound (ih helem ?_)
    exact hslice.of_hasPart e (.elem hfound List.mem_cons_self)

/-- The text of a type that can be written is its string without any parentheses around elements of
channels. -/
theorem Spellable.typeText_eq (h : p.Spellable id) {a : TypeSyntax .type} (ha : p.Denotes a id) :
    p.typeText id = .ok a.bareString := by
  obtain ⟨e, he, htext⟩ := written_of_denotes (k := .type) (n := p.types.size + 1) ha h.shallow
  rw [typeText, typeExpr, he, TypeSyntax.bareString, ← htext]
  rfl

end Program

end SymbolGraph
