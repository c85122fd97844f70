import Mathlib.Data.List.Forall2
import SymbolGraph.Proofs.Run.Declarations

/-!
# The ledger of a run

What has been found in a run agrees with what has been declared (`Ledger`): the error on record is
that of the first declaration that is refused, and as long as there is none, the claims are those
of the declarations, and the definitions are those of the declarations whose keys were free.

The invariant is carried over one declaration (`Ledger.declare`), over the names of a node and
over the visits of a walk (`Ledger.visitAll`). After an error the names of the same node are still
gone through, but the error stays, and nothing is said of the definitions any more.
-/

namespace SymbolGraph

open Emit KeyStore

/-- A definition is the one that a declaration adds: it has the key that is known of the object
in the end, and stands where the name stands. -/
structure Program.Defines (p : Program) (k : CheckedPackage) (last : KeyStore) (d : Declaration)
    (x : Def) : Prop where
  key : last.keyOf? k.pkg d.obj = some x.key
  object : ∃ o, p.object d.obj = .ok o ∧ x.name = o.name
  place : ∃ n, p.tree.node d.name = .ok n ∧ x.file = p.sources.name n.file ∧
    x.identSpan = n.range.span
  kind : x.kind ≠ .package

section Ledger

variable {α : Type} {c : GraphContext} {base last : KeyStore} {s t : Emission}
  {done : List Declaration}

/-- The definitions after some declarations: that of the package, then those of some of the
declarations, no two with the same key as text, and one for every declared object with a key. -/
structure GraphContext.Defined (c : GraphContext) (last : KeyStore) (done : List Declaration)
    (defs : List Def) : Prop where
  made : ∃ first rest made, defs = first :: rest ∧ first.kind = .package ∧
    first.key = .ofPackage c.unit ∧ List.Sublist made done ∧
    List.Forall₂ (c.program.Defines c.package last) made rest
  texts : (defs.map fun x => x.key.text).Nodup
  complete : ∀ d ∈ done, ∀ key, last.keyOf? c.package.pkg d.obj = some key →
    ∃ x ∈ defs, x.key = key

/-- The key of a declared object has been looked up: it is known in the end, or the object has
none. -/
def GraphContext.Looked (c : GraphContext) (last : KeyStore) (d : Declaration) : Prop :=
  (last.keyOf? c.package.pkg d.obj).isSome ∨ ∃ selected, c.objectKey? selected d.obj = .ok none

/-- What has been found agrees with what has been declared: the error is that of the first
refusal, up to which keys have been looked up, and without one the claims and the definitions are
those of the declarations. -/
structure Ledger (c : GraphContext) (last : KeyStore) (s : Emission) (done : List Declaration) :
    Prop where
  error : s.error = c.program.firstRefusal? c.unit (last.keyOf? c.package.pkg) [] done
  looked : ∀ {before d after}, done = before ++ d :: after →
    c.program.firstRefusal? c.unit (last.keyOf? c.package.pkg) [] before = none →
    c.program.undeclarable? d.obj = none → c.Looked last d
  claims : s.error = none → ∀ text, s.claims.get? text =
    Program.claimant? c.unit (last.keyOf? c.package.pkg) done text
  defs : s.error = none → c.Defined last done s.graph.defs

/-- Every definition's key is claimed. -/
theorem GraphContext.Defined.claimed {defs : List Def} (h : c.Defined last done defs) {x : Def}
    (hx : x ∈ defs) :
    Program.claimant? c.unit (last.keyOf? c.package.pkg) done x.key.text ≠ none := by
  obtain ⟨first, rest, made, rfl, -, hkey, hsub, hmade⟩ := h.made
  rcases List.mem_cons.mp hx with rfl | hx
  · rw [hkey, Program.claimant?, if_pos rfl]
    exact fun h => by cases h
  · obtain ⟨i, hi, rfl⟩ := List.mem_iff_getElem.mp hx
    have hlength := hmade.length_eq
    have hdefines := hmade.get (i := i) (by omega) hi
    exact Program.claimant?_ne_none (hsub.mem (List.getElem_mem (by omega))) hdefines.key

/-- A definition with a free key joins the others. -/
theorem GraphContext.Defined.concat {defs : List Def} {d : Declaration} {x : Def}
    (h : c.Defined last done defs) (hx : c.program.Defines c.package last d x)
    (hfree : Program.claimant? c.unit (last.keyOf? c.package.pkg) done x.key.text = none) :
    c.Defined last (done ++ [d]) (defs ++ [x]) where
  made := by
    obtain ⟨first, rest, made, rfl, hkind, hkey, hsub, hmade⟩ := h.made
    exact ⟨first, rest ++ [x], made ++ [d], rfl, hkind, hkey, hsub.append (.refl _),
      List.rel_append hmade (.cons hx .nil)⟩
  texts := by
    rw [List.map_append, List.nodup_append]
    refine ⟨h.texts, List.pairwise_singleton _ _, fun text htext other hother heq => ?_⟩
    obtain ⟨y, hy, rfl⟩ := List.mem_map.mp htext
    obtain rfl := List.mem_singleton.mp hother
    exact h.claimed hy (by rw [heq]; exact hfree)
  complete d' hd' key hkey := by
    rcases List.mem_append.mp hd' with hd' | hd'
    · obtain ⟨y, hy, rfl⟩ := h.complete d' hd' key hkey
      exact ⟨y, List.mem_append_left _ hy, rfl⟩
    · obtain rfl := List.mem_singleton.mp hd'
      rw [hx.key] at hkey
      exact ⟨x, List.mem_append_right _ List.mem_cons_self, Option.some.inj hkey⟩

/-- A declared object whose key is defined already, or that has none, needs no definition. -/
theorem GraphContext.Defined.skip {defs : List Def} {d : Declaration}
    (h : c.Defined last done defs)
    (hd : ∀ key, last.keyOf? c.package.pkg d.obj = some key → ∃ x ∈ defs, x.key = key) :
    c.Defined last (done ++ [d]) defs where
  made := by
    obtain ⟨first, rest, made, hdefs, hkind, hkey, hsub, hmade⟩ := h.made
    exact ⟨first, rest, made, hdefs, hkind, hkey, hsub.trans (List.sublist_append_left _ _), hmade⟩
  texts := h.texts
  complete d' hd' := by
    rcases List.mem_append.mp hd' with hd' | hd'
    · exact h.complete d' hd'
    · obtain rfl := List.mem_singleton.mp hd'
      exact hd

/-! ### Steps -/

/-- A declaration keeps the error that is on record. -/
theorem MadeOf.keeps_error {allowed : Change → Prop} {m : Emit α} (h : MadeOf c allowed m)
    {a : α} (hm : m s = .ok a t) {e : GraphError} (he : s.error = some e) : t.error = some e := by
  have hkeeps := h.relates (R := fun s t => s.error = some e → t.error = some e)
    (fun _ h => h) (fun hst htu h => htu (hst h))
    (fun s obj hs => by
      obtain ⟨keys, hend⟩ := c.endState_keyOf obj s
      rw [hend]
      exact hs)
    (fun change _ s hs => by
      cases change with
      | error e' =>
        show s.error.or (some e') = some e
        rw [hs]
        rfl
      | _ => exact hs) s he
  rw [endState_of_ok hm] at hkeeps
  exact hkeeps

/-- What is declared later is looked up if everything was, up to a refusal. -/
theorem Ledger.looked_append {later : List Declaration} (h : Ledger c last s done)
    (hlater : ∀ {before d after}, later = before ++ d :: after →
      c.program.firstRefusal? c.unit (last.keyOf? c.package.pkg) [] (done ++ before) = none →
      c.program.undeclarable? d.obj = none → c.Looked last d)
    {before after : List Declaration} {d : Declaration}
    (hdone : done ++ later = before ++ d :: after)
    (hbefore : c.program.firstRefusal? c.unit (last.keyOf? c.package.pkg) [] before = none)
    (hd : c.program.undeclarable? d.obj = none) : c.Looked last d := by
  rcases List.append_eq_append_iff.mp hdone with ⟨mid, rfl, hrest⟩ | ⟨mid, hmid, hrest⟩
  · exact hlater hrest hbefore hd
  · cases mid with
    | nil =>
      rw [List.append_nil] at hmid
      refine @hlater [] d after hrest.symm ?_ hd
      rw [List.append_nil, hmid]
      exact hbefore
    | cons d' mid =>
      obtain ⟨rfl, -⟩ := List.cons.inj hrest
      exact h.looked hmid hbefore hd

/-- Only one declaration more is to be looked up. -/
theorem Ledger.looked_concat {d : Declaration} (h : Ledger c last s done)
    (hlooked : c.program.undeclarable? d.obj = none → c.Looked last d)
    {before after : List Declaration} {x : Declaration}
    (hdone : done ++ [d] = before ++ x :: after)
    (hbefore : c.program.firstRefusal? c.unit (last.keyOf? c.package.pkg) [] before = none)
    (hx : c.program.undeclarable? x.obj = none) : c.Looked last x := by
  refine h.looked_append (fun {front _ _} hsingle _ hx => ?_) hdone hbefore hx
  cases front with
  | nil =>
    obtain ⟨rfl, -⟩ := List.cons.inj hsingle
    exact hlooked hx
  | cons first rest => simp at hsingle

/-- Once there is an error it stays the first, whatever is declared later. -/
theorem Ledger.of_error {e : GraphError} (h : Ledger c last s done) (hs : s.error = some e)
    (ht : t.error = some e) (later : List Declaration) : Ledger c last t (done ++ later) where
  error := by
    rw [Program.firstRefusal?_append, ← h.error, hs, ht]
    rfl
  looked := h.looked_append fun _ hnone _ => by
    rw [Program.firstRefusal?_append, ← h.error, hs] at hnone
    cases hnone
  claims hnone := by
    rw [ht] at hnone
    cases hnone
  defs hnone := by
    rw [ht] at hnone
    cases hnone

/-- A declaration that is refused puts its error on record. -/
theorem Ledger.refuse {d : Declaration} {e : GraphError} (h : Ledger c last s done)
    (hs : s.error = none)
    (hd : c.program.refusal? c.unit (last.keyOf? c.package.pkg) done d = some e)
    (hlooked : c.program.undeclarable? d.obj = none → c.Looked last d)
    (ht : t.error = some e) : Ledger c last t (done ++ [d]) where
  error := by
    rw [Program.firstRefusal?_append, ← h.error, hs, ht, List.nil_append, Program.firstRefusal?,
      hd]
    rfl
  looked := h.looked_concat hlooked
  claims hnone := by
    rw [ht] at hnone
    cases hnone
  defs hnone := by
    rw [ht] at hnone
    cases hnone

/-- A declaration that is not refused leaves the ledger without error; the claims it leaves are to
be those of before and its own. -/
theorem Ledger.accept {d : Declaration} (h : Ledger c last s done) (hs : s.error = none)
    (hd : c.program.refusal? c.unit (last.keyOf? c.package.pkg) done d = none)
    (hlooked : c.Looked last d) (ht : t.error = none)
    (hclaims : ∀ text, t.claims.get? text = (s.claims.get? text).or
      (if (last.keyOf? c.package.pkg d.obj).map DefKey.text = some text then some (some d.obj)
        else none))
    (hdefs : c.Defined last (done ++ [d]) t.graph.defs) : Ledger c last t (done ++ [d]) where
  error := by
    rw [Program.firstRefusal?_append, ← h.error, hs, ht, List.nil_append, Program.firstRefusal?,
      hd]
    rfl
  looked := h.looked_concat fun _ => hlooked
  claims _ text := by rw [hclaims, h.claims hs, Program.claimant?_concat]
  defs _ := hdefs

/-- Looking up keys and adding references does not touch the ledger. -/
theorem Ledger.congr (h : Ledger c last s done) (herror : t.error = s.error)
    (hclaims : t.claims = s.claims) (hdefs : t.graph.defs = s.graph.defs) :
    Ledger c last t done where
  error := by rw [herror, h.error]
  looked := h.looked
  claims hnone := by
    rw [hclaims]
    exact h.claims (herror ▸ hnone)
  defs hnone := by
    rw [hdefs]
    exact h.defs (herror ▸ hnone)

/-! ### One declaration -/

/-- The definition that is made for a declaration. -/
theorem GraphContext.defines_of_definition {structName : Option String} {decl name : NodeId}
    {obj : ObjectId} {o : Object} {kind : DefKind} {k : KeyedObject} {x : Def}
    (h : c.definition structName decl name obj o kind k = .ok x)
    (ho : c.program.object obj = .ok o) (hkind : kind ≠ .package)
    (hk : last.find? c.package.pkg obj = some k) :
    c.program.Defines c.package last ⟨decl, name, obj⟩ x ∧ x.key = k.key := by
  unfold GraphContext.definition at h
  obtain ⟨receiver, -, h⟩ := bind_eq_ok_iff.mp h
  obtain ⟨texts, -, h⟩ := bind_eq_ok_iff.mp h
  obtain ⟨n, hn, h⟩ := bind_eq_ok_iff.mp h
  obtain ⟨declNode, -, h⟩ := bind_eq_ok_iff.mp h
  cases h
  refine ⟨⟨?_, ⟨o, ho, rfl⟩, ⟨n, hn, rfl, rfl⟩, hkind⟩, rfl⟩
  unfold KeyStore.keyOf?
  rw [hk]
  rfl

/-- What adding the definition of an object comes to when its key `k` is looked up: nothing, if
the object has the key already; an error, if something else has it; and else a claim and a
definition. -/
inductive GraphContext.Adds (c : GraphContext) (structName : Option String) (decl name : NodeId)
    (obj : ObjectId) (o : Object) (kind : DefKind) (k : KeyedObject) (s : Emission) :
    Emission → Prop
  | again : s.claims.get? k.key.text = some (some obj) →
      Adds c structName decl name obj o kind k s s
  | taken {first : Option ObjectId} : s.claims.get? k.key.text = some first → first ≠ some obj →
      Adds c structName decl name obj o kind k s
        ((Change.error (.duplicateKey k.key.text first obj)).apply s)
  | new {x : Def} : s.claims.get? k.key.text = none →
      c.definition structName decl name obj o kind k = .ok x →
      Adds c structName decl name obj o kind k s
        ((Change.definition x).apply ((Change.claim k.key.text (some obj)).apply s))

/-- Emitting a definition finds no key and does nothing, or it adds what there is to add for the
key. -/
theorem GraphContext.emitDef_cases {structName : Option String} {decl name : NodeId}
    {obj : ObjectId} {o : Object} {kind : DefKind}
    (h : c.emitDef structName decl name obj o kind s = .ok () t) :
    c.keyOf obj s = .ok none t ∨ ∃ k s₁, c.keyOf obj s = .ok (some k) s₁ ∧
      c.Adds structName decl name obj o kind k s₁ t := by
  unfold GraphContext.emitDef at h
  obtain ⟨k?, s₁, hkey, h⟩ := Emit.bind_eq_ok_iff.mp h
  cases k? with
  | none =>
    obtain ⟨-, rfl⟩ := pure_eq_ok_iff.mp h
    exact .inl hkey
  | some k =>
    refine .inr ⟨k, s₁, hkey, ?_⟩
    dsimp only at h
    rw [get_bind_apply] at h
    cases hclaim : s₁.claims.get? k.key.text with
    | none =>
      rw [hclaim] at h
      obtain ⟨_, s₂, hadd, h⟩ := Emit.bind_eq_ok_iff.mp h
      cases hadd
      obtain ⟨x, s₃, hask, h⟩ := Emit.bind_eq_ok_iff.mp h
      obtain ⟨hx, rfl⟩ := ask_eq_ok_iff.mp hask
      cases h
      exact .new hclaim hx
    | some first? =>
      rw [hclaim] at h
      cases first? with
      | none =>
        cases h
        exact .taken hclaim fun h => by cases h
      | some first =>
        dsimp only at h
        split at h
        · rename_i hsame
          obtain ⟨-, rfl⟩ := pure_eq_ok_iff.mp h
          exact .again (hsame ▸ hclaim)
        · rename_i hother
          cases h
          exact .taken hclaim fun h => hother (Option.some.inj h)

/-- Adding a definition leaves the keys as they are. -/
theorem GraphContext.Adds.keys {structName : Option String} {decl name : NodeId}
    {obj : ObjectId} {o : Object} {kind : DefKind} {k : KeyedObject}
    (h : c.Adds structName decl name obj o kind k s t) : t.keys = s.keys := by
  cases h <;> rfl

/-- Adding what there is to add for a declared object with a key keeps the ledger. -/
theorem Ledger.adds {structName : Option String} {decl name : NodeId} {obj : ObjectId}
    {o : Object} {kind : DefKind} {k : KeyedObject} (hs : Ledger c last s done)
    (hadds : c.Adds structName decl name obj o kind k s t) (herror : s.error = none)
    (ho : c.program.object obj = .ok o) (hdeclarable : c.program.undeclarable? obj = none)
    (hkind : kind ≠ .package) (hk : last.find? c.package.pkg obj = some k) :
    Ledger c last t (done ++ [⟨decl, name, obj⟩]) := by
  have hsome : last.keyOf? c.package.pkg obj = some k.key := by
    unfold KeyStore.keyOf?
    rw [hk]
    rfl
  have hlooked : c.Looked last ⟨decl, name, obj⟩ := .inl (by rw [hsome]; rfl)
  have hclaims := hs.claims herror k.key.text
  cases hadds with
  | again hclaim =>
    rw [hclaim] at hclaims
    obtain ⟨d, hd, rfl⟩ := Program.exists_mem_of_claimant? hclaims.symm
    refine hs.accept herror ?_ hlooked herror (fun text => ?_)
      ((hs.defs herror).skip ((hs.defs herror).complete d hd))
    · simp only [Program.refusal?, hdeclarable, hsome, ← hclaims, if_true]
    · rw [hsome, Option.map_some]
      split
      · rename_i heq
        rw [← Option.some.inj heq, hclaim]
        rfl
      · exact (Option.or_none).symm
  | @taken first hclaim hother =>
    rw [hclaim] at hclaims
    refine hs.refuse (e := .duplicateKey k.key.text first obj) herror ?_ (fun _ => hlooked) ?_
    · simp only [Program.refusal?, hdeclarable, hsome, ← hclaims, if_neg hother]
    · show s.error.or _ = _
      rw [herror]
      rfl
  | @new x hclaim hx =>
    rw [hclaim] at hclaims
    obtain ⟨hdefines, hxkey⟩ := GraphContext.defines_of_definition hx ho hkind hk
    refine hs.accept herror ?_ hlooked herror (fun text => ?_)
      ((hs.defs herror).concat hdefines ?_)
    · simp only [Program.refusal?, hdeclarable, hsome, ← hclaims]
    · show (s.claims.insert k.key.text (some obj)).get? text = _
      rw [hsome, Option.map_some, Table.get?_insert]
      split
      · rename_i heq
        rw [← heq, hclaim, if_pos rfl]
        rfl
      · rename_i hne
        rw [if_neg fun heq => hne (Option.some.inj heq)]
        exact (Option.or_none).symm
    · rw [hxkey]
      exact hclaims.symm

/-- Adding the definition of a declared object keeps the ledger. -/
theorem Ledger.emitDef {structName : Option String} {decl name : NodeId} {obj : ObjectId}
    {o : Object} {kind : DefKind} (h : c.emitDef structName decl name obj o kind s = .ok () t)
    (hs : Ledger c last s done) (herror : s.error = none) (ho : c.program.object obj = .ok o)
    (hdeclarable : c.program.undeclarable? obj = none) (hkind : kind ≠ .package)
    (hbase : PartOf c.package.pkg base s.keys) (hlast : PartOf c.package.pkg t.keys last)
    (hfound : c.Found base last) : Ledger c last t (done ++ [⟨decl, name, obj⟩]) := by
  rcases GraphContext.emitDef_cases h with hkey | ⟨k, s₁, hkey, hadds⟩
  · obtain ⟨hk, hstate, hkeyless⟩ := GraphContext.keyOf_eq_ok hkey hbase hlast hfound
    have hnone : last.keyOf? c.package.pkg obj = none := by
      unfold KeyStore.keyOf?
      rw [hk]
      rfl
    rw [hstate]
    refine hs.accept herror ?_ (.inr ⟨_, hkeyless rfl⟩) herror (fun text => ?_)
      ((hs.defs herror).skip fun key hkey => ?_)
    · simp only [Program.refusal?, hdeclarable, hnone]
    · rw [hnone]
      exact (Option.or_none).symm
    · rw [hnone] at hkey
      cases hkey
  · rw [hadds.keys] at hlast
    obtain ⟨hk, hstate, -⟩ := GraphContext.keyOf_eq_ok hkey hbase hlast hfound
    have hs₁ : Ledger c last s₁ done := by
      rw [hstate]
      exact hs.congr rfl rfl rfl
    have herror₁ : s₁.error = none := by
      rw [hstate]
      exact herror
    exact hs₁.adds hadds herror₁ ho hdeclarable hkind hk

/-- What the kind of a declared object says about its declaration. -/
theorem GraphContext.defKind?_eq_ok {p : Program} {obj : ObjectId} {o : Object}
    {kind? : Except GraphError (Option DefKind)} (ho : p.object obj = .ok o)
    (h : defKind? p obj o = .ok kind?) :
    (∃ e, kind? = .error e ∧ p.undeclarable? obj = some e ∧ p.isPackageName obj = false) ∨
      (kind? = .ok none ∧ p.isPackageName obj = true) ∨
      ∃ kind, kind? = .ok (some kind) ∧ p.undeclarable? obj = none ∧
        p.isPackageName obj = false ∧ kind ≠ .package := by
  have hpackage : p.isPackageName obj = o.kind.isPackage := by
    unfold Program.isPackageName
    rw [ho]
  have hdeclarable : p.undeclarable? obj = o.undeclarable? := by
    unfold Program.undeclarable?
    rw [ho]
  unfold Object.undeclarable? at hdeclarable
  unfold defKind? at h
  cases hkind : o.kind with
  | func scope =>
    rw [hkind] at h hpackage hdeclarable
    obtain ⟨recv?, -, h⟩ := bind_eq_ok_iff.mp h
    refine .inr (.inr ?_)
    cases recv? with
    | some recv =>
      cases h
      exact ⟨_, rfl, hdeclarable, hpackage, nofun⟩
    | none =>
      cases h
      exact ⟨_, rfl, hdeclarable, hpackage, nofun⟩
  | package imported =>
    rw [hkind] at h hpackage
    cases h
    exact .inr (.inl ⟨rfl, hpackage⟩)
  | builtin =>
    rw [hkind] at h hpackage hdeclarable
    cases h
    exact .inl ⟨_, rfl, hdeclarable, hpackage⟩
  | nil =>
    rw [hkind] at h hpackage hdeclarable
    cases h
    exact .inl ⟨_, rfl, hdeclarable, hpackage⟩
  | _ =>
    rw [hkind] at h hpackage hdeclarable
    cases h
    exact .inr (.inr ⟨_, rfl, hdeclarable, hpackage, nofun⟩)

/-- What a name is found to declare, names of packages included. -/
theorem GraphContext.declaredObject?_of_declared? {name : NodeId} {obj? : Option ObjectId}
    (h : c.declared? name = .ok obj?) :
    c.program.declaredObject? c.package name =
      obj?.filter fun obj => !c.program.isPackageName obj := by
  unfold GraphContext.declared? at h
  unfold Program.declaredObject?
  obtain ⟨name?, hname, h⟩ := bind_eq_ok_iff.mp h
  rw [hname]
  cases name? with
  | none =>
    cases h
    rfl
  | some n =>
    by_cases hblank : n = "_"
    · subst hblank
      cases h
      rfl
    · have hrest : (c.package.facts.defs.get? name : Option ObjectId) = obj? := by
        split at h
        · rename_i heq
          exact absurd (Option.some.inj heq) hblank
        · exact Except.ok.inj h
        · rename_i heq
          cases heq
      dsimp only
      rw [if_neg hblank, hrest]

/-- One name of a declaring node keeps the ledger, whether or not it is refused. -/
theorem Ledger.declare {structName : Option String} {decl name : NodeId}
    (h : c.declare structName decl name s = .ok () t) (hs : Ledger c last s done)
    (hbase : PartOf c.package.pkg base s.keys) (hlast : PartOf c.package.pkg t.keys last)
    (hfound : c.Found base last) :
    Ledger c last t (done ++ (c.program.declaration? c.package decl name).toList) := by
  cases herror : s.error with
  | some e => exact hs.of_error herror ((c.madeOf_declare _ _ _).keeps_error h herror) _
  | none =>
    unfold GraphContext.declare at h
    obtain ⟨obj?, s₁, hask, h⟩ := Emit.bind_eq_ok_iff.mp h
    obtain ⟨hobj, rfl⟩ := ask_eq_ok_iff.mp hask
    have hdeclared := GraphContext.declaredObject?_of_declared? hobj
    cases obj? with
    | none =>
      obtain ⟨-, rfl⟩ := pure_eq_ok_iff.mp h
      simp only [Program.declaration?, hdeclared, Option.filter_none, Option.map_none,
        Option.toList_none, List.append_nil]
      exact hs
    | some obj =>
      obtain ⟨o, s₁, hask, h⟩ := Emit.bind_eq_ok_iff.mp h
      obtain ⟨ho, rfl⟩ := ask_eq_ok_iff.mp hask
      obtain ⟨kind?, s₁, hask, h⟩ := Emit.bind_eq_ok_iff.mp h
      obtain ⟨hkind, rfl⟩ := ask_eq_ok_iff.mp hask
      rcases GraphContext.defKind?_eq_ok ho hkind with ⟨e, rfl, hundeclarable, hpackage⟩ |
        ⟨rfl, hpackage⟩ | ⟨kind, rfl, hdeclarable, hpackage, hne⟩
      · cases h
        simp only [Program.declaration?, hdeclared, Option.filter_some, hpackage, Bool.not_false,
          if_true, Option.map_some, Option.toList_some]
        refine hs.refuse (e := e) herror ?_ (fun hnone => ?_) ?_
        · simp only [Program.refusal?, hundeclarable]
        · rw [hundeclarable] at hnone
          cases hnone
        · show s.error.or _ = _
          rw [herror]
          rfl
      · obtain ⟨-, rfl⟩ := pure_eq_ok_iff.mp h
        simp only [Program.declaration?, hdeclared, Option.filter_some, hpackage, Bool.not_true,
          Bool.false_eq_true, if_false, Option.map_none, Option.toList_none, List.append_nil]
        exact hs
      · simp only [Program.declaration?, hdeclared, Option.filter_some, hpackage, Bool.not_false,
          if_true, Option.map_some, Option.toList_some]
        exact hs.emitDef h herror ho hdeclarable hne hbase hlast hfound

/-! ### All declarations -/

/-- All names of a declaring node keep the ledger. -/
theorem Ledger.each {structName : Option String} {decl : NodeId} {names : List NodeId}
    (h : each (c.declare structName decl) names s = .ok () t) (hs : Ledger c last s done)
    (hbase : PartOf c.package.pkg base s.keys) (hlast : PartOf c.package.pkg t.keys last)
    (hfound : c.Found base last) :
    Ledger c last t (done ++ names.filterMap (c.program.declaration? c.package decl)) := by
  induction names generalizing s done with
  | nil =>
    obtain ⟨-, rfl⟩ := pure_eq_ok_iff.mp h
    rw [List.filterMap_nil, List.append_nil]
    exact hs
  | cons name rest ih =>
    obtain ⟨_, s₁, hfirst, h⟩ := Emit.bind_eq_ok_iff.mp h
    have hrest : MadeOf c Change.ByDeclaration (Emit.each (c.declare structName decl) rest) :=
      .each (c.madeOf_declare _ _) rest
    have hs₁ := hs.declare hfirst hbase ((hrest.grows_ok h).trans hlast) hfound
    have ht := ih h hs₁ (hbase.trans ((c.madeOf_declare _ _ _).grows_ok hfirst))
    rw [List.append_assoc] at ht
    rw [List.filterMap_cons]
    cases hd : c.program.declaration? c.package decl name with
    | none =>
      rw [hd] at ht
      exact ht
    | some d =>
      rw [hd] at ht
      exact ht

/-- A visit keeps the ledger: what its node declares is added, and its uses add nothing. -/
theorem Ledger.visit {v : Visit} (h : c.visit v s = .ok () t) (hs : Ledger c last s done)
    (hbase : PartOf c.package.pkg base s.keys) (hlast : PartOf c.package.pkg t.keys last)
    (hfound : c.Found base last) :
    Ledger c last t (done ++
      (c.program.presented v.node).filterMap (c.program.declaration? c.package v.node)) := by
  obtain ⟨n, names, s₁, hn, hnames, hdeclare, huses⟩ := GraphContext.visit_cases h
  have hmade := c.madeOf_visitUses v.node n.kind
  have hs₁ := hs.each hdeclare hbase ((hmade.grows_ok huses).trans hlast) hfound
  have hkeeps := hmade.keeps (fun s => (s.error, s.claims, s.graph.defs)) (fun _ _ => rfl)
    (fun change hchange s => by
      cases change with
      | reference | selection | importSpan => rfl
      | error | claim | definition | text => cases hchange) s₁
  rw [endState_of_ok huses] at hkeeps
  obtain ⟨herror, hrest⟩ := Prod.mk.inj hkeeps
  obtain ⟨hclaims, hdefs⟩ := Prod.mk.inj hrest
  rw [Program.presented_eq (SyntaxTree.kind_of_node hn) hnames]
  exact hs₁.congr herror hclaims hdefs

/-- Visits keep the ledger, also when an error ends them early. -/
theorem Ledger.visitAll {visits : List Visit} (h : c.visitAll visits s = .ok () t)
    (hs : Ledger c last s done) (hbase : PartOf c.package.pkg base s.keys)
    (hlast : PartOf c.package.pkg t.keys last) (hfound : c.Found base last) :
    Ledger c last t (done ++ c.program.declarations c.package (visits.map Visit.node)) := by
  induction visits generalizing s done with
  | nil =>
    obtain ⟨-, rfl⟩ := pure_eq_ok_iff.mp h
    rw [List.map_nil, Program.declarations, List.flatMap_nil, List.append_nil]
    exact hs
  | cons v rest ih =>
    obtain ⟨_, s₁, hvisit, h⟩ := Emit.bind_eq_ok_iff.mp h
    rw [get_bind_apply] at h
    rw [List.map_cons, Program.declarations, List.flatMap_cons, ← List.append_assoc]
    cases hmid : s₁.error with
    | some e =>
      rw [hmid] at h
      obtain ⟨-, rfl⟩ := pure_eq_ok_iff.mp h
      exact (hs.visit hvisit hbase hlast hfound).of_error hmid hmid _
    | none =>
      rw [hmid] at h
      have hs₁ := hs.visit hvisit hbase (((c.madeOf_visitAll rest).grows_ok h).trans hlast) hfound
      exact ih h hs₁ (hbase.trans ((c.madeOf_visit v).grows_ok hvisit))

/-- What the first step adds: the package's claim and its definition. -/
theorem GraphContext.emitPackage_eq_ok {s : Emission} (h : c.emitPackage s = .ok () t) :
    ∃ x : Def, x.kind = .package ∧ x.key = .ofPackage c.unit ∧
      t = (Change.definition x).apply
        ((Change.claim (DefKey.ofPackage c.unit).text none).apply s) := by
  unfold GraphContext.emitPackage at h
  obtain ⟨package, s₁, hask, h⟩ := Emit.bind_eq_ok_iff.mp h
  obtain ⟨-, rfl⟩ := ask_eq_ok_iff.mp hask
  obtain ⟨_, s₁, hclaim, h⟩ := Emit.bind_eq_ok_iff.mp h
  cases hclaim
  dsimp only at h
  cases hfiles : c.package.files with
  | nil =>
    rw [hfiles] at h
    cases h
    exact ⟨_, rfl, rfl, rfl⟩
  | cons first rest =>
    rw [hfiles] at h
    obtain ⟨dir, s₂, hdir, h⟩ := Emit.bind_eq_ok_iff.mp h
    rw [map_eq_pure_bind] at hdir
    obtain ⟨file, s₃, hask, hdir⟩ := Emit.bind_eq_ok_iff.mp hdir
    obtain ⟨-, rfl⟩ := ask_eq_ok_iff.mp hask
    obtain ⟨-, rfl⟩ := pure_eq_ok_iff.mp hdir
    cases h
    exact ⟨_, rfl, rfl, rfl⟩

/-- When the package is defined, nothing else has been declared. -/
theorem Ledger.emitPackage {keys : KeyStore} (h : c.emitPackage (.start keys) = .ok () t) :
    Ledger c last t [] := by
  obtain ⟨x, hkind, hkey, rfl⟩ := GraphContext.emitPackage_eq_ok h
  exact {
    error := rfl
    looked := fun hnil => absurd hnil (by simp)
    claims := fun _ text => by
      show (Table.insert _ _ _).get? text = _
      unfold Program.claimant?
      rw [Table.get?_insert]
      by_cases heq : (DefKey.ofPackage c.unit).text = text
      · rw [if_pos heq, if_pos heq.symm]
      · rw [if_neg heq, if_neg (fun h => heq h.symm)]
        rfl
    defs := fun _ => ⟨⟨x, [], [], rfl, hkind, hkey, .refl _, .nil⟩, List.pairwise_singleton _ _,
      fun d hd => absurd hd List.not_mem_nil⟩ }

/-! ### Runs -/

variable {includeDocs : Bool} {keys : KeyStore} {packaged visited final : Emission}

/-- At the end of a run the ledger is that of all declarations of its nodes. -/
theorem Stages.ledger (h : Stages c includeDocs keys packaged visited final) :
    Ledger c final.keys final (c.program.declarations c.package
      ((graphWalk c.program.tree c.package.files).visited.map Visit.node)) := by
  obtain ⟨hfound, hbase, hlast⟩ := h.found
  have hvisited := (Ledger.emitPackage h.emitPackage).visitAll h.visitAll hbase hlast hfound
  rw [List.nil_append] at hvisited
  have hkeeps := (madeOf_lastStage c (includeDocs && visited.error.isNone)).keeps
    (fun s => (s.error, s.claims, s.graph.defs)) (fun _ _ => rfl)
    (fun change hchange s => by cases change <;> first | rfl | cases hchange) visited
  rw [endState_of_ok h.document] at hkeeps
  obtain ⟨herror, hrest⟩ := Prod.mk.inj hkeeps
  obtain ⟨hclaims, hdefs⟩ := Prod.mk.inj hrest
  exact hvisited.congr herror hclaims hdefs

end Ledger

end SymbolGraph
