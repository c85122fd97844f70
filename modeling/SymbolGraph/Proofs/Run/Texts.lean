import SymbolGraph.Proofs.Run.Comments
import SymbolGraph.Proofs.Run.Documented

/-!
# The texts of a run

Documentation goes through declarations with a state that remembers which objects and keys have
been documented, and which comment groups belong to something. What a step adds in it depends on
the keys that are documented before it, and on nothing else (`Took`); put together, the texts of a
package are the first ones for each key, in pairs, and then the comment groups that belong to
nothing (`docs_eq_of_graph_eq_ok`).

So every key has one pair of texts, which is what the first declaration says that offers a text for
it (`keyed_docs_eq_pairs`), and the texts without a key are the comments that belong to nothing, no
more and no less (`keyless_docs_eq_floating`).
-/

namespace SymbolGraph

open Emit KeyStore

/-- A list of answers that can each be told without asking. -/
theorem mapM_eq_ok {α β : Type} {f : α → Except Fault β} {g : α → β}
    (hf : ∀ {a b}, f a = .ok b → g a = b) {list : List α} {found : List β}
    (h : list.mapM f = .ok found) : found = list.map g := by
  induction list generalizing found with
  | nil =>
    rw [List.mapM_nil] at h
    cases h
    rfl
  | cons a rest ih =>
    rw [List.mapM_cons] at h
    obtain ⟨b, hb, h⟩ := bind_eq_ok_iff.mp h
    obtain ⟨later, hlater, h⟩ := bind_eq_ok_iff.mp h
    cases h
    rw [List.map_cons, hf hb, ih hlater]

/-! ## Steps -/

namespace DocState

variable {d : DocState}

/-- Each object that has been looked at has no key in the end, or one that is documented. -/
def Settled (d : DocState) (pkg : PackageId) (last : KeyStore) : Prop :=
  ∀ obj ∈ d.objects, ∀ key, last.keyOf? pkg obj = some key → key.text ∈ d.keys

/-- Comment groups that are attached are attached together with those before, and that is all. -/
theorem attachAll_eq (groups : List (Option CommentGroup)) :
    (d.attachAll groups).keys = d.keys ∧ (d.attachAll groups).objects = d.objects ∧
      ∀ place, place ∈ (d.attachAll groups).attached ↔
        place ∈ d.attached ∨ place ∈ (groups.filterMap id).map CommentGroup.place := by
  induction groups generalizing d with
  | nil => exact ⟨rfl, rfl, fun place => by simp [attachAll]⟩
  | cons group rest ih =>
    cases group with
    | none => exact ih
    | some g =>
      obtain ⟨hkeys, hobjects, hattached⟩ := @ih (d.attach g)
      refine ⟨hkeys, hobjects, fun place => (hattached place).trans ?_⟩
      simp only [attach, CommentGroup.place, List.mem_cons, List.filterMap_cons, id, List.map_cons]
      tauto

/-- Attaching comment groups leaves settled what is settled. -/
theorem Settled.attachAll {pkg : PackageId} {last : KeyStore} (h : d.Settled pkg last)
    (groups : List (Option CommentGroup)) : (d.attachAll groups).Settled pkg last := by
  obtain ⟨hkeys, hobjects, -⟩ := d.attachAll_eq groups
  unfold Settled
  rw [hkeys, hobjects]
  exact h

/-- An object has been looked at that has no key in the end, or one that is documented. -/
theorem Settled.cons {pkg : PackageId} {last : KeyStore} {obj : ObjectId} (h : d.Settled pkg last)
    (hobj : ∀ key, last.keyOf? pkg obj = some key → key.text ∈ d.keys) :
    Settled { d with objects := obj :: d.objects } pkg last := by
  intro o ho key hkey
  rcases List.mem_cons.mp ho with rfl | ho
  · exact hobj key hkey
  · exact h o ho key hkey

end DocState

section Steps

variable {α : Type} {c : GraphContext} {base last : KeyStore} {d d' : DocState} {s t : Emission}
  {groups groups' : List CommentGroup} {pairs pairs' : List DocPair}

/-- From one state to another comment groups were attached, and of some texts the first one for
each key was added, unless the key was documented before. -/
structure Took (c : GraphContext) (last : KeyStore) (groups : List CommentGroup)
    (pairs : List DocPair) (d : DocState) (s : Emission) (d' : DocState) (t : Emission) : Prop where
  docs : t.graph.docs = s.graph.docs ++
    (DocPair.firsts d.keys pairs).flatMap (DocPair.docs c.unit)
  keys : ∀ text, text ∈ d'.keys ↔ text ∈ d.keys ++ pairs.map (·.key.text)
  attached : ∀ place,
    place ∈ d'.attached ↔ place ∈ d.attached ∨ place ∈ groups.map CommentGroup.place
  settled : d'.Settled c.package.pkg last

/-- A step that adds no texts took nothing. -/
theorem Took.nothing (hdocs : t.graph.docs = s.graph.docs) (hd : d.Settled c.package.pkg last) :
    Took c last [] [] d s d t where
  docs := by rw [hdocs]; exact (List.append_nil _).symm
  keys text := by rw [List.map_nil, List.append_nil]
  attached place := by simp
  settled := hd

/-- Two steps in a row took what each of them took. -/
theorem Took.append {d'' : DocState} {u : Emission} (h : Took c last groups pairs d s d' t)
    (h' : Took c last groups' pairs' d' t d'' u) :
    Took c last (groups ++ groups') (pairs ++ pairs') d s d'' u where
  docs := by
    rw [h'.docs, h.docs, DocPair.firsts_congr h.keys, DocPair.firsts_append, List.flatMap_append,
      List.append_assoc]
  keys text := by
    rw [h'.keys, List.mem_append, h.keys, List.map_append, ← List.append_assoc,
      List.mem_append (s := d.keys ++ _)]
  attached place := by
    rw [h'.attached, h.attached, List.map_append, List.mem_append, or_assoc]
  settled := h'.settled

/-- Comment groups may have been attached before. -/
theorem Took.of_attachAll (options : List (Option CommentGroup))
    (h : Took c last groups pairs (d.attachAll options) s d' t)
    (hsub : ∀ g ∈ groups, some g ∈ options) :
    Took c last (options.filterMap id) pairs d s d' t where
  docs := by rw [h.docs, (d.attachAll_eq options).1]
  keys text := by rw [h.keys, (d.attachAll_eq options).1]
  attached place := by
    rw [h.attached, (d.attachAll_eq options).2.2]
    refine ⟨?_, .inl⟩
    rintro (hbefore | hplace)
    · exact hbefore
    · obtain ⟨g, hg, rfl⟩ := List.mem_map.mp hplace
      exact .inr (List.mem_map_of_mem (mem_filterMap_id.mpr (hsub g hg)))
  settled := h.settled

/-- A step attaches comment groups and adds texts, whatever the state is that it begins in. -/
structure Takes (c : GraphContext) (base last : KeyStore) (groups : List CommentGroup)
    (pairs : List DocPair) (step : DocState → Emit DocState) : Prop where
  grows : ∀ {d s d' t}, step d s = .ok d' t → PartOf c.package.pkg s.keys t.keys
  took : ∀ {d s d' t}, step d s = .ok d' t → d.Settled c.package.pkg last →
    PartOf c.package.pkg base s.keys → PartOf c.package.pkg t.keys last →
    Took c last groups pairs d s d' t

namespace Takes

/-- A step that does nothing takes nothing. -/
theorem nothing : Takes c base last [] [] fun d => pure d where
  grows h := by
    obtain ⟨-, rfl⟩ := pure_eq_ok_iff.mp h
    exact PartOf.refl _ _
  took h hd _ _ := by
    obtain ⟨rfl, rfl⟩ := pure_eq_ok_iff.mp h
    exact .nothing rfl hd

/-- A step may depend on what a question is answered with. -/
theorem ask {answer : Except Fault α} {next : α → DocState → Emit DocState}
    (h : ∀ a, answer = .ok a → Takes c base last groups pairs (next a)) :
    Takes c base last groups pairs fun d => Emit.ask answer >>= fun a => next a d where
  grows hrun := by
    obtain ⟨a, mid, hask, hrun⟩ := Emit.bind_eq_ok_iff.mp hrun
    obtain ⟨ha, rfl⟩ := ask_eq_ok_iff.mp hask
    exact (h a ha).grows hrun
  took hrun := by
    obtain ⟨a, mid, hask, hrun⟩ := Emit.bind_eq_ok_iff.mp hrun
    obtain ⟨ha, rfl⟩ := ask_eq_ok_iff.mp hask
    exact (h a ha).took hrun

/-- A step may attach comment groups before it goes on. -/
theorem of_attachAll (options : List (Option CommentGroup))
    {step : DocState → Emit DocState} (h : Takes c base last groups pairs step)
    (hsub : ∀ g ∈ groups, some g ∈ options) :
    Takes c base last (options.filterMap id) pairs fun d => step (d.attachAll options) where
  grows := h.grows
  took hrun hd hbase hlast :=
    (h.took hrun (hd.attachAll options) hbase hlast).of_attachAll options hsub

/-- Steps for each item of a list in turn. -/
theorem eachWith {step : DocState → α → Emit DocState} {groups : α → List CommentGroup}
    {pairs : α → List DocPair} (items : List α)
    (h : ∀ a ∈ items, Takes c base last (groups a) (pairs a) fun d => step d a) :
    Takes c base last (items.flatMap groups) (items.flatMap pairs)
      fun d => GraphContext.eachWith step d items := by
  induction items with
  | nil => exact nothing
  | cons a rest ih =>
    have hfirst := h a List.mem_cons_self
    have hrest := ih fun b hb => h b (List.mem_cons_of_mem _ hb)
    constructor
    · intro d s d' t hrun
      obtain ⟨mid, u, hstep, hrun⟩ := Emit.bind_eq_ok_iff.mp hrun
      exact (hfirst.grows hstep).trans (hrest.grows hrun)
    · intro d s d' t hrun hd hbase hlast
      obtain ⟨mid, u, hstep, hrun⟩ := Emit.bind_eq_ok_iff.mp hrun
      have htook := hfirst.took hstep hd hbase ((hrest.grows hrun).trans hlast)
      exact htook.append (hrest.took hrun htook.settled (hbase.trans (hfirst.grows hstep)) hlast)

end Takes

/-- Steps that each add some texts and leave the keys alone add all of these in turn. -/
theorem docs_each_eq_ok {f : α → Emit Unit} {texts : α → List Doc} {items : List α}
    (h : each f items s = .ok () t)
    (hf : ∀ {a s t}, f a s = .ok () t →
      t.keys = s.keys ∧ t.graph.docs = s.graph.docs ++ texts a) :
    t.keys = s.keys ∧ t.graph.docs = s.graph.docs ++ items.flatMap texts := by
  induction items generalizing s with
  | nil =>
    obtain ⟨-, rfl⟩ := pure_eq_ok_iff.mp h
    exact ⟨rfl, (List.append_nil _).symm⟩
  | cons a rest ih =>
    obtain ⟨_, mid, hfirst, hrest⟩ := Emit.bind_eq_ok_iff.mp h
    obtain ⟨hkeys, hdocs⟩ := hf hfirst
    obtain ⟨hkeys', hdocs'⟩ := ih hrest
    refine ⟨hkeys'.trans hkeys, ?_⟩
    rw [hdocs', hdocs, List.append_assoc]
    rfl

/-! ## Names -/

/-- Looking at an object again, or at one without a key or with one that is documented, adds
nothing. -/
theorem Took.of_old {x? : Option DocPair} (hdocs : t.graph.docs = s.graph.docs)
    (hkeys : d'.keys = d.keys) (hattached : d'.attached = d.attached)
    (hold : ∀ x, x? = some x → x.key.text ∈ d.keys) (hd : d'.Settled c.package.pkg last) :
    Took c last [] x?.toList d s d' t where
  docs := by
    rw [hdocs, DocPair.firsts_eq_nil fun x hx => hold x (Option.mem_toList.mp hx)]
    exact (List.append_nil _).symm
  keys text := by
    rw [hkeys, List.mem_append]
    refine ⟨.inl, fun h => h.elim id fun h => ?_⟩
    obtain ⟨x, hx, rfl⟩ := List.mem_map.mp h
    exact hold x (Option.mem_toList.mp hx)
  attached place := by simp [hattached]
  settled := hd

namespace GraphContext

/-- Documenting a name adds the text for the key of its object, if that is the first one. -/
theorem takes_documentName (hfound : c.Found base last) (g : CommentGroup) (name : NodeId) :
    Takes c base last []
      (((c.package.facts.defs.get? name).bind (last.keyOf? c.package.pkg)).map
        (g.pair c.program)).toList fun d => c.documentName g g.text d name where
  grows h := (c.madeOf_documentName _ _ _ _).grows_ok h
  took {d s d' t} h hd hbase hlast := by
    -- the key that a lookup gives is the one that is known in the end
    have hkeyOf : ∀ {obj k? mid}, c.keyOf obj s = .ok k? mid →
        PartOf c.package.pkg mid.keys last →
        last.keyOf? c.package.pkg obj = k?.map (·.key) := fun hlookup hmid => by
      unfold keyOf?
      rw [(keyOf_eq_ok hlookup hbase hmid hfound).1]
    cases documentName_cases h with
    | unrecorded hobj =>
      rw [hobj]
      exact .nothing rfl hd
    | @again obj hobj hseen =>
      rw [hobj, Option.bind_some]
      refine .of_old rfl rfl rfl (fun x hx => ?_) hd
      obtain ⟨key, hkey, rfl⟩ := Option.map_eq_some_iff.mp hx
      exact hd obj hseen key hkey
    | @keyless obj _ hobj hlookup =>
      have hkey := hkeyOf hlookup hlast
      rw [hobj, Option.bind_some, hkey]
      exact .of_old (docs_keyOf hlookup) rfl rfl (fun x hx => by cases hx)
        (hd.cons fun key hk => by rw [hkey] at hk; cases hk)
    | @documented obj k _ hobj hlookup htaken =>
      have hkey := hkeyOf hlookup hlast
      rw [hobj, Option.bind_some, hkey]
      exact .of_old (docs_keyOf hlookup) rfl rfl (fun x hx => by cases hx; exact htaken)
        (hd.cons fun key hk => by rw [hkey] at hk; cases hk; exact htaken)
    | @new obj k mid _ hobj hlookup hnew hpair =>
      obtain ⟨hkeys, hdocs⟩ := addDocPair_eq_ok hpair
      have hkey := hkeyOf hlookup (hkeys ▸ hlast)
      rw [hobj, Option.bind_some, hkey]
      refine ⟨?_, fun text => ?_, fun place => by simp, ?_⟩
      · rw [hdocs, docs_keyOf hlookup, Option.map_some, Option.map_some, Option.toList_some,
          DocPair.firsts_singleton hnew, List.flatMap_singleton]
        rfl
      · simp [CommentGroup.pair, or_comm]
      · intro o ho key hk
        rcases List.mem_cons.mp ho with rfl | ho
        · rw [hkey] at hk
          cases hk
          exact List.mem_cons_self
        · exact List.mem_cons_of_mem _ (hd o ho key hk)

/-! ## Declarations -/

/-- Documenting names under a comment group attaches it and adds its text for their keys. -/
theorem takes_documentNames (hfound : c.Found base last) (names : List NodeId)
    (group : Option CommentGroup) :
    Takes c base last group.toList
      (Commented.pairs c.program c.package.facts (last.keyOf? c.package.pkg) ⟨names, group.toList⟩)
      fun d => c.documentNames names group d := by
  cases group with
  | none => exact .nothing
  | some g =>
    unfold documentNames Commented.pairs
    dsimp only [Option.toList_some, List.head?_cons]
    by_cases hempty : g.text.isEmpty = true
    · simp only [if_pos hempty]
      exact Takes.nothing.of_attachAll [some g] fun _ h => absurd h List.not_mem_nil
    · simp only [if_neg hempty]
      rw [List.filterMap_eq_flatMap_toList]
      have hnames := Takes.eachWith names fun name _ => takes_documentName hfound g name
      rw [List.flatMap_eq_nil_iff.mpr fun _ _ => rfl] at hnames
      exact hnames.of_attachAll [some g] fun _ h => absurd h List.not_mem_nil

/-- Documenting names under the first of some comment groups, all of which are attached. -/
theorem takes_commented (hfound : c.Found base last) (names : List NodeId)
    (options : List (Option CommentGroup)) :
    Takes c base last (options.filterMap id)
      (Commented.pairs c.program c.package.facts (last.keyOf? c.package.pkg)
        ⟨names, options.filterMap id⟩)
      fun d => c.documentNames names (options.filterMap id).head? (d.attachAll options) := by
  have hnames := takes_documentNames hfound names (options.filterMap id).head?
  have hpairs : ∀ groups : List CommentGroup,
      Commented.pairs c.program c.package.facts (last.keyOf? c.package.pkg)
        ⟨names, groups.head?.toList⟩ =
      Commented.pairs c.program c.package.facts (last.keyOf? c.package.pkg) ⟨names, groups⟩ := by
    intro groups
    cases groups <;> rfl
  rw [hpairs] at hnames
  refine hnames.of_attachAll options fun g hg => ?_
  exact mem_filterMap_id.mp (List.mem_of_mem_head? (Option.mem_toList.mp hg))

/-- A step attaches the comment groups that declarations stand under, and adds their texts. -/
abbrev TakesAll (c : GraphContext) (base last : KeyStore) (ds : List Commented)
    (step : DocState → Emit DocState) : Prop :=
  Takes c base last (ds.flatMap Commented.groups)
    (ds.flatMap (Commented.pairs c.program c.package.facts (last.keyOf? c.package.pkg))) step

/-- Documenting a specification takes what it declares under comments. -/
theorem takes_documentSpec (hfound : c.Found base last) (declDoc : Option CommentGroup)
    (spec : NodeId) :
    TakesAll c base last (c.program.tree.specComments declDoc spec)
      fun d => c.documentSpec declDoc d spec := by
  have hfirst : ∀ doc comment : Option CommentGroup,
      doc.or (declDoc.or comment) = ([doc, declDoc, comment].filterMap id).head? := by
    intro doc comment
    cases doc <;> cases declDoc <;> cases comment <;> rfl
  refine .ask fun kind hkind => ?_
  unfold SyntaxTree.specComments
  rw [hkind]
  cases kind with
  | valueSpec names type values doc comment =>
    dsimp only
    rw [List.flatMap_singleton, List.flatMap_singleton, hfirst]
    exact takes_commented hfound names [doc, declDoc, comment]
  | typeSpec name type doc comment =>
    dsimp only
    rw [List.flatMap_singleton, List.flatMap_singleton, hfirst]
    exact takes_commented hfound [name] [doc, declDoc, comment]
  | _ => exact .nothing

/-- The names that a field is found to declare are those that it has. -/
theorem memberNames_eq_ok {names declared : List NodeId} {type : NodeId} {tree : SyntaxTree}
    (h : memberNames tree names type = .ok declared) : declared = tree.fieldNames names type := by
  unfold memberNames at h
  unfold SyntaxTree.fieldNames
  split at h
  · rename_i hnames
    rw [if_pos hnames]
    obtain ⟨kind, hkind, h⟩ := bind_eq_ok_iff.mp h
    rw [hkind]
    cases kind with
    | starExpr operand => cases h; rfl
    | _ => cases h; rfl
  · rename_i hnames
    rw [if_neg hnames]
    cases h
    rfl

/-- Documenting a node takes what it declares under comments. -/
theorem takes_documentNode (hfound : c.Found base last) (node : NodeId) :
    TakesAll c base last (c.program.tree.commented node) fun d => c.documentNode d node := by
  refine .ask fun kind hkind => ?_
  unfold SyntaxTree.commented
  rw [hkind]
  cases kind with
  | genDecl keyword specs doc =>
    dsimp only
    rw [List.flatMap_assoc, List.flatMap_assoc]
    exact .eachWith specs fun spec _ => takes_documentSpec hfound doc spec
  | funcDecl recv name type body doc =>
    dsimp only
    rw [List.flatMap_singleton, List.flatMap_singleton]
    exact takes_documentNames hfound [name] doc
  | field names type doc comment =>
    refine .ask fun member hmember => ?_
    dsimp only
    rw [hmember]
    cases member with
    | false => exact .nothing
    | true =>
      refine .ask fun declared hdeclared => ?_
      rw [memberNames_eq_ok hdeclared]
      have hfirst : doc.or comment = ([doc, comment].filterMap id).head? := by
        cases doc <;> cases comment <;> rfl
      dsimp only
      rw [List.flatMap_singleton, List.flatMap_singleton, hfirst]
      exact takes_commented hfound _ [doc, comment]
  | _ => exact .nothing

/-- Documenting files adds what their nodes declare, in the order in which they are listed. -/
theorem took_documentFiles (hfound : c.Found base last) {files : List NodeId}
    (h : eachWith c.documentFile d files s = .ok d' t) (hd : d.Settled c.package.pkg last)
    (hbase : PartOf c.package.pkg base s.keys) (hlast : PartOf c.package.pkg t.keys last) :
    ∃ nodes, c.program.tree.Lists files nodes ∧
      Took c last ((nodes.flatMap c.program.tree.commented).flatMap Commented.groups)
        (c.program.offers c.package.facts (last.keyOf? c.package.pkg) nodes) d s d' t := by
  induction files generalizing d s with
  | nil =>
    obtain ⟨rfl, rfl⟩ := pure_eq_ok_iff.mp h
    exact ⟨[], .nil, .nothing rfl hd⟩
  | cons file rest ih =>
    obtain ⟨mid, u, hfile, hrest⟩ := Emit.bind_eq_ok_iff.mp h
    obtain ⟨nodes, s', hask, hfile⟩ := Emit.bind_eq_ok_iff.mp hfile
    obtain ⟨hnodes, rfl⟩ := ask_eq_ok_iff.mp hask
    have hgrows := (MadeOf.composes.eachWith
      (MadeOf.composes.documentFile c.madeOf_documentName) rest mid).grows_ok hrest
    have htakes : TakesAll c base last (nodes.flatMap c.program.tree.commented)
        fun d => eachWith c.documentNode d nodes := by
      unfold TakesAll
      rw [List.flatMap_assoc, List.flatMap_assoc]
      exact .eachWith nodes fun node _ => takes_documentNode hfound node
    have htook := htakes.took hfile hd hbase (hgrows.trans hlast)
    obtain ⟨later, hlater, htookLater⟩ :=
      ih hrest htook.settled (hbase.trans (htakes.grows hfile))
    refine ⟨nodes ++ later, (SyntaxTree.lists_descendants hnodes).append hlater, ?_⟩
    have hall := htook.append htookLater
    unfold Program.offers
    rw [List.flatMap_append, List.flatMap_append, List.flatMap_append]
    exact hall

/-! ## Files -/

/-- Files are gone through by name. -/
theorem filesByName_eq_ok {files : List NodeId} (h : c.filesByName = .ok files) :
    c.program.NameOrdered c.package.files files := by
  obtain ⟨named, hnamed, h⟩ := bind_eq_ok_iff.mp h
  cases h
  have htag : named = c.package.files.map fun file => (c.program.fileNameOf file, file) := by
    refine mapM_eq_ok (fun {file x} hx => ?_) hnamed
    obtain ⟨id, hid, hx⟩ := bind_eq_ok_iff.mp hx
    cases hx
    unfold Program.fileNameOf
    rw [hid]
    rfl
  rw [htag, ← List.map_mergeSort (r := fun a b =>
    !decide (c.program.fileNameOf b < c.program.fileNameOf a)) fun _ _ _ _ => rfl, List.map_map]
  exact (List.map_id _).symm ▸ c.program.nameOrdered_mergeSort c.package.files

/-- The comment group that is found before a package clause is the one that stands there. -/
theorem fileDoc?_eq_ok {file : NodeId} {doc : Option CommentGroup}
    (h : c.fileDoc? file = .ok doc) : c.program.tree.fileDoc? file = doc := by
  obtain ⟨kind, hkind, h⟩ := bind_eq_ok_iff.mp h
  unfold SyntaxTree.fileDoc?
  rw [hkind]
  cases kind with
  | file name decls doc comments => cases h; rfl
  | _ => cases h; rfl

/-- Documenting the package attaches the comment groups of its files, adds what they say and
reserves its key. -/
theorem documentPackage_eq_ok {files : List NodeId}
    (h : c.documentPackage files .empty s = .ok d t) :
    t.keys = s.keys ∧ t.graph.docs = s.graph.docs ++
        (c.program.packagePair? c.unit files).toList.flatMap (DocPair.docs c.unit) ∧
      d.keys = [(DefKey.ofPackage c.unit).text] ∧ d.objects = [] ∧
      ∀ place, place ∈ d.attached ↔
        place ∈ (files.filterMap c.program.tree.fileDoc?).map CommentGroup.place := by
  obtain ⟨docs, mid, hask, h⟩ := Emit.bind_eq_ok_iff.mp h
  obtain ⟨hdocs, rfl⟩ := ask_eq_ok_iff.mp hask
  obtain rfl := mapM_eq_ok fileDoc?_eq_ok hdocs
  obtain ⟨-, hobjects, hattached⟩ :=
    DocState.empty.attachAll_eq (files.map c.program.tree.fileDoc?)
  have hplaces : ∀ place,
      place ∈ (DocState.empty.attachAll (files.map c.program.tree.fileDoc?)).attached ↔
        place ∈ (files.filterMap c.program.tree.fileDoc?).map CommentGroup.place := by
    intro place
    rw [hattached, List.filterMap_map]
    exact or_iff_right List.not_mem_nil
  have htexts : (files.map c.program.tree.fileDoc?).filterMap (·.map CommentGroup.text) =
      (files.filterMap c.program.tree.fileDoc?).map CommentGroup.text := by
    rw [List.filterMap_map, List.map_filterMap]
    rfl
  unfold Program.packagePair? Program.fileTexts
  dsimp only at h
  rw [htexts] at h
  split at h
  · rename_i hempty
    obtain ⟨rfl, rfl⟩ := pure_eq_ok_iff.mp h
    rw [if_pos hempty]
    exact ⟨rfl, (List.append_nil _).symm, rfl, hobjects, hplaces⟩
  · rename_i hsome
    obtain ⟨_, u, hpair, h⟩ := Emit.bind_eq_ok_iff.mp h
    obtain ⟨rfl, rfl⟩ := pure_eq_ok_iff.mp h
    obtain ⟨hsame, hdocs⟩ := addDocPair_eq_ok hpair
    rw [if_neg hsome]
    exact ⟨hsame, hdocs, rfl, hobjects, hplaces⟩

/-- The texts of those comment groups that do not stand at places that are attached. -/
def floatingDocs (c : GraphContext) (d : DocState) (groups : List CommentGroup) : List Doc :=
  (groups.filter fun g => !d.attached.contains g.place && !g.text.isEmpty).map
    (c.program.floatingDoc c.unit)

/-- Which comment groups belong to nothing can be told item by item. -/
theorem floatingDocs_flatMap {items : List α} {f : α → List CommentGroup} :
    items.flatMap (fun a => c.floatingDocs d (f a)) = c.floatingDocs d (items.flatMap f) := by
  unfold floatingDocs
  rw [List.filter_flatMap, List.map_flatMap]

/-- A comment group is added if it belongs to nothing and has text. -/
theorem addFloating_eq_ok {g : CommentGroup} (h : c.addFloating d g s = .ok () t) :
    t.keys = s.keys ∧ t.graph.docs = s.graph.docs ++ c.floatingDocs d [g] := by
  unfold addFloating at h
  unfold floatingDocs CommentGroup.place
  rw [List.filter_singleton, List.contains_eq_mem, ← Bool.not_or]
  split at h
  · rename_i hbelongs
    obtain ⟨-, rfl⟩ := pure_eq_ok_iff.mp h
    rw [hbelongs]
    exact ⟨rfl, (List.append_nil _).symm⟩
  · rename_i hfree
    cases h
    rw [eq_false_of_ne_true hfree]
    exact ⟨rfl, rfl⟩

/-- The comment groups of a file that belong to nothing are added. -/
theorem addFloatingOf_eq_ok {file : NodeId} (h : c.addFloatingOf d file s = .ok () t) :
    t.keys = s.keys ∧
      t.graph.docs = s.graph.docs ++ c.floatingDocs d (c.program.tree.commentsIn file) := by
  obtain ⟨kind, s', hask, h⟩ := Emit.bind_eq_ok_iff.mp h
  obtain ⟨hkind, rfl⟩ := ask_eq_ok_iff.mp hask
  unfold SyntaxTree.commentsIn
  rw [hkind]
  cases kind with
  | file name decls doc comments =>
    obtain ⟨hkeys, hdocs⟩ := docs_each_eq_ok h addFloating_eq_ok
    rw [floatingDocs_flatMap, List.flatMap_singleton'] at hdocs
    exact ⟨hkeys, hdocs⟩
  | _ =>
    obtain ⟨-, rfl⟩ := pure_eq_ok_iff.mp h
    exact ⟨rfl, (List.append_nil _).symm⟩

/-- All texts of a package: those with keys, and then the comment groups that belong to
nothing. -/
theorem document_eq_ok (hfound : c.Found base t.keys) (h : c.document s = .ok () t)
    (hbase : PartOf c.package.pkg base s.keys) :
    ∃ files nodes, c.program.NameOrdered c.package.files files ∧
      c.program.tree.Lists files nodes ∧ t.graph.docs = s.graph.docs ++
        ((c.program.textPairs c.unit c.package.facts (t.keys.keyOf? c.package.pkg) files
          nodes).flatMap (DocPair.docs c.unit) ++
        ((files.flatMap c.program.tree.commentsIn).filter
          (CommentGroup.floats (c.program.tree.attached files nodes))).map
            (c.program.floatingDoc c.unit)) := by
  obtain ⟨files, s', hask, h⟩ := Emit.bind_eq_ok_iff.mp h
  obtain ⟨hfiles, rfl⟩ := ask_eq_ok_iff.mp hask
  obtain ⟨first, packaged, hpackage, h⟩ := Emit.bind_eq_ok_iff.mp h
  obtain ⟨final, declared, hdeclared, hfloating⟩ := Emit.bind_eq_ok_iff.mp h
  obtain ⟨hsame, hpackageDocs, hkeys, hobjects, hattached⟩ := documentPackage_eq_ok hpackage
  obtain ⟨hlast, hfloatingDocs⟩ := docs_each_eq_ok hfloating addFloatingOf_eq_ok
  have hsettled : first.Settled c.package.pkg t.keys := by
    intro obj hobj
    rw [hobjects] at hobj
    cases hobj
  obtain ⟨nodes, hlists, htook⟩ := took_documentFiles hfound hdeclared hsettled (hsame ▸ hbase)
    (hlast ▸ PartOf.refl _ _)
  refine ⟨files, nodes, filesByName_eq_ok hfiles, hlists, ?_⟩
  -- what is attached in the end are the comment groups that belong to something
  have hplaces : ∀ place, place ∈ final.attached ↔
      place ∈ (c.program.tree.attached files nodes).map CommentGroup.place := by
    intro place
    rw [htook.attached, hattached]
    unfold SyntaxTree.attached
    rw [List.map_append, List.mem_append]
  have hfloats : c.floatingDocs final (files.flatMap c.program.tree.commentsIn) =
      ((files.flatMap c.program.tree.commentsIn).filter
        (CommentGroup.floats (c.program.tree.attached files nodes))).map
          (c.program.floatingDoc c.unit) := by
    unfold floatingDocs
    refine congrArg (List.map _) (List.filter_congr fun group _ => ?_)
    unfold CommentGroup.floats
    simp only [List.contains_eq_mem, hplaces]
  rw [hfloatingDocs, floatingDocs_flatMap, hfloats, htook.docs, hpackageDocs, hkeys]
  unfold Program.textPairs
  rw [List.flatMap_append, List.append_assoc, List.append_assoc, List.append_assoc]

end GraphContext

end Steps

/-! ## Runs -/

section

variable {p : Program} {k : CheckedPackage} {options : GraphOptions} {keys keys' : KeyStore}
  {g : PackageGraph} {owner : Package}

/-- The texts of a graph are the pairs for its keys and then those of the comment groups that belong
to nothing. -/
theorem docs_eq_of_graph_eq_ok (h : p.graph k options keys = (.ok (.ok g), keys'))
    (hdocs : options.includeDocs = true) (howner : p.package k.pkg = .ok owner) :
    ∃ files nodes, p.NameOrdered k.files files ∧ p.tree.Lists files nodes ∧ g.docs =
      (p.textPairs owner.path k.facts (keys'.keyOf? k.pkg) files nodes).flatMap
          (DocPair.docs owner.path) ++
        ((files.flatMap p.tree.commentsIn).filter
          (CommentGroup.floats (p.tree.attached files nodes))).map (p.floatingDoc owner.path) := by
  obtain ⟨c, _, packaged, visited, last, hc, hrun, rfl, rfl⟩ := completes_of_graph_eq_ok h
  obtain ⟨hprogram, hpackage, howned, hunit, -, -⟩ := hc
  subst hprogram hpackage
  rw [howner] at howned
  cases howned
  obtain ⟨hfound, hbase, -⟩ := hrun.stages.found
  have hvisited : visited.graph.docs = [] :=
    ((c.madeOf_visitAll _).keeps_docs hrun.stages.visitAll).trans
      ((c.madeOf_emitPackage.mono fun _ => .inl).keeps_docs hrun.stages.emitPackage)
  have hdocument := hrun.stages.document
  rw [hdocs, hrun.faultless] at hdocument
  obtain ⟨files, nodes, hfiles, hlists, hall⟩ := GraphContext.document_eq_ok hfound hdocument
    (hbase.trans ((c.madeOf_visitAll _).grows_ok hrun.stages.visitAll))
  refine ⟨files, nodes, hfiles, hlists, ?_⟩
  rw [hvisited, List.nil_append, hunit] at hall
  exact hall

/-- The texts with keys are those of the pairs. -/
theorem filter_isSome_docs {unit : String} {pairs : List DocPair} {groups : List CommentGroup} :
    (pairs.flatMap (DocPair.docs unit) ++ groups.map (p.floatingDoc unit)).filter
      (fun x => x.key.isSome) = pairs.flatMap (DocPair.docs unit) := by
  rw [List.filter_append, List.filter_eq_self.mpr, List.filter_eq_nil_iff.mpr, List.append_nil]
  · intro x hx
    obtain ⟨group, -, rfl⟩ := List.mem_map.mp hx
    exact Bool.false_ne_true
  · intro x hx
    obtain ⟨pair, -, hx⟩ := List.mem_flatMap.mp hx
    rcases List.mem_cons.mp hx with rfl | hx
    · rfl
    · rw [List.mem_singleton.mp hx]
      rfl

/-- The texts without keys are those of the comment groups that belong to nothing. -/
theorem filter_isNone_docs {unit : String} {pairs : List DocPair} {groups : List CommentGroup} :
    (pairs.flatMap (DocPair.docs unit) ++ groups.map (p.floatingDoc unit)).filter
      (fun x => x.key.isNone) = groups.map (p.floatingDoc unit) := by
  rw [List.filter_append, List.filter_eq_nil_iff.mpr, List.filter_eq_self.mpr, List.nil_append]
  · intro x hx
    obtain ⟨group, -, rfl⟩ := List.mem_map.mp hx
    rfl
  · intro x hx
    obtain ⟨pair, -, hx⟩ := List.mem_flatMap.mp hx
    rcases List.mem_cons.mp hx with rfl | hx
    · exact Bool.false_ne_true
    · rw [List.mem_singleton.mp hx]
      exact Bool.false_ne_true

/-- **Each key has one pair of texts.** The texts with keys are pairs, one as HTML and one plain and
not empty, no two of them for one key. That for another key than the package's is the first one
that is offered for it when the nodes are listed file by file, and whatever is offered for a key,
there is a pair for it, unless it is the package's. -/
theorem keyed_docs_eq_pairs (h : p.graph k options keys = (.ok (.ok g), keys'))
    (hdocs : options.includeDocs = true) (howner : p.package k.pkg = .ok owner) :
    ∃ files nodes, ∃ pairs : List DocPair, p.NameOrdered k.files files ∧ p.tree.Lists files nodes ∧
      g.docs.filter (fun x => x.key.isSome) = pairs.flatMap (DocPair.docs owner.path) ∧
      (pairs.map fun x => x.key.text).Nodup ∧
      (∀ x ∈ pairs, x.text ≠ "" ∧ (x.key ≠ .ofPackage owner.path →
        (p.offers k.facts (keys'.keyOf? k.pkg) nodes).find? (fun y => y.key.text == x.key.text) =
          some x)) ∧
      ∀ x ∈ p.offers k.facts (keys'.keyOf? k.pkg) nodes,
        x.key.text = (DefKey.ofPackage owner.path).text ∨
          ∃ y ∈ pairs, y.key.text = x.key.text := by
  obtain ⟨files, nodes, hfiles, hlists, hall⟩ := docs_eq_of_graph_eq_ok h hdocs howner
  refine ⟨files, nodes, p.textPairs owner.path k.facts (keys'.keyOf? k.pkg) files nodes, hfiles,
    hlists, ?_, ?_, fun x hx => ?_, fun x hx => ?_⟩
  · rw [hall, filter_isSome_docs]
  · unfold Program.textPairs
    rw [List.map_append]
    cases hpackage : p.packagePair? owner.path files with
    | none => exact DocPair.nodup_firsts
    | some x =>
      refine List.nodup_cons.mpr ⟨fun hmem => ?_, DocPair.nodup_firsts⟩
      obtain ⟨y, hy, heq⟩ := List.mem_map.mp hmem
      have hkey := congrArg DefKey.text (Program.packagePair?_eq_some hpackage).1
      exact (DocPair.find?_of_mem_firsts hy).1 (List.mem_singleton.mpr (heq.trans hkey))
  · rcases List.mem_append.mp hx with hx | hx
    · obtain ⟨hkey, htext⟩ := Program.packagePair?_eq_some (Option.mem_toList.mp hx)
      exact ⟨htext, fun hne => absurd hkey hne⟩
    · have hfind := (DocPair.find?_of_mem_firsts hx).2
      exact ⟨Program.text_ne_empty_of_mem_offers (List.mem_of_find?_eq_some hfind), fun _ => hfind⟩
  · refine (DocPair.taken_or_exists_mem_firsts hx).imp List.mem_singleton.mp ?_
    rintro ⟨y, hy, heq⟩
    exact ⟨y, List.mem_append_right _ hy, heq⟩

/-- **The texts without a key are the comments that belong to nothing.** They are, file by file and
in the order of each file's comments, the plain texts of the comment groups that have text and do
not stand where a group stands that belongs to something. -/
theorem keyless_docs_eq_floating (h : p.graph k options keys = (.ok (.ok g), keys'))
    (hdocs : options.includeDocs = true) (howner : p.package k.pkg = .ok owner) :
    ∃ files nodes, ∃ floats : CommentGroup → Bool, p.NameOrdered k.files files ∧
      p.tree.Lists files nodes ∧
      (∀ group, floats group = true ↔ group.text ≠ "" ∧
        ∀ other, p.tree.Attaches files nodes other → other.place ≠ group.place) ∧
      g.docs.filter (fun x => x.key.isNone) =
        ((files.flatMap p.tree.commentsIn).filter floats).map (p.floatingDoc owner.path) := by
  obtain ⟨files, nodes, hfiles, hlists, hall⟩ := docs_eq_of_graph_eq_ok h hdocs howner
  refine ⟨files, nodes, CommentGroup.floats (p.tree.attached files nodes), hfiles, hlists,
    fun group => ?_, ?_⟩
  · simp only [CommentGroup.floats_eq_true_iff, SyntaxTree.mem_attached]
  · rw [hall, filter_isNone_docs]

end

/-! ### Comments of all kinds -/

namespace Remarks

/-- The comment group before the package clause. -/
def about : CommentGroup := ⟨⟨0⟩, .upTo 1, ["// about"]⟩

/-- The comment group behind an import. -/
def imported : CommentGroup := ⟨⟨0⟩, .upTo 2, ["// imported"]⟩

/-- The comment group of a declaration of two variables. -/
def both : CommentGroup := ⟨⟨0⟩, .upTo 3, ["// both"]⟩

/-- The comment group behind these variables. -/
def unused : CommentGroup := ⟨⟨0⟩, .upTo 4, ["// unused"]⟩

/-- The comment group behind a field. -/
def field : CommentGroup := ⟨⟨0⟩, .upTo 5, ["// field"]⟩

/-- The comment group behind a parameter. -/
def param : CommentGroup := ⟨⟨0⟩, .upTo 6, ["// param"]⟩

/-- The comment group of a third variable, without text. -/
def silent : CommentGroup := ⟨⟨0⟩, .upTo 7, ["//"]⟩

/-- The comment group behind that variable. -/
def behind : CommentGroup := ⟨⟨0⟩, .upTo 8, ["// behind"]⟩

/-- A comment group by itself. -/
def stray : CommentGroup := ⟨⟨0⟩, .upTo 9, ["// stray"]⟩

/-- A file with an import, the variables `x` and `y`, a struct type `S` with a field `f`, a function
`h` with a parameter, and the variable `z`. -/
def program : Program where
  sources := ⟨#[⟨"p.go", ""⟩]⟩
  tree := ⟨#[⟨.ident "p", ⟨0⟩, .upTo 1, some ⟨25⟩⟩, ⟨.basicLit "q", ⟨0⟩, .upTo 2, some ⟨2⟩⟩,
    ⟨.importSpec none ⟨1⟩ none (some imported), ⟨0⟩, .upTo 2, some ⟨3⟩⟩,
    ⟨.genDecl .importDecl [⟨2⟩] none, ⟨0⟩, .upTo 2, some ⟨25⟩⟩,
    ⟨.ident "x", ⟨0⟩, .upTo 3, some ⟨6⟩⟩, ⟨.ident "y", ⟨0⟩, .upTo 4, some ⟨6⟩⟩,
    ⟨.valueSpec [⟨4⟩, ⟨5⟩] none [] none (some unused), ⟨0⟩, .upTo 4, some ⟨7⟩⟩,
    ⟨.genDecl .varDecl [⟨6⟩] (some both), ⟨0⟩, .upTo 4, some ⟨25⟩⟩,
    ⟨.ident "S", ⟨0⟩, .upTo 5, some ⟨14⟩⟩, ⟨.ident "f", ⟨0⟩, .upTo 5, some ⟨11⟩⟩,
    ⟨.ident "int", ⟨0⟩, .upTo 5, some ⟨11⟩⟩,
    ⟨.field [⟨9⟩] ⟨10⟩ none (some field), ⟨0⟩, .upTo 5, some ⟨12⟩⟩,
    ⟨.fieldList [⟨11⟩], ⟨0⟩, .upTo 5, some ⟨13⟩⟩, ⟨.structType ⟨12⟩, ⟨0⟩, .upTo 5, some ⟨14⟩⟩,
    ⟨.typeSpec ⟨8⟩ ⟨13⟩ none none, ⟨0⟩, .upTo 5, some ⟨15⟩⟩,
    ⟨.genDecl .typeDecl [⟨14⟩] none, ⟨0⟩, .upTo 5, some ⟨25⟩⟩,
    ⟨.ident "h", ⟨0⟩, .upTo 6, some ⟨21⟩⟩, ⟨.ident "int", ⟨0⟩, .upTo 6, some ⟨18⟩⟩,
    ⟨.field [] ⟨17⟩ none (some param), ⟨0⟩, .upTo 6, some ⟨19⟩⟩,
    ⟨.fieldList [⟨18⟩], ⟨0⟩, .upTo 6, some ⟨20⟩⟩, ⟨.funcType ⟨19⟩ none, ⟨0⟩, .upTo 6, some ⟨21⟩⟩,
    ⟨.funcDecl none ⟨16⟩ ⟨20⟩ none none, ⟨0⟩, .upTo 6, some ⟨25⟩⟩,
    ⟨.ident "z", ⟨0⟩, .upTo 8, some ⟨23⟩⟩,
    ⟨.valueSpec [⟨22⟩] none [] none (some behind), ⟨0⟩, .upTo 8, some ⟨24⟩⟩,
    ⟨.genDecl .varDecl [⟨23⟩] (some silent), ⟨0⟩, .upTo 8, some ⟨25⟩⟩,
    ⟨.file ⟨0⟩ [⟨3⟩, ⟨7⟩, ⟨15⟩, ⟨21⟩, ⟨24⟩] (some about)
      [about, imported, both, unused, field, param, silent, behind, stray], ⟨0⟩, .upTo 9, none⟩]⟩
  objects := #[⟨"x", .var, some ⟨0⟩, some ⟨0⟩, none, none⟩,
    ⟨"y", .var, some ⟨0⟩, some ⟨0⟩, none, none⟩,
    ⟨"S", .typeName, some ⟨0⟩, some ⟨0⟩, none, some ⟨0⟩⟩,
    ⟨"f", .field false, some ⟨0⟩, none, none, none⟩,
    ⟨"h", .func none, some ⟨0⟩, some ⟨0⟩, none, some ⟨2⟩⟩,
    ⟨"z", .var, some ⟨0⟩, some ⟨0⟩, none, none⟩]
  types := #[.named ⟨2⟩ (some ⟨1⟩) [], .struct [⟨3⟩], .signature none [] [] false]
  scopes := #[⟨none, [⟨1⟩], [("S", ⟨2⟩), ("h", ⟨4⟩), ("x", ⟨0⟩), ("y", ⟨1⟩), ("z", ⟨5⟩)]⟩,
    ⟨some ⟨0⟩, [], []⟩]
  packages := #[⟨"p", "p", ⟨0⟩⟩]

/-- The package as it was checked. -/
def package : CheckedPackage where
  pkg := ⟨0⟩
  files := [⟨25⟩]
  facts := { Facts.empty with
    defs := ⟨[(⟨4⟩, ⟨0⟩), (⟨5⟩, ⟨1⟩), (⟨8⟩, ⟨2⟩), (⟨9⟩, ⟨3⟩), (⟨16⟩, ⟨4⟩), (⟨22⟩, ⟨5⟩)]⟩
    scopes := ⟨[(⟨25⟩, ⟨1⟩)]⟩ }

/-- Paths and ends of the texts of the package: two each for the package, the two variables under
one comment and the field, none for the variable whose comment is empty, and one each for the
comments of the import and the parameter and the one by itself. -/
def outline : List (Option DefPath × UInt32) :=
  [(some [], 0), (some [], 0), (some ["x"], 3), (some ["x"], 3), (some ["y"], 3), (some ["y"], 3),
    (some ["S", "f"], 5), (some ["S", "f"], 5), (none, 2), (none, 6), (none, 9)]

/-- The package is graphed, with these texts. -/
theorem graph_eq_ok : ∃ g keys, program.graph package .standard .empty = (.ok (.ok g), keys) ∧
    g.docs.map (fun d => (d.key.map (·.path), d.span.stop)) = outline :=
  exists_graph_eq_of_graph? (by decide +kernel)

end Remarks

/-- In the sample the texts with keys are in pairs, each the first one for its key. -/
theorem keyed_docs_eq_pairs_remarks : ∃ g keys owner,
    Remarks.program.graph Remarks.package .standard .empty = (.ok (.ok g), keys) ∧
      GraphOptions.standard.includeDocs = true ∧
      Remarks.program.package Remarks.package.pkg = .ok owner ∧
      g.docs.map (fun d => (d.key.map (·.path), d.span.stop)) = Remarks.outline ∧
      ∃ files nodes, ∃ pairs : List DocPair,
        Remarks.program.NameOrdered Remarks.package.files files ∧
        Remarks.program.tree.Lists files nodes ∧
        g.docs.filter (fun x => x.key.isSome) = pairs.flatMap (DocPair.docs owner.path) ∧
        (pairs.map fun x => x.key.text).Nodup ∧
        (∀ x ∈ pairs, x.text ≠ "" ∧ (x.key ≠ .ofPackage owner.path →
          (Remarks.program.offers Remarks.package.facts (keys.keyOf? Remarks.package.pkg)
            nodes).find? (fun y => y.key.text == x.key.text) = some x)) ∧
        ∀ x ∈ Remarks.program.offers Remarks.package.facts (keys.keyOf? Remarks.package.pkg) nodes,
          x.key.text = (DefKey.ofPackage owner.path).text ∨
            ∃ y ∈ pairs, y.key.text = x.key.text := by
  obtain ⟨g, keys, hgraph, houtline⟩ := Remarks.graph_eq_ok
  exact ⟨g, keys, _, hgraph, rfl, rfl, houtline, keyed_docs_eq_pairs hgraph rfl rfl⟩

/-- In the sample the texts without a key are the comments of the import and the parameter and the
one by itself. -/
theorem keyless_docs_eq_floating_remarks : ∃ g keys owner,
    Remarks.program.graph Remarks.package .standard .empty = (.ok (.ok g), keys) ∧
      GraphOptions.standard.includeDocs = true ∧
      Remarks.program.package Remarks.package.pkg = .ok owner ∧
      g.docs.map (fun d => (d.key.map (·.path), d.span.stop)) = Remarks.outline ∧
      ∃ files nodes, ∃ floats : CommentGroup → Bool,
        Remarks.program.NameOrdered Remarks.package.files files ∧
        Remarks.program.tree.Lists files nodes ∧
        (∀ group, floats group = true ↔ group.text ≠ "" ∧
          ∀ other, Remarks.program.tree.Attaches files nodes other → other.place ≠ group.place) ∧
        g.docs.filter (fun x => x.key.isNone) =
          ((files.flatMap Remarks.program.tree.commentsIn).filter floats).map
            (Remarks.program.floatingDoc owner.path) := by
  obtain ⟨g, keys, hgraph, houtline⟩ := Remarks.graph_eq_ok
  exact ⟨g, keys, _, hgraph, rfl, rfl, houtline, keyless_docs_eq_floating hgraph rfl rfl⟩

end SymbolGraph
