import Mathlib.Data.List.Basic
import SymbolGraph.Graph.Documentation
import SymbolGraph.Proofs.Syntax.Descendants

/-!
# Comments and what they document

What the comments of a package are for, told without the steps of a run. Declarations stand under
comment groups (`SyntaxTree.commented`), of which the first one that is there is chosen and offers
its text for the objects that are declared (`Commented.pairs`); of all texts for a key the first one
is kept (`DocPair.firsts`). Which comment groups belong to something is said by cases
(`SyntaxTree.Attaches`), and files are gone through by name (`Program.NameOrdered`).
-/

namespace SymbolGraph

/-- Where a comment group stands. -/
def CommentGroup.place (g : CommentGroup) : FileId × TextRange := (g.file, g.range)

/-- A comment group has text and does not stand where one of others stands. -/
def CommentGroup.floats (attached : List CommentGroup) (g : CommentGroup) : Bool :=
  !(attached.map place).contains g.place && !g.text.isEmpty

/-- A comment group floats if it has text and no attached group stands at its place. -/
theorem CommentGroup.floats_eq_true_iff {attached : List CommentGroup} {g : CommentGroup} :
    g.floats attached = true ↔ g.text ≠ "" ∧ ∀ other ∈ attached, other.place ≠ g.place := by
  unfold floats
  rw [Bool.and_eq_true, Bool.not_eq_true', Bool.not_eq_true', List.contains_eq_mem,
    decide_eq_false_iff_not, List.mem_map, and_comm]
  refine and_congr ?_ ⟨fun h other hmem heq => h ⟨other, hmem, heq⟩, ?_⟩
  · rw [ne_eq, ← String.isEmpty_iff, Bool.not_eq_true]
  · rintro h ⟨other, hmem, heq⟩
    exact h other hmem heq

/-! ## Declarations under comments -/

/-- What is declared under comments: the names, and the comment groups that are there, of which the
first one is chosen. -/
structure Commented where
  names : List NodeId
  groups : List CommentGroup
  deriving DecidableEq, Repr

/-- The groups that are there are those that a list has under `some`. -/
theorem mem_filterMap_id {groups : List (Option CommentGroup)} {g : CommentGroup} :
    g ∈ groups.filterMap id ↔ some g ∈ groups := by
  simp

namespace SyntaxTree

variable {t : SyntaxTree}

/-- What a specification declares under its own comment group, that of its declaration and the one
behind it. Imports declare nothing. -/
def specComments (t : SyntaxTree) (declDoc : Option CommentGroup) (spec : NodeId) :
    List Commented :=
  match t.kind spec with
  | .ok (.valueSpec names _ _ doc comment) => [⟨names, [doc, declDoc, comment].filterMap id⟩]
  | .ok (.typeSpec name _ doc comment) => [⟨[name], [doc, declDoc, comment].filterMap id⟩]
  | _ => []

/-- The names that a field declares; an embedded field has the name of its type. -/
def fieldNames (t : SyntaxTree) (names : List NodeId) (type : NodeId) : List NodeId :=
  if names.isEmpty then
    match t.kind type with
    | .ok (.starExpr operand) => [operand]
    | _ => [type]
  else names

/-- What a node declares under comments. The specifications of a declaration are told where the
declaration stands; fields are told if they belong to a struct or interface type. -/
def commented (t : SyntaxTree) (node : NodeId) : List Commented :=
  match t.kind node with
  | .ok (.genDecl _ specs doc) => specs.flatMap (t.specComments doc)
  | .ok (.funcDecl _ name _ _ doc) => [⟨[name], doc.toList⟩]
  | .ok (.field names type doc comment) =>
    match GraphContext.isMember t node with
    | .ok true => [⟨t.fieldNames names type, [doc, comment].filterMap id⟩]
    | _ => []
  | _ => []

/-- The comment group before a file's package clause. -/
def fileDoc? (t : SyntaxTree) (file : NodeId) : Option CommentGroup :=
  match t.kind file with
  | .ok (.file _ _ doc _) => doc
  | _ => none

/-- All comment groups in a file. -/
def commentsIn (t : SyntaxTree) (file : NodeId) : List CommentGroup :=
  match t.kind file with
  | .ok (.file _ _ _ comments) => comments
  | _ => []

/-- A field belongs to a struct or interface type: the list that it stands in does. -/
inductive IsMember (t : SyntaxTree) (field : NodeId) : Prop
  | ofStruct {n l : Node} {list owner fields : NodeId} : t.node field = .ok n →
      n.parent = some list → t.node list = .ok l → l.parent = some owner →
      t.kind owner = .ok (.structType fields) → IsMember t field
  | ofInterface {n l : Node} {list owner methods : NodeId} : t.node field = .ok n →
      n.parent = some list → t.node list = .ok l → l.parent = some owner →
      t.kind owner = .ok (.interfaceType methods) → IsMember t field

/-- A field is found to be a member exactly when it belongs to a struct or interface type. -/
theorem isMember_eq_ok_true_iff {field : NodeId} :
    GraphContext.isMember t field = .ok true ↔ t.IsMember field := by
  constructor
  · intro h
    unfold GraphContext.isMember at h
    obtain ⟨n, hn, h⟩ := bind_eq_ok_iff.mp h
    cases hlist : n.parent with
    | none => rw [hlist] at h; cases h
    | some list =>
      rw [hlist] at h
      obtain ⟨l, hl, h⟩ := bind_eq_ok_iff.mp h
      cases howner : l.parent with
      | none => rw [howner] at h; cases h
      | some owner =>
        rw [howner] at h
        obtain ⟨kind, hkind, h⟩ := bind_eq_ok_iff.mp h
        split at h
        · exact .ofStruct hn hlist hl howner hkind
        · exact .ofInterface hn hlist hl howner hkind
        · cases h
  · intro h
    unfold GraphContext.isMember
    cases h with
    | ofStruct hn hlist hl howner hkind =>
      simp only [hn, hlist, hl, howner, hkind, bind, Except.bind]
      rfl
    | ofInterface hn hlist hl howner hkind =>
      simp only [hn, hlist, hl, howner, hkind, bind, Except.bind]
      rfl

/-- A comment group belongs to something: to a file or a function, to a value or type specification
by itself, by the declaration or behind it, or to a field of a struct or interface type. -/
inductive Attaches (t : SyntaxTree) (files nodes : List NodeId) (g : CommentGroup) : Prop
  | file {file name : NodeId} {decls : List NodeId} {comments : List CommentGroup} :
      file ∈ files → t.kind file = .ok (.file name decls (some g) comments) →
      Attaches t files nodes g
  | value {decl spec : NodeId} {keyword : DeclKeyword} {specs names values : List NodeId}
      {type : Option NodeId} {doc declDoc comment : Option CommentGroup} : decl ∈ nodes →
      t.kind decl = .ok (.genDecl keyword specs declDoc) → spec ∈ specs →
      t.kind spec = .ok (.valueSpec names type values doc comment) →
      some g ∈ [doc, declDoc, comment] → Attaches t files nodes g
  | type {decl spec name type : NodeId} {keyword : DeclKeyword} {specs : List NodeId}
      {doc declDoc comment : Option CommentGroup} : decl ∈ nodes →
      t.kind decl = .ok (.genDecl keyword specs declDoc) → spec ∈ specs →
      t.kind spec = .ok (.typeSpec name type doc comment) →
      some g ∈ [doc, declDoc, comment] → Attaches t files nodes g
  | func {decl name type : NodeId} {recv body : Option NodeId} : decl ∈ nodes →
      t.kind decl = .ok (.funcDecl recv name type body (some g)) → Attaches t files nodes g
  | member {field type : NodeId} {names : List NodeId} {doc comment : Option CommentGroup} :
      field ∈ nodes → t.kind field = .ok (.field names type doc comment) → t.IsMember field →
      some g ∈ [doc, comment] → Attaches t files nodes g

/-- The comment groups that belong to something, as a list. -/
def attached (t : SyntaxTree) (files nodes : List NodeId) : List CommentGroup :=
  files.filterMap t.fileDoc? ++ (nodes.flatMap t.commented).flatMap Commented.groups

/-- Only value and type specifications declare something, each with its own comment groups beside
that of the declaration. -/
theorem mem_specComments {declDoc : Option CommentGroup} {spec : NodeId} {d : Commented} :
    d ∈ t.specComments declDoc spec ↔
      (∃ names type values doc comment,
        t.kind spec = .ok (.valueSpec names type values doc comment) ∧
          d = ⟨names, [doc, declDoc, comment].filterMap id⟩) ∨
      ∃ name type doc comment, t.kind spec = .ok (.typeSpec name type doc comment) ∧
        d = ⟨[name], [doc, declDoc, comment].filterMap id⟩ := by
  unfold specComments
  constructor
  · intro h
    split at h
    · rename_i hkind
      exact .inl ⟨_, _, _, _, _, hkind, List.mem_singleton.mp h⟩
    · rename_i hkind
      exact .inr ⟨_, _, _, _, hkind, List.mem_singleton.mp h⟩
    · cases h
  · rintro (⟨_, _, _, _, _, hkind, rfl⟩ | ⟨_, _, _, _, hkind, rfl⟩)
    · rw [hkind]
      exact List.mem_singleton_self _
    · rw [hkind]
      exact List.mem_singleton_self _

/-- The list holds exactly the comment groups that belong to something. -/
theorem mem_attached {files nodes : List NodeId} {g : CommentGroup} :
    g ∈ t.attached files nodes ↔ t.Attaches files nodes g := by
  unfold attached
  simp only [List.mem_append, List.mem_filterMap, List.mem_flatMap]
  constructor
  · rintro (⟨file, hfile, hdoc⟩ | ⟨d, ⟨node, hnode, hd⟩, hg⟩)
    · unfold fileDoc? at hdoc
      split at hdoc
      · rename_i hkind
        subst hdoc
        exact .file hfile hkind
      · cases hdoc
    · unfold commented at hd
      split at hd
      · rename_i hdecl
        obtain ⟨spec, hspec, hd⟩ := List.mem_flatMap.mp hd
        rcases mem_specComments.mp hd with ⟨_, _, _, _, _, hkind, rfl⟩ | ⟨_, _, _, _, hkind, rfl⟩
        · exact .value hnode hdecl hspec hkind (mem_filterMap_id.mp hg)
        · exact .type hnode hdecl hspec hkind (mem_filterMap_id.mp hg)
      · rename_i hkind
        obtain rfl := List.mem_singleton.mp hd
        rw [Option.mem_toList.mp hg] at hkind
        exact .func hnode hkind
      · rename_i hkind
        split at hd
        · rename_i hmember
          obtain rfl := List.mem_singleton.mp hd
          exact .member hnode hkind (isMember_eq_ok_true_iff.mp hmember) (mem_filterMap_id.mp hg)
        · cases hd
      · cases hd
  · intro h
    cases h with
    | @file file _ _ _ hfile hkind =>
      refine .inl ⟨file, hfile, ?_⟩
      unfold fileDoc?
      rw [hkind]
    | @value decl _ _ _ names _ _ _ _ _ hdecl hgen hspec hkind hg =>
      refine .inr ⟨⟨names, _⟩, ⟨decl, hdecl, ?_⟩, mem_filterMap_id.mpr hg⟩
      unfold commented
      rw [hgen]
      exact List.mem_flatMap.mpr
        ⟨_, hspec, mem_specComments.mpr (.inl ⟨_, _, _, _, _, hkind, rfl⟩)⟩
    | @type decl _ name _ _ _ _ _ _ hdecl hgen hspec hkind hg =>
      refine .inr ⟨⟨[name], _⟩, ⟨decl, hdecl, ?_⟩, mem_filterMap_id.mpr hg⟩
      unfold commented
      rw [hgen]
      exact List.mem_flatMap.mpr
        ⟨_, hspec, mem_specComments.mpr (.inr ⟨_, _, _, _, hkind, rfl⟩)⟩
    | @func decl name _ _ _ hdecl hkind =>
      refine .inr ⟨⟨[name], [g]⟩, ⟨decl, hdecl, ?_⟩, List.mem_singleton_self g⟩
      unfold commented
      rw [hkind]
      exact List.mem_singleton_self _
    | @member field type names _ _ hfield hkind hmember hg =>
      refine .inr ⟨⟨t.fieldNames names type, _⟩, ⟨field, hfield, ?_⟩, mem_filterMap_id.mpr hg⟩
      unfold commented
      rw [hkind]
      dsimp only
      rw [isMember_eq_ok_true_iff.mpr hmember]
      exact List.mem_singleton_self _

end SyntaxTree

/-! ## Texts for keys -/

/-- A text for a key, and where it stands. -/
structure DocPair where
  key : DefKey
  text : String
  file : String
  span : Span
  deriving DecidableEq, Repr

/-- A comment group as text for a key. -/
def CommentGroup.pair (p : Program) (g : CommentGroup) (key : DefKey) : DocPair :=
  ⟨key, g.text, p.sources.name g.file, g.range.span⟩

/-- The texts for the keys of the objects that names are recorded to declare: that of the chosen
comment group, unless it is empty. -/
def Commented.pairs (p : Program) (facts : Facts) (keyOf : ObjectId → Option DefKey)
    (d : Commented) : List DocPair :=
  match d.groups.head? with
  | some g =>
    if g.text.isEmpty then []
    else d.names.filterMap fun name => ((facts.defs.get? name).bind keyOf).map (g.pair p)
  | none => []

namespace DocPair

/-- The two texts of a key. -/
def docs (unit : String) (x : DocPair) : List Doc :=
  [⟨some x.key, unit, .html, Comment.toHtml x.text, x.file, x.span⟩,
    ⟨some x.key, unit, .plain, x.text, x.file, x.span⟩]

/-- The first text for each key, as text, of those that are not taken. -/
def firsts : (taken : List String) → List DocPair → List DocPair
  | _, [] => []
  | taken, x :: rest =>
    if x.key.text ∈ taken then firsts taken rest else x :: firsts (x.key.text :: taken) rest

variable {taken taken' : List String} {xs ys : List DocPair} {x : DocPair}

/-- Only which keys are taken matters. -/
theorem firsts_congr (h : ∀ text, text ∈ taken ↔ text ∈ taken') :
    firsts taken xs = firsts taken' xs := by
  induction xs generalizing taken taken' with
  | nil => rfl
  | cons x rest ih =>
    unfold firsts
    by_cases hx : x.key.text ∈ taken
    · rw [if_pos hx, if_pos ((h _).mp hx), ih h]
    · rw [if_neg hx, if_neg fun hx' => hx ((h _).mpr hx')]
      refine congrArg (x :: ·) (ih fun text => ?_)
      rw [List.mem_cons, List.mem_cons, h]

/-- Of two lists one after the other, the second keeps the first texts for keys that neither are
taken nor stand in the first list. -/
theorem firsts_append : firsts taken (xs ++ ys) =
    firsts taken xs ++ firsts (taken ++ xs.map (·.key.text)) ys := by
  induction xs generalizing taken with
  | nil => rw [List.map_nil, List.append_nil]; rfl
  | cons x rest ih =>
    rw [List.cons_append, firsts, firsts]
    by_cases hx : x.key.text ∈ taken
    · rw [if_pos hx, if_pos hx, ih]
      refine congrArg (_ ++ ·) (firsts_congr fun text => ?_)
      simp only [List.map_cons, List.mem_append, List.mem_cons]
      constructor
      · exact Or.imp_right .inr
      · rintro (htaken | rfl | hrest)
        · exact .inl htaken
        · exact .inl hx
        · exact .inr hrest
    · rw [if_neg hx, if_neg hx, ih, List.cons_append]
      refine congrArg (x :: _ ++ ·) (firsts_congr fun text => ?_)
      simp only [List.map_cons, List.mem_append, List.mem_cons]
      tauto

/-- A text for a key that is not taken is kept. -/
theorem firsts_singleton (h : x.key.text ∉ taken) : firsts taken [x] = [x] := by
  rw [firsts, if_neg h]
  rfl

/-- If all keys are taken, no text is kept. -/
theorem firsts_eq_nil (h : ∀ x ∈ xs, x.key.text ∈ taken) : firsts taken xs = [] := by
  induction xs with
  | nil => rfl
  | cons x rest ih =>
    rw [firsts, if_pos (h x List.mem_cons_self)]
    exact ih fun y hy => h y (List.mem_cons_of_mem _ hy)

/-- What is kept is not taken, and is the first text for its key. -/
theorem find?_of_mem_firsts (h : x ∈ firsts taken xs) :
    x.key.text ∉ taken ∧ xs.find? (fun y => y.key.text == x.key.text) = some x := by
  induction xs generalizing taken with
  | nil => cases h
  | cons y rest ih =>
    unfold firsts at h
    by_cases hy : y.key.text ∈ taken
    · rw [if_pos hy] at h
      obtain ⟨hx, hfind⟩ := ih h
      refine ⟨hx, ?_⟩
      rw [List.find?_cons_of_neg, hfind]
      intro heq
      exact hx (beq_iff_eq.mp heq ▸ hy)
    · rw [if_neg hy] at h
      rcases List.mem_cons.mp h with rfl | h
      · exact ⟨hy, List.find?_cons_of_pos (beq_self_eq_true _)⟩
      · obtain ⟨hx, hfind⟩ := ih h
        rw [List.mem_cons, not_or] at hx
        refine ⟨hx.2, ?_⟩
        rw [List.find?_cons_of_neg, hfind]
        intro heq
        exact hx.1 (beq_iff_eq.mp heq).symm

/-- No two texts that are kept have one key. -/
theorem nodup_firsts : ((firsts taken xs).map (·.key.text)).Nodup := by
  induction xs generalizing taken with
  | nil => exact List.nodup_nil
  | cons x rest ih =>
    unfold firsts
    split
    · exact ih
    · refine List.nodup_cons.mpr ⟨fun hmem => ?_, ih⟩
      obtain ⟨y, hy, heq⟩ := List.mem_map.mp hmem
      exact (find?_of_mem_firsts hy).1 (heq ▸ List.mem_cons_self)

/-- Every key that there is a text for is taken, or one text for it is kept. -/
theorem taken_or_exists_mem_firsts (h : x ∈ xs) :
    x.key.text ∈ taken ∨ ∃ y ∈ firsts taken xs, y.key.text = x.key.text := by
  induction xs generalizing taken with
  | nil => cases h
  | cons y rest ih =>
    unfold firsts
    by_cases hy : y.key.text ∈ taken
    · rw [if_pos hy]
      rcases List.mem_cons.mp h with rfl | h
      · exact .inl hy
      · exact ih h
    · rw [if_neg hy]
      rcases List.mem_cons.mp h with rfl | h
      · exact .inr ⟨x, List.mem_cons_self, rfl⟩
      · rcases @ih (y.key.text :: taken) h with htaken | ⟨z, hz, heq⟩
        · rcases List.mem_cons.mp htaken with heq | htaken
          · exact .inr ⟨y, List.mem_cons_self, heq.symm⟩
          · exact .inl htaken
        · exact .inr ⟨z, List.mem_cons_of_mem _ hz, heq⟩

end DocPair

/-! ## The texts of a package -/

/-- A joined text that begins with a piece of text has text. -/
theorem joinStrings_ne_empty {sep piece : String} {rest : List String} (h : piece ≠ "") :
    Text.joinStrings sep (piece :: rest) ≠ "" := by
  cases rest with
  | nil => exact h
  | cons next rest =>
    intro heq
    unfold Text.joinStrings at heq
    exact h (String.append_eq_empty_iff.mp (String.append_eq_empty_iff.mp heq).1).1

namespace Program

/-- What the files of a package say about it. -/
def fileTexts (p : Program) (files : List NodeId) : List String :=
  ((files.filterMap p.tree.fileDoc?).map CommentGroup.text).filter fun t => !t.isEmpty

/-- What the files of a package say about it, in one text for its key. -/
def packagePair? (p : Program) (unit : String) (files : List NodeId) : Option DocPair :=
  if (p.fileTexts files).isEmpty then none
  else some ⟨.ofPackage unit, Text.joinStrings "\n" (p.fileTexts files), "", .zero⟩

/-- All texts for the keys of what nodes declare under comments. -/
def offers (p : Program) (facts : Facts) (keyOf : ObjectId → Option DefKey)
    (nodes : List NodeId) : List DocPair :=
  (nodes.flatMap p.tree.commented).flatMap (Commented.pairs p facts keyOf)

/-- The texts of a package with keys: what its files say about it, and the first text for each other
key. -/
def textPairs (p : Program) (unit : String) (facts : Facts) (keyOf : ObjectId → Option DefKey)
    (files nodes : List NodeId) : List DocPair :=
  (p.packagePair? unit files).toList ++
    DocPair.firsts [(DefKey.ofPackage unit).text] (p.offers facts keyOf nodes)

/-- A comment group that belongs to nothing, as a text without a key. -/
def floatingDoc (p : Program) (unit : String) (g : CommentGroup) : Doc :=
  ⟨none, unit, .plain, g.text, p.sources.name g.file, g.range.span⟩

/-- The name of the file that a node stands in. -/
def fileNameOf (p : Program) (node : NodeId) : String :=
  match p.tree.file node with
  | .ok file => p.sources.name file
  | .error _ => ""

/-- Files are put in the order of their names; those with one name stay in the order that they
had. -/
structure NameOrdered (p : Program) (files ordered : List NodeId) : Prop where
  perm : ordered.Perm files
  sorted : ordered.Pairwise fun a b => p.fileNameOf a ≤ p.fileNameOf b
  stable : ∀ name, ordered.filter (fun file => p.fileNameOf file == name) =
    files.filter fun file => p.fileNameOf file == name

/-- Sorting files by name puts them in the order of their names. -/
theorem nameOrdered_mergeSort (p : Program) (files : List NodeId) :
    p.NameOrdered files (files.mergeSort fun a b => !decide (p.fileNameOf b < p.fileNameOf a)) := by
  have hle : (fun a b => !decide (p.fileNameOf b < p.fileNameOf a)) =
      fun a b => decide (p.fileNameOf a ≤ p.fileNameOf b) := by
    funext a b
    rw [← decide_not, decide_eq_decide]
    exact String.not_lt
  rw [hle]
  have htrans : ∀ a b c : NodeId, decide (p.fileNameOf a ≤ p.fileNameOf b) = true →
      decide (p.fileNameOf b ≤ p.fileNameOf c) = true →
      decide (p.fileNameOf a ≤ p.fileNameOf c) = true := by
    intro a b c hab hbc
    exact decide_eq_true (String.le_trans (of_decide_eq_true hab) (of_decide_eq_true hbc))
  have htotal : ∀ a b : NodeId, (decide (p.fileNameOf a ≤ p.fileNameOf b) ||
      decide (p.fileNameOf b ≤ p.fileNameOf a)) = true := by
    intro a b
    simpa using String.le_total (p.fileNameOf a) (p.fileNameOf b)
  have hperm := List.mergeSort_perm files fun a b => decide (p.fileNameOf a ≤ p.fileNameOf b)
  have hsorted := List.pairwise_mergeSort htrans htotal files
  refine ⟨hperm, hsorted.imp of_decide_eq_true, fun name => ?_⟩
  -- files of one name are in order, so that sorting keeps them as they are
  have hordered : (files.filter fun file => p.fileNameOf file == name).Pairwise
      fun a b => decide (p.fileNameOf a ≤ p.fileNameOf b) = true := by
    refine List.pairwise_iff_forall_sublist.mpr fun {a b} hsub => decide_eq_true ?_
    have ha := (List.mem_filter.mp (hsub.subset List.mem_cons_self)).2
    have hb := (List.mem_filter.mp (hsub.subset (List.mem_cons_of_mem _ List.mem_cons_self))).2
    have hsame := (eq_of_beq ha).trans (eq_of_beq hb).symm
    exact hsame ▸ String.le_refl (p.fileNameOf a)
  have hsub := (List.sublist_mergeSort htrans htotal hordered List.filter_sublist).filter
    fun file => p.fileNameOf file == name
  rw [List.filter_filter] at hsub
  simp only [Bool.and_self] at hsub
  exact (hsub.eq_of_length (hperm.filter _).length_eq.symm).symm

/-- What is said about the package is no empty text. -/
theorem packagePair?_eq_some {p : Program} {unit : String} {files : List NodeId} {x : DocPair}
    (h : p.packagePair? unit files = some x) : x.key = .ofPackage unit ∧ x.text ≠ "" := by
  unfold packagePair? at h
  split at h
  · cases h
  · rename_i hsome
    cases h
    refine ⟨rfl, ?_⟩
    cases htexts : p.fileTexts files with
    | nil => exact absurd (List.isEmpty_iff.mpr htexts) hsome
    | cons first rest =>
      have hfirst : first ∈ p.fileTexts files := htexts ▸ List.mem_cons_self
      refine joinStrings_ne_empty fun heq => ?_
      have hnonempty := (List.mem_filter.mp hfirst).2
      rw [heq] at hnonempty
      exact absurd hnonempty (by decide)

/-- What is offered for a key is no empty text. -/
theorem text_ne_empty_of_mem_offers {p : Program} {facts : Facts}
    {keyOf : ObjectId → Option DefKey} {nodes : List NodeId} {x : DocPair}
    (h : x ∈ p.offers facts keyOf nodes) : x.text ≠ "" := by
  obtain ⟨d, -, hx⟩ := List.mem_flatMap.mp h
  unfold Commented.pairs at hx
  split at hx
  · split at hx
    · cases hx
    · rename_i hsome
      obtain ⟨name, -, hname⟩ := List.mem_filterMap.mp hx
      obtain ⟨key, -, rfl⟩ := Option.map_eq_some_iff.mp hname
      exact fun heq => hsome (String.isEmpty_iff.mpr heq)
  · cases hx

end Program

end SymbolGraph
