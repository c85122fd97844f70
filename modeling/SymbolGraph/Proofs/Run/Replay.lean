import SymbolGraph.Proofs.Run.KnownKeys
import SymbolGraph.Session

/-!
# Runs with known keys

Graphing a package looks up keys and makes them known. A key that is known already is not looked
for again, although the key of another package's field depends on what was selected when it was
first looked for. Here it is shown that keys known from earlier runs of a session change no
outcome.

Let `F` be the keys that a run knows in the end when it starts with none. Started with keys that
lie between those of its own start and `F`, the run takes the same steps (`Replays`): a key that
it finds known is one that it would have made known itself, since an object that has no key at
one time has none at any (`objectKey?_none_of_none`), so that the first key found is the one in
`F`. Every step of a run replays in this way (`MadeOf.replays`). A session therefore only ever
knows, of each package, keys that a run on its own would make known (`Session.Warranted`), and
the main statement `graphEach_fst_eq_map_fresh` follows.
-/

namespace SymbolGraph

open KeyStore Emit

variable {α β : Type} {c : GraphContext}

/-! ## Steps that replay -/

/-- A step does the same when more keys are known at its start, as long as those are keys that
the run it belongs to has in the end (`last`). A fault ends the run. -/
def Replays (c : GraphContext) (m : Emit α) : Prop :=
  ∀ (last keys : KeyStore) (s : Emission), c.Found .empty last →
    PartOf c.package.pkg (endState (m s)).keys last →
    (∀ f t, m s = .error f t → PartOf c.package.pkg last t.keys) →
    PartOf c.package.pkg s.keys keys → PartOf c.package.pkg keys last →
    ∃ keys', m (s.withKeys keys) = withKeys keys' (m s) ∧
      PartOf c.package.pkg (endState (m s)).keys keys' ∧ PartOf c.package.pkg keys' last ∧
      ∀ pkg obj, pkg ≠ c.package.pkg → keys'.find? pkg obj = keys.find? pkg obj

namespace Replays

/-- A step that neither reads nor changes what is known. -/
theorem of_keyless {m : Emit α} (hkeys : ∀ s, (endState (m s)).keys = s.keys)
    (hsame : ∀ s keys, m (s.withKeys keys) = withKeys keys (m s)) : Replays c m := by
  intro last keys s _ _ _ hlow hhigh
  refine ⟨keys, hsame s keys, ?_, hhigh, fun _ _ _ => rfl⟩
  rw [hkeys]
  exact hlow

/-- A value replays. -/
protected theorem pure (a : α) : Replays c (pure a) :=
  of_keyless (fun _ => rfl) fun _ _ => rfl

/-- A question replays, since it has nothing to do with keys. -/
protected theorem ask (answer : Except Fault α) : Replays c (ask answer) := by
  cases answer with
  | ok a => exact Replays.pure a
  | error f => exact of_keyless (fun _ => rfl) fun _ _ => rfl

/-- A change replays, since none adds keys. -/
protected theorem change (change : Change) : Replays c (modify change.apply : Emit Unit) := by
  refine of_keyless change.apply_keys fun s keys => ?_
  rw [modify_apply, modify_apply, change.apply_withKeys]
  rfl

/-- One step after another, where the second loses no keys. -/
protected theorem bind {m : Emit α} {next : α → Emit β} (hm : Replays c m)
    (hgrows : ∀ a t, PartOf c.package.pkg t.keys (endState (next a t)).keys)
    (hnext : ∀ a, Replays c (next a)) : Replays c (m >>= next) := by
  intro last keys s hlast hend hfault hlow hhigh
  cases h : m s with
  | error f t =>
    rw [bind_of_error h] at hend hfault ⊢
    obtain ⟨keys', hrun, hrest⟩ := hm last keys s hlast (by rw [h]; exact hend)
      (by rw [h]; intro g u hu; cases hu; exact hfault f t rfl) hlow hhigh
    rw [h] at hrun hrest
    exact ⟨keys', bind_of_error hrun, hrest⟩
  | ok a t =>
    rw [bind_of_ok h] at hend hfault ⊢
    obtain ⟨mid, hrun, hlow', hhigh', hother⟩ := hm last keys s hlast
      (by rw [h]; exact (hgrows a t).trans hend) (by rw [h]; intro f u hu; cases hu) hlow hhigh
    rw [h] at hrun hlow'
    obtain ⟨keys', hrun', hlow'', hhigh'', hother'⟩ :=
      hnext a last mid t hlast hend hfault hlow' hhigh'
    refine ⟨keys', ?_, hlow'', hhigh'', fun pkg obj hne => ?_⟩
    · rw [bind_of_ok hrun, hrun']
    · rw [hother' pkg obj hne, hother pkg obj hne]

/-- A look at what has been found, as long as what is done next does not hang on the keys. -/
protected theorem look {next : Emission → Emit α} (hnext : ∀ s, Replays c (next s))
    (hsame : ∀ s keys, next (s.withKeys keys) = next s) :
    Replays c ((get : Emit Emission) >>= next) := by
  intro last keys s hlast hend hfault hlow hhigh
  rw [get_bind_apply] at hend hfault ⊢
  rw [get_bind_apply, hsame]
  exact hnext s last keys s hlast hend hfault hlow hhigh

/-- The one step that looks at the known keys. -/
protected theorem keyOf (obj : ObjectId) : Replays c (c.keyOf obj) := by
  intro last keys s hlast hend hfault hlow hhigh
  rw [GraphContext.keyOf_apply] at hend hfault ⊢
  rw [GraphContext.keyOf_apply, Emission.withKeys_keys]
  cases hs : s.keys.find? c.package.pkg obj with
  | some k =>
    rw [hlow obj k hs]
    exact ⟨keys, rfl, hlow, hhigh, fun _ _ _ => rfl⟩
  | none =>
    rw [hs] at hend hfault
    cases hkeys : keys.find? c.package.pkg obj with
    | some known =>
      -- known from an earlier run: the run itself would find the same key here
      have hknown := hhigh obj known hkeys
      cases hk : c.objectKey? s.selected obj with
      | error f =>
        rw [hk] at hfault
        have := hfault f s rfl obj known hknown
        rw [hs] at this
        cases this
      | ok k? =>
        cases k? with
        | none =>
          rcases hlast obj known hknown with hbase | ⟨selected, hfound⟩
          · rw [find?_empty] at hbase
            cases hbase
          · rw [GraphContext.objectKey?_none_of_none hk selected] at hfound
            cases hfound
        | some k =>
          rw [hk] at hend
          have hsame := hend obj k (find?_install_self k hs)
          rw [hknown] at hsame
          cases hsame
          exact ⟨keys, rfl, hlow.install_left hkeys, hhigh, fun _ _ _ => rfl⟩
    | none =>
      rw [Emission.withKeys_selected]
      cases hk : c.objectKey? s.selected obj with
      | error f => exact ⟨keys, rfl, hlow, hhigh, fun _ _ _ => rfl⟩
      | ok k? =>
        cases k? with
        | none => exact ⟨keys, rfl, hlow, hhigh, fun _ _ _ => rfl⟩
        | some k =>
          rw [hk] at hend
          have hlast := hend obj k (find?_install_self k hs)
          refine ⟨keys.install c.package.pkg obj k, rfl, ?_, hhigh.install_left hlast, ?_⟩
          · exact (hlow.trans (PartOf.install _ _ _ _ _)).install_left
              (find?_install_self k hkeys)
          · intro pkg o hne
            exact find?_install_of_ne k fun h => hne (by cases h; rfl)

end Replays

/-- Every step that is made of the pieces of a run replays. -/
theorem MadeOf.replays {allowed : Change → Prop} {m : Emit α} (h : MadeOf c allowed m) :
    Replays c m := by
  induction h with
  | pure a => exact .pure a
  | ask answer => exact .ask answer
  | keyOf obj => exact .keyOf obj
  | change _ => exact .change _
  | bind _ hnext ih ihNext => exact .bind ih (fun a t => (hnext a).grows t) ihNext
  | look _ hsame ih => exact .look ih hsame

/-! ## Whole runs -/

/-- The keys that a run leaves are those of the state it ends in, also when it ends in a fault. -/
theorem outcome_snd (r : EStateM.Result Fault Emission Unit) :
    (Program.outcome r).2 = (endState r).keys := by
  cases r with
  | error f s => rfl
  | ok a s =>
    unfold Program.outcome
    dsimp only
    cases s.error <;> rfl

/-- What a run returns has nothing to do with the keys that it ends with. -/
theorem outcome_withKeys_fst (keys : KeyStore) (r : EStateM.Result Fault Emission Unit) :
    (Program.outcome (withKeys keys r)).1 = (Program.outcome r).1 := by
  cases r with
  | error f s => rfl
  | ok a s =>
    show (Program.outcome (.ok a (s.withKeys keys))).1 = _
    unfold Program.outcome Emission.withKeys
    dsimp only
    cases s.error <;> rfl

/-- Keys that a run on its own makes known in the end do not change its outcome, and what it
makes known beside them are more of the same. -/
theorem graph_of_partOf (p : Program) (package : CheckedPackage) (options : GraphOptions)
    {keys : KeyStore} (h : PartOf package.pkg keys (p.graph package options .empty).2) :
    (p.graph package options keys).1 = (p.graph package options .empty).1 ∧
      PartOf package.pkg (p.graph package options keys).2
        (p.graph package options .empty).2 ∧
      ∀ pkg obj, pkg ≠ package.pkg →
        (p.graph package options keys).2.find? pkg obj = keys.find? pkg obj := by
  unfold Program.graph at h ⊢
  dsimp only at h ⊢
  split
  · rename_i hprepared
    rw [hprepared] at h
    exact ⟨rfl, h, fun _ _ _ => rfl⟩
  · rename_i owner placement hprepared
    rw [hprepared] at h
    dsimp only at h
    split
    · rename_i hempty
      rw [if_pos hempty] at h
      exact ⟨rfl, h, fun _ _ _ => rfl⟩
    · rename_i hempty
      rw [if_neg hempty] at h
      cases hc : p.graphContext package owner.path placement with
      | error f =>
        rw [hc] at h
        exact ⟨rfl, h, fun _ _ _ => rfl⟩
      | ok c =>
        rw [hc] at h
        dsimp only at h ⊢
        obtain ⟨places, -, hplaces⟩ := bind_eq_ok_iff.mp hc
        cases hplaces
        rw [outcome_snd] at h
        have hrun := (madeOf_emitAll ⟨p, package, owner.path, placement, places⟩
          options.includeDocs).replays
        have hfound := (madeOf_emitAll ⟨p, package, owner.path, placement, places⟩
          options.includeDocs).found .empty (.start .empty) fun obj k hk => by cases hk
        obtain ⟨keys', hsame, -, hhigh, hother⟩ := hrun _ keys (.start .empty) hfound
          (PartOf.refl _ _) (fun f t ht => by rw [ht]; exact PartOf.refl _ _)
          (PartOf.of_empty _ _) h
        change Program.emitAll _ _ (.start keys) = _ at hsame
        rw [hsame, outcome_withKeys_fst, outcome_snd, outcome_snd]
        refine ⟨rfl, ?_, ?_⟩
        · cases hr : Program.emitAll ⟨p, package, owner.path, placement, places⟩
            options.includeDocs (.start .empty) <;> (rw [hr] at hhigh; exact hhigh)
        · cases hr : Program.emitAll ⟨p, package, owner.path, placement, places⟩
            options.includeDocs (.start .empty) <;> exact hother

/-! ## Sessions -/

namespace Session

/-- Graphs packages one after another, whatever each of them ends in. -/
def graphEach (c : SessionContext) : Session → List CheckedPackage → List GraphOutcome × Session
  | s, [] => ([], s)
  | s, package :: rest =>
    let (outcome, next) := s.graph c package
    let (outcomes, last) := graphEach c next rest
    (outcome :: outcomes, last)

/-- The only package of a session is graphed as on its own. -/
theorem graphEach_singleton (c : SessionContext) (package : CheckedPackage) :
    (initial.graphEach c [package]).1 = [(c.program.graph package c.options .empty).1] ∧
      (initial.graphEach c [package]).2.keys = (c.program.graph package c.options .empty).2 :=
  ⟨rfl, rfl⟩

/-- The keys known of some packages are ones that a run on its own makes known. -/
def Warranted (c : SessionContext) (packages : List CheckedPackage) (s : Session) : Prop :=
  ∀ package ∈ packages,
    PartOf package.pkg s.keys (c.program.graph package c.options .empty).2

/-- The packages of some calls do not contradict each other: there is one set of tables for
each package number. -/
def OneEach (packages : List CheckedPackage) : Prop :=
  ∀ a ∈ packages, ∀ b ∈ packages, a.pkg = b.pkg → a = b

/-- A session that has graphed nothing knows no keys. -/
theorem warranted_initial (c : SessionContext) (packages : List CheckedPackage) :
    Warranted c packages initial := fun _ _ => PartOf.of_empty _ _

/-- A package is graphed in a session with such keys as on its own. -/
theorem graph_fst_of_warranted {c : SessionContext} {packages : List CheckedPackage}
    {s : Session} (hs : Warranted c packages s) {package : CheckedPackage}
    (hmem : package ∈ packages) : (s.graph c package).1 = (initial.graph c package).1 :=
  (graph_of_partOf c.program package c.options (hs package hmem)).1

/-- Graphing one of the packages adds only keys that a run on its own makes known. -/
theorem Warranted.graph {c : SessionContext} {packages : List CheckedPackage} {s : Session}
    (hs : Warranted c packages s) (hone : OneEach packages) {package : CheckedPackage}
    (hmem : package ∈ packages) : Warranted c packages (s.graph c package).2 := by
  intro q hq
  obtain ⟨-, hpart, hother⟩ := graph_of_partOf c.program package c.options (hs package hmem)
  by_cases hpkg : q.pkg = package.pkg
  · rw [hone q hq package hmem hpkg]
    exact hpart
  · intro obj k hk
    refine hs q hq obj k ?_
    rw [← hother q.pkg obj hpkg]
    exact hk

/-- Graphing some of the packages in a row adds only such keys. -/
theorem Warranted.graphEach {c : SessionContext} {packages : List CheckedPackage} {s : Session}
    (hs : Warranted c packages s) (hone : OneEach packages) (calls : List CheckedPackage)
    (hcalls : ∀ q ∈ calls, q ∈ packages) : Warranted c packages (s.graphEach c calls).2 := by
  induction calls generalizing s with
  | nil => exact hs
  | cons package rest ih =>
    exact ih (hs.graph hone (hcalls package List.mem_cons_self))
      fun q hq => hcalls q (List.mem_cons_of_mem _ hq)

/-- In a session with such keys all calls return what they return on their own. -/
theorem graphEach_fst_of_warranted {c : SessionContext} {packages : List CheckedPackage}
    (hone : OneEach packages) {s : Session} (hs : Warranted c packages s)
    (calls : List CheckedPackage) (hcalls : ∀ q ∈ calls, q ∈ packages) :
    (s.graphEach c calls).1 = calls.map fun package => (initial.graph c package).1 := by
  induction calls generalizing s with
  | nil => rfl
  | cons package rest ih =>
    have hmem := hcalls package List.mem_cons_self
    rw [List.map_cons, ← graph_fst_of_warranted hs hmem,
      ← ih (hs.graph hone hmem) fun q hq => hcalls q (List.mem_cons_of_mem _ hq)]
    rfl

/-- **The history of a session changes no graph.** However packages are graphed one after
another in one session, repeatedly and whatever each call ends in, every call has the outcome
that it has in a session of its own. Where labels are drawn at random this holds of calls that
draw the same numbers: the draws are part of the options, which all calls share. -/
theorem graphEach_fst_eq_map_fresh (c : SessionContext) (calls : List CheckedPackage)
    (hone : OneEach calls) :
    (initial.graphEach c calls).1 = calls.map fun package => (initial.graph c package).1 :=
  graphEach_fst_of_warranted hone (warranted_initial c calls) calls fun _ h => h

/-- A session over the package `p`, whose file names the field `f` of the package `q`, and the
package `q`, which has no files. -/
def sample : SessionContext where
  program := {
    sources := ⟨#[⟨"p.go", ""⟩]⟩
    tree := ⟨#[⟨.ident "p", ⟨0⟩, .upTo 1, none⟩, ⟨.ident "f", ⟨0⟩, .upTo 2, none⟩,
      ⟨.file ⟨0⟩ [⟨1⟩] none [], ⟨0⟩, .upTo 2, none⟩]⟩
    objects := #[⟨"f", .field false, some ⟨1⟩, none, none, none⟩]
    types := #[]
    scopes := #[⟨none, [], []⟩, ⟨none, [], []⟩]
    packages := #[⟨"p", "p", ⟨0⟩⟩, ⟨"q", "q", ⟨1⟩⟩] }
  packages := [⟨⟨0⟩, [⟨2⟩], { Facts.empty with uses := ⟨[(⟨1⟩, ⟨0⟩)]⟩ }⟩, .ofId ⟨1⟩]
  options := .standard
  resolver := .ofTree (.ofRoot ⟨"/"⟩)

/-- In the sample a package is graphed, then one that fails, then the first again. -/
theorem graphEach_fst_eq_map_fresh_sample :
    ∃ a b, sample.packages = [a, b] ∧ OneEach [a, b, a] ∧
      (initial.graph sample b).1 = .ok (.error (.emptyPackage "q")) ∧
      ((initial.graph sample a).2.keys.find? ⟨0⟩ ⟨0⟩).isSome ∧
      (initial.graphEach sample [a, b, a]).1 =
        [a, b, a].map fun package => (initial.graph sample package).1 := by
  have hone : ∀ a b : CheckedPackage, a.pkg ≠ b.pkg → OneEach [a, b, a] := by
    intro a b hne x hx y hy hxy
    simp only [List.mem_cons, List.not_mem_nil, or_false] at hx hy
    rcases hx with rfl | rfl | rfl <;> rcases hy with rfl | rfl | rfl <;>
      first | rfl | exact absurd hxy hne | exact absurd hxy.symm hne
  refine ⟨_, _, rfl, hone _ _ (by decide), by rfl, by decide +kernel, ?_⟩
  exact graphEach_fst_eq_map_fresh sample _ (hone _ _ (by decide))

end Session

end SymbolGraph
