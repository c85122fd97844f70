import SymbolGraph.Graph.Placement
import SymbolGraph.Proofs.Text.Elements

/-!
# Words of paths

The components of the paths in a package of one file, before they are written out: names, and
the labels made for functions called `init`, for all but the first function called `_`, for
blocks, and for the file itself. A name has neither a dollar sign nor a slash, so that a word
can be read off the text of a path, whatever the file is called (`text_slash_cancel`), and paths
that are written with slashes alike are alike (`joinStrings_injective`).
-/

namespace SymbolGraph

open Text

/-- A component of a path in a package of one file. -/
inductive Word where
  | name (n : String)
  /-- The function called `_` that is the `i`-th child of its scope. -/
  | blank (i : Nat)
  /-- The function called `init` whose name stands at an offset. -/
  | init (offset : Nat)
  /-- The `i`-th child of a scope. -/
  | block (i : Nat)
  | file
  deriving DecidableEq, Repr

namespace Word

/-- A word as text, given the name of the file without extension. -/
def text (stem : String) : Word → String
  | .name n => n
  | .blank i => "_" ++ ("$" ++ toString i)
  | .init offset => "init" ++ ("$" ++ stem ++ toString offset)
  | .block i => "$" ++ stem ++ toString i
  | .file => "$" ++ stem

/-- A name as the language has them: no dollar sign and no slash stands in it. -/
def Plain (n : String) : Prop := '$' ∉ n.toList ∧ '/' ∉ n.toList

/-- Names in words are plain. -/
def Good : Word → Prop
  | .name n => Plain n
  | _ => True

/-! ### Reading words off a text -/

/-- A text without dollar sign before its first slash does not have one there. -/
theorem slash_ne_dollar {x y u v : List Char} (hx : '$' ∉ x) (hy : '/' ∉ y) :
    x ++ '/' :: u ≠ y ++ '$' :: v := by
  intro h
  induction x generalizing y with
  | nil =>
    cases y with
    | nil => exact absurd (List.head_eq_of_cons_eq h) (by decide)
    | cons b y =>
      obtain rfl : '/' = b := List.head_eq_of_cons_eq h
      exact hy List.mem_cons_self
  | cons a x ih =>
    cases y with
    | nil =>
      obtain rfl : a = '$' := List.head_eq_of_cons_eq h
      exact hx List.mem_cons_self
    | cons b y =>
      exact ih (fun hm => hx (List.mem_cons_of_mem _ hm))
        (fun hm => hy (List.mem_cons_of_mem _ hm)) (List.tail_eq_of_cons_eq h)

/-- No slash stands in a number. -/
theorem slash_not_mem_toString (n : Nat) : '/' ∉ (toString n).toList := by
  intro h
  rw [Nat.toString_eq_repr, Nat.toList_repr] at h
  exact absurd (Nat.isDigit_of_mem_toDigits (by decide) (by decide) h) (by decide)

/-- Different numbers are written differently. -/
theorem toString_injective {m n : Nat} (h : (toString m).toList = (toString n).toList) :
    m = n := by
  rw [Nat.toString_eq_repr, Nat.toString_eq_repr, Nat.toList_repr, Nat.toList_repr] at h
  rw [← Nat.ofDigitChars_ten_toDigits (n := m), h, Nat.ofDigitChars_ten_toDigits]

/-- A number before a slash can be read off. -/
theorem toString_slash_cancel {m n : Nat} {u v : List Char}
    (h : (toString m).toList ++ '/' :: u = (toString n).toList ++ '/' :: v) : m = n ∧ u = v := by
  obtain ⟨hmn, huv⟩ := separator_cancel (slash_not_mem_toString m) (slash_not_mem_toString n) h
  exact ⟨toString_injective hmn, huv⟩

/-- A number is written with a digit at least. -/
theorem toString_slash_ne_slash (n : Nat) (u v : List Char) :
    (toString n).toList ++ '/' :: u ≠ '/' :: v := by
  intro h
  obtain ⟨hnil, -⟩ := separator_cancel (y := []) (slash_not_mem_toString n) List.not_mem_nil h
  rw [Nat.toString_eq_repr, Nat.toList_repr] at hnil
  exact Nat.toDigits_ne_nil hnil

/-- What stands before the first dollar sign of a word that is no name. -/
def lead : Word → List Char
  | .blank _ => ['_']
  | .init _ => ['i', 'n', 'i', 't']
  | _ => []

/-- What stands after the first dollar sign of a word that is no name. -/
def tail (stem : String) : Word → List Char
  | .name _ => []
  | .blank i => (toString i).toList
  | .init offset => stem.toList ++ (toString offset).toList
  | .block i => stem.toList ++ (toString i).toList
  | .file => stem.toList

/-- A word that is no name has a dollar sign, which is between its two parts. -/
theorem toList_text {stem : String} {w : Word} (h : ∀ n, w ≠ .name n) :
    (w.text stem).toList = w.lead ++ '$' :: w.tail stem := by
  cases w with
  | name n => exact absurd rfl (h n)
  | blank i => simp [text, lead, tail]
  | init offset => simp [text, lead, tail]
  | block i => simp [text, lead, tail]
  | file => simp [text, lead, tail]

/-- No slash stands before the dollar sign. -/
theorem slash_not_mem_lead (w : Word) : '/' ∉ w.lead := by
  cases w <;> simp [lead]

/-- If no slash stands in the name of the file, none stands in a word. -/
theorem slash_not_mem_text {stem : String} {w : Word} (hstem : '/' ∉ stem.toList) (hw : w.Good) :
    '/' ∉ (w.text stem).toList := by
  cases w with
  | name n => exact hw.2
  | blank i => simpa [text] using slash_not_mem_toString i
  | init offset => simpa [text, hstem] using slash_not_mem_toString offset
  | block i => simpa [text, hstem] using slash_not_mem_toString i
  | file => simpa [text] using hstem

/-- A name does not go on like another word. -/
theorem name_slash_ne_text {stem n : String} {w : Word} {u v : List Char} (hn : Plain n)
    (hw : ∀ n, w ≠ .name n) : n.toList ++ '/' :: u ≠ (w.text stem).toList ++ '/' :: v := by
  rw [toList_text hw, List.append_assoc, List.cons_append]
  exact slash_ne_dollar hn.1 (slash_not_mem_lead w)

/-- The first word can be read off a text in one way only. -/
theorem text_slash_cancel {stem : String} {w w' : Word} {u v : List Char} (hw : w.Good)
    (hw' : w'.Good)
    (h : (w.text stem).toList ++ '/' :: u = (w'.text stem).toList ++ '/' :: v) :
    w = w' ∧ u = v := by
  by_cases hname : ∃ n, w = .name n
  · obtain ⟨n, rfl⟩ := hname
    by_cases hname' : ∃ n', w' = .name n'
    · obtain ⟨n', rfl⟩ := hname'
      obtain ⟨hnames, huv⟩ := separator_cancel hw.2 hw'.2 h
      exact ⟨congrArg Word.name (String.toList_inj.mp hnames), huv⟩
    · exact absurd h (name_slash_ne_text hw fun n' hn' => hname' ⟨n', hn'⟩)
  · by_cases hname' : ∃ n', w' = .name n'
    · obtain ⟨n', rfl⟩ := hname'
      exact absurd h.symm (name_slash_ne_text hw' fun n hn => hname ⟨n, hn⟩)
    · rw [toList_text fun n hn => hname ⟨n, hn⟩, toList_text fun n hn => hname' ⟨n, hn⟩] at h
      cases w with
      | name n => exact absurd ⟨n, rfl⟩ hname
      | blank i =>
        cases w' with
        | name n => exact absurd ⟨n, rfl⟩ hname'
        | blank j =>
          obtain ⟨rfl, huv⟩ := toString_slash_cancel (by simpa [lead, tail] using h)
          exact ⟨rfl, huv⟩
        | init _ => simp [lead] at h
        | block _ => simp [lead] at h
        | file => simp [lead] at h
      | init offset =>
        cases w' with
        | name n => exact absurd ⟨n, rfl⟩ hname'
        | init offset' =>
          obtain ⟨rfl, huv⟩ := toString_slash_cancel (by simpa [lead, tail] using h)
          exact ⟨rfl, huv⟩
        | blank _ => simp [lead] at h
        | block _ => simp [lead] at h
        | file => simp [lead] at h
      | block i =>
        cases w' with
        | name n => exact absurd ⟨n, rfl⟩ hname'
        | block j =>
          obtain ⟨rfl, huv⟩ := toString_slash_cancel (by simpa [lead, tail] using h)
          exact ⟨rfl, huv⟩
        | file =>
          exact absurd (by simpa [lead, tail] using h) (toString_slash_ne_slash i u v)
        | blank _ => simp [lead] at h
        | init _ => simp [lead] at h
      | file =>
        cases w' with
        | name n => exact absurd ⟨n, rfl⟩ hname'
        | file => exact ⟨rfl, by simpa [lead, tail] using h⟩
        | block j =>
          exact absurd (by simpa [lead, tail] using h.symm) (toString_slash_ne_slash j v u)
        | blank _ => simp [lead] at h
        | init _ => simp [lead] at h

/-! ### Paths -/

/-- The path that is made of words, the innermost of which comes first. -/
def render (stem : String) (ws : List Word) : DefPath := ws.reverse.map (text stem)

/-- The innermost word is the last of the path. -/
theorem render_cons (stem : String) (w : Word) (ws : List Word) :
    render stem (w :: ws) = render stem ws ++ [w.text stem] := by
  simp [render]

/-- The text of a path with a slash after each component. -/
def slashed (path : DefPath) : List Char := path.flatMap fun part => part.toList ++ ['/']

/-- A path that ends each word with a slash is the joined path with a slash at its end. -/
theorem slashed_eq (path : DefPath) (h : path ≠ []) :
    slashed path = (joinStrings "/" path).toList ++ ['/'] := by
  induction path with
  | nil => exact absurd rfl h
  | cons part rest ih =>
    cases rest with
    | nil => simp [slashed, joinStrings]
    | cons next rest =>
      have hrest := ih (List.cons_ne_nil next rest)
      unfold slashed at hrest ⊢
      rw [List.flatMap_cons, hrest]
      simp [joinStrings]

/-- Words whose texts with slashes are the same are the same words. -/
theorem slashed_injective {stem : String} {ws ws' : List Word} (hws : ∀ w ∈ ws, w.Good)
    (hws' : ∀ w ∈ ws', w.Good)
    (h : slashed (ws.map (text stem)) = slashed (ws'.map (text stem))) : ws = ws' := by
  induction ws generalizing ws' with
  | nil =>
    cases ws' with
    | nil => rfl
    | cons w' ws' => simp [slashed] at h
  | cons w ws ih =>
    cases ws' with
    | nil => simp [slashed] at h
    | cons w' ws' =>
      have hparts : (w.text stem).toList ++ '/' :: slashed (ws.map (text stem)) =
          (w'.text stem).toList ++ '/' :: slashed (ws'.map (text stem)) := by
        simpa [slashed] using h
      obtain ⟨rfl, hrest⟩ := text_slash_cancel (hws w List.mem_cons_self)
        (hws' w' List.mem_cons_self) hparts
      rw [ih (fun v hv => hws v (List.mem_cons_of_mem _ hv))
        (fun v hv => hws' v (List.mem_cons_of_mem _ hv)) hrest]

/-- Paths of good words that are written alike are made of the same words. -/
theorem joinStrings_injective {stem : String} {ws ws' : List Word} (hws : ∀ w ∈ ws, w.Good)
    (hws' : ∀ w ∈ ws', w.Good) (hne : ws ≠ []) (hne' : ws' ≠ [])
    (h : joinStrings "/" (render stem ws) = joinStrings "/" (render stem ws')) : ws = ws' := by
  have hslashed : slashed (render stem ws) = slashed (render stem ws') := by
    rw [slashed_eq _ (by simpa [render] using hne), slashed_eq _ (by simpa [render] using hne'), h]
  have hreverse := slashed_injective (fun w hw => hws w (List.mem_reverse.mp hw))
    (fun w hw => hws' w (List.mem_reverse.mp hw)) hslashed
  exact List.reverse_inj.mp hreverse

end Word

end SymbolGraph
