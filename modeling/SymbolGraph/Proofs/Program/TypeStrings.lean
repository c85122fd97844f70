import SymbolGraph.Proofs.Placement.Word
import SymbolGraph.Proofs.Program.TypeForms

/-!
# The strings of types

The words of a piece of a type, with what follows them, can be read in one way only (`Cancels`):
one statement for each constructor, put together in `cancels`. So types that differ have strings
with different tokens in Go (`lexemes_text_injective`), the parentheses around the element of a
channel included. A program leaves these out (`bareString_eq_string_iff`), and has Go's strings
for all other types that can be written (`typeText_eq_goString`).
-/

namespace SymbolGraph

namespace TypeSyntax

open Go

variable {k : Piece}

/-! ## Words are read in one way only -/

section Cancel

variable {r s : List (List Char)}

/-- Where the words of a piece stand in front of something, both are read in one way only. -/
def Cancels (a : TypeSyntax k) : Prop := ∀ ⦃b : TypeSyntax k⦄ ⦃r s : List (List Char)⦄,
  b.HasNames → Ends k r → Ends k s → a.words ++ r = b.words ++ s → a = b ∧ r = s

/-- A word that can follow a piece ends it. -/
theorem ends_cons {w : List Char} (h : w ∈ follow k) : Ends k (w :: r) := fun v hv => by
  obtain rfl := Option.some.inj hv
  exact h

/-- What ends a list ends a type in it. -/
theorem Ends.forType (h : Ends k r) : Ends .type r := fun w hw => mem_follow_type (h w hw)

/-- No type begins with a parenthesis. -/
theorem words_append_ne_paren {a : TypeSyntax .type} (h : a.HasNames) (hr : Ends .type r) :
    a.words ++ r ≠ ['('] :: s := fun heq => by
  obtain ⟨w, more, hword, hfirst, -⟩ := exists_words_append h hr
  obtain ⟨rfl, -⟩ := List.cons.inj (hword.symm.trans heq)
  exact hfirst (by decide)

/-- Pieces whose words are read alike have one form. -/
theorem form_eq {a b : TypeSyntax k} (ha : a.HasNames) (hb : b.HasNames) (hr : Ends k r)
    (hs : Ends k s) (h : a.words ++ r = b.words ++ s) : a.form = b.form := by
  rw [← formOf_words ha hr, h, formOf_words hb hs]

/-- What stands between the parts of a list, and the rest of the list. -/
theorem rest_cancel {c : Char} {a b : TypeSyntax k} (ih : a.Cancels) (hb : b.HasNames)
    (hc : [c] ∉ follow k) (hr : Ends k r) (hs : Ends k s)
    (h : a.mark c ++ (a.words ++ r) = b.mark c ++ (b.words ++ s)) : a = b ∧ r = s := by
  cases ha : a.isEmpty with
  | true =>
    cases hempty : b.isEmpty with
    | true => exact ih hb hr hs (by simpa [mark, ha, hempty] using h)
    | false =>
      simp only [mark, ha, hempty, (text_of_isEmpty ha).2, if_true, Bool.false_eq_true, if_false,
        List.nil_append, List.singleton_append] at h
      exact absurd (hr [c] (by rw [h]; rfl)) hc
  | false =>
    cases hempty : b.isEmpty with
    | true =>
      simp only [mark, ha, hempty, (text_of_isEmpty hempty).2, if_true, Bool.false_eq_true,
        if_false, List.nil_append, List.singleton_append] at h
      exact absurd (hs [c] (by rw [← h]; rfl)) hc
    | false => exact ih hb hr hs (by simpa [mark, ha, hempty] using h)

/-- The name of a parameter and what follows it. -/
theorem label_cancel {name name' : Option String} (hsome : name.isSome = name'.isSome)
    (h : labelWords name ++ r = labelWords name' ++ s) : name = name' ∧ r = s := by
  cases name with
  | none =>
    obtain rfl := Option.isSome_eq_false_iff.mp hsome.symm |> Option.isNone_iff_eq_none.mp
    exact ⟨rfl, h⟩
  | some name =>
    obtain ⟨name', rfl⟩ := Option.isSome_iff_exists.mp hsome.symm
    obtain ⟨hname, hrest⟩ := List.cons.inj h
    exact ⟨congrArg some (String.toList_inj.mp hname), hrest⟩

/-- A type in a list and the rest of the list. -/
theorem type_rest_cancel {c : Char} {type type' : TypeSyntax .type} {a b : TypeSyntax k}
    (ihtype : type.Cancels) (ih : a.Cancels) (htype : type'.HasNames) (hb : b.HasNames)
    (hc : [c] ∈ follow .type) (hnot : [c] ∉ follow k) (hr : Ends k r) (hs : Ends k s)
    (h : type.words ++ (a.mark c ++ (a.words ++ r)) = type'.words ++ (b.mark c ++ (b.words ++ s))) :
    type = type' ∧ a = b ∧ r = s := by
  obtain ⟨rfl, hrest⟩ := ihtype htype (hr.type hc) (hs.type hc) h
  exact ⟨rfl, rest_cancel ih hb hnot hr hs hrest⟩

section Results

variable {a b : TypeSyntax .params}

/-- The words of one result without a name are those of its type. -/
theorem resultWords_single (type : TypeSyntax .type) :
    (param none type .noParams).resultWords (param none type .noParams).words = type.words := by
  simp [resultWords, words, labelWords, mark, isEmpty]

/-- Of results without words there are none. -/
theorem noResults_cancel (hb : b.HasNames) (hr : Ends .type r) (hs : Ends .type s)
    (h : r = b.resultWords b.words ++ s) : b = .noParams ∧ r = s := by
  rcases results_cases b with rfl | ⟨type, rfl⟩ | ⟨-, hwords⟩
  · exact ⟨rfl, h⟩
  · obtain ⟨w, more, hword, hfirst, -⟩ := exists_words_append hb.2.1 hs
    have hw : r.head? = some w := by rw [h, resultWords_single, hword, List.head?_cons]
    exact absurd (hr w hw) (not_mem_follow_of_notFirst hfirst)
  · exact absurd (hr ['('] (by simp [h, hwords])) (by decide)

/-- Only one type without a name has the words of a type. -/
theorem singleResult_cancel {type : TypeSyntax .type} (ih : type.Cancels) (ha : type.HasNames)
    (hb : b.HasNames) (hr : Ends .type r) (hs : Ends .type s)
    (h : type.words ++ r = b.resultWords b.words ++ s) :
    .param none type .noParams = b ∧ r = s := by
  obtain ⟨w, more, hword, hfirst, -⟩ := exists_words_append ha hr
  rw [hword] at h
  rcases results_cases b with rfl | ⟨type', rfl⟩ | ⟨-, hwords⟩
  · have hw : s.head? = some w := (congrArg List.head? h).symm
    exact absurd (hs w hw) (not_mem_follow_of_notFirst hfirst)
  · rw [resultWords_single, ← hword] at h
    obtain ⟨rfl, hrest⟩ := ih hb.2.1 hr hs h
    exact ⟨rfl, hrest⟩
  · rw [← hword, hwords] at h
    exact absurd h (words_append_ne_paren ha hr)

/-- Results behind the parameters are read in one way: none, or one type, or a list in parentheses,
which no type begins with. -/
theorem results_cancel (ha : a.HasNames) (hb : b.HasNames) (hr : Ends .type r) (hs : Ends .type s)
    (ih : a.Cancels) (hsingle : ∀ type, a = .param none type .noParams → type.Cancels)
    (h : a.resultWords a.words ++ r = b.resultWords b.words ++ s) : a = b ∧ r = s := by
  rcases results_cases a with rfl | ⟨type, rfl⟩ | ⟨-, hwords⟩
  · obtain ⟨rfl, hrest⟩ := noResults_cancel hb hr hs h
    exact ⟨rfl, hrest⟩
  · exact singleResult_cancel (hsingle type rfl) ha.2.1 hb hr hs
      (resultWords_single type ▸ h)
  · rcases results_cases b with rfl | ⟨type', rfl⟩ | ⟨-, hwords'⟩
    · obtain ⟨rfl, hrest⟩ := noResults_cancel ha hs hr h.symm
      exact ⟨rfl, hrest.symm⟩
    · obtain ⟨w, more, hword, hfirst, -⟩ := exists_words_append hb.2.1 hs
      rw [hwords, resultWords_single, hword] at h
      obtain ⟨rfl, -⟩ := List.cons.inj h
      exact absurd (by decide) hfirst
    · rw [hwords, hwords'] at h
      simp only [List.cons_append, List.append_assoc, List.cons.injEq, true_and] at h
      obtain ⟨rfl, hrest⟩ := ih hb (ends_cons (by decide)) (ends_cons (by decide)) h
      exact ⟨rfl, (List.cons.inj hrest).2⟩

end Results

section Types

variable {elem : TypeSyntax .type} {params results : TypeSyntax .params}

/-- A name is one word. -/
theorem cancels_named {path : Option String} {name : String} (ha : IsIdentifier name) :
    (named path name).Cancels := by
  intro b r s hb hr hs h
  have hform := form_eq (a := named path name) ⟨by simp, ha⟩ hb hr hs h
  cases b with
  | named path' name' =>
    obtain ⟨htext, rfl⟩ := List.cons.inj h
    obtain ⟨rfl, rfl⟩ := namedText_cancel ha hb.2 htext
    exact ⟨rfl, rfl⟩
  | _ => cases hform

/-- A star is followed by the element. -/
theorem cancels_pointer (ha : elem.HasNames) (ih : elem.Cancels) : (pointer elem).Cancels := by
  intro b r s hb hr hs h
  have hform := form_eq (a := .pointer elem) ha hb hr hs h
  cases b with
  | pointer elem' =>
    obtain ⟨rfl, hrest⟩ := ih (b := elem') hb hr hs (List.cons.inj h).2
    exact ⟨rfl, hrest⟩
  | _ => cases hform

/-- Empty brackets are followed by the element. -/
theorem cancels_slice (ha : elem.HasNames) (ih : elem.Cancels) : (slice elem).Cancels := by
  intro b r s hb hr hs h
  have hform := form_eq (a := .slice elem) ha hb hr hs h
  cases b with
  | slice elem' =>
    obtain ⟨rfl, hrest⟩ := ih (b := elem') hb hr hs (List.cons.inj (List.cons.inj h).2).2
    exact ⟨rfl, hrest⟩
  | _ => cases hform

/-- Between the brackets stands the length, which can be read off. -/
theorem cancels_array (len : Nat) (ha : elem.HasNames) (ih : elem.Cancels) :
    (array len elem).Cancels := by
  intro b r s hb hr hs h
  have hform := form_eq (a := .array len elem) ha hb hr hs h
  cases b with
  | array len' elem' =>
    simp only [words, List.cons_append, List.cons.injEq, true_and] at h
    obtain ⟨hlen, helems⟩ := h
    obtain rfl := Word.toString_injective hlen
    obtain ⟨rfl, hrest⟩ := ih (b := elem') hb hr hs helems
    exact ⟨rfl, hrest⟩
  | _ => cases hform

/-- A bracket ends the key. -/
theorem cancels_map {key value : TypeSyntax .type} (ha : (map key value).HasNames)
    (ihkey : key.Cancels) (ihvalue : value.Cancels) : (map key value).Cancels := by
  intro b r s hb hr hs h
  have hform := form_eq ha hb hr hs h
  cases b with
  | map key' value' =>
    simp only [words, List.cons_append, List.append_assoc, List.cons.injEq, true_and] at h
    obtain ⟨rfl, hbehind⟩ := ihkey hb.1 (ends_cons (by decide)) (ends_cons (by decide)) h
    obtain ⟨rfl, hrest⟩ := ihvalue hb.2 hr hs (List.cons.inj hbehind).2
    exact ⟨rfl, hrest⟩
  | _ => cases hform

/-- The element of a bidirectional channel, in parentheses or not: no type begins with one. -/
theorem parenthesized_cancel {elem' : TypeSyntax .type} (ha : elem.HasNames) (hb : elem'.HasNames)
    (ih : elem.Cancels) (hr : Ends .type r) (hs : Ends .type s)
    (h : (if elem.isReceiver then ['('] :: (elem.words ++ [[')']]) else elem.words) ++ r =
      (if elem'.isReceiver then ['('] :: (elem'.words ++ [[')']]) else elem'.words) ++ s) :
    elem = elem' ∧ r = s := by
  cases hreceiver : elem.isReceiver with
  | true =>
    cases hreceiver' : elem'.isReceiver with
    | true =>
      simp only [hreceiver, hreceiver', if_true, List.cons_append, List.append_assoc,
        List.cons.injEq, true_and] at h
      obtain ⟨rfl, hbehind⟩ := ih hb (ends_cons (by decide)) (ends_cons (by decide)) h
      exact ⟨rfl, (List.cons.inj hbehind).2⟩
    | false =>
      simp only [hreceiver, hreceiver', if_true, Bool.false_eq_true, if_false] at h
      exact absurd h.symm (words_append_ne_paren hb hs)
  | false =>
    cases hreceiver' : elem'.isReceiver with
    | true =>
      simp only [hreceiver, hreceiver', if_true, Bool.false_eq_true, if_false] at h
      exact absurd h (words_append_ne_paren ha hr)
    | false =>
      simp only [hreceiver, hreceiver', Bool.false_eq_true, if_false] at h
      exact ih hb hr hs h

/-- The arrow tells the direction, and the parentheses, if there are any, are told by the
element. -/
theorem cancels_chan {dir : ChanDir} (ha : elem.HasNames) (ih : elem.Cancels) :
    (chan dir elem).Cancels := by
  intro b r s hb hr hs h
  have hform := form_eq (a := .chan dir elem) ⟨trivial, ha⟩ hb hr hs h
  cases b with
  | chan dir' elem' =>
    obtain rfl := Form.chan.inj hform
    cases dir with
    | both =>
      obtain ⟨rfl, hrest⟩ := parenthesized_cancel ha hb.2 ih hr hs (List.cons.inj h).2
      exact ⟨rfl, hrest⟩
    | send | recv =>
      obtain ⟨rfl, hrest⟩ := ih hb.2 hr hs (List.cons.inj (List.cons.inj h).2).2
      exact ⟨rfl, hrest⟩
  | _ => cases hform

/-- A brace ends the fields. -/
theorem cancels_struct {fields : TypeSyntax .fields} (ha : fields.HasNames) (ih : fields.Cancels) :
    (struct fields).Cancels := by
  intro b r s hb hr hs h
  have hform := form_eq (a := .struct fields) ha hb hr hs h
  cases b with
  | struct fields' =>
    simp only [words, List.cons_append, List.append_assoc, List.cons.injEq, true_and] at h
    obtain ⟨rfl, hbehind⟩ := ih (b := fields') hb (ends_cons (by decide)) (ends_cons (by decide)) h
    exact ⟨rfl, (List.cons.inj hbehind).2⟩
  | _ => cases hform

/-- A brace ends the methods and embedded types. -/
theorem cancels_interface {elements : TypeSyntax .elements} (ha : elements.HasNames)
    (ih : elements.Cancels) : (interface elements).Cancels := by
  intro b r s hb hr hs h
  have hform := form_eq (a := .interface elements) ha hb hr hs h
  cases b with
  | interface elements' =>
    simp only [words, List.cons_append, List.append_assoc, List.cons.injEq, true_and] at h
    obtain ⟨rfl, hbehind⟩ :=
      ih (b := elements') hb (ends_cons (by decide)) (ends_cons (by decide)) h
    exact ⟨rfl, (List.cons.inj hbehind).2⟩
  | _ => cases hform

/-- A parenthesis ends the parameters, and the results follow. -/
theorem cancels_func (ha : (func params results).HasNames) (ihparams : params.Cancels)
    (ihresults : results.Cancels)
    (hsingle : ∀ type, results = .param none type .noParams → type.Cancels) :
    (func params results).Cancels := by
  intro b r s hb hr hs h
  have hform := form_eq ha hb hr hs h
  cases b with
  | func params' results' =>
    simp only [words, List.cons_append, List.append_assoc, List.cons.injEq, true_and] at h
    obtain ⟨rfl, hbehind⟩ := ihparams hb.1 (ends_cons (by decide)) (ends_cons (by decide)) h
    obtain ⟨rfl, hrest⟩ :=
      results_cancel ha.2 hb.2 hr hs ihresults hsingle (List.cons.inj hbehind).2
    exact ⟨rfl, hrest⟩
  | _ => cases hform

end Types

section Lists

variable {type : TypeSyntax .type}

/-- Where there is no field, the words that follow are left. -/
theorem cancels_noFields : noFields.Cancels := by
  intro b r s hb hr hs h
  have hform := form_eq (a := .noFields) trivial hb hr hs h
  cases b with
  | noFields => exact ⟨rfl, h⟩
  | _ => cases hform

/-- The name of a field is one word, its type ends at a semicolon or brace. -/
theorem cancels_field {name : String} {rest : TypeSyntax .fields}
    (ha : (field name type rest).HasNames) (ihtype : type.Cancels) (ihrest : rest.Cancels) :
    (field name type rest).Cancels := by
  intro b r s hb hr hs h
  have hform := form_eq ha hb hr hs h
  cases b with
  | field name' type' rest' =>
    simp only [words, List.cons_append, List.append_assoc, List.cons.injEq] at h
    obtain ⟨hname, htypes⟩ := h
    obtain rfl := String.toList_inj.mp hname
    obtain ⟨rfl, rfl, hrest⟩ := type_rest_cancel ihtype ihrest hb.2.1 hb.2.2 (by decide) (by decide)
      hr hs htypes
    exact ⟨rfl, hrest⟩
  | _ => cases hform

/-- An embedded field is its type. -/
theorem cancels_embedding {rest : TypeSyntax .fields} (ha : (embedding type rest).HasNames)
    (ihtype : type.Cancels) (ihrest : rest.Cancels) : (embedding type rest).Cancels := by
  intro b r s hb hr hs h
  have hform := form_eq ha hb hr hs h
  cases b with
  | embedding type' rest' =>
    simp only [words, List.append_assoc] at h
    obtain ⟨rfl, rfl, hrest⟩ :=
      type_rest_cancel ihtype ihrest hb.1 hb.2 (by decide) (by decide) hr hs h
    exact ⟨rfl, hrest⟩
  | _ => cases hform

/-- Where there is no method or embedded type, the words that follow are left. -/
theorem cancels_noElements : noElements.Cancels := by
  intro b r s hb hr hs h
  have hform := form_eq (a := .noElements) trivial hb hr hs h
  cases b with
  | noElements => exact ⟨rfl, h⟩
  | _ => cases hform

/-- The name of a method is one word, and its signature is read like that of a function. -/
theorem cancels_method {name : String} {params results : TypeSyntax .params}
    {rest : TypeSyntax .elements} (ha : (method name params results rest).HasNames)
    (ihparams : params.Cancels) (ihresults : results.Cancels)
    (hsingle : ∀ type, results = .param none type .noParams → type.Cancels)
    (ihrest : rest.Cancels) :
    (method name params results rest).Cancels := by
  intro b r s hb hr hs h
  have hform := form_eq ha hb hr hs h
  cases b with
  | method name' params' results' rest' =>
    simp only [words, List.cons_append, List.append_assoc, List.cons.injEq, true_and] at h
    obtain ⟨hname, hparams⟩ := h
    obtain rfl := String.toList_inj.mp hname
    obtain ⟨rfl, hbehind⟩ := ihparams hb.2.1 (ends_cons (by decide)) (ends_cons (by decide)) hparams
    obtain ⟨rfl, hresults⟩ := results_cancel ha.2.2.1 hb.2.2.1 (hr.type (by decide))
      (hs.type (by decide)) ihresults hsingle (List.cons.inj hbehind).2
    obtain ⟨rfl, hrest⟩ := rest_cancel ihrest hb.2.2.2 (by decide) hr hs hresults
    exact ⟨rfl, hrest⟩
  | _ => cases hform

/-- An embedded type ends at a semicolon or brace. -/
theorem cancels_element {rest : TypeSyntax .elements} (ha : (element type rest).HasNames)
    (ihtype : type.Cancels) (ihrest : rest.Cancels) : (element type rest).Cancels := by
  intro b r s hb hr hs h
  have hform := form_eq ha hb hr hs h
  cases b with
  | element type' rest' =>
    simp only [words, List.append_assoc] at h
    obtain ⟨rfl, rfl, hrest⟩ :=
      type_rest_cancel ihtype ihrest hb.1 hb.2 (by decide) (by decide) hr hs h
    exact ⟨rfl, hrest⟩
  | _ => cases hform

/-- Where there is no parameter, the words that follow are left. -/
theorem cancels_noParams : noParams.Cancels := by
  intro b r s hb hr hs h
  have hform := form_eq (a := .noParams) trivial hb hr hs h
  cases b with
  | noParams => exact ⟨rfl, h⟩
  | _ => cases hform

/-- Whether a parameter has a name is told by what follows the first word. -/
theorem cancels_param {name : Option String} {rest : TypeSyntax .params}
    (ha : (param name type rest).HasNames) (ihtype : type.Cancels) (ihrest : rest.Cancels) :
    (param name type rest).Cancels := by
  intro b r s hb hr hs h
  have hform := form_eq ha hb hr hs h
  cases b with
  | param name' type' rest' =>
    simp only [words, List.append_assoc] at h
    obtain ⟨rfl, htypes⟩ := label_cancel (Form.param.inj hform) h
    obtain ⟨rfl, rfl, hrest⟩ := type_rest_cancel ihtype ihrest hb.2.1 hb.2.2 (by decide) (by decide)
      hr hs htypes
    exact ⟨rfl, hrest⟩
  | _ => cases hform

/-- Three dots stand in front of the element, behind the name if there is one. -/
theorem cancels_spread {name : Option String} {elem : TypeSyntax .type}
    (ha : (spread name elem).HasNames) (ih : elem.Cancels) : (spread name elem).Cancels := by
  intro b r s hb hr hs h
  have hform := form_eq ha hb hr hs h
  cases b with
  | spread name' elem' =>
    simp only [words, List.append_assoc] at h
    obtain ⟨rfl, helems⟩ := label_cancel (Form.spread.inj hform) h
    obtain ⟨rfl, hrest⟩ := ih hb.2 hr.forType hs.forType (List.cons.inj helems).2
    exact ⟨rfl, hrest⟩
  | _ => cases hform

end Lists

/-- The words of a piece are read in one way only, and where the piece ends. The type of a single
result is reached as a part of the results, not as what follows the parameters. -/
theorem cancels : {k : Piece} → (a : TypeSyntax k) → a.HasNames → a.Cancels
  | _, .named _ _, h => cancels_named h.2
  | _, .pointer elem, h => cancels_pointer h (cancels elem h)
  | _, .slice elem, h => cancels_slice h (cancels elem h)
  | _, .array len elem, h => cancels_array len h (cancels elem h)
  | _, .map key value, h => cancels_map h (cancels key h.1) (cancels value h.2)
  | _, .chan _ elem, h => cancels_chan h.2 (cancels elem h.2)
  | _, .struct fields, h => cancels_struct h (cancels fields h)
  | _, .interface elements, h => cancels_interface h (cancels elements h)
  | _, .func params results, h => cancels_func h (cancels params h.1) (cancels results h.2)
    fun type hsingle => cancels type (by subst hsingle; exact h.2.2.1)
  | _, .noFields, _ => cancels_noFields
  | _, .field _ type rest, h => cancels_field h (cancels type h.2.1) (cancels rest h.2.2)
  | _, .embedding type rest, h => cancels_embedding h (cancels type h.1) (cancels rest h.2)
  | _, .noElements, _ => cancels_noElements
  | _, .method _ params results rest, h =>
    cancels_method h (cancels params h.2.1) (cancels results h.2.2.1)
      (fun type hsingle => cancels type (by subst hsingle; exact h.2.2.1.2.1))
      (cancels rest h.2.2.2)
  | _, .element type rest, h => cancels_element h (cancels type h.1) (cancels rest h.2)
  | _, .noParams, _ => cancels_noParams
  | _, .param _ type rest, h => cancels_param h (cancels type h.2.1) (cancels rest h.2.2)
  | _, .spread _ elem, h => cancels_spread h (cancels elem h.2)
termination_by _ a => sizeOf a

end Cancel

/-- The strings of types that differ do not have the same tokens. -/
theorem lexemes_text_injective {a b : TypeSyntax .type} (ha : a.HasNames) (hb : b.HasNames)
    (hpath : a.HasPaths) (hpath' : b.HasPaths) (h : lexemes a.text = lexemes b.text) : a = b := by
  have hnil : Stops [] := fun c hc => by cases hc
  have hends : Ends .type [] := fun w hw => by cases hw
  have hwords : a.words ++ [] = b.words ++ [] := by
    have hregroup : wordsOf (a.text ++ []) = wordsOf (b.text ++ []) := by
      simpa [wordsOf] using congrArg regroup h
    rwa [wordsOf_text ha hpath hnil, wordsOf_text hb hpath' hnil] at hregroup
  exact (cancels a ha hb hends hends hwords).1

-- with brackets in a package path, types that differ have one string
example : text (named (some "[]a") "T") = text (slice (named (some "a") "T")) := by decide

/-! ## Parentheses -/

/-- Where nothing is put in parentheses, a text without any is that of Go. -/
theorem text_of_isPlain {a : TypeSyntax k} (h : a.IsPlain) : a.text = a.bareText := by
  unfold text bareText
  induction a with
  | named path name => rfl
  | noFields | noElements | noParams => rfl
  | pointer elem ih | slice elem ih | array len elem ih => simp only [textWith, ih h]
  | map key value ihkey ihvalue => simp only [textWith, ihkey h.1, ihvalue h.2]
  | chan dir elem ih =>
    simp only [textWith, ih h.2]
    cases dir with
    | both => rw [h.1 rfl]
    | send | recv => rfl
  | struct fields ih => simp only [textWith, ih h]
  | interface elements ih => simp only [textWith, ih h]
  | func params results ihparams ihresults => simp only [textWith, ihparams h.1, ihresults h.2]
  | field name type rest ihtype ihrest => simp only [textWith, ihtype h.2.1, ihrest h.2.2]
  | embedding type rest ihtype ihrest => simp only [textWith, ihtype h.1, ihrest h.2]
  | method name params results rest ihparams ihresults ihrest =>
    simp only [textWith, ihparams h.2.1, ihresults h.2.2.1, ihrest h.2.2.2]
  | element type rest ihtype ihrest => simp only [textWith, ihtype h.1, ihrest h.2]
  | param name type rest ihtype ihrest => simp only [textWith, ihtype h.2.1, ihrest h.2.2]
  | spread name elem ih => simp only [textWith, ih h.2]

/-- Results are no longer than longer ones of the same shape. -/
theorem length_resultsText_le (results : TypeSyntax .params) {t u : List Char}
    (h : t.length ≤ u.length) :
    (results.resultsText t).length ≤ (results.resultsText u).length := by
  rcases results_cases results with rfl | ⟨type, rfl⟩ | ⟨htext, -⟩
  · exact Nat.le_refl _
  · simpa [resultsText] using h
  · simpa [htext] using h

/-- The lengths of results tell those of the lists in them. -/
theorem length_le_of_resultsText (results : TypeSyntax .params)
    (h : (results.resultsText results.text).length ≤
      (results.resultsText results.bareText).length) :
    results.text.length ≤ results.bareText.length := by
  rcases results_cases results with rfl | ⟨type, rfl⟩ | ⟨htext, -⟩
  · exact Nat.le_refl _
  · simpa [resultsText] using h
  · simpa [htext] using h

/-- A text without parentheses is no longer than that of Go, and shorter if there should be some. -/
theorem length_bareText_le (a : TypeSyntax k) :
    a.bareText.length ≤ a.text.length ∧ (a.text.length ≤ a.bareText.length → a.IsPlain) := by
  induction a with
  | named path name => exact ⟨Nat.le_refl _, fun _ => ⟨by simp, trivial⟩⟩
  | noFields | noElements | noParams => exact ⟨Nat.le_refl _, fun _ => trivial⟩
  | pointer elem ih | slice elem ih | array len elem ih | struct elem ih | interface elem ih =>
    obtain ⟨hle, hplain⟩ := ih
    simp only [text, bareText, textWith, List.length_cons, List.length_append] at *
    exact ⟨by omega, fun h => hplain (by omega)⟩
  | map key value ihkey ihvalue =>
    obtain ⟨hkey, hkeyPlain⟩ := ihkey
    obtain ⟨hvalue, hvaluePlain⟩ := ihvalue
    simp only [text, bareText, textWith, List.length_cons, List.length_append] at *
    exact ⟨by omega, fun h => ⟨hkeyPlain (by omega), hvaluePlain (by omega)⟩⟩
  | chan dir elem ih =>
    obtain ⟨hle, hplain⟩ := ih
    simp only [text, bareText, textWith] at *
    cases dir with
    | both =>
      cases hreceiver : elem.isReceiver with
      | true =>
        simp only [chanText, if_true, Bool.false_eq_true, if_false, List.length_cons,
          List.length_append]
        exact ⟨by omega, fun h => by omega⟩
      | false =>
        simp only [chanText, Bool.false_eq_true, if_false, List.length_cons, List.length_append]
        exact ⟨by omega, fun h => ⟨fun _ => hreceiver, hplain (by omega)⟩⟩
    | send | recv =>
      simp only [chanText, List.length_cons, List.length_append]
      exact ⟨by omega, fun h => ⟨fun hboth => (by cases hboth), hplain (by omega)⟩⟩
  | func params results ihparams ihresults =>
    obtain ⟨hparams, hparamsPlain⟩ := ihparams
    obtain ⟨hresults, hresultsPlain⟩ := ihresults
    have hle := length_resultsText_le results hresults
    have hge := length_le_of_resultsText results
    simp only [text, bareText, textWith, List.length_cons, List.length_append] at *
    exact ⟨by omega, fun h => ⟨hparamsPlain (by omega), hresultsPlain (hge (by omega))⟩⟩
  | field name type rest ihtype ihrest =>
    obtain ⟨htype, htypePlain⟩ := ihtype
    obtain ⟨hrest, hrestPlain⟩ := ihrest
    simp only [text, bareText, textWith, List.length_cons, List.length_append] at *
    exact ⟨by omega, fun h => ⟨trivial, htypePlain (by omega), hrestPlain (by omega)⟩⟩
  | embedding type rest ihtype ihrest | element type rest ihtype ihrest =>
    obtain ⟨htype, htypePlain⟩ := ihtype
    obtain ⟨hrest, hrestPlain⟩ := ihrest
    simp only [text, bareText, textWith, List.length_append] at *
    exact ⟨by omega, fun h => ⟨htypePlain (by omega), hrestPlain (by omega)⟩⟩
  | method name params results rest ihparams ihresults ihrest =>
    obtain ⟨hparams, hparamsPlain⟩ := ihparams
    obtain ⟨hresults, hresultsPlain⟩ := ihresults
    obtain ⟨hrest, hrestPlain⟩ := ihrest
    have hle := length_resultsText_le results hresults
    have hge := length_le_of_resultsText results
    simp only [text, bareText, textWith, List.length_cons, List.length_append] at *
    exact ⟨by omega, fun h => ⟨trivial, hparamsPlain (by omega), hresultsPlain (hge (by omega)),
      hrestPlain (by omega)⟩⟩
  | param name type rest ihtype ihrest =>
    obtain ⟨htype, htypePlain⟩ := ihtype
    obtain ⟨hrest, hrestPlain⟩ := ihrest
    simp only [text, bareText, textWith, List.length_append] at *
    exact ⟨by omega, fun h => ⟨fun _ _ => trivial, htypePlain (by omega), hrestPlain (by omega)⟩⟩
  | spread name elem ih =>
    obtain ⟨hle, hplain⟩ := ih
    simp only [text, bareText, textWith, List.length_cons, List.length_append] at *
    exact ⟨by omega, fun h => ⟨fun _ _ => trivial, hplain (by omega)⟩⟩

/-- A string without parentheses around elements of channels is that of Go exactly if nothing is
to be put in parentheses. -/
theorem bareString_eq_string_iff {a : TypeSyntax .type} : a.bareString = a.string ↔ a.IsPlain := by
  rw [bareString, string, String.ofList_inj]
  exact ⟨fun h => (length_bareText_le a).2 (h ▸ Nat.le_refl _), fun h => (text_of_isPlain h).symm⟩

end TypeSyntax

namespace Program

open Go

variable {p q : Program} {s t : TypeId}

/-- **The strings of types are Go's, but for parentheses.** A type that can be written is written
in one way, and its string is the one that it has in Go without parentheses around elements of
channels; so it is Go's exactly if no bidirectional channel in it has a channel as its element
that can only be received from. Two such types that are written differently have strings with
different tokens, as long as package paths look like import paths. -/
theorem typeText_eq_goString (hs : p.Spellable s) (ht : q.Spellable t) :
    (∃! a : TypeSyntax .type, p.Denotes a s) ∧
      (∀ a : TypeSyntax .type, p.Denotes a s →
        p.typeText s = .ok a.bareString ∧ (a.bareString = a.string ↔ a.IsPlain)) ∧
      ∀ a b : TypeSyntax .type, p.Denotes a s → q.Denotes b t → a.IsPlain → b.IsPlain → a.HasPaths →
        b.HasPaths → a ≠ b →
        ∀ x y, p.typeText s = .ok x → q.typeText t = .ok y →
          lexemes x.toList ≠ lexemes y.toList := by
  obtain ⟨c, hc, hnames⟩ := hs.isWritten
  obtain ⟨d, hd, hnames'⟩ := ht.isWritten
  refine ⟨⟨c, hc, fun a ha => ha.unique hc⟩,
    fun a ha => ⟨hs.typeText_eq ha, TypeSyntax.bareString_eq_string_iff⟩, ?_⟩
  intro a b ha hb hplain hplain' hpaths hpaths' hne x y hx hy h
  obtain rfl := ha.unique hc
  obtain rfl := hb.unique hd
  obtain rfl := Except.ok.inj ((hs.typeText_eq ha).symm.trans hx)
  obtain rfl := Except.ok.inj ((ht.typeText_eq hb).symm.trans hy)
  rw [TypeSyntax.bareString_eq_string_iff.mpr hplain,
    TypeSyntax.bareString_eq_string_iff.mpr hplain', TypeSyntax.string, TypeSyntax.string,
    String.toList_ofList, String.toList_ofList] at h
  exact hne (TypeSyntax.lexemes_text_injective hnames hnames' hpaths hpaths' h)

/-! ### Types of many kinds -/

namespace Mixed

/-- Types in which the type `T` of a package is used: an interface of one method, the type of that
method, its result and the slice that its last parameter is, channels of channels, and `T`
itself. -/
def program : Program :=
  { (default : Program) with
    objects := #[⟨"T", .typeName, some ⟨0⟩, some ⟨0⟩, none, some ⟨8⟩⟩,
      ⟨"M", .func none, none, none, none, some ⟨1⟩⟩, ⟨"x", .var, none, none, none, some ⟨8⟩⟩,
      ⟨"rest", .var, none, none, none, some ⟨3⟩⟩, ⟨"", .var, none, none, none, some ⟨2⟩⟩,
      ⟨"F", .field false, none, none, none, some ⟨6⟩⟩,
      ⟨"T", .field true, none, none, none, some ⟨8⟩⟩]
    types := #[.interface [⟨1⟩] [], .signature none [⟨2⟩, ⟨3⟩] [⟨4⟩] true, .struct [⟨5⟩, ⟨6⟩],
      .slice ⟨9⟩, .chan .send ⟨6⟩, .chan .both ⟨7⟩, .chan .both ⟨9⟩, .chan .recv ⟨9⟩,
      .named ⟨0⟩ (some ⟨9⟩) [], .basic "int"]
    scopes := #[⟨none, [], [("T", ⟨0⟩)]⟩]
    packages := #[⟨"example.org/q", "q", ⟨0⟩⟩] }

/-- Every number in the sample stands for something. -/
theorem closed : program.Closed where
  objects := by decide
  types := by decide
  scopes := by decide
  packages := by decide
  parents := by decide
  children := by decide

/-- What is found for a number stands at the number's place. -/
theorem mem_zipIdx {id : TypeId} {found : GoType} (h : program.type id = .ok found) :
    (found, id.index) ∈ program.types.toList.zipIdx := by
  rw [List.mk_mem_zipIdx_iff_getElem?, Array.getElem?_toList]
  exact fetch_eq_ok_iff.mp h

/-- Every type was made after its parts were given their numbers. -/
theorem grounded : program.Grounded where
  scopes := @acyclic_of_lt _ _ ScopeId.index fun scope child ⟨found, hscope, hchild⟩ => by
    have hall : ∀ found ∈ program.scopes.toList, found.children = [] := by decide
    rw [hall found (mem_of_fetch hscope)] at hchild
    cases hchild
  names := @acyclic_of_lt _ _ TypeId.index fun type next ⟨found, htype, hnext, _⟩ => by
    have hall : ∀ x ∈ program.types.toList.zipIdx, ∀ next ∈ x.1.standsFor?, x.2 < next.index := by
      decide
    exact hall _ (mem_zipIdx htype) next hnext
  types := @acyclic_of_lt _ _ TypeId.index fun type part h => by
    cases h with
    | elem htype hpart =>
      have hall : ∀ x ∈ program.types.toList.zipIdx, ∀ part ∈ x.1.elems, x.2 < part.index := by
        decide
      exact hall _ (mem_zipIdx htype) part hpart
    | @member found obj o htype hobj ho hpart =>
      have hall : ∀ x ∈ program.types.toList.zipIdx, ∀ obj ∈ x.1.members,
          ∀ o ∈ program.objects[obj.index]?, ∀ part ∈ o.type, x.2 < part.index := by decide
      exact hall _ (mem_zipIdx htype) obj hobj o (fetch_eq_ok_iff.mp ho) part hpart

/-- The names in the sample are identifiers. -/
theorem isIdentifier_of_mem {name : String} (h : name ∈ ["T", "M", "x", "rest", "F", "int"]) :
    IsIdentifier name := by
  have hall : ∀ name ∈ ["T", "M", "x", "rest", "F", "int"],
      name.toList.head?.any isNameStart = true ∧ (∀ c ∈ name.toList, isNameRest c = true) ∧
        name ∉ keywords := by decide
  obtain ⟨hbegins, hconsists, hfree⟩ := hall name h
  exact ⟨(Option.any_eq_true _ _).mp hbegins, hconsists, hfree⟩

/-- The path of the package looks like an import path. -/
theorem isImportPath : IsImportPath "example.org/q" :=
  ⟨⟨'e', rfl, by decide⟩, by decide, by decide, by decide⟩

/-- Every type of the sample has what it must have to be written. -/
theorem lawful : ∀ found ∈ program.types.toList, program.Lawful found := by
  have hinterface : program.Lawful (.interface [⟨1⟩] []) := by
    refine List.forall_mem_singleton.mpr ⟨_, rfl, isIdentifier_of_mem (by decide), ?_⟩
    exact ⟨_, _, _, _, _, rfl, rfl⟩
  have hfunc : program.Lawful (.signature none [⟨2⟩, ⟨3⟩] [⟨4⟩] true) := by
    refine ⟨List.forall_mem_cons.mpr ⟨⟨_, rfl, rfl, ?_⟩, List.forall_mem_cons.mpr
      ⟨⟨_, rfl, rfl, ?_⟩, List.forall_mem_singleton.mpr ⟨_, rfl, rfl, nofun⟩⟩⟩, fun _ => ?_⟩
    · rintro _ ⟨⟩
      exact isIdentifier_of_mem (by decide)
    · rintro _ ⟨⟩
      exact isIdentifier_of_mem (by decide)
    · exact ⟨⟨3⟩, rfl, _, _, _, rfl, rfl, rfl⟩
  have hstruct : program.Lawful (.struct [⟨5⟩, ⟨6⟩]) := by
    refine List.forall_mem_cons.mpr ⟨⟨_, rfl, rfl, fun _ => isIdentifier_of_mem (by decide)⟩, ?_⟩
    exact List.forall_mem_singleton.mpr ⟨_, rfl, rfl, fun hne => absurd rfl hne⟩
  have hnamed : program.Lawful (.named ⟨0⟩ (some ⟨9⟩) []) := by
    refine ⟨_, rfl, isIdentifier_of_mem (by decide), ?_⟩
    rintro _ ⟨⟩
    exact ⟨_, rfl⟩
  have hint : program.Lawful (.basic "int") := isIdentifier_of_mem (by decide)
  simp only [program, List.forall_mem_cons]
  exact ⟨hinterface, hfunc, hstruct, trivial, trivial, trivial, trivial, trivial, hnamed, hint,
    nofun⟩

/-- Every type of the sample can be written. -/
theorem spellable {id : TypeId} (h : program.HasType id) : program.Spellable id :=
  grounded.spellable closed lawful h

/-- The parameters of the method, as they are written. -/
def params : TypeSyntax .params :=
  .param (some "x") (.named (some "example.org/q") "T") (.spread (some "rest") (.named none "int"))

/-- Its result. -/
def result : TypeSyntax .type :=
  .struct (.field "F" (.chan .both (.named none "int"))
    (.embedding (.named (some "example.org/q") "T") .noFields))

/-- The type of functions like the method. -/
def function : TypeSyntax .type := .func params (.param none result .noParams)

/-- The interface. -/
def interface : TypeSyntax .type :=
  .interface (.method "M" params (.param none result .noParams) .noElements)

/-- The predeclared type is written by its name. -/
theorem denotes_int : program.Denotes (.named none "int") ⟨9⟩ := .inl ⟨rfl, rfl⟩

/-- The type `T` is written with its path. -/
theorem denotes_named : program.Denotes (.named (some "example.org/q") "T") ⟨8⟩ :=
  .inr ⟨_, _, _, _, rfl, rfl, .inr ⟨_, _, rfl, rfl, rfl⟩, rfl⟩

/-- The parameters of the method are as they are written. -/
theorem denotes_params : program.Denotes params ([⟨2⟩, ⟨3⟩], true) :=
  ⟨_, _, _, _, _, rfl, nofun, rfl, rfl, rfl, denotes_named,
    _, _, _, _, rfl, rfl, rfl, rfl, rfl, denotes_int⟩

/-- The struct that is the method's result is written with its fields. -/
theorem denotes_result : program.Denotes result ⟨2⟩ :=
  ⟨_, rfl, _, _, _, _, rfl, rfl, by decide, rfl, rfl, ⟨_, rfl, denotes_int⟩,
    _, _, _, _, rfl, rfl, rfl, rfl, denotes_named, rfl⟩

/-- The list of results holds that struct alone. -/
theorem denotes_results : program.Denotes (.param none result .noParams) ([⟨4⟩], false) :=
  ⟨_, _, _, _, _, rfl, fun _ => rfl, rfl, rfl, rfl, denotes_result, rfl⟩

/-- The type of the method is written as a function type. -/
theorem denotes_function : program.Denotes function ⟨1⟩ :=
  ⟨_, _, _, _, rfl, denotes_params, denotes_results⟩

/-- The interface is written with its method. -/
theorem denotes_interface : program.Denotes interface ⟨0⟩ :=
  ⟨_, _, rfl, _, _, _, _, _, _, _, _, _, rfl, rfl, rfl, rfl, rfl, denotes_params, denotes_results,
    rfl⟩

/-- The paths in the parameters are import paths. -/
theorem hasPaths_params : params.HasPaths := by
  simp [TypeSyntax.HasPaths, TypeSyntax.All, params, isImportPath]

/-- The paths in the result are import paths. -/
theorem hasPaths_result : result.HasPaths := by
  simp [TypeSyntax.HasPaths, TypeSyntax.All, result, isImportPath]

/-- The path of the package of `T` looks like an import path, and there are no others. -/
theorem hasPaths : interface.HasPaths ∧ function.HasPaths :=
  ⟨⟨trivial, hasPaths_params, ⟨nofun, hasPaths_result, trivial⟩, trivial⟩, hasPaths_params,
    nofun, hasPaths_result, trivial⟩

/-- The only channel is one of numbers. -/
theorem isPlain : interface.IsPlain ∧ function.IsPlain := by
  simp [TypeSyntax.IsPlain, TypeSyntax.All, interface, function, params, result,
    TypeSyntax.isReceiver]

/-- A channel to send channels to, as it is written. -/
def sent : TypeSyntax .type := .chan .send (.chan .both (.named none "int"))

/-- A channel of channels to receive from, as it is written. -/
def received : TypeSyntax .type := .chan .both (.chan .recv (.named none "int"))

/-- The channel to send channels to is written without parentheses. -/
theorem denotes_sent : program.Denotes sent ⟨4⟩ := ⟨_, rfl, _, rfl, denotes_int⟩

/-- The channel whose element can only be received from is written by its element. -/
theorem denotes_received : program.Denotes received ⟨5⟩ := ⟨_, rfl, _, rfl, denotes_int⟩

end Mixed

/-- The interface and the type of its method: `T` is written with its path, the method and the field
with their names, and the result alone without parentheses. -/
theorem typeText_eq_goString_mixed :
    Mixed.program.Spellable ⟨0⟩ ∧ Mixed.program.Spellable ⟨1⟩ ∧ Mixed.interface.HasPaths ∧
      Mixed.program.typeText ⟨0⟩ = .ok ("interface\x7bM(x example.org/q.T, rest ...int) " ++
        "struct\x7bF chan int; example.org/q.T\x7d\x7d") ∧
      Mixed.program.typeText ⟨1⟩ = .ok ("func(x example.org/q.T, rest ...int) " ++
        "struct\x7bF chan int; example.org/q.T\x7d") ∧
      lexemes Mixed.interface.string.toList ≠ lexemes Mixed.function.string.toList := by
  have hs : Mixed.program.Spellable ⟨0⟩ := Mixed.spellable (by decide)
  have ht : Mixed.program.Spellable ⟨1⟩ := Mixed.spellable (by decide)
  obtain ⟨hpaths, hpaths'⟩ := Mixed.hasPaths
  obtain ⟨hplain, hplain'⟩ := Mixed.isPlain
  obtain ⟨-, hinterface, hne⟩ := typeText_eq_goString hs ht
  obtain ⟨-, hfunction, -⟩ := typeText_eq_goString ht hs
  obtain ⟨htext, hstring⟩ := hinterface _ Mixed.denotes_interface
  obtain ⟨htext', hstring'⟩ := hfunction _ Mixed.denotes_function
  rw [hstring.mpr hplain] at htext
  rw [hstring'.mpr hplain'] at htext'
  have hdiffer : Mixed.interface ≠ Mixed.function := nofun
  exact ⟨hs, ht, hpaths, htext.trans (congrArg _ (by decide)),
    htext'.trans (congrArg _ (by decide)),
    hne _ _ Mixed.denotes_interface Mixed.denotes_function hplain hplain' hpaths hpaths' hdiffer
      _ _ htext htext'⟩

/-- A channel of channels to receive from is written without parentheses, with the tokens of another
type. -/
theorem exists_typeText_ne_goString : ∃ (p : Program) (s t : TypeId) (a b : TypeSyntax .type),
    p.Spellable s ∧ p.Spellable t ∧ p.Denotes a s ∧ p.Denotes b t ∧ a.HasPaths ∧ b.HasPaths ∧
      a ≠ b ∧ a.string = "chan (<-chan int)" ∧ p.typeText s = .ok "chan <-chan int" ∧
      b.string = "chan<- chan int" ∧ p.typeText t = .ok "chan<- chan int" ∧
      lexemes "chan <-chan int".toList = lexemes "chan<- chan int".toList :=
  ⟨Mixed.program, ⟨5⟩, ⟨4⟩, Mixed.received, Mixed.sent, Mixed.spellable (by decide),
    Mixed.spellable (by decide), Mixed.denotes_received, Mixed.denotes_sent,
    ⟨trivial, trivial, nofun, trivial⟩, ⟨trivial, trivial, nofun, trivial⟩, by decide, by decide,
    by decide, by decide, by decide, by decide⟩

end Program

end SymbolGraph
