import HeaderOutline.Proofs.CType.RoundTrip
import HeaderOutline.Proofs.Lexeme.Angled
import HeaderOutline.Proofs.Source.Front
/-!
# How far a type reaches

What stands in a template list is read as a type or as raw text. Raw text goes to the comma or `>` behind it that belongs to
the list, and which one that is the scan tells from the brackets alone. The brackets of a rendered type match in the way the scan counts
them, so that it ends where the type does.
-/

namespace HeaderOutline.CType

open HeaderOutline.Parser

variable {name type arg : CType} {rest : Text}

/-! ### Brackets -/

theorem matched_renderList {types : List CType} (htypes : ∀ type ∈ types, Matched (render type)) : Matched (renderList types) :=
  renderList_induction .nil .append (.append (.other (by decide)) (.other (by decide))) htypes

theorem Argument.matched (harg : Argument arg) : Matched (render arg) := by
  refine Argument.render_induction .nil .append (fun c hc => ?char) (fun args ih => ?angles) (fun params _ ih => ?params) harg
  case char =>
    have hnone : ∀ c ∈ ['(', '[', '{', ')', ']', '}'], ¬IsTypeChar c := by decide
    exact .other fun hmem => hnone c hmem hc
  case angles =>
    have hless : Matched ['<'] := .other (by decide)
    exact (hless.append (matched_renderList ih)).append (.other (by decide))
  case params => exact .block (by decide) (matched_renderList ih)

/-- Between angle brackets commas are allowed, and in parentheses angle brackets do not count. -/
theorem Argument.angled (harg : Argument arg) : Angled false (render arg) := by
  refine Argument.render_induction .nil (fun hfront hback => .append hfront hback) (fun c hc => ?char) (fun args ih => ?angles)
    (fun params hwritten _ => ?params) harg
  case char =>
    have hnone : ∀ c ∈ ['(', '[', '{', ')', ']', '}', '<', '>', ';', ','], ¬IsTypeChar c := by decide
    exact .other fun hmem => hnone c hmem hc
  case angles =>
    have hcomma : Angled true ", ".toList := .append .comma (.other (by decide))
    have hlist := renderList_induction (motive := fun text => ∃ outside, Angled outside text) ⟨false, .nil⟩
      (fun ⟨_, hfront⟩ ⟨_, hback⟩ => ⟨_, .append hfront hback⟩) ⟨true, hcomma⟩ fun arg harg => ⟨false, ih arg harg⟩
    exact .angles hlist.choose_spec
  case params => exact .block (by decide) (matched_renderList fun param hparam => Argument.matched (.type (hwritten param hparam)))

theorem Argument.isCode (harg : Argument arg) : ∀ c ∈ render arg, c ∉ ['\'', '"', '/'] := by
  have happend {front back : Text} (hfront : ∀ c ∈ front, c ∉ ['\'', '"', '/']) (hback : ∀ c ∈ back, c ∉ ['\'', '"', '/']) :
      ∀ c ∈ front ++ back, c ∉ ['\'', '"', '/'] := List.forall_mem_append.2 ⟨hfront, hback⟩
  have hlist {types : List CType} (htypes : ∀ type ∈ types, ∀ c ∈ render type, c ∉ ['\'', '"', '/']) :
      ∀ c ∈ renderList types, c ∉ ['\'', '"', '/'] :=
    renderList_induction (motive := fun text => ∀ c ∈ text, c ∉ _) (List.forall_mem_nil _) happend (by decide) htypes
  refine Argument.render_induction (motive := fun text => ∀ c ∈ text, c ∉ ['\'', '"', '/']) (List.forall_mem_nil _) happend
    (fun c hc => ?char) (fun args ih => ?angles) (fun params _ ih => ?params) harg
  case char =>
    have hnone : ∀ c ∈ ['\'', '"', '/'], ¬IsTypeChar c := by decide
    exact List.forall_mem_singleton.2 fun hmem => hnone c hmem hc
  case angles =>
    rw [List.forall_mem_append, List.forall_mem_cons, List.forall_mem_singleton]
    exact ⟨⟨by decide, hlist ih⟩, by decide⟩
  case params =>
    rw [List.forall_mem_append, List.forall_mem_cons, List.forall_mem_singleton]
    exact ⟨⟨by decide, hlist ih⟩, by decide⟩

/-! ### First and last character -/

theorem Argument.isBlank_head (harg : Argument arg) : ∀ c ∈ (render arg).head?, Text.isBlank c = false := by
  have hwritten {type : CType} (htype : Written type) (tail : Text) : ∀ c ∈ (render type ++ tail).head?, Text.isBlank c = false := by
    obtain ⟨c, text, htext, hc⟩ := (htype.front tail).head
    rw [htext]
    rintro _ ⟨⟩
    rcases hc with hc | rfl
    · exact isBlank_of_isWordStart hc
    · decide
  cases harg with
  | type htype =>
    have hhead := hwritten htype []
    rwa [List.append_nil] at hhead
  | function hresult hparams =>
    rw [render, List.append_assoc]
    exact hwritten hresult _
  | value hdigits hdigits_ne =>
    have hblank : ∀ c ∈ decimalDigits, Text.isBlank c = false := by decide
    rw [render]
    exact fun c hc => hblank c (mem_decimalDigits (hdigits c (List.mem_of_mem_head? hc)))

/-- The last character is there and is no white space. -/
def EndsVisible (text : Text) : Prop := ∃ front c, text = front ++ [c] ∧ Text.isBlank c = false

theorem EndsVisible.append {back : Text} (hback : EndsVisible back) (front : Text) : EndsVisible (front ++ back) := by
  obtain ⟨middle, c, rfl, hc⟩ := hback
  exact ⟨front ++ middle, c, (List.append_assoc ..).symm, hc⟩

theorem endsVisible_cons {c : Char} (hc : Text.isBlank c = false) (front : Text) : EndsVisible (front ++ [c]) := ⟨front, c, rfl, hc⟩

theorem endsVisible_of_forall {text : Text} (hne : text ≠ []) (htext : ∀ c ∈ text, Text.isBlank c = false) : EndsVisible text := by
  refine ⟨text.dropLast, text.getLast hne, (List.dropLast_append_getLast hne).symm, htext _ (List.getLast_mem hne)⟩

theorem endsVisible_word {word : Text} (hword : isPlainName word = true) : EndsVisible word := by
  refine endsVisible_of_forall ?_ fun c hc =>
    Text.isBlank_of_isWordChar (isWordChar_of_isIdentifier (isIdentifier_of_isPlainName hword) c hc)
  rintro rfl
  cases hword

theorem endsVisible_path {names : List Text} (hnames : isPath names = true) : EndsVisible (Text.join "::".toList names) := by
  have htail {next : Text} {others : List Text} (hothers : (next :: others).all isPlainName = true) :
      EndsVisible ((next :: others).flatMap ("::".toList ++ ·)) := by
    induction others generalizing next with
    | nil =>
      rw [List.flatMap_singleton]
      exact (endsVisible_word (List.all_eq_true.1 hothers next List.mem_cons_self)).append _
    | cons last others ih =>
      rw [List.flatMap_cons]
      exact (ih (Bool.and_eq_true_iff.1 hothers).2).append _
  rcases isPath_cases hnames with ⟨name, rfl, hname⟩ | ⟨next, others, rfl, hothers⟩ | ⟨first, next, others, rfl, -, -, hothers⟩
  · exact endsVisible_word hname
  · rw [join_cons]
    exact (htail hothers).append _
  · rw [join_cons]
    exact (htail hothers).append _

theorem Named.endsVisible {name : CType} (hname : Named name) : EndsVisible (render name) := by
  cases hname with
  | path hnames =>
    rw [render]
    exact endsVisible_path hnames
  | generic _ _ =>
    rw [render]
    exact endsVisible_cons (by decide) _
  | member _ _ hinner =>
    rw [render]
    exact hinner.endsVisible.append _

theorem Written.endsVisible {type : CType} (htype : Written type) : EndsVisible (render type) := by
  cases htype with
  | named hname => exact hname.endsVisible
  | const hname =>
    rw [render_const_named hname]
    exact hname.endsVisible.append _
  | pointer htarget =>
    rw [render_pointer htarget]
    exact endsVisible_cons (by decide) _
  | reference htarget =>
    rw [render_reference htarget]
    exact endsVisible_cons (by decide) _
  | pack _ =>
    have hdots : EndsVisible "...".toList := ⟨['.', '.'], '.', rfl, by decide⟩
    rw [render]
    exact hdots.append _
  | constIndirect _ hindirect =>
    have hconst : EndsVisible " const".toList := ⟨" cons".toList, 't', rfl, by decide⟩
    rw [render_const_indirect hindirect]
    exact hconst.append _

theorem Argument.endsVisible (harg : Argument arg) : EndsVisible (render arg) := by
  cases harg with
  | type htype => exact htype.endsVisible
  | function _ _ =>
    rw [render]
    exact endsVisible_cons (by decide) _
  | value hdigits hdigits_ne =>
    have hblank : ∀ c ∈ decimalDigits, Text.isBlank c = false := by decide
    rw [render]
    exact endsVisible_of_forall hdigits_ne fun c hc => hblank c (mem_decimalDigits (hdigits c hc))

/-! ### Raw text -/

/-- Raw text ends where the type does. -/
theorem expression_argument (harg : Argument type) (hrest : EndsItem '>' rest) :
    expression [','] true (render type ++ rest) = .ok (render type) rest := by
  obtain ⟨c, hc, tail, rfl⟩ := hrest
  obtain ⟨front, last, htext, hlast⟩ := harg.endsVisible
  have hgetLast : ∀ c ∈ (render type).getLast?, Text.isBlank c = false := by
    rw [htext, List.getLast?_concat]
    rintro _ ⟨⟩
    exact hlast
  have hne : render type ≠ [] := by
    rw [htext]
    exact List.append_ne_nil_of_right_ne_nil _ (List.cons_ne_nil _ _)
  exact expression_angled harg.angled harg.isCode harg.isBlank_head hgetLast hne hc tail

end HeaderOutline.CType
