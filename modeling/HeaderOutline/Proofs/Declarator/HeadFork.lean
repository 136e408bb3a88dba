import HeaderOutline.TemplateParam
import HeaderOutline.Proofs.Comment.Fork
import HeaderOutline.Proofs.Declarator.Fork
import HeaderOutline.Proofs.Declarator.Head
import HeaderOutline.Proofs.Lexeme.Plain
/-!
# Heads of a text with two ends

What a statement says in front of its declarators ends in a strictly closed text as soon as something else stands in that
text behind it: no end of a text goes on with a head. In a template head angle brackets are brackets, so that closed
texts in which they need not match do not tell where it ends.
-/

namespace HeaderOutline

open HeaderOutline.Parser HeaderOutline.CType

variable {ends : EndPair} {opened : List Char}

theorem cType_forks {strict : Bool} (room : Nat) (hopened : Encloses strict opened) :
    Forks ends (IsPlace strict opened) (IsPlace strict opened) (cType room) (cType room) :=
  qualified_forks (templateArgs_forks room hopened)

theorem IsBody.head_ne (hbody : IsBody opened) : opened.head? ≠ some '<' := fun hhead =>
  absurd (hbody '<' (List.mem_of_mem_head? hhead)) (by decide)

theorem IsBody.admits (hbody : IsBody opened) (hends : ends.Agree) : Admits ends opened := ⟨hbody.head_ne, fun _ => hends.endDeclarator⟩

/-! ### Template heads -/

namespace TemplateParam

theorem defaultArgument_forks : Forks ends (IsPlace true ('<' :: opened)) (IsPlace true ('<' :: opened))
    defaultArgument defaultArgument := by
  have hsign : Blind ends (IsPlace true ('<' :: opened)) (IsStart true ('<' :: opened)) (char '=') :=
    char_sign_blind (by decide) (by decide) nofun
  have htext : Blind ends (IsStart true ('<' :: opened)) (IsPlace true ('<' :: opened)) (expression [','] true) :=
    expression_blind nofun (.inl rfl) (by decide) nofun
  exact (spaced_forks hsign.forks).bind fun _ => htext.forks

theorem typeParam_forks {head head' : Parser (List TemplateParam)}
    (hhead : Forks ends (IsPlace true ('<' :: opened)) (IsPlace true ('<' :: opened)) head head') :
    Forks ends (IsPlace true ('<' :: opened)) (IsPlace true ('<' :: opened)) (typeParam head) (typeParam head') :=
  (Forks.opt (beforeGap_forks hhead) id).bind fun _ => (anyKeyword_forks (by decide)).bind fun _ =>
    (Forks.opt (afterGap_forks (literal_word_blind (by decide)).forks) id).bind fun _ =>
    (Forks.opt (afterGap_forks identifier_blind.forks) id).bind fun _ => (Forks.opt defaultArgument_forks id).bind fun _ => .pure _

theorem valueParam_forks (room : Nat) :
    Forks ends (IsPlace true ('<' :: opened)) (IsPlace true ('<' :: opened)) (valueParam room) (valueParam room) :=
  (cType_forks room (.inl rfl)).bind fun _ => (Forks.opt (afterGap_forks identifier_blind.forks) id).bind fun _ =>
    (Forks.opt defaultArgument_forks id).bind fun _ => .pure _

end TemplateParam

open TemplateParam in
theorem templateHead_forks (room : Nat) (opened : List Char) :
    Forks ends (IsPlace true opened) (IsPlace true opened) (templateHead room) (templateHead room) := by
  refine Relates.recurse (R := fun opened => Fork ends (IsPlace true opened))
    (S := fun opened => Fork ends (IsPlace true opened)) (fun _ _ => Fork.measured) (fun p q hself opened => ?_) opened
  have hparam : Forks ends (IsPlace true ('<' :: opened)) (IsPlace true ('<' :: opened))
      (spaced (firstOf [typeParam p, valueParam room])) (spaced (firstOf [typeParam q, valueParam room])) :=
    spaced_forks (Relates.firstOf (.cons (typeParam_forks (hself _)) (.cons (valueParam_forks room) .nil)))
  have hcomma : '<' :: opened = [] → ends.Lacks ',' := nofun
  have hseparator : Forks ends (IsPlace true ('<' :: opened)) (IsPlace true ('<' :: opened)) (spaced (char ',')) (spaced (char ',')) :=
    comma_forks hcomma
  have hopener : Blind ends (IsPlace true opened) (IsPlace true ('<' :: opened)) (char '<') :=
    less_blind.mono id IsStart.isPlace
  have hcloser : Blind ends (IsPlace true ('<' :: opened)) (IsPlace true opened) (char '>') := greater_blind
  exact (beforeGap_forks (keyword_word_forks (by decide))).bind fun _ => hopener.forks.bind fun _ =>
    (Forks.sepBy hparam hseparator hparam id).bind fun _ => (afterGap_forks hcloser.forks).bind fun _ =>
    SkipsGap.blind.forks.bind fun _ => .pure _

/-! ### Heads of variables -/

namespace Variable

theorem Specifier.parser_forks {strict : Bool} :
    Forks ends (IsPlace strict opened) (IsPlace strict opened) Specifier.parser Specifier.parser := by
  have hlinkage : Blind ends (IsPlace strict opened) (IsPlace strict opened) (literal "\"C\"") :=
    literal_string_blind ['C'] rfl (by decide)
  exact beforeGap_forks (.firstOf (.cons ((keyword_word_forks (by decide)).map _) (.cons ((keyword_word_forks (by decide)).map _)
    (.cons ((keyword_word_forks (by decide)).bind fun _ => (Forks.opt (afterGap_forks hlinkage.forks) id).bind fun _ => .pure _)
      (.cons ((identifier_blind.forks.filterMap _).map _) .nil)))))

namespace Head

theorem upToName_forks (room : Nat) : Forks ends (IsPlace true opened) (IsPlace true opened) (upToName room) (upToName room) :=
  leadingComment_forks.bind fun _ => (Forks.opt (templateHead_forks room opened) id).bind fun _ => attributes_forks.bind fun _ =>
    (Forks.many Specifier.parser_forks).bind fun _ => (Forks.opt (beforeGap_forks (anyKeyword_forks (by decide))) id).bind fun _ =>
    (named_forks (templateArgs_forks room (.inl rfl))).bind fun _ => .pure _

theorem parser_forks (room : Nat) (isTrailing : Bool) :
    Forks ends (IsPlace true opened) (IsPlace true opened) (parser room isTrailing) (parser room isTrailing) := by
  cases isTrailing with
  | false => exact upToName_forks room
  | true =>
    exact (upToName_forks room).bind fun _ => (afterGap_forks (keyword_word_forks (by decide))).bind fun _ => .pure _

end Head

/-! ### Variables -/

theorem firstDeclarator_forks {strict : Bool} (hadmits : Admits ends opened) (room : Nat) (base : CType) :
    Forks ends (IsPlace strict opened) (IsPlace strict opened) (firstDeclarator room base) (firstDeclarator room base) := by
  refine (CType.suffixed_forks base).bind fun type => (declarator_forks hadmits room type false).bind fun first => ?_
  split
  · exact .mismatch _
  · exact .pure _

end Variable

theorem variableStatement_alike (hends : ends.Agree) (hbody : IsBody opened) (room : Nat) :
    EndsAlike ends opened (variableStatement room) (variableStatement room) := by
  have hadmits := hbody.admits hends
  rw [Variable.variableStatement_eq]
  refine (Variable.Head.upToName_forks room).bind fun head => (Variable.firstDeclarator_forks hadmits room head.base).bind
    fun (type, first) => ?_
  have hfurther : Forks ends (IsPlace true opened) (IsPlace true opened) (Variable.furtherDeclarator room type.declaredBase)
      (Variable.furtherDeclarator room type.declaredBase) :=
    (comma_forks fun _ => hends.lacks (by decide)).bind fun _ => declarator_forks hadmits room type.declaredBase false
  exact (Forks.many hfurther).bind fun _ => (statementEnd_alike hends.same).bind fun _ => .pure _

end HeaderOutline
