import HeaderOutline.Function
import HeaderOutline.Proofs.Declarator.HeadFork
import HeaderOutline.Proofs.Lexeme.Plain
/-!
# Functions of a text with two ends

A function of a strictly closed text is read in the same way whatever stands behind the text. It ends in the text, or at
the semicolon behind it.
-/

namespace HeaderOutline

open HeaderOutline.Parser HeaderOutline.CType

variable {ends : EndPair} {opened : List Char}

/-- Signs that are read one by one where only braces are open. -/
theorem literal_body_blind (hbody : IsBody opened) {word : String}
    (hword : ∀ c ∈ word.toList, c ∉ ['\'', '"', '/', '}', ';', ',', '{']) :
    Blind ends (IsPlace true opened) (IsPlace true opened) (literal word) := by
  refine literal_blind (fun c hc hmem => ?_) fun {rest} htext => ?_
  · have := hword c hmem
    simp_all
  · generalize word.toList = front at hword htext
    induction front with
    | nil => exact htext
    | cons c front ih =>
      have hc := hword c List.mem_cons_self
      refine ih (fun d hd => hword d (List.mem_cons_of_mem c hd)) (hbody.behind ?_ (Scan.isCode_of_ne ?_ _) htext) <;> simp_all

namespace FunctionSpecifier

theorem parser_forks : Forks ends (IsPlace true opened) (IsPlace true opened) parser parser := by
  have hlinkage : Blind ends (IsPlace true opened) (IsPlace true opened) (literal "\"C\"") :=
    literal_string_blind ['C'] rfl (by decide)
  have hwords : ∀ word ∈ ["virtual", "static", "inline", "explicit", "constexpr", "consteval", "friend"], IsInertWord word := by
    decide
  refine Relates.map _ (.firstOf (List.rel_append ?_ (.cons ?_ .nil)))
  · rw [List.forall₂_map_left_iff, List.forall₂_map_right_iff, List.forall₂_same]
    exact fun word hword => keyword_word_forks (hwords word hword)
  · exact (keyword_word_forks (by decide)).bind fun _ => (Forks.opt (afterGap_forks hlinkage.forks) id).bind fun _ => .pure _

theorem listParser_forks : Forks ends (IsPlace true opened) (IsPlace true opened) listParser listParser :=
  (Forks.many (beforeGap_forks (.firstOf (.cons (parser_forks.map _) (.cons (attributeMark_forks.map _) .nil))))).bind
    fun _ => .pure _

end FunctionSpecifier

namespace FunctionDecl

/-! ### Names -/

theorem operatorName_forks (hends : ends.Agree) (hbody : IsBody opened) (room : Nat) :
    Forks ends (IsPlace true opened) (IsPlace true opened) (operatorName room) (operatorName room) := by
  have hbrackets : Blind ends (IsPlace true opened) (IsPlace true opened) (literal "[]") := literal_body_blind hbody (by decide)
  have hcall : Blind ends (IsPlace true opened) (IsPlace true opened) (literal "()") := literal_body_blind hbody (by decide)
  have hliteral : Blind ends (IsPlace true opened) (IsPlace true opened) (literal "\"\"") :=
    literal_string_blind [] rfl (by decide)
  have hoperators : ∀ c ∈ "+-*/%^&|~!=<>,".toList, c ≠ '}' ∧ c ∉ ['('] := by decide
  have hsigns : Blind ends (IsPlainPlace ['('] opened) (IsPlainPlace ['('] opened) (takeWhile1 .run isOperatorChar) := by
    refine takeWhile1_plain hbody .run (fun c hc => hoperators c (List.contains_iff_mem.1 hc)) fun c hc => ?_
    have hmarks : ∀ c ∈ [';', '}'], isOperatorChar c = false := by decide
    exact hmarks c (hends.mem_of_mem hc)
  refine Forks.textOf (operator_plain.bind fun _ => afterGap_plain hbody (Relates.firstOf ?_))
  refine .cons ?_ (.cons ?_ (.cons ?_ (.cons ?_ (.cons ?_ (.cons ?_ .nil)))))
  · exact hcall.forks.mono (Fork.mono IsPlainPlace.place) id
  · exact hbrackets.forks.mono (Fork.mono IsPlainPlace.place) id
  · refine Relates.mono (Forks.textOf ?_) (Fork.mono IsPlainPlace.place) id
    exact (anyKeyword_forks (by decide)).bind fun _ => Forks.opt (afterGap_forks hbrackets.forks) id
  · refine Relates.mono (Forks.textOf ?_) (Fork.mono IsPlainPlace.place) id
    exact hliteral.forks.bind fun _ => afterGap_forks identifier_blind.forks
  · exact hsigns.forks.mono id (Fork.mono IsPlainPlace.place)
  · exact Relates.mono (Forks.textOf (cType_forks room (.inl rfl))) (Fork.mono IsPlainPlace.place) id

theorem nameParser_forks (hends : ends.Agree) (hbody : IsBody opened) (room : Nat) :
    Forks ends (IsPlace true opened) (IsPlace true opened) (nameParser room) (nameParser room) := by
  have hcolons : Blind ends (IsPlace true opened) (IsPlace true opened) (literal "::") := literal_word_blind (by decide)
  have htilde : Blind ends (IsPlace true opened) (IsPlace true opened) (char '~') :=
    char_inert_blind (by decide) fun _ => hends.lacks (by decide)
  refine Forks.textOf ((Forks.many ?_).bind fun _ => Relates.firstOf (.cons (operatorName_forks hends hbody room) (.cons ?_ (.cons ?_ .nil))))
  · exact plainName_forks.bind fun _ => (Forks.opt (afterGap_forks angleBrackets_blind.forks) id).bind fun _ => hcolons.forks
  · exact Forks.textOf (htilde.forks.bind fun _ => afterGap_forks identifier_blind.forks)
  · exact plainName_forks

theorem signature_forks (hends : ends.Agree) (hbody : IsBody opened) (room : Nat) :
    Forks ends (IsPlace true opened) (IsPlace true opened) (signature room) (signature room) := by
  have hopener : Blind ends (IsPlace true opened) (IsStart true ('(' :: opened)) (char '(') :=
    char_opener_blind (by decide) fun _ => hends.lacks (by decide)
  have hlook := Relates.lookahead (afterGap_forks hopener.forks)
  exact .firstOf (.cons ((cType_forks room (.inl rfl)).bind fun _ =>
      (afterGap_forks (nameParser_forks hends hbody room)).bind fun _ => hlook.bind fun _ => .pure _)
    (.cons (((nameParser_forks hends hbody room).filter _).bind fun _ => hlook.bind fun _ => .pure _) .nil))

/-! ### What stands behind the parameters -/

theorem Qualifier.parser_forks (hbody : IsBody opened) (room : Nat) :
    Forks ends (IsPlace true opened) (IsPlace true opened) (Qualifier.parser room) (Qualifier.parser room) := by
  have hkeyword {word : String} (hword : IsInertWord word) :
      Forks ends (IsPlace true opened) (IsPlace true opened) (keyword word) (keyword word) := keyword_word_forks hword
  have harrow : Blind ends (IsPlace true opened) (IsPlace true opened) (literal "->") := literal_body_blind hbody (by decide)
  have href : Blind ends (IsPlace true opened) (IsPlace true opened) (literal "&") := literal_word_blind (by decide)
  have hrref : Blind ends (IsPlace true opened) (IsPlace true opened) (literal "&&") := literal_word_blind (by decide)
  refine .firstOf ?_
  refine .cons ((hkeyword (by decide)).map _) (.cons ((hkeyword (by decide)).map _) (.cons ?_ (.cons ?_ (.cons
    ((hkeyword (by decide)).map _) (.cons ((hkeyword (by decide)).map _) (.cons ?_ (.cons ?_ (.cons (attributeMark_forks.map _) .nil))))))))
  · exact (hkeyword (by decide)).bind fun _ => (Forks.opt (afterGap_forks parentheses_blind.forks) id).bind fun _ => .pure _
  · exact (hkeyword (by decide)).bind fun _ => (afterGap_forks parentheses_blind.forks).bind fun _ => .pure _
  · exact (Relates.firstOf (.cons hrref.forks (.cons href.forks .nil))).map _
  · exact harrow.forks.bind fun _ => (afterGap_forks (cType_forks room (.inl rfl))).bind fun _ => .pure _

theorem definition_forks (hends : ends.Agree) :
    Forks ends (IsPlace true opened) (IsPlace true opened) definition definition := by
  have hsign : Blind ends (IsPlace true opened) (IsPlace true opened) (char '=') :=
    char_inert_blind (by decide) fun _ => hends.lacks (by decide)
  have hzero : Blind ends (IsPlace true opened) (IsPlace true opened) (char '0') :=
    char_inert_blind (by decide) fun _ => hends.lacks (by decide)
  exact (spaced_forks hsign.forks).bind fun _ => .firstOf (.cons (hzero.forks.map _)
    (.cons ((keyword_word_forks (by decide)).map _) (.cons ((keyword_word_forks (by decide)).map _) .nil)))

theorem constructorInitializers_forks (hends : ends.Agree) (hbody : IsBody opened) (room : Nat) :
    Forks ends (IsPlace true opened) (IsPlace true opened) (constructorInitializers room) (constructorInitializers room) := by
  have hcolon : Blind ends (IsPlace true opened) (IsPlace true opened) (char ':') :=
    char_inert_blind (by decide) fun _ => hends.lacks (by decide)
  have hdots : Blind ends (IsPlace true opened) (IsPlace true opened) (literal "...") := literal_word_blind (by decide)
  have hbraces : Blind ends (IsPlace true opened) (IsPlace true opened) braces := braces_blind fun _ => hends.lacks (by decide)
  have hitem := (nameParser_forks hends hbody room).bind fun _ => (Forks.opt angleBrackets_blind.forks id).bind fun _ =>
    (afterGap_forks (Relates.firstOf (.cons parentheses_blind.forks (.cons hbraces.forks .nil)))).bind fun _ => Forks.opt hdots.forks id
  have hseparator : Forks ends (IsPlace true opened) (IsPlace true opened) (spaced (char ',')) (spaced (char ',')) :=
    comma_forks fun _ => hends.lacks (by decide)
  exact (beforeGap_forks hcolon.forks).bind fun _ => (Forks.sepBy1 hitem hseparator hitem).bind fun _ => .pure _

theorem bodyParser_alike (hends : ends.Agree) (hbody : IsBody opened) (room : Nat) :
    EndsAlike ends opened (bodyParser room) (bodyParser room) := by
  have hbraces : Blind ends (IsPlace true opened) (IsPlace true opened) braces := braces_blind fun _ => hends.lacks (by decide)
  have hblock := SkipsGap.blind.forks.bind fun _ => (Forks.opt (constructorInitializers_forks hends hbody room) id).bind fun _ =>
    (afterGap_forks hbraces.forks).bind fun _ => Relates.pure true
  exact .firstOf (.cons ((statementEnd_alike hends.same).map _) (.cons (hblock.mono id .within) .nil))

end FunctionDecl

open FunctionDecl in
/-- A function ends in the text, or at the semicolon behind it. -/
theorem function_alike (hends : ends.Agree) (hbody : IsBody opened) (room : Nat) :
    EndsAlike ends opened (function room) (function room) := by
  have hsignature := signature_forks hends hbody room
  have hexported := (beforeGap_forks (identifier_blind.forks.filter isMacroName)).bind fun api =>
    FunctionSpecifier.listParser_forks.bind fun trailing => hsignature.bind fun signature =>
    Relates.pure (some api, trailing, signature)
  refine leadingComment_forks.bind fun _ => (Forks.opt (templateHead_forks room opened) id).bind fun _ =>
    FunctionSpecifier.listParser_forks.bind fun _ => (Relates.firstOf (.cons (hsignature.map _) (.cons hexported .nil))).bind
    fun (_, _, _) => ?_
  exact (afterGap_forks (paramList_forks room opened)).bind fun _ => (Forks.many (afterGap_forks (Qualifier.parser_forks hbody room))).bind
    fun _ => (Forks.opt (definition_forks hends) id).bind fun _ => (bodyParser_alike hends hbody room).bind fun _ => .pure _

end HeaderOutline
