import HeaderOutline.Proofs.Declarator.Rebase
import HeaderOutline.Proofs.Lexeme.Fork
/-!
# Declarators of a text with two ends

Types and declarators of a closed text are read in the same way in front of whatever ends a declarator. A comma inside
brackets separates parameters or arguments in both runs, and outside of brackets none is read.
-/

namespace HeaderOutline

open HeaderOutline.Parser

variable {ends : EndPair} {strict : Bool} {opened : List Char} {P Q : Text → Prop}

/-! ### Types -/

/-- Types may be read here as text: angle brackets match, or some other bracket is open. -/
def Encloses (strict : Bool) (opened : List Char) : Prop := strict = true ∨ opened ≠ []

theorem encloses_cons (strict : Bool) (c : Char) (opened : List Char) : Encloses strict (c :: opened) := .inr (List.cons_ne_nil c opened)

theorem oneOf_blind {chars : Text} (hend : ¬P []) : Blind ends P (fun _ => True) (oneOf chars) where
  cases {text} htext := by
    cases text with
    | nil => exact absurd htext hend
    | cons c text =>
      by_cases hc : c ∈ chars
      · exact .inl ⟨c, text, trivial, fun tail _ => oneOf_of_mem hc (text ++ tail)⟩
      · exact .inr fun tail _ => ⟨_, if_neg fun hmem => hc (List.contains_iff_mem.1 hmem)⟩

/-- A comma between brackets, or where the text does not end with one. -/
theorem separator_forks (hcomma : opened = [] → ends.Lacks ',') :
    Forks ends (IsPlace strict opened) (IsStart strict opened) (spaced (char ',')) (spaced (char ',')) :=
  afterGap_forks (beforeGap_forks (char_sign_blind (by decide) (by decide) hcomma).forks)

theorem comma_forks (hcomma : opened = [] → ends.Lacks ',') :
    Forks ends (IsPlace strict opened) (IsPlace strict opened) (spaced (char ',')) (spaced (char ',')) :=
  (separator_forks hcomma).mono id (Fork.mono IsStart.isPlace)

namespace CType

theorem Suffix.parser_forks : Forks ends (IsPlace strict opened) (IsPlace strict opened) Suffix.parser Suffix.parser :=
  .firstOf (.cons ((literal_word_blind (by decide)).forks.map _) (.cons ((literal_word_blind (by decide)).forks.map _)
    (.cons ((literal_word_blind (by decide)).forks.map _) (.cons ((keyword_word_forks (by decide)).map _)
      (.cons ((keyword_word_forks (by decide)).map _) .nil)))))

theorem suffixed_forks (type : CType) : Forks ends (IsPlace strict opened) (IsPlace strict opened) (suffixed type) (suffixed type) :=
  (Forks.many (afterGap_forks Suffix.parser_forks)).bind fun _ => .pure _

theorem baseName_forks : Forks ends (IsPlace strict opened) (IsPlace strict opened) baseName baseName := by
  have hdecltype : Forks ends (IsPlace strict opened) (IsPlace strict opened) decltypeName decltypeName :=
    Forks.textOf ((keyword_word_forks (by decide)).bind fun _ => afterGap_forks parentheses_blind.forks)
  have hwords : Forks ends (IsPlace strict opened) (IsPlace strict opened) (anyKeyword arithmeticWords) (anyKeyword arithmeticWords) :=
    anyKeyword_forks (by decide)
  have harithmetic : Forks ends (IsPlace strict opened) (IsPlace strict opened) arithmeticName arithmeticName :=
    Forks.textOf (Forks.sepBy1 hwords spaces1_blind.forks hwords)
  have hcolons : Forks ends (IsPlace strict opened) (IsPlace strict opened) (literal "::") (literal "::") :=
    (literal_word_blind (by decide)).forks
  have hpath : Forks ends (IsPlace strict opened) (IsPlace strict opened) pathNames pathNames :=
    (Forks.opt hcolons id).bind fun _ => (Forks.sepBy1 plainName_forks hcolons plainName_forks).bind fun _ => .pure _
  exact .firstOf (.cons (hdecltype.map _) (.cons (harithmetic.map _) (.cons (hpath.map _) .nil)))

theorem leadingQualifiers_forks :
    Forks ends (IsPlace strict opened) (IsPlace strict opened) leadingQualifiers leadingQualifiers :=
  (Forks.many (beforeGap_forks (anyKeyword_forks (by decide)))).bind fun _ => .pure _

section Args

variable {args : Parser (List CType)}

theorem named_forks (hargs : Forks ends (IsPlace strict opened) (IsPlace strict opened) args args) :
    Forks ends (IsPlace strict opened) (IsPlace strict opened) (named args) (named args) := by
  have hcolons : Forks ends (IsPlace strict opened) (IsPlace strict opened) (literal "::") (literal "::") :=
    (literal_word_blind (by decide)).forks
  refine Relates.recurse (R := fun _ : Unit => Fork ends (IsPlace strict opened))
    (S := fun _ => Fork ends (IsPlace strict opened)) (fun _ _ => Fork.measured) (fun p q hself _ => ?_) ()
  refine baseName_forks.bind fun base => (Forks.opt (afterGap_forks hargs) id).bind fun list => ?_
  cases list with
  | none => exact .pure base
  | some list =>
    refine (Forks.opt (hcolons.bind fun _ => hself ()) id).bind fun inner => ?_
    cases inner with
    | none => exact .pure _
    | some inner => exact .pure _

theorem unqualified_forks (hargs : Forks ends (IsPlace strict opened) (IsPlace strict opened) args args) (isConst : Bool) :
    Forks ends (IsPlace strict opened) (IsPlace strict opened) (unqualified args isConst) (unqualified args isConst) :=
  (Forks.opt (beforeGap_forks (anyKeyword_forks (by decide))) id).bind fun _ => (named_forks hargs).bind fun _ => suffixed_forks _

theorem qualified_forks (hargs : Forks ends (IsPlace strict opened) (IsPlace strict opened) args args) :
    Forks ends (IsPlace strict opened) (IsPlace strict opened) (qualified args) (qualified args) :=
  leadingQualifiers_forks.bind fun isConst => unqualified_forks hargs isConst

/-- The parameters of a function type stand in brackets of their own. -/
theorem typeArgument_forks (hargs : ∀ {opened}, Encloses strict opened → Forks ends (IsPlace strict opened) (IsPlace strict opened) args args)
    (hopened : opened ≠ []) :
    Forks ends (IsPlace strict opened) (IsPlace strict opened) (typeArgument args) (typeArgument args) := by
  have hparam : Forks ends (IsPlace strict ('(' :: opened)) (IsPlace strict ('(' :: opened)) (spaced (qualified args)) (spaced (qualified args)) :=
    spaced_forks (qualified_forks (hargs (encloses_cons ..)))
  have hcomma : '(' :: opened = [] → ends.Lacks ',' := nofun
  have hseparator : Forks ends (IsPlace strict ('(' :: opened)) (IsPlace strict ('(' :: opened)) (spaced (char ',')) (spaced (char ',')) :=
    comma_forks hcomma
  have hopener : Blind ends (IsPlace strict opened) (IsStart strict ('(' :: opened)) (char '(') :=
    char_opener_blind (by decide) fun hnil => absurd hnil hopened
  have hcloser : Forks ends (IsPlace strict ('(' :: opened)) (IsPlace strict opened) (char ')') (char ')') :=
    (char_closer_blind (by decide)).forks
  have hparams : Forks ends (IsPlace strict opened) (IsPlace strict opened)
      (do
        let _ ← afterGap (char '(')
        let params ← sepBy (spaced (char ',')) (spaced (qualified args))
        let _ ← afterGap (char ')')
        pure params)
      (do
        let _ ← afterGap (char '(')
        let params ← sepBy (spaced (char ',')) (spaced (qualified args))
        let _ ← afterGap (char ')')
        pure params) :=
    (afterGap_forks (hopener.forks.mono id (Fork.mono IsStart.isPlace))).bind fun _ =>
      (Forks.sepBy hparam hseparator hparam id).bind fun _ => (afterGap_forks hcloser).bind fun _ => .pure _
  have hends : Blind ends (IsPlace strict opened) (fun _ => True) (oneOf [',', '>']) := oneOf_blind fun hnil => hnil.ne_nil hopened rfl
  refine (qualified_forks (hargs (.inr hopened))).bind fun type => (Forks.opt hparams id).bind fun params =>
    (Relates.lookahead (afterGap_forks hends.forks)).bind fun _ => ?_
  cases params with
  | none => exact .pure type
  | some params => exact .pure _

theorem argument_forks (hargs : ∀ {opened}, Encloses strict opened → Forks ends (IsPlace strict opened) (IsPlace strict opened) args args)
    (hopened : opened ≠ []) :
    Forks ends (IsStart strict opened) (IsPlace strict opened) (argument args) (argument args) := by
  have htext : Blind ends (IsStart strict opened) (IsPlace strict opened) (expression [','] true) :=
    expression_blind nofun (.inr (.inr hopened)) (by decide) fun hnil => absurd hnil hopened
  exact .firstOf (.cons ((typeArgument_forks hargs hopened).mono (Fork.mono IsStart.isPlace) id) (.cons (htext.forks.map _) .nil))

end Args

end CType

open CType

/-- The brackets that are open behind a less sign. -/
def angled (strict : Bool) (opened : List Char) : List Char := if strict then '<' :: opened else opened

theorem Encloses.angled_ne_nil (hopened : Encloses strict opened) : angled strict opened ≠ [] := by
  rcases hopened with rfl | hopened
  · exact List.cons_ne_nil _ _
  · cases strict with
    | true => exact List.cons_ne_nil _ _
    | false => exact hopened

theorem less_blind : Blind ends (IsPlace strict opened) (IsStart strict (angled strict opened)) (char '<') := by
  refine char_blind (fun _ => EndPair.lacks_of_not_mem (by decide)) fun htext =>
    htext.start_behind (Scan.isCode_of_ne (by decide) _) (by decide) fun hstep hopened => ?_
  cases strict with
  | true =>
    rw [hstep.eq_cons (.inr ⟨rfl, rfl⟩)]
    exact hopened.cons_cons '<'
  | false =>
    exact hstep.sublist_of_head (fun d _ => ⟨fun hpair => absurd hpair.closer_mem (by decide), fun heq => absurd heq.2 (by decide)⟩)
      hopened

theorem greater_blind : Blind ends (IsPlace strict (angled strict opened)) (IsPlace strict opened) (char '>') := by
  refine char_blind (fun _ => EndPair.lacks_of_not_mem (by decide)) fun htext =>
    htext.behind (Scan.isCode_of_ne (by decide) _) fun hstep hopened => ?_
  cases strict with
  | true => exact hstep.sublist_of_cons hopened
  | false =>
    cases hstep with
    | passes => exact hopened
    | opens hc => exact absurd hc (by decide)
    | closes hpair => exact absurd hpair.closer_mem (by decide)
    | opensAngle hstrict => cases hstrict
    | closesAngle hstrict => cases hstrict

theorem templateArgs_forks (room : Nat) (hopened : Encloses strict opened) :
    Forks ends (IsPlace strict opened) (IsPlace strict opened) (templateArgs room) (templateArgs room) := by
  induction room generalizing opened with
  | zero => exact .unrecognized _
  | succ room ih =>
    have hinside := hopened.angled_ne_nil
    have hitem : Forks ends (IsStart strict (angled strict opened)) (IsPlace strict (angled strict opened))
        (spaced (argument (templateArgs room))) (spaced (argument (templateArgs room))) := spaced_forks (argument_forks ih hinside)
    exact less_blind.forks.bind fun _ =>
      (Forks.sepBy hitem (separator_forks fun hnil => absurd hnil hinside) hitem IsStart.isPlace).bind fun _ =>
      (afterGap_forks greater_blind.forks).bind fun _ => .pure _

/-! ### Declarators -/

/-- A declarator may stand here: what is read as text in it ends where the closed text does. -/
structure Admits (ends : EndPair) (opened : List Char) : Prop where
  head_ne : opened.head? ≠ some '<'
  ends : opened = [] → ends.EndDeclarator

theorem admits_cons {c : Char} (hc : c ≠ '<') : Admits ends (c :: opened) := ⟨fun hhead => hc (Option.some.inj hhead), nofun⟩

namespace Declarator

theorem arrayDimensions_forks :
    Forks ends (IsPlace strict opened) (IsPlace strict opened) arrayDimensions arrayDimensions := by
  have hopener : Blind ends (IsPlace strict opened) (IsStart strict ('[' :: opened)) (char '[') :=
    char_opener_blind (by decide) fun _ => EndPair.lacks_of_not_mem (by decide)
  have hsize : Blind ends (IsStart strict ('[' :: opened)) (IsPlace strict ('[' :: opened)) (expression [] false) :=
    expression_blind (fun _ => by simp) (.inr (.inl rfl)) (by decide) nofun
  exact Forks.many (afterGap_forks (hopener.forks.bind fun _ => (Forks.opt hsize.forks IsStart.isPlace).bind fun _ =>
    (afterGap_forks (char_closer_blind (by decide)).forks).bind fun _ => .pure _))

/-- Text behind a sign, up to where the declarator ends. -/
theorem clause_forks {c : Char} {stops : Text} (hadmits : Admits ends opened) (hc : IsInert c)
    (hsign : Scan.isNumberChar c = false ∧ c ∉ [';', ',', '{', '}']) (hstops : isStop stops '\n' = false ∧ isStop stops ',' = true) :
    Forks ends (IsPlace strict opened) (IsPlace strict opened) (spaced (char c) >>= fun _ => expression stops false)
      (spaced (char c) >>= fun _ => expression stops false) := by
  have hblind : Blind ends (IsPlace strict opened) (IsStart strict opened) (char c) :=
    char_sign_blind hc hsign.1 fun _ => EndPair.lacks_of_not_mem hsign.2
  have htext : Blind ends (IsStart strict opened) (IsPlace strict opened) (expression stops false) :=
    expression_blind (fun _ => hadmits.head_ne) (.inr (.inl rfl)) hstops.1 fun hnil => ⟨hadmits.ends hnil, hstops.2⟩
  exact (afterGap_forks (beforeGap_forks hblind.forks)).bind fun _ => htext.forks

theorem bitWidth_forks (hadmits : Admits ends opened) :
    Forks ends (IsPlace strict opened) (IsPlace strict opened) bitWidth bitWidth :=
  clause_forks hadmits (by decide) (by decide) (by decide)

theorem initializer_forks (hadmits : Admits ends opened) :
    Forks ends (IsPlace strict opened) (IsPlace strict opened) initializer initializer :=
  .firstOf (.cons (clause_forks hadmits (by decide) (by decide) (by decide))
    (.cons ((afterGap_forks (braces_blind fun hnil => (hadmits.ends hnil).lacks_brace).forks).map _)
      (.cons ((afterGap_forks parentheses_blind.forks).map _) .nil)))

section Params

variable {paramList paramList' : Parser ParamList}

theorem functionPointer_forks (hparams : Forks ends (IsPlace strict opened) (IsPlace strict opened) paramList paramList') (result : CType) :
    Forks ends (IsPlace strict opened) (IsPlace strict opened) (functionPointer paramList result) (functionPointer paramList' result) := by
  have hopener : Blind ends (IsPlace strict opened) (IsStart strict ('(' :: opened)) (char '(') :=
    char_opener_blind (by decide) fun _ => EndPair.lacks_of_not_mem (by decide)
  have hmark (c : Char) (hc : IsInert c ∧ Scan.isNumberChar c = false) :
      Forks ends (IsPlace strict ('(' :: opened)) (IsPlace strict ('(' :: opened)) (char c) (char c) := by
    have hblind : Blind ends (IsPlace strict ('(' :: opened)) (IsStart strict ('(' :: opened)) (char c) :=
      char_sign_blind hc.1 hc.2 nofun
    exact (hblind.mono id IsStart.isPlace).forks
  refine (afterGap_forks (beforeGap_forks hopener.forks)).bind fun _ =>
    ((Forks.opt (beforeGap_forks (identifier_blind.forks.filter _)) id).mono (Fork.mono IsStart.isPlace) id).bind fun _ =>
    (Relates.firstOf (.cons (hmark '*' (by decide)) (.cons (hmark '&' (by decide)) .nil))).bind fun mark =>
    (Forks.opt (afterGap_forks plainName_forks) id).bind fun _ => arrayDimensions_forks.bind fun _ =>
    (afterGap_forks (char_closer_blind (by decide)).forks).bind fun _ => (afterGap_forks hparams).bind fun _ => .pure _

theorem parserWith_forks (hadmits : Admits ends opened)
    (hparams : Forks ends (IsPlace strict opened) (IsPlace strict opened) paramList paramList') (base : CType) (isNamed : Bool) :
    Forks ends (IsPlace strict opened) (IsPlace strict opened) (parserWith paramList base isNamed) (parserWith paramList' base isNamed) := by
  rw [parserWith_eq, parserWith_eq]
  refine (suffixed_forks base).bind fun type => ?_
  have hname : Forks ends (IsPlace strict opened) (IsPlace strict opened) (nameWith paramList type) (nameWith paramList' type) :=
    .firstOf (.cons (functionPointer_forks hparams type) (.cons ((Forks.opt (afterGap_forks plainName_forks) id).map _) .nil))
  refine hname.bind fun (name, type) => ?_
  dsimp only
  split
  · exact .mismatch _
  · exact (Forks.opt (afterGap_forks hparams) id).bind fun _ => arrayDimensions_forks.bind fun _ =>
      (Forks.opt (bitWidth_forks hadmits) id).bind fun _ => (Forks.opt (initializer_forks hadmits) id).bind fun _ => .pure _

end Params

end Declarator

theorem paramList_forks (room : Nat) (opened : List Char) :
    Forks ends (IsPlace strict opened) (IsPlace strict opened) (paramList room) (paramList room) := by
  refine Relates.recurse (R := fun opened => Fork ends (IsPlace strict opened))
    (S := fun opened => Fork ends (IsPlace strict opened)) (fun _ _ => Fork.measured) (fun p q hself opened => ?_) opened
  have hopener : Blind ends (IsPlace strict opened) (IsStart strict ('(' :: opened)) (char '(') :=
    char_opener_blind (by decide) fun _ => EndPair.lacks_of_not_mem (by decide)
  have hparam : Forks ends (IsPlace strict ('(' :: opened)) (IsPlace strict ('(' :: opened)) (Param.parserWith p room) (Param.parserWith q room) :=
    attributes_forks.bind fun _ => leadingQualifiers_forks.bind fun isConst =>
      (unqualified_forks (templateArgs_forks room (encloses_cons ..)) isConst).bind fun type =>
      (Declarator.parserWith_forks (admits_cons (by decide)) (hself ('(' :: opened)) type false).bind fun _ => .pure _
  have hcloser : Forks ends (IsPlace strict ('(' :: opened)) (IsPlace strict opened) (char ')') (char ')') :=
    (char_closer_blind (by decide)).forks
  have hcomma : '(' :: opened = [] → ends.Lacks ',' := nofun
  have hseparator : Forks ends (IsPlace strict ('(' :: opened)) (IsPlace strict ('(' :: opened)) (spaced (char ',')) (spaced (char ',')) :=
    comma_forks hcomma
  have hvoid : Forks ends (IsPlace strict ('(' :: opened)) (IsPlace strict ('(' :: opened))
      (do
        let _ ← keyword "void"
        let _ ← lookahead (afterGap (char ')'))
        pure [])
      (do
        let _ ← keyword "void"
        let _ ← lookahead (afterGap (char ')'))
        pure ([] : List Param)) :=
    (keyword_word_forks (by decide)).bind fun _ => (Relates.lookahead (afterGap_forks hcloser)).bind fun _ => .pure _
  have hdots : Forks ends (IsPlace strict ('(' :: opened)) (IsPlace strict ('(' :: opened))
      (do
        let _ ← opt (spaced (char ','))
        afterGap (literal "..."))
      (do
        let _ ← opt (spaced (char ','))
        afterGap (literal "...")) :=
    (Forks.opt hseparator id).bind fun _ => afterGap_forks (literal_word_blind (by decide)).forks
  exact ((beforeGap_forks hopener.forks).mono id (Fork.mono IsStart.isPlace)).bind fun _ =>
    (Relates.firstOf (.cons hvoid (.cons (Forks.sepBy hparam hseparator hparam id) .nil))).bind fun _ =>
    (Forks.opt hdots id).bind fun _ => (afterGap_forks hcloser).bind fun _ => .pure _

/-- A declarator of a closed text is the same whatever ends it. -/
theorem declarator_forks (hadmits : Admits ends opened) (room : Nat) (base : CType) (isNamed : Bool) :
    Forks ends (IsPlace strict opened) (IsPlace strict opened) (declarator room base isNamed) (declarator room base isNamed) :=
  Declarator.parserWith_forks hadmits (paramList_forks room opened) base isNamed

end HeaderOutline
