import HeaderOutline.Proofs.Record.Fork
import HeaderOutline.Scope.Parser
/-!
# Scopes of a text with two ends

The items of a block are read in the same way whatever stands behind a strictly closed text. A block in the text ends in the
text, so that the induction is on the room as for classes. The block that the text itself is ends at the brace behind it:
a closed body is the same in front of anything.
-/

namespace HeaderOutline

open HeaderOutline.Parser

variable {ends : EndPair} {opened : List Char} {room : Nat} {body body' : Parser Scope}

/-! ### Namespaces -/

namespace Namespace

theorem aliasStatement_alike (hends : ends.Agree) (hbody : IsBody opened) : EndsAlike ends opened aliasStatement aliasStatement := by
  have hsign : Blind ends (IsPlainPlace ";\x7b\x7d".toList opened) (IsPlainPlace ";\x7b\x7d".toList opened) (char '=') :=
    char_plain hbody (hends.lacks (by decide)) (by decide) (by decide)
  have htarget : Blind ends (IsPlainPlace ";\x7b\x7d".toList opened) (IsPlainPlace ";\x7b\x7d".toList opened) (noneOf1 ";\x7b\x7d") :=
    noneOf1_plain hends hbody (by decide)
  refine Past.textOf hends.same ((beforeGap_plain hbody (keyword_plain (by decide))).bind fun _ =>
    (identifier_plain hbody).forks.bind fun _ => (afterGap_plain hbody (beforeGap_plain hbody hsign.forks)).bind fun _ =>
    htarget.forks.bind fun _ => ?_)
  exact (semicolon_alike hends.same).mono (Fork.mono IsPlainPlace.place) id

theorem segment_forks : Forks ends (IsPlace true opened) (IsPlace true opened) segment segment :=
  (Forks.opt (beforeGap_forks (keyword_word_forks (by decide))) id).bind fun _ => identifier_blind.forks

/-- A brace opens the body of a block. -/
theorem opener_forks (hends : ends.Agree) : Forks ends (IsPlace true opened) (IsPlace true ('\x7b' :: opened)) (char '\x7b') (char '\x7b') := by
  have hopener : Blind ends (IsPlace true opened) (IsStart true ('\x7b' :: opened)) (char '\x7b') :=
    char_opener_blind (by decide) fun _ => hends.lacks (by decide)
  exact hopener.forks.mono id (Fork.mono IsStart.isPlace)

theorem parserWith_alike (hends : ends.Agree)
    (hblock : Forks ends (IsPlace true ('\x7b' :: opened)) (IsPlace true opened) body body') :
    EndsAlike ends opened (parserWith body) (parserWith body') := by
  have hcolons : Blind ends (IsPlace true opened) (IsPlace true opened) (literal "::") := literal_word_blind (by decide)
  have hsegment : Forks ends (IsPlace true opened) (IsPlace true opened) segment segment := segment_forks
  have hnames := Forks.sepBy1 hsegment (spaced_forks hcolons.forks) hsegment
  exact spaces0_blind.forks.bind fun _ => (Forks.opt (beforeGap_forks (keyword_word_forks (by decide))) id).bind fun _ =>
    (beforeGap_forks (keyword_word_forks (by decide))).bind fun _ => attributes_forks.bind fun _ =>
    (Forks.opt (beforeGap_forks hnames) id).bind fun _ => attributes_forks.bind fun _ => (opener_forks hends).bind fun _ =>
    hblock.bind fun _ => (Relates.opt (statementEnd_alike hends.same) .within).bind fun _ => .pure _

end Namespace

namespace Scope

/-! ### Instantiations -/

/-- Behind `template` stands a list of parameters, or what is skipped as it is. -/
def IsBehindTemplate (opened : List Char) (text : Text) : Prop :=
  IsPlace true opened text ∧ ((text.dropWhile isSpace).head? = some '<' ∨ isPlain ";\x7b\x7d".toList text = true)

theorem keyword_template_forks : Forks ends (IsPlace true opened) (IsBehindTemplate opened) (keyword "template") (keyword "template") := by
  have hword : IsInertWord "template" := by decide
  refine keyword_forks (literal_blind hword.not_mem fun {rest} htext => ⟨htext.of_append fun c hc => (hword c hc).1, ?_⟩)
  have hplain : skipsPlainly ("template".toList ++ rest) = true := htext.skipsPlainly (Scan.isCode_of_ne (by decide) _)
  simp only [skipsPlainly, after?_self, Option.all_some, Bool.and_eq_true, Bool.or_eq_true, beq_iff_eq] at hplain
  exact hplain.1.2

/-- What stands behind the word and the gap. -/
theorem beforeGap_template_forks (hbody : IsBody opened) : Forks ends (IsPlace true opened)
    (fun text => text.head? = some '<' ∨ IsPlainPlace ";\x7b\x7d".toList opened text)
    (beforeGap (keyword "template")) (beforeGap (keyword "template")) := by
  have hgap : Blind ends (IsBehindTemplate opened) (fun text => text.head? = some '<' ∨ IsPlainPlace ";\x7b\x7d".toList opened text)
      skipGap := by
    constructor
    rintro text ⟨hplace, hangle | hplain⟩
    · obtain ⟨rest, hrest⟩ := List.head?_eq_some_iff.1 hangle
      refine .inl ⟨(), '<' :: rest, .inl rfl, fun tail _ => ?_⟩
      rw [skipGap, ← List.takeWhile_append_dropWhile (p := isSpace) (l := text), List.append_assoc,
        gapEnd_append (isSpaces_takeWhile text), hrest, List.cons_append, gapEnd_cons (by decide) (by decide)]
    · exact ((skipGap_plain hbody).mono id .inr).cases ⟨by decide, hplace, hplain⟩
  exact keyword_template_forks.bind fun _ => hgap.forks.bind fun _ => .pure _

theorem explicitInstantiation_alike (hends : ends.Agree) (hbody : IsBody opened) :
    EndsAlike ends opened explicitInstantiation explicitInstantiation := by
  have hangle : Blind ends (IsPlainPlace ";\x7b\x7d".toList opened) (IsPlainPlace ";\x7b\x7d".toList opened) (char '<') :=
    char_plain hbody (hends.lacks (by decide)) (by decide) (by decide)
  have htarget : Blind ends (IsPlainPlace ";\x7b\x7d".toList opened) (IsPlainPlace ";\x7b\x7d".toList opened) (noneOf1 ";\x7b\x7d") :=
    noneOf1_plain hends hbody (by decide)
  have hplain := hangle.forks.notFollowedBy.bind fun _ => htarget.forks.bind fun _ =>
    (semicolon_alike hends.same).mono (Fork.mono IsPlainPlace.place) id
  have hhead : Blind ends (fun text => text.head? = some '<') (IsPlace true opened)
      (do let _ ← notFollowedBy (char '<'); let _ ← noneOf1 ";\x7b\x7d"; char ';') := by
    constructor
    intro text hangle
    obtain ⟨rest, rfl⟩ := List.head?_eq_some_iff.1 hangle
    exact .inr fun tail _ => .bind (.notFollowedBy (char_cons '<' (rest ++ tail)))
  refine Past.textOf hends.same ((Forks.opt (beforeGap_forks (keyword_word_forks (by decide))) id).bind fun _ =>
    (beforeGap_template_forks hbody).bind fun _ => ⟨?_⟩)
  rintro _ _ ⟨htext | htext⟩
  · exact (hhead.forks.mono id .within).outcome (.intro htext)
  · exact hplain.outcome (.intro htext)

/-! ### Linkage blocks -/

theorem linkageBlock_forks (hends : ends.Agree)
    (hblock : Forks ends (IsPlace true ('\x7b' :: opened)) (IsPlace true opened) body body') :
    Forks ends (IsPlace true opened) (IsPlace true opened) (linkageBlock body) (linkageBlock body') := by
  have hc : Blind ends (IsPlace true opened) (IsPlace true opened) (literal "\"C\"") := literal_string_blind ['C'] rfl (by decide)
  have hcpp : Blind ends (IsPlace true opened) (IsPlace true opened) (literal "\"C++\"") :=
    literal_string_blind "C++".toList rfl (by decide)
  exact (beforeGap_forks (keyword_word_forks (by decide))).bind fun _ =>
    (Relates.firstOf (.cons hc.forks (.cons hcpp.forks .nil))).bind fun _ =>
    (afterGap_forks (Namespace.opener_forks hends)).bind fun _ => hblock

/-! ### Items -/

theorem itemWith_alike (hends : ends.Agree) (hbody : IsBody opened) (room : Nat)
    (hblock : Forks ends (IsPlace true ('\x7b' :: opened)) (IsPlace true opened) body body') :
    EndsAlike ends opened (itemWith room body) (itemWith room body') := by
  have hrecord := recordDefinition_forks hends hbody room
  refine spaces0_blind.forks.bind fun _ => .firstOf ?_
  exact .cons ((semicolon_alike hends.same).map _) (.cons ((directive_blind.forks.mono id .within).map _)
    (.cons ((Namespace.aliasStatement_alike hends hbody).map _) (.cons ((Namespace.parserWith_alike hends hblock).map _)
    (.cons (((linkageBlock_forks hends hblock).mono id .within).map _) (.cons ((staticAssertion_alike hends).map _)
    (.cons ((explicitInstantiation_alike hends hbody).map _) (.cons ((typedefWith_alike hends hbody room hrecord).map _)
    (.cons ((usingAlias_alike hends hbody room).map _) (.cons ((usingDeclaration_alike hends hbody).map _)
    (.cons ((enumeration_alike hends hbody room).map _) (.cons ((recordWith_alike hends hbody room hrecord).map _)
    (.cons ((function_alike hends hbody room).map _) (.cons ((variableStatement_alike hends hbody room).map _)
    (.cons ((macroInvocation_alike hends).map _) (.cons ((comment_forks.mono id .within).map _)
    (.cons (.unrecognized _) .nil))))))))))))))))

end Scope

/-! ### Blocks -/

/-- A block in the text ends in it. -/
theorem scope_forks (hends : ends.Agree) (hbody : IsBody opened) (room : Nat) :
    Forks ends (IsPlace true ('\x7b' :: opened)) (IsPlace true opened) (scope room true) (scope room true) := by
  induction room generalizing opened with
  | zero => exact .unrecognized _
  | succ room ih =>
    have hnil : ¬IsPlace true ('\x7b' :: opened) [] := fun hplace => hplace.ne_nil (List.cons_ne_nil _ _) rfl
    have hitem : Forks ends (IsPlace true ('\x7b' :: opened)) (IsPlace true ('\x7b' :: opened)) (scopeItem room) (scopeItem room) :=
      (Scope.itemWith_alike hends hbody.cons room (ih hbody.cons)).mono id (Past.fork_of_not_nil hnil)
    have hcloser : Blind ends (IsPlace true ('\x7b' :: opened)) (IsPlace true opened) (char '\x7d') := char_closer_blind (by decide)
    have hend : Forks ends (IsPlace true ('\x7b' :: opened)) (IsPlace true opened) (Scope.scopeEnd true) (Scope.scopeEnd true) :=
      spaces0_blind.forks.bind fun _ => hcloser.forks.map _
    exact (Relates.manyTill hitem hend Fork.measured).map _

/-- The closing brace of a block in both runs. -/
def blockEnds (behind behind' : Text) : EndPair where
  stop := '\x7d'
  stop' := '\x7d'
  back := behind
  back' := behind'
  marks := by decide

/-- A closed body that ends with the brace behind it is the same in front of anything. -/
theorem scope_of_closed {text behind : Text} {contents : Scope} (hclosed : IsClosed true text)
    (hread : scope room true (text ++ '\x7d' :: behind) = .ok contents behind) (behind' : Text) :
    scope room true (text ++ '\x7d' :: behind') = .ok contents behind' := by
  have hends : (blockEnds behind behind').Agree := ⟨rfl, List.mem_cons_of_mem ';' List.mem_cons_self⟩
  have htext : Fork (blockEnds behind behind') (IsPlace true []) (text ++ '\x7d' :: behind) (text ++ '\x7d' :: behind') :=
    .intro hclosed.isStart.isPlace
  have hne : (blockEnds behind behind').stop ≠ ';' := by
    change '\x7d' ≠ ';'
    decide
  have hclose : Relates (Fork (blockEnds behind behind') (IsPlace true [])) (Past (blockEnds behind behind') '\x7d' (IsPlace true []))
      (char '\x7d') (char '\x7d') :=
    char_past rfl id fun htext => htext.behind (Scan.isCode_of_ne (by decide) _) fun _ _ => List.nil_sublist _
  cases room with
  | zero => cases hread
  | succ room =>
    have hitem : Forks (blockEnds behind behind') (IsPlace true []) (IsPlace true []) (scopeItem room) (scopeItem room) :=
      (Scope.itemWith_alike hends isBody_nil room (scope_forks hends isBody_nil room)).mono id (Past.fork_of_ne hne)
    have hend : Relates (Fork (blockEnds behind behind') (IsPlace true [])) (Past (blockEnds behind behind') '\x7d' (IsPlace true []))
        (Scope.scopeEnd true) (Scope.scopeEnd true) := spaces0_blind.forks.bind fun _ => hclose.map _
    have hscope : Relates (Fork (blockEnds behind behind') (IsPlace true [])) (Past (blockEnds behind behind') '\x7d' (IsPlace true []))
        (scope (room + 1) true) (scope (room + 1) true) := (Relates.manyTill hitem hend Fork.measured).map _
    obtain ⟨rest', hread', hrest⟩ := (hscope.outcome htext).exists_ok hread
    obtain rfl := hrest.eq_back
    exact hread'

end HeaderOutline
