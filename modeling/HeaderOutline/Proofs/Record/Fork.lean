import HeaderOutline.Proofs.Comment.Body
import HeaderOutline.Proofs.Declarator.StatementFork
import HeaderOutline.Proofs.Function.Fork
/-!
# Classes of a text with two ends

The items of a class body are read in the same way whatever stands behind a strictly closed text. In a body of the text a
class ends in the text; the level of nesting goes down with every body, so that the induction is on the room.
-/

namespace HeaderOutline

open HeaderOutline.Parser

variable {ends : EndPair} {opened : List Char} {room : Nat}

/-! ### Heads -/

theorem RecordKind.parser_forks : Forks ends (IsPlace true opened) (IsPlace true opened) RecordKind.parser RecordKind.parser :=
  .firstOf (.cons ((keyword_word_forks (by decide)).map _) (.cons ((keyword_word_forks (by decide)).map _)
    (.cons ((keyword_word_forks (by decide)).map _) .nil)))

theorem Base.listParser_forks (hcomma : ends.Lacks ',') (room : Nat) (access : Access) :
    Forks ends (IsPlace true opened) (IsPlace true opened) (Base.listParser room access) (Base.listParser room access) := by
  have hcolon : Blind ends (IsPlace true opened) (IsPlace true opened) (char ':') :=
    char_inert_blind (by decide) fun _ => EndPair.lacks_of_not_mem (by decide)
  have hbase : Forks ends (IsPlace true opened) (IsPlace true opened) (Base.parser room access) (Base.parser room access) :=
    (Forks.many (beforeGap_forks (anyKeyword_forks (by decide)))).bind fun _ => (cType_forks room (.inl rfl)).bind fun _ => .pure _
  exact (spaced_forks hcolon.forks).bind fun _ => Forks.sepBy1 hbase (comma_forks fun _ => hcomma) hbase

/-- The head of a class has no end but the one of the text. -/
theorem recordHead_forks (hsame : ends.stop' = ends.stop) (hcomma : ends.Lacks ',') (room : Nat) :
    Forks ends (IsPlace true opened) (IsPlace true opened) (recordHead room) (recordHead room) := by
  have hcolons : Blind ends (IsPlace true opened) (IsPlace true opened) (literal "::") := literal_word_blind (by decide)
  have hidentifier : Forks ends (IsPlace true opened) (IsPlace true opened) identifier identifier := identifier_blind.forks
  have hname : Forks ends (IsPlace true opened) (IsPlace true opened) recordName recordName :=
    Forks.textOf (Forks.sepBy1 hidentifier hcolons.forks hidentifier)
  have hforward : Forks ends (IsPlace true opened) (IsPlace true opened) (opt (lookahead (afterGap (char ';'))))
      (opt (lookahead (afterGap (char ';')))) := Forks.opt (Relates.lookahead (statementEnd_alike hsame)) id
  have hexport := (hidentifier.filter isMacroName).bind fun api =>
    (Relates.lookahead (afterGap_forks (hidentifier.filter fun word => word != "final".toList))).bind fun _ => Relates.pure api
  refine leadingComment_forks.bind fun _ => (Forks.opt (templateHead_forks room opened) id).bind fun _ =>
    (beforeGap_forks RecordKind.parser_forks).bind fun kind => attributes_forks.bind fun _ => (Forks.opt hexport id).bind fun _ =>
    (afterGap_forks attributes_forks).bind fun _ => (Forks.opt (beforeGap_forks hname) id).bind fun name =>
    (Forks.opt (beforeGap_forks (angleBrackets_blind.forks.map _)) id).bind fun _ =>
    (Forks.opt (beforeGap_forks (keyword_word_forks (by decide))) id).bind fun _ =>
    (Forks.opt (Base.listParser_forks hcomma room kind.defaultAccess) id).bind fun _ => ?_
  dsimp only
  split
  · exact hforward.bind fun _ => .pure _
  · exact .pure _

/-! ### Statements -/

section Definition

variable {body body' : Parser (List RecordItem)} {definition definition' : Parser Record}

theorem recordDefinitionWith_forks (hends : ends.Agree) (room : Nat)
    (hitems : Forks ends (IsPlace true ('{' :: opened)) (IsPlace true opened) body body') :
    Forks ends (IsPlace true opened) (IsPlace true opened) (recordDefinitionWith room body) (recordDefinitionWith room body') := by
  have hopener : Blind ends (IsPlace true opened) (IsStart true ('{' :: opened)) (char '{') :=
    char_opener_blind (by decide) fun _ => hends.lacks (by decide)
  rw [recordDefinitionWith_eq, recordDefinitionWith_eq]
  refine (recordHead_forks hends.same (hends.lacks (by decide)) room).bind fun head => ?_
  split
  · exact .pure head
  · exact (afterGap_forks (hopener.forks.mono id (Fork.mono IsStart.isPlace))).bind fun _ => hitems.bind fun _ => .pure _

theorem recordWith_alike (hends : ends.Agree) (hbody : IsBody opened) (room : Nat)
    (hdefinition : Forks ends (IsPlace true opened) (IsPlace true opened) definition definition') :
    EndsAlike ends opened (recordWith room definition) (recordWith room definition') := by
  refine hdefinition.bind fun record => ?_
  split
  · exact (statementEnd_alike hends.same).bind fun _ => .pure _
  · exact (Forks.opt (instances_forks hends hbody room) id).bind fun _ =>
      (Relates.commit (Relates.expecting _ (statementEnd_alike hends.same))).bind fun _ => .pure _

theorem typedefWith_alike (hends : ends.Agree) (hbody : IsBody opened) (room : Nat)
    (hdefinition : Forks ends (IsPlace true opened) (IsPlace true opened) definition definition') :
    EndsAlike ends opened (typedefWith room definition) (typedefWith room definition') := by
  have htarget : Forks ends (IsPlace true opened) (IsPlace true opened) (Typedef.Target.parser room definition)
      (Typedef.Target.parser room definition') :=
    .firstOf (.cons ((hdefinition.filter _).map _) (.cons (((enumerationDefinition_forks hends room).filter _).map _)
      (.cons ((cType_forks room (.inl rfl)).map _) .nil)))
  have hdeclarator (base : CType) : Forks ends (IsPlace true opened) (IsPlace true opened) (declarator room base true)
      (declarator room base true) := declarator_forks (hbody.admits hends) room base true
  refine leadingComment_forks.bind fun _ => (beforeGap_forks (keyword_word_forks (by decide))).bind fun _ => htarget.bind fun target =>
    (afterGap_forks (hdeclarator target.base)).bind fun _ => ?_
  exact (Forks.many ((comma_forks fun _ => hends.lacks (by decide)).bind fun _ => hdeclarator target.base.declaredBase)).bind fun _ =>
    (statementEnd_alike hends.same).bind fun _ => .pure _

theorem accessLabel_forks : Forks ends (IsPlace true opened) (IsPlace true opened) accessLabel accessLabel := by
  have hcolon : Blind ends (IsPlace true opened) (IsPlace true opened) (char ':') :=
    char_inert_blind (by decide) fun _ => EndPair.lacks_of_not_mem (by decide)
  exact (Relates.firstOf (.cons ((anyKeyword_forks (by decide)).map _) (.cons ((anyKeyword_forks (by decide)).map _) .nil))).bind
    fun _ => (Forks.opt (afterGap_forks (anyKeyword_forks (by decide))) id).bind fun _ => (afterGap_forks hcolon.forks).bind
    fun _ => (Relates.notFollowedBy hcolon.forks).bind fun _ => .pure _

theorem friendClass_alike (hends : ends.Agree) (room : Nat) : EndsAlike ends opened (friendClass room) (friendClass room) :=
  (Forks.opt (templateHead_forks room opened) id).bind fun _ => (beforeGap_forks (keyword_word_forks (by decide))).bind fun _ =>
    (Forks.opt (beforeGap_forks RecordKind.parser_forks) id).bind fun _ => (Forks.textOf (cType_forks room (.inl rfl))).bind fun _ =>
    (statementEnd_alike hends.same).bind fun _ => .pure _

/-- An item of a class body. -/
theorem recordItemWith_alike (hends : ends.Agree) (hbody : IsBody opened) (room : Nat)
    (hdefinition : Forks ends (IsPlace true opened) (IsPlace true opened) definition definition') :
    EndsAlike ends opened (recordItemWith room definition) (recordItemWith room definition') := by
  refine spaces0_blind.forks.bind fun _ => .firstOf ?_
  exact .cons ((semicolon_alike hends.same).map _) (.cons ((directive_blind.forks.mono id .within).map _)
    (.cons ((accessLabel_forks.mono id .within).map _) (.cons ((staticAssertion_alike hends).map _)
    (.cons ((friendClass_alike hends room).map _) (.cons ((typedefWith_alike hends hbody room hdefinition).map _)
    (.cons ((usingAlias_alike hends hbody room).map _) (.cons ((usingDeclaration_alike hends hbody).map _)
    (.cons ((enumeration_alike hends hbody room).map _) (.cons ((recordWith_alike hends hbody room hdefinition).map _)
    (.cons ((function_alike hends hbody room).map _) (.cons ((variableStatement_alike hends hbody room).map _)
    (.cons ((macroInvocation_alike hends).map _) (.cons ((comment_forks.mono id .within).map _)
    (.cons (.unrecognized _) .nil))))))))))))))

end Definition

/-! ### Bodies -/

/-- A body in the text ends in it. -/
theorem recordBody_forks (hends : ends.Agree) (hbody : IsBody opened) (room : Nat) :
    Forks ends (IsPlace true ('{' :: opened)) (IsPlace true opened) (recordBody room) (recordBody room) := by
  induction room generalizing opened with
  | zero => exact .unrecognized _
  | succ room ih =>
    have hnil : ¬IsPlace true ('{' :: opened) [] := fun hplace => hplace.ne_nil (List.cons_ne_nil _ _) rfl
    have hitem : Forks ends (IsPlace true ('{' :: opened)) (IsPlace true ('{' :: opened)) (recordItem room) (recordItem room) :=
      (recordItemWith_alike hends hbody.cons room (recordDefinitionWith_forks hends room (ih hbody.cons))).mono id
        (Past.fork_of_not_nil hnil)
    have hcloser : Blind ends (IsPlace true ('{' :: opened)) (IsPlace true opened) (char '}') := char_closer_blind (by decide)
    exact Relates.manyTill hitem (spaces0_blind.forks.bind fun _ => hcloser.forks) Fork.measured

theorem recordDefinition_forks (hends : ends.Agree) (hbody : IsBody opened) (room : Nat) :
    Forks ends (IsPlace true opened) (IsPlace true opened) (recordDefinition room) (recordDefinition room) :=
  recordDefinitionWith_forks hends room (recordBody_forks hends hbody room)

theorem recordItem_alike (hends : ends.Agree) (hbody : IsBody opened) (room : Nat) :
    EndsAlike ends opened (recordItem room) (recordItem room) :=
  recordItemWith_alike hends hbody room (recordDefinition_forks hends hbody room)

end HeaderOutline
