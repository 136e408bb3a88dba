import HeaderOutline.Alias
import HeaderOutline.Directive
import HeaderOutline.Enumeration
import HeaderOutline.Proofs.Declarator.HeadFork
import HeaderOutline.Proofs.Source.Start
/-!
# Statements of a text with two ends

A statement of a strictly closed text is read in the same way in front of either end. It ends in the text, or at the
semicolon behind it.
-/

namespace HeaderOutline

open HeaderOutline.Parser

variable {ends : EndPair} {opened : List Char}

/-! ### Statements that declare nothing -/

/-- No directive stands in a strictly closed text. -/
theorem directive_blind : Blind ends (IsPlace true opened) (IsPlace true opened) directive where
  cases {text} htext := by
    refine .inr fun tail htail => directive_of_ne ?_
    cases text with
    | nil => exact (EndPair.lacks_of_not_mem (by decide)).head htail
    | cons c text =>
      refine head?_cons_ne ?_ _
      rintro rfl
      obtain ⟨_, _, _, _, _, haccepted, _⟩ := htext.exists_step (Scan.isCode_of_ne (by decide) text)
      simp [accepted] at haccepted

theorem staticAssertion_alike (hends : ends.Agree) : EndsAlike ends opened staticAssertion staticAssertion :=
  Past.textOf hends.same ((anyKeyword_forks (by decide)).bind fun _ => (afterGap_forks parentheses_blind.forks).bind fun _ =>
    statementEnd_alike hends.same)

theorem usingDeclaration_alike (hends : ends.Agree) (hbody : IsBody opened) : EndsAlike ends opened usingDeclaration usingDeclaration := by
  have htarget : Blind ends (IsPlainPlace ";\x7b\x7d".toList opened) (IsPlainPlace ";\x7b\x7d".toList opened) (noneOf1 ";\x7b\x7d=") :=
    noneOf1_plain hends hbody (by decide)
  refine (afterGap_forks (beforeGap_plain hbody (keyword_plain (by decide)))).bind fun _ => htarget.forks.bind fun _ => ?_
  exact (Relates.mono (semicolon_alike hends.same) (Fork.mono IsPlainPlace.place) id).bind fun _ => .pure _

theorem macroInvocation_alike (hends : ends.Agree) : EndsAlike ends opened macroInvocation macroInvocation := by
  have hname : Forks ends (IsPlace true opened) (IsPlace true opened) macroName macroName := identifier_blind.forks.filter _
  refine .firstOf (.cons (Past.textOf hends.same ?_) (.cons (Relates.mono (Forks.textOf ?_) id .within) .nil))
  · exact hname.bind fun _ => (afterGap_forks parentheses_blind.forks).bind fun _ => Relates.opt (statementEnd_alike hends.same) .within
  · exact hname.bind fun _ => blanks0_blind.forks.bind fun _ => Relates.lookahead lineEnding_blind.forks

/-! ### Aliases -/

theorem usingAlias_alike (hends : ends.Agree) (hbody : IsBody opened) (room : Nat) :
    EndsAlike ends opened (usingAlias room) (usingAlias room) := by
  have hsign : Blind ends (IsPlace true opened) (IsPlace true opened) (char '=') :=
    char_inert_blind (by decide) fun _ => hends.lacks (by decide)
  refine leadingComment_forks.bind fun _ => (Forks.opt (templateHead_forks room opened) id).bind fun _ =>
    (beforeGap_forks (keyword_word_forks (by decide))).bind fun _ => identifier_blind.forks.bind fun _ =>
    (afterGap_forks attributes_forks).bind fun _ => (spaced_forks hsign.forks).bind fun _ =>
    (Forks.opt (beforeGap_forks (keyword_word_forks (by decide))) id).bind fun _ => (cType_forks room (.inl rfl)).bind fun type => ?_
  exact (declarator_forks (hbody.admits hends) room type false).bind fun _ => (statementEnd_alike hends.same).bind fun _ => .pure _

/-! ### Enumerations -/

theorem instances_forks (hends : ends.Agree) (hbody : IsBody opened) (room : Nat) :
    Forks ends (IsPlace true opened) (IsPlace true opened) (instances room) (instances room) := by
  have hitem : Forks ends (IsPlace true opened) (IsPlace true opened) (afterGap (declarator room .unnamed true))
      (afterGap (declarator room .unnamed true)) := afterGap_forks (declarator_forks (hbody.admits hends) room .unnamed true)
  have hseparator : Forks ends (IsPlace true opened) (IsPlace true opened) (spaced (char ',')) (spaced (char ',')) :=
    comma_forks fun _ => hends.lacks (by decide)
  exact (Forks.sepBy1 hitem hseparator hitem).bind fun _ => .pure _

namespace Enumerator

/-- Enumerators stand in a brace. -/
theorem parser_forks : Forks ends (IsPlace true ('{' :: opened)) (IsPlace true ('{' :: opened)) parser parser := by
  have hsign : Blind ends (IsPlace true ('{' :: opened)) (IsStart true ('{' :: opened)) (char '=') :=
    char_sign_blind (by decide) (by decide) nofun
  have hvalue : Blind ends (IsStart true ('{' :: opened)) (IsPlace true ('{' :: opened)) (expression [','] false) :=
    expression_blind (fun _ => by simp) (.inl rfl) (by decide) nofun
  have hname : Forks ends (IsPlace true ('{' :: opened)) (IsPlace true ('{' :: opened)) macroName macroName :=
    identifier_blind.forks.filter _
  have hmacro := (afterGap_forks hname).bind fun _ => afterGap_forks parentheses_blind.forks
  exact leadingComment_forks.bind fun _ => plainName_forks.bind fun _ => (Forks.opt hmacro id).bind fun _ =>
    (afterGap_forks attributes_forks).bind fun _ =>
    (Forks.opt ((spaced_forks hsign.forks).bind fun _ => hvalue.forks) id).bind fun _ => .pure _

theorem listParser_forks : Forks ends (IsPlace true ('{' :: opened)) (IsPlace true ('{' :: opened)) listParser listParser := by
  have hcomma : Blind ends (IsPlace true ('{' :: opened)) (IsPlace true ('{' :: opened)) (char ',') :=
    char_inert_blind (by decide) nofun
  have hseparator := (afterGap_forks hcomma.forks).bind fun _ => spaces0_blind.forks.bind fun _ => Relates.pure ()
  exact (Forks.sepBy parser_forks hseparator parser_forks id).bind fun _ =>
    (Forks.opt (afterGap_forks hcomma.forks) id).bind fun _ => SkipsGap.blind.forks.bind fun _ => .pure _

end Enumerator

theorem enumerationDefinition_forks (hends : ends.Agree) (room : Nat) :
    Forks ends (IsPlace true opened) (IsPlace true opened) (enumerationDefinition room) (enumerationDefinition room) := by
  have hcolon : Blind ends (IsPlace true opened) (IsPlace true opened) (char ':') :=
    char_inert_blind (by decide) fun _ => hends.lacks (by decide)
  have hopener : Blind ends (IsPlace true opened) (IsStart true ('{' :: opened)) (char '{') :=
    char_opener_blind (by decide) fun _ => hends.lacks (by decide)
  have hcloser : Blind ends (IsPlace true ('{' :: opened)) (IsPlace true opened) (char '}') := char_closer_blind (by decide)
  have htype := (spaced_forks hcolon.forks).bind fun _ => cType_forks room (.inl rfl)
  have hlist := Enumerator.listParser_forks.bind fun list => hcloser.forks.bind fun _ => Relates.pure list
  have hbody := (afterGap_forks (hopener.forks.mono id (Fork.mono IsStart.isPlace))).bind fun _ =>
    (Relates.commit (Relates.expecting "enumerator" hlist)).bind fun list => Relates.pure (some list)
  have hforward : Forks ends (IsPlace true opened) (IsPlace true opened) (lookahead (afterGap (char ';')))
      (lookahead (afterGap (char ';'))) := Relates.lookahead (statementEnd_alike hends.same)
  exact leadingComment_forks.bind fun _ => (beforeGap_forks (keyword_word_forks (by decide))).bind fun _ =>
    (Forks.opt (beforeGap_forks (anyKeyword_forks (by decide))) id).bind fun _ => attributes_forks.bind fun _ =>
    (Forks.opt (beforeGap_forks plainName_forks) id).bind fun _ => (Forks.opt htype id).bind fun _ =>
    (Relates.firstOf (.cons hbody (.cons (hforward.map _) .nil))).bind fun _ => .pure _

/-- The end of a definition: its semicolon, or the names declared behind it. -/
theorem enumeration_alike (hends : ends.Agree) (hbody : IsBody opened) (room : Nat) :
    EndsAlike ends opened (enumeration room) (enumeration room) := by
  refine (enumerationDefinition_forks hends room).bind fun definition => ?_
  split
  · exact (statementEnd_alike hends.same).bind fun _ => .pure _
  · exact (Forks.opt (instances_forks hends hbody room) id).bind fun _ =>
      (Relates.commit (Relates.expecting _ (statementEnd_alike hends.same))).bind fun _ => .pure _

end HeaderOutline
