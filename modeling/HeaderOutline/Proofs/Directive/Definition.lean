import HeaderOutline.Proofs.Directive.Replacement
/-!
# Definitions

A definition is the word `define`, a name, a parameter list that follows at once, if any, and a replacement text, the
rest of the logical line. `exists_definitionText` takes a definition that is read apart into these, and `define_value`
says what its value is.
-/

namespace HeaderOutline

open HeaderOutline.Parser

namespace Directive

variable {name params value body mid input rest s t : Text} {definition : Define}

/-- The text, unless nothing remains of it. -/
def present? (text : Text) : Option Text := if text.isEmpty then none else some text

theorem present?_inj : present? s = present? t ↔ s = t := by
  cases s <;> cases t <;> simp [present?]

theorem define_eq_ok : define body = .ok definition rest ↔ ∃ space params value,
    body = space ++ (definition.name ++ (params ++ value)) ∧ IsSpacing space ∧ isIdentifier definition.name = true ∧
      EndsWord (params ++ value) ∧ opt macroParams (params ++ value) = .ok definition.params value ∧
      definition.value = present? (replacement value) ∧ rest = [] := by
  constructor
  · intro hread
    obtain ⟨space, _, hspace, hbehind⟩ := bind_eq_ok.1 hread
    obtain ⟨name, _, hname, hparams⟩ := bind_eq_ok.1 hbehind
    obtain ⟨found?, value, hopt, hvalue⟩ := bind_eq_ok.1 hparams
    obtain ⟨rfl, hspacing, -⟩ := takeWhile_eq_ok.1 hspace
    obtain ⟨rfl, hidentifier, hends⟩ := identifier_eq_ok.1 hname
    obtain ⟨params, rfl⟩ := Bounded.suffix hopt
    rw [bind_of_ok (show takeWhile (fun _ => true) value = .ok value [] from takeWhile_eq_ok.2 ⟨by simp, by simp, nofun⟩)] at hvalue
    cases hvalue
    exact ⟨space, params, value, rfl, hspacing, hidentifier, hends, hopt, rfl, rfl⟩
  · rintro ⟨space, params, value, rfl, hspacing, hidentifier, hends, hopt, hvalue, rfl⟩
    have hspace := blanks0_append hspacing hidentifier (params ++ value)
    have hall : takeWhile (fun _ => true) value = .ok value [] := takeWhile_eq_ok.2 ⟨by simp, by simp, nofun⟩
    rw [define, bind_of_ok hspace, bind_of_ok (identifier_append hidentifier hends), bind_of_ok hopt, bind_of_ok hall]
    cases definition
    cases hvalue
    rfl

theorem ofBody_eq_defines {text : Text} (hread : ofBody name body text mid = .ok (.defines definition) rest) :
    name = "define".toList ∧ define body = .ok definition [] := by
  unfold ofBody at hread
  dsimp only at hread
  split at hread
  · split at hread <;> cases hread
  · split at hread
    · next hname =>
      split at hread
      · next found behind hdefine =>
        cases hread
        obtain ⟨_, _, _, -, -, -, -, -, -, rfl⟩ := define_eq_ok.1 hdefine
        exact ⟨hname, hdefine⟩
      · cases hread
      · cases hread
    · split at hread <;> cases hread

theorem ofBody_of_define {text : Text} (hdefine : define body = .ok definition mid) :
    ofBody "define".toList body text rest = .ok (.defines definition) rest := by
  rw [ofBody, if_neg (by decide), if_pos rfl, hdefine]

theorem not_endsWord_of_isIdentifier (hname : isIdentifier name = true) (rest : Text) : ¬EndsWord (name ++ rest) := by
  intro hends
  cases name with
  | nil => cases hname
  | cons c name =>
    have hc := isWordChar_of_isIdentifier hname c List.mem_cons_self
    rw [hends c rfl] at hc
    cases hc

/-- How a definition is written in front of `rest`. -/
structure DefinitionText (rest : Text) where
  /-- Behind the number sign. -/
  blanks : Text
  /-- Behind the word `define`. -/
  space : Text
  name : Text
  /-- From the opening parenthesis to the closing one, if there are any. -/
  list : Text
  params : Option (List Text)
  /-- The replacement text, with its comments and continuations. -/
  body : Text
  /-- The line feed that ends the directive, unless the input does. -/
  ending : Text
  isSpacing_blanks : IsSpacing blanks
  isSpacing_space : IsSpacing space
  space_ne_nil : space ≠ []
  isIdentifier_name : isIdentifier name = true
  endsWord_name : EndsWord (list ++ Text.trimEnd body)
  list_read : opt macroParams (list ++ Text.trimEnd body) = .ok params (Text.trimEnd body)
  continued_list : Continued list
  continued_body : Continued body
  endsLine : EndsLine body ending rest

namespace DefinitionText

/-- The text between the number sign and the replacement text, without the word `define`. -/
def front (written : DefinitionText rest) : Text := written.space ++ (written.name ++ written.list)

/-- The whole input. -/
def text (written : DefinitionText rest) : Text :=
  '#' :: (written.blanks ++ ("define".toList ++ (written.front ++ (written.body ++ (written.ending ++ rest)))))

end DefinitionText

theorem getLast?_macroParams {params : Option (List Text)} {list value : Text}
    (hread : opt macroParams (list ++ value) = .ok params value) : list = [] ∨ list.getLast? = some ')' := by
  rcases opt_eq_ok.1 hread with ⟨found, -, hlist⟩ | ⟨-, heq, -⟩
  · refine .inr ?_
    obtain ⟨_, _, hopen, hitems⟩ := bind_eq_ok.1 hlist
    obtain ⟨_, _, hsep, hclose⟩ := bind_eq_ok.1 hitems
    obtain ⟨_, _, hlast, hpure⟩ := bind_eq_ok.1 hclose
    cases hpure
    obtain ⟨-, rfl⟩ := char_eq_ok.1 hlast
    obtain ⟨front, hfront⟩ := (Bounded.suffix hsep).trans (Bounded.suffix hopen)
    have hparams : list ++ value = front ++ [')'] ++ value := by
      rw [← hfront, List.append_assoc, List.singleton_append]
    rw [List.append_cancel_right hparams, List.getLast?_concat]
  · exact .inl (List.append_left_eq_self.1 heq.symm)

theorem getLast?_name (space : Text) (hname : isIdentifier name = true) :
    ∀ c ∈ (space ++ name).getLast?, Text.isBlank c = false ∧ c ≠ '\\' ∧ c ≠ '\r' := by
  intro c hc
  have hne : name ≠ [] := by
    rintro rfl
    cases hname
  rw [List.getLast?_append_of_ne_nil _ hne] at hc
  have hword := isWordChar_of_isIdentifier hname c (List.mem_of_getLast? hc)
  refine ⟨Text.isBlank_of_isWordChar hword, ?_, ?_⟩ <;> rintro rfl <;> exact absurd hword (by decide)

/-- A replacement text stands behind a name or a parenthesis. -/
theorem getLast?_front {params : Option (List Text)} {list value : Text} (space : Text) (hname : isIdentifier name = true)
    (hlist : opt macroParams (list ++ value) = .ok params value) :
    ∀ c ∈ (space ++ (name ++ list)).getLast?, Text.isBlank c = false ∧ c ≠ '\\' ∧ c ≠ '\r' := by
  rcases getLast?_macroParams hlist with rfl | hlast
  · rw [List.append_nil]
    exact getLast?_name space hname
  · have hne : list ≠ [] := by
      rintro rfl
      cases hlast
    rw [← List.append_assoc, List.getLast?_append_of_ne_nil _ hne, hlast]
    rintro c ⟨⟩
    decide

namespace DefinitionText

variable (written : DefinitionText rest)

theorem endsWord_define (t : Text) : EndsWord (written.front ++ t) := by
  obtain ⟨c, space, heq⟩ := List.exists_cons_of_ne_nil written.space_ne_nil
  have hc := written.isSpacing_space c (heq ▸ List.mem_cons_self)
  rw [front, heq]
  rintro d ⟨⟩
  rw [Bool.or_eq_true, beq_iff_eq, beq_iff_eq] at hc
  rcases hc with rfl | rfl <;> decide

theorem continued_front : Continued written.front := by
  have hspace : '\n' ∉ written.space := fun hmem => absurd (written.isSpacing_space _ hmem) (by decide)
  have hname : '\n' ∉ written.name := fun hmem => absurd (isWordChar_of_isIdentifier written.isIdentifier_name _ hmem) (by decide)
  have hlast := getLast?_name written.space written.isIdentifier_name
  rw [front, ← List.append_assoc, continued_append_iff fun c hc => (hlast c hc).2]
  refine ⟨continued_of_not_mem ?_, written.continued_list⟩
  rw [List.mem_append, not_or]
  exact ⟨hspace, hname⟩

theorem trimEnd_front_append : Text.trimEnd (written.front ++ written.body) = written.front ++ Text.trimEnd written.body := by
  have hlast := getLast?_front written.space written.isIdentifier_name written.list_read
  by_cases hbody : Text.IsBlank written.body
  · rw [Text.trimEnd_append hbody, Text.trimEnd_eq_nil_iff.2 hbody, List.append_nil]
    exact Text.dropTail_of_getLast? fun c hc => (hlast c hc).1
  · exact Text.trimEnd_append_of_not_isBlank hbody _

end DefinitionText

/-- Every text of this form is read as a definition. -/
theorem directive_definitionText (written : DefinitionText rest) : directive written.text =
    .ok (.defines ⟨written.name, written.params, present? (replacement written.body)⟩) rest := by
  have hlast := getLast?_front written.space written.isIdentifier_name written.list_read
  have hcontinued : Continued (written.front ++ written.body) :=
    (continued_append_iff fun c hc => (hlast c hc).2).2 ⟨written.continued_front, written.continued_body⟩
  have hending : EndsLine (written.front ++ written.body) written.ending rest :=
    (endsLine_append_iff fun c hc => (hlast c hc).2).2 written.endsLine
  have hsplit := splitLogicalLine_eq.2 ⟨_, _, rfl, rfl, hcontinued, hending⟩
  have hdefine : define (written.front ++ Text.trimEnd written.body) =
      .ok ⟨written.name, written.params, present? (replacement written.body)⟩ [] := by
    refine define_eq_ok.2 ⟨written.space, written.list, Text.trimEnd written.body, ?_, written.isSpacing_space,
      written.isIdentifier_name, written.endsWord_name, written.list_read, ?_, rfl⟩
    · rw [DefinitionText.front, List.append_assoc, List.append_assoc]
    · rw [replacement_trimEnd]
  have htail := written.endsWord_define (written.body ++ (written.ending ++ rest))
  rw [← List.append_assoc] at htail
  rw [DefinitionText.text, ← List.append_assoc written.front, directive_append written.isSpacing_blanks (by decide) htail hsplit,
    Text.trimEnd_append hending.isBlank, written.trimEnd_front_append]
  exact ofBody_of_define hdefine

/-- Every definition that is read is a text of this form. -/
theorem exists_definitionText (hread : directive input = .ok (.defines definition) rest) : ∃ written : DefinitionText rest,
    written.text = input ∧ definition = ⟨written.name, written.params, present? (replacement written.body)⟩ := by
  obtain ⟨blanks, name, tail, whole, rfl, hblanks, hname, htail, hsplit, hbody⟩ := exists_of_directive hread
  obtain ⟨rfl, hdefine⟩ := ofBody_eq_defines hbody
  obtain ⟨line, ending, rfl, rfl, hcontinued, hending⟩ := splitLogicalLine_eq.1 hsplit
  rw [Text.trimEnd_append hending.isBlank] at hdefine
  obtain ⟨space, list, value, heq, hspacing, hidentifier, hends, hlist, hvalue, -⟩ := define_eq_ok.1 hdefine
  have hvalueEnd : Text.trimEnd value = value := by
    refine Text.trimEnd_of_append (space ++ (definition.name ++ list)) ?_
    rw [List.append_assoc, List.append_assoc, ← heq, Text.trimEnd_trimEnd]
  obtain ⟨blank, hblank, hline⟩ := Text.exists_trimEnd line
  have hline : line = space ++ (definition.name ++ list) ++ (value ++ blank) := by
    rw [hline, heq]
    simp only [List.append_assoc]
  subst hline
  have hbodyEnd : Text.trimEnd (value ++ blank) = value := by rw [Text.trimEnd_append hblank, hvalueEnd]
  have hspace : space ≠ [] := by
    -- a name right behind would belong to the word `define`
    rintro rfl
    rw [List.nil_append, List.append_assoc, List.append_assoc] at htail
    exact not_endsWord_of_isIdentifier hidentifier _ htail
  have hlast := getLast?_front space hidentifier hlist
  have hname := getLast?_name space hidentifier
  obtain ⟨hfront, hbody⟩ := (continued_append_iff fun c hc => (hlast c hc).2).1 hcontinued
  rw [← List.append_assoc, continued_append_iff fun c hc => (hname c hc).2] at hfront
  have hvalue : definition.value = present? (replacement (value ++ blank)) := by
    rw [hvalue, ← replacement_trimEnd (value ++ blank), hbodyEnd]
  refine ⟨⟨blanks, space, definition.name, list, definition.params, value ++ blank, ending, hblanks, hspacing, hspace, hidentifier,
    ?_, ?_, hfront.2, hbody, (endsLine_append_iff fun c hc => (hlast c hc).2).1 hending⟩, ?_, ?_⟩
  · rwa [hbodyEnd]
  · rwa [hbodyEnd]
  · simp only [DefinitionText.text, DefinitionText.front, List.append_assoc]
  · show definition = ⟨definition.name, definition.params, present? (replacement (value ++ blank))⟩
    rw [← hvalue]

/-- The value of a definition is its replacement text up to the first comment mark, wherever that stands. It is the
replacement text without comments exactly if nothing but comments is behind that mark, and the mark is in no literal. -/
theorem define_value {lines : List Text} (written : DefinitionText rest) (hlines : Spliced lines written.body)
    (hstray : NoStrayBackslash lines) :
    ∃ value, directive written.text = .ok (.defines ⟨written.name, written.params, value⟩) rest ∧
      value = present? (Text.trim (beforeCommentMark (joined lines))) ∧
      (value = present? (Text.trim (uncommented (joined lines))) ↔ CommentsLast (pieces [] (joined lines))) := by
  have hvalue : present? (replacement written.body) = present? (Text.trim (beforeCommentMark (joined lines))) := by
    rw [replacement_eq, cleanLines_eq_of_spliced hlines hstray]
    rfl
  refine ⟨_, directive_definitionText written, hvalue, ?_⟩
  rw [hvalue, present?_inj, trim_beforeCommentMark_eq_iff]

theorem define_value_max : ∃ value,
    directive "#define MAX(a, b) \\\n    ((a) > (b)) // larger\nnext".toList =
      .ok (.defines ⟨"MAX".toList, some [['a'], ['b']], value⟩) "next".toList ∧
    value = present? "((a) > (b))".toList ∧ value = present? (Text.trim (uncommented "((a) > (b)) // larger".toList)) := by
  have hlines : Spliced [[' '], "    ((a) > (b)) // larger".toList] " \\\n    ((a) > (b)) // larger".toList :=
    .continued 0 (by decide) (.last (by decide))
  let written : DefinitionText "next".toList :=
    { blanks := [], space := [' '], name := "MAX".toList, list := "(a, b)".toList, params := some [['a'], ['b']],
      body := " \\\n    ((a) > (b)) // larger".toList, ending := ['\n'], isSpacing_blanks := by decide,
      isSpacing_space := by decide, space_ne_nil := by decide, isIdentifier_name := by decide, endsWord_name := by rintro c ⟨⟩; decide,
      list_read := by decide +kernel, continued_list := continued_of_not_mem (by decide),
      continued_body := continued_iff.2 ⟨_, hlines⟩, endsLine := .inl ⟨rfl, by decide⟩ }
  obtain ⟨value, hread, hcut, hclean⟩ := define_value written hlines ⟨by decide, by decide⟩
  exact ⟨value, hread, hcut, hclean.2 (by decide +kernel)⟩

/-- A comment mark in a literal cuts the value. -/
theorem define_value_url :
    directive "#define URL \"http://x\"".toList = .ok (.defines ⟨"URL".toList, none, some "\"http:".toList⟩) [] ∧
    uncommented "\"http://x\"".toList = "\"http://x\"".toList := by
  constructor <;> decide +kernel

end Directive

end HeaderOutline
