import HeaderOutline.Proofs.Comment.Alternatives
import HeaderOutline.Proofs.Parser.Items
/-!
# Comment lines in a class body

A comment line in front of an item goes to the item if that is a declaration, and is an item of its own that
files nothing otherwise. Either way the items behind it are read as without it. The exception is a label, an
assertion or a friend that could be read as a function or a variable as well: behind a comment it is.
-/

namespace HeaderOutline

open HeaderOutline.Parser

variable {room : Nat} {input rest line : Text} {definition : Parser Record} {body : Parser (List RecordItem)}

/-! ### One item -/

namespace RecordItem

theorem usingDeclaration_eq : usingDeclaration = afterGap (do
    let _ ← beforeGap (keyword "using")
    let target ← noneOf1 ";\x7b\x7d="
    let _ ← char ';'
    pure (Text.trim target)) := by
  simp only [usingDeclaration, spaced, afterGap, bind_assoc]

theorem declarations_skipsComment (room : Nat) (body : Parser (List RecordItem)) : SkipsComment
    (firstOf (declarations room (recordDefinitionWith room body))) uncommented := by
  refine .firstOf fun p hp => ?_
  simp only [declarations, List.mem_cons, List.not_mem_nil, or_false] at hp
  rcases hp with rfl | rfl | rfl | rfl | rfl | rfl | rfl
  · have htypedef : SkipsComment (typedefWith room (recordDefinitionWith room body)) Typedef.uncommented := by
      refine .of_takesComment (typedefWith_takesComment room _) fun comment other statement => ?_
      rw [Typedef.uncommented_withComment, Typedef.uncommented_withComment]
    refine htypedef.map ?_
    exact fun _ _ heq => congrArg RecordItem.typedef heq
  · have halias : SkipsComment (HeaderOutline.usingAlias room) (Alias.withComment none) :=
      .of_takesComment (usingAlias_takesComment room) fun _ _ _ => rfl
    refine halias.map ?_
    exact fun _ _ heq => congrArg RecordItem.usingAlias heq
  · have husing : SkipsComment usingDeclaration (id : Text → Text) := by
      rw [usingDeclaration_eq]
      exact .afterGap _
    refine husing.map ?_
    exact fun _ _ _ => rfl
  · have henumeration : SkipsComment (HeaderOutline.enumeration room) (Enumeration.withComment none) :=
      .of_takesComment (enumeration_takesComment room) fun _ _ _ => rfl
    refine henumeration.map ?_
    exact fun _ _ heq => congrArg RecordItem.enumeration heq
  · have hrecord : SkipsComment (recordWith room (recordDefinitionWith room body)) (Record.withComment none) :=
      .of_takesComment (recordWith_takesComment room body) fun _ _ _ => rfl
    refine hrecord.map ?_
    exact fun _ _ heq => congrArg RecordItem.record heq
  · have hfunction : SkipsComment (HeaderOutline.function room) (FunctionDecl.withComment none) :=
      .of_takesComment (function_takesComment room) fun _ _ _ => rfl
    refine hfunction.map ?_
    exact fun _ _ heq => congrArg RecordItem.method heq
  · have hvariables : SkipsComment (variableStatement room) (List.map (Variable.withComment none)) := by
      refine .of_takesComment (variableStatement_takesComment room) fun comment other declared => ?_
      simp only [List.map_map]
      rfl
    refine hvariables.map ?_
    exact fun _ _ heq => congrArg RecordItem.members heq

/-- An item is read by the first of these alternatives that matches. -/
theorem recordItemWith_eq (room : Nat) (definition : Parser Record) :
    recordItemWith room definition = (do
      let _ ← spaces0
      firstOf (undeclared room ++ (declarations room definition ++ remaining))) := rfl

theorem declarations_append_ne_nil (room : Nat) (definition : Parser Record) :
    declarations room definition ++ remaining ≠ [] := List.cons_ne_nil _ _

theorem remaining_ne_nil : remaining ≠ [] := List.cons_ne_nil _ _

theorem recordItemWith_apply (hinput : ∀ c ∈ input.head?, isSpace c = false) :
    recordItemWith room definition input =
      firstOf (undeclared room ++ (declarations room definition ++ remaining)) input := by
  have hspaces : spaces0 input = .ok (input.takeWhile isSpace) (input.dropWhile isSpace) := rfl
  rw [recordItemWith_eq, bind_of_ok hspaces, dropWhile_of_head hinput]

section CommentLine

variable (hline : ∀ c ∈ line, isInLine c = true)

/-- Behind a comment line, the alternatives that take no comment are passed over. -/
theorem recordItemWith_commentLine_eq (line input : Text) :
    recordItemWith room definition (commentLine line ++ input) =
      firstOf (declarations room definition ++ remaining) (commentLine line ++ input) := by
  rw [recordItemWith_apply (by rintro c ⟨⟩; decide)]
  exact firstOf_append_of_mismatch (declarations_append_ne_nil room definition) (undeclared_slash room _)

include hline

/-- Where nothing is declared, the comment line is an item of its own, possibly with a comment behind it. -/
theorem recordItemWith_commentLine_of_mismatches
    (hdeclarations : Mismatches (firstOf (declarations room (recordDefinitionWith room body))) input) :
    ∃ behind, recordItemWith room (recordDefinitionWith room body) (commentLine line ++ input) = .ok .ignored behind ∧
      (behind = input ∨ ∃ other, comment input = .ok other behind) := by
  have hskipped := declarations_skipsComment room body input (commentLine line ++ input)
    (gapEnd_commentLine hline input).symm
  obtain ⟨text, behind, hcomment, hbehind⟩ := comment_commentLine hline input
  refine ⟨behind, ?_, hbehind⟩
  have hnone : Mismatches (firstOf (declarations room (recordDefinitionWith room body))) (commentLine line ++ input) :=
    hskipped.mismatches hdeclarations
  rw [recordItemWith_commentLine_eq, firstOf_append_of_mismatch remaining_ne_nil hnone]
  exact remaining_slash hcomment

/-- Behind a comment line an item is the same but for its comment, or it is the next one. -/
theorem recordItemWith_commentLine (hinput : ∀ c ∈ input.head?, isSpace c = false) (hsettled : Unambiguous room input)
    {item : RecordItem} (hitem : recordItemWith room (recordDefinitionWith room body) input = .ok item rest) :
    (∃ other, recordItemWith room (recordDefinitionWith room body) (commentLine line ++ input) = .ok other rest ∧
      other.uncommented = item.uncommented) ∨
    recordItemWith room (recordDefinitionWith room body) (commentLine line ++ input) = .ok .ignored input := by
  rw [recordItemWith_apply hinput] at hitem
  rcases (firstOf_append_eq_ok (declarations_append_ne_nil room _)).1 hitem with hundeclared | ⟨-, hitem⟩
  · -- No declaration matches either, and what is read here is no comment.
    have hnone : Mismatches (firstOf (declarations room (recordDefinitionWith room body))) input :=
      declarations_of_undeclared hinput hsettled hundeclared
    obtain ⟨behind, hread, rfl | ⟨other, hcomment⟩⟩ := recordItemWith_commentLine_of_mismatches hline hnone
    · exact .inr hread
    · obtain ⟨tail, rfl⟩ := slash_of_comment hinput hcomment
      exact absurd hundeclared (undeclared_slash room tail).ne_ok
  rcases (firstOf_append_eq_ok remaining_ne_nil).1 hitem with hdeclared | ⟨hnone, hlast⟩
  · have hskipped := declarations_skipsComment room body input (commentLine line ++ input)
      (gapEnd_commentLine hline input).symm
    obtain ⟨other, hother, heq⟩ := hskipped.ok_iff hdeclared
    refine .inl ⟨other, ?_, heq.symm⟩
    rw [recordItemWith_commentLine_eq]
    exact (firstOf_append_eq_ok remaining_ne_nil).2 (.inl hother)
  · obtain ⟨behind, hread, rfl | ⟨other, hcomment⟩⟩ := recordItemWith_commentLine_of_mismatches hline hnone
    · exact .inr hread
    · -- The comment line and the comment behind it are one item.
      obtain ⟨tail, rfl⟩ := slash_of_comment hinput hcomment
      cases hlast.symm.trans (remaining_slash hcomment)
      exact .inl ⟨.ignored, hread, rfl⟩

/-- Behind a comment line that is an item of its own, another one goes to the same item. -/
theorem recordItemWith_commentLines [Bounded body] {first : Text} (hfirst : ∀ c ∈ first, isInLine c = true) {item : RecordItem}
    (hitem : recordItemWith room (recordDefinitionWith room body) (commentLine first ++ input) = .ok item rest)
    (hlength : input.length ≤ rest.length) :
    recordItemWith room (recordDefinitionWith room body) (commentLine first ++ (commentLine line ++ input)) = .ok item rest := by
  have hskipsComment := declarations_skipsComment room body
  rw [recordItemWith_commentLine_eq] at hitem ⊢
  rcases (firstOf_append_eq_ok remaining_ne_nil).1 hitem with hdeclared | ⟨hnone, hlast⟩
  · -- A declaration would not stop in front of what it declares.
    obtain ⟨other, hother, -⟩ := (hskipsComment _ input (gapEnd_commentLine hfirst input)).ok_iff hdeclared
    have hconsuming : Consuming (firstOf (declarations room (recordDefinitionWith room body))) := by
      unfold declarations
      infer_instance
    exact absurd hlength (Nat.not_le.2 (Consuming.lt hother))
  · obtain ⟨text, behind, hcomment, -⟩ := comment_commentLine hfirst input
    cases hlast.symm.trans (remaining_slash hcomment)
    obtain ⟨text', hlines⟩ := comment_commentLines hline hfirst hcomment
    have hgap : gapEnd (commentLine first ++ input) = gapEnd (commentLine first ++ (commentLine line ++ input)) := by
      rw [gapEnd_commentLine hfirst, gapEnd_commentLine hfirst, gapEnd_commentLine hline]
    refine (firstOf_append_of_mismatch remaining_ne_nil ((hskipsComment _ _ hgap).mismatches hnone)).trans ?_
    exact remaining_slash hlines

end CommentLine

end RecordItem

/-! ### All items -/

/-- The closing brace of a body, possibly behind white space. -/
def recordEnd : Parser Char := do
  let _ ← spaces0
  char '\x7d'

instance : IgnoresSpaces recordEnd := inferInstanceAs (IgnoresSpaces (spaces0 >>= fun _ => char '\x7d'))

theorem recordBody_succ (room : Nat) : recordBody (room + 1) = manyTill (recordItem room) recordEnd := rfl

/-- A body ends here, or an item comes first. -/
theorem recordBody_eq_ok {items : List RecordItem} : recordBody (room + 1) input = .ok items rest ↔
    recordEnd input = .ok '\x7d' rest ∧ items = [] ∨ Mismatches recordEnd input ∧ ∃ item behind others,
      recordItem room input = .ok item behind ∧ recordBody (room + 1) behind = .ok others rest ∧ items = item :: others := by
  have hbrace : (∃ c, recordEnd input = .ok c rest) ↔ recordEnd input = .ok '\x7d' rest := by
    refine ⟨?_, fun hend => ⟨_, hend⟩⟩
    rintro ⟨c, hend⟩
    obtain ⟨_, _, -, hbrace⟩ := bind_eq_ok.1 hend
    obtain ⟨rfl, -⟩ := char_eq_ok.1 hbrace
    exact hend
  rw [recordBody_succ, manyTill_eq_ok, hbrace]

/-- A comment line in front of an item of a body makes it no other item, and adds at most one that is ignored. -/
theorem recordBody_commentLine (hline : ∀ c ∈ line, isInLine c = true)
    (hinput : ∀ c ∈ input.head?, isSpace c = false) (hsettled : RecordItem.Unambiguous room input)
    {items : List RecordItem} (hbody : recordBody (room + 1) input = .ok items rest) :
    ∃ others, recordBody (room + 1) (commentLine line ++ input) = .ok others rest ∧
      (others.map RecordItem.uncommented = items.map RecordItem.uncommented ∨ others = .ignored :: items) := by
  have hend : Mismatches recordEnd (commentLine line ++ input) :=
    .bind_of_ok (p := spaces0) rfl (char_of_ne (head?_cons_ne (c := '/') (by decide) _))
  have hignored (hread : recordItem room (commentLine line ++ input) = .ok .ignored input) :
      recordBody (room + 1) (commentLine line ++ input) = .ok (.ignored :: items) rest :=
    recordBody_eq_ok.2 (.inr ⟨hend, .ignored, input, items, hread, hbody, rfl⟩)
  rcases recordBody_eq_ok.1 hbody with ⟨hbrace, rfl⟩ | ⟨-, item, behind, tail, hitem, htail, rfl⟩
  · obtain ⟨_, _, hspaces, hbrace⟩ := bind_eq_ok.1 hbrace
    cases hspaces
    rw [dropWhile_of_head hinput] at hbrace
    obtain ⟨-, rfl⟩ := char_eq_ok.1 hbrace
    have hnothing : DeclaresNothing ('\x7d' :: rest) := .cons (by decide) (by decide) (by decide) (by decide) rest
    have hnone : Mismatches (firstOf (RecordItem.declarations room (recordDefinition room))) ('\x7d' :: rest) :=
      RecordItem.declarations_of_declaresNothing hnothing
    obtain ⟨behind, hread, hbehind⟩ := RecordItem.recordItemWith_commentLine_of_mismatches hline hnone
    rcases hbehind with rfl | ⟨other, hcomment⟩
    · exact ⟨_, hignored hread, .inr rfl⟩
    · exact absurd hcomment (comment_of_startsToken hnothing.token).ne_ok
  · rcases RecordItem.recordItemWith_commentLine hline hinput hsettled hitem with ⟨other, hother, heq⟩ | hread
    · refine ⟨other :: tail, recordBody_eq_ok.2 (.inr ⟨hend, other, behind, tail, hother, htail, rfl⟩), .inl ?_⟩
      rw [List.map_cons, List.map_cons, heq]
    · exact ⟨_, hignored hread, .inr rfl⟩

end HeaderOutline
