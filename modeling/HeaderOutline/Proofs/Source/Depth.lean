import HeaderOutline.Proofs.Source.RoundTrip
/-!
# How deep a header may be nested

Blocks and template argument lists take their levels from one account. A block takes its level behind its
brace, but a name asks for the level of an argument list before it is known whether there is one. So a name
needs a free level in any case: `header_nested` says of blocks around a variable, whose type has lists in
lists, that they are read if one level is left inside them all, and that they fail for want of a level if not.
-/

namespace HeaderOutline

open HeaderOutline.Parser HeaderOutline.CType

/-! ### Running out of levels -/

section LacksLevel

variable {α β : Type} {p q : Parser α} {ps : List (Parser α)} {input mid : Text} {a : α}

/-- The parser runs out of levels here, and reports nothing else. -/
def Parser.LacksLevel (p : Parser α) (input : Text) : Prop :=
  ∃ place, p input = .failure [⟨place, .context "shallower nesting".toList⟩]

theorem Parser.lacksLevel_tooDeep (input : Text) : LacksLevel (tooDeep : Parser α) input := ⟨input, rfl⟩

namespace Parser.LacksLevel

theorem bind {f : α → Parser β} (hp : LacksLevel p input) : LacksLevel (p >>= f) input := by
  obtain ⟨place, hp⟩ := hp
  exact ⟨place, by rw [bind_apply, hp]; rfl⟩

theorem bind_of_ok {f : α → Parser β} (hp : p input = .ok a mid) (hf : LacksLevel (f a) mid) :
    LacksLevel (p >>= f) input := by
  obtain ⟨place, hf⟩ := hf
  exact ⟨place, by rw [Parser.bind_of_ok hp, hf]⟩

theorem map {f : α → β} (hp : LacksLevel p input) : LacksLevel (f <$> p) input := by
  obtain ⟨place, hp⟩ := hp
  exact ⟨place, by rw [map_apply, hp]; rfl⟩

theorem opt (hp : LacksLevel p input) : LacksLevel (opt p) input := by
  obtain ⟨place, hp⟩ := hp
  exact ⟨place, by rw [Parser.opt, hp]⟩

theorem firstOf (hp : LacksLevel p input) : LacksLevel (firstOf (p :: ps)) input := by
  obtain ⟨place, hp⟩ := hp
  exact ⟨place, by cases ps <;> rw [Parser.firstOf, hp]⟩

theorem sepBy {separator : Parser β} (hp : LacksLevel p input) : LacksLevel (sepBy separator p) input := by
  obtain ⟨place, hp⟩ := hp
  exact ⟨place, by rw [Parser.sepBy, hp]⟩

theorem manyTill {stop : Parser β} (hstop : Mismatches stop input) (hp : LacksLevel p input) :
    LacksLevel (manyTill p stop) input := by
  obtain ⟨trace, hstop⟩ := hstop
  obtain ⟨place, hp⟩ := hp
  exact ⟨place, by rw [Parser.manyTill, hstop, hp]⟩

theorem afterGap (hp : LacksLevel p (gapEnd input)) : LacksLevel (afterGap p) input := hp

theorem spaced (hp : LacksLevel p (gapEnd input)) : LacksLevel (spaced p) input := hp.bind

end Parser.LacksLevel

end LacksLevel

/-! ### Types -/

namespace CType

variable {room lists : Nat} {base : CType} {input mid rest : Text}

/-- `A<A<int>>` and so on, with as many lists. -/
def nested : (lists : Nat) → CType
  | 0 => .path ["int".toList]
  | lists + 1 => .generic (.path ["A".toList]) [nested lists]

theorem named_nested (lists : Nat) : Named (nested lists) := by
  induction lists with
  | zero => exact .path (by decide)
  | succ lists ih =>
    refine .generic (by decide) fun arg harg => ?_
    obtain rfl := List.mem_singleton.1 harg
    exact .type (.named ih)

theorem listDepth_nested (lists : Nat) : listDepth (nested lists) = lists := by
  induction lists with
  | zero =>
    rw [nested, listDepth]
  | succ lists ih =>
    rw [nested, listDepth, listDepth, deepest, deepest, ih]
    omega

theorem named_lacksLevel (hbase : baseName input = .ok base mid) (hargs : LacksLevel (templateArgs room) (gapEnd mid)) :
    LacksLevel (named (templateArgs room)) input := by
  rw [LacksLevel, named, recurse_apply]
  exact LacksLevel.bind_of_ok hbase hargs.afterGap.opt.bind

theorem qualified_lacksLevel (hinput : StartsName input) (hname : LacksLevel (named (templateArgs room)) input) :
    LacksLevel (qualified (templateArgs room)) input := by
  have hkind : Mismatches (beforeGap (anyKeyword ["typename", "struct", "class", "enum", "union"])) input :=
    .beforeGap (hinput.anyKeyword (by decide))
  exact .bind_of_ok (leadingQualifiers_append false hinput) (.bind_of_ok (opt_of_mismatch hkind) hname.bind)

/-- A name without a list needs a level as well. -/
theorem cType_lacksLevel (hroom : room ≤ lists) (hrest : EndsName rest) :
    LacksLevel (cType room) (render (nested lists) ++ rest) := by
  induction lists generalizing room rest with
  | zero =>
    obtain rfl := Nat.le_zero.1 hroom
    have hpath : isPath ["int".toList] = true := by decide
    have hbase : baseName ("int".toList ++ rest) = .ok (.path ["int".toList]) rest := baseName_append hpath hrest
    have hstarts := (named_nested 0).startsName hrest.word
    exact qualified_lacksLevel hstarts (named_lacksLevel hbase (lacksLevel_tooDeep _))
  | succ lists ih =>
    have hends : EndsName ('>' :: rest) := endsName_cons (by decide) (by decide) (by decide) rest
    have hinner := (named_nested lists).startsName hends.word
    have hstarts := (named_nested (lists + 1)).startsName hrest.word
    have htext : render (nested (lists + 1)) ++ rest = "A".toList ++ '<' :: (render (nested lists) ++ '>' :: rest) := by
      rw [nested, render, render, renderList, Text.join]
      simp only [List.append_assoc, List.cons_append, List.nil_append]
    have hpath : isPath ["A".toList] = true := by decide
    have hbase : baseName ("A".toList ++ '<' :: (render (nested lists) ++ '>' :: rest)) =
        .ok (.path ["A".toList]) ('<' :: (render (nested lists) ++ '>' :: rest)) :=
      baseName_append hpath (endsName_cons (by decide) (by decide) (by decide) _)
    rw [htext] at hstarts ⊢
    refine qualified_lacksLevel hstarts (named_lacksLevel hbase ?_)
    rw [gapEnd_cons (by decide) (by decide)]
    cases room with
    | zero => exact lacksLevel_tooDeep _
    | succ room =>
      -- The list takes its level, and the name in it finds none.
      have hdeep := ih (Nat.le_of_succ_le_succ hroom) hends
      refine .bind_of_ok (char_cons '<' _) (LacksLevel.sepBy (LacksLevel.spaced ?_)).bind
      rw [gapEnd_of_startsToken hinner.token]
      exact LacksLevel.firstOf hdeep.bind

end CType

/-! ### Statements and blocks -/

variable {room lists blocks : Nat} {spaces rest : Text} (layout : Layout)

namespace SourceItem

/-- A variable of a nested type in as many blocks. -/
def nested (lists : Nat) : (blocks : Nat) → SourceItem
  | 0 => .declaration (.var (CType.nested lists) "x".toList)
  | blocks + 1 => .enclosed "a".toList [nested lists blocks]

theorem wellFormed_variable (lists : Nat) : (Declaration.var (CType.nested lists) "x".toList).WellFormed :=
  .var (.named (named_nested lists)) (by decide)

theorem wellFormed_nested (lists blocks : Nat) : (nested lists blocks).WellFormed := by
  induction blocks with
  | zero => exact .declaration (wellFormed_variable lists)
  | succ blocks ih =>
    refine .enclosed (by decide) fun item hitem => ?_
    obtain rfl := List.mem_singleton.1 hitem
    exact ih

theorem wellFormed_singleton (lists blocks : Nat) : ∀ item ∈ [nested lists blocks], item.WellFormed := by
  intro item hitem
  obtain rfl := List.mem_singleton.1 hitem
  exact wellFormed_nested lists blocks

theorem depth_nested (lists blocks : Nat) : (nested lists blocks).depth = blocks + lists := by
  induction blocks with
  | zero => rw [nested, depth, Declaration.depth, listDepth_nested, Nat.zero_add]
  | succ blocks ih =>
    rw [nested, depth, deepest, deepest, ih]
    omega

theorem lines_singleton (item : SourceItem) (rest : Text) :
    lines layout [item] ++ rest = text layout item ++ (layout.line ++ rest) := by
  rw [lines_eq_flatMap, List.flatMap_singleton, List.append_assoc]

/-- The statement is tried as a function first, and that is where the type ends the reading. -/
theorem variable_lacksLevel (body : Parser Scope) (hspaces : IsSpaces spaces) (hroom : room ≤ lists) (rest : Text) :
    LacksLevel (Scope.itemWith room body)
      (spaces ++ ((Declaration.var (CType.nested lists) "x".toList).text layout ++ rest)) := by
  have hstarts := Declaration.startsMember_text layout (wellFormed_variable lists) rest
  have htype : Written (CType.nested lists) := .named (named_nested lists)
  have hends : EndsType (layout.pad ++ ';' :: rest) := endsType_append layout.isSpaces_pad (by decide) rest
  have hname : isDeclarable "x".toList = true := by decide
  have hdeclares := layout.declares hname hends.word
  rw [LacksLevel, Scope.itemWith_of_startsMember hspaces hstarts]
  rw [Declaration.text_var] at hstarts ⊢
  generalize layout.blank ++ ("x".toList ++ (layout.pad ++ ';' :: rest)) = behind at hstarts hdeclares ⊢
  have hdeep : LacksLevel (cType room) (render (CType.nested lists) ++ behind) :=
    cType_lacksLevel hroom hdeclares.endsType.toEndsName
  have hrecord := record_of_front room hdeclares.endsType.word (htype.front behind)
  have hhead : Mismatches (templateHead room) (render (CType.nested lists) ++ behind) :=
    templateHead_of_ne (hstarts.words "template" (by decide))
  have hspecifiers := specifiers_of_front hdeclares.endsType.word (htype.front behind) hstarts
  have hsignature : LacksLevel (FunctionDecl.signature room) (render (CType.nested lists) ++ behind) :=
    LacksLevel.firstOf hdeep.bind
  rw [firstOf_of_mismatch hrecord.map]
  refine LacksLevel.firstOf (LacksLevel.map ?_)
  exact .bind_of_ok (leadingComment_of_startsToken hstarts.token) (.bind_of_ok (opt_of_mismatch hhead)
    (.bind_of_ok hspecifiers (LacksLevel.firstOf hsignature.map).bind))

/-- Where neither the blocks nor the lists find their levels, an item ends the reading. -/
theorem nested_lacksLevel (hspaces : IsSpaces spaces) (hroom : room ≤ blocks + lists) (rest : Text) :
    LacksLevel (Scope.itemWith room (scope room true)) (spaces ++ (text layout (nested lists blocks) ++ rest)) := by
  induction blocks generalizing room spaces rest with
  | zero => exact variable_lacksLevel layout _ hspaces (by omega) rest
  | succ blocks ih =>
    have hname : isDeclarable "a".toList = true := by decide
    rw [nested, text_enclosed, lines_singleton]
    obtain ⟨others, hchoice⟩ := itemWith_namespace layout room (scope room true) hname hspaces
      (layout.line ++ (text layout (nested lists blocks) ++ (layout.line ++ '\x7d' :: rest)))
    rw [LacksLevel, hchoice]
    refine LacksLevel.firstOf (LacksLevel.map ?_)
    rw [LacksLevel, Namespace.parserWith_head layout _ hname]
    refine LacksLevel.bind ?_
    cases room with
    | zero => exact lacksLevel_tooDeep _
    | succ room =>
      have hstarts := startsLine_text layout (wellFormed_nested lists blocks) (layout.line ++ '\x7d' :: rest)
      have hlevels : room ≤ blocks + lists := by omega
      have hitem := ih layout.isSpaces_line hlevels (layout.line ++ '\x7d' :: rest)
      exact LacksLevel.map (.manyTill (Scope.scopeEnd_of_startsLine true layout.isSpaces_line hstarts) hitem)

/-! ### Headers -/

theorem scope_nested_lacksLevel (hroom : room ≤ blocks + lists + 1) :
    LacksLevel (scope room false) (lines layout [nested lists blocks]) := by
  cases room with
  | zero => exact lacksLevel_tooDeep _
  | succ room =>
    have hstarts := startsLine_text layout (wellFormed_nested lists blocks) layout.line
    have hspaces : IsSpaces [] := nofun
    have hitem := nested_lacksLevel layout hspaces (Nat.le_of_succ_le_succ hroom) layout.line
    have htext : lines layout [nested lists blocks] = [] ++ (text layout (nested lists blocks) ++ layout.line) := by
      rw [← List.append_nil (lines layout _), lines_singleton, List.append_nil, List.nil_append]
    rw [htext]
    exact LacksLevel.map (.manyTill (Scope.scopeEnd_of_startsLine false hspaces hstarts) hitem)

theorem header_lacksLevel (hroom : room ≤ blocks + lists + 1) :
    LacksLevel (HeaderOutline.header room) (lines layout [nested lists blocks]) := by
  rw [LacksLevel, HeaderOutline.header, withoutByteOrderMark_lines layout (wellFormed_singleton lists blocks)]
  exact LacksLevel.map (scope_nested_lacksLevel layout hroom)

theorem header_nested_ok (hroom : blocks + lists + 1 < room) :
    HeaderOutline.header room (lines layout [nested lists blocks]) = .ok (header [nested lists blocks]) [] := by
  have hdepth : deepest [nested lists blocks] = blocks + lists := by
    rw [deepest, deepest, depth_nested, Nat.max_zero]
  cases room with
  | zero => cases hroom
  | succ room =>
    rw [HeaderOutline.header, withoutByteOrderMark_lines layout (wellFormed_singleton lists blocks)]
    exact map_of_ok (scope_lines layout (wellFormed_singleton lists blocks) (by omega))

end SourceItem

/-- Blocks in blocks around a variable of a type with lists in lists are read if, with the levels that are held
and the one of the header, they stay below the limit. If they do not, all that is reported is the want of a
level. -/
theorem header_nested (nesting : Nesting) (lists blocks : Nat) :
    (nesting.held + 1 + blocks + lists < nestingLimit →
      header nesting.room (SourceItem.lines layout [.nested lists blocks]) =
        .ok (SourceItem.header [.nested lists blocks]) []) ∧
    (nestingLimit ≤ nesting.held + 1 + blocks + lists →
      LacksLevel (header nesting.room) (SourceItem.lines layout [.nested lists blocks])) := by
  unfold Nesting.room
  refine ⟨fun hheld => ?_, fun hheld => ?_⟩
  · exact SourceItem.header_nested_ok layout (by omega)
  · exact SourceItem.header_lacksLevel layout (by omega)

/-- Single spaces where words have to be apart, and all on one line. -/
def Layout.oneLine : Layout := { compact with line := [], isSpaces_line := nofun }

theorem text_nested_oneLine (lists blocks : Nat) (rest : Text) :
    SourceItem.text .oneLine (.nested lists blocks) ++ rest = (List.replicate blocks "namespace a \x7b".toList).flatten ++
      (SourceItem.text .oneLine (.nested lists 0) ++ (List.replicate blocks '\x7d' ++ rest)) := by
  induction blocks generalizing rest with
  | zero => rfl
  | succ blocks ih =>
    have hnested : SourceItem.nested lists (blocks + 1) = .enclosed "a".toList [.nested lists blocks] := rfl
    have hline (text : Text) : Layout.oneLine.line ++ text = text := rfl
    have hopen (text : Text) : "namespace".toList ++ (Layout.oneLine.blank ++ ("a".toList ++ (Layout.oneLine.blank ++
        '\x7b' :: text))) = "namespace a \x7b".toList ++ text := rfl
    have hclose : List.replicate (blocks + 1) '\x7d' ++ rest = List.replicate blocks '\x7d' ++ '\x7d' :: rest := by
      rw [List.replicate_succ', List.append_assoc, List.singleton_append]
    rw [hnested, SourceItem.text_enclosed, SourceItem.lines_singleton, hline, hline, hopen, ih,
      List.replicate_succ, List.flatten_cons, List.append_assoc, hclose]

/-- With sixty levels held, a block around one list is read, and around two lists it is not. -/
theorem header_nested_sixty :
    (60 + 1 + 1 + 1 < nestingLimit ∧ header ({ held := 60 } : Nesting).room "namespace a \x7bA<int> x;\x7d".toList =
      .ok (SourceItem.header [.nested 1 1]) []) ∧
    (nestingLimit ≤ 60 + 1 + 1 + 2 ∧
      LacksLevel (header ({ held := 60 } : Nesting).room) "namespace a \x7bA<A<int>> x;\x7d".toList) := by
  have hone : SourceItem.lines .oneLine [.nested 1 1] = "namespace a \x7bA<int> x;\x7d".toList := by decide +kernel
  have htwo : SourceItem.lines .oneLine [.nested 2 1] = "namespace a \x7bA<A<int>> x;\x7d".toList := by decide +kernel
  have hread := header_nested .oneLine { held := 60 } 1 1
  have hdeep := header_nested .oneLine { held := 60 } 2 1
  rw [hone] at hread
  rw [htwo] at hdeep
  exact ⟨⟨by decide, hread.1 (by decide)⟩, by decide, hdeep.2 (by decide)⟩

/-- The header and the blocks take no more than the levels that there are, but the name inside finds none. -/
theorem header_nested_deepest : Nesting.outermost.held + 1 + 63 + 0 ≤ nestingLimit ∧
    LacksLevel (header Nesting.outermost.room)
      ((List.replicate 63 "namespace a \x7b".toList).flatten ++ ("int x;".toList ++ List.replicate 63 '\x7d')) := by
  have hvariable : SourceItem.text .oneLine (.nested 0 0) = "int x;".toList := by decide +kernel
  have htext : SourceItem.lines .oneLine [.nested 0 63] =
      (List.replicate 63 "namespace a \x7b".toList).flatten ++ ("int x;".toList ++ List.replicate 63 '\x7d') := by
    have hnested := text_nested_oneLine 0 63 []
    rw [hvariable, List.append_nil, List.append_nil] at hnested
    rw [← List.append_nil (SourceItem.lines _ _), SourceItem.lines_singleton, hnested]
    exact List.append_nil _
  have hdeep : LacksLevel (header Nesting.outermost.room) (SourceItem.lines .oneLine [.nested 0 63]) :=
    SourceItem.header_lacksLevel .oneLine (Nat.le_refl Nesting.outermost.room)
  rw [htext] at hdeep
  exact ⟨Nat.le_refl _, hdeep⟩

end HeaderOutline
