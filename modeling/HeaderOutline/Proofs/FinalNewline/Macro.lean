import HeaderOutline.Header
import HeaderOutline.Proofs.Source.Depth
import HeaderOutline.Proofs.Source.Record
/-!
# Words that stand alone

A word with no more than white space behind it declares nothing, so that it is only known as a macro. And a macro it is
in front of a line ending, but not at the end of the text.
-/

namespace HeaderOutline

open HeaderOutline.Parser HeaderOutline.CType

variable {room : Nat} {word rest : Text}

/-! ### White space at the end -/

theorem gapEnd_spaces (hrest : IsSpaces rest) : gapEnd rest = [] := by
  rw [← List.append_nil rest, gapEnd_append_token hrest startsToken_nil]

theorem endsType_spaces (hrest : IsSpaces rest) : EndsType rest := by
  cases rest with
  | nil => exact endsType_nil
  | cons c tail =>
    have hgap := gapEnd_spaces hrest
    have hdrop : (c :: tail).dropWhile isSpace = [] := by
      rw [← List.append_nil (c :: tail), dropWhile_isSpace_append hrest startsToken_nil]
    have hword : EndsWord (c :: tail) := by
      rw [← List.append_nil (c :: tail)]
      exact endsWord_spaces hrest (List.cons_ne_nil c tail) []
    have hcolon : (c :: tail).head? ≠ some ':' := by
      rintro ⟨⟩
      exact absurd (hrest ':' List.mem_cons_self) (by decide)
    refine ⟨⟨⟨hword, hcolon, ?_⟩, ?_⟩, ?_, ?_⟩
    · rw [hdrop]
      decide
    · rw [hgap]
      exact nofun
    · rw [hgap]
      exact nofun
    · rw [hgap]
      decide

/-! ### Words with nothing behind them -/

section Alone

variable (hword : isPlainName word = true) (hrest : IsSpaces rest)

include hword hrest

theorem startsMember_alone : StartsMember (word ++ rest) := by
  have hends := (endsType_spaces hrest).word
  have hfront : Front 0 rest (word ++ rest) := .word hword
  have hbehind : gapEnd ((word ++ rest).dropWhile isWordChar) = [] := by
    rw [dropWhile_append hword hends, gapEnd_spaces hrest]
  have hsymbols : ∀ c ∈ [';', '#', '['], isWordStart c = false ∧ c ≠ ':' := by decide
  have hwords : ∀ word ∈ ["namespace", "inline", "extern", "template", "typedef", "using", "enum", "friend"],
      word ∈ reservedWords ∧ word ≠ "const" := by decide
  refine ⟨hfront.startsToken, fun c hc => ?_, fun other hother => ?_, fun _ _ _ => ?_, ?_⟩
  · exact hfront.head_ne (hsymbols c hc).1 (hsymbols c hc).2
  · exact hfront.word_ne hends (hwords other hother).1 (hwords other hother).2
  · rw [hbehind]
    exact nofun
  · refine accessLabel_of_front hends hfront fun _ _ _ => ?_
    have hslots : Mismatches (afterGap (anyKeyword ["slots", "Q_SLOTS"])) ((word ++ rest).dropWhile isWordChar) := by
      refine .afterGap (anyKeyword_of_ne (by decide) ?_)
      rw [hbehind]
      decide
    refine .bind_of_ok (opt_of_mismatch hslots) (.bind (.afterGap (char_of_ne ?_)))
    rw [hbehind]
    exact nofun

theorem signature_alone (hroom : 0 < room) : Mismatches (FunctionDecl.signature room) (word ++ rest) := by
  refine signature_of_plainName hroom hword (endsType_spaces hrest) ?_ ?_
  · rw [gapEnd_spaces hrest]
    exact nofun
  · rw [gapEnd_spaces hrest]
    have hname : Mismatches plainName [] := ⟨_, rfl⟩
    have hlast : Mismatches (FunctionDecl.lastName room) [] := FunctionDecl.lastName_of_ne (by decide) nofun hname
    exact .textOf (.bind_of_ok (many_of_mismatch hname.bind) hlast)

theorem function_alone (hroom : 0 < room) : Mismatches (function room) (word ++ rest) := by
  have hends := (endsType_spaces hrest).word
  have hstarts := startsMember_alone hword hrest
  have hhead : Mismatches (templateHead room) (word ++ rest) := templateHead_of_ne (hstarts.words "template" (by decide))
  have hleading := specifiers_of_front hends (.word hword : Front 0 rest (word ++ rest)) hstarts
  refine .bind_of_ok (leadingComment_of_startsToken hstarts.token) (.bind_of_ok (opt_of_mismatch hhead)
    (.bind_of_ok hleading (.bind (.firstOf_cons ?_ (.firstOf_cons ?_ .firstOf_nil)))))
  · exact (signature_alone hword hrest hroom).map
  · refine FunctionDecl.exportedSignature_of_word hword hends fun _ => ?_
    rw [gapEnd_spaces hrest]
    have hnone : StartsNoType [] := nofun
    refine ⟨specifiers_of_uncalled ?_ nofun (uncalled_of_endsWord nofun), .firstOf_cons ?_ (.firstOf_cons ?_ .firstOf_nil)⟩
    · decide
    · exact .bind hnone.qualified
    · have hname : Mismatches plainName [] := ⟨_, rfl⟩
      exact (FunctionDecl.NamesNoCall.of_mismatches hname (by decide) nofun).signature

/-- The type of a variable that has no name. -/
theorem variableStatement_alone (hroom : 0 < room) : Mismatches (variableStatement room) (word ++ rest) := by
  have hends := endsType_spaces hrest
  have hgap := gapEnd_spaces hrest
  have hstarts := startsMember_alone hword hrest
  have hhead : Mismatches (templateHead room) (word ++ rest) := templateHead_of_ne (hstarts.words "template" (by decide))
  have hspecifiers : many Variable.Specifier.parser (word ++ rest) = .ok [] (word ++ rest) :=
    many_of_mismatch (specifier_of_startsName (startsName_append hword hends.word))
  have hread : unqualifiedType room false (word ++ rest) = .ok (.path [word]) rest := by
    have htype : Written (.path [word]) := .named (.path hword)
    obtain ⟨input, htext, -, hread⟩ := htype.unqualified (templateArgs_append room) (by rw [listDepth]; exact hroom) hends
    rw [render, Text.join] at htext
    rw [htext]
    exact hread
  have hdeclarator : declarator room (.path [word]) false rest =
      .ok { name := none, type := .path [word], bitfield := none, defaultValue := none } rest := by
    have hne {c : Char} : (gapEnd rest).head? ≠ some c := by
      rw [hgap]
      exact Option.some_ne_none c |>.symm
    have hname : Mismatches plainName (gapEnd rest) := by
      rw [hgap]
      exact ⟨_, rfl⟩
    obtain ⟨hdimensions, hbitfield⟩ := declaratorSizes_of_ne fun _ _ => hne
    have hinitializer : Mismatches Declarator.initializer rest := initializer_of_ne fun _ _ => hne
    rw [declarator, Declarator.parserWith, bind_of_ok (suffixed_of_endsType _ hends),
      bind_of_ok (declaratorName_of_ne _ _ hne hname)]
    dsimp only
    rw [Bool.false_and, if_neg Bool.false_ne_true, bind_of_ok (opt_of_mismatch (.afterGap (paramList_of_ne hne)))]
    dsimp only
    rw [bind_of_ok hdimensions, bind_of_ok (opt_of_mismatch hbitfield), bind_of_ok (opt_of_mismatch hinitializer)]
    rfl
  refine .bind_of_ok (leadingComment_of_startsToken hstarts.token) (.bind_of_ok (opt_of_mismatch hhead)
    (.bind_of_ok hstarts.attributes (.bind_of_ok hspecifiers (.bind_of_ok hread (.bind_of_ok hdeclarator ?_)))))
  exact ⟨_, rfl⟩

theorem item_alone (hroom : 0 < room) (body : Parser Scope) : Scope.itemWith room body (word ++ rest) = firstOf
    [(fun _ => .ignored) <$> macroInvocation, .comment <$> comment, unrecognized "declaration"] (word ++ rest) := by
  have hends := (endsType_spaces hrest).word
  have hnone : IsSpaces [] := by decide
  have hrecord := record_of_front room hends (.word hword : Front 0 rest (word ++ rest))
  have hfunction := function_alone hword hrest hroom
  have hvariable := variableStatement_alone hword hrest hroom
  rw [← List.nil_append (word ++ rest), Scope.itemWith_of_startsMember hnone (startsMember_alone hword hrest) body,
    List.nil_append, firstOf_of_mismatch hrecord.map, firstOf_of_mismatch hfunction.map, firstOf_of_mismatch hvariable.map]

/-- Where there are no levels left, a word alone ends the reading like any other type. -/
theorem item_alone_lacksLevel (body : Parser Scope) : LacksLevel (Scope.itemWith 0 body) (word ++ rest) := by
  have hends := endsType_spaces hrest
  have hnone : IsSpaces [] := by decide
  have hstarts := startsMember_alone hword hrest
  have hpath : isPath [word] = true := by rw [isPath, hword]
  have hbase : baseName (word ++ rest) = .ok (.path [word]) rest := baseName_append hpath hends.toEndsName
  have htype : LacksLevel (cType 0) (word ++ rest) :=
    qualified_lacksLevel (startsName_append hword hends.word) (named_lacksLevel hbase (lacksLevel_tooDeep _))
  have hrecord := record_of_front 0 hends.word (.word hword : Front 0 rest (word ++ rest))
  have hhead : Mismatches (templateHead 0) (word ++ rest) := templateHead_of_ne (hstarts.words "template" (by decide))
  have hspecifiers := specifiers_of_front hends.word (.word hword : Front 0 rest (word ++ rest)) hstarts
  have hsignature : LacksLevel (FunctionDecl.signature 0) (word ++ rest) := .firstOf htype.bind
  rw [← List.nil_append (word ++ rest), LacksLevel, Scope.itemWith_of_startsMember hnone hstarts body,
    firstOf_of_mismatch hrecord.map]
  refine LacksLevel.firstOf (LacksLevel.map ?_)
  exact .bind_of_ok (leadingComment_of_startsToken hstarts.token) (.bind_of_ok (opt_of_mismatch hhead)
    (.bind_of_ok hspecifiers (LacksLevel.firstOf hsignature.map).bind))

end Alone

/-! ### Macros -/

/-- A macro name with the blanks behind it, up to the end of its line. -/
def loneMacro : Parser Text := textOf do
  let _ ← macroName
  let _ ← blanks0
  lookahead lineEnding

/-- A macro name with blanks behind it, and then the end of the text or one half of a line ending. -/
def IsLoneMacro (ending text : Text) : Prop := (ending = [] ∨ ending = ['\r']) ∧ ∃ word blanks, text = word ++ (blanks ++ ending) ∧
  isIdentifier word = true ∧ isMacroName word = true ∧ ∀ c ∈ blanks, (c == ' ' || c == '\t') = true

theorem isPlainName_of_isMacroName (hword : isIdentifier word = true) (hcapitals : isMacroName word = true) :
    isPlainName word = true := by
  have hreserved : ∀ reserved ∈ reservedWords, isMacroName reserved.toList = false := by decide
  refine Bool.and_eq_true_iff.2 ⟨hword, (Bool.not_eq_true' _).mpr (List.any_eq_false.2 fun reserved hmem heq => ?_)⟩
  rw [← beq_iff_eq.1 heq, hreserved reserved hmem] at hcapitals
  cases hcapitals

/-- A macro name without arguments is a macro if its line ends behind it. -/
theorem macroInvocation_of_ne (hword : isIdentifier word = true) (hcapitals : isMacroName word = true)
    (hrest : EndsWord rest) (hcall : (gapEnd rest).head? ≠ some '(') :
    macroInvocation (word ++ rest) = firstOf [loneMacro] (word ++ rest) :=
  firstOf_of_mismatch (.textOf (.bind_of_ok (macroName_append hword hcapitals hrest) (.bind (.afterGap (block_of_ne hcall)))))

theorem blanks0_append {blanks : Text} (hblanks : ∀ c ∈ blanks, (c == ' ' || c == '\t') = true)
    (hrest : ∀ c ∈ rest.head?, (c == ' ' || c == '\t') = false) : blanks0 (blanks ++ rest) = .ok blanks rest :=
  takeWhile_eq_ok.2 ⟨rfl, hblanks, hrest⟩

namespace IsLoneMacro

variable {ending text : Text}

theorem isSpaces_ending (htext : IsLoneMacro ending text) : IsSpaces ending := by
  rcases htext.1 with rfl | rfl <;> decide

theorem isSpaces_behind (htext : IsLoneMacro ending text) : IsSpaces (ending ++ ['\n']) := by
  rcases htext.1 with rfl | rfl <;> decide

theorem startsToken (htext : IsLoneMacro ending text) : StartsToken text := by
  obtain ⟨-, word, blanks, rfl, hword, -⟩ := htext
  exact CType.startsToken_word hword _

theorem ne_nil (htext : IsLoneMacro ending text) : text ≠ [] := by
  rintro rfl
  obtain ⟨-, word, blanks, heq, hword, -⟩ := htext
  obtain ⟨rfl, -⟩ := List.append_eq_nil_iff.1 heq.symm
  cases hword

/-- Behind the name there is white space only, and blanks up to the ending. -/
theorem exists_word (htext : IsLoneMacro ending text) : ∃ word spaces, text = word ++ spaces ∧ isIdentifier word = true ∧
    isMacroName word = true ∧ IsSpaces spaces ∧ ∀ tail, (∀ c ∈ (ending ++ tail).head?, (c == ' ' || c == '\t') = false) →
      ∃ blanks, blanks0 (spaces ++ tail) = .ok blanks (ending ++ tail) := by
  have hending := htext.isSpaces_ending
  obtain ⟨-, word, blanks, rfl, hword, hcapitals, hblanks⟩ := htext
  refine ⟨word, blanks ++ ending, rfl, hword, hcapitals, fun c hc => ?_, fun tail htail => ⟨blanks, ?_⟩⟩
  · rcases List.mem_append.1 hc with hc | hc
    · have hblank := hblanks c hc
      rw [Bool.or_eq_true, beq_iff_eq, beq_iff_eq] at hblank
      rcases hblank with rfl | rfl <;> decide
    · exact hending c hc
  · rw [List.append_assoc]
    exact blanks0_append hblanks htail

/-- At the end of the text, a macro is no item. -/
theorem item (htext : IsLoneMacro ending text) {room : Nat} (hroom : 0 < room) (body : Parser Scope) :
    ∃ trace, Scope.itemWith room body text = .failure trace := by
  have hends : ∀ c ∈ (ending ++ []).head?, (c == ' ' || c == '\t') = false := by
    rcases htext.1 with rfl | rfl
    · nofun
    · rintro c ⟨⟩
      decide
  have hline : Mismatches lineEnding (ending ++ []) := by
    rcases htext.1 with rfl | rfl <;> exact ⟨_, rfl⟩
  obtain ⟨word, spaces, rfl, hword, hcapitals, hspaces, hblanks⟩ := htext.exists_word
  obtain ⟨blanks, hread⟩ := hblanks [] hends
  rw [List.append_nil] at hread
  have hword_ends := (endsType_spaces hspaces).word
  have hlone : Mismatches loneMacro (word ++ spaces) :=
    .textOf (.bind_of_ok (macroName_append hword hcapitals hword_ends) (.bind_of_ok hread hline.lookahead))
  have hinvocation : Mismatches macroInvocation (word ++ spaces) := by
    have hne : (gapEnd spaces).head? ≠ some '(' := by
      rw [gapEnd_spaces hspaces]
      exact (Option.some_ne_none '(').symm
    rw [Mismatches, macroInvocation_of_ne hword hcapitals hword_ends hne]
    exact Mismatches.firstOf_cons hlone .firstOf_nil
  rw [item_alone (isPlainName_of_isMacroName hword hcapitals) hspaces hroom body, firstOf_of_mismatch hinvocation.map,
    firstOf_of_mismatch (comment_of_startsToken (startsToken_word hword spaces)).map]
  exact ⟨_, rfl⟩

/-- In front of a line feed, a macro is an item that declares nothing. -/
theorem item_lineFeed (htext : IsLoneMacro ending text) {room : Nat} (hroom : 0 < room) (body : Parser Scope) :
    Scope.itemWith room body (text ++ ['\n']) = .ok .ignored (ending ++ ['\n']) := by
  have hends : ∀ c ∈ (ending ++ ['\n']).head?, (c == ' ' || c == '\t') = false := by
    rcases htext.1 with rfl | rfl <;> rintro c ⟨⟩ <;> decide
  have hline : ∃ mark, lookahead lineEnding (ending ++ ['\n']) = .ok mark (ending ++ ['\n']) := by
    rcases htext.1 with rfl | rfl <;> exact ⟨_, rfl⟩
  obtain ⟨word, spaces, rfl, hword, hcapitals, hblank, hblanks⟩ := htext.exists_word
  obtain ⟨blanks, hread⟩ := hblanks ['\n'] hends
  obtain ⟨mark, hmark⟩ := hline
  have hspaces : IsSpaces (spaces ++ ['\n']) := List.forall_mem_append.2 ⟨hblank, by decide⟩
  have hword_ends := (endsType_spaces hspaces).word
  rw [List.append_assoc]
  obtain ⟨text, hlone⟩ : ∃ text, loneMacro (word ++ (spaces ++ ['\n'])) = .ok text (ending ++ ['\n']) := by
    refine textOf_eq_ok (a := mark) ?_
    rw [bind_of_ok (macroName_append hword hcapitals hword_ends), bind_of_ok hread]
    exact hmark
  have hinvocation : macroInvocation (word ++ (spaces ++ ['\n'])) = .ok text (ending ++ ['\n']) := by
    rw [macroInvocation_of_ne hword hcapitals hword_ends (by rw [gapEnd_spaces hspaces]; exact nofun)]
    exact firstOf_of_ok hlone
  rw [item_alone (isPlainName_of_isMacroName hword hcapitals) hspaces hroom body]
  exact firstOf_of_ok (map_of_ok hinvocation)

/-- Without a level for its type, a macro is no item in front of a line feed either. -/
theorem item_lineFeed_ne_ok (htext : IsLoneMacro ending text) (body : Parser Scope) (item : ScopeItem) (rest : Text) :
    Scope.itemWith 0 body (text ++ ['\n']) ≠ .ok item rest := by
  obtain ⟨word, spaces, rfl, hword, hcapitals, hblank, -⟩ := htext.exists_word
  have hspaces : IsSpaces (spaces ++ ['\n']) := List.forall_mem_append.2 ⟨hblank, by decide⟩
  obtain ⟨place, hlacks⟩ := item_alone_lacksLevel (isPlainName_of_isMacroName hword hcapitals) hspaces body
  rw [List.append_assoc, hlacks]
  nofun

end IsLoneMacro

end HeaderOutline
