import HeaderOutline.Header
import HeaderOutline.Proofs.Source.Record
/-!
# Reading written headers back

The items of a scope are passed over by every alternative in front of the one that reads them. So the text of
a tree is read back level by level, and the header that is found lists what the tree declares.
-/

namespace HeaderOutline

open HeaderOutline.Parser HeaderOutline.CType

variable {room : Nat} {input rest name : Text} {contents : Scope} (layout : Layout)

/-! ### Namespaces -/

namespace Namespace

section

variable {inner : Text}

/-- A namespace with contents is no alias. -/
theorem aliasStatement_of_brace (hname : isDeclarable name = true) (inner : Text) : Mismatches aliasStatement
    ("namespace".toList ++ (layout.blank ++ (name ++ (layout.blank ++ '\x7b' :: inner)))) := by
  have hends := endsWord_brace layout inner
  have hdeclares := layout.declares hname hends
  have hread := beforeGap_of_ok (keyword_append "namespace" hdeclares.endsType.word)
  have hidentifier := identifier_append hdeclares.isIdentifier hends
  rw [hdeclares.gapEnd] at hread
  refine .textOf (.bind_of_ok hread (.bind_of_ok hidentifier (.bind (spaced_char_of_ne ?_))))
  rw [gapEnd_brace]
  exact head?_cons_ne (by decide) _

/-- The name of a namespace up to its brace. -/
theorem segments_append (hname : isDeclarable name = true) (inner : Text) :
    beforeGap (sepBy1 (spaced (literal "::")) segment) (name ++ (layout.blank ++ '\x7b' :: inner)) =
      .ok [name] ('\x7b' :: inner) := by
  have hends := endsWord_brace layout inner
  have hdeclares := layout.declares hname hends
  have hinline : Mismatches (beforeGap (keyword "inline")) (name ++ (layout.blank ++ '\x7b' :: inner)) :=
    .beforeGap (keyword_of_ne (by decide) (hdeclares.startsName.ne (by decide)))
  have hsegment : segment (name ++ (layout.blank ++ '\x7b' :: inner)) = .ok name (layout.blank ++ '\x7b' :: inner) :=
    (bind_of_ok (opt_of_mismatch hinline)).trans (identifier_append hdeclares.isIdentifier hends)
  have hcolons : Mismatches (spaced (literal "::")) (layout.blank ++ '\x7b' :: inner) := by
    refine .spaced (literal_of_ne rfl ?_)
    rw [gapEnd_brace]
    exact head?_cons_ne (by decide) _
  have hread : sepBy1 (spaced (literal "::")) segment (name ++ (layout.blank ++ '\x7b' :: inner)) =
      .ok [name] (layout.blank ++ '\x7b' :: inner) := by
    rw [sepBy1_of_ok hsegment, sepTail_of_mismatch hcolons]
    rfl
  rw [beforeGap_of_ok hread, gapEnd_brace]

/-- The head of a namespace is passed over, and its body is read behind the brace. -/
theorem parserWith_head (body : Parser Scope) (hname : isDeclarable name = true) (inner : Text) :
    parserWith body ("namespace".toList ++ (layout.blank ++ (name ++ (layout.blank ++ '\x7b' :: inner)))) =
      (do
        let scope ← body
        let _ ← opt (afterGap (char ';'))
        pure { nest scope [name] with isInline := false } : Parser Namespace) inner := by
  have hends_name := endsWord_brace layout inner
  have hdeclares := layout.declares hname hends_name
  have hbehind : (gapEnd (layout.blank ++ '\x7b' :: inner)).head? ≠ some '(' := by
    rw [gapEnd_brace]
    exact head?_cons_ne (by decide) inner
  have hnone := attributes_of_name (isPlainName_of_isDeclarable hname) hends_name hbehind
  generalize layout.blank ++ (name ++ (layout.blank ++ '\x7b' :: inner)) = behind at hdeclares ⊢
  have hends := hdeclares.endsType.word
  have htoken : StartsToken ("namespace".toList ++ behind) := startsToken_word (by decide) _
  have hinline : Mismatches (beforeGap (keyword "inline")) ("namespace".toList ++ behind) :=
    .beforeGap (keyword_of_ne (by decide) (by rw [headWord_append (by decide) hends]; decide))
  have hword := beforeGap_of_ok (keyword_append "namespace" hends)
  have hattributes : attributes ('\x7b' :: inner) = .ok () ('\x7b' :: inner) :=
    attributes_of_uncalled (head?_cons_ne (by decide) _) (uncalled_of_endsWord (endsWord_cons (by decide) inner))
  rw [hdeclares.gapEnd] at hword
  rw [parserWith, bind_of_ok (spaces0_of_startsToken htoken), bind_of_ok (opt_of_mismatch hinline), bind_of_ok hword,
    bind_of_ok hnone, bind_of_ok (opt_of_ok (segments_append layout hname inner)),
    bind_of_ok hattributes, bind_of_ok (char_cons '\x7b' inner)]
  rfl

/-- A namespace with the contents that are read behind its brace. -/
theorem parserWith_append {body : Parser Scope} (hname : isDeclarable name = true) (hbody : body inner = .ok contents rest)
    (hrest : EndsLine rest) :
    parserWith body ("namespace".toList ++ (layout.blank ++ (name ++ (layout.blank ++ '\x7b' :: inner)))) =
      .ok { name := some name, isInline := false, scope := contents } rest := by
  have hsemicolon : Mismatches (afterGap (char ';')) rest := .afterGap (char_of_ne hrest)
  rw [parserWith_head layout body hname, bind_of_ok hbody, bind_of_ok (opt_of_mismatch hsemicolon)]
  rfl

end

end Namespace

theorem Scope.scopeEnd_of_startsLine (isBlock : Bool) {spaces : Text} (hspaces : IsSpaces spaces)
    (hinput : StartsLine input) : Mismatches (Scope.scopeEnd isBlock) (spaces ++ input) := by
  obtain ⟨text, hread⟩ := spaces0_append hspaces hinput.startsToken
  refine .bind_of_ok hread ?_
  cases isBlock with
  | true => exact (char_of_ne (hinput.head_ne (by decide) (by decide))).map
  | false =>
    obtain ⟨c, tail, rfl, -⟩ := hinput
    exact ⟨_, rfl⟩

namespace SourceItem

/-! ### Contents -/

/-- The item of a scope. -/
def scopeItem : SourceItem → ScopeItem
  | .declaration declared => declared.item .record .function .vars
  | .enclosed name items => .enclosed { name := some name, isInline := false, scope := scopeWith items (namespaces items) }

/-- A scope lists its items by kind, and each kind in source order. -/
theorem ofItems_scopeItem (items : List SourceItem) :
    Scope.ofItems (items.map scopeItem) = scopeWith items (namespaces items) := by
  induction items with
  | nil =>
    simp only [scopeWith, namespaces, List.filterMap_nil, Declaration.records]
    rfl
  | cons item items ih =>
    have hcons : Scope.ofItems ((item :: items).map scopeItem) =
        Scope.append (Scope.ofItem (scopeItem item)) (Scope.ofItems (items.map scopeItem)) := rfl
    rw [hcons, ih, scopeWith]
    cases item with
    | declaration declared =>
      have hrecords := Declaration.records_cons declared (items.filterMap toDeclaration?)
      have hdeclarations : (SourceItem.declaration declared :: items).filterMap toDeclaration? =
          declared :: items.filterMap toDeclaration? := rfl
      rw [scopeItem, namespaces, scopeWith, hdeclarations, hrecords]
      cases declared with
      | var type declaredName =>
        simp only [Declaration.records]
        rfl
      | function result declaredName params =>
        simp only [Declaration.records]
        rfl
      | struct declaredName members =>
        simp only [Declaration.records]
        rfl
    | enclosed declaredName inner =>
      rw [scopeItem, namespaces, scopeWith]
      rfl

/-! ### Items -/

theorem startsLine_text {item : SourceItem} (hitem : item.WellFormed) (rest : Text) :
    StartsLine (text layout item ++ rest) := by
  cases hitem with
  | declaration hdeclared => exact Declaration.startsLine_text layout hdeclared rest
  | enclosed _ _ =>
    rw [text_enclosed]
    exact ⟨'n', _, rfl, .inl (by decide)⟩

/-- Blocks are read back, as far as the levels that are left suffice. -/
def ReadsBlocks (room : Nat) : Prop :=
  ∀ items : List SourceItem, (∀ item ∈ items, item.WellFormed) → deepest items + 1 < room → ∀ rest,
    scope room true (layout.line ++ (lines layout items ++ '\x7d' :: rest)) = .ok (scopeWith items (namespaces items)) rest

/-- No alternative in front of namespaces matches one. -/
theorem itemWith_namespace (room : Nat) (body : Parser Scope) (hname : isDeclarable name = true) {spaces : Text}
    (hspaces : IsSpaces spaces) (inner : Text) : ∃ others,
      Scope.itemWith room body (spaces ++ ("namespace".toList ++ (layout.blank ++ (name ++ (layout.blank ++ '\x7b' :: inner))))) =
        firstOf ((.enclosed <$> Namespace.parserWith body) :: others)
          ("namespace".toList ++ (layout.blank ++ (name ++ (layout.blank ++ '\x7b' :: inner)))) := by
  have halias := Namespace.aliasStatement_of_brace layout hname inner
  generalize layout.blank ++ (name ++ (layout.blank ++ '\x7b' :: inner)) = behind at halias ⊢
  have htoken : StartsToken ("namespace".toList ++ behind) := startsToken_word (by decide) behind
  obtain ⟨text, hspaces⟩ := spaces0_append hspaces htoken
  have hsemicolon : Mismatches (char ';') ("namespace".toList ++ behind) := char_of_ne nofun
  have hdirective : Mismatches directive ("namespace".toList ++ behind) := directive_of_ne nofun
  rw [Scope.itemWith, bind_of_ok hspaces, firstOf_of_mismatch hsemicolon.map, firstOf_of_mismatch hdirective.map,
    firstOf_of_mismatch halias.map]
  exact ⟨_, rfl⟩

/-- An item is read behind any white space, if no semicolon follows. -/
theorem item_append (hblocks : ReadsBlocks layout room) {item : SourceItem} (hitem : item.WellFormed)
    (hdepth : item.depth < room) {spaces : Text} (hspaces : IsSpaces spaces) (hrest : EndsLine rest) :
    Scope.itemWith room (scope room true) (spaces ++ (text layout item ++ rest)) = .ok item.scopeItem rest := by
  cases hitem with
  | @declaration declared hdeclared =>
    rw [depth] at hdepth
    have hread := Declaration.firstOf_text layout (Declaration.readsMembers layout room) hdeclared hdepth
      ScopeItem.record .function .vars [(fun _ => .ignored) <$> macroInvocation, .comment <$> HeaderOutline.comment,
        unrecognized "declaration"] rest
    exact (Scope.itemWith_of_startsMember hspaces (Declaration.startsMember_text layout hdeclared rest) _).trans hread
  | @enclosed name items hname hitems =>
    rw [depth] at hdepth
    rw [text_enclosed]
    have hbody := hblocks items hitems hdepth rest
    generalize layout.line ++ (lines layout items ++ '\x7d' :: rest) = inner at hbody ⊢
    obtain ⟨others, hchoice⟩ := itemWith_namespace layout room (scope room true) hname hspaces inner
    rw [hchoice]
    exact firstOf_of_ok (map_of_ok (Namespace.parserWith_append layout hname hbody hrest))

/-- Lines of items are read up to the end of the block or of the text. -/
theorem manyTill_append (hblocks : ReadsBlocks layout room) {items : List SourceItem}
    (hitems : ∀ item ∈ items, item.WellFormed) (hdepth : deepest items < room) {stop : Parser Unit} {mid : Text}
    (hnext : ∀ spaces input, IsSpaces spaces → StartsLine input → Mismatches stop (spaces ++ input))
    (hrest : ∀ spaces, IsSpaces spaces → EndsLine (spaces ++ rest))
    (hstop : ∀ spaces, IsSpaces spaces → stop (spaces ++ rest) = .ok () mid) {spaces : Text} (hspaces : IsSpaces spaces) :
    (Scope.ofItems <$> manyTill (Scope.itemWith room (scope room true)) stop) (spaces ++ (lines layout items ++ rest)) =
      .ok (scopeWith items (namespaces items)) mid := by
  have hread : manyTill (Scope.itemWith room (scope room true)) stop (spaces ++ (lines layout items ++ rest)) =
      .ok (items.map scopeItem) mid := by
    rw [lines_eq_flatMap]
    refine manyTill_lines scopeItem layout.isSpaces_line (fun item hitem => startsLine_text layout (hitems item hitem)) hnext
      (fun item hitem spaces tail hspaces htail => ?_) hrest hstop hspaces
    have hitem_depth : item.depth ≤ deepest items := depth_le_deepest hitem
    exact item_append layout hblocks (hitems item hitem) (by omega) hspaces htail
  rw [map_of_ok hread, ofItems_scopeItem]

/-- Each level of nesting takes one from the levels that are left. -/
theorem readsBlocks (room : Nat) : ReadsBlocks layout room := by
  induction room with
  | zero => exact fun items _ hdepth => absurd hdepth (Nat.not_lt_zero _)
  | succ room ih =>
    intro items hitems hdepth rest
    have hcloser : StartsToken ('\x7d' :: rest) := startsToken_cons (by decide) (by decide) rest
    refine manyTill_append layout ih hitems (by omega) (fun spaces input hspaces hinput => ?_) (fun spaces hspaces => ?_)
      (fun spaces hspaces => ?_) layout.isSpaces_line
    · exact Scope.scopeEnd_of_startsLine true hspaces hinput
    · rw [EndsLine, gapEnd_append_token hspaces hcloser]
      exact head?_cons_ne (by decide) _
    · obtain ⟨text, hread⟩ := spaces0_append hspaces hcloser
      exact (bind_of_ok hread).trans (map_of_ok (char_cons '\x7d' rest))

/-! ### Headers -/

theorem scope_lines {items : List SourceItem} (hitems : ∀ item ∈ items, item.WellFormed) (hdepth : deepest items < room) :
    scope (room + 1) false (lines layout items) = .ok (scopeWith items (namespaces items)) [] := by
  have hempty : StartsToken [] := startsToken_nil
  have hread : (Scope.ofItems <$> manyTill (Scope.itemWith room (scope room true)) (Scope.scopeEnd false))
      ([] ++ (lines layout items ++ [])) = .ok (scopeWith items (namespaces items)) [] := by
    refine manyTill_append layout (readsBlocks layout room) hitems hdepth (fun spaces input hspaces hinput => ?_)
      (fun spaces hspaces => ?_) (fun spaces hspaces => ?_) (fun c hc => by cases hc)
    · exact Scope.scopeEnd_of_startsLine false hspaces hinput
    · rw [EndsLine, gapEnd_append_token hspaces hempty]
      rintro ⟨⟩
    · obtain ⟨text, hread⟩ := spaces0_append hspaces hempty
      exact bind_of_ok hread
  rw [List.nil_append, List.append_nil] at hread
  exact hread

/-- No byte order mark stands in front of an item. -/
theorem withoutByteOrderMark_lines {items : List SourceItem} (hitems : ∀ item ∈ items, item.WellFormed) :
    Header.withoutByteOrderMark (lines layout items) = lines layout items := by
  cases items with
  | nil => rfl
  | cons item items =>
    obtain ⟨c, tail, htext, hc⟩ := startsLine_text layout (hitems item List.mem_cons_self)
      (layout.line ++ lines layout items)
    have hlines : lines layout (item :: items) = c :: tail := by
      rw [← htext, lines_eq_flatMap, List.flatMap_cons, ← lines_eq_flatMap, List.append_assoc]
    have hmark : ¬(isWordStart Header.byteOrderMark = true ∨ Header.byteOrderMark = ':') := by decide +kernel
    have hne : c ≠ Header.byteOrderMark := fun heq => hmark (heq ▸ hc)
    rw [hlines]
    exact if_neg hne

end SourceItem

/-- What is printed is read back: the header that is found in the lines of a tree is the one it declares. -/
theorem header_lines {items : List SourceItem} (hitems : ∀ item ∈ items, item.WellFormed)
    (hdepth : SourceItem.deepest items + 1 < nestingLimit) :
    header nestingLimit (SourceItem.lines layout items) = .ok (SourceItem.header items) [] := by
  have hroom : SourceItem.deepest items < 63 := Nat.lt_of_succ_lt_succ hdepth
  have hscope : scope nestingLimit false (SourceItem.lines layout items) =
      .ok (SourceItem.scopeWith items (SourceItem.namespaces items)) [] := SourceItem.scope_lines layout hitems hroom
  rw [header, SourceItem.withoutByteOrderMark_lines layout hitems]
  exact map_of_ok hscope

/-- A struct and a function with arguments in a namespace, and a variable behind it. -/
def geometry : List SourceItem :=
  [.enclosed "geometry".toList
    [.declaration (.struct "Point".toList
      [.var (.path ["double".toList]) "x".toList, .var (.path ["double".toList]) "y".toList]),
     .declaration (.function (.generic (.path ["std".toList, "vector".toList]) [.path ["Point".toList]]) "hull".toList
      [(.reference (.const (.path ["Cloud".toList])), "cloud".toList), (.path ["int".toList], "limit".toList)])],
   .declaration (.var (.pointer (.path [[], "geometry".toList, "Point".toList])) "origin".toList)]

/-- The same with one space between any two tokens. -/
def geometryLines : List String :=
  ["namespace geometry \x7b", "struct Point \x7b", "double x ;", "double y ;", "\x7d ;",
   "std::vector<Point> hull ( const Cloud& cloud , int limit ) ;", "\x7d", "::geometry::Point* origin ;"]

theorem header_lines_geometry : (∀ item ∈ geometry, item.WellFormed) ∧ SourceItem.deepest geometry + 1 < nestingLimit ∧
    header nestingLimit (geometryLines.flatMap fun line => line.toList ++ ['\n']) =
      .ok (SourceItem.header geometry) [] := by
  have hcoordinate (name : Text) (hname : isDeclarable name = true) :
      (Declaration.var (.path ["double".toList]) name).WellFormed := .var (.named (.path (by decide))) hname
  have hpoint : ∀ arg ∈ [CType.path ["Point".toList]], Argument arg := by
    intro arg harg
    obtain rfl := List.mem_singleton.1 harg
    exact .type (.named (.path (by decide)))
  have hitems : ∀ item ∈ geometry, item.WellFormed := by
    unfold geometry
    simp only [List.forall_mem_cons, List.not_mem_nil, false_imp_iff, implies_true, and_true]
    refine ⟨.enclosed (by decide) ?_, .declaration (.var (.pointer (.named (.path (by decide)))) (by decide))⟩
    simp only [List.forall_mem_cons, List.not_mem_nil, false_imp_iff, implies_true, and_true]
    refine ⟨.declaration (.struct (by decide) ?_),
      .declaration (.function (.named (.generic (by decide) hpoint)) (by decide) ?_)⟩
    · simp only [List.forall_mem_cons, List.not_mem_nil, false_imp_iff, implies_true, and_true]
      exact ⟨hcoordinate _ (by decide), hcoordinate _ (by decide)⟩
    · simp only [List.forall_mem_cons, List.not_mem_nil, false_imp_iff, implies_true, and_true]
      exact ⟨⟨.reference (.const (.path (by decide))), by decide⟩, .named (.path (by decide)), by decide⟩
  have hdepth : SourceItem.deepest geometry + 1 < nestingLimit := by decide
  have htext : SourceItem.lines .spaced geometry = geometryLines.flatMap fun line => line.toList ++ ['\n'] := by
    decide +kernel
  have hread := header_lines .spaced hitems hdepth
  rw [htext] at hread
  exact ⟨hitems, hdepth, hread⟩

end HeaderOutline
