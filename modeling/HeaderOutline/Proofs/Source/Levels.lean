import HeaderOutline.Proofs.CType.Levels
/-!
# Functions that run out of levels

The levels run out in a parameter list if they do in one of its parameters and those in front of it are read. In a function
they run out with its result or with its parameter list.
-/

namespace HeaderOutline

open HeaderOutline.Parser HeaderOutline.CType

variable {room : Nat} {input rest tail name : Text} {type : CType}

/-! ### Parameters -/

/-- The levels run out in the parameter wherever a list may go on. -/
structure LacksParam (inner : Parser ParamList) (room : Nat) (text : Text) : Prop extends StartsParam text where
  lacks : ∀ tail, EndsParam tail → LacksLevel (Param.parserWith inner room) (text ++ tail)

theorem param_lacksLevel (inner : Parser ParamList) (htype : Written type) (hlacks : LacksType room type)
    (hrest : Declares rest name tail) (htail : (gapEnd tail).head? ≠ some ':') :
    LacksLevel (Param.parserWith inner room) (render type ++ rest) := by
  have hstarts := startsMember_of_declares hrest htail (htype.front rest)
  obtain ⟨base, hqualifiers, hqualified⟩ := htype.qualified_eq hrest.endsType.word
  have hunqualified : LacksLevel (unqualifiedType room (beginsConst type)) base := by
    rw [LacksLevel, unqualifiedType, ← hqualified]
    exact hlacks rest hrest.endsType
  exact .bind_of_ok hstarts.attributes (.bind_of_ok hqualifiers hunqualified.bind)

/-! ### Lists -/

section Items

variable (layout : Layout) {inner : Parser ParamList} {γ : Type} {text : γ → Text} {value : γ → Param} {before after : List γ}
  {item : γ}

theorem sepTail_params_lacksLevel (hbefore : ∀ other ∈ before, ReadsParam inner room (text other) (value other))
    (hitem : LacksParam inner room (text item))
    (hinput : gapEnd input = gapEnd (layout.tailText text (before ++ item :: after) rest)) :
    LacksLevel (sepTail (spaced (char ',')) (Param.parserWith inner room)) input := by
  induction before generalizing input with
  | nil =>
    have hends := endsParam_tailText layout text after rest
    exact .sepTail (comma_tailText layout (hitem.token _ hends) hinput) (hitem.lacks _ hends)
  | cons other before ih =>
    have hother := hbefore other List.mem_cons_self
    have hends := endsParam_tailText layout text (before ++ item :: after) rest
    obtain ⟨mid, hread, hsuffix, hmid⟩ := hother.read _ hends
    have htail := ih (fun next hnext => hbefore next (List.mem_cons_of_mem other hnext)) hmid
    exact .sepTail_of_ok (comma_tailText layout (hother.token _ hends) hinput) hread
      (length_lt_of_comma layout hinput hsuffix) htail

/-- The levels run out in the first parameter that is not read. -/
theorem paramListBody_lacksLevel (hbefore : ∀ other ∈ before, ReadsParam inner room (text other) (value other))
    (hitem : LacksParam inner room (text item)) (rest : Text) : LacksLevel (paramListBody room inner)
      ('(' :: (layout.pad ++ (layout.listText text (before ++ item :: after) ++ ')' :: rest))) := by
  cases before with
  | nil =>
    have hends := endsParam_tailText layout text after rest
    exact .bind_of_ok (opener_listText layout hitem.toStartsParam after rest) (.bind (.firstOf_of_mismatch (hitem.not_void _ hends)
      (.firstOf (.sepBy (hitem.lacks _ hends)))))
  | cons first before =>
    have hfirst := hbefore first List.mem_cons_self
    have hends := endsParam_tailText layout text (before ++ item :: after) rest
    obtain ⟨mid, hread, -, hmid⟩ := hfirst.read _ hends
    have htail : LacksLevel (sepTail (spaced (char ',')) (Param.parserWith inner room)) mid :=
      sepTail_params_lacksLevel layout (fun next hnext => hbefore next (List.mem_cons_of_mem first hnext)) hitem hmid
    exact .bind_of_ok (opener_listText layout hfirst.toStartsParam _ rest) (.bind (.firstOf_of_mismatch (hfirst.not_void _ hends)
      (.firstOf (.sepBy_of_ok hread htail))))

theorem paramList_lacksLevel (value : γ → Param) (hitems : ∀ inner : Parser ParamList, (∀ input : Text, input.head? ≠ some '(' → Mismatches inner input) →
      (∀ other ∈ before, ReadsParam inner room (text other) (value other)) ∧ LacksParam inner room (text item)) (rest : Text) :
    LacksLevel (paramList room) ('(' :: (layout.pad ++ (layout.listText text (before ++ item :: after) ++ ')' :: rest))) := by
  obtain ⟨inner, hinner, heq⟩ := exists_paramListBody room
    ('(' :: (layout.pad ++ (layout.listText text (before ++ item :: after) ++ ')' :: rest)))
  obtain ⟨hbefore, hitem⟩ := hitems inner hinner
  rw [LacksLevel, heq]
  exact paramListBody_lacksLevel layout hbefore hitem rest

end Items

/-! ### Functions -/

section Function

variable (layout : Layout) (htype : Written type) (hname : isDeclarable name = true)

include htype hname

theorem function_result_lacksLevel (hlacks : LacksType room type) (list : Text) :
    LacksLevel (function room) (render type ++ (layout.blank ++ (name ++ (layout.pad ++ '(' :: list)))) := by
  have hends : EndsType (layout.pad ++ '(' :: list) := endsType_append layout.isSpaces_pad (by decide) list
  have hrest := layout.declares hname hends.word
  have hstarts := startsMember_function layout htype hname list
  generalize layout.blank ++ (name ++ (layout.pad ++ '(' :: list)) = behind at hrest hstarts ⊢
  have hhead : Mismatches (templateHead room) (render type ++ behind) :=
    templateHead_of_ne (hstarts.words "template" (by decide))
  have hleading := specifiers_of_front hrest.endsType.word (htype.front behind) hstarts
  have hsignature : LacksLevel (FunctionDecl.signature room) (render type ++ behind) := .firstOf (.bind (hlacks _ hrest.endsType))
  exact .bind_of_ok (leadingComment_of_startsToken hstarts.token) (.bind_of_ok (opt_of_mismatch hhead)
    (.bind_of_ok hleading (.bind (.firstOf hsignature.map))))

theorem function_params_lacksLevel (hread : ReadsType room type) {list : Text} (hlacks : LacksLevel (paramList room) ('(' :: list)) :
    LacksLevel (function room) (render type ++ (layout.blank ++ (name ++ (layout.pad ++ '(' :: list)))) := by
  have hopen : gapEnd (layout.pad ++ '(' :: list) = '(' :: list :=
    gapEnd_append_cons layout.isSpaces_pad (by decide) (by decide) list
  have hlist : LacksLevel (afterGap (paramList room)) (layout.pad ++ '(' :: list) := by
    refine .afterGap ?_
    rw [hopen]
    exact hlacks
  rw [LacksLevel, function_eq layout htype hname hread]
  exact hlist.bind

end Function

end HeaderOutline
