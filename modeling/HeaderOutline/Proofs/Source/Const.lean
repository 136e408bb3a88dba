import Mathlib.Data.List.Induction
import HeaderOutline.Proofs.Source.Levels
/-!
# Both places of `const`

A `const` in front of a type name and a `const` behind it make the same type, whatever marks follow. A parameter is
called constant if a `const` stands in front of its type or if its type is constant as a whole, so that of `const int& a`
and `int const& a` only the former is: the flag depends on the place where the type does not.
-/

namespace HeaderOutline

open HeaderOutline.Parser HeaderOutline.CType

variable {room : Nat} {input rest tail name : Text} {type : CType} {marks : List Suffix}

/-! ### Parameters with marks -/

namespace Param

/-- A type name with marks and the name of a parameter, possibly behind `const`. -/
def markedText (isConst : Bool) (type : CType) (marks : List Suffix) (name : Text) : Text :=
  constText isConst ++ (render type ++ (marks.flatMap Suffix.text ++ ' ' :: name))

/-- The parameter that it declares. -/
def marked (isConst : Bool) (type : CType) (marks : List Suffix) (name : Text) : Param :=
  let whole := marks.foldl Suffix.apply (withConst isConst type)
  { name := some name, type := whole, isConst := isConst || whole.isConst, defaultValue := none }

theorem markedText_append (isConst : Bool) (type : CType) (marks : List Suffix) (name tail : Text) :
    markedText isConst type marks name ++ tail =
      constText isConst ++ (render type ++ (marks.flatMap Suffix.text ++ ' ' :: (name ++ tail))) := by
  simp only [markedText, List.append_assoc, List.cons_append]

theorem declares_tail (hname : isDeclarable name = true) (htail : EndsParam tail) : Declares (' ' :: (name ++ tail)) name tail :=
  ⟨⟨[' '], isSpaces_one, List.cons_ne_nil _ _, rfl⟩, hname, htail.endsWord⟩

theorem front_markedText (htype : Named type) (isConst : Bool) (marks : List Suffix) (tail : Text) :
    Front (listDepth type) (marks.flatMap Suffix.text ++ ' ' :: (name ++ tail)) (markedText isConst type marks name ++ tail) := by
  rw [markedText_append]
  cases isConst with
  | true =>
    rw [constText, if_pos rfl, List.append_assoc]
    exact .const _
  | false => exact htype.front _

section Reading

variable (htype : Named type) (hname : isDeclarable name = true)

include htype hname

theorem attributes_markedText (isConst : Bool) (marks : List Suffix) (htail : EndsParam tail) :
    attributes (markedText isConst type marks name ++ tail) = .ok () (markedText isConst type marks name ++ tail) := by
  have hdeclares := declares_tail hname htail
  have hfront : Front _ _ (markedText isConst type marks name ++ tail) := front_markedText htype isConst marks tail
  refine attributes_of_uncalled (hfront.head_ne (by decide) (by decide)) (hfront.uncalled ?_ ?_)
  · exact endsWord_marks hdeclares.endsType.word
  · exact gapEnd_marks_ne (by decide) (by decide) (hdeclares.head_ne (by decide))

theorem startsParam_markedText (isConst : Bool) (marks : List Suffix) : StartsParam (markedText isConst type marks name) where
  token tail _ := (front_markedText htype isConst marks tail).startsToken
  not_void tail htail := by
    have hdeclares := declares_tail hname htail
    refine void_of_front (front_markedText htype isConst marks tail) (endsWord_marks hdeclares.endsType.word) ?_
    exact gapEnd_marks_ne (by decide) (by decide) (hdeclares.head_ne (by decide))

theorem readsParam_marked {inner : Parser ParamList} (hinner : ∀ input : Text, input.head? ≠ some '(' → Mismatches inner input)
    (hread : ReadsName room type) (isConst : Bool) (marks : List Suffix) :
    ReadsParam inner room (markedText isConst type marks name) (marked isConst type marks name) where
  toStartsParam := startsParam_markedText htype hname isConst marks
  read tail htail := by
    refine ⟨tail, ?_, List.suffix_rfl, rfl⟩
    have hdeclares := declares_tail hname htail
    have hattributes := attributes_markedText htype hname isConst marks htail
    have hmarks : EndsWord (marks.flatMap Suffix.text ++ ' ' :: (name ++ tail)) := endsWord_marks hdeclares.endsType.word
    have hstarts := htype.startsName hmarks
    have hopen : (gapEnd tail).head? ≠ some '(' := by
      obtain ⟨c, hc, hhead⟩ := htail.gapEnd
      rw [hhead]
      rintro ⟨⟩
      exact absurd hc (by decide)
    have hdeclarator (type : CType) : Declarator.parserWith inner type false (' ' :: (name ++ tail)) =
        .ok { name := some name, type, bitfield := none, defaultValue := none } tail := by
      obtain ⟨c, hc, hhead⟩ := htail.gapEnd
      have hclosers : ∀ c ∈ [',', ')'], c ∈ [',', ')', ';'] := by decide
      exact declarator_append hdeclares ⟨c, hclosers c hc, hhead⟩ (.afterGap (hinner _ hopen))
    rw [Param.parserWith, bind_of_ok hattributes, markedText_append, bind_of_ok (leadingQualifiers_append isConst hstarts),
      unqualifiedType, bind_of_ok (unqualified_marks htype hread isConst marks hdeclares.endsType), bind_of_ok (hdeclarator _)]
    rfl

theorem lacksParam_marked (inner : Parser ParamList) (hlacks : LacksName room type) (isConst : Bool) (marks : List Suffix) :
    LacksParam inner room (markedText isConst type marks name) where
  toStartsParam := startsParam_markedText htype hname isConst marks
  lacks tail htail := by
    have hdeclares := declares_tail hname htail
    have hattributes := attributes_markedText htype hname isConst marks htail
    have hmarks : EndsWord (marks.flatMap Suffix.text ++ ' ' :: (name ++ tail)) := endsWord_marks hdeclares.endsType.word
    have hstarts := htype.startsName hmarks
    rw [LacksLevel, Param.parserWith, bind_of_ok hattributes, markedText_append,
      bind_of_ok (leadingQualifiers_append isConst hstarts)]
    exact LacksLevel.bind (unqualified_lacksLevel htype hlacks isConst marks hdeclares.endsType)

end Reading

end Param

/-! ### Lists of one parameter -/

theorem listText_compact_singleton {γ : Type} (text : γ → Text) (item : γ) : Layout.compact.listText text [item] = text item := by
  simp [Layout.listText, Layout.compact]

theorem paramList_marked (htype : Named type) (hname : isDeclarable name = true) (hread : ReadsName room type)
    (isConst : Bool) (marks : List Suffix) (rest : Text) :
    paramList room ('(' :: (Param.markedText isConst type marks name ++ ')' :: rest)) =
      .ok { params := [Param.marked isConst type marks name], isVariadic := false } rest := by
  let text (_ : Unit) : Text := Param.markedText isConst type marks name
  have hlist : paramList room ('(' :: (Layout.compact.pad ++ (Layout.compact.listText text [()] ++ ')' :: rest))) =
      .ok { params := [()].map fun _ => Param.marked isConst type marks name, isVariadic := false } rest :=
    paramList_items .compact (fun inner hinner _ _ => Param.readsParam_marked htype hname hinner hread isConst marks) rest
  rw [listText_compact_singleton] at hlist
  exact hlist

theorem paramList_marked_lacksLevel (htype : Named type) (hname : isDeclarable name = true) (hlacks : LacksName room type)
    (isConst : Bool) (marks : List Suffix) (rest : Text) :
    LacksLevel (paramList room) ('(' :: (Param.markedText isConst type marks name ++ ')' :: rest)) := by
  let text (_ : Unit) : Text := Param.markedText isConst type marks name
  let value (_ : Unit) : Param := Param.marked isConst type marks name
  have hitems (inner : Parser ParamList) : (∀ other ∈ [], ReadsParam inner room (text other) (value other)) ∧
      LacksParam inner room (text ()) := ⟨nofun, Param.lacksParam_marked htype hname inner hlacks isConst marks⟩
  have hlist : LacksLevel (paramList room)
      ('(' :: (Layout.compact.pad ++ (Layout.compact.listText text ([] ++ [()]) ++ ')' :: rest))) :=
    paramList_lacksLevel .compact value (fun inner _ => hitems inner) rest
  rw [List.nil_append, listText_compact_singleton] at hlist
  exact hlist

/-! ### In front and behind -/

/-- Two texts of one parameter, with `const` in front of the name of its type and behind it. -/
def constInFront (type : CType) (marks : List Suffix) (name : Text) : Text :=
  "const ".toList ++ render type ++ marks.flatMap Suffix.text ++ ' ' :: name

def constBehind (type : CType) (marks : List Suffix) (name : Text) : Text :=
  render type ++ " const".toList ++ marks.flatMap Suffix.text ++ ' ' :: name

theorem constInFront_eq (type : CType) (marks : List Suffix) (name : Text) :
    constInFront type marks name = Param.markedText true type marks name := by
  have hconst : "const ".toList = constText true := by decide
  unfold constInFront Param.markedText
  rw [hconst, List.append_assoc, List.append_assoc]

theorem constBehind_eq (type : CType) (marks : List Suffix) (name : Text) :
    constBehind type marks name = Param.markedText false type (.const :: marks) name := by
  have hconst : " const".toList = Suffix.text .const := by decide
  have hnone : constText false = [] := rfl
  unfold constBehind Param.markedText
  rw [hconst, hnone, List.nil_append, List.flatMap_cons, List.append_assoc, List.append_assoc, List.append_assoc]

theorem CType.Named.isConst_eq {type : CType} (htype : Named type) : type.isConst = false := by
  cases htype <;> rfl

/-- What the marks make of a constant type is constant if the last mark that changes anything is a `const`. -/
theorem CType.isConst_foldl_apply {type : CType} (htype : type.isConst = true) (marks : List Suffix) :
    (marks.foldl Suffix.apply type).isConst = true ↔ ∀ mark ∈ (marks.filter (· ≠ .volatile)).getLast?, mark = .const := by
  induction marks using List.reverseRecOn with
  | nil => simpa using htype
  | append_singleton marks mark ih =>
    rw [List.foldl_append, List.foldl_cons, List.foldl_nil, List.filter_append]
    cases mark with
    | const =>
      rw [Suffix.apply]
      split <;> simp_all [CType.isConst]
    | volatile => simpa [Suffix.apply] using ih
    | pointer => simp [Suffix.apply, CType.isConst]
    | reference => simp [Suffix.apply, CType.isConst]
    | pack => simp [Suffix.apply, CType.isConst]

/-- A `const` in front of the name of a type and one behind it are read as the same type, whatever marks follow, or the
levels run out in both. The parameter with the `const` in front is called constant in any case, and the other one only if
no mark behind the last `const` makes another type. -/
theorem paramList_const (htype : Named type) (hname : isDeclarable name = true) (marks : List Suffix) (room : Nat) (rest : Text) :
    let whole := marks.foldl Suffix.apply (.const type)
    let list (isConst : Bool) : ParamList :=
      { params := [{ name := some name, type := whole, isConst, defaultValue := none }], isVariadic := false }
    let front := '(' :: (constInFront type marks name ++ ')' :: rest)
    let behind := '(' :: (constBehind type marks name ++ ')' :: rest)
    (paramList room front = .ok (list true) rest ∧ paramList room behind = .ok (list whole.isConst) rest ∨
      listDepth type ≥ room ∧ LacksLevel (paramList room) front ∧ LacksLevel (paramList room) behind) ∧
    (whole.isConst = true ↔ ∀ mark ∈ (marks.filter (· ≠ .volatile)).getLast?, mark = .const) := by
  have happly : Suffix.apply type .const = .const type := by rw [Suffix.apply, htype.isConst_eq, if_neg Bool.false_ne_true]
  refine ⟨?_, CType.isConst_foldl_apply rfl marks⟩
  rw [constInFront_eq, constBehind_eq]
  rcases htype.readsName_or_lacksName room with hread | hlacks
  · have hbehind := paramList_marked htype hname hread false (.const :: marks) rest
    rw [Param.marked, List.foldl_cons, withConst, if_neg Bool.false_ne_true, happly, Bool.false_or] at hbehind
    exact .inl ⟨paramList_marked htype hname hread true marks rest, hbehind⟩
  · exact .inr ⟨hlacks.le_listDepth htype, paramList_marked_lacksLevel htype hname hlacks true marks rest,
      paramList_marked_lacksLevel htype hname hlacks false (.const :: marks) rest⟩

/-- A member type of a generic one behind a pointer, with one `const` more than there has to be. -/
theorem paramList_const_member :
    let list : ParamList :=
      { params := [{ name := some ['a'], type := .const (.pointer (.const (.member
          (.generic (.path [['M']]) [.path [['K']]]) (.path [['I']])))), isConst := true, defaultValue := none }]
        isVariadic := false }
    paramList nestingLimit "(const M<K>::I const* const a)".toList = .ok list [] ∧
      paramList nestingLimit "(M<K>::I const const* const a)".toList = .ok list [] := by
  have hargs : ∀ arg ∈ [CType.path [['K']]], Argument arg := by
    intro arg harg
    obtain rfl := List.mem_singleton.1 harg
    exact .type (.named (.path (by decide)))
  have htype : Named (.member (.generic (.path [['M']]) [.path [['K']]]) (.path [['I']])) :=
    .member (by decide) hargs (.path (by decide))
  have hread := (paramList_const htype (show isDeclarable ['a'] = true by decide) [.const, .pointer, .const] nestingLimit []).1
  rcases hread with hread | ⟨hdepth, -⟩
  · exact hread
  · exact absurd hdepth (by decide)

/-- In front of a reference the two places of `const` are told apart by the flag. -/
theorem paramList_const_differs :
    let list (isConst : Bool) : ParamList :=
      { params := [{ name := some ['a'], type := .reference (.const (.path ["int".toList])), isConst, defaultValue := none }]
        isVariadic := false }
    paramList nestingLimit "(const int& a)".toList = .ok (list true) [] ∧
      paramList nestingLimit "(int const& a)".toList = .ok (list false) [] := by
  have htype : Named (.path ["int".toList]) := .path (by decide)
  have hread : ReadsName nestingLimit (.path ["int".toList]) := readsName_path (by decide) (by decide)
  have hname : isDeclarable ['a'] = true := by decide
  exact ⟨paramList_marked htype hname hread true [.reference] [], paramList_marked htype hname hread false [.const, .reference] []⟩

end HeaderOutline
