import HeaderOutline.CType.Parser
import HeaderOutline.CType.Render
import HeaderOutline.Proofs.Lexeme
/-!
# Types as they are written

The types that have a text of their own, which reads as the same type again. A type is written as a name,
possibly with `const` in front, and marks behind it; what stands in a template argument list may also be the
type of a function, or a number.
-/

namespace HeaderOutline.CType

open HeaderOutline.Parser

variable {name type : CType} {names : List Text} {args : List CType} {rest : Text}

/-! ### The types -/

def isArithmeticWord (word : Text) : Bool := arithmeticWords.any fun arithmetic => arithmetic.toList == word

/-- Plain names, possibly behind a leading `::`. Arithmetic words stand alone, since several of them are one name. -/
def isPath : List Text → Bool
  | [] => false
  | [name] => isPlainName name
  | first :: names => (first.isEmpty || (isPlainName first && !isArithmeticWord first)) && names.all isPlainName

theorem isPath_cases {names : List Text} (hnames : isPath names = true) :
    (∃ name, names = [name] ∧ isPlainName name = true) ∨
      (∃ next others, names = [] :: next :: others ∧ (next :: others).all isPlainName = true) ∨
      ∃ first next others, names = first :: next :: others ∧ isPlainName first = true ∧
        isArithmeticWord first = false ∧ (next :: others).all isPlainName = true := by
  cases names with
  | nil => cases hnames
  | cons first names =>
    cases names with
    | nil => exact .inl ⟨first, rfl, hnames⟩
    | cons next others =>
      obtain ⟨hfirst, hothers⟩ := Bool.and_eq_true_iff.1 hnames
      rcases (Bool.or_eq_true _ _).mp hfirst with hempty | hplain
      · exact .inr (.inl ⟨next, others, by rw [List.isEmpty_iff.1 hempty], hothers⟩)
      · obtain ⟨hplain, harithmetic⟩ := Bool.and_eq_true_iff.1 hplain
        exact .inr (.inr ⟨first, next, others, rfl, hplain, (Bool.not_eq_true' _).mp harithmetic, hothers⟩)

mutual

/-- A path, with template arguments, and with the members of the generic type that they make. -/
inductive Named : CType → Prop
  | path {names : List Text} (hnames : isPath names = true) : Named (.path names)
  | generic {names : List Text} {args : List CType} (hnames : isPath names = true)
      (hargs : ∀ arg ∈ args, Argument arg) : Named (.generic (.path names) args)
  | member {names : List Text} {args : List CType} {inner : CType} (hnames : isPath names = true)
      (hargs : ∀ arg ∈ args, Argument arg) (hinner : Named inner) : Named (.member (.generic (.path names) args) inner)

/-- A name that may be `const`, behind any sequence of marks. A `const` among them follows a pointer or reference. -/
inductive Written : CType → Prop
  | named {name : CType} (hname : Named name) : Written name
  | const {name : CType} (hname : Named name) : Written (.const name)
  | pointer {type : CType} (htype : Written type) : Written (.pointer type)
  | reference {type : CType} (htype : Written type) : Written (.reference type)
  | pack {type : CType} (htype : Written type) : Written (.pack type)
  | constIndirect {type : CType} (htype : Written type) (hindirect : type.isIndirect = true) : Written (.const type)

/-- A template argument. -/
inductive Argument : CType → Prop
  | type {type : CType} (htype : Written type) : Argument type
  | function {result : CType} {params : List CType} (hresult : Written result)
      (hparams : ∀ param ∈ params, Written param) : Argument (.function result params)
  | value {digits : Text} (hdigits : ∀ c ∈ digits, c.isDigit = true) (hdigits_ne : digits ≠ []) :
      Argument (.value digits)

end

mutual

/-- How deep template argument lists are nested. -/
def listDepth : CType → Nat
  | .path _ => 0
  | .generic base args => max (listDepth base) (deepest args + 1)
  | .member outer inner => max (listDepth outer) (listDepth inner)
  | .pointer type => listDepth type
  | .reference type => listDepth type
  | .const type => listDepth type
  | .function result params => max (listDepth result) (deepest params)
  | .array element _ => listDepth element
  | .pack pattern => listDepth pattern
  | .value _ => 0

def deepest : List CType → Nat
  | [] => 0
  | type :: types => max (listDepth type) (deepest types)

end

theorem listDepth_le_deepest {types : List CType} (htype : type ∈ types) : listDepth type ≤ deepest types := by
  induction types with
  | nil => cases htype
  | cons first types ih =>
    rw [deepest]
    cases htype with
    | head => exact Nat.le_max_left _ _
    | tail _ htype => exact Nat.le_trans (ih htype) (Nat.le_max_right _ _)

/-! ### Marks -/

/-- A mark as it is rendered, a word behind a space. -/
def Suffix.text : Suffix → Text
  | .pointer => ['*']
  | .reference => ['&']
  | .pack => ['.', '.', '.']
  | .const => ' ' :: "const".toList
  | .volatile => ' ' :: "volatile".toList

/-- The text of a leading `const`. -/
def constText (isConst : Bool) : Text := if isConst then "const".toList ++ [' '] else []

/-- The name as it stands in front of the marks. -/
def withConst (isConst : Bool) (name : CType) : CType := if isConst then .const name else name

/-- The text of the type begins with `const`. -/
def beginsConst : CType → Bool
  | .pointer target => beginsConst target
  | .reference target => beginsConst target
  | .pack pattern => beginsConst pattern
  | .const type => if type.isIndirect then beginsConst type else true
  | _ => false

theorem Written.ne_function (htype : Written type) (result : CType) (params : List CType) :
    type ≠ .function result params := by
  rintro rfl
  cases htype with
  | named hname => cases hname

theorem Named.isIndirect_eq (hname : Named name) : name.isIndirect = false := by
  cases hname with
  | path _ => rfl
  | generic _ _ => rfl
  | member _ _ _ => rfl

theorem Named.beginsConst_eq (hname : Named name) : beginsConst name = false := by
  cases hname with
  | path _ => rfl
  | generic _ _ => rfl
  | member _ _ _ => rfl

theorem render_pointer (htype : Written type) : render (.pointer type) = render type ++ ['*'] := by
  rw [render]
  exact htype.ne_function

theorem render_reference (htype : Written type) : render (.reference type) = render type ++ ['&'] := by
  rw [render]
  exact htype.ne_function

theorem render_const_named (hname : Named name) : render (.const name) = "const ".toList ++ render name := by
  rw [render]
  · rintro target rfl
    cases hname
  · rintro target rfl
    cases hname

theorem render_const_indirect (hindirect : type.isIndirect = true) :
    render (.const type) = render type ++ " const".toList := by
  cases type with
  | pointer target => rfl
  | reference target => rfl
  | _ => cases hindirect

theorem isConst_of_isIndirect (hindirect : type.isIndirect = true) : type.isConst = false := by
  cases type with
  | pointer target => rfl
  | reference target => rfl
  | _ => cases hindirect

/-- A type taken apart into its name and its marks. -/
structure IsMarked (type : CType) (isConst : Bool) (name : CType) (marks : List Suffix) : Prop where
  named : Named name
  type_eq : marks.foldl Suffix.apply (withConst isConst name) = type
  render_eq : render type = constText isConst ++ render name ++ marks.flatMap Suffix.text
  listDepth_eq : listDepth type = listDepth name
  beginsConst_eq : beginsConst type = isConst

theorem IsMarked.snoc {isConst : Bool} {marks : List Suffix} {marked : CType}
    (htype : IsMarked type isConst name marks) (mark : Suffix) (happly : Suffix.apply type mark = marked)
    (hrender : render marked = render type ++ mark.text) (hdepth : listDepth marked = listDepth type)
    (hconst : beginsConst marked = beginsConst type) :
    IsMarked marked isConst name (marks ++ [mark]) where
  named := htype.named
  type_eq := by rw [List.foldl_append, htype.type_eq, List.foldl_cons, List.foldl_nil, happly]
  render_eq := by
    rw [hrender, htype.render_eq, List.flatMap_append, List.flatMap_singleton, List.append_assoc]
  listDepth_eq := hdepth.trans htype.listDepth_eq
  beginsConst_eq := hconst.trans htype.beginsConst_eq

theorem Written.marked {type : CType} (htype : Written type) : ∃ isConst name marks, IsMarked type isConst name marks := by
  cases htype with
  | named hname => exact ⟨false, type, [], hname, rfl, (List.append_nil _).symm, rfl, hname.beginsConst_eq⟩
  | const hname =>
    refine ⟨true, _, [], hname, rfl, ?_, by rw [listDepth], ?_⟩
    · rw [render_const_named hname, List.flatMap_nil, List.append_nil]
      rfl
    · rw [beginsConst, hname.isIndirect_eq, if_neg Bool.false_ne_true]
  | pointer htarget =>
    obtain ⟨isConst, name, marks, hmarked⟩ := htarget.marked
    exact ⟨isConst, name, _, hmarked.snoc .pointer rfl (render_pointer htarget) (by rw [listDepth]) rfl⟩
  | reference htarget =>
    obtain ⟨isConst, name, marks, hmarked⟩ := htarget.marked
    exact ⟨isConst, name, _, hmarked.snoc .reference rfl (render_reference htarget) (by rw [listDepth]) rfl⟩
  | pack hpattern =>
    obtain ⟨isConst, name, marks, hmarked⟩ := hpattern.marked
    exact ⟨isConst, name, _, hmarked.snoc .pack rfl (by rw [render]; rfl) (by rw [listDepth]) rfl⟩
  | constIndirect htarget hindirect =>
    obtain ⟨isConst, name, marks, hmarked⟩ := htarget.marked
    refine ⟨isConst, name, _, hmarked.snoc .const ?_ (render_const_indirect hindirect) (by rw [listDepth]) ?_⟩
    · rw [Suffix.apply, isConst_of_isIndirect hindirect, if_neg Bool.false_ne_true]
    · rw [beginsConst, if_pos hindirect]

/-! ### The front of a name -/

/-- A token comes next that is no reserved word. -/
structure StartsName (input : Text) : Prop where
  token : StartsToken input
  word : isReserved (headWord input) = false

theorem StartsName.ne {input : Text} (hinput : StartsName input) {word : String} (hword : word ∈ reservedWords) :
    headWord input ≠ word.toList := fun heq =>
  Bool.eq_false_iff.1 hinput.word (List.any_eq_true.2 ⟨word, hword, beq_iff_eq.2 heq.symm⟩)

theorem StartsName.anyKeyword {input : Text} (hinput : StartsName input) {words : List String}
    (hwords : ∀ word ∈ words, IsWord word ∧ word ∈ reservedWords) : Mismatches (anyKeyword words) input :=
  anyKeyword_of_ne (fun word hword => (hwords word hword).1) fun word hword => hinput.ne (hwords word hword).2

theorem startsToken_of_isWordStart {c : Char} (hc : isWordStart c = true) (rest : Text) : StartsToken (c :: rest) := by
  refine startsToken_cons (Bool.eq_false_iff.2 fun hspace => ?_) (fun hslash => ?_) rest
  · have hword := isWordChar_of_isWordStart hc
    rw [isWordChar_of_isSpace hspace] at hword
    cases hword
  · rw [hslash] at hc
    exact absurd hc (by decide)

theorem startsName_append {word : Text} (hword : isPlainName word = true) (hrest : EndsWord rest) :
    StartsName (word ++ rest) where
  token := by
    cases word with
    | nil => cases hword
    | cons c tail =>
      have hidentifier := isIdentifier_of_isPlainName hword
      exact startsToken_of_isWordStart (Bool.and_eq_true_iff.1 hidentifier).1 _
  word := by
    rw [headWord_append (isWordChar_of_isIdentifier (isIdentifier_of_isPlainName hword)) hrest]
    exact (Bool.not_eq_true' _).mp (Bool.and_eq_true_iff.1 hword).2

theorem startsName_colon (rest : Text) : StartsName (':' :: rest) where
  token := startsToken_cons (by decide) (by decide) rest
  word := by rfl

theorem endsWord_cons {c : Char} (hc : isWordChar c = false) (rest : Text) : EndsWord (c :: rest) := by
  rintro d ⟨⟩
  exact hc

theorem join_cons (separator part : Text) (parts : List Text) :
    Text.join separator (part :: parts) = part ++ parts.flatMap (separator ++ ·) := by
  induction parts generalizing part with
  | nil => exact (List.append_nil part).symm
  | cons next parts ih => rw [Text.join, ih, List.flatMap_cons, List.append_assoc, List.append_assoc]

theorem renderList_cons (type : CType) (types : List CType) :
    renderList (type :: types) = render type ++ types.flatMap (", ".toList ++ render ·) := by
  induction types generalizing type with
  | nil => exact (List.append_nil (render type)).symm
  | cons next types ih => rw [renderList, ih, List.flatMap_cons, List.append_assoc, List.append_assoc]

theorem startsName_path (hnames : isPath names = true) (hrest : EndsWord rest) :
    StartsName (Text.join "::".toList names ++ rest) := by
  rcases isPath_cases hnames with ⟨name, rfl, hname⟩ | ⟨next, others, rfl, -⟩ | ⟨first, next, others, rfl, hfirst, -, -⟩
  · exact startsName_append hname hrest
  · rw [join_cons, List.append_assoc, List.flatMap_cons]
    exact startsName_colon _
  · rw [join_cons, List.append_assoc, List.flatMap_cons]
    exact startsName_append hfirst (endsWord_cons (by decide) _)

theorem Named.startsName (hname : Named name) (hrest : EndsWord rest) : StartsName (render name ++ rest) := by
  cases hname with
  | path hnames =>
    rw [render]
    exact startsName_path hnames hrest
  | generic hnames hargs =>
    rw [render, render, List.append_assoc, List.append_assoc]
    exact startsName_path hnames (endsWord_cons (by decide) _)
  | member hnames hargs hinner =>
    rw [render, render, render, List.append_assoc, List.append_assoc, List.append_assoc, List.append_assoc]
    exact startsName_path hnames (endsWord_cons (by decide) _)

/-! ### The texts of types -/

/-- A character that stands in the text of a type outside of its lists. -/
def IsTypeChar (c : Char) : Prop := isWordChar c = true ∨ c.isDigit = true ∨ c ∈ [':', ' ', '*', '&', '.']

instance (c : Char) : Decidable (IsTypeChar c) := inferInstanceAs (Decidable (_ ∨ _ ∨ _))

/-- The text of a path holds nothing but words and `::`. -/
theorem isTypeChar_path {names : List Text} (hnames : isPath names = true) :
    ∀ c ∈ Text.join "::".toList names, IsTypeChar c := by
  have hname {name : Text} (hname : isPlainName name = true) : ∀ c ∈ name, IsTypeChar c := fun c hc =>
    .inl (isWordChar_of_isIdentifier (isIdentifier_of_isPlainName hname) c hc)
  have htail {names : List Text} (hnames : names.all isPlainName = true) : ∀ c ∈ names.flatMap ("::".toList ++ ·), IsTypeChar c := by
    have hcolons : ∀ c ∈ "::".toList, IsTypeChar c := by decide
    rw [List.forall_mem_flatMap]
    exact fun name hmem => List.forall_mem_append.2 ⟨hcolons, hname (List.all_eq_true.1 hnames name hmem)⟩
  rcases isPath_cases hnames with
    ⟨name, rfl, hplain⟩ | ⟨next, others, rfl, hothers⟩ | ⟨first, next, others, rfl, hfirst, -, hothers⟩
  · exact hname hplain
  · rw [join_cons]
    exact htail hothers
  · rw [join_cons]
    exact List.forall_mem_append.2 ⟨hname hfirst, htail hothers⟩

theorem Suffix.isTypeChar (mark : Suffix) : ∀ c ∈ mark.text, IsTypeChar c := by cases mark <;> decide

mutual

/-- A comma stands in the text of the type outside of parentheses: it has a list of several template arguments. -/
def hasBareComma : CType → Bool
  | .generic base args => hasBareComma base || listsBareComma args
  | .member outer inner => hasBareComma outer || hasBareComma inner
  | .pointer target => hasBareComma target
  | .reference target => hasBareComma target
  | .const type => hasBareComma type
  | .pack pattern => hasBareComma pattern
  | .function result _ => hasBareComma result
  | .array element _ => hasBareComma element
  | .path _ | .value _ => false

def listsBareComma : List CType → Bool
  | [] => false
  | [type] => hasBareComma type
  | _ :: _ :: _ => true

end

section Induction

/-- What lists in brackets have from their items, every type has. The property may depend on whether a comma stands outside of
parentheses. -/
theorem Argument.comma_induction {motive : Bool → Text → Prop} (hnil : motive false [])
    (happend : ∀ {inFront behind front back}, motive inFront front → motive behind back →
      motive (inFront || behind) (front ++ back))
    (hchar : ∀ c, IsTypeChar c → motive false [c])
    (hangles : ∀ args, (∀ arg ∈ args, motive (hasBareComma arg) (render arg)) →
      motive (listsBareComma args) ('<' :: renderList args ++ ['>']))
    (hparams : ∀ params, (∀ param ∈ params, Written param) → (∀ param ∈ params, motive (hasBareComma param) (render param)) →
      motive false ('(' :: renderList params ++ [')'])) {arg : CType} (harg : Argument arg) :
    motive (hasBareComma arg) (render arg) := by
  have htext {text : Text} (hchars : ∀ c ∈ text, IsTypeChar c) : motive false text := by
    induction text with
    | nil => exact hnil
    | cons c text ih =>
      exact happend (hchar c (hchars c List.mem_cons_self)) (ih fun d hd => hchars d (List.mem_cons_of_mem c hd))
  have hbehind {comma : Bool} {front back : Text} (hfront : motive comma front) (hback : ∀ c ∈ back, IsTypeChar c) :
      motive comma (front ++ back) := by
    have hall := happend hfront (htext hback)
    rwa [Bool.or_false] at hall
  have hgeneric {names : List Text} {args : List CType} (hnames : isPath names = true)
      (hargs : ∀ arg ∈ args, motive (hasBareComma arg) (render arg)) :
      motive (hasBareComma (.generic (.path names) args)) (render (.generic (.path names) args)) := by
    rw [hasBareComma, hasBareComma, render, render, List.append_assoc]
    exact happend (htext (isTypeChar_path hnames)) (hangles args hargs)
  refine @Argument.rec (fun name _ => motive (hasBareComma name) (render name))
    (fun type _ => motive (hasBareComma type) (render type)) (fun arg _ => motive (hasBareComma arg) (render arg))
    ?path ?generic ?member ?named ?const ?pointer ?reference ?pack ?constIndirect ?type ?function ?value arg harg
  case path =>
    intro names hnames
    rw [hasBareComma, render]
    exact htext (isTypeChar_path hnames)
  case generic => exact fun hnames _ ih => hgeneric hnames ih
  case member =>
    intro names args inner hnames _ _ ih ihinner
    have hcolons : ∀ c ∈ "::".toList, IsTypeChar c := by decide
    rw [hasBareComma, render]
    exact happend (hbehind (hgeneric hnames ih) hcolons) ihinner
  case named => exact fun _ ih => ih
  case const =>
    intro name hname ih
    have hconst : ∀ c ∈ "const ".toList, IsTypeChar c := by decide
    rw [hasBareComma, render_const_named hname]
    exact happend (htext hconst) ih
  case pointer =>
    intro type htype ih
    rw [hasBareComma, render_pointer htype]
    exact hbehind ih (Suffix.isTypeChar .pointer)
  case reference =>
    intro type htype ih
    rw [hasBareComma, render_reference htype]
    exact hbehind ih (Suffix.isTypeChar .reference)
  case pack =>
    intro type htype ih
    rw [hasBareComma, render]
    exact hbehind ih (Suffix.isTypeChar .pack)
  case constIndirect =>
    intro type htype hindirect ih
    rw [hasBareComma, render_const_indirect hindirect]
    exact hbehind ih (Suffix.isTypeChar .const)
  case type => exact fun _ ih => ih
  case function =>
    intro result params _ hwritten ihresult ih
    have hall := happend ihresult (hparams params hwritten ih)
    rw [Bool.or_false] at hall
    rwa [hasBareComma, render, List.append_assoc]
  case value =>
    intro digits hdigits _
    rw [hasBareComma, render]
    exact htext fun c hc => .inr (.inl (hdigits c hc))

variable {motive : Text → Prop} (hnil : motive []) (happend : ∀ {front back}, motive front → motive back → motive (front ++ back))

include hnil happend

/-- What holds of the items of a list and of a comma holds of the list. -/
theorem renderList_induction (hcomma : motive ", ".toList) {types : List CType}
    (htypes : ∀ type ∈ types, motive (render type)) : motive (renderList types) := by
  induction types with
  | nil => exact hnil
  | cons first types ih =>
    have hfirst := htypes first List.mem_cons_self
    cases types with
    | nil => exact hfirst
    | cons next types => exact happend (happend hfirst hcomma) (ih fun type htype => htypes type (List.mem_cons_of_mem first htype))

/-- The property need not depend on the commas. -/
theorem Argument.render_induction (hchar : ∀ c, IsTypeChar c → motive [c])
    (hangles : ∀ args, (∀ arg ∈ args, motive (render arg)) → motive ('<' :: renderList args ++ ['>']))
    (hparams : ∀ params, (∀ param ∈ params, Written param) → (∀ param ∈ params, motive (render param)) →
      motive ('(' :: renderList params ++ [')'])) {arg : CType} (harg : Argument arg) : motive (render arg) :=
  Argument.comma_induction (motive := fun _ => motive) hnil happend hchar hangles hparams harg

end Induction

end HeaderOutline.CType
