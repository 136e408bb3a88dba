import HeaderOutline.Proofs.Source.Depth
/-!
# Types that run out of levels

A type is read, or the levels run out in one of its argument lists. Which of the two it is depends on the type alone and
not on what stands behind it.
-/

namespace HeaderOutline

open HeaderOutline.Parser

variable {room : Nat} {input mid rest : Text}

/-! ### Lists -/

/-- If one of two properties holds of each item, then the first one holds of all, or there is a first item that has the
second one. -/
theorem items_cases {γ : Type} {P Q : γ → Prop} {items : List γ} (hitems : ∀ item ∈ items, P item ∨ Q item) :
    (∀ item ∈ items, P item) ∨ ∃ before first after, items = before ++ first :: after ∧ (∀ other ∈ before, P other) ∧ Q first := by
  induction items with
  | nil => exact .inl nofun
  | cons item items ih =>
    rcases hitems item List.mem_cons_self with hitem | hitem
    · rcases ih fun other hother => hitems other (List.mem_cons_of_mem item hother) with
        hall | ⟨before, first, after, rfl, hbefore, hfirst⟩
      · exact .inl (List.forall_mem_cons.2 ⟨hitem, hall⟩)
      · exact .inr ⟨item :: before, first, after, rfl, List.forall_mem_cons.2 ⟨hitem, hbefore⟩, hfirst⟩
    · exact .inr ⟨[], item, items, rfl, nofun, hitem⟩

namespace Parser.LacksLevel

variable {α β : Type} {p : Parser α} {separator : Parser β} {a : α} {b : β}

theorem outcome_map {outcome : Outcome α} (f : α → β)
    (hlacks : ∃ place, outcome = .failure [⟨place, .context "shallower nesting".toList⟩]) :
    ∃ place, outcome.map f = .failure [⟨place, .context "shallower nesting".toList⟩] := by
  obtain ⟨place, rfl⟩ := hlacks
  exact ⟨place, rfl⟩

theorem firstOf_of_mismatch {q : Parser α} {ps : List (Parser α)} (hp : Mismatches p input)
    (hps : LacksLevel (Parser.firstOf (q :: ps)) input) : LacksLevel (Parser.firstOf (p :: q :: ps)) input := by
  rwa [LacksLevel, Parser.firstOf_of_mismatch hp]

theorem sepTail (hseparator : separator input = .ok b mid) (hp : LacksLevel p mid) : LacksLevel (sepTail separator p) input := by
  obtain ⟨place, hp⟩ := hp
  refine ⟨place, ?_⟩
  rw [Parser.sepTail, hseparator]
  dsimp only
  rw [hp]

theorem sepTail_of_ok (hseparator : separator input = .ok b mid) (hp : p mid = .ok a rest) (hlt : rest.length < input.length)
    (htail : LacksLevel (Parser.sepTail separator p) rest) : LacksLevel (Parser.sepTail separator p) input := by
  rw [LacksLevel, Parser.sepTail_of_ok hseparator hp hlt]
  exact outcome_map _ htail

theorem sepBy_of_ok (hp : p input = .ok a mid) (htail : LacksLevel (Parser.sepTail separator p) mid) :
    LacksLevel (Parser.sepBy separator p) input := by
  rw [LacksLevel, Parser.sepBy_of_ok hp]
  exact outcome_map _ htail

end Parser.LacksLevel

namespace CType

variable {name type : CType} {names : List Text} {args types before after : List CType}

section List

variable {p : Parser CType} {closer : Char}

/-- The levels run out in the item. -/
def LacksItem (p : Parser CType) (closer : Char) (type : CType) : Prop :=
  ∀ tail, EndsItem closer tail → LacksLevel p (render type ++ tail)

theorem endsItem_flatMap (closer : Char) (types : List CType) (rest : Text) :
    EndsItem closer (types.flatMap (", ".toList ++ render ·) ++ closer :: rest) :=
  follows_flatMap render (fun tail => ⟨',', List.mem_cons_self, ' ' :: tail, rfl⟩)
    ⟨closer, List.mem_cons_of_mem _ List.mem_cons_self, rest, rfl⟩

variable (hcloser : closer ∈ ['>', ')']) (hbefore : ∀ other ∈ before, ReadsItem p closer other)
  (hlacks : LacksItem p closer type)
  (htokens : ∀ other ∈ before ++ type :: after, ∀ tail, EndsItem closer tail → StartsToken (render other ++ tail))

include hcloser hbefore hlacks htokens

theorem sepTail_lacksLevel (rest : Text) : LacksLevel (sepTail (spaced (char ',')) (spaced p))
    ((before ++ type :: after).flatMap (", ".toList ++ render ·) ++ closer :: rest) := by
  induction before with
  | nil =>
    have hends := endsItem_flatMap closer after rest
    have htoken := htokens type List.mem_cons_self _ hends
    rw [List.nil_append, List.flatMap_cons, List.append_assoc, List.append_assoc]
    refine .sepTail (spaced_comma htoken) (.spaced ?_)
    rw [gapEnd_of_startsToken htoken]
    exact hlacks _ hends
  | cons other before ih =>
    have hends := endsItem_flatMap closer (before ++ type :: after) rest
    have htoken := htokens other List.mem_cons_self _ hends
    have hread := hends.spaced hcloser htoken (hbefore other List.mem_cons_self _ hends)
    rw [List.cons_append, List.flatMap_cons, List.append_assoc, List.append_assoc]
    refine .sepTail_of_ok (spaced_comma htoken) hread ?_
      (ih (fun next hnext => hbefore next (List.mem_cons_of_mem other hnext))
        fun next hnext => htokens next (List.mem_cons_of_mem other hnext))
    have hcomma : ", ".toList.length = 2 := rfl
    simp only [List.length_append]
    omega

theorem list_lacksLevel (rest : Text) : LacksLevel (sepBy (spaced (char ',')) (spaced p))
    (renderList (before ++ type :: after) ++ closer :: rest) := by
  cases before with
  | nil =>
    have hends := endsItem_flatMap closer after rest
    rw [List.nil_append, renderList_cons, List.append_assoc]
    refine .sepBy (.spaced ?_)
    rw [gapEnd_of_startsToken (htokens type List.mem_cons_self _ hends)]
    exact hlacks _ hends
  | cons other before =>
    have hends := endsItem_flatMap closer (before ++ type :: after) rest
    have htoken := htokens other List.mem_cons_self _ hends
    have hread := hends.spaced hcloser htoken (hbefore other List.mem_cons_self _ hends)
    rw [List.cons_append, renderList_cons, List.append_assoc]
    exact .sepBy_of_ok hread (sepTail_lacksLevel hcloser (fun next hnext => hbefore next (List.mem_cons_of_mem other hnext))
      hlacks (fun next hnext => htokens next (List.mem_cons_of_mem other hnext)) rest)

end List

/-! ### Names and types -/

/-- The levels run out in the name, the type or the list. -/
def LacksName (room : Nat) (name : CType) : Prop :=
  ∀ rest, EndsNamed rest → LacksLevel (named (templateArgs room)) (render name ++ rest)

def LacksType (room : Nat) (type : CType) : Prop :=
  ∀ rest, EndsType rest → LacksLevel (qualified (templateArgs room)) (render type ++ rest)

def LacksList (room : Nat) (types : List CType) : Prop :=
  ∀ rest, LacksLevel (templateArgs room) ('<' :: renderList types ++ '>' :: rest)

theorem lacksName_generic (hnames : isPath names = true) (hargs : LacksList room args) :
    LacksName room (.generic (.path names) args) := by
  intro rest _
  rw [render_generic_append]
  refine named_lacksLevel (baseName_append hnames (endsName_list _)) ?_
  rw [gapEnd_list]
  exact hargs rest

theorem lacksName_member {inner : CType} (hnames : isPath names = true)
    (hargs : ReadsList room args ∧ LacksName room inner ∨ LacksList room args) :
    LacksName room (.member (.generic (.path names) args) inner) := by
  intro rest hrest
  rw [render_member_append, render_generic_append]
  have hbase := baseName_append hnames (endsName_list (renderList args ++ '>' :: ("::".toList ++ (render inner ++ rest))))
  rcases hargs with ⟨hargs, hinner⟩ | hargs
  · have hlist : opt (afterGap (templateArgs room)) ('<' :: renderList args ++ '>' :: ("::".toList ++ (render inner ++ rest))) =
        .ok (some args) ("::".toList ++ (render inner ++ rest)) := by
      refine opt_of_ok ?_
      rw [afterGap_apply, gapEnd_list]
      exact hargs _
    obtain ⟨place, hinner⟩ := hinner rest hrest
    rw [LacksLevel, named, recurse_apply]
    refine LacksLevel.bind_of_ok hbase (.bind_of_ok hlist (.bind (.opt (.bind_of_ok (literal_append "::" _) ⟨place, ?_⟩))))
    refine (if_pos ?_).trans hinner
    simp only [List.length_append, List.length_cons]
    omega
  · refine named_lacksLevel hbase ?_
    exact (gapEnd_list args _).symm ▸ hargs _

/-- A name is read if its lists are, and if there is a level for the list that it might have. -/
theorem readsName_or_lacksName
    (hlists : ∀ types, (∀ type ∈ types, Argument type) → ReadsList room types ∨ LacksList room types) {name : CType}
    (hname : Named name) : ReadsName room name ∨ LacksName room name := by
  cases hname with
  | path hnames =>
    cases room with
    | zero =>
      refine .inr fun rest hrest => ?_
      rw [render]
      exact named_lacksLevel (baseName_append hnames hrest.toEndsName) (lacksLevel_tooDeep _)
    | succ room => exact .inl (readsName_path hnames (Nat.succ_pos room))
  | generic hnames hargs => exact (hlists _ hargs).imp (readsName_generic hnames) (lacksName_generic hnames)
  | member hnames hargs hinner =>
    rcases hlists _ hargs with hlist | hlist
    · rcases readsName_or_lacksName hlists hinner with hread | hlacks
      · exact .inl (readsName_member hnames hlist hread)
      · exact .inr (lacksName_member hnames (.inl ⟨hlist, hlacks⟩))
    · exact .inr (lacksName_member hnames (.inr hlist))

theorem unqualified_lacksLevel (hname : Named name) (hlacks : LacksName room name) (isConst : Bool) (marks : List Suffix)
    (hrest : EndsType rest) :
    LacksLevel (unqualified (templateArgs room) isConst) (render name ++ (marks.flatMap Suffix.text ++ rest)) := by
  have hends : EndsNamed (marks.flatMap Suffix.text ++ rest) := endsNamed_marks hrest
  exact .bind_of_ok (opt_kind_of_startsName (hname.startsName hends.word)) (.bind (hlacks _ hends))

theorem IsMarked.lacksType {isConst : Bool} {marks : List Suffix} (htype : IsMarked type isConst name marks)
    (hlacks : LacksName room name) : LacksType room type := by
  intro rest hrest
  have hstarts : StartsName (render name ++ (marks.flatMap Suffix.text ++ rest)) :=
    htype.named.startsName (endsWord_marks hrest.word)
  rw [htype.render_eq, List.append_assoc, List.append_assoc]
  exact .bind_of_ok (leadingQualifiers_append isConst hstarts) (unqualified_lacksLevel htype.named hlacks isConst marks hrest)

section Arguments

variable (hnames : ∀ {name}, Named name → ReadsName room name ∨ LacksName room name)

include hnames

theorem readsType_or_lacksType (htype : Written type) : ReadsType room type ∨ LacksType room type := by
  obtain ⟨isConst, name, marks, hmarked⟩ := htype.marked
  exact (hnames hmarked.named).imp hmarked.readsType hmarked.lacksType

theorem readsItem_or_lacksItem (htype : Argument type) :
    ReadsItem (argument (templateArgs room)) '>' type ∨ LacksItem (argument (templateArgs room)) '>' type := by
  cases htype with
  | type htype =>
    rcases readsType_or_lacksType hnames htype with hread | hlacks
    · exact .inl fun tail htail => firstOf_of_ok (typeArgument_append hread htail)
    · exact .inr fun tail htail => .firstOf (.bind (hlacks tail (htail.endsType (by decide))))
  | @function result params hresult hparams =>
    have htext (tail : Text) : render (.function result params) ++ tail = render result ++ '(' :: (renderList params ++ ')' :: tail) := by
      rw [render]
      simp only [List.append_assoc, List.cons_append, List.nil_append]
    have hends (tail : Text) : EndsType ('(' :: (renderList params ++ ')' :: tail)) := endsType_cons (by decide) _
    rcases readsType_or_lacksType hnames hresult with hread | hlacks
    · have hcases : ∀ param ∈ params, ReadsItem (qualified (templateArgs room)) ')' param ∨
          LacksItem (qualified (templateArgs room)) ')' param := fun param hparam =>
        (readsType_or_lacksType hnames (hparams param hparam)).imp (·.readsItem (by decide))
          fun hlacks tail htail => hlacks tail (htail.endsType (by decide))
      rcases items_cases hcases with hall | ⟨before, first, after, rfl, hbefore, hfirst⟩
      · exact .inl fun tail htail => firstOf_of_ok (typeArgument_append_function hread
          (fun param hparam => ⟨hparams param hparam, hall param hparam⟩) htail)
      · refine .inr fun tail _ => .firstOf ?_
        have hopen : afterGap (char '(') ('(' :: (renderList (before ++ first :: after) ++ ')' :: tail)) =
            .ok '(' (renderList (before ++ first :: after) ++ ')' :: tail) :=
          afterGap_char (gapEnd_cons (by decide) (by decide) _)
        have hlist := list_lacksLevel (show ')' ∈ ['>', ')'] by decide) hbefore hfirst
          (fun other hother tail htail => (hparams other hother).startsToken (htail.endsType (by decide)).word) tail
        rw [htext]
        exact .bind_of_ok (hread _ (hends tail)) (.bind (.opt (.bind_of_ok hopen (.bind hlist))))
    · refine .inr fun tail _ => .firstOf ?_
      rw [htext]
      exact .bind (hlacks _ (hends tail))
  | value hdigits hdigits_ne => exact .inl fun tail htail => argument_append_value hdigits hdigits_ne htail

end Arguments

/-- Each list takes one from the levels that are left. -/
theorem readsList_or_lacksList (room : Nat) (types : List CType) (htypes : ∀ type ∈ types, Argument type) :
    ReadsList room types ∨ LacksList room types := by
  induction room generalizing types with
  | zero => exact .inr fun rest => lacksLevel_tooDeep _
  | succ room ih =>
    have hcases := fun type htype => readsItem_or_lacksItem (fun hname => readsName_or_lacksName ih hname) (htypes type htype)
    rcases items_cases hcases with hall | ⟨before, first, after, rfl, hbefore, hfirst⟩
    · exact .inl (readsList_of_readsItem fun type htype => ⟨htypes type htype, hall type htype⟩)
    · refine .inr fun rest => ?_
      have hlist := list_lacksLevel (show '>' ∈ ['>', ')'] by decide) hbefore hfirst
        (fun other hother tail htail => (htypes other hother).startsToken (htail.endsType (by decide)).word) rest
      rw [List.cons_append]
      exact .bind_of_ok (char_cons '<' _) (.bind hlist)

/-- Whether the levels suffice for a name depends on the name alone. -/
theorem Named.readsName_or_lacksName (room : Nat) (hname : Named name) : ReadsName room name ∨ LacksName room name :=
  CType.readsName_or_lacksName (readsList_or_lacksList room) hname

theorem Written.readsType_or_lacksType (room : Nat) (htype : Written type) : ReadsType room type ∨ LacksType room type :=
  CType.readsType_or_lacksType (Named.readsName_or_lacksName room) htype

/-- The levels run out only where lists are nested too deep. -/
theorem LacksName.le_listDepth (hlacks : LacksName room name) (hname : Named name) : room ≤ listDepth name := by
  refine Nat.le_of_not_lt fun hdepth => ?_
  obtain ⟨place, hfailure⟩ := hlacks [] endsType_nil.toEndsNamed
  rw [readsName_of_listDepth (templateArgs_append room) hname hdepth [] endsType_nil.toEndsNamed] at hfailure
  cases hfailure

theorem LacksType.le_listDepth (hlacks : LacksType room type) (htype : Written type) : room ≤ listDepth type := by
  refine Nat.le_of_not_lt fun hdepth => ?_
  obtain ⟨place, hfailure⟩ := hlacks [] endsType_nil
  rw [readsType_of_listDepth (templateArgs_append room) htype hdepth [] endsType_nil] at hfailure
  cases hfailure

end CType

end HeaderOutline
