import Mathlib
import HeaderOutline.Proofs.Declarator.HeadFork
/-!
# Statements with several declarators

Each declarator of a list says what it says alone behind the same head, as long as the text of it is closed: where
brackets do not match, a declarator may be read past the comma behind it.
-/

namespace HeaderOutline

open HeaderOutline.Parser

variable {room : Nat} {input mid rest : Text}

namespace Variable

/-! ### Lists of declarators -/

/-- What stands behind a declarator of a list: the others, each behind a comma, and the semicolon. -/
def listEnd : List Text → Text
  | [] => [';']
  | text :: texts => ',' :: ' ' :: (text ++ listEnd texts)

/-- The text is read as a whole and as the same value, whichever of the two texts follows. -/
def ReadsAlike {α : Type} (p : Parser α) (text behind behind' : Text) : Prop :=
  ∃ a, p (text ++ behind) = .ok a behind ∧ p (text ++ behind') = .ok a behind'

/-- Each declarator of the list is read up to the comma behind it just as it is read up to a semicolon. -/
def ReadInPlace (room : Nat) (base : CType) : List Text → Prop
  | text :: next :: texts =>
    ReadsAlike (beforeGap (firstDeclarator room base)) (' ' :: text) [';'] (listEnd (next :: texts)) ∧
      ReadInPlace room base (next :: texts)
  | _ => True

theorem ReadInPlace.tail {base : CType} {text : Text} : ∀ {texts : List Text},
    ReadInPlace room base (text :: texts) → ReadInPlace room base texts
  | [], _ => trivial
  | _ :: _, hplace => hplace.2

/-- Behind `front` the text declares one variable, as a statement of its own whose head ends where `front` ends. -/
structure DeclaresAlone (room : Nat) (isTrailing : Bool) (front : Text) (head : Head) (text : Text) (declared : Variable) :
    Prop where
  head : Head.parser room isTrailing (front ++ ' ' :: (text ++ [';'])) = .ok head (' ' :: (text ++ [';']))
  statement : variableStatement room (front ++ ' ' :: (text ++ [';'])) = .ok [declared] []

section List

variable {isTrailing : Bool} {front text : Text} {head : Head} {texts : List Text} {declared : Variable} {vars : List Variable}

theorem DeclaresAlone.firstDeclarator_ok (halone : DeclaresAlone room isTrailing front head text declared) :
    ∃ type first, beforeGap (firstDeclarator room head.base) (' ' :: (text ++ [';'])) = .ok (type, first) [';'] ∧
      ofDeclarator head.modifiers head.comment first = declared := by
  have hstatement := halone.statement
  rw [(Head.of_ok halone.head).2] at hstatement
  obtain ⟨⟨type, first⟩, mid, hfirst, hothers⟩ := bind_eq_ok.1 hstatement
  obtain ⟨others, behind, hmany, hsemicolon⟩ := bind_eq_ok.1 hothers
  obtain ⟨_, rest, hchar, hvars⟩ := bind_eq_ok.1 hsemicolon
  cases others with
  | cons => cases hvars
  | nil =>
    cases hvars
    have hmid : behind = mid := many_eq_nil hmany
    obtain ⟨-, hgap⟩ := char_eq_ok.1 (afterGap_apply (char ';') behind ▸ hchar)
    refine ⟨type, first, ?_, rfl⟩
    rw [beforeGap_of_ok hfirst, ← hmid, hgap]

theorem DeclaresAlone.firstDeclarator_listEnd (halone : DeclaresAlone room isTrailing front head text declared)
    (hplace : ReadInPlace room head.base (text :: texts)) : ∃ type first,
      beforeGap (firstDeclarator room head.base) (' ' :: (text ++ [';'])) = .ok (type, first) [';'] ∧
      beforeGap (firstDeclarator room head.base) (' ' :: (text ++ listEnd texts)) = .ok (type, first) (listEnd texts) ∧
      ofDeclarator head.modifiers head.comment first = declared := by
  obtain ⟨type, first, hfirst, hdeclared⟩ := halone.firstDeclarator_ok
  refine ⟨type, first, hfirst, ?_, hdeclared⟩
  cases texts with
  | nil => exact hfirst
  | cons next texts =>
    obtain ⟨⟨found, hread, hread'⟩, -⟩ := hplace
    obtain rfl : found = (type, first) := (Outcome.ok.inj (hread.symm.trans hfirst)).1
    exact hread'

/-- The declarators behind the first comma. -/
theorem many_furtherDeclarator (halone : List.Forall₂ (DeclaresAlone room isTrailing front head) texts vars)
    (hplace : ReadInPlace room head.base texts) (hinput : gapEnd input = listEnd texts) :
    ∃ others rest, many (furtherDeclarator room head.base) input = .ok others rest ∧ gapEnd rest = [';'] ∧
      others.map (ofDeclarator head.modifiers head.comment) = vars := by
  induction halone generalizing input with
  | nil =>
    refine ⟨[], input, many_of_mismatch (.bind (.spaced (char_of_ne ?_))), hinput, rfl⟩
    rw [hinput]
    exact head?_cons_ne (by decide) _
  | @cons text declared texts vars htext _ ih =>
    obtain ⟨type, first, -, hread, rfl⟩ := htext.firstDeclarator_listEnd hplace
    obtain ⟨mid, hdeclarator, hmid⟩ := declarator_of_firstDeclarator hread
    have hcomma : spaced (char ',') input = .ok ',' (gapEnd (' ' :: (text ++ listEnd texts))) := by
      refine spaced_of_ok ?_
      rw [hinput]
      exact char_cons ',' _
    have hfurther : furtherDeclarator room head.base input = .ok first mid := (bind_of_ok hcomma).trans hdeclarator
    obtain ⟨others, rest, hothers, hrest, rfl⟩ := ih hplace.tail hmid
    refine ⟨first :: others, rest, ?_, hrest, rfl⟩
    have hconsuming : Consuming (furtherDeclarator room head.base) := by
      unfold furtherDeclarator
      infer_instance
    rw [many_of_ok hfurther (Consuming.lt hfurther), hothers]
    rfl

/-- What stands behind the head is read as the declarators are read alone. The marks of the first one are its own, so that
none of them is left in the type that it shares with the others. -/
theorem declarations_list (halone : List.Forall₂ (DeclaresAlone room isTrailing front head) (text :: texts) vars)
    (hplace : ReadInPlace room head.base (text :: texts)) (hbase : head.base.declaredBase = head.base)
    (hmarks : ∀ suffixes rest, CType.marks (' ' :: (text ++ [';'])) = .ok suffixes rest → CType.AreOwn head.base suffixes) :
    declarations room head (' ' :: (text ++ listEnd texts)) = .ok vars [] ∧
      ∀ declared ∈ vars, declared.modifiers = head.modifiers ∧ declared.comment = head.comment := by
  obtain _ | ⟨hfirst, hothers⟩ := halone
  obtain ⟨type, first, hsingle, hread, rfl⟩ := hfirst.firstDeclarator_listEnd hplace
  have hshared : type.declaredBase = head.base := firstDeclarator_declaredBase hbase hmarks hsingle
  obtain ⟨behind, hfirst, hbehind⟩ := beforeGap_eq_ok.1 hread
  have hmany : ∃ others rest, many (furtherDeclarator room head.base) behind = .ok others rest ∧ gapEnd rest = [';'] ∧
      others.map (ofDeclarator head.modifiers head.comment) = _ := many_furtherDeclarator hothers hplace.tail hbehind
  obtain ⟨others, rest, hmany, hrest, rfl⟩ := hmany
  constructor
  · rw [declarations, bind_of_ok hfirst]
    dsimp only
    rw [hshared, bind_of_ok hmany, bind_of_ok (afterGap_char hrest)]
    rfl
  · rintro declared (_ | ⟨_, hdeclared⟩)
    · exact ⟨rfl, rfl⟩
    · obtain ⟨_, -, rfl⟩ := List.mem_map.1 hdeclared
      exact ⟨rfl, rfl⟩

/-- A statement with several declarators declares what as many statements with one of them declare, in this order and
with the same modifiers and comment. The head is read in front of the list as in front of each declarator, and each
declarator is read in its place as it is read alone. The marks of the first declarator are its own, so that none of them
is left in the type that it shares with the others. -/
theorem variableStatement_list
    (hhead : Head.parser room isTrailing (front ++ ' ' :: (text ++ listEnd texts)) = .ok head (' ' :: (text ++ listEnd texts)))
    (halone : List.Forall₂ (DeclaresAlone room isTrailing front head) (text :: texts) vars)
    (hplace : ReadInPlace room head.base (text :: texts))
    (hmarks : ∀ suffixes rest, CType.marks (' ' :: (text ++ [';'])) = .ok suffixes rest → CType.AreOwn head.base suffixes) :
    variableStatement room (front ++ ' ' :: (text ++ listEnd texts)) = .ok vars [] ∧
      ∀ declared ∈ vars, declared.modifiers = head.modifiers ∧ declared.comment = head.comment := by
  obtain ⟨hbase, hstatement⟩ := Head.of_ok hhead
  rw [hstatement]
  exact declarations_list halone hplace hbase hmarks

end List

/-! ### Closed declarators -/

section Closed

variable {base : CType}

/-- The semicolon behind a declarator that stands alone, and the comma behind one that others follow. -/
def listEnds (next : Text) (texts : List Text) : EndPair where
  stop := ';'
  stop' := ','
  back := []
  back' := ' ' :: (next ++ listEnd texts)
  marks := by decide

theorem admits_listEnds (next : Text) (texts : List Text) : Admits (listEnds next texts) [] := by
  have hends : ∀ c ∈ [';', ','], c ∈ [';', ',', '\x7d'] := by decide
  exact ⟨nofun, fun _ => hends⟩

/-- The comma behind a closed text ends its declarator as a semicolon does. -/
theorem readsAlike_of_closed {text : Text} (hclosed : IsClosed false text) {found : CType × Declarator}
    (hread : beforeGap (firstDeclarator room base) (' ' :: (text ++ [';'])) = .ok found [';']) (next : Text) (texts : List Text) :
    ReadsAlike (beforeGap (firstDeclarator room base)) (' ' :: text) [';'] (listEnd (next :: texts)) := by
  have hinput : Fork (listEnds next texts) (IsPlace false []) (' ' :: text ++ [';']) (' ' :: text ++ listEnd (next :: texts)) :=
    .intro hclosed.isPlace
  have hforks : Forks (listEnds next texts) (IsPlace false []) (IsPlace false []) (beforeGap (firstDeclarator room base))
      (beforeGap (firstDeclarator room base)) := beforeGap_forks (firstDeclarator_forks (admits_listEnds next texts) room base)
  obtain ⟨rest, hread', hrest⟩ := (hforks.outcome hinput).exists_ok hread
  generalize hsemicolon : [';'] = behind at hrest
  obtain ⟨_⟩ := hrest
  obtain rfl := List.append_left_eq_self.1 hsemicolon.symm
  exact ⟨found, hread, hread'⟩

/-- Declarators of closed texts are read in their places. -/
theorem readInPlace_of_closed {isTrailing : Bool} {front : Text} {head : Head} {texts : List Text} {vars : List Variable}
    (halone : List.Forall₂ (DeclaresAlone room isTrailing front head) texts vars) (hclosed : ∀ text ∈ texts, IsClosed false text) :
    ReadInPlace room head.base texts := by
  induction halone with
  | nil => trivial
  | @cons text declared texts vars htext _ ih =>
    have htail := ih fun other hother => hclosed other (List.mem_cons_of_mem text hother)
    obtain ⟨type, first, hread, -⟩ := htext.firstDeclarator_ok
    cases texts with
    | nil => trivial
    | cons next texts => exact ⟨readsAlike_of_closed (hclosed text List.mem_cons_self) hread next texts, htail⟩

/-- The head in front of one declarator is the head in front of the list, if the two together are strictly closed. -/
theorem Head.parser_listEnd {isTrailing : Bool} {front text : Text} {head : Head} (hclosed : IsClosed true (front ++ ' ' :: text))
    (hhead : Head.parser room isTrailing (front ++ ' ' :: (text ++ [';'])) = .ok head (' ' :: (text ++ [';']))) (texts : List Text) :
    Head.parser room isTrailing (front ++ ' ' :: (text ++ listEnd texts)) = .ok head (' ' :: (text ++ listEnd texts)) := by
  cases texts with
  | nil => exact hhead
  | cons next texts =>
    have hinput : Fork (listEnds next texts) (IsPlace true []) (front ++ ' ' :: text ++ [';'])
        (front ++ ' ' :: text ++ listEnd (next :: texts)) := .intro hclosed.isStart.isPlace
    rw [List.append_assoc, List.append_assoc, List.cons_append, List.cons_append] at hinput
    obtain ⟨rest, hread, hrest⟩ := ((Head.parser_forks room isTrailing).outcome hinput).exists_ok hhead
    generalize hend : ' ' :: (text ++ [';']) = behind at hrest
    obtain ⟨_⟩ := hrest
    obtain rfl := List.append_left_injective [';'] (show _ = (' ' :: text) ++ [';'] from hend.symm)
    exact hread

/-- A statement whose head is strictly closed together with the first declarator, and whose declarators are closed,
declares what its declarators declare alone. -/
theorem variableStatement_closed {isTrailing : Bool} {front text : Text} {head : Head} {texts : List Text} {vars : List Variable}
    (hfront : IsClosed true (front ++ ' ' :: text)) (hclosed : ∀ other ∈ text :: texts, IsClosed false other)
    (halone : List.Forall₂ (DeclaresAlone room isTrailing front head) (text :: texts) vars)
    (hmarks : ∀ suffixes rest, CType.marks (' ' :: (text ++ [';'])) = .ok suffixes rest → CType.AreOwn head.base suffixes) :
    variableStatement room (front ++ ' ' :: (text ++ listEnd texts)) = .ok vars [] ∧
      ∀ declared ∈ vars, declared.modifiers = head.modifiers ∧ declared.comment = head.comment := by
  obtain ⟨declared, others, hfirst, -, -⟩ := List.forall₂_cons_left_iff.1 halone
  obtain ⟨hbase, hstatement⟩ := Head.of_ok (Head.parser_listEnd hfront hfirst.head texts)
  rw [hstatement]
  exact declarations_list halone (readInPlace_of_closed halone hclosed) hbase hmarks

end Closed

/-! ### Runs -/

namespace Head

/-- A type name alone. -/
def plain : Head := { comment := none, modifiers := [], base := .path [['T']] }

set_option maxRecDepth 20000 in
/-- The name is read in front of everything but a template argument list. -/
theorem parser_plain (room : Nat) {c : Char} (tail : Text) (hspace : isSpace c = false) (hslash : c ≠ '/') (hangle : c ≠ '<') :
    parser (room + 1) false ('T' :: ' ' :: c :: tail) = .ok plain (' ' :: c :: tail) := by
  have hcomment : leadingComment ('T' :: ' ' :: c :: tail) = .ok none ('T' :: ' ' :: c :: tail) := by cbv
  have htemplate : opt (templateHead (room + 1)) ('T' :: ' ' :: c :: tail) = .ok none ('T' :: ' ' :: c :: tail) := by cbv
  have hattributes : attributes ('T' :: ' ' :: c :: tail) = .ok () ('T' :: ' ' :: c :: tail) := by cbv
  have hspecifiers : many Specifier.parser ('T' :: ' ' :: c :: tail) = .ok [] ('T' :: ' ' :: c :: tail) :=
    many_of_mismatch ⟨_, rfl⟩
  have hword : opt (beforeGap (anyKeyword ["typename", "struct", "class", "enum", "union"])) ('T' :: ' ' :: c :: tail) =
      .ok none ('T' :: ' ' :: c :: tail) := by cbv
  have hname : CType.named (templateArgs (room + 1)) ('T' :: ' ' :: c :: tail) = .ok (.path [['T']]) (' ' :: c :: tail) := by
    have hbase : CType.baseName ('T' :: ' ' :: c :: tail) = .ok (.path [['T']]) (' ' :: c :: tail) := by cbv
    have hgap : gapEnd (' ' :: c :: tail) = c :: tail := by
      rw [gapEnd, if_pos (by decide), gapEnd_cons hspace hslash]
    have hargs : Mismatches (afterGap (templateArgs (room + 1))) (' ' :: c :: tail) := by
      refine .afterGap (.bind (char_of_ne ?_))
      rw [hgap]
      exact head?_cons_ne hangle _
    rw [CType.named, recurse_apply, bind_of_ok hbase, bind_of_ok (opt_of_mismatch hargs)]
    rfl
  rw [parser, if_neg Bool.false_ne_true, upToName, bind_of_ok hcomment, bind_of_ok htemplate, bind_of_ok hattributes,
    bind_of_ok hspecifiers, bind_of_ok hword, bind_of_ok hname]
  rfl

end Head

/-- A variable without modifiers and comment. -/
def plain (name : Text) (type : CType) : Variable :=
  { name, type, defaultValue := none, bitfield := none, modifiers := [], comment := none }

theorem declaresAlone_of_ok {c : Char} (text : Text) {declared : Variable} (hspace : isSpace c = false) (hslash : c ≠ '/')
    (hangle : c ≠ '<') (hstatement : declarations (room + 1) .plain (' ' :: c :: (text ++ [';'])) = .ok [declared] []) :
    DeclaresAlone (room + 1) false ['T'] .plain (c :: text) declared where
  head := Head.parser_plain room (text ++ [';']) hspace hslash hangle
  statement := (Head.of_ok (Head.parser_plain room (text ++ [';']) hspace hslash hangle)).2.trans hstatement

set_option maxRecDepth 20000 in
/-- An array of pointers, and a plain variable behind it. -/
theorem variableStatement_list_pointers : variableStatement nestingLimit "T *a[2], b;".toList =
    .ok [plain ['a'] (.array (.pointer (.path [['T']])) (some ['2'])), plain ['b'] (.path [['T']])] [] := by
  have hlist : Head.parser nestingLimit false "T *a[2], b;".toList = .ok .plain " *a[2], b;".toList :=
    Head.parser_plain 63 "a[2], b;".toList (by decide) (by decide) (by decide)
  have hfirst : DeclaresAlone nestingLimit false ['T'] .plain "*a[2]".toList
      (plain ['a'] (.array (.pointer (.path [['T']])) (some ['2']))) :=
    declaresAlone_of_ok "a[2]".toList (by decide) (by decide) (by decide) (by cbv)
  have hsecond : DeclaresAlone nestingLimit false ['T'] .plain ['b'] (plain ['b'] (.path [['T']])) :=
    declaresAlone_of_ok [] (by decide) (by decide) (by decide) (by cbv)
  have hplace : ReadInPlace nestingLimit Head.plain.base ["*a[2]".toList, ['b']] :=
    readInPlace_of_closed (.cons hfirst (.cons hsecond .nil)) (by decide)
  have hmarks (suffixes : List CType.Suffix) (rest : Text) (hread : CType.marks " *a[2];".toList = .ok suffixes rest) :
      CType.AreOwn (.path [['T']]) suffixes := by
    have hpointer : CType.marks " *a[2];".toList = .ok [.pointer] "a[2];".toList := by cbv
    obtain ⟨rfl, -⟩ := Outcome.ok.inj (hread.symm.trans hpointer)
    exact ⟨by decide, .inr (.inr (by decide))⟩
  exact (variableStatement_list hlist (.cons hfirst (.cons hsecond .nil)) hplace hmarks).1

set_option maxRecDepth 20000 in
/-- A brace that the first of two declarators opens and the second one closes makes one declarator of both, though each is
read on its own. -/
theorem variableStatement_list_unmatched : ∃ first second both,
    DeclaresAlone nestingLimit false ['T'] .plain "x(A a \x7b )".toList first ∧
    DeclaresAlone nestingLimit false ['T'] .plain "y(\x7d)".toList second ∧
    variableStatement nestingLimit "T x(A a \x7b ), y(\x7d);".toList = .ok [both] [] := by
  have hboth : Head.parser nestingLimit false "T x(A a \x7b ), y(\x7d);".toList = .ok .plain " x(A a \x7b ), y(\x7d);".toList :=
    Head.parser_plain 63 "(A a \x7b ), y(\x7d);".toList (by decide) (by decide) (by decide)
  refine ⟨{ plain ['x'] (.path [['T']]) with defaultValue := some "A a \x7b".toList },
    { plain ['y'] (.path [['T']]) with defaultValue := some ['\x7d'] },
    plain ['x'] (.function (.path [['T']]) [.path [['A']]]), ?_, ?_, (Head.of_ok hboth).2.trans (by cbv)⟩
  · exact declaresAlone_of_ok "(A a \x7b )".toList (by decide) (by decide) (by decide) (by cbv)
  · exact declaresAlone_of_ok "(\x7d)".toList (by decide) (by decide) (by decide) (by cbv)

set_option maxRecDepth 20000 in
/-- A `const` behind the type belongs to all declarators. -/
theorem variableStatement_list_const : ∃ first second third,
    DeclaresAlone nestingLimit false ['T'] .plain "const a".toList first ∧
    DeclaresAlone nestingLimit false ['T'] .plain ['b'] second ∧
    variableStatement nestingLimit "T const a, b;".toList = .ok [first, third] [] ∧ second.type ≠ third.type := by
  have hconst : Head.parser nestingLimit false "T const a, b;".toList = .ok .plain " const a, b;".toList :=
    Head.parser_plain 63 "onst a, b;".toList (by decide) (by decide) (by decide)
  refine ⟨plain ['a'] (.const (.path [['T']])), plain ['b'] (.path [['T']]), plain ['b'] (.const (.path [['T']])), ?_, ?_,
    (Head.of_ok hconst).2.trans (by cbv), nofun⟩
  · exact declaresAlone_of_ok "onst a".toList (by decide) (by decide) (by decide) (by cbv)
  · exact declaresAlone_of_ok [] (by decide) (by decide) (by decide) (by cbv)

/-- The two ways in which a list differs from its declarators alone. -/
theorem variableStatement_list_differs :
    (∃ first second both, DeclaresAlone nestingLimit false ['T'] .plain "x(A a \x7b )".toList first ∧
      DeclaresAlone nestingLimit false ['T'] .plain "y(\x7d)".toList second ∧
      variableStatement nestingLimit "T x(A a \x7b ), y(\x7d);".toList = .ok [both] []) ∧
    ∃ first second third, DeclaresAlone nestingLimit false ['T'] .plain "const a".toList first ∧
      DeclaresAlone nestingLimit false ['T'] .plain ['b'] second ∧
      variableStatement nestingLimit "T const a, b;".toList = .ok [first, third] [] ∧ second.type ≠ third.type :=
  ⟨variableStatement_list_unmatched, variableStatement_list_const⟩

end Variable

end HeaderOutline
