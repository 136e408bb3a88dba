import HeaderOutline.Proofs.Declarator.Statement
/-!
# Variables without a name

A variable without a name is a bit-field, as far as the first declarator of a statement goes: it has to have a name or a
bit width. A declarator behind a comma is not asked for either, so that `int a, *;` declares a second variable that has
neither. `strictStatement` asks it of every declarator. It accepts exactly those statements whose variables without a
name all are bit-fields, and reads the same from them.
-/

namespace HeaderOutline

open HeaderOutline.Parser

variable {room : Nat} {input mid rest : Text}

/-! ### Names that are read -/

theorem identifier_ne_nil {word : Text} (hword : identifier input = .ok word rest) : word ≠ [] := by
  unfold identifier at hword
  split at hword
  · split at hword
    · cases hword
      exact List.cons_ne_nil _ _
    · cases hword
  · cases hword

theorem opt_plainName_ne_nil {name : Option Text} (hname : opt (afterGap plainName) input = .ok name rest) :
    name ≠ some [] := by
  rintro rfl
  rcases opt_eq_ok.1 hname with ⟨_, hfound, hread⟩ | ⟨hnone, -⟩
  · cases hfound
    exact identifier_ne_nil (filter_eq_ok.1 hread).1 rfl
  · cases hnone

namespace Declarator

variable {paramList : Parser ParamList} {type : CType} {declared : Declarator}

theorem functionPointer_ne_nil {named : Option Text × CType}
    (hread : functionPointer paramList type input = .ok named rest) : named.1 ≠ some [] := by
  obtain ⟨_, _, -, hread⟩ := bind_eq_ok.1 hread
  obtain ⟨_, _, -, hread⟩ := bind_eq_ok.1 hread
  obtain ⟨_, _, -, hread⟩ := bind_eq_ok.1 hread
  obtain ⟨name, _, hname, hread⟩ := bind_eq_ok.1 hread
  obtain ⟨_, _, -, hread⟩ := bind_eq_ok.1 hread
  obtain ⟨_, _, -, hread⟩ := bind_eq_ok.1 hread
  obtain ⟨_, _, -, hread⟩ := bind_eq_ok.1 hread
  cases hread
  exact opt_plainName_ne_nil hname

theorem nameWith_ne_nil {named : Option Text × CType} (hread : nameWith paramList type input = .ok named rest) :
    named.1 ≠ some [] := by
  obtain ⟨p, hp, hread⟩ := firstOf_eq_ok hread
  simp only [List.mem_cons, List.not_mem_nil, or_false] at hp
  rcases hp with rfl | rfl
  · exact functionPointer_ne_nil hread
  · obtain ⟨name, hname, rfl⟩ := map_eq_ok.1 hread
    exact opt_plainName_ne_nil hname

/-- The name of a declarator is missing or it is not empty. -/
theorem parserWith_ne_nil {isNamed : Bool} (hread : parserWith paramList type isNamed input = .ok declared rest) :
    declared.name ≠ some [] := by
  rw [parserWith_eq] at hread
  obtain ⟨_, _, -, hread⟩ := bind_eq_ok.1 hread
  obtain ⟨⟨name, _⟩, _, hname, hread⟩ := bind_eq_ok.1 hread
  dsimp only at hread
  split at hread
  · cases hread
  · rw [clausesWith_name hread]
    exact nameWith_ne_nil hname

/-- The declarator has a name or a bit width. -/
def isDistinct (declared : Declarator) : Bool := declared.name.isSome || declared.bitfield.isSome

end Declarator

namespace Variable

/-- If the variable has no name, then it is a bit-field. -/
def IsDistinct (declared : Variable) : Prop := declared.name = [] → declared.bitfield ≠ none

theorem isDistinct_ofDeclarator {declared : Declarator} (hname : declared.name ≠ some []) (modifiers : List VariableModifier)
    (comment : Option Text) : (ofDeclarator modifiers comment declared).IsDistinct ↔ declared.isDistinct = true := by
  unfold IsDistinct ofDeclarator Declarator.isDistinct
  cases hread : declared.name with
  | none => simp [Option.isSome_iff_ne_none]
  | some name =>
    have hne : name ≠ [] := fun hnil => hname (by rw [hread, hnil])
    simp [hne]

/-! ### The first declarator -/

theorem firstDeclarator_isDistinct {base type : CType} {first : Declarator}
    (hread : firstDeclarator room base input = .ok (type, first) rest) :
    first.name ≠ some [] ∧ first.isDistinct = true := by
  obtain ⟨_, _, -, hread⟩ := bind_eq_ok.1 hread
  obtain ⟨_, _, hdeclarator, hread⟩ := bind_eq_ok.1 hread
  split at hread
  · cases hread
  next hnamed =>
    cases hread
    refine ⟨Declarator.parserWith_ne_nil hdeclarator, ?_⟩
    unfold Declarator.isDistinct
    cases hname : first.name <;> cases hbitfield : first.bitfield <;> simp_all

/-! ### Further declarators -/

theorem furtherDeclarator_ne_nil {base : CType} {declared : Declarator}
    (hread : furtherDeclarator room base input = .ok declared rest) : declared.name ≠ some [] := by
  obtain ⟨_, _, -, hread⟩ := bind_eq_ok.1 hread
  exact Declarator.parserWith_ne_nil hread

/-- A further declarator that has a name or a bit width. -/
def strictDeclarator (room : Nat) (base : CType) : Parser Declarator :=
  (furtherDeclarator room base).filter Declarator.isDistinct

/-- Where no declarator is refused, the strict ones are read as the others are. -/
theorem many_strictDeclarator {base : CType} {others : List Declarator}
    (hread : many (furtherDeclarator room base) input = .ok others mid) (hothers : ∀ declared ∈ others, declared.isDistinct = true) :
    many (strictDeclarator room base) input = .ok others mid := by
  fun_induction many (furtherDeclarator room base) input generalizing others with
  | case1 input declared behind hdeclared hlt ih =>
    obtain ⟨tail, htail, rfl⟩ := Outcome.map_eq_ok.1 hread
    have hstrict : strictDeclarator room base input = .ok declared behind :=
      filter_of_ok hdeclared (hothers declared List.mem_cons_self)
    rw [many_of_ok hstrict hlt, ih htail fun other hother => hothers other (List.mem_cons_of_mem declared hother)]
    rfl
  | case2 => cases hread
  | case3 input trace hnone =>
    cases hread
    exact many_of_mismatch (Mismatches.filter ⟨trace, hnone⟩)
  | case4 => cases hread

/-- Strict declarators up to a semicolon are all that there are: in front of a declarator that is refused stands a comma. -/
theorem many_of_strictDeclarator {base : CType} {others : List Declarator}
    (hread : many (strictDeclarator room base) input = .ok others mid) (hsemicolon : (gapEnd mid).head? = some ';') :
    many (furtherDeclarator room base) input = .ok others mid ∧ ∀ declared ∈ others, declared.isDistinct = true := by
  fun_induction many (strictDeclarator room base) input generalizing others with
  | case1 input declared behind hdeclared hlt ih =>
    obtain ⟨tail, htail, rfl⟩ := Outcome.map_eq_ok.1 hread
    obtain ⟨hfurther, hdistinct⟩ := filter_eq_ok.1 hdeclared
    obtain ⟨hmany, hall⟩ := ih htail
    refine ⟨?_, List.forall_mem_cons.2 ⟨hdistinct, hall⟩⟩
    rw [many_of_ok hfurther hlt, hmany]
    rfl
  | case2 => cases hread
  | case3 input trace hnone =>
    cases hread
    have hcomma : Mismatches (spaced (char ',')) mid := .spaced (char_of_ne (by rw [hsemicolon]; decide))
    exact ⟨many_of_mismatch hcomma.bind, nofun⟩
  | case4 => cases hread

theorem forall_isDistinct_map {head : Head} {others : List Declarator} (hothers : ∀ declared ∈ others, declared.name ≠ some []) :
    (∀ declared ∈ others.map (ofDeclarator head.modifiers head.comment), declared.IsDistinct) ↔
      ∀ declared ∈ others, declared.isDistinct = true := by
  rw [List.forall_mem_map]
  exact forall₂_congr fun declared hmem => isDistinct_ofDeclarator (hothers declared hmem) head.modifiers head.comment

/-! ### Statements -/

/-- A statement of which `further` reads the declarators behind the first one. -/
def statementWith (further : CType → Parser Declarator) (room : Nat) : Parser (List Variable) := do
  let head ← Head.upToName room
  let (type, first) ← firstDeclarator room head.base
  let others ← many (further type.declaredBase)
  let _ ← afterGap (char ';')
  pure ((first :: others).map (ofDeclarator head.modifiers head.comment))

/-- A statement in which every declarator has to have a name or a bit width. -/
def strictStatement (room : Nat) : Parser (List Variable) := statementWith (strictDeclarator room) room

theorem variableStatement_eq_statementWith (room : Nat) :
    variableStatement room = statementWith (furtherDeclarator room) room := variableStatement_eq room

theorem statementWith_eq_ok {further : CType → Parser Declarator} {vars : List Variable} :
    statementWith further room input = .ok vars rest ↔
      ∃ head inner type first behind others mid, Head.upToName room input = .ok head inner ∧
        firstDeclarator room head.base inner = .ok (type, first) behind ∧
        many (further type.declaredBase) behind = .ok others mid ∧ gapEnd mid = ';' :: rest ∧
        vars = (first :: others).map (ofDeclarator head.modifiers head.comment) := by
  constructor
  · intro hread
    obtain ⟨head, inner, hhead, hread⟩ := bind_eq_ok.1 hread
    obtain ⟨⟨type, first⟩, behind, hfirst, hread⟩ := bind_eq_ok.1 hread
    obtain ⟨others, mid, hothers, hread⟩ := bind_eq_ok.1 hread
    obtain ⟨_, _, hsemicolon, hread⟩ := bind_eq_ok.1 hread
    cases hread
    exact ⟨head, inner, type, first, behind, others, mid, hhead, hfirst, hothers, (char_eq_ok.1 hsemicolon).2, rfl⟩
  · rintro ⟨head, inner, type, first, behind, others, mid, hhead, hfirst, hothers, hsemicolon, rfl⟩
    rw [statementWith, bind_of_ok hhead, bind_of_ok hfirst]
    dsimp only
    rw [bind_of_ok hothers, bind_of_ok (afterGap_char hsemicolon)]
    rfl

/-- The first variable of a statement has a name or is a bit-field. This holds of all of them exactly if the statement is
one that asks it of all of them. -/
theorem variableStatement_isDistinct (room : Nat) (input : Text) (vars : List Variable) (rest : Text) :
    (variableStatement room input = .ok vars rest → ∃ first others, vars = first :: others ∧ first.IsDistinct) ∧
      (variableStatement room input = .ok vars rest ∧ (∀ declared ∈ vars, declared.IsDistinct) ↔
        strictStatement room input = .ok vars rest) := by
  rw [variableStatement_eq_statementWith]
  refine ⟨fun hread => ?first, fun ⟨hread, hvars⟩ => ?strict, fun hread => ?all⟩
  case first =>
    obtain ⟨head, _, _, first, _, others, _, -, hfirst, -, -, rfl⟩ := statementWith_eq_ok.1 hread
    obtain ⟨hname, hdistinct⟩ := firstDeclarator_isDistinct hfirst
    exact ⟨_, _, List.map_cons, (isDistinct_ofDeclarator hname head.modifiers head.comment).2 hdistinct⟩
  case strict =>
    obtain ⟨head, inner, type, first, behind, others, mid, hhead, hfirst, hothers, hsemicolon, rfl⟩ :=
      statementWith_eq_ok.1 hread
    have hdistinct := (forall_isDistinct_map (forall_mem_of_many furtherDeclarator_ne_nil hothers)).1 (List.forall_mem_cons.1 hvars).2
    exact statementWith_eq_ok.2 ⟨head, inner, type, first, behind, others, mid, hhead, hfirst,
      many_strictDeclarator hothers hdistinct, hsemicolon, rfl⟩
  case all =>
    obtain ⟨head, inner, type, first, behind, others, mid, hhead, hfirst, hothers, hsemicolon, rfl⟩ :=
      statementWith_eq_ok.1 hread
    obtain ⟨hmany, hdistinct⟩ := many_of_strictDeclarator hothers (by rw [hsemicolon]; rfl)
    obtain ⟨hname, hfirst_distinct⟩ := firstDeclarator_isDistinct hfirst
    refine ⟨statementWith_eq_ok.2 ⟨head, inner, type, first, behind, others, mid, hhead, hfirst, hmany, hsemicolon, rfl⟩,
      List.forall_mem_cons.2 ⟨?_, ?_⟩⟩
    · exact (isDistinct_ofDeclarator hname head.modifiers head.comment).2 hfirst_distinct
    · exact (forall_isDistinct_map (forall_mem_of_many furtherDeclarator_ne_nil hmany)).2 hdistinct

set_option maxRecDepth 20000 in
/-- A bit-field, one without a name, and a variable that is no bit-field. -/
theorem variableStatement_isDistinct_bitfields : ∃ vars,
    variableStatement nestingLimit "T a : 1, : 0, b;".toList = .ok vars [] ∧ (∀ declared ∈ vars, declared.IsDistinct) ∧
      vars.map Variable.name = [['a'], [], ['b']] := by
  have hhead : Head.upToName nestingLimit "T a : 1, : 0, b;".toList = .ok .plain " a : 1, : 0, b;".toList :=
    Head.parser_plain 63 " : 1, : 0, b;".toList (by decide) (by decide) (by decide)
  have hfirst : firstDeclarator nestingLimit (.path [['T']]) " a : 1, : 0, b;".toList =
      .ok (.path [['T']], ⟨some ['a'], .path [['T']], some ['1'], none⟩) ", : 0, b;".toList := by cbv
  have hothers : many (strictDeclarator nestingLimit (.path [['T']])) ", : 0, b;".toList =
      .ok [⟨none, .path [['T']], some ['0'], none⟩, ⟨some ['b'], .path [['T']], none, none⟩] [';'] := by cbv
  have hstrict := statementWith_eq_ok.2 ⟨_, _, _, _, _, _, _, hhead, hfirst, hothers, gapEnd_cons (by decide) (by decide) [], rfl⟩
  obtain ⟨hread, hdistinct⟩ := (variableStatement_isDistinct nestingLimit "T a : 1, : 0, b;".toList _ []).2.2 hstrict
  exact ⟨_, hread, hdistinct, rfl⟩

set_option maxRecDepth 20000 in
/-- Nothing at all stands for the second declarator. -/
theorem variableStatement_isDistinct_missing : ∃ vars, variableStatement nestingLimit "T a,;".toList = .ok vars [] ∧
    ∃ declared ∈ vars, ¬declared.IsDistinct := by
  have hhead : Head.parser nestingLimit false "T a,;".toList = .ok .plain " a,;".toList :=
    Head.parser_plain 63 ",;".toList (by decide) (by decide) (by decide)
  have hread : declarations nestingLimit .plain " a,;".toList = .ok [plain ['a'] (.path [['T']]), plain [] (.path [['T']])] [] := by
    cbv
  refine ⟨_, (Head.of_ok hhead).2.trans hread, plain [] (.path [['T']]), List.mem_cons_of_mem _ List.mem_cons_self, ?_⟩
  exact fun hdistinct => hdistinct rfl rfl

end Variable

end HeaderOutline
