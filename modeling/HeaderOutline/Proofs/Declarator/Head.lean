import HeaderOutline.Variable
import HeaderOutline.Proofs.Declarator.Rebase
import HeaderOutline.Proofs.Lexeme.Gap
/-!
# The parts of a statement that declares variables

The first declarator of a statement is read together with its type, marks and all, while those behind it are read as
declarators of the type that all of them share. `declaredBase` takes the marks of the first one off again.
-/

namespace HeaderOutline

open HeaderOutline.Parser

variable {room : Nat} {input mid rest : Text}

/-! ### The marks of the first declarator -/

namespace CType

/-- The marks behind a type. -/
def marks : Parser (List Suffix) := many (afterGap Suffix.parser)

theorem suffixed_eq (type : CType) : suffixed type = (fun suffixes => suffixes.foldl Suffix.apply type) <$> marks := rfl

/-- Behind the marks there is none. -/
theorem marks_of_ok {suffixes : List Suffix} (hmarks : marks input = .ok suffixes rest) : marks rest = .ok [] rest := by
  unfold marks at hmarks ⊢
  fun_induction many (afterGap Suffix.parser) input generalizing suffixes with
  | case1 input suffix mid _ _ ih =>
    obtain ⟨others, hothers, -⟩ := Outcome.map_eq_ok.1 hmarks
    exact ih hothers
  | case2 => cases hmarks
  | case3 input trace hnone =>
    cases hmarks
    exact many_of_mismatch ⟨trace, hnone⟩
  | case4 => cases hmarks

theorem suffixed_of_ok {base type : CType} (htype : suffixed base input = .ok type rest) : suffixed type rest = .ok type rest := by
  obtain ⟨suffixes, hmarks, -⟩ := map_eq_ok.1 (suffixed_eq base ▸ htype)
  exact map_of_ok (marks_of_ok hmarks)

/-- The marks are those of a declarator: behind a shared type that is not `const` by itself, a `const` is no mark but
a word that all declarators share. -/
structure AreOwn (base : CType) (suffixes : List Suffix) : Prop where
  not_pack : .pack ∉ suffixes
  not_const : base.isConst = true ∨ base.isIndirect = true ∨ suffixes.find? (· != .volatile) ≠ some .const

theorem declaredBase_foldl_apply {base type : CType} (htype : type.declaredBase = base) {suffixes : List Suffix}
    (hown : AreOwn type suffixes) : (suffixes.foldl Suffix.apply type).declaredBase = base := by
  induction suffixes generalizing type with
  | nil => exact htype
  | cons suffix suffixes ih =>
    have hpack : .pack ∉ suffixes := fun hmem => hown.not_pack (List.mem_cons_of_mem _ hmem)
    rw [List.foldl_cons]
    cases suffix with
    | pointer => exact ih htype ⟨hpack, .inr (.inl rfl)⟩
    | reference => exact ih htype ⟨hpack, .inr (.inl rfl)⟩
    | pack => exact absurd List.mem_cons_self hown.not_pack
    | volatile => exact ih htype ⟨hpack, hown.not_const⟩
    | const =>
      rw [Suffix.apply]
      split
      · next hconst => exact ih htype ⟨hpack, .inl hconst⟩
      · next hconst =>
        have hindirect : type.isIndirect = true := by
          rcases hown.not_const with hconst' | hindirect | hfirst
          · exact absurd hconst' hconst
          · exact hindirect
          · exact absurd rfl hfirst
        refine ih ?_ ⟨hpack, .inl rfl⟩
        rw [declaredBase, if_pos hindirect, htype]

/-- A name is no pointer, and nothing stands around it. -/
theorem declaredBase_of_named {args : Parser (List CType)} {type : CType} (hnamed : named args input = .ok type rest) :
    type.isIndirect = false ∧ type.declaredBase = type := by
  have hbase {base : CType} {mid : Text} (hbase : baseName input = .ok base mid) : ∃ names, base = .path names := by
    obtain ⟨p, hp, hok⟩ := firstOf_eq_ok hbase
    simp only [List.mem_cons, List.not_mem_nil, or_false] at hp
    rcases hp with rfl | rfl | rfl <;> obtain ⟨_, -, rfl⟩ := map_eq_ok.1 hok <;> exact ⟨_, rfl⟩
  rw [named, recurse_apply] at hnamed
  obtain ⟨base, _, hread, hnamed⟩ := bind_eq_ok.1 hnamed
  obtain ⟨names, rfl⟩ := hbase hread
  obtain ⟨_ | list, _, -, hnamed⟩ := bind_eq_ok.1 hnamed
  · cases hnamed
    exact ⟨rfl, rfl⟩
  · obtain ⟨_ | inner, _, -, hnamed⟩ := bind_eq_ok.1 hnamed <;> cases hnamed <;> exact ⟨rfl, rfl⟩

theorem declaredBase_const {type : CType} (hindirect : type.isIndirect = false) :
    (CType.const type).declaredBase = .const type := by
  rw [declaredBase, hindirect, if_neg Bool.false_ne_true]

end CType

/-! ### The parts of a statement -/

namespace Variable

/-- What a statement says in front of its declarators. -/
structure Head where
  comment : Option Text
  modifiers : List VariableModifier
  base : CType

namespace Head

/-- Everything up to the name of the type. -/
def upToName (room : Nat) : Parser Head := do
  let comment ← leadingComment
  let _ ← opt (templateHead room)
  let _ ← attributes
  let specifiers ← many Specifier.parser
  let _ ← opt (beforeGap (anyKeyword ["typename", "struct", "class", "enum", "union"]))
  let name ← CType.named (templateArgs room)
  pure
    { comment
      modifiers := specifiers.filterMap Specifier.modifier?
      base := if specifiers.contains .const then .const name else name }

/-- The head of a statement, which may have a `const` behind the name of the type. -/
def parser (room : Nat) (isTrailing : Bool) : Parser Head :=
  if isTrailing then do
    let head ← upToName room
    let _ ← afterGap (keyword "const")
    pure { head with base := CType.Suffix.apply head.base .const }
  else upToName room

end Head

/-- The first declarator behind the shared type, with the type that its marks make of that. It has to have a name or a
bit width. -/
def firstDeclarator (room : Nat) (base : CType) : Parser (CType × Declarator) := do
  let type ← CType.suffixed base
  let first ← declarator room type false
  if first.name.isNone && first.bitfield.isNone then mismatch (.rule .name) else pure (type, first)

/-- A further declarator, with the comma in front of it. -/
def furtherDeclarator (room : Nat) (base : CType) : Parser Declarator := do
  let _ ← spaced (char ',')
  declarator room base false

def declarations (room : Nat) (head : Head) : Parser (List Variable) := do
  let (type, first) ← firstDeclarator room head.base
  let others ← many (furtherDeclarator room type.declaredBase)
  let _ ← afterGap (char ';')
  pure ((first :: others).map (ofDeclarator head.modifiers head.comment))

theorem variableStatement_eq (room : Nat) : variableStatement room = Head.upToName room >>= declarations room := by
  unfold variableStatement Head.upToName unqualifiedType CType.unqualified declarations firstDeclarator furtherDeclarator
  simp only [bind_assoc, pure_bind]
  refine bind_congr fun comment => bind_congr fun _ => bind_congr fun _ => bind_congr fun specifiers => bind_congr fun _ =>
    bind_congr fun name => bind_congr fun type => bind_congr fun first => ?_
  split <;> rfl

end Variable

/-! ### Behind the head -/

theorem CType.suffixed_const {base : CType} {word : Text} (hconst : afterGap (keyword "const") input = .ok word mid) :
    suffixed base input = suffixed (Suffix.apply base .const) mid := by
  have hkeyword : keyword "const" (gapEnd input) = .ok word mid := hconst
  obtain ⟨_, behind, hliteral, -⟩ := bind_eq_ok.1 hkeyword
  obtain ⟨-, htext⟩ := literal_eq_ok.1 hliteral
  have hne {c : Char} (hc : c ≠ 'c') : (gapEnd input).head? ≠ some c := by
    rw [htext]
    exact head?_cons_ne hc.symm _
  have hsuffix : afterGap Suffix.parser input = .ok .const mid := by
    rw [afterGap_apply, Suffix.parser, firstOf_of_mismatch (literal_of_ne rfl (hne (by decide))).map,
      firstOf_of_mismatch (literal_of_ne rfl (hne (by decide))).map,
      firstOf_of_mismatch (literal_of_ne rfl (hne (by decide))).map]
    exact firstOf_of_ok (map_of_ok hkeyword)
  rw [suffixed_eq, suffixed_eq, map_apply, map_apply, marks, many_of_ok hsuffix (Consuming.lt hsuffix)]
  cases many (afterGap Suffix.parser) mid <;> rfl

namespace Variable

theorem Head.of_ok {isTrailing : Bool} {head : Head} (hhead : Head.parser room isTrailing input = .ok head mid) :
    head.base.declaredBase = head.base ∧ variableStatement room input = declarations room head mid := by
  have hname {head : Head} {mid : Text} (hhead : Head.upToName room input = .ok head mid) :
      head.base.isIndirect = false ∧ head.base.declaredBase = head.base := by
    obtain ⟨_, _, -, hhead⟩ := bind_eq_ok.1 hhead
    obtain ⟨_, _, -, hhead⟩ := bind_eq_ok.1 hhead
    obtain ⟨_, _, -, hhead⟩ := bind_eq_ok.1 hhead
    obtain ⟨specifiers, _, -, hhead⟩ := bind_eq_ok.1 hhead
    obtain ⟨_, _, -, hhead⟩ := bind_eq_ok.1 hhead
    obtain ⟨name, _, hnamed, hhead⟩ := bind_eq_ok.1 hhead
    obtain ⟨hindirect, hbase⟩ := CType.declaredBase_of_named hnamed
    cases hhead
    dsimp only
    split
    · exact ⟨rfl, CType.declaredBase_const hindirect⟩
    · exact ⟨hindirect, hbase⟩
  unfold Head.parser at hhead
  split at hhead
  · obtain ⟨before, behind, hupTo, hhead⟩ := bind_eq_ok.1 hhead
    obtain ⟨word, _, hconst, hhead⟩ := bind_eq_ok.1 hhead
    cases hhead
    obtain ⟨hindirect, hbase⟩ := hname hupTo
    constructor
    · change (CType.Suffix.apply before.base .const).declaredBase = CType.Suffix.apply before.base .const
      rw [CType.Suffix.apply]
      split
      · exact hbase
      · exact CType.declaredBase_const hindirect
    · rw [variableStatement_eq, bind_of_ok hupTo, declarations, declarations, firstDeclarator, firstDeclarator, bind_apply,
        bind_apply, bind_apply, bind_apply, CType.suffixed_const hconst]
  · exact ⟨(hname hhead).2, by rw [variableStatement_eq, bind_of_ok hhead]⟩

instance (paramList : Parser ParamList) (type : CType) : IgnoresGap (Declarator.nameWith paramList type) := by
  unfold Declarator.nameWith Declarator.functionPointer
  infer_instance

instance (paramList : Parser ParamList) (name : Option Text) (type : CType) :
    IgnoresGap (Declarator.clausesWith paramList name type) := by
  unfold Declarator.clausesWith Declarator.arrayDimensions Declarator.bitWidth Declarator.initializer
  infer_instance

instance (base : CType) (isNamed : Bool) : IgnoresGap (declarator room base isNamed) := by
  unfold declarator
  rw [Declarator.parserWith_eq, CType.suffixed_eq]
  unfold CType.marks
  infer_instance

/-- Where the first declarator is read with the marks of its type, a further one is read in the same way. -/
theorem declarator_of_firstDeclarator {base type : CType} {first : Declarator}
    (hread : beforeGap (firstDeclarator room base) input = .ok (type, first) rest) :
    ∃ mid, declarator room base false (gapEnd input) = .ok first mid ∧ gapEnd mid = rest := by
  obtain ⟨mid, hfirst, rfl⟩ := beforeGap_eq_ok.1 hread
  obtain ⟨_, behind, htype, hbehind⟩ := bind_eq_ok.1 hfirst
  obtain ⟨_, _, hdeclarator, hnamed⟩ := bind_eq_ok.1 hbehind
  split at hnamed
  · cases hnamed
  cases hnamed
  rw [declarator, Declarator.parserWith_eq, bind_of_ok (CType.suffixed_of_ok htype)] at hdeclarator
  have hsame : declarator room base false input = .ok first mid := by
    rw [declarator, Declarator.parserWith_eq, bind_of_ok htype]
    exact hdeclarator
  obtain ⟨mid', hread, hgap⟩ := (IgnoresGap.outcome (declarator room base false) (gapEnd_gapEnd input).symm).exists_ok hsame
  exact ⟨mid', hread, hgap.symm⟩

/-- The marks of the first declarator come off its type again. -/
theorem firstDeclarator_declaredBase {base type : CType} {first : Declarator} (hbase : base.declaredBase = base)
    (hmarks : ∀ suffixes rest, CType.marks input = .ok suffixes rest → CType.AreOwn base suffixes)
    (hread : beforeGap (firstDeclarator room base) input = .ok (type, first) rest) : type.declaredBase = base := by
  obtain ⟨_, hfirst, -⟩ := beforeGap_eq_ok.1 hread
  obtain ⟨_, mid, htype, hbehind⟩ := bind_eq_ok.1 hfirst
  obtain ⟨_, _, -, hnamed⟩ := bind_eq_ok.1 hbehind
  split at hnamed
  · cases hnamed
  cases hnamed
  obtain ⟨suffixes, hsuffixes, rfl⟩ := map_eq_ok.1 (CType.suffixed_eq base ▸ htype)
  exact CType.declaredBase_foldl_apply hbase (hmarks suffixes mid hsuffixes)

end Variable

end HeaderOutline
