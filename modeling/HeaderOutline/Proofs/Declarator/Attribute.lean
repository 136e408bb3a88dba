import HeaderOutline.Proofs.Declarator.Rebase
import HeaderOutline.Proofs.Lexeme.Expression
import HeaderOutline.Proofs.Lexeme.Gap
import HeaderOutline.Proofs.Source.Definition
/-!
# Attributes behind a definition

An attribute may stand between the closing brace of a class or an enumeration and the names that are declared there. It is
not skipped: `[[..]]` begins no declarator, and `__attribute__((..))` is one, whose name is `__attribute__` and whose
initial value is in parentheses. Either way nothing may follow but a semicolon.
-/

namespace HeaderOutline

open HeaderOutline.Parser HeaderOutline.CType

variable {room : Nat} {input mid rest tail mark behind call inner : Text} {base : CType} {expected : String}

/-! ### What stands behind the brace -/

/-- The names that are declared behind a closing brace, and the semicolon that is `expected` behind them. -/
def trailer (room : Nat) (expected : String) : Parser (List Text) := do
  let names ← opt (instances room)
  let _ ← commit (expecting expected (afterGap (char ';')))
  pure (names.getD [])

theorem recordWith_eq_trailer {definition : Parser Record} {found : Record} (hfound : definition input = .ok found tail)
    (hbrace : found.isForwardDeclaration = false) : recordWith room definition input =
      (trailer room "`;` after class definition" tail).map fun names => { found with instances := names } := by
  rw [recordWith, bind_of_ok hfound, if_neg (by rw [hbrace]; exact Bool.false_ne_true), ← map_apply, trailer]
  simp only [map_bind, map_pure]

theorem enumeration_eq_trailer {found : Enumeration} (hfound : enumerationDefinition room input = .ok found tail)
    (hbrace : found.isForwardDeclaration = false) : enumeration room input =
      (trailer room "`;` after enum" tail).map fun names => { found with instances := names } := by
  rw [enumeration, bind_of_ok hfound, if_neg (by rw [hbrace]; exact Bool.false_ne_true), ← map_apply, trailer]
  simp only [map_bind, map_pure]

section Trailer

variable {found : Option (List Text)} (hfound : opt (instances room) input = .ok found mid)

include hfound

theorem trailer_of_semicolon (hmid : gapEnd mid = ';' :: rest) :
    trailer room expected input = .ok (found.getD []) rest := by
  have hend : commit (expecting expected (afterGap (char ';'))) mid = .ok ';' rest := by
    rw [commit, expecting, afterGap_char hmid]
  rw [trailer, bind_of_ok hfound, bind_of_ok hend]
  rfl

/-- Whatever else stands behind the names is final. -/
theorem trailer_of_ne (hmid : (gapEnd mid).head? ≠ some ';') : trailer room expected input =
    .failure [⟨gapEnd mid, .char ';'⟩, ⟨mid, .context expected.toList⟩] := by
  have hchar : char ';' (gapEnd mid) = .mismatch [⟨gapEnd mid, .char ';'⟩] := by
    cases hgap : gapEnd mid with
    | nil => rfl
    | cons c text => exact if_neg fun hc => hmid (by rw [hgap, hc]; rfl)
  have hend : commit (expecting expected (afterGap (char ';'))) mid =
      .failure [⟨gapEnd mid, .char ';'⟩, ⟨mid, .context expected.toList⟩] := by
    rw [commit, expecting, afterGap_apply, hchar]
    rfl
  rw [trailer, bind_of_ok hfound, bind_apply, hend]
  rfl

end Trailer

theorem exists_of_trailer {names : List Text} (htrailer : trailer room expected input = .ok names rest) :
    ∃ found mid, opt (instances room) input = .ok found mid ∧ gapEnd mid = ';' :: rest ∧ names = found.getD [] := by
  obtain ⟨found, mid, hfound, hread⟩ := bind_eq_ok.1 htrailer
  obtain ⟨_, _, hend, hread⟩ := bind_eq_ok.1 hread
  cases hread
  unfold commit expecting at hend
  split at hend
  · next hchar =>
    split at hchar
    · next hsemicolon =>
      cases hend
      cases hchar
      exact ⟨found, mid, hfound, (char_eq_ok.1 hsemicolon).2, rfl⟩
    · cases hchar
    · cases hchar
  · cases hend
  · cases hend

/-! ### Where no declarator begins -/

/-- Neither a word nor a mark of a declarator comes next. -/
structure StartsNoDeclarator (input : Text) : Prop where
  word : StartsNoType input
  mark : ∀ c ∈ ['(', '*', '&', '.'], input.head? ≠ some c

theorem startsNoDeclarator_cons {c : Char} (hc : c ∈ [',', ';', '[']) (text : Text) : StartsNoDeclarator (c :: text) := by
  have hwords : ∀ c ∈ [',', ';', '['], isWordStart c = false ∧ c ≠ ':' := by decide
  have hmarks : ∀ d ∈ ['(', '*', '&', '.'], d ∉ [',', ';', '['] := by decide
  refine ⟨startsNoType_cons (hwords c hc).1 (hwords c hc).2 text, ?_⟩
  rintro d hd ⟨⟩
  exact hmarks c hd hc

theorem declarator_of_ne (hinput : StartsNoDeclarator (gapEnd input)) : Mismatches (declarator room base true) input := by
  have hsuffixes : suffixed base input = .ok base input := by
    refine suffixed_of_ne base (fun c hc => hinput.mark c (List.mem_cons_of_mem _ hc)) fun word hword => ?_
    have hidentifiers : ∀ word ∈ ["const", "volatile"], isIdentifier word.toList = true := by decide
    exact hinput.word.headWord_ne (hidentifiers word hword)
  have hname := declaratorName_of_ne (paramList room) base (hinput.mark '(' (by decide)) hinput.word.plainName
  rw [Mismatches, declarator, Declarator.parserWith, bind_of_ok hsuffixes, bind_of_ok hname]
  exact ⟨_, rfl⟩

theorem instances_of_ne (hinput : StartsNoDeclarator (gapEnd input)) : Mismatches (instances room) input :=
  .bind (.sepBy1 (.afterGap (declarator_of_ne (by rwa [gapEnd_gapEnd]))))

/-! ### Attributes -/

/-- The text is an attribute in front of `behind`: `[[..]]`, or `__attribute__((..))` with or without gaps in front of its
parentheses. -/
structure IsAttribute (mark behind : Text) : Prop where
  read : attributeMark (mark ++ behind) = .ok mark behind
  form : "[[".toList <+: mark ∨ ∃ call inner, mark = "__attribute__".toList ++ call ∧
    gapEnd (call ++ behind) = '(' :: inner ∧ (gapEnd inner).head? = some '('

/-- A parenthesis behind a gap ends a word in front of it. -/
theorem endsWord_of_gapEnd (hcall : gapEnd call = '(' :: inner) : EndsWord call := by
  intro c hc
  obtain ⟨text, rfl⟩ := List.head?_eq_some_iff.1 hc
  refine Bool.eq_false_iff.2 fun hword => ?_
  have hspace : isSpace c = false := by
    refine Bool.eq_false_iff.2 fun hspace => ?_
    rw [isWordChar_of_isSpace hspace] at hword
    cases hword
  have hslash : c ≠ '/' := by
    rintro rfl
    exact absurd hword (by decide)
  rw [gapEnd_cons hspace hslash] at hcall
  cases hcall
  exact absurd hword (by decide)

/-- What stands in two pairs of parentheses is no parameter list. -/
theorem paramList_of_parentheses (hinner : (gapEnd inner).head? = some '(') : Mismatches (paramList room) ('(' :: inner) := by
  obtain ⟨text, htext⟩ := List.head?_eq_some_iff.1 hinner
  have hgap : gapEnd ('(' :: text) = '(' :: text := gapEnd_cons (by decide) (by decide) text
  have hnone : StartsNoType ('(' :: text) := startsNoType_cons (by decide) (by decide) text
  have hopen : beforeGap (char '(') ('(' :: inner) = .ok '(' ('(' :: text) := by
    rw [beforeGap_of_ok (char_cons '(' inner), htext]
  have hvoid : Mismatches voidList ('(' :: text) := .bind (keyword_of_ne (by decide) (hnone.headWord_ne (by decide)))
  have hcomma : Mismatches (spaced (char ',')) ('(' :: text) :=
    spaced_char_of_ne (by rw [hgap]; exact head?_cons_ne (by decide) _)
  have hdots : Mismatches (do
      let _ ← opt (spaced (char ','))
      afterGap (literal "...")) ('(' :: text) := by
    refine .bind_of_ok (opt_of_mismatch hcomma) (.afterGap ?_)
    rw [hgap]
    exact literal_of_ne (c := '.') rfl (head?_cons_ne (by decide) _)
  have hclose : Mismatches (afterGap (char ')')) ('(' :: text) :=
    .afterGap (by rw [hgap]; exact char_of_ne (head?_cons_ne (by decide) _))
  have hparams (inner : Parser ParamList) :
      firstOf [voidList, sepBy (spaced (char ',')) (Param.parserWith inner room)] ('(' :: text) = .ok [] ('(' :: text) :=
    (firstOf_of_mismatch hvoid).trans (firstOf_of_ok (params_of_startsNoType (head?_cons_ne (by decide) _) hnone))
  rw [Mismatches, paramList_eq, recurse_apply]
  exact Mismatches.bind_of_ok hopen (.bind_of_ok (hparams _) (.bind_of_ok (opt_of_mismatch hdots) hclose.bind))

/-- A plain word is the name of a declarator, and what follows it is left to the clauses. -/
theorem parserWith_of_name {paramList : Parser ParamList} {name : Text} (hname : isPlainName name = true) (hends : EndsWord call)
    (hinput : gapEnd input = name ++ call) (isNamed : Bool) :
    Declarator.parserWith paramList base isNamed input = Declarator.clausesWith paramList (some name) base call := by
  have hidentifier := isIdentifier_of_isPlainName hname
  have hsuffixes : suffixed base input = .ok base input := by
    refine suffixed_of_ne base ?_ ?_ <;> rw [hinput]
    · have hmarks : ∀ c ∈ ['*', '&', '.'], isWordStart c = false := by decide
      exact fun c hc => head?_word_ne hidentifier (hmarks c hc) call
    · have hreserved : ∀ word ∈ ["const", "volatile"], word ∈ reservedWords := by decide
      exact fun word hword => (startsName_append hname hends).ne (hreserved word hword)
  have hpointer : Mismatches (Declarator.functionPointer paramList base) input :=
    .bind (spaced_char_of_ne (by rw [hinput]; exact head?_word_ne hidentifier (by decide) call))
  have hread : opt (afterGap plainName) input = .ok (some name) call := by
    refine opt_of_ok ?_
    rw [afterGap_apply, hinput]
    exact plainName_append hname hends
  have hnamed : Declarator.nameWith paramList base input = .ok (some name, base) call :=
    (firstOf_of_mismatch hpointer).trans (firstOf_of_ok (map_of_ok hread))
  rw [Declarator.parserWith_eq, bind_of_ok hsuffixes, bind_of_ok hnamed]
  dsimp only
  rw [Option.isNone_some, Bool.and_false, if_neg Bool.false_ne_true]

/-- What is in two pairs of parentheses is the initial value of any name in front of them. -/
theorem clausesWith_of_parentheses (name : Option Text) (base : CType) {args : Text} (hcall : gapEnd call = '(' :: inner)
    (hinner : (gapEnd inner).head? = some '(') (hargs : parentheses ('(' :: inner) = .ok args rest) :
    ∃ declared, Declarator.clausesWith (paramList room) name base call = .ok declared rest := by
  have hne {c : Char} (hc : c ≠ '(') : (gapEnd call).head? ≠ some c := by
    rw [hcall]
    rintro ⟨⟩
    exact hc rfl
  have hparams : Mismatches (afterGap (paramList room)) call :=
    .afterGap (by rw [hcall]; exact paramList_of_parentheses hinner)
  have hsquare : ∀ c ∈ ['[', ':'], c ≠ '(' := by decide
  obtain ⟨hsizes, hwidth⟩ : Declarator.arrayDimensions call = .ok [] call ∧ Mismatches Declarator.bitWidth call :=
    declaratorSizes_of_ne fun c hc => hne (hsquare c hc)
  have hinitial : Declarator.initializer call = .ok (inside args) rest := by
    have hassign : Mismatches (spaced (char '=')) call := spaced_char_of_ne (hne (by decide))
    have hbraces : Mismatches (afterGap braces) call := .afterGap (block_of_ne (hne (by decide)))
    have hread : afterGap parentheses call = .ok args rest := by rw [afterGap_apply, hcall, hargs]
    exact (firstOf_of_mismatch hassign.bind).trans
      ((firstOf_of_mismatch hbraces.map).trans (firstOf_of_ok (map_of_ok hread)))
  rw [Declarator.clausesWith, bind_of_ok (opt_of_mismatch hparams), bind_of_ok hsizes, bind_of_ok (opt_of_mismatch hwidth),
    bind_of_ok (opt_of_ok hinitial)]
  exact ⟨_, rfl⟩

theorem IsAttribute.exists_args (hmark : IsAttribute ("__attribute__".toList ++ call) behind)
    (hcall : gapEnd (call ++ behind) = '(' :: inner) : ∃ args, parentheses ('(' :: inner) = .ok args behind := by
  have hends := endsWord_of_gapEnd hcall
  have hword : anyKeyword ["__attribute__", "__declspec", "alignas"] ("__attribute__".toList ++ (call ++ behind)) =
      .ok "__attribute__".toList (call ++ behind) := anyKeyword_append (by decide) (by decide) hends
  have hbrackets : Mismatches (literal "[[") ("__attribute__".toList ++ (call ++ behind)) :=
    literal_of_ne rfl (head?_cons_ne (by decide) _)
  have hread := hmark.read
  rw [attributeMark, List.append_assoc, firstOf_of_mismatch (Mismatches.textOf hbrackets.bind)] at hread
  obtain ⟨p, hp, hread⟩ := firstOf_eq_ok hread
  cases List.mem_singleton.1 hp
  obtain ⟨args, hargs⟩ := exists_of_textOf hread
  rw [bind_of_ok hword, afterGap_apply, hcall] at hargs
  exact ⟨args, hargs⟩

/-- The word is the only name, and nothing of what follows the attribute is read. -/
theorem instances_attribute (hmark : IsAttribute ("__attribute__".toList ++ call) behind)
    (hgap : gapEnd tail = "__attribute__".toList ++ call ++ behind) (hcall : gapEnd (call ++ behind) = '(' :: inner)
    (hinner : (gapEnd inner).head? = some '(') (hcomma : (gapEnd behind).head? ≠ some ',') :
    instances room tail = .ok ["__attribute__".toList] behind := by
  obtain ⟨args, hargs⟩ := hmark.exists_args hcall
  obtain ⟨declared, hdeclared⟩ := clausesWith_of_parentheses (some "__attribute__".toList) .unnamed hcall hinner hargs
  have hname : declared.name = some "__attribute__".toList := Declarator.clausesWith_name hdeclared
  have hfirst : afterGap (declarator room .unnamed true) tail = .ok declared behind := by
    have hinput : gapEnd (gapEnd tail) = "__attribute__".toList ++ (call ++ behind) := by
      rw [gapEnd_gapEnd, hgap, List.append_assoc]
    rw [afterGap_apply, declarator, parserWith_of_name (by decide) (endsWord_of_gapEnd hcall) hinput, hdeclared]
  have hall : sepBy1 (spaced (char ',')) (afterGap (declarator room .unnamed true)) tail = .ok [declared] behind := by
    rw [sepBy1_of_ok hfirst, sepTail_of_mismatch (spaced_char_of_ne hcomma)]
    rfl
  have hnames : [declared].filterMap Declarator.name = ["__attribute__".toList] := List.filterMap_cons_some hname
  rw [instances, bind_of_ok hall, hnames]
  rfl

/-! ### Names -/

theorem declarator_name {declared : Declarator} (hread : declarator room base true input = .ok declared rest) :
    ∃ name, declared.name = some name := by
  rw [declarator, Declarator.parserWith_eq] at hread
  obtain ⟨_, _, -, hread⟩ := bind_eq_ok.1 hread
  obtain ⟨⟨name, _⟩, _, -, hread⟩ := bind_eq_ok.1 hread
  cases name with
  | none => cases hread
  | some name => exact ⟨name, Declarator.clausesWith_name hread⟩

theorem instances_ne_nil {names : List Text} (hread : instances room input = .ok names rest) : names ≠ [] := by
  obtain ⟨declarators, _, hall, hread⟩ := bind_eq_ok.1 hread
  obtain ⟨first, _, hfirst, hall⟩ := bind_eq_ok.1 hall
  obtain ⟨others, _, -, hall⟩ := bind_eq_ok.1 hall
  obtain ⟨name, hname⟩ := declarator_name hfirst
  cases hread
  cases hall
  rw [List.filterMap_cons_some hname]
  exact List.cons_ne_nil _ _

/-! ### Attributes behind a definition -/

/-- What is read of the text behind a closing brace if an attribute is put in front of `behind`, where `names` are declared
up to the semicolon in front of `rest`. -/
def attributed (expected : String) (tail mark behind : Text) (names : List Text) (rest : Text) : Outcome (List Text) :=
  if "[[".toList <+: mark then .failure [⟨mark ++ behind, .char ';'⟩, ⟨tail, .context expected.toList⟩]
  else if names = [] then .ok ["__attribute__".toList] rest
  else .failure [⟨gapEnd behind, .char ';'⟩, ⟨behind, .context expected.toList⟩]

theorem trailer_attribute {names : List Text} (hmark : IsAttribute mark behind) (hgap : gapEnd tail = mark ++ behind)
    (hplain : trailer room expected behind = .ok names rest) :
    trailer room expected tail = attributed expected tail mark behind names rest := by
  obtain ⟨found, mid, hfound, hsemicolon, rfl⟩ := exists_of_trailer hplain
  rcases hmark.form with ⟨words, rfl⟩ | ⟨call, inner, rfl, hcall, hinner⟩
  · have hhead : (gapEnd tail).head? = some '[' := by rw [hgap]; rfl
    have hnone : Mismatches (instances room) tail := by
      refine instances_of_ne ?_
      rw [hgap]
      exact startsNoDeclarator_cons (by decide) _
    rw [trailer_of_ne (opt_of_mismatch hnone) (by rw [hhead]; decide), attributed, if_pos (List.prefix_append _ _), hgap]
  · have hbrackets : ¬"[[".toList <+: "__attribute__".toList ++ call := fun ⟨_, heq⟩ => by cases heq
    rw [attributed, if_neg hbrackets]
    rcases opt_eq_ok.1 hfound with ⟨names, rfl, hnames⟩ | ⟨rfl, hmid, -⟩
    · -- A declarator begins behind the attribute, so that neither a comma nor the semicolon comes next.
      have hbehind {c : Char} (hc : c ∈ [',', ';', '[']) : (gapEnd behind).head? ≠ some c := by
        intro heq
        obtain ⟨text, htext⟩ := List.head?_eq_some_iff.1 heq
        exact (instances_of_ne (by rw [htext]; exact startsNoDeclarator_cons hc text)).ne_ok hnames
      have hread : instances room tail = .ok ["__attribute__".toList] behind :=
        instances_attribute hmark hgap hcall hinner (hbehind (by decide))
      rw [Option.getD_some, if_neg (instances_ne_nil hnames)]
      exact trailer_of_ne (opt_of_ok hread) (hbehind (by decide))
    · rw [hmid] at hsemicolon
      have hcomma : (gapEnd behind).head? ≠ some ',' := by
        rw [hsemicolon]
        exact head?_cons_ne (by decide) rest
      have hread : instances room tail = .ok ["__attribute__".toList] behind :=
        instances_attribute hmark hgap hcall hinner hcomma
      exact trailer_of_semicolon (opt_of_ok hread) hsemicolon

/-- An attribute behind the closing brace of a class or an enumeration is not skipped, whatever is declared there. Brackets are
refused. `__attribute__` is declared where nothing else is, and otherwise the names behind it are refused. -/
theorem record_attribute (hmark : IsAttribute mark behind) (hgap : gapEnd tail = mark ++ behind) :
    (∀ front found statement, recordDefinition room (front ++ behind) = .ok found behind →
      recordDefinition room (front ++ tail) = .ok found tail → found.isForwardDeclaration = false →
      record room (front ++ behind) = .ok statement rest → record room (front ++ tail) =
        (attributed "`;` after class definition" tail mark behind statement.instances rest).map fun names =>
          { statement with instances := names }) ∧
    ∀ front found statement, enumerationDefinition room (front ++ behind) = .ok found behind →
      enumerationDefinition room (front ++ tail) = .ok found tail → found.isForwardDeclaration = false →
      enumeration room (front ++ behind) = .ok statement rest → enumeration room (front ++ tail) =
        (attributed "`;` after enum" tail mark behind statement.instances rest).map fun names =>
          { statement with instances := names } := by
  refine ⟨fun front found statement hplain hmarked hbrace hread => ?record,
    fun front found statement hplain hmarked hbrace hread => ?enumeration⟩
  case record =>
    rw [record, recordWith_eq_trailer hplain hbrace] at hread
    obtain ⟨names, htrailer, rfl⟩ := Outcome.map_eq_ok.1 hread
    rw [record, recordWith_eq_trailer hmarked hbrace, trailer_attribute hmark hgap htrailer]
  case enumeration =>
    rw [enumeration_eq_trailer hplain hbrace] at hread
    obtain ⟨names, htrailer, rfl⟩ := Outcome.map_eq_ok.1 hread
    rw [enumeration_eq_trailer hmarked hbrace, trailer_attribute hmark hgap htrailer]

/-- A packed class and a packed enumeration. -/
theorem record_attribute_packed :
    (∃ statement, record nestingLimit ("struct A \x7b\x7d".toList ++ [';']) = .ok statement [] ∧
      record nestingLimit ("struct A \x7b\x7d".toList ++ " __attribute__((packed));".toList) =
        .ok { statement with instances := ["__attribute__".toList] } []) ∧
    ∃ statement, enumeration nestingLimit ("enum E \x7bX\x7d".toList ++ [';']) = .ok statement [] ∧
      enumeration nestingLimit ("enum E \x7bX\x7d".toList ++ " __attribute__((packed));".toList) =
        .ok { statement with instances := ["__attribute__".toList] } [] := by
  have hmark : IsAttribute "__attribute__((packed))".toList [';'] :=
    ⟨by decide +kernel, .inr ⟨"((packed))".toList, "(packed));".toList, rfl, by cbv, by cbv⟩⟩
  have hgap : gapEnd " __attribute__((packed));".toList = "__attribute__((packed))".toList ++ [';'] := by cbv
  have hplain (expected : String) : trailer nestingLimit expected [';'] = .ok [] [] := by
    have hsemicolon : gapEnd [';'] = [';'] := gapEnd_cons (by decide) (by decide) []
    have hnone : Mismatches (instances nestingLimit) [';'] :=
      instances_of_ne (by rw [hsemicolon]; exact startsNoDeclarator_cons (by decide) [])
    exact trailer_of_semicolon (opt_of_mismatch hnone) hsemicolon
  obtain ⟨hrecord, henumeration⟩ := record_attribute hmark hgap
  refine ⟨⟨Record.empty .isStruct (some ['A']), ?_⟩, ⟨Enumeration.ofEnumerators (some ['E']) [⟨['X'], some (.int 0), none⟩], ?_⟩⟩
  · have hname : ∀ word ∈ some ['A'], isPlainName word = true := by decide
    have hdefinition (tail : Text) : recordDefinition nestingLimit ("struct A \x7b\x7d".toList ++ tail) =
        .ok (Record.empty .isStruct (some ['A'])) tail := by
      have hbody : recordBody nestingLimit ('\x7d' :: tail) = .ok [] tail := manyTill_of_stop rfl
      refine (recordDefinition_block .spaced nestingLimit (recordBody nestingLimit) .isStruct hname ('\x7d' :: tail)).trans ?_
      rw [hbody]
      rfl
    have hstatement := (recordWith_eq_trailer (hdefinition [';']) rfl).trans (congrArg _ (hplain _))
    exact ⟨hstatement, hrecord "struct A \x7b\x7d".toList _ _ (hdefinition _) (hdefinition _) rfl hstatement⟩
  · have hname : ∀ word ∈ some ['E'], isPlainName word = true := by decide
    have hdefinition {tail : Text} (hbody : Enumeration.body ("X\x7d".toList ++ tail) = .ok [⟨['X'], some (.int 0), none⟩] tail) :
        enumerationDefinition nestingLimit ("enum E \x7bX\x7d".toList ++ tail) =
          .ok (Enumeration.ofEnumerators (some ['E']) [⟨['X'], some (.int 0), none⟩]) tail := by
      refine (enumerationDefinition_block .spaced nestingLimit hname ("X\x7d".toList ++ tail)).trans ?_
      rw [hbody]
      rfl
    have hfound : enumerationDefinition nestingLimit ("enum E \x7bX\x7d".toList ++ [';']) =
        .ok (Enumeration.ofEnumerators (some ['E']) [⟨['X'], some (.int 0), none⟩]) [';'] := hdefinition (by decide +kernel)
    have hstatement := (enumeration_eq_trailer hfound rfl).trans (congrArg _ (hplain _))
    exact ⟨hstatement, henumeration "enum E \x7bX\x7d".toList _ _ hfound (hdefinition (by decide +kernel)) rfl hstatement⟩

/-- The class has an instance with the attribute, and has none without it. A class with an instance is refused. -/
theorem record_attribute_instances :
    (record nestingLimit "struct A \x7b\x7d;".toList).whole? Record.instances = some [] ∧
    (record nestingLimit "struct A \x7b\x7d __attribute__((packed));".toList).whole? Record.instances =
      some ["__attribute__".toList] ∧
    (record nestingLimit "struct A \x7b\x7d a;".toList).whole? Record.instances = some [['a']] ∧
    (record nestingLimit "struct A \x7b\x7d [[maybe_unused]] a;".toList).whole? Record.instances = none := by
  refine ⟨?_, ?_, ?_, ?_⟩ <;> decide +kernel

end HeaderOutline
