import HeaderOutline.Proofs.CType.Balanced
import HeaderOutline.Proofs.Source.Front
/-!
# Names of functions

A function is told apart from a variable by the parenthesis behind its name. The type of a variable is tried
as the name of a constructor too, with the scopes in front of it, and with its first word as an export macro.
-/

namespace HeaderOutline

open HeaderOutline.Parser HeaderOutline.CType

variable {room : Nat} {input mid rest tail name : Text}

namespace FunctionDecl

/-- A scope in front of a function name. -/
def nameScope : Parser Text := do
  let _ ← plainName
  let _ ← opt (afterGap angleBrackets)
  literal "::"

/-- What is named in the innermost scope. -/
def lastName (room : Nat) : Parser Text := firstOf
  [operatorName room,
   textOf do
    let _ ← char '~'
    afterGap identifier,
   plainName]

theorem nameParser_eq (room : Nat) : nameParser room = textOf (do let _ ← many nameScope; lastName room) := rfl

/-! ### The innermost name -/

theorem operatorName_of_ne (hinput : headWord input ≠ "operator".toList) : Mismatches (operatorName room) input :=
  .textOf (.bind (keyword_of_ne (by decide) hinput))

theorem lastName_append (hname : isPlainName name = true) (hrest : EndsWord rest) :
    lastName room (name ++ rest) = .ok name rest := by
  have hstarts := startsName_append hname hrest
  have hoperator : Mismatches (operatorName room) (name ++ rest) := operatorName_of_ne (hstarts.ne (by decide))
  have htilde : (name ++ rest).head? ≠ some '~' := head?_word_ne (isIdentifier_of_isPlainName hname) (by decide) rest
  have hdestructor : Mismatches (textOf do let _ ← char '~'; afterGap identifier) (name ++ rest) :=
    .textOf (.bind (char_of_ne htilde))
  rw [lastName, firstOf_of_mismatch hoperator, firstOf_of_mismatch hdestructor]
  exact firstOf_of_ok (plainName_append hname hrest)

theorem lastName_of_ne (hoperator : headWord input ≠ "operator".toList) (htilde : input.head? ≠ some '~')
    (hname : Mismatches plainName input) : Mismatches (lastName room) input := by
  refine .firstOf_cons ?_ (.firstOf_cons ?_ (.firstOf_cons ?_ .firstOf_nil))
  · exact operatorName_of_ne hoperator
  · exact .textOf (.bind (char_of_ne htilde))
  · exact hname

/-! ### Scopes -/

theorem nameScope_append (hname : isPlainName name = true) (tail : Text) :
    nameScope (name ++ ("::".toList ++ tail)) = .ok "::".toList tail := by
  have hends : EndsWord ("::".toList ++ tail) := endsWord_cons (by decide) _
  have hgap : gapEnd ("::".toList ++ tail) = "::".toList ++ tail := gapEnd_symbol (by decide) _
  have hangles : Mismatches (afterGap angleBrackets) ("::".toList ++ tail) := by
    refine .afterGap (block_of_ne ?_)
    rw [hgap]
    exact head?_cons_ne (by decide) _
  rw [nameScope, bind_of_ok (plainName_append hname hends), bind_of_ok (opt_of_mismatch hangles)]
  exact literal_append "::" tail

theorem nameScope_append_angles {text : Text} (hname : isPlainName name = true) (htext : Balanced text) (rest : Text) :
    nameScope (name ++ '<' :: (text ++ '>' :: rest)) = literal "::" rest := by
  have hends : EndsWord ('<' :: (text ++ '>' :: rest)) := endsWord_cons (by decide) _
  have hangles : afterGap angleBrackets ('<' :: (text ++ '>' :: rest)) = .ok ('<' :: text ++ ['>']) rest := by
    rw [afterGap_apply, gapEnd_symbol (by decide)]
    exact angleBrackets_append htext rest
  rw [nameScope, bind_of_ok (plainName_append hname hends), bind_of_ok (opt_of_ok hangles)]

theorem nameScope_of_endsNamed (hname : isPlainName name = true) (hrest : EndsNamed rest) :
    Mismatches nameScope (name ++ rest) := by
  have hangles : Mismatches (afterGap angleBrackets) rest := .afterGap (block_of_ne hrest.list)
  exact .bind_of_ok (plainName_append hname hrest.word)
    (.bind_of_ok (opt_of_mismatch hangles) (literal_of_ne rfl hrest.path))

/-! ### Names without a parenthesis -/

/-- No parenthesis stands behind what is read as the name of a function, if anything is. -/
def NamesNoCall (room : Nat) (input : Text) : Prop := ∃ scopes mid, many nameScope input = .ok scopes mid ∧
  (Mismatches (lastName room) mid ∨ ∃ name rest, lastName room mid = .ok name rest ∧ (gapEnd rest).head? ≠ some '(')

theorem NamesNoCall.scope {text : Text} (hscope : nameScope input = .ok text mid) (hlt : mid.length < input.length)
    (hmid : NamesNoCall room mid) : NamesNoCall room input := by
  obtain ⟨scopes, last, hscopes, hlast⟩ := hmid
  refine ⟨text :: scopes, last, ?_, hlast⟩
  rw [many_of_ok hscope hlt, hscopes]
  rfl

theorem NamesNoCall.last (hscope : Mismatches nameScope (name ++ rest)) (hname : isPlainName name = true)
    (hrest : EndsWord rest) (hcall : (gapEnd rest).head? ≠ some '(') : NamesNoCall room (name ++ rest) :=
  ⟨[], name ++ rest, many_of_mismatch hscope, .inr ⟨name, rest, lastName_append hname hrest, hcall⟩⟩

theorem NamesNoCall.of_mismatches (hname : Mismatches plainName input) (hoperator : headWord input ≠ "operator".toList)
    (htilde : input.head? ≠ some '~') : NamesNoCall room input :=
  ⟨[], input, many_of_mismatch hname.bind, .inl (lastName_of_ne hoperator htilde hname)⟩

theorem NamesNoCall.plainNames {first : Text} {names : List Text} (hfirst : isPlainName first = true)
    (hnames : names.all isPlainName = true)
    (hlast : ∀ name, isPlainName name = true → NamesNoCall room (name ++ rest)) :
    NamesNoCall room (Text.join "::".toList (first :: names) ++ rest) := by
  induction names generalizing first with
  | nil => exact hlast first hfirst
  | cons next names ih =>
    obtain ⟨hnext, hnames⟩ := Bool.and_eq_true_iff.1 hnames
    rw [Text.join, List.append_assoc, List.append_assoc]
    refine .scope (nameScope_append hfirst _) ?_ (ih hnext hnames)
    simp only [List.length_append]
    have hlength : "::".toList.length = 2 := by rfl
    omega

theorem plainName_symbol {c : Char} (hc : c ∈ [':', '<', '*', '&', '.', ';']) (tail : Text) :
    Mismatches plainName (c :: tail) := by
  have hsymbols : ∀ c ∈ [':', '<', '*', '&', '.', ';'], isWordChar c = false := by decide
  exact (identifier_of_endsWord (endsWord_cons (hsymbols c hc) tail)).filter

theorem lastName_symbol {c : Char} (hc : c ∈ [':', '<', '*', '&', '.', ';']) (tail : Text) :
    Mismatches (lastName room) (c :: tail) := by
  have hsymbols : ∀ c ∈ [':', '<', '*', '&', '.', ';'], isWordChar c = false ∧ c ≠ '~' := by decide
  obtain ⟨hword, htilde⟩ := hsymbols c hc
  refine lastName_of_ne ?_ (head?_cons_ne htilde tail) (plainName_symbol hc tail)
  rw [headWord_of_endsWord (endsWord_cons hword tail)]
  decide

theorem nameParser_symbol {c : Char} (hc : c ∈ [':', '<', '*', '&', '.', ';']) (tail : Text) :
    Mismatches (nameParser room) (c :: tail) :=
  .textOf (.bind_of_ok (many_of_mismatch (plainName_symbol hc tail).bind) (lastName_symbol hc tail))

theorem NamesNoCall.symbol {c : Char} (hc : c ∈ [':', '<', '*', '&', '.', ';']) (tail : Text) :
    NamesNoCall room (c :: tail) :=
  ⟨[], c :: tail, many_of_mismatch (plainName_symbol hc tail).bind, .inl (lastName_symbol hc tail)⟩

/-- What stands behind a path decides. -/
theorem NamesNoCall.path {names : List Text} (hnames : isPath names = true)
    (hlast : ∀ name, isPlainName name = true → NamesNoCall room (name ++ rest)) :
    NamesNoCall room (Text.join "::".toList names ++ rest) := by
  rcases isPath_cases hnames with
    ⟨name, rfl, hname⟩ | ⟨next, others, rfl, -⟩ | ⟨first, next, others, rfl, hfirst, -, hothers⟩
  · exact hlast name hname
  · exact .symbol (by decide) _
  · exact .plainNames hfirst hothers hlast

theorem NamesNoCall.named {name : CType} (hname : Named name) (hrest : EndsNamed rest)
    (hcall : (gapEnd rest).head? ≠ some '(') : NamesNoCall room (render name ++ rest) := by
  cases hname with
  | path hnames =>
    rw [render]
    exact .path hnames fun name hname => .last (nameScope_of_endsNamed hname hrest) hname hrest.word hcall
  | @generic _ args hnames hargs =>
    have hlist : Balanced (renderList args) := balanced_renderList fun arg harg => (hargs arg harg).balanced
    simp only [render, List.append_assoc, List.cons_append, List.nil_append]
    refine .path hnames fun name hname => .last ?_ hname (endsWord_cons (by decide) _) ?_
    · rw [Mismatches, nameScope_append_angles hname hlist]
      exact literal_of_ne rfl hrest.path
    · rw [gapEnd_symbol (by decide)]
      exact head?_cons_ne (by decide) _
  | @member _ args inner hnames hargs hinner =>
    have hlist : Balanced (renderList args) := balanced_renderList fun arg harg => (hargs arg harg).balanced
    have hinner : NamesNoCall room (render inner ++ rest) := named hinner hrest hcall
    simp only [render, List.append_assoc, List.cons_append, List.nil_append]
    refine .path hnames fun name hname => ?_
    have hscope := (nameScope_append_angles hname hlist _).trans (literal_append "::" (render inner ++ rest))
    refine .scope hscope ?_ hinner
    simp only [List.length_append, List.length_cons]
    omega

/-- A name without a parenthesis is no function without a result. -/
theorem NamesNoCall.signature (hinput : NamesNoCall room input) :
    Mismatches (do
      let name ← (nameParser room).filter fun name => !isMacroName name
      let _ ← lookahead (afterGap (char '('))
      pure (Signature.mk none name)) input := by
  obtain ⟨scopes, mid, hscopes, hlast⟩ := hinput
  rw [nameParser_eq]
  rcases hlast with hlast | ⟨name, rest, hlast, hcall⟩
  · exact .bind (.filter (.textOf (.bind_of_ok hscopes hlast)))
  · have hcall : Mismatches (lookahead (afterGap (char '('))) rest := .lookahead (.afterGap (char_of_ne hcall))
    have hread : (do let _ ← many nameScope; lastName room) input = .ok name rest := (bind_of_ok hscopes).trans hlast
    obtain ⟨text, hread⟩ := textOf_eq_ok hread
    cases hcapitals : !isMacroName text with
    | true => exact .bind_of_ok (filter_of_ok hread hcapitals) hcall.bind
    | false => exact .bind (.filter_of_ok hread hcapitals)

/-! ### Declarations without a parenthesis -/

theorem nameParser_append (hname : isPlainName name = true) (hrest : EndsNamed rest) :
    nameParser room (name ++ rest) = .ok name rest := by
  have hread : (do let _ ← many nameScope; lastName room) (name ++ rest) = .ok name rest :=
    (bind_of_ok (many_of_mismatch (nameScope_of_endsNamed hname hrest))).trans (lastName_append hname hrest.word)
  exact textOf_of_ok hread

theorem NamesNoCall.written {type : CType} (htype : Written type) (hrest : EndsType rest)
    (hcall : (gapEnd rest).head? ≠ some '(') : NamesNoCall room (render type ++ rest) := by
  obtain ⟨isConst, name, marks, hmarked⟩ := htype.marked
  rw [hmarked.render_eq, List.append_assoc, List.append_assoc]
  cases isConst with
  | true =>
    have hends : EndsWord ([' '] ++ (render name ++ (marks.flatMap Suffix.text ++ rest))) := endsWord_cons (by decide) _
    rw [constText, if_pos rfl, List.append_assoc]
    refine .of_mismatches (plainName_of_isReserved (by decide) (by decide) hends) ?_ (head?_cons_ne (c := 'c') (by decide) _)
    rw [headWord_append (by decide) hends]
    decide
  | false => exact .named hmarked.named (endsNamed_marks hrest) (gapEnd_marks_ne (by decide) (by decide) hcall)

/-- A type and a name with a parenthesis behind it are a result and the name of a function. -/
theorem signature_append {type : CType} {list : Text} (hread : ReadsType room type)
    (hrest : Declares rest name tail) (htail : EndsNamed tail) (hcall : gapEnd tail = '(' :: list) :
    signature room (render type ++ rest) = .ok ⟨some type, name⟩ tail := by
  have hname : afterGap (nameParser room) rest = .ok name tail := by
    rw [afterGap_apply, hrest.gapEnd]
    exact nameParser_append hrest.isPlainName htail
  have hopen : afterGap (char '(') tail = .ok '(' list := afterGap_char hcall
  refine firstOf_of_ok ?_
  have htype : cType room (render type ++ rest) = .ok type rest := hread rest hrest.endsType
  rw [bind_of_ok htype, bind_of_ok hname, bind_of_ok (lookahead_of_ok hopen)]
  rfl

/-- No function begins with a type and a name without a parenthesis behind it. -/
theorem signature_of_declares {type : CType} (htype : Written type)
    (hdepth : listDepth type < room) (hrest : Declares rest name tail) (htail : EndsNamed tail)
    (hcall : (gapEnd tail).head? ≠ some '(') : Mismatches (signature room) (render type ++ rest) := by
  have hread : cType room (render type ++ rest) = .ok type rest := cType_append htype hdepth hrest.endsType
  have hname : afterGap (nameParser room) rest = .ok name tail := by
    rw [afterGap_apply, hrest.gapEnd]
    exact nameParser_append hrest.isPlainName htail
  have hlookahead : Mismatches (lookahead (afterGap (char '('))) tail := .lookahead (.afterGap (char_of_ne hcall))
  refine .firstOf_cons ?_ (.firstOf_cons ?_ .firstOf_nil)
  · exact .bind_of_ok hread (.bind_of_ok hname hlookahead.bind)
  · exact (NamesNoCall.written htype hrest.endsType (hrest.head_ne (by decide))).signature

end FunctionDecl

/-! ### Specifiers and export macros -/

/-- The words that a function may begin with in front of its type. -/
def FunctionSpecifier.words : List String :=
  ["virtual", "static", "inline", "explicit", "constexpr", "consteval", "friend", "extern"]

theorem specifiers_of_ne (hwords : ∀ word ∈ FunctionSpecifier.words, headWord input ≠ word.toList)
    (hmark : Mismatches attributeMark input) : FunctionSpecifier.listParser input = .ok [] input := by
  have hisWord : ∀ word ∈ FunctionSpecifier.words, IsWord word := by decide
  have hspecifier : Mismatches FunctionSpecifier.parser input := by
    refine (Mismatches.firstOf fun p hp => ?_).map
    rcases List.mem_append.1 hp with hp | hp
    · obtain ⟨word, hword, rfl⟩ := List.mem_map.1 hp
      have hmem : word ∈ FunctionSpecifier.words := List.mem_append_left ["extern"] hword
      exact keyword_of_ne (hisWord word hmem) (hwords word hmem)
    · obtain rfl := List.mem_singleton.1 hp
      exact .bind (keyword_of_ne (by decide) (hwords "extern" (by decide)))
  have hitem : Mismatches (firstOf [some <$> FunctionSpecifier.parser, (fun _ => none) <$> attributeMark]) input := by
    refine .firstOf_cons ?_ (.firstOf_cons ?_ .firstOf_nil)
    · exact hspecifier.map
    · exact hmark.map
  rw [FunctionSpecifier.listParser, bind_of_ok (many_of_mismatch (.beforeGap hitem))]
  rfl

theorem specifiers_of_uncalled (hwords : ∀ word ∈ reservedWords, word ≠ "const" → headWord input ≠ word.toList)
    (hbracket : input.head? ≠ some '[') (hinput : Uncalled input) :
    FunctionSpecifier.listParser input = .ok [] input := by
  have hreserved : ∀ word ∈ FunctionSpecifier.words, word ∈ reservedWords ∧ word ≠ "const" := by decide
  refine specifiers_of_ne (fun word hword => ?_) (attributeMark_of_uncalled hbracket hinput)
  exact hwords word (hreserved word hword).1 (hreserved word hword).2

theorem specifiers_of_front {depth : Nat} (hrest : EndsWord rest) (hfront : Front depth rest input)
    (hinput : StartsMember input) : FunctionSpecifier.listParser input = .ok [] input :=
  specifiers_of_uncalled (fun _ hword hconst => hfront.word_ne hrest hword hconst) (hinput.symbol '[' (by decide))
    hinput.uncalled

theorem specifiers_symbol {c : Char} (hc : c ∈ [':', '<', '*', '&', '.']) (tail : Text) :
    FunctionSpecifier.listParser (c :: tail) = .ok [] (c :: tail) := by
  have hsymbols : ∀ c ∈ [':', '<', '*', '&', '.'], c ≠ '[' ∧ isWordChar c = false := by decide
  have hreserved : ∀ word ∈ reservedWords, [] ≠ word.toList := by decide
  obtain ⟨hbracket, hword⟩ := hsymbols c hc
  have hends : EndsWord (c :: tail) := endsWord_cons hword tail
  refine specifiers_of_uncalled (fun word hword _ => ?_) (head?_cons_ne hbracket tail)
    (uncalled_of_endsWord hends)
  rw [headWord_of_endsWord hends]
  exact hreserved word hword

/-- A name without a parenthesis or another name behind it is no function, and not the result of one either. -/
theorem signature_of_plainName (hroom : 0 < room) (hname : isPlainName name = true) (htail : EndsType tail)
    (hcall : (gapEnd tail).head? ≠ some '(') (hnext : Mismatches (FunctionDecl.nameParser room) (gapEnd tail)) :
    Mismatches (FunctionDecl.signature room) (name ++ tail) := by
  have htype : Written (.path [name]) := .named (.path hname)
  have hread : cType room (name ++ tail) = .ok (.path [name]) tail := by
    have hread := cType_append htype (by rw [listDepth]; exact hroom) htail
    rw [render, Text.join] at hread
    exact hread
  refine .firstOf_cons ?_ (.firstOf_cons ?_ .firstOf_nil)
  · exact .bind_of_ok hread (.bind (.afterGap hnext))
  · have hcalls : FunctionDecl.NamesNoCall room (render (.path [name]) ++ tail) := .written htype htail hcall
    rw [render, Text.join] at hcalls
    exact hcalls.signature

theorem signature_of_name (hroom : 0 < room) (hrest : Declares rest name tail)
    (htail : EndsType tail) (hsemicolon : (gapEnd tail).head? = some ';') :
    Mismatches (FunctionDecl.signature room) (name ++ tail) := by
  refine signature_of_plainName hroom hrest.isPlainName htail ?_ ?_
  · rw [hsemicolon]
    decide
  · obtain ⟨more, hmore⟩ := List.head?_eq_some_iff.1 hsemicolon
    rw [hmore]
    exact FunctionDecl.nameParser_symbol (by decide) more

/-- A signature behind an export macro. -/
def FunctionDecl.exportedSignature (room : Nat) :
    Parser (Option Text × List FunctionSpecifier × FunctionDecl.Signature) := do
  let api ← beforeGap macroName
  let trailing ← FunctionSpecifier.listParser
  let signature ← FunctionDecl.signature room
  pure (some api, trailing, signature)

/-- What stands behind a word matters only if the word is taken for a macro. -/
theorem FunctionDecl.exportedSignature_of_word {word : Text} (hword : isPlainName word = true) (hrest : EndsWord rest)
    (hbehind : isMacroName word = true → FunctionSpecifier.listParser (gapEnd rest) = .ok [] (gapEnd rest) ∧
      Mismatches (signature room) (gapEnd rest)) : Mismatches (exportedSignature room) (word ++ rest) := by
  have hidentifier := isIdentifier_of_isPlainName hword
  cases hname : isMacroName word with
  | false => exact .bind (.beforeGap (.filter_of_ok (identifier_append hidentifier hrest) hname))
  | true =>
    obtain ⟨hleading, hsignature⟩ := hbehind hname
    have hread := beforeGap_of_ok (macroName_append hidentifier hname hrest)
    exact .bind_of_ok hread (.bind_of_ok hleading hsignature.bind)

/-- No declaration begins behind the first word of a type, if that is taken for an export macro. -/
theorem exportedSignature_of_declares {depth : Nat} (hdepth : depth < room) (hrest : Declares rest name tail)
    (htail : EndsType tail) (hsemicolon : (gapEnd tail).head? = some ';') (hfront : Front depth rest input) :
    Mismatches (FunctionDecl.exportedSignature room) input := by
  cases hfront with
  | const tail =>
    have hends : EndsWord (' ' :: tail) := endsWord_cons (by decide) tail
    exact .bind (.beforeGap (.filter_of_ok (identifier_append (by decide) hends) (by decide)))
  | colons tail => exact .bind (.beforeGap (identifier_of_endsWord (endsWord_cons (by decide) _)).filter)
  | word hword =>
    refine FunctionDecl.exportedSignature_of_word hword hrest.endsType.word fun _ => ?_
    rw [hrest.gapEnd]
    refine ⟨specifiers_of_uncalled (fun word hword _ => hrest.startsName.ne hword) ?_ ?_,
      signature_of_name (by omega) hrest htail hsemicolon⟩
    · rw [← hrest.gapEnd]
      exact hrest.head_ne (by decide)
    · intro word _ _
      rw [dropWhile_append hrest.isPlainName hrest.tail, hsemicolon]
      decide
  | @path word tail type hword htype hdepth_eq hpath =>
    have hcolons : render type ++ rest = ':' :: (':' :: tail ++ rest) := by
      rw [hpath]
      rfl
    have hsignature := FunctionDecl.signature_of_declares htype (hdepth_eq ▸ hdepth) hrest htail.toEndsNamed
      (by rw [hsemicolon]; decide)
    rw [hcolons] at hsignature ⊢
    refine FunctionDecl.exportedSignature_of_word hword (endsWord_cons (by decide) _) fun _ => ?_
    rw [gapEnd_symbol (by decide)]
    exact ⟨specifiers_symbol (by decide) _, hsignature⟩
  | @mark word c hword hc tail =>
    have hmarks : ∀ c ∈ ['<', '*', '&', '.'], c ∈ [':', '<', '*', '&', '.'] ∧ c ∈ [':', '<', '*', '&', '.', ';'] ∧
        isWordChar c = false ∧ isWordStart c = false ∧ c ≠ ':' := by decide
    obtain ⟨hsymbol, hsemicolon, hends, hstart, hcolon⟩ := hmarks c hc
    refine FunctionDecl.exportedSignature_of_word hword (endsWord_cons hends tail) fun _ => ?_
    rw [gapEnd_symbol hsymbol]
    refine ⟨specifiers_symbol hsymbol tail, .firstOf_cons ?_ (.firstOf_cons ?_ .firstOf_nil)⟩
    · exact .bind (startsNoType_cons hstart hcolon tail).qualified
    · exact (FunctionDecl.NamesNoCall.symbol hsemicolon tail).signature

theorem function_of_declares {type : CType} (htype : Written type)
    (hdepth : listDepth type < room) (hrest : Declares rest name tail) (htail : EndsType tail)
    (hsemicolon : (gapEnd tail).head? = some ';') : Mismatches (function room) (render type ++ rest) := by
  have hfront := htype.front rest
  have hstarts := startsMember_of_declares hrest (by rw [hsemicolon]; decide) hfront
  have hhead : Mismatches (templateHead room) (render type ++ rest) :=
    templateHead_of_ne (hstarts.words "template" (by decide))
  have hleading := specifiers_of_front hrest.endsType.word hfront hstarts
  refine .bind_of_ok (leadingComment_of_startsToken hstarts.token) (.bind_of_ok (opt_of_mismatch hhead)
    (.bind_of_ok hleading (.bind (.firstOf_cons ?_ (.firstOf_cons ?_ .firstOf_nil)))))
  · have hcall : (gapEnd tail).head? ≠ some '(' := by rw [hsemicolon]; decide
    exact (FunctionDecl.signature_of_declares htype hdepth hrest htail.toEndsNamed hcall).map
  · exact exportedSignature_of_declares hdepth hrest htail hsemicolon hfront

end HeaderOutline
