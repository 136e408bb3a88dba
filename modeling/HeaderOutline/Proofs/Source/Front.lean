import HeaderOutline.Proofs.CType.RoundTrip
import HeaderOutline.Proofs.Source.Start
import HeaderOutline.Proofs.Source.Tree
/-!
# The front of a type

What the text of a type looks like from the front, up to the end of its first word. Alternatives that look at
no more than this are passed over by every declaration, and an export macro is told apart from a type by it.
-/

namespace HeaderOutline

open HeaderOutline.Parser HeaderOutline.CType

variable {room : Nat} {input rest tail : Text}

/-- The front of a type in front of `rest`, with argument lists nested at most `depth` deep. -/
inductive Front (depth : Nat) (rest : Text) : Text → Prop
  | const (tail : Text) : Front depth rest ("const".toList ++ ' ' :: tail)
  | colons (tail : Text) : Front depth rest (':' :: ':' :: tail)
  /-- The word is the whole type. -/
  | word {word : Text} (hword : isPlainName word = true) : Front depth rest (word ++ rest)
  /-- What follows the first word of a path is a type of its own. -/
  | path {word tail : Text} {type : CType} (hword : isPlainName word = true) (htype : Written type)
      (hdepth : listDepth type = depth) (htail : render type = ':' :: ':' :: tail) :
      Front depth rest (word ++ (render type ++ rest))
  | mark {word : Text} {c : Char} (hword : isPlainName word = true) (hc : c ∈ ['<', '*', '&', '.']) (tail : Text) :
      Front depth rest (word ++ c :: tail)

/-- A name is a path with arguments and members behind it, whatever the path is. -/
theorem front_of_path {depth : Nat} {names : List Text} (named : List Text → CType) {suffix : Text}
    (hnamed : ∀ names, isPath names = true → Written (named names))
    (hrender : ∀ names, render (named names) = Text.join "::".toList names ++ suffix)
    (hdepth : ∀ names, listDepth (named names) = depth) (hsuffix : suffix = [] ∨ ∃ tail, suffix = '<' :: tail)
    (hnames : isPath names = true) (rest : Text) : Front depth rest (render (named names) ++ rest) := by
  rw [hrender names]
  rcases isPath_cases hnames with
    ⟨name, rfl, hname⟩ | ⟨next, others, rfl, -⟩ | ⟨first, next, others, rfl, hfirst, -, hothers⟩
  · rcases hsuffix with rfl | ⟨tail, rfl⟩
    · rw [List.append_nil]
      exact .word hname
    · rw [List.append_assoc]
      exact .mark hname (by decide) _
  · exact .colons _
  · have hpath : render (named ([] :: next :: others)) =
        ':' :: ':' :: (Text.join "::".toList (next :: others) ++ suffix) := by
      rw [hrender]
      rfl
    have hjoin : Text.join "::".toList (first :: next :: others) =
        first ++ Text.join "::".toList ([] :: next :: others) := by
      rw [Text.join, Text.join, List.nil_append, List.append_assoc]
    rw [hjoin, List.append_assoc first, ← hrender, List.append_assoc]
    exact .path hfirst (hnamed _ hothers) (hdepth _) hpath

theorem CType.Named.front {name : CType} (hname : Named name) (rest : Text) :
    Front (listDepth name) rest (render name ++ rest) := by
  cases hname with
  | path hnames =>
    refine front_of_path .path (fun _ hnames => .named (.path hnames)) (fun _ => ?_) (fun _ => ?_)
      (.inl rfl) hnames rest
    · rw [render, List.append_nil]
    · rw [listDepth, listDepth]
  | @generic _ args hnames hargs =>
    refine front_of_path (fun names => .generic (.path names) args) (fun _ hnames => .named (.generic hnames hargs))
      (fun _ => ?_) (fun _ => ?_) (.inr ⟨renderList args ++ ['>'], rfl⟩) hnames rest
    · rw [render, render, List.append_assoc]
      rfl
    · rw [listDepth, listDepth, listDepth, listDepth]
  | @member _ args inner hnames hargs hinner =>
    refine front_of_path (fun names => .member (.generic (.path names) args) inner)
      (fun _ hnames => .named (.member hnames hargs hinner)) (fun _ => ?_) (fun _ => ?_)
      (.inr ⟨renderList args ++ ('>' :: "::".toList) ++ render inner, rfl⟩) hnames rest
    · rw [render, render, render]
      simp
    · simp only [listDepth]

/-- A mark behind a type leaves its front as it is. -/
theorem Front.marked {depth : Nat} {mark tail : Text} {c : Char} (marked : CType → CType) (hmark : mark = c :: tail)
    (hc : c ∈ ['<', '*', '&', '.']) (hmarked : ∀ type, Written type → Written (marked type))
    (hrender : ∀ type, Written type → render (marked type) = render type ++ mark)
    (hdepth : ∀ type, listDepth (marked type) = listDepth type) (hfront : Front depth (mark ++ rest) input) :
    Front depth rest input := by
  cases hfront with
  | const tail => exact .const tail
  | colons tail => exact .colons tail
  | word hword =>
    rw [hmark]
    exact .mark hword hc _
  | @path word tail type hword htype hdepth_eq htail =>
    have hpath : render (marked type) = ':' :: ':' :: (tail ++ mark) := by
      rw [hrender type htype, htail]
      rfl
    rw [← List.append_assoc (render type), ← hrender type htype]
    exact .path hword (hmarked type htype) ((hdepth type).trans hdepth_eq) hpath
  | mark hword hc tail => exact .mark hword hc tail

theorem CType.Written.front {type : CType} (htype : Written type) (rest : Text) :
    Front (listDepth type) rest (render type ++ rest) := by
  cases htype with
  | named hname => exact hname.front rest
  | const hname =>
    rw [render_const_named hname]
    exact .const _
  | pointer htarget =>
    rw [render_pointer htarget, List.append_assoc, listDepth]
    exact (htarget.front _).marked .pointer rfl (by decide) (fun _ => .pointer) (fun _ => render_pointer) fun _ => by
      rw [listDepth]
  | reference htarget =>
    rw [render_reference htarget, List.append_assoc, listDepth]
    exact (htarget.front _).marked .reference rfl (by decide) (fun _ => .reference) (fun _ => render_reference) fun _ => by
      rw [listDepth]
  | pack hpattern =>
    rw [render, List.append_assoc, listDepth]
    refine (hpattern.front _).marked .pack rfl (by decide) (fun _ => .pack) (fun _ _ => ?_) fun _ => ?_
    · rw [render]
      rfl
    · rw [listDepth]
  | constIndirect htarget hindirect =>
    rw [render_const_indirect hindirect, listDepth]
    cases htarget with
    | named hname =>
      rw [hname.isIndirect_eq] at hindirect
      cases hindirect
    | const _ => cases hindirect
    | pack _ => cases hindirect
    | constIndirect _ _ => cases hindirect
    | pointer htarget =>
      rw [render_pointer htarget, List.append_assoc, List.append_assoc, ← List.append_assoc ['*'], listDepth]
      refine (htarget.front _).marked (fun type => .const (.pointer type)) rfl (by decide)
        (fun _ htype => .constIndirect (.pointer htype) rfl) (fun _ htype => ?_) fun _ => ?_
      · rw [render_const_indirect rfl, render_pointer htype, List.append_assoc]
        rfl
      · rw [listDepth, listDepth]
    | reference htarget =>
      rw [render_reference htarget, List.append_assoc, List.append_assoc, ← List.append_assoc ['&'], listDepth]
      refine (htarget.front _).marked (fun type => .const (.reference type)) rfl (by decide)
        (fun _ htype => .constIndirect (.reference htype) rfl) (fun _ htype => ?_) fun _ => ?_
      · rw [render_const_indirect rfl, render_reference htype, List.append_assoc]
        rfl
      · rw [listDepth, listDepth]

/-! ### What a front starts -/

theorem dropWhile_append {word : Text} (hword : isPlainName word = true) (hrest : EndsWord rest) :
    (word ++ rest).dropWhile isWordChar = rest := by
  have hchars := isWordChar_of_isIdentifier (isIdentifier_of_isPlainName hword)
  rw [List.dropWhile_append_of_pos hchars, dropWhile_of_endsWord hrest]

/-- The first character of a type. -/
theorem Front.head {depth : Nat} (hfront : Front depth rest input) :
    ∃ c tail, input = c :: tail ∧ (isWordStart c = true ∨ c = ':') := by
  have hword {word : Text} (hword : isPlainName word = true) (tail : Text) :
      ∃ c more, word ++ tail = c :: more ∧ (isWordStart c = true ∨ c = ':') := by
    cases word with
    | nil => cases hword
    | cons c word => exact ⟨c, _, rfl, .inl (Bool.and_eq_true_iff.1 (isIdentifier_of_isPlainName hword)).1⟩
  cases hfront with
  | const tail => exact ⟨'c', _, rfl, .inl (by decide)⟩
  | colons tail => exact ⟨':', _, rfl, .inr rfl⟩
  | word hplain => exact hword hplain _
  | path hplain _ _ _ => exact hword hplain _
  | mark hplain _ _ => exact hword hplain _

theorem Front.startsToken {depth : Nat} (hfront : Front depth rest input) : StartsToken input := by
  obtain ⟨c, tail, rfl, hc⟩ := hfront.head
  rcases hc with hc | rfl
  · exact startsToken_of_isWordStart hc tail
  · exact startsToken_cons (by decide) (by decide) tail

theorem Front.head_ne {depth : Nat} (hfront : Front depth rest input) {c : Char} (hword : isWordStart c = false)
    (hcolon : c ≠ ':') : input.head? ≠ some c := by
  obtain ⟨d, tail, rfl, hd⟩ := hfront.head
  rintro ⟨⟩
  rcases hd with hd | rfl
  · rw [hword] at hd
    cases hd
  · exact hcolon rfl

/-- The first word of a type, and what stands behind it. -/
theorem Front.firstWord {depth : Nat} (hrest : EndsWord rest) (hfront : Front depth rest input) :
    headWord input = "const".toList ∨ (isReserved (headWord input) = false ∧
      (input.dropWhile isWordChar = rest ∨ (∃ tail, input.dropWhile isWordChar = ':' :: ':' :: tail) ∨
        ∃ c ∈ ['<', '*', '&', '.'], ∃ tail, input.dropWhile isWordChar = c :: tail)) := by
  have hword {word tail : Text} (hword : isPlainName word = true) (htail : EndsWord tail) :
      isReserved (headWord (word ++ tail)) = false := (startsName_append hword htail).word
  cases hfront with
  | const tail => exact .inl (headWord_append (by decide) (endsWord_cons (by decide) tail))
  | colons tail => exact .inr ⟨rfl, .inr (.inl ⟨tail, rfl⟩)⟩
  | word hplain => exact .inr ⟨hword hplain hrest, .inl (dropWhile_append hplain hrest)⟩
  | @path word tail type hplain _ _ htail =>
    rw [htail]
    have hends : EndsWord (':' :: ':' :: tail ++ rest) := endsWord_cons (by decide) _
    exact .inr ⟨hword hplain hends, .inr (.inl ⟨_, dropWhile_append hplain hends⟩)⟩
  | @mark word c hplain hc tail =>
    have hmarks : ∀ c ∈ ['<', '*', '&', '.'], isWordChar c = false := by decide
    have hends : EndsWord (c :: tail) := endsWord_cons (hmarks c hc) tail
    exact .inr ⟨hword hplain hends, .inr (.inr ⟨_, hc, tail, dropWhile_append hplain hends⟩)⟩

theorem Front.word_ne {depth : Nat} (hrest : EndsWord rest) (hfront : Front depth rest input) {word : String}
    (hreserved : word ∈ reservedWords) (hconst : word ≠ "const") : headWord input ≠ word.toList := by
  intro heq
  rcases hfront.firstWord hrest with hhead | ⟨hhead, -⟩
  · exact hconst (String.toList_inj.1 (heq.symm.trans hhead))
  · rw [heq] at hhead
    exact Bool.eq_false_iff.1 hhead (List.any_eq_true.2 ⟨word, hreserved, beq_self_eq_true _⟩)

theorem Front.behind {depth : Nat} (hrest : EndsWord rest) (hfront : Front depth rest input) {word : String}
    (hinput : headWord input = word.toList) (hconst : word ≠ "const") :
    input.dropWhile isWordChar = rest ∨ (∃ tail, input.dropWhile isWordChar = ':' :: ':' :: tail) ∨
      ∃ c ∈ ['<', '*', '&', '.'], ∃ tail, input.dropWhile isWordChar = c :: tail := by
  rcases hfront.firstWord hrest with hhead | ⟨-, hbehind⟩
  · exact absurd (String.toList_inj.1 (hinput.symm.trans hhead)) hconst
  · exact hbehind

/-! ### Names behind a type -/

/-- White space, a name, and what cannot be more of the name. -/
structure Declares (rest name tail : Text) : Prop where
  apart : ∃ spaces, IsSpaces spaces ∧ spaces ≠ [] ∧ rest = spaces ++ (name ++ tail)
  declarable : isDeclarable name = true
  tail : EndsWord tail

theorem isPlainName_of_isDeclarable {name : Text} (hname : isDeclarable name = true) : isPlainName name = true :=
  (Bool.and_eq_true_iff.1 hname).1

namespace Declares

variable {name : Text} (hrest : Declares rest name tail)

include hrest

theorem isPlainName : isPlainName name = true := isPlainName_of_isDeclarable hrest.declarable

theorem isIdentifier : isIdentifier name = true := isIdentifier_of_isPlainName hrest.isPlainName

theorem gapEnd : gapEnd rest = name ++ tail := by
  obtain ⟨spaces, hspaces, -, rfl⟩ := hrest.apart
  exact gapEnd_append_token hspaces (startsToken_word hrest.isIdentifier tail)

theorem startsName : StartsName (name ++ tail) := startsName_append hrest.isPlainName hrest.tail

theorem headWord : headWord (name ++ tail) = name :=
  headWord_append (isWordChar_of_isIdentifier hrest.isIdentifier) hrest.tail

theorem head_ne {c : Char} (hc : isWordStart c = false) : (HeaderOutline.gapEnd rest).head? ≠ some c := by
  rw [hrest.gapEnd]
  exact head?_word_ne hrest.isIdentifier hc tail

theorem endsType : EndsType rest where
  toEndsNamed := by
    obtain ⟨spaces, hspaces, hspaces_ne, rfl⟩ := hrest.apart
    have harithmetic : isArithmeticWord name = false :=
      (Bool.not_eq_true' _).mp (Bool.and_eq_true_iff.1 hrest.declarable).2
    exact endsNamed_word hspaces hspaces_ne hrest.isIdentifier harithmetic hrest.tail
  mark := by
    have hmarks : ∀ c ∈ ['*', '&', '.'], isWordStart c = false := by decide
    exact fun c hc => hrest.head_ne (hmarks c hc)
  qualifier := by
    have hreserved : ∀ word ∈ ["const", "volatile"], word ∈ reservedWords := by decide
    intro word hword
    rw [hrest.gapEnd]
    exact hrest.startsName.ne (hreserved word hword)

end Declares

theorem Layout.declares (layout : Layout) {name : Text} (hname : isDeclarable name = true) (htail : EndsWord tail) :
    Declares (layout.blank ++ (name ++ tail)) name tail :=
  ⟨⟨layout.blank, layout.isSpaces_blank, layout.blank_ne, rfl⟩, hname, htail⟩

/-- Neither a list nor a mark nor `::` behind a word is taken for anything but itself. -/
theorem gapEnd_symbol {c : Char} (hc : c ∈ [':', '<', '*', '&', '.']) (tail : Text) : gapEnd (c :: tail) = c :: tail := by
  have hsymbols : ∀ c ∈ [':', '<', '*', '&', '.'], isSpace c = false ∧ c ≠ '/' := by decide
  exact gapEnd_of_startsToken (startsToken_cons (hsymbols c hc).1 (hsymbols c hc).2 tail)

theorem headWord_symbol {c : Char} (hc : c ∈ [':', '<', '*', '&', '.']) (tail : Text) : headWord (c :: tail) = [] := by
  have hsymbols : ∀ c ∈ [':', '<', '*', '&', '.'], isWordChar c = false := by decide
  exact headWord_of_endsWord (endsWord_cons (hsymbols c hc) tail)

theorem gapEnd_marks_ne {marks : List Suffix} {c : Char} (hword : isWordStart c = false) (hc : c ∉ [':', '<', '*', '&', '.'])
    (hrest : (gapEnd rest).head? ≠ some c) : (gapEnd (marks.flatMap Suffix.text ++ rest)).head? ≠ some c := by
  cases marks with
  | nil => exact hrest
  | cons mark marks =>
    rw [List.flatMap_cons, List.append_assoc]
    have hqualifier {d : Char} (hd : isWordStart d = true) (tail : Text) : (gapEnd (' ' :: d :: tail)).head? ≠ some c := by
      have htoken : StartsToken (d :: tail) := startsToken_of_isWordStart hd tail
      have hgap : gapEnd (' ' :: d :: tail) = d :: tail := gapEnd_append_token isSpaces_one htoken
      rw [hgap]
      rintro ⟨⟩
      rw [hword] at hd
      cases hd
    have hmark {d : Char} (hd : d ∈ [':', '<', '*', '&', '.']) (tail : Text) : (gapEnd (d :: tail)).head? ≠ some c := by
      rw [gapEnd_symbol hd]
      rintro ⟨⟩
      exact hc hd
    cases mark with
    | pointer => exact hmark (by decide) _
    | reference => exact hmark (by decide) _
    | pack => exact hmark (by decide) _
    | const => exact hqualifier (by decide) _
    | volatile => exact hqualifier (by decide) _

/-- Behind the first word of a type stands what follows the type, or a symbol that makes more of it. -/
theorem Front.behind_ne {depth : Nat} (hfront : Front depth rest input) (hrest : EndsWord rest)
    {word : String} (hinput : headWord input = word.toList) (hconst : word ≠ "const") {c : Char}
    (hc : c ∉ [':', '<', '*', '&', '.']) (hrest_ne : (gapEnd rest).head? ≠ some c) :
    (gapEnd (input.dropWhile isWordChar)).head? ≠ some c := by
  rcases hfront.behind hrest hinput hconst with hbehind | ⟨tail, hbehind⟩ | ⟨d, hd, tail, hbehind⟩
  · rwa [hbehind]
  · have hcolon : ':' ≠ c := fun heq => hc (heq ▸ List.mem_cons_self)
    rw [hbehind, gapEnd_symbol (by decide)]
    exact head?_cons_ne hcolon _
  · have hsymbol : d ∈ [':', '<', '*', '&', '.'] := List.mem_cons_of_mem ':' hd
    have hne : d ≠ c := fun heq => hc (heq ▸ hsymbol)
    rw [hbehind, gapEnd_symbol hsymbol]
    exact head?_cons_ne hne tail

/-- What stands behind the words of an access label. -/
theorem label_of_declares {name label : Text} {access : Access} (hrest : Declares rest name tail)
    (htail : (gapEnd tail).head? ≠ some ':')
    (hlabel : label = rest ∨ (∃ tail, label = ':' :: ':' :: tail) ∨ ∃ c ∈ ['<', '*', '&', '.'], ∃ tail, label = c :: tail) :
    Mismatches (do
      let _ ← opt (afterGap (anyKeyword ["slots", "Q_SLOTS"]))
      let _ ← afterGap (char ':')
      let _ ← notFollowedBy (char ':')
      pure access) label := by
  have hslots {c : Char} (hc : c ∈ [':', '<', '*', '&', '.']) (tail : Text) :
      opt (afterGap (anyKeyword ["slots", "Q_SLOTS"])) (c :: tail) = .ok none (c :: tail) := by
    refine opt_of_mismatch (.afterGap (anyKeyword_of_ne (by decide) ?_))
    rw [gapEnd_symbol hc, headWord_symbol hc]
    decide
  rcases hlabel with rfl | ⟨tail, rfl⟩ | ⟨c, hc, tail, rfl⟩
  · by_cases hname : ∃ word ∈ ["slots", "Q_SLOTS"], name = word.toList
    · obtain ⟨word, hword, rfl⟩ := hname
      have hread : afterGap (anyKeyword ["slots", "Q_SLOTS"]) label = .ok word.toList tail := by
        rw [afterGap_apply, hrest.gapEnd]
        exact anyKeyword_append (by decide) hword hrest.tail
      exact .bind_of_ok (opt_of_ok hread) (.bind (.afterGap (char_of_ne htail)))
    · have hnone : Mismatches (afterGap (anyKeyword ["slots", "Q_SLOTS"])) label := by
        refine .afterGap (anyKeyword_of_ne (by decide) fun word hword heq => hname ⟨word, hword, ?_⟩)
        rw [hrest.gapEnd, hrest.headWord] at heq
        exact heq
      exact .bind_of_ok (opt_of_mismatch hnone) (.bind (.afterGap (char_of_ne (hrest.head_ne (by decide)))))
  · have hcolon : afterGap (char ':') (':' :: ':' :: tail) = .ok ':' (':' :: tail) :=
      afterGap_char (gapEnd_symbol (by decide) _)
    exact .bind_of_ok (hslots (by decide) _) (.bind_of_ok hcolon (.bind (.notFollowedBy (char_cons ':' tail))))
  · have hmarks : ∀ c ∈ ['<', '*', '&', '.'], c ∈ [':', '<', '*', '&', '.'] ∧ c ≠ ':' := by decide
    obtain ⟨hsymbol, hcolon⟩ := hmarks c hc
    refine .bind_of_ok (hslots hsymbol tail) (.bind (.afterGap (char_of_ne ?_)))
    rw [gapEnd_symbol hsymbol]
    exact head?_cons_ne hcolon tail

/-- A type is an access label only if it is a word that is none of the language, with a colon behind it. -/
theorem accessLabel_of_front {depth : Nat} (hrest : EndsWord rest) (hfront : Front depth rest input)
    (hlabel : ∀ word ∈ ["signals", "Q_SIGNALS"], headWord input = word.toList → Mismatches (do
      let _ ← opt (afterGap (anyKeyword ["slots", "Q_SLOTS"]))
      let _ ← afterGap (char ':')
      let _ ← notFollowedBy (char ':')
      pure Access.isPublic) (input.dropWhile isWordChar)) : Mismatches accessLabel input := by
  have hreserved : ∀ word ∈ ["public", "protected", "private"], word ∈ reservedWords ∧ word ≠ "const" := by decide
  have haccess : Mismatches (Access.ofWord <$> anyKeyword ["public", "protected", "private"]) input := by
    refine (anyKeyword_of_ne (by decide) fun word hword => ?_).map
    exact hfront.word_ne hrest (hreserved word hword).1 (hreserved word hword).2
  by_cases hsignals : ∃ word ∈ ["signals", "Q_SIGNALS"], headWord input = word.toList
  · obtain ⟨word, hword, heq⟩ := hsignals
    have hread : firstOf
        [Access.ofWord <$> anyKeyword ["public", "protected", "private"],
         (fun _ => .isPublic) <$> anyKeyword ["signals", "Q_SIGNALS"]] input =
          .ok .isPublic (input.dropWhile isWordChar) :=
      (firstOf_of_mismatch haccess).trans (firstOf_of_ok (map_of_ok (anyKeyword_of_eq (by decide) hword heq)))
    exact .bind_of_ok hread (hlabel word hword heq)
  · have hnone : Mismatches (anyKeyword ["signals", "Q_SIGNALS"]) input :=
      anyKeyword_of_ne (by decide) fun word hword heq => hsignals ⟨word, hword, heq⟩
    refine .bind (.firstOf_cons ?_ (.firstOf_cons ?_ .firstOf_nil))
    · exact haccess
    · exact hnone.map

theorem accessLabel_of_declares {depth : Nat} {name : Text} (hrest : Declares rest name tail)
    (htail : (gapEnd tail).head? ≠ some ':') (hfront : Front depth rest input) : Mismatches accessLabel input := by
  have hconst : ∀ word ∈ ["signals", "Q_SIGNALS"], word ≠ "const" := by decide
  refine accessLabel_of_front hrest.endsType.word hfront fun word hword heq => ?_
  exact label_of_declares hrest htail (hfront.behind hrest.endsType.word heq (hconst word hword))

theorem Front.uncalled {depth : Nat} (hfront : Front depth rest input) (hrest : EndsWord rest)
    (hcall : (gapEnd rest).head? ≠ some '(') : Uncalled input := by
  have hcalls : ∀ word ∈ callWords, word ≠ "const" := by decide
  exact fun word hword heq => hfront.behind_ne hrest heq (hcalls word hword) (by decide) hcall

/-- A declaration by a type and a name starts like no item of another kind. -/
theorem startsMember_of_declares {depth : Nat} {name : Text} (hrest : Declares rest name tail)
    (htail : (gapEnd tail).head? ≠ some ':') (hfront : Front depth rest input) : StartsMember input where
  token := hfront.startsToken
  symbol := by
    have hsymbols : ∀ c ∈ [';', '#', '['], isWordStart c = false ∧ c ≠ ':' := by decide
    exact fun c hc => hfront.head_ne (hsymbols c hc).1 (hsymbols c hc).2
  words := by
    have hwords : ∀ word ∈ ["namespace", "inline", "extern", "template", "typedef", "using", "enum", "friend"],
        word ∈ reservedWords ∧ word ≠ "const" := by decide
    exact fun word hword => hfront.word_ne hrest.endsType.word (hwords word hword).1 (hwords word hword).2
  uncalled := hfront.uncalled hrest.endsType.word (hrest.head_ne (by decide))
  label := accessLabel_of_declares hrest htail hfront

end HeaderOutline
