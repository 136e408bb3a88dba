import HeaderOutline.Proofs.CType.Written
import HeaderOutline.Proofs.Lexeme.WrittenGap
/-!
# Reading rendered names

What may stand behind a name without being taken for more of it, and names in front of that. The arguments of
a name are read by a parser that is known to read lists nested less deep.
-/

namespace HeaderOutline.CType

open HeaderOutline.Parser

variable {room : Nat} {name type : CType} {names : List Text} {args : List CType} {input rest : Text} {word : Text}

/-! ### What may follow -/

/-- What may stand behind a path: no more of the word, of the path, or of a name of several arithmetic words. -/
structure EndsName (rest : Text) : Prop where
  word : EndsWord rest
  path : rest.head? ≠ some ':'
  arithmetic : ∀ word ∈ arithmeticWords, headWord (rest.dropWhile isSpace) ≠ word.toList

/-- What may stand behind a name: no argument list either. -/
structure EndsNamed (rest : Text) : Prop extends EndsName rest where
  list : (gapEnd rest).head? ≠ some '<'

/-- What may stand behind a type: no mark either. -/
structure EndsType (rest : Text) : Prop extends EndsNamed rest where
  mark : ∀ c ∈ ['*', '&', '.'], (gapEnd rest).head? ≠ some c
  qualifier : ∀ word ∈ ["const", "volatile"], headWord (gapEnd rest) ≠ word.toList

theorem startsToken_word (hword : isIdentifier word = true) (rest : Text) : StartsToken (word ++ rest) := by
  cases word with
  | nil => cases hword
  | cons c tail => exact startsToken_of_isWordStart (Bool.and_eq_true_iff.1 hword).1 _

theorem head?_word_ne (hword : isIdentifier word = true) {c : Char} (hc : isWordStart c = false) (rest : Text) :
    (word ++ rest).head? ≠ some c := by
  cases word with
  | nil => cases hword
  | cons d tail =>
    have hd : isWordStart d = true := (Bool.and_eq_true_iff.1 hword).1
    rintro ⟨⟩
    rw [hc] at hd
    cases hd

theorem endsWord_spaces {spaces : Text} (hspaces : IsSpaces spaces) (hspaces_ne : spaces ≠ []) (rest : Text) :
    EndsWord (spaces ++ rest) := hspaces.isGap.endsWord fun hnil => absurd hnil hspaces_ne

theorem endsName_cons {c : Char} (hword : isWordChar c = false) (hspace : isSpace c = false) (hcolon : c ≠ ':')
    (rest : Text) : EndsName (c :: rest) where
  word := endsWord_cons hword rest
  path := head?_cons_ne hcolon rest
  arithmetic := by
    rw [List.dropWhile_cons_of_neg (Bool.eq_false_iff.1 hspace), headWord_of_endsWord (endsWord_cons hword rest)]
    decide

theorem endsNamed_cons {c : Char} (hc : c ∈ ['*', '&', '.']) (rest : Text) :
    EndsNamed (c :: rest) where
  toEndsName := endsName_cons (by revert c; decide) (by revert c; decide) (by revert c; decide) rest
  list := by
    rw [gapEnd_of_startsToken (startsToken_cons (by revert c; decide) (by revert c; decide) rest), List.head?_cons]
    revert c
    decide

theorem endsType_gap {gap : Text} {c : Char} (hgap : IsGap gap) (hc : c ∈ [',', '>', '(', ')', ';', '\x7b']) (rest : Text) :
    EndsType (gap ++ c :: rest) := by
  obtain ⟨hword, hspace, hslash, hcolon, hmarks⟩ : isWordChar c = false ∧ isSpace c = false ∧ c ≠ '/' ∧ c ≠ ':' ∧
      ∀ mark ∈ ['<', '*', '&', '.'], c ≠ mark := by
    revert c
    decide
  have hends : EndsWord (c :: rest) := endsWord_cons hword rest
  have hend : gapEnd (gap ++ c :: rest) = c :: rest := hgap.gapEnd_token (startsToken_cons hspace hslash rest)
  have hbehind : EndsWord ((gap ++ c :: rest).dropWhile isSpace) := by
    refine hgap.endsWord_dropWhile ?_
    rwa [List.dropWhile_cons_of_neg (Bool.eq_false_iff.1 hspace)]
  refine ⟨⟨⟨?_, ?_, ?_⟩, ?_⟩, ?_, ?_⟩
  · exact hgap.endsWord fun _ => hends
  · intro hhead
    obtain ⟨tail, htail⟩ := List.head?_eq_some_iff.1 hhead
    rw [hgap.eq_nil (by decide) (by decide) htail] at hhead
    exact head?_cons_ne hcolon rest hhead
  · rw [headWord_of_endsWord hbehind]
    decide
  · rw [hend]
    exact head?_cons_ne (hmarks '<' (by decide)) rest
  · rw [hend]
    exact fun mark hmark => head?_cons_ne (hmarks mark (List.mem_cons_of_mem '<' hmark)) rest
  · rw [hend, headWord_of_endsWord hends]
    decide

theorem endsType_cons {c : Char} (hc : c ∈ [',', '>', '(', ')', ';', '\x7b']) (rest : Text) : EndsType (c :: rest) :=
  endsType_gap .nil hc rest

theorem endsType_append {spaces : Text} {c : Char} (hspaces : IsSpaces spaces) (hc : c ∈ [',', '>', '(', ')', ';', '\x7b'])
    (rest : Text) : EndsType (spaces ++ c :: rest) := endsType_gap hspaces.isGap hc rest

theorem endsType_nil : EndsType [] where
  word := fun c hc => by cases hc
  path := fun heq => by cases heq
  arithmetic := by decide
  list := by
    rw [gapEnd]
    rintro ⟨⟩
  mark := by
    rw [gapEnd]
    rintro c hc ⟨⟩
  qualifier := by
    rw [gapEnd]
    decide

/-- A word behind white space ends a name, unless it is one more arithmetic word. -/
theorem endsNamed_word {spaces : Text} (hspaces : IsSpaces spaces) (hspaces_ne : spaces ≠ [])
    (hword : isIdentifier word = true) (harithmetic : isArithmeticWord word = false) (hrest : EndsWord rest) :
    EndsNamed (spaces ++ (word ++ rest)) where
  word := endsWord_spaces hspaces hspaces_ne _
  path := by
    obtain ⟨c, spaces, rfl⟩ := List.exists_cons_of_ne_nil hspaces_ne
    rintro ⟨⟩
    exact absurd (hspaces ':' List.mem_cons_self) (by decide)
  arithmetic := by
    rw [dropWhile_isSpace_append hspaces (startsToken_word hword rest),
      headWord_append (isWordChar_of_isIdentifier hword) hrest]
    rintro other hother rfl
    exact Bool.eq_false_iff.1 harithmetic (List.any_eq_true.2 ⟨other, hother, beq_self_eq_true _⟩)
  list := by
    rw [gapEnd_append_token hspaces (startsToken_word hword rest)]
    exact head?_word_ne hword (by decide) rest

/-! ### Paths -/

theorem arithmeticName_append (hword : isArithmeticWord word = true) (hrest : EndsName rest) :
    arithmeticName (word ++ rest) = .ok word rest := by
  obtain ⟨arithmetic, hmem, heq⟩ := List.any_eq_true.1 hword
  obtain rfl := beq_iff_eq.1 heq
  have hfirst := anyKeyword_append (by decide) hmem hrest.word
  have hnext : Mismatches (anyKeyword arithmeticWords) (rest.dropWhile isSpace) :=
    anyKeyword_of_ne (by decide) hrest.arithmetic
  have htail : sepTail spaces1 (anyKeyword arithmeticWords) rest = .ok [] rest := by
    cases rest with
    | nil => exact sepTail_of_mismatch ⟨_, rfl⟩
    | cons c rest =>
      cases hspace : isSpace c with
      | false => exact sepTail_of_mismatch ⟨_, if_neg (Bool.eq_false_iff.1 hspace)⟩
      | true =>
        rw [List.dropWhile_cons_of_pos hspace] at hnext
        exact sepTail_of_item_mismatch (if_pos hspace) hnext
  exact textOf_of_ok (by rw [sepBy1_of_ok hfirst, htail]; rfl)

theorem arithmeticName_of_ne (hinput : ∀ word ∈ arithmeticWords, headWord input ≠ word.toList) :
    Mismatches arithmeticName input := .textOf (.sepBy1 (anyKeyword_of_ne (by decide) hinput))

theorem plainNames_append {first : Text} (hfirst : isPlainName first = true) (hnames : names.all isPlainName = true)
    (hrest : EndsName rest) :
    sepBy1 (literal "::") plainName (Text.join "::".toList (first :: names) ++ rest) = .ok (first :: names) rest := by
  have hplain : ∀ name ∈ first :: names, isPlainName name = true := by
    intro name hname
    cases hname with
    | head => exact hfirst
    | tail _ hname => exact List.all_eq_true.1 hnames name hname
  have hread := sepBy1_flatMap (fun name => name) id (by decide) (fun _ => endsWord_cons (by decide) _)
    (fun _ _ _ _ => literal_append "::" _) (fun name hname _ htail => plainName_append (hplain name hname) htail)
    (literal_of_ne rfl hrest.path) hrest.word
  rw [List.map_id] at hread
  rw [join_cons]
  exact hread

theorem pathNames_append {first : Text} (hfirst : isPlainName first = true) (hnames : names.all isPlainName = true)
    (hrest : EndsName rest) :
    pathNames (Text.join "::".toList (first :: names) ++ rest) = .ok (first :: names) rest := by
  have hnone : opt (literal "::") (Text.join "::".toList (first :: names) ++ rest) =
      .ok none (Text.join "::".toList (first :: names) ++ rest) := by
    refine opt_of_mismatch (literal_of_ne (c := ':') rfl ?_)
    rw [join_cons, List.append_assoc]
    cases first with
    | nil => cases hfirst
    | cons c tail =>
      have hstart := (Bool.and_eq_true_iff.1 (isIdentifier_of_isPlainName hfirst)).1
      rintro ⟨⟩
      exact absurd hstart (by decide)
  rw [pathNames, bind_of_ok hnone, bind_of_ok (plainNames_append hfirst hnames hrest)]
  rfl

theorem pathNames_append_leading {first : Text} (hfirst : isPlainName first = true)
    (hnames : names.all isPlainName = true) (hrest : EndsName rest) :
    pathNames (Text.join "::".toList ([] :: first :: names) ++ rest) = .ok ([] :: first :: names) rest := by
  rw [Text.join, List.nil_append, List.append_assoc, pathNames, bind_of_ok (opt_of_ok (literal_append "::" _)),
    bind_of_ok (plainNames_append hfirst hnames hrest)]
  rfl

theorem decltypeName_of_startsName (hinput : StartsName input) : Mismatches decltypeName input :=
  .textOf (.bind (keyword_of_ne (by decide) (hinput.ne (by decide))))

/-- A path of several names is no name of arithmetic words, since it does not begin with one. -/
theorem baseName_of_path (hinput : StartsName input) (harithmetic : isArithmeticWord (headWord input) = false)
    (hnames : pathNames input = .ok names rest) : baseName input = .ok (.path names) rest := by
  have hne : Mismatches arithmeticName input := arithmeticName_of_ne fun word hword heq =>
    Bool.eq_false_iff.1 harithmetic (List.any_eq_true.2 ⟨word, hword, beq_iff_eq.2 heq.symm⟩)
  rw [baseName, firstOf_of_mismatch (decltypeName_of_startsName hinput).map, firstOf_of_mismatch hne.map]
  exact firstOf_of_ok (map_of_ok hnames)

theorem baseName_append (hnames : isPath names = true) (hrest : EndsName rest) :
    baseName (Text.join "::".toList names ++ rest) = .ok (.path names) rest := by
  have hstarts := startsName_path hnames hrest.word
  rcases isPath_cases hnames with
    ⟨name, rfl, hname⟩ | ⟨next, others, rfl, hothers⟩ | ⟨first, next, others, rfl, hfirst, hfirst_ne, hothers⟩
  · have hword : headWord (name ++ rest) = name :=
      headWord_append (isWordChar_of_isIdentifier (isIdentifier_of_isPlainName hname)) hrest.word
    cases harithmetic : isArithmeticWord name with
    | true =>
      rw [baseName, firstOf_of_mismatch (decltypeName_of_startsName hstarts).map]
      exact firstOf_of_ok (map_of_ok (arithmeticName_append harithmetic hrest))
    | false =>
      exact baseName_of_path hstarts (by rw [Text.join, hword, harithmetic]) (pathNames_append hname rfl hrest)
  · obtain ⟨hnext, hothers⟩ := Bool.and_eq_true_iff.1 hothers
    exact baseName_of_path hstarts rfl (pathNames_append_leading hnext hothers hrest)
  · refine baseName_of_path hstarts ?_ (pathNames_append hfirst hothers hrest)
    have hends : EndsWord ("::".toList ++ (Text.join "::".toList (next :: others) ++ rest)) :=
      endsWord_cons (by decide) _
    rw [Text.join, List.append_assoc, List.append_assoc,
      headWord_append (isWordChar_of_isIdentifier (isIdentifier_of_isPlainName hfirst)) hends]
    exact hfirst_ne

/-! ### Names -/

theorem templateArgs_of_ne (hroom : 0 < room) (hinput : input.head? ≠ some '<') :
    Mismatches (templateArgs room) input := by
  cases room with
  | zero => cases hroom
  | succ room => exact .bind (char_of_ne hinput)

/-- The room is enough for every list of arguments whose own lists fit into what the list leaves of it. -/
def ReadsLists (room : Nat) : Prop := ∀ types, (∀ type ∈ types, Argument type) → deepest types + 1 < room →
  ∀ rest, templateArgs room ('<' :: renderList types ++ '>' :: rest) = .ok types rest

theorem named_of_path {base : CType} (hbase : baseName input = .ok base rest) (hroom : 0 < room)
    (hrest : (gapEnd rest).head? ≠ some '<') : named (templateArgs room) input = .ok base rest := by
  rw [named, recurse_apply, bind_of_ok hbase,
    bind_of_ok (opt_of_mismatch (Mismatches.afterGap (templateArgs_of_ne hroom hrest)))]
  rfl

theorem named_of_generic {base : CType} {mid : Text} (hbase : baseName input = .ok base mid)
    (hargs : templateArgs room (gapEnd mid) = .ok args rest) (hrest : rest.head? ≠ some ':') :
    named (templateArgs room) input = .ok (.generic base args) rest := by
  have hlist : opt (afterGap (templateArgs room)) mid = .ok (some args) rest := opt_of_ok hargs
  have hinner : Mismatches (literal "::") rest := literal_of_ne rfl hrest
  rw [named, recurse_apply, bind_of_ok hbase, bind_of_ok hlist]
  exact bind_of_ok (opt_of_mismatch hinner.bind)

theorem named_of_member {base inner : CType} {mid last : Text} (hbase : baseName input = .ok base mid)
    (hargs : templateArgs room (gapEnd mid) = .ok args ("::".toList ++ last)) (hlt : last.length < input.length)
    (hinner : named (templateArgs room) last = .ok inner rest) :
    named (templateArgs room) input = .ok (.member (.generic base args) inner) rest := by
  have hlist : opt (afterGap (templateArgs room)) mid = .ok (some args) ("::".toList ++ last) := opt_of_ok hargs
  rw [named, recurse_apply, bind_of_ok hbase, bind_of_ok hlist]
  exact bind_of_ok (opt_of_ok ((bind_of_ok (literal_append "::" last)).trans ((if_pos hlt).trans hinner)))

/-- The name is read wherever a name may end. -/
def ReadsName (room : Nat) (name : CType) : Prop :=
  ∀ rest, EndsNamed rest → named (templateArgs room) (render name ++ rest) = .ok name rest

/-- The list is read whatever follows it. -/
def ReadsList (room : Nat) (types : List CType) : Prop :=
  ∀ rest, templateArgs room ('<' :: renderList types ++ '>' :: rest) = .ok types rest

theorem endsName_list (input : Text) : EndsName ('<' :: input) := endsName_cons (by decide) (by decide) (by decide) input

theorem gapEnd_list (args : List CType) (rest : Text) :
    gapEnd ('<' :: renderList args ++ '>' :: rest) = '<' :: renderList args ++ '>' :: rest :=
  gapEnd_cons (by decide) (by decide) _

theorem render_generic_append (names : List Text) (args : List CType) (rest : Text) :
    render (.generic (.path names) args) ++ rest =
      Text.join "::".toList names ++ ('<' :: renderList args ++ '>' :: rest) := by
  simp only [render, List.append_assoc, List.cons_append, List.nil_append]

theorem render_member_append (outer inner : CType) (rest : Text) :
    render (.member outer inner) ++ rest = render outer ++ ("::".toList ++ (render inner ++ rest)) := by
  rw [render, List.append_assoc, List.append_assoc]

theorem readsName_path (hnames : isPath names = true) (hroom : 0 < room) : ReadsName room (.path names) := by
  intro rest hrest
  rw [render]
  exact named_of_path (baseName_append hnames hrest.toEndsName) hroom hrest.list

theorem readsName_generic (hnames : isPath names = true) (hargs : ReadsList room args) :
    ReadsName room (.generic (.path names) args) := by
  intro rest hrest
  rw [render_generic_append]
  refine named_of_generic (baseName_append hnames (endsName_list _)) ?_ hrest.path
  rw [gapEnd_list]
  exact hargs rest

theorem readsName_member {inner : CType} (hnames : isPath names = true) (hargs : ReadsList room args)
    (hinner : ReadsName room inner) : ReadsName room (.member (.generic (.path names) args) inner) := by
  intro rest hrest
  rw [render_member_append, render_generic_append]
  refine named_of_member (baseName_append hnames (endsName_list _)) ?_ ?_ (hinner rest hrest)
  · rw [gapEnd_list]
    exact hargs _
  · simp only [List.length_append, List.length_cons]
    omega

theorem readsName_of_listDepth (hreads : ReadsLists room) {name : CType} (hname : Named name) (hdepth : listDepth name < room) :
    ReadsName room name := by
  cases hname with
  | path hnames => exact readsName_path hnames (by omega)
  | generic hnames hargs =>
    rw [listDepth] at hdepth
    exact readsName_generic hnames (hreads _ hargs (by omega))
  | member hnames hargs hinner =>
    rw [listDepth, listDepth] at hdepth
    exact readsName_member hnames (hreads _ hargs (by omega)) (readsName_of_listDepth hreads hinner (by omega))

end HeaderOutline.CType
