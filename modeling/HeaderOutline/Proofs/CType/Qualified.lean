import HeaderOutline.Proofs.CType.Name
/-!
# Reading rendered types

A type is a name with `const` in front and marks behind. No type is read where neither a word nor `::` stands.
-/

namespace HeaderOutline.CType

open HeaderOutline.Parser

variable {room : Nat} {name type : CType} {names : List Text} {args : List CType} {input rest : Text} {word : Text}

/-! ### Marks -/

theorem Suffix.parser_of_word (hmark : ∀ c ∈ ['*', '&', '.'], input.head? ≠ some c) : Suffix.parser input =
    firstOf [(fun _ => .const) <$> keyword "const", (fun _ => .volatile) <$> keyword "volatile"] input := by
  have hpointer : Mismatches (literal "*") input := literal_of_ne rfl (hmark '*' (by decide))
  have hreference : Mismatches (literal "&") input := literal_of_ne rfl (hmark '&' (by decide))
  have hpack : Mismatches (literal "...") input := literal_of_ne rfl (hmark '.' (by decide))
  rw [Suffix.parser, firstOf_of_mismatch hpointer.map, firstOf_of_mismatch hreference.map,
    firstOf_of_mismatch hpack.map]

theorem Suffix.parser_of_ne (hmark : ∀ c ∈ ['*', '&', '.'], input.head? ≠ some c)
    (hqualifier : ∀ word ∈ ["const", "volatile"], headWord input ≠ word.toList) : Mismatches Suffix.parser input := by
  rw [Mismatches, Suffix.parser_of_word hmark]
  refine Mismatches.firstOf_cons ?_ (.firstOf_cons ?_ .firstOf_nil)
  · exact (keyword_of_ne (by decide) (hqualifier "const" (by decide))).map
  · exact (keyword_of_ne (by decide) (hqualifier "volatile" (by decide))).map

theorem gapEnd_space {c : Char} (hspace : isSpace c = false) (hslash : c ≠ '/') (text : Text) :
    gapEnd (' ' :: c :: text) = c :: text :=
  gapEnd_append_token isSpaces_one (startsToken_cons hspace hslash text)

theorem mark_append (mark : Suffix) (hrest : EndsWord rest) :
    afterGap Suffix.parser (mark.text ++ rest) = .ok mark rest := by
  have htoken {c : Char} (hspace : isSpace c = false) (hslash : c ≠ '/') (text : Text) :
      gapEnd (c :: text) = c :: text := gapEnd_cons hspace hslash text
  rw [afterGap_apply]
  cases mark with
  | pointer =>
    have hgap : gapEnd (Suffix.text .pointer ++ rest) = ['*'] ++ rest := htoken (by decide) (by decide) rest
    rw [hgap, Suffix.parser]
    exact firstOf_of_ok (map_of_ok (literal_of_toList rfl rest))
  | reference =>
    have hgap : gapEnd (Suffix.text .reference ++ rest) = ['&'] ++ rest := htoken (by decide) (by decide) rest
    have hpointer : Mismatches (literal "*") (['&'] ++ rest) := literal_of_ne rfl (head?_cons_ne (by decide) rest)
    rw [hgap, Suffix.parser, firstOf_of_mismatch hpointer.map]
    exact firstOf_of_ok (map_of_ok (literal_of_toList rfl rest))
  | pack =>
    have hgap : gapEnd (Suffix.text .pack ++ rest) = ['.', '.', '.'] ++ rest := htoken (by decide) (by decide) _
    have hpointer : Mismatches (literal "*") (['.', '.', '.'] ++ rest) := literal_of_ne rfl (head?_cons_ne (by decide) _)
    have hreference : Mismatches (literal "&") (['.', '.', '.'] ++ rest) := literal_of_ne rfl (head?_cons_ne (by decide) _)
    rw [hgap, Suffix.parser, firstOf_of_mismatch hpointer.map, firstOf_of_mismatch hreference.map]
    exact firstOf_of_ok (map_of_ok (literal_of_toList rfl rest))
  | const =>
    have hgap : gapEnd (Suffix.text .const ++ rest) = "const".toList ++ rest :=
      gapEnd_space (by decide) (by decide) _
    have hmark : ∀ c ∈ ['*', '&', '.'], ("const".toList ++ rest).head? ≠ some c := by
      intro c hc
      rw [show ("const".toList ++ rest).head? = some 'c' from rfl]
      revert c
      decide
    rw [hgap, Suffix.parser_of_word hmark]
    exact firstOf_of_ok (map_of_ok (keyword_append "const" hrest))
  | volatile =>
    have hgap : gapEnd (Suffix.text .volatile ++ rest) = "volatile".toList ++ rest :=
      gapEnd_space (by decide) (by decide) _
    have hmark : ∀ c ∈ ['*', '&', '.'], ("volatile".toList ++ rest).head? ≠ some c := by
      intro c hc
      rw [show ("volatile".toList ++ rest).head? = some 'v' from rfl]
      revert c
      decide
    have hconst : Mismatches (keyword "const") ("volatile".toList ++ rest) := by
      refine keyword_of_ne (by decide) ?_
      rw [headWord_append (by decide) hrest]
      decide
    rw [hgap, Suffix.parser_of_word hmark, firstOf_of_mismatch hconst.map]
    exact firstOf_of_ok (map_of_ok (keyword_append "volatile" hrest))

theorem endsWord_marks {marks : List Suffix} (hrest : EndsWord rest) :
    EndsWord (marks.flatMap Suffix.text ++ rest) := by
  cases marks with
  | nil => exact hrest
  | cons mark marks => cases mark <;> exact endsWord_cons (by decide) _

theorem marks_append (marks : List Suffix) (hrest : EndsType rest) :
    many (afterGap Suffix.parser) (marks.flatMap Suffix.text ++ rest) = .ok marks rest := by
  induction marks with
  | nil => exact many_of_mismatch (Suffix.parser_of_ne hrest.mark hrest.qualifier)
  | cons mark marks ih =>
    have hlt : 0 < mark.text.length := by cases mark <;> decide
    rw [List.flatMap_cons, List.append_assoc, many_of_ok (mark_append mark (endsWord_marks hrest.word)), ih]
    · rfl
    · simp only [List.length_append]
      omega

theorem endsNamed_marks {marks : List Suffix} (hrest : EndsType rest) :
    EndsNamed (marks.flatMap Suffix.text ++ rest) := by
  cases marks with
  | nil => exact hrest.toEndsNamed
  | cons mark marks =>
    rw [List.flatMap_cons, List.append_assoc]
    have htail : EndsWord (marks.flatMap Suffix.text ++ rest) := endsWord_marks hrest.word
    cases mark with
    | pointer => exact endsNamed_cons (by decide) _
    | reference => exact endsNamed_cons (by decide) _
    | pack => exact endsNamed_cons (by decide) _
    | const =>
      have hends : EndsNamed ([' '] ++ ("const".toList ++ (marks.flatMap Suffix.text ++ rest))) :=
        endsNamed_word isSpaces_one (List.cons_ne_nil _ _) (by decide) (by decide) htail
      exact hends
    | volatile =>
      have hends : EndsNamed ([' '] ++ ("volatile".toList ++ (marks.flatMap Suffix.text ++ rest))) :=
        endsNamed_word isSpaces_one (List.cons_ne_nil _ _) (by decide) (by decide) htail
      exact hends

/-! ### Types -/

/-- The type is read wherever a type may end. -/
def ReadsType (room : Nat) (type : CType) : Prop :=
  ∀ rest, EndsType rest → qualified (templateArgs room) (render type ++ rest) = .ok type rest

/-- No word for the kind of a name is read where the name begins. -/
theorem opt_kind_of_startsName (hinput : StartsName input) :
    opt (beforeGap (anyKeyword ["typename", "struct", "class", "enum", "union"])) input = .ok none input :=
  opt_of_mismatch (.beforeGap (hinput.anyKeyword (by decide)))

/-- A name and any marks behind it, which may repeat a `const`. -/
theorem unqualified_marks (hname : Named name) (hread : ReadsName room name) (isConst : Bool) (marks : List Suffix)
    (hrest : EndsType rest) : unqualified (templateArgs room) isConst (render name ++ (marks.flatMap Suffix.text ++ rest)) =
      .ok (marks.foldl Suffix.apply (withConst isConst name)) rest := by
  have hends : EndsNamed (marks.flatMap Suffix.text ++ rest) := endsNamed_marks hrest
  rw [unqualified, bind_of_ok (opt_kind_of_startsName (hname.startsName hends.word)), bind_of_ok (hread _ hends), suffixed,
    bind_of_ok (marks_append marks hrest)]
  rfl

theorem unqualified_append (hread : ReadsName room name) {isConst : Bool} {marks : List Suffix}
    (htype : IsMarked type isConst name marks) (hrest : EndsType rest) :
    unqualified (templateArgs room) isConst (render name ++ marks.flatMap Suffix.text ++ rest) = .ok type rest := by
  rw [List.append_assoc, unqualified_marks htype.named hread isConst marks hrest, htype.type_eq]

theorem leadingQualifiers_append (isConst : Bool) (hinput : StartsName input) :
    leadingQualifiers (constText isConst ++ input) = .ok isConst input := by
  have hstop : many (beforeGap (anyKeyword ["const", "volatile"])) input = .ok [] input :=
    many_of_mismatch (.beforeGap (hinput.anyKeyword (by decide)))
  cases isConst with
  | false =>
    rw [leadingQualifiers]
    exact bind_of_ok hstop
  | true =>
    have hends : EndsWord ([' '] ++ input) := endsWord_cons (by decide) input
    have hconst : beforeGap (anyKeyword ["const", "volatile"]) ("const".toList ++ ([' '] ++ input)) =
        .ok "const".toList input := by
      rw [beforeGap_of_ok (anyKeyword_append (by decide) (by decide) hends), gapEnd_append_token isSpaces_one hinput.token]
    have hmany : many (beforeGap (anyKeyword ["const", "volatile"])) ("const".toList ++ ([' '] ++ input)) =
        .ok ["const".toList] input := by
      rw [many_of_ok hconst, hstop]
      · rfl
      · simp only [List.length_append, List.length_singleton]
        omega
    rw [constText, if_pos rfl, List.append_assoc, leadingQualifiers]
    exact bind_of_ok hmany

/-- A type is read behind its leading `const`, which tells how. -/
theorem IsMarked.unqualified {isConst : Bool} {marks : List Suffix} (htype : IsMarked type isConst name marks)
    (hread : ReadsName room name) (hrest : EndsType rest) :
    ∃ input, render type ++ rest = constText (beginsConst type) ++ input ∧ StartsName input ∧
      unqualified (templateArgs room) (beginsConst type) input = .ok type rest := by
  have hends : EndsWord (marks.flatMap Suffix.text ++ rest) := endsWord_marks hrest.word
  refine ⟨render name ++ marks.flatMap Suffix.text ++ rest, ?_, ?_, ?_⟩
  · rw [htype.render_eq, htype.beginsConst_eq, List.append_assoc, List.append_assoc, List.append_assoc]
  · rw [List.append_assoc]
    exact htype.named.startsName hends
  · rw [htype.beginsConst_eq]
    exact unqualified_append hread htype hrest

/-- The leading `const` of a type is read on its own. -/
theorem Written.qualified_eq (htype : Written type) (hrest : EndsWord rest) : ∃ input,
    leadingQualifiers (render type ++ rest) = .ok (beginsConst type) input ∧
      ∀ args, qualified args (render type ++ rest) = CType.unqualified args (beginsConst type) input := by
  obtain ⟨isConst, name, marks, hmarked⟩ := htype.marked
  have hstarts : StartsName (render name ++ (marks.flatMap Suffix.text ++ rest)) :=
    hmarked.named.startsName (endsWord_marks hrest)
  have hread : leadingQualifiers (render type ++ rest) =
      .ok (beginsConst type) (render name ++ (marks.flatMap Suffix.text ++ rest)) := by
    rw [hmarked.render_eq, hmarked.beginsConst_eq, List.append_assoc, List.append_assoc]
    exact leadingQualifiers_append isConst hstarts
  exact ⟨_, hread, fun args => bind_of_ok hread⟩

theorem IsMarked.readsType {isConst : Bool} {marks : List Suffix} (htype : IsMarked type isConst name marks)
    (hread : ReadsName room name) : ReadsType room type := by
  intro rest hrest
  obtain ⟨input, htext, hstarts, hread⟩ := htype.unqualified hread hrest
  rw [htext, qualified, bind_of_ok (leadingQualifiers_append _ hstarts)]
  exact hread

theorem Written.unqualified (hreads : ReadsLists room) (htype : Written type) (hdepth : listDepth type < room)
    (hrest : EndsType rest) : ∃ input, render type ++ rest = constText (beginsConst type) ++ input ∧ StartsName input ∧
      unqualified (templateArgs room) (beginsConst type) input = .ok type rest := by
  obtain ⟨isConst, name, marks, hmarked⟩ := htype.marked
  exact hmarked.unqualified (readsName_of_listDepth hreads hmarked.named (hmarked.listDepth_eq ▸ hdepth)) hrest

theorem readsType_of_listDepth (hreads : ReadsLists room) (htype : Written type) (hdepth : listDepth type < room) :
    ReadsType room type := by
  obtain ⟨isConst, name, marks, hmarked⟩ := htype.marked
  exact hmarked.readsType (readsName_of_listDepth hreads hmarked.named (hmarked.listDepth_eq ▸ hdepth))

theorem Written.startsToken (htype : Written type) (hrest : EndsWord rest) : StartsToken (render type ++ rest) := by
  obtain ⟨isConst, name, marks, hmarked⟩ := htype.marked
  rw [hmarked.render_eq, List.append_assoc, List.append_assoc]
  cases isConst with
  | true => exact startsToken_cons (by decide) (by decide) _
  | false => exact (hmarked.named.startsName (endsWord_marks hrest)).token

/-! ### Where no type begins -/

/-- The words that a type may begin with, names apart. -/
def typeWords : List String :=
  ["const", "volatile", "typename", "struct", "class", "enum", "union", "decltype"] ++ arithmeticWords

section NoType

variable (hcolon : input.head? ≠ some ':') (hwords : ∀ word ∈ typeWords, headWord input ≠ word.toList)
  (hname : Mismatches plainName input)

include hwords

theorem anyKeyword_of_typeWords {words : List String} (hmem : ∀ word ∈ words, IsWord word ∧ word ∈ typeWords) :
    Mismatches (anyKeyword words) input :=
  anyKeyword_of_ne (fun word hword => (hmem word hword).1) fun word hword => hwords word (hmem word hword).2

theorem leadingQualifiers_of_ne : leadingQualifiers input = .ok false input :=
  bind_of_ok (many_of_mismatch (.beforeGap (anyKeyword_of_typeWords hwords (by decide))))

include hcolon hname

theorem named_of_ne : Mismatches (named (templateArgs room)) input := by
  have hpath : Mismatches pathNames input :=
    .bind_of_ok (opt_of_mismatch (literal_of_ne rfl hcolon)) (Mismatches.sepBy1 hname).bind
  have hdecltype : Mismatches decltypeName input :=
    .textOf (.bind (keyword_of_ne (by decide) (hwords "decltype" (by decide))))
  have hbase : Mismatches baseName input := by
    refine .firstOf_cons ?_ (.firstOf_cons ?_ (.firstOf_cons ?_ .firstOf_nil))
    · exact hdecltype.map
    · exact (arithmeticName_of_ne fun word hword => hwords word (List.mem_append_right _ hword)).map
    · exact hpath.map
  rw [Mismatches, CType.named, recurse_apply]
  exact hbase.bind

theorem unqualified_of_ne (isConst : Bool) : Mismatches (unqualified (templateArgs room) isConst) input :=
  .bind_of_ok (opt_of_mismatch (.beforeGap (anyKeyword_of_typeWords hwords (by decide))))
    (named_of_ne hcolon hwords hname).bind

theorem qualified_of_ne : Mismatches (qualified (templateArgs room)) input :=
  .bind_of_ok (leadingQualifiers_of_ne hwords) (unqualified_of_ne hcolon hwords hname false)

end NoType

/-- Neither a word nor `::` comes next, so that no type begins here. -/
def StartsNoType (input : Text) : Prop := ∀ c ∈ input.head?, isWordStart c = false ∧ c ≠ ':'

theorem startsNoType_cons {c : Char} (hword : isWordStart c = false) (hcolon : c ≠ ':') (rest : Text) :
    StartsNoType (c :: rest) := by
  rintro d ⟨⟩
  exact ⟨hword, hcolon⟩

namespace StartsNoType

variable (hinput : StartsNoType input)

include hinput

theorem headWord_ne {word : String} (hword : isIdentifier word.toList = true) : headWord input ≠ word.toList := by
  intro heq
  rw [← heq] at hword
  cases input with
  | nil => cases hword
  | cons c rest =>
    obtain ⟨hc, -⟩ := hinput c rfl
    rw [headWord, List.takeWhile_cons] at hword
    split at hword
    · rw [isIdentifier, hc] at hword
      cases hword
    · cases hword

theorem head_ne : input.head? ≠ some ':' := fun heq => (hinput ':' heq).2 rfl

theorem typeWords_ne : ∀ word ∈ typeWords, headWord input ≠ word.toList := by
  have hwords : ∀ word ∈ typeWords, isIdentifier word.toList = true := by decide
  exact fun word hword => hinput.headWord_ne (hwords word hword)

theorem plainName : Mismatches plainName input := (identifier_of_not_start fun c hc => (hinput c hc).1).filter

theorem leadingQualifiers : leadingQualifiers input = .ok false input := leadingQualifiers_of_ne hinput.typeWords_ne

theorem unqualified (isConst : Bool) : Mismatches (unqualified (templateArgs room) isConst) input :=
  unqualified_of_ne hinput.head_ne hinput.typeWords_ne hinput.plainName isConst

theorem qualified : Mismatches (qualified (templateArgs room)) input :=
  qualified_of_ne hinput.head_ne hinput.typeWords_ne hinput.plainName

end StartsNoType

end HeaderOutline.CType
