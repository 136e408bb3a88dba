import HeaderOutline.Proofs.CType.Levels
/-!
# The bases of a record

A base is a type with specifiers in front of it, and white space and comments may stand around all of them. The bases are
read in order, each with its type and with what its specifiers say, or the levels run out in one of the types.
-/

namespace HeaderOutline

open HeaderOutline.Parser HeaderOutline.CType

variable {room : Nat} {type : CType} {text tail rest : Text}

/-! ### Bases as they are written -/

inductive BaseSpecifier where
  | isVirtual
  | access (access : Access)
  deriving DecidableEq

namespace BaseSpecifier

def word : BaseSpecifier → Text
  | .isVirtual => "virtual".toList
  | .access given => given.word

def access? : BaseSpecifier → Option Access
  | .isVirtual => none
  | .access given => some given

end BaseSpecifier

/-- A type, and the specifiers in front of it. -/
structure WrittenBase where
  specifiers : List BaseSpecifier
  type : CType

/-- The base that is written: under the first access that is given, if any, and virtual if that is said. -/
def WrittenBase.base (written : WrittenBase) (default : Access) : Base where
  type := written.type
  access := (written.specifiers.findSome? BaseSpecifier.access?).getD default
  isVirtual := decide (.isVirtual ∈ written.specifiers)

/-- The text of a base: its specifiers, with a gap behind each, and its type. Only a colon may stand close to a word. -/
inductive BaseForm (type : CType) : List BaseSpecifier → Text → Prop
  | type : BaseForm type [] (render type)
  | specifier {specifier : BaseSpecifier} {specifiers : List BaseSpecifier} {gap text : Text} (hgap : IsGap gap)
    (hclose : gap = [] → text.head? = some ':') (htext : BaseForm type specifiers text) :
    BaseForm type (specifier :: specifiers) (specifier.word ++ (gap ++ text))

/-- The text of the bases: commas between them, and gaps around each. -/
inductive BasesForm : List WrittenBase → Text → Prop
  | last {written : WrittenBase} {front text back : Text} (hfront : IsGap front)
    (htext : BaseForm written.type written.specifiers text) (hback : IsGap back) :
    BasesForm [written] (front ++ (text ++ back))
  | cons {written : WrittenBase} {bases : List WrittenBase} {front text back tail : Text} (hfront : IsGap front)
    (htext : BaseForm written.type written.specifiers text) (hback : IsGap back) (htail : BasesForm bases tail) :
    BasesForm (written :: bases) (front ++ (text ++ (back ++ ',' :: tail)))

/-! ### Specifiers -/

namespace BaseSpecifier

theorem isIdentifier_word (specifier : BaseSpecifier) : isIdentifier specifier.word = true := by
  cases specifier with
  | isVirtual => decide
  | access given => cases given <;> decide

theorem anyKeyword_word (specifier : BaseSpecifier) (hrest : EndsWord rest) :
    anyKeyword ["virtual", "public", "protected", "private"] (specifier.word ++ rest) = .ok specifier.word rest := by
  have hread (word : String) (hword : word ∈ ["virtual", "public", "protected", "private"]) :=
    anyKeyword_append (by decide) hword hrest
  cases specifier with
  | isVirtual => exact hread "virtual" (by decide)
  | access given =>
    cases given with
    | isPublic => exact hread "public" (by decide)
    | isProtected => exact hread "protected" (by decide)
    | isPrivate => exact hread "private" (by decide)

theorem access_words (specifiers : List BaseSpecifier) :
    (specifiers.map word).find? (fun word => !(word == "virtual".toList)) = (specifiers.findSome? access?).map Access.word := by
  induction specifiers with
  | nil => rfl
  | cons specifier specifiers ih =>
    cases specifier with
    | isVirtual => exact ih
    | access given => cases given <;> rfl

theorem isVirtual_words (specifiers : List BaseSpecifier) :
    (specifiers.map word).any (· == "virtual".toList) = decide (.isVirtual ∈ specifiers) := by
  have hvirtual {specifier : BaseSpecifier} (hword : specifier.word = "virtual".toList) : specifier = .isVirtual := by
    cases specifier with
    | isVirtual => rfl
    | access given => cases given <;> exact absurd hword (by decide)
  rw [Bool.eq_iff_iff, List.any_eq_true, decide_eq_true_iff]
  constructor
  · rintro ⟨word, hmem, hword⟩
    obtain ⟨specifier, hspecifier, rfl⟩ := List.mem_map.1 hmem
    rwa [hvirtual (beq_iff_eq.1 hword)] at hspecifier
  · exact fun hmem => ⟨_, List.mem_map_of_mem hmem, beq_self_eq_true _⟩

end BaseSpecifier

/-! ### Single bases -/

namespace CType

variable {names : List Text}

/-- A path that begins with a colon begins with two. -/
theorem head?_of_path_eq (hnames : isPath names = true) (heq : Text.join "::".toList names ++ rest = ':' :: tail) :
    tail.head? = some ':' := by
  have hword {name : Text} (hname : isPlainName name = true) (more : Text) : name ++ more ≠ ':' :: tail := fun heq =>
    absurd (congrArg List.head? heq) (head?_word_ne (isIdentifier_of_isPlainName hname) (by decide) more)
  rcases isPath_cases hnames with ⟨name, rfl, hname⟩ | ⟨next, others, rfl, -⟩ | ⟨first, next, others, rfl, hfirst, -, -⟩
  · exact absurd heq (hword hname _)
  · obtain ⟨-, rfl⟩ := List.cons_eq_cons.1 heq
    rfl
  · rw [join_cons, List.append_assoc] at heq
    exact absurd heq (hword hfirst _)

theorem Named.head?_of_eq (hname : Named type) (heq : render type ++ rest = ':' :: tail) : tail.head? = some ':' := by
  cases hname with
  | path hnames =>
    rw [render] at heq
    exact head?_of_path_eq hnames heq
  | generic hnames =>
    rw [render_generic_append] at heq
    exact head?_of_path_eq hnames heq
  | member hnames =>
    rw [render_member_append, render_generic_append] at heq
    exact head?_of_path_eq hnames heq

end CType

namespace BaseForm

variable {specifiers : List BaseSpecifier} (hform : BaseForm type specifiers text) (hname : Named type)

include hform hname

theorem startsToken (hrest : EndsWord rest) : StartsToken (text ++ rest) := by
  cases hform with
  | type => exact (hname.startsName hrest).token
  | @specifier specifier =>
    rw [List.append_assoc]
    exact startsToken_word specifier.isIdentifier_word _

/-- A base that begins with a colon begins with two. -/
theorem endsWord_of_eq (heq : text ++ rest = ':' :: tail) : EndsWord tail := by
  cases hform with
  | type =>
    intro c hc
    rw [hname.head?_of_eq heq] at hc
    cases hc
    decide
  | @specifier specifier =>
    rw [List.append_assoc] at heq
    exact absurd (congrArg List.head? heq) (head?_word_ne specifier.isIdentifier_word (by decide) _)

/-- The specifiers are read up to the type. -/
theorem words (hrest : EndsWord rest) :
    many (beforeGap (anyKeyword ["virtual", "public", "protected", "private"])) (text ++ rest) =
      .ok (specifiers.map BaseSpecifier.word) (render type ++ rest) := by
  induction hform with
  | type => exact many_of_mismatch (.beforeGap ((hname.startsName hrest).anyKeyword (by decide)))
  | @specifier specifier specifiers gap text hgap hclose htext ih =>
    have hends : EndsWord (gap ++ (text ++ rest)) := by
      refine hgap.endsWord fun hnil => ?_
      intro c hc
      rw [List.head?_append, hclose hnil] at hc
      cases hc
      decide
    have hgapEnd : gapEnd (gap ++ (text ++ rest)) = text ++ rest := hgap.gapEnd_token (htext.startsToken hname hrest)
    have hread := beforeGap_of_ok (specifier.anyKeyword_word hends)
    have hlt : (text ++ rest).length < (specifier.word ++ (gap ++ (text ++ rest))).length := by
      have hpos : 0 < specifier.word.length := List.length_pos_iff.2 fun hnil => by
        have hword := specifier.isIdentifier_word
        rw [hnil] at hword
        cases hword
      simp only [List.length_append]
      omega
    rw [hgapEnd] at hread
    rw [List.append_assoc, List.append_assoc, many_of_ok hread hlt, ih]
    rfl

/-- Behind its specifiers a base is read as its type. -/
theorem parser (default : Access) (hrest : EndsWord rest) : Base.parser room default (text ++ rest) =
    (cType room (render type ++ rest)).map fun type => WrittenBase.base ⟨specifiers, type⟩ default := by
  rw [Base.parser, bind_of_ok (hform.words hname hrest), ← map_apply]
  simp only [WrittenBase.base, BaseSpecifier.access_words, BaseSpecifier.isVirtual_words]
  cases specifiers.findSome? BaseSpecifier.access? with
  | none => rfl
  | some given => cases given <;> rfl

/-- A base is read as it is written, or the levels run out in its type, which is then nested too deep. -/
theorem parser_cases (room : Nat) (default : Access) :
    (∀ {rest}, EndsType rest →
      Base.parser room default (text ++ rest) = .ok (WrittenBase.base ⟨specifiers, type⟩ default) rest) ∨
    (∀ {rest}, EndsType rest → LacksLevel (Base.parser room default) (text ++ rest)) ∧ room ≤ listDepth type := by
  have htype : Written type := .named hname
  rcases htype.readsType_or_lacksType room with hread | hlacks
  · refine .inl fun hrest => ?_
    have hcType : cType room (render type ++ _) = .ok type _ := hread _ hrest
    rw [hform.parser hname default hrest.word, hcType]
    rfl
  · refine .inr ⟨fun hrest => ?_, hlacks.le_listDepth htype⟩
    rw [LacksLevel, hform.parser hname default hrest.word]
    exact LacksLevel.outcome_map _ (hlacks _ hrest)

end BaseForm

/-! ### Lists of bases -/

/-- Behind a comma a list goes on as one that begins there. -/
theorem sepTail_comma {α : Type} {p : Parser α} [Bounded p] {back : Text} (hback : IsGap back)
    (hne : ∀ trace, sepBy1 (spaced (char ',')) p (gapEnd text) ≠ .mismatch trace) :
    sepTail (spaced (char ',')) p (back ++ ',' :: text) = sepBy1 (spaced (char ',')) p (gapEnd text) := by
  have hcomma : spaced (char ',') (back ++ ',' :: text) = .ok ',' (gapEnd text) := by
    refine spaced_of_ok ?_
    rw [hback.gapEnd_token (startsToken_cons (by decide) (by decide) text)]
    exact char_cons ',' text
  refine sepTail_of_separator hcomma (fun a rest hread => ?_) hne
  have hrest := (Bounded.suffix hread).length_le
  have hskipped := (gapEnd_suffix text).length_le
  rw [List.length_append, List.length_cons]
  omega

namespace BasesForm

variable {bases : List WrittenBase}

/-- Bases that begin with a colon begin with two. -/
theorem endsWord_of_eq (hform : BasesForm bases text) (hnamed : ∀ written ∈ bases, Named written.type)
    (heq : text ++ rest = ':' :: tail) : EndsWord tail := by
  cases hform with
  | last hgap htext | cons hgap htext =>
    simp only [List.append_assoc] at heq
    rw [hgap.eq_nil (by decide) (by decide) heq, List.nil_append] at heq
    exact htext.endsWord_of_eq (hnamed _ List.mem_cons_self) heq

/-- What the list reads behind the colon: all bases up to the brace, or it runs out of levels. -/
theorem sepBy1_cases (hform : BasesForm bases text) (hnamed : ∀ written ∈ bases, Named written.type) (room : Nat)
    (default : Access) (inner : Text) :
    (∃ mid, sepBy1 (spaced (char ',')) (Base.parser room default) (gapEnd (text ++ '\x7b' :: inner)) =
        .ok (bases.map (·.base default)) mid ∧ gapEnd mid = '\x7b' :: inner) ∨
      LacksLevel (sepBy1 (spaced (char ',')) (Base.parser room default)) (gapEnd (text ++ '\x7b' :: inner)) ∧
        ∃ written ∈ bases, room ≤ listDepth written.type := by
  induction hform with
  | @last written front text back hfront htext hback =>
    have hname := hnamed written List.mem_cons_self
    have hends : EndsType (back ++ '\x7b' :: inner) := endsType_gap hback (by decide) inner
    have hgap : gapEnd (front ++ (text ++ back) ++ '\x7b' :: inner) = text ++ (back ++ '\x7b' :: inner) := by
      rw [List.append_assoc, List.append_assoc]
      exact hfront.gapEnd_token (htext.startsToken hname hends.word)
    have hend : gapEnd (back ++ '\x7b' :: inner) = '\x7b' :: inner := hback.gapEnd_token (startsToken_cons (by decide) (by decide) inner)
    have hcomma : Mismatches (spaced (char ',')) (back ++ '\x7b' :: inner) :=
      spaced_char_of_ne (by rw [hend]; exact head?_cons_ne (by decide) inner)
    rw [hgap]
    rcases htext.parser_cases hname room default with hread | ⟨hlacks, hdepth⟩
    · refine .inl ⟨_, ?_, hend⟩
      rw [sepBy1_of_ok (hread hends), sepTail_of_mismatch hcomma]
      rfl
    · exact .inr ⟨(hlacks hends).bind, written, List.mem_cons_self, hdepth⟩
  | @cons written bases front text back tail hfront htext hback htail ih =>
    have hname := hnamed written List.mem_cons_self
    have hends : EndsType (back ++ ',' :: (tail ++ '\x7b' :: inner)) := endsType_gap hback (by decide) _
    have hgap : gapEnd (front ++ (text ++ (back ++ ',' :: tail)) ++ '\x7b' :: inner) =
        text ++ (back ++ ',' :: (tail ++ '\x7b' :: inner)) := by
      simp only [List.append_assoc, List.cons_append]
      exact hfront.gapEnd_token (htext.startsToken hname hends.word)
    rw [hgap]
    rcases htext.parser_cases hname room default with hread | ⟨hlacks, hdepth⟩
    · have htail (hne : ∀ trace, sepBy1 (spaced (char ',')) (Base.parser room default) (gapEnd (tail ++ '\x7b' :: inner)) ≠
          .mismatch trace) := (sepBy1_of_ok (hread hends)).trans (congrArg _ (sepTail_comma hback hne))
      rcases ih fun other hother => hnamed other (List.mem_cons_of_mem written hother) with
        ⟨mid, hlist, hend⟩ | ⟨⟨place, hlacks⟩, other, hother, hdepth⟩
      · refine .inl ⟨mid, ?_, hend⟩
        rw [htail (by rw [hlist]; nofun), hlist]
        rfl
      · refine .inr ⟨⟨place, ?_⟩, other, List.mem_cons_of_mem written hother, hdepth⟩
        rw [htail (by rw [hlacks]; nofun), hlacks]
        rfl
    · exact .inr ⟨(hlacks hends).bind, written, List.mem_cons_self, hdepth⟩

end BasesForm

/-! ### Records with bases -/

theorem Base.listParser_colon (room : Nat) (default : Access) (text : Text) : Base.listParser room default (':' :: text) =
    sepBy1 (spaced (char ',')) (Base.parser room default) (gapEnd text) := by
  have hcolon : spaced (char ':') (':' :: text) = .ok ':' (gapEnd text) := by
    refine spaced_of_ok ?_
    rw [gapEnd_cons (by decide) (by decide)]
    exact char_cons ':' text
  rw [Base.listParser, bind_of_ok hcolon]

section Head

variable (kind : RecordKind) {name blank gap : Text} (hname : isPlainName name = true) (hblank : IsGap blank)
  (hblank_ne : blank ≠ []) (hgap : IsGap gap)

include hname hblank hblank_ne hgap

/-- The head of a record is passed over up to the colon, which may stand close to a base that begins with two more. -/
theorem recordDefinition_colon (room : Nat) (htext : ∀ tail, text = ':' :: tail → EndsWord tail) :
    recordDefinition room (kind.word ++ (blank ++ (name ++ (gap ++ ':' :: text)))) =
      recordRest room (recordBody room) kind (some name) (':' :: text) := by
  have hclause : StartsClause (':' :: text) := ⟨':', by decide, text, rfl⟩
  have hpath (tail : Text) (htail : gap ++ ':' :: text = "::".toList ++ tail) : EndsWord tail := by
    rw [hgap.eq_nil (by decide) (by decide) htail] at htail
    exact htext tail (List.cons_eq_cons.1 htail).2
  have hends : EndsWord (gap ++ ':' :: text) := hgap.endsWord fun _ => hclause.endsWord
  have hhead : Heads (':' :: text) (some name) (name ++ (gap ++ ':' :: text)) :=
    .named hname hends hpath (hgap.gapEnd_token hclause.startsToken)
  exact recordDefinition_head room (recordBody room) kind hhead hclause hblank (hblank.endsWord fun hnil => absurd hnil hblank_ne)

/-- Where the levels run out among the bases, they run out for the record. -/
theorem recordDefinition_lacksBases (room : Nat) (htext : ∀ tail, text = ':' :: tail → EndsWord tail)
    (hlacks : LacksLevel (sepBy1 (spaced (char ',')) (Base.parser room kind.defaultAccess)) (gapEnd text)) :
    LacksLevel (recordDefinition room) (kind.word ++ (blank ++ (name ++ (gap ++ ':' :: text)))) := by
  rw [LacksLevel, recordDefinition_colon kind hname hblank hblank_ne hgap room htext]
  rw [LacksLevel, ← Base.listParser_colon] at hlacks
  exact (LacksLevel.opt hlacks).bind

end Head

/-- The specifiers stand in both orders, and one base has none. -/
def threeBases : List WrittenBase :=
  [⟨[.isVirtual, .access .isPublic], .generic (.path [['B']]) [.path ["int".toList], .path [['C']]]⟩,
   ⟨[.access .isProtected, .isVirtual], .path [[], ['D']]⟩,
   ⟨[], .path [['E']]⟩]

/-- A base with as many lists as there are levels is too deep. -/
theorem recordDefinition_nestedBase {lists : Nat} (hroom : room ≤ lists) :
    LacksLevel (recordDefinition room) ("class A :".toList ++ (' ' :: render (CType.nested lists) ++ "\x7b\x7d".toList)) := by
  have hname := named_nested lists
  have hspace : IsGap [' '] := .space rfl .nil
  have hends : EndsName "\x7b\x7d".toList := endsName_cons (by decide) (by decide) (by decide) _
  have hbase : LacksLevel (Base.parser room .isPrivate) (render (CType.nested lists) ++ "\x7b\x7d".toList) := by
    rw [LacksLevel, BaseForm.type.parser hname .isPrivate hends.word]
    exact LacksLevel.outcome_map _ (cType_lacksLevel hroom hends)
  have hgap : gapEnd (' ' :: render (CType.nested lists) ++ "\x7b\x7d".toList) = render (CType.nested lists) ++ "\x7b\x7d".toList :=
    hspace.gapEnd_token (hname.startsName hends.word).token
  have htext (tail : Text) (htail : ' ' :: render (CType.nested lists) ++ "\x7b\x7d".toList = ':' :: tail) : EndsWord tail :=
    absurd (List.cons_eq_cons.1 htail).1 (by decide)
  exact recordDefinition_lacksBases .isClass (by decide : isPlainName ['A'] = true) hspace (by decide) hspace room htext
    (hgap ▸ hbase.bind)

end HeaderOutline
