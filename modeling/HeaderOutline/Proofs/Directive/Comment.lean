import HeaderOutline.Proofs.Directive.Definition
import HeaderOutline.Proofs.Directive.Params
import HeaderOutline.Proofs.Report
/-!
# A block comment behind a directive

What a directive says is found in front of its first comment mark, so that a block comment at its end adds nothing, and
a parameter list is read the same in front of it. Where the logical line ends is found without regard to comments.
`directive_blockComment` says that the comment makes no difference exactly if every line feed in it is continued.
-/

namespace HeaderOutline

open HeaderOutline.Parser

namespace Directive

variable {blank input rest s t tail text z : Text} {c : Char}

/-! ### Text without comments -/

theorem not_hasCommentMark_of_isBlank (hblank : Text.IsBlank blank) : ¬HasCommentMark blank := by
  have hslash : '/' ∉ blank := fun hmem => absurd (hblank '/' hmem) (by decide)
  rintro (hmark | hmark) <;> exact hslash (hmark.subset List.mem_cons_self)

theorem beforeCommentMark_of_not (hs : ¬HasCommentMark s) : beforeCommentMark s = s := by
  have happend := beforeCommentMark_append (t := []) hs fun _ hbegins => by rcases hbegins.2 with heq | heq <;> cases heq
  rwa [List.append_nil, beforeCommentMark, List.append_nil] at happend

theorem not_beginsComment_of_isBlank (htail : ∀ c ∈ tail.head?, Text.isBlank c = true) (c : Char) : ¬BeginsComment c tail := by
  rintro ⟨-, heq | heq⟩ <;> exact absurd (htail _ heq) (by decide)

theorem withoutComment_append_blank (hblank : Text.IsBlank blank) (s : Text) : withoutComment (s ++ blank) = withoutComment s := by
  unfold withoutComment
  by_cases hs : HasCommentMark s
  · rw [beforeCommentMark_append_of_mark hs]
  · have hend : ¬BeginsComment '/' blank := not_beginsComment_of_isBlank (fun c hc => hblank c (List.mem_of_head? hc)) '/'
    rw [beforeCommentMark_append hs fun _ => hend, beforeCommentMark_of_not (not_hasCommentMark_of_isBlank hblank),
      beforeCommentMark_of_not hs, Text.trim_append_blank hblank]

theorem withoutComment_blank_append (hblank : Text.IsBlank blank) (s : Text) : withoutComment (blank ++ s) = withoutComment s := by
  have hlast : blank.getLast? = some '/' → ¬BeginsComment '/' s := fun hc =>
    absurd (hblank '/' (List.mem_of_getLast? hc)) (by decide)
  rw [withoutComment, beforeCommentMark_append (not_hasCommentMark_of_isBlank hblank) hlast, Text.trim_blank_append hblank,
    withoutComment]

theorem withoutComment_trimEnd (s : Text) : withoutComment (Text.trimEnd s) = withoutComment s := by
  obtain ⟨blank, hblank, heq⟩ := Text.exists_trimEnd s
  exact ((congrArg withoutComment heq).trans (withoutComment_append_blank hblank _)).symm

theorem withoutComment_trim (s : Text) : withoutComment (Text.trim s) = withoutComment s := by
  obtain ⟨front, back, hfront, hback, heq⟩ := Text.exists_trim s
  have hback := withoutComment_append_blank hback (front ++ Text.trim s)
  rw [← heq, withoutComment_blank_append hfront] at hback
  exact hback.symm

/-- A comment that stands alone adds nothing to the text in front of it. -/
theorem withoutComment_append_comment (hblank : Text.IsBlank blank) (hend : s = [] ∨ blank ≠ []) (z : Text) :
    withoutComment (s ++ (blank ++ '/' :: '*' :: z)) = withoutComment s := by
  unfold withoutComment
  by_cases hs : HasCommentMark s
  · rw [beforeCommentMark_append_of_mark hs]
  · have hslash : s.getLast? = some '/' → ¬BeginsComment '/' (blank ++ '/' :: '*' :: z) := by
      intro hlast
      refine not_beginsComment_of_isBlank ?_ '/'
      rcases hend with rfl | hne
      · cases hlast
      · obtain ⟨c, blank, rfl⟩ := List.exists_cons_of_ne_nil hne
        rintro d ⟨⟩
        exact hblank c List.mem_cons_self
    have hmark : blank.getLast? = some '/' → ¬BeginsComment '/' ('/' :: '*' :: z) := fun hc =>
      absurd (hblank '/' (List.mem_of_getLast? hc)) (by decide)
    rw [beforeCommentMark_append hs hslash, beforeCommentMark_append (not_hasCommentMark_of_isBlank hblank) hmark,
      beforeCommentMark_of_begins ⟨rfl, .inr rfl⟩, List.append_nil, Text.trim_append_blank hblank, beforeCommentMark_of_not hs]

/-! ### The last line of a replacement text -/

theorem dropTail_comment {property : Char → Bool} (hslash : property '/' = false) (hstar : property '*' = false) (s z : Text) :
    Text.dropTail property (s ++ '/' :: '*' :: z) = s ++ '/' :: '*' :: Text.dropTail property z := by
  have hcontent : Text.dropTail property ('*' :: z) = '*' :: Text.dropTail property z := Text.dropTail_append_cons hstar [] z
  rw [Text.dropTail_append_cons hslash, hcontent]

theorem trim_comment (s z : Text) : Text.trim (s ++ '/' :: '*' :: z) = Text.trimStart s ++ '/' :: '*' :: Text.trimEnd z := by
  have hstart : Text.trimStart (s ++ '/' :: '*' :: z) = Text.trimStart s ++ '/' :: '*' :: z := by
    by_cases hs : Text.IsBlank s
    · rw [Text.trimStart_append_of_isBlank hs, Text.trimStart_of_isBlank hs]
      rfl
    · exact Text.trimStart_append_of_not_isBlank hs _
  rw [Text.trim, hstart, Text.trimEnd, dropTail_comment (by decide) (by decide), Text.trimEnd]

theorem exists_cleanLine_comment (line z : Text) : ∃ z', cleanLine (line ++ '/' :: '*' :: z) = Text.trimStart line ++ '/' :: '*' :: z' := by
  refine ⟨Text.trimEnd (Text.dropTail (· == '\\') (Text.trimEnd z)), ?_⟩
  rw [cleanLine, trim_comment, dropTail_comment (by decide) (by decide), trim_comment, Text.trimStart_trimStart]

theorem exists_join_cons (first : Text) (others : List Text) : ∃ t, Text.join [' '] (first :: others) = first ++ t := by
  cases others with
  | nil => exact ⟨[], (List.append_nil first).symm⟩
  | cons next others => exact ⟨[' '] ++ Text.join [' '] (next :: others), List.append_assoc ..⟩

/-- What the lines of a text are joined to begins the same if a block comment is behind the text. -/
def BeginsJoined (s t : Text) : Prop := ∃ blank z, Text.IsBlank blank ∧ (cleanLines s = [] ∨ blank ≠ []) ∧
  Text.join [' '] (cleanLines t) = Text.join [' '] (cleanLines s) ++ (blank ++ '/' :: '*' :: z)

theorem exists_cleanLines_comment {line : Text} (hline : '\n' ∉ line) (z : Text) :
    ∃ z' others, cleanLines (line ++ '/' :: '*' :: z) = (Text.trimStart line ++ '/' :: '*' :: z') :: others := by
  have hfirst {z : Text} (hz : '\n' ∉ z) : ∃ z', cleanLines (line ++ '/' :: '*' :: z) = [Text.trimStart line ++ '/' :: '*' :: z'] := by
    have hfeed : '\n' ∉ line ++ '/' :: '*' :: z := by simp [hline, hz]
    obtain ⟨z', hclean⟩ := exists_cleanLine_comment line z
    refine ⟨z', ?_⟩
    rw [cleanLines_of_not_mem hfeed, hclean]
    exact List.filter_cons_of_pos (by cases Text.trimStart line <;> rfl)
  induction z using Text.inductionOnLines with
  | last z hz =>
    obtain ⟨z', hclean⟩ := hfirst hz
    exact ⟨z', [], hclean⟩
  | line z s hz _ =>
    obtain ⟨z', hclean⟩ := hfirst hz
    refine ⟨z', cleanLines s, ?_⟩
    have htext : line ++ '/' :: '*' :: (z ++ '\n' :: s) = line ++ '/' :: '*' :: z ++ '\n' :: s := by simp
    rw [htext, cleanLines_append_lineFeed, hclean]
    rfl

theorem beginsJoined_line {line : Text} (hline : '\n' ∉ line) (hspace : line.getLast? = some ' ')
    (hslash : (Text.trimEnd line).getLast? ≠ some '\\') (z : Text) : BeginsJoined line (line ++ '/' :: '*' :: z) := by
  obtain ⟨z', others, hboth⟩ := exists_cleanLines_comment hline z
  obtain ⟨t, hjoin⟩ := exists_join_cons (Text.trimStart line ++ '/' :: '*' :: z') others
  unfold BeginsJoined
  rw [hboth, hjoin, cleanLines_of_not_mem hline, cleanLine_of_not_slash hslash]
  by_cases hblank : Text.IsBlank line
  · rw [Text.trim_of_isBlank hblank, Text.trimStart_of_isBlank hblank]
    exact ⟨[], z' ++ t, List.forall_mem_nil _, .inl rfl, rfl⟩
  · obtain ⟨blank, hback, heq⟩ := Text.exists_trimEnd (Text.trimStart line)
    have hne : Text.trim line ≠ [] := fun hnil => Text.not_isBlank_trimStart hblank (Text.trimEnd_eq_nil_iff.1 hnil)
    have hback_ne : blank ≠ [] := by
      rintro rfl
      have hlast := Text.getLast?_dropTail Text.isBlank (Text.trimStart line)
      rw [List.append_nil] at heq
      rw [← Text.trimEnd, ← heq, Text.getLast?_trimStart hblank, hspace] at hlast
      exact absurd (hlast ' ' rfl) (by decide)
    refine ⟨blank, z' ++ t, hback, .inr hback_ne, ?_⟩
    have hkept : [Text.trim line].filter (fun line => !line.isEmpty) = [Text.trim line] :=
      List.filter_cons_of_pos (by simpa using hne)
    rw [hkept, heq]
    simp only [Text.join, Text.trim, List.append_assoc, List.cons_append]

theorem beginsJoined_comment (hspace : s.getLast? = some ' ') (hslash : (Text.trimEnd (Text.lastLine s)).getLast? ≠ some '\\')
    (z : Text) : BeginsJoined s (s ++ '/' :: '*' :: z) := by
  induction s using Text.inductionOnLines with
  | last line hline =>
    rw [Text.lastLine_of_not_mem hline] at hslash
    exact beginsJoined_line hline hspace hslash z
  | line line s hline ih =>
    have hs : s.getLast? = some ' ' := by
      rw [List.getLast?_append_of_ne_nil _ (List.cons_ne_nil _ _), List.getLast?_cons] at hspace
      cases hlast : s.getLast? with
      | none =>
        rw [hlast] at hspace
        cases hspace
      | some c =>
        rw [hlast] at hspace
        exact hspace
    rw [Text.lastLine_append_newline] at hslash
    obtain ⟨blank, z', hblank, hend, hjoin⟩ := ih hs hslash
    have hne : cleanLines (s ++ '/' :: '*' :: z) ≠ [] := by
      intro hnil
      have hlength := congrArg List.length (hjoin.symm.trans (congrArg (Text.join [' ']) hnil))
      simp [Text.join] at hlength
    unfold BeginsJoined
    rw [List.append_assoc, List.cons_append, cleanLines_append_cons hline, cleanLines_append_cons hline]
    by_cases hfirst : cleanLines line = []
    · rw [hfirst]
      exact ⟨blank, z', hblank, hend, hjoin⟩
    · rw [Text.join_append_of_ne _ hfirst hne, hjoin]
      by_cases hothers : cleanLines s = []
      · rw [hothers, List.append_nil]
        refine ⟨' ' :: blank, z', ?_, .inr (List.cons_ne_nil _ _), ?_⟩
        · exact Text.isBlank_append.2 ⟨(by decide : Text.IsBlank [' ']), hblank⟩
        · simp [Text.join]
      · rw [Text.join_append_of_ne _ hfirst hothers]
        exact ⟨blank, z', hblank, .inr (hend.resolve_left hothers), by simp⟩

/-- A block comment at the end of a replacement text leaves it as it is, unless the last line ends in a stray backslash. -/
theorem replacement_append_comment (hspace : s.getLast? = some ' ')
    (hslash : (Text.trimEnd (Text.lastLine s)).getLast? ≠ some '\\') (z : Text) :
    replacement (s ++ '/' :: '*' :: z) = replacement s := by
  obtain ⟨blank, z', hblank, hend, hjoin⟩ := beginsJoined_comment hspace hslash z
  rw [replacement_eq, hjoin, replacement_eq]
  refine withoutComment_append_comment hblank (hend.imp_left fun hnil => ?_) z'
  rw [hnil]
  rfl

/-! ### The comment behind the text of a directive -/

/-- One block comment, and nothing else. -/
def IsBlockComment (comment : Text) : Prop := ['/', '*'] <+: comment ∧ behindComment? comment = some []

instance (comment : Text) : Decidable (IsBlockComment comment) := inferInstanceAs (Decidable (_ ∧ _))

variable {comment name body body' text' : Text} {found : Directive}

theorem IsBlockComment.exists (hcomment : IsBlockComment comment) : ∃ content, comment = '/' :: '*' :: (content ++ ['*', '/']) := by
  obtain ⟨⟨content, rfl⟩, hbehind⟩ := hcomment
  obtain ⟨⟨front, back⟩, hsplit, hback⟩ := Option.map_eq_some_iff.1 hbehind
  obtain ⟨rest, hrest⟩ := Text.splitBefore?_begins hsplit
  have hcontent := Text.splitBefore?_append hsplit
  have hrest_nil : rest = [] := by
    rw [← hrest] at hback
    exact hback
  rw [← hrest, hrest_nil] at hcontent
  exact ⟨front, congrArg ('/' :: '*' :: ·) hcontent.symm⟩

theorem getLast?_append_comment (hcomment : IsBlockComment comment) (s : Text) :
    (s ++ ' ' :: comment).getLast? = some '/' := by
  obtain ⟨content, rfl⟩ := hcomment.exists
  have htext : s ++ ' ' :: '/' :: '*' :: (content ++ ['*', '/']) = s ++ ' ' :: '/' :: '*' :: content ++ ['*'] ++ ['/'] := by simp
  rw [htext, List.getLast?_concat]

theorem isBlankTail_comment (hcomment : IsBlockComment comment) (hblank : Text.IsBlank blank) :
    IsBlankTail (blank ++ ' ' :: comment) where
  head := by
    cases blank with
    | nil =>
      rintro c ⟨⟩
      decide
    | cons d blank =>
      rintro c ⟨⟩
      exact hblank d List.mem_cons_self
  gapEnd := by
    induction blank with
    | nil =>
      have hend : gapEnd (' ' :: comment) = [] := by
        rw [gapEnd, if_pos (by decide), gapEnd_of_behindComment? hcomment.2, gapEnd]
      rw [List.nil_append, hend]
      nofun
    | cons d blank ih =>
      obtain ⟨hd, hblank⟩ := List.forall_mem_cons.1 hblank
      by_cases hspace : isSpace d = true
      · rw [List.cons_append, gapEnd, if_pos hspace]
        exact ih hblank
      · have hbegins : ¬BeginsComment d (blank ++ ' ' :: comment) := by
          rintro ⟨rfl, -⟩
          exact absurd hd (by decide)
        rw [List.cons_append, gapEnd_of_not_begins (Bool.eq_false_iff.2 hspace) hbegins]
        rintro c ⟨⟩
        exact hd

theorem getLast?_lastLine_append (s : Text) (ht : (Text.trimEnd (Text.lastLine t)).getLast? = some '\\') :
    (Text.trimEnd (Text.lastLine (s ++ t))).getLast? = some '\\' := by
  obtain ⟨front, heq⟩ := Text.exists_lastLine_append s t
  have hne : Text.trimEnd (Text.lastLine t) ≠ [] := by
    intro hnil
    rw [hnil] at ht
    cases ht
  rw [heq, Text.trimEnd_append_of_not_isBlank (mt Text.trimEnd_eq_nil_iff.2 hne), List.getLast?_append_of_ne_nil _ hne, ht]

theorem replacement_comment (hcomment : IsBlockComment comment) (hblank : Text.IsBlank blank)
    (hslash : (Text.trimEnd (Text.lastLine (s ++ blank))).getLast? ≠ some '\\') :
    replacement (s ++ (blank ++ ' ' :: comment)) = replacement s := by
  obtain ⟨content, rfl⟩ := hcomment.exists
  have hspace : Text.IsBlank [' '] := by decide
  have hlast : Text.lastLine (s ++ blank ++ [' ']) = Text.lastLine (s ++ blank) ++ [' '] :=
    Text.lastLine_append_of_not_mem (by decide) _
  rw [← Text.trimEnd_append hspace, ← hlast] at hslash
  calc replacement (s ++ (blank ++ ' ' :: '/' :: '*' :: (content ++ ['*', '/'])))
      = replacement (s ++ blank ++ [' '] ++ '/' :: '*' :: (content ++ ['*', '/'])) := by simp
    _ = replacement (s ++ blank ++ [' ']) := replacement_append_comment List.getLast?_concat hslash _
    _ = replacement s := by rw [replacement_append_blank hspace, replacement_append_blank hblank]

/-- A definition says the same in front of a comment. -/
theorem define_append_comment {definition : Define} (hcomment : IsBlockComment comment) (hmarks : MarksQuoted s)
    (hslash : (Text.trimEnd (Text.lastLine s)).getLast? ≠ some '\\') (hread : define (Text.trimEnd s) = .ok definition []) :
    define (s ++ ' ' :: comment) = .ok definition [] := by
  obtain ⟨space, list, value, heq, hspacing, hname, hends, hlist, hvalue, -⟩ := define_eq_ok.1 hread
  obtain ⟨blank, hblank, hs⟩ := Text.exists_trimEnd s
  rw [heq] at hs
  have htail := isBlankTail_comment hcomment hblank
  refine define_eq_ok.2 ⟨space, list, value ++ (blank ++ ' ' :: comment), ?_, hspacing, hname, ?_, ?_, ?_, rfl⟩
  · rw [hs]
    simp only [List.append_assoc]
  · cases hboth : list ++ value with
    | nil =>
      obtain ⟨rfl, rfl⟩ := List.append_eq_nil_iff.1 hboth
      exact endsWord_of_isBlank htail.head
    | cons c t =>
      rw [hboth] at hends
      rw [← List.append_assoc, hboth]
      exact hends
  · rw [hs, ← List.append_assoc] at hmarks
    rw [← List.append_assoc]
    refine optMacroParams_append htail (hmarks.of_append_left.of_append fun c hc => ?_) hlist
    rcases List.mem_append.1 hc with hc | hc
    · have hblank := hspacing c hc
      constructor <;> rintro rfl <;> exact absurd hblank (by decide)
    · have hword := isWordChar_of_isIdentifier hname c hc
      constructor <;> rintro rfl <;> exact absurd hword (by decide)
  · rw [hvalue, replacement_comment hcomment hblank]
    intro hvalueSlash
    have hfront := getLast?_lastLine_append (space ++ (definition.name ++ list)) hvalueSlash
    have htext : space ++ (definition.name ++ list) ++ (value ++ blank) = s := by
      rw [hs]
      simp only [List.append_assoc]
    rw [htext] at hfront
    exact hslash hfront

theorem includeTarget?_congr (hbody : withoutComment body' = withoutComment body) : includeTarget? body' = includeTarget? body := by
  unfold includeTarget?
  rw [hbody]

/-- What a directive says depends on its text in front of comments, and on its definition. -/
theorem ofBody_of_same {text : Text} (hbody : withoutComment body' = withoutComment body)
    (htext : withoutComment text' = withoutComment text)
    (hdefine : ∀ definition, found = .defines definition → define body = .ok definition [] → define body' = .ok definition [])
    (hread : ofBody name body text rest = .ok found rest) : ofBody name body' text' rest = .ok found rest := by
  have htarget : includeTarget? (Text.trim body') = includeTarget? (Text.trim body) := by
    apply includeTarget?_congr
    rw [withoutComment_trim, withoutComment_trim, hbody]
  unfold ofBody at hread ⊢
  dsimp only at hread ⊢
  rw [htarget, htext, hbody]
  split at hread
  · next hinclude => rw [if_pos hinclude]; exact hread
  · next hinclude =>
    rw [if_neg hinclude]
    split at hread
    · next hname =>
      rw [if_pos hname]
      split at hread
      · next definition mid hok =>
        cases hread
        obtain ⟨_, _, _, -, -, -, -, -, -, rfl⟩ := define_eq_ok.1 hok
        rw [hdefine definition rfl hok]
      · cases hread
      · cases hread
    · next hname => rw [if_neg hname]; exact hread

/-- A line feed, with carriage returns in front of it. -/
def newline (returns : Nat) : Text := List.replicate returns '\r' ++ ['\n']

theorem mem_newline {returns : Nat} (hc : c ∈ newline returns) : c = '\r' ∨ c = '\n' := by
  rcases List.mem_append.1 hc with hc | hc
  · exact .inl (List.eq_of_mem_replicate hc)
  · exact .inr (List.mem_singleton.1 hc)

theorem newline_ne_nil (returns : Nat) : newline returns ≠ [] := List.append_ne_nil_of_right_ne_nil _ (List.cons_ne_nil _ _)

theorem isBlank_newline (returns : Nat) : Text.IsBlank (newline returns) := by
  intro c hc
  rcases mem_newline hc with rfl | rfl <;> decide

/-- No newline and no literal begins in front of the end of the name of a directive. -/
theorem ne_of_mem_front {blanks name : Text} (hblanks : IsSpacing blanks) (hname : isIdentifier name = true) :
    ∀ c ∈ '#' :: (blanks ++ name), (c ≠ '\r' ∧ c ≠ '\n') ∧ c ≠ '"' ∧ c ≠ '\'' := by
  intro c hc
  rcases List.mem_cons.1 hc with rfl | hc
  · decide
  · rcases List.mem_append.1 hc with hc | hc
    · have hblank := hblanks c hc
      refine ⟨⟨?_, ?_⟩, ?_, ?_⟩ <;> rintro rfl <;> exact absurd hblank (by decide)
    · have hword := isWordChar_of_isIdentifier hname c hc
      refine ⟨⟨?_, ?_⟩, ?_, ?_⟩ <;> rintro rfl <;> exact absurd hword (by decide)

/-- A text without newlines in front of a newline is in front of all that the newline is behind. -/
theorem exists_of_append_newline {d front tail : Text} {returns : Nat} (hfront : ∀ c ∈ front, c ≠ '\r' ∧ c ≠ '\n')
    (heq : d ++ (newline returns ++ rest) = front ++ tail) : ∃ s, d = front ++ s ∧ tail = s ++ (newline returns ++ rest) := by
  rcases List.append_eq_append_iff.1 heq with ⟨more, rfl, hmore⟩ | ⟨s, rfl, htail⟩
  · cases more with
    | nil => exact ⟨[], by rw [List.append_nil, List.append_nil], hmore.symm⟩
    | cons c more =>
      obtain ⟨hreturn, hfeed⟩ := hfront c (List.mem_append_right d List.mem_cons_self)
      obtain ⟨first, others, hnewline⟩ := List.exists_cons_of_ne_nil (newline_ne_nil returns)
      have hc : c ∈ newline returns := by
        rw [hnewline, List.cons_append, List.cons_append, List.cons.injEq] at hmore
        rw [hnewline, hmore.1]
        exact List.mem_cons_self
      rcases mem_newline hc with rfl | rfl
      · exact absurd rfl hreturn
      · exact absurd rfl hfeed
  · exact ⟨s, rfl, htail⟩

theorem splitLogicalLine_newline {front : Text} {returns : Nat}
    (hsplit : splitLogicalLine [] (s ++ (newline returns ++ rest)) = (front, rest)) :
    front = s ++ newline returns ∧ Continued (s ++ List.replicate returns '\r') := by
  obtain ⟨line, ending, htext, rfl, hline, hending⟩ := splitLogicalLine_eq.1 hsplit
  have hfront : line ++ ending = s ++ newline returns := by
    rw [← List.append_assoc, ← List.append_assoc] at htext
    exact (List.append_cancel_right htext).symm
  refine ⟨hfront, ?_⟩
  rw [newline, ← List.append_assoc] at hfront
  rcases hending with ⟨rfl, -⟩ | ⟨rfl, -⟩
  · rwa [← List.append_cancel_right hfront]
  · rw [List.append_nil] at hfront
    rw [hfront] at hline
    exact hline.of_append_left

theorem continued_comment_iff {returns : Nat} (hs : Continued s) :
    Continued (s ++ ' ' :: comment ++ List.replicate returns '\r') ↔ Continued comment := by
  have hspace : ∀ c ∈ (s ++ [' ']).getLast?, c ≠ '\\' ∧ c ≠ '\r' := by
    rw [List.getLast?_concat]
    rintro c ⟨⟩
    decide
  have hreturns : '\n' ∉ List.replicate returns '\r' := fun hmem => absurd (List.eq_of_mem_replicate hmem) (by decide)
  constructor
  · intro hboth
    have hcontinued := hboth.of_append_left
    rw [List.append_cons, continued_append_iff hspace] at hcontinued
    exact hcontinued.2
  · intro hin
    refine Continued.append ?_ hreturns
    rw [List.append_cons, continued_append_iff hspace]
    exact ⟨hs.append (by decide), hin⟩

theorem splitLogicalLine_comment {returns : Nat} (hcomment : IsBlockComment comment) (hs : Continued s) (hin : Continued comment)
    (rest : Text) : splitLogicalLine [] (s ++ ' ' :: comment ++ (newline returns ++ rest)) =
      (s ++ ' ' :: comment ++ newline returns, rest) := by
  have hslash : ∀ c ∈ (s ++ ' ' :: comment).getLast?, c ≠ '\\' ∧ c ≠ '\r' := by
    rw [getLast?_append_comment hcomment]
    rintro c ⟨⟩
    decide
  have hend : EndsLine (s ++ ' ' :: comment ++ List.replicate returns '\r') ['\n'] rest := by
    refine (endsLine_append_iff hslash).2 (.inl ⟨rfl, ?_⟩)
    have hreturns : ∀ c ∈ List.replicate returns '\r', (c == '\r') = true := fun c hc => beq_iff_eq.2 (List.eq_of_mem_replicate hc)
    rw [List.reverse_replicate, isContinued, List.dropWhile_eq_nil_iff.2 hreturns]
    rfl
  refine splitLogicalLine_eq.2 ⟨_, ['\n'], ?_, ?_, (continued_comment_iff hs).2 hin, hend⟩
  · simp only [newline, List.append_assoc]
  · simp only [newline, List.append_assoc]

theorem withoutComment_comment (hcomment : IsBlockComment comment) (s t : Text) :
    withoutComment (s ++ ' ' :: comment ++ t) = withoutComment s := by
  obtain ⟨content, rfl⟩ := hcomment.exists
  have hspace : Text.IsBlank [' '] := by decide
  have hbehind : s = [] ∨ [' '] ≠ [] := .inr (List.cons_ne_nil _ _)
  rw [List.append_assoc]
  exact withoutComment_append_comment hspace hbehind (content ++ ['*', '/'] ++ t)

theorem trimEnd_comment (hcomment : IsBlockComment comment) (s : Text) : Text.trimEnd (s ++ ' ' :: comment) = s ++ ' ' :: comment := by
  apply Text.dropTail_of_getLast?
  intro c hc
  rw [getLast?_append_comment hcomment] at hc
  cases hc
  decide

/-- What a directive says of its logical line does not depend on a comment in front of the newline. -/
theorem ofBody_append_comment {front : Text} {returns : Nat} (hcomment : IsBlockComment comment)
    (hplain : ∀ definition, found = .defines definition →
      MarksQuoted s ∧ (Text.trimEnd (Text.lastLine s)).getLast? ≠ some '\\')
    (hread : ofBody name (Text.trimEnd (s ++ newline returns)) (front ++ (s ++ newline returns)) rest = .ok found rest) :
    ofBody name (Text.trimEnd (s ++ ' ' :: comment ++ newline returns)) (front ++ (s ++ ' ' :: comment ++ newline returns)) rest =
      .ok found rest := by
  have hblank := isBlank_newline returns
  refine ofBody_of_same ?body ?text (fun definition hfound hdefine => ?define) hread
  case body =>
    rw [withoutComment_trimEnd, withoutComment_trimEnd, withoutComment_comment hcomment, withoutComment_append_blank hblank]
  case text =>
    calc withoutComment (front ++ (s ++ ' ' :: comment ++ newline returns))
        = withoutComment (front ++ s ++ ' ' :: comment ++ newline returns) := by simp only [List.append_assoc]
      _ = withoutComment (front ++ s) := withoutComment_comment hcomment _ _
      _ = withoutComment (front ++ s ++ newline returns) := (withoutComment_append_blank hblank _).symm
      _ = withoutComment (front ++ (s ++ newline returns)) := by rw [List.append_assoc]
  case define =>
    obtain ⟨hmarks, hslash⟩ := hplain definition hfound
    rw [Text.trimEnd_append hblank] at hdefine
    rw [Text.trimEnd_append hblank, trimEnd_comment hcomment]
    exact define_append_comment hcomment hmarks hslash hdefine

end Directive

open Directive

/-- A block comment behind the text of a directive makes no difference exactly if every line feed in it is continued. A
definition must have no other comment, and its last line must not end in a stray backslash. -/
theorem directive_blockComment {d comment rest : Text} {returns : Nat} {found : Directive} (hcomment : IsBlockComment comment)
    (hread : directive (d ++ (newline returns ++ rest)) = .ok found rest)
    (hplain : ∀ definition, found = .defines definition →
      (∀ piece ∈ pieces [] d, piece.kind ≠ .comment) ∧ (Text.trimEnd (Text.lastLine d)).getLast? ≠ some '\\') :
    directive (d ++ ' ' :: comment ++ (newline returns ++ rest)) = .ok found rest ↔ Continued comment := by
  obtain ⟨blanks, name, tail, front, heq, hblanks, hname, htail, hsplit, hbody⟩ := exists_of_directive hread
  have hchars := ne_of_mem_front hblanks hname
  obtain ⟨s, rfl, rfl⟩ := exists_of_append_newline (fun c hc => (hchars c hc).1) (by simpa using heq)
  obtain ⟨rfl, hreturns⟩ := splitLogicalLine_newline hsplit
  have hs : Continued s := hreturns.of_append_left
  have htail' : EndsWord (s ++ ' ' :: comment ++ (newline returns ++ rest)) := by
    cases s with
    | nil =>
      rintro c ⟨⟩
      decide
    | cons c s => exact htail
  have hinput : '#' :: (blanks ++ name) ++ s ++ ' ' :: comment ++ (newline returns ++ rest) =
      '#' :: (blanks ++ (name ++ (s ++ ' ' :: comment ++ (newline returns ++ rest)))) := by simp
  rw [hinput]
  constructor
  · intro hboth
    cases hsplit' : splitLogicalLine [] (s ++ ' ' :: comment ++ (newline returns ++ rest)) with
    | mk front mid =>
      rw [directive_append hblanks hname htail' hsplit'] at hboth
      obtain rfl := ofBody_rest hboth
      exact (continued_comment_iff hs).1 (splitLogicalLine_newline hsplit').2
  · intro hin
    rw [directive_append hblanks hname htail' (splitLogicalLine_comment hcomment hs hin rest)]
    have hfront (t : Text) : '#' :: (blanks ++ (name ++ t)) = '#' :: (blanks ++ name) ++ t := by simp
    rw [hfront] at hbody ⊢
    refine ofBody_append_comment hcomment (fun definition hfound => ?_) hbody
    obtain ⟨hpieces, hslash⟩ := hplain definition hfound
    have hmarks : MarksQuoted s := (marksQuoted_of_pieces hpieces).of_append fun c hc => (hchars c hc).2
    have hlast : (Text.trimEnd (Text.lastLine s)).getLast? ≠ some '\\' := mt (getLast?_lastLine_append _) hslash
    exact ⟨hmarks, hlast⟩

/-- A comment of two lines, the first of which is continued. -/
theorem directive_blockComment_continued :
    directive "#define A 1 /* x \\\n y */\nint x;".toList = .ok (.defines ⟨['A'], none, some ['1']⟩) "int x;".toList := by
  have hcomment : IsBlockComment "/* x \\\n y */".toList := by decide
  have hlines : Spliced ["/* x ".toList, " y */".toList] "/* x \\\n y */".toList :=
    .continued 0 (by decide) (.last (by decide))
  have hread : directive ("#define A 1".toList ++ (newline 0 ++ "int x;".toList)) =
      .ok (.defines ⟨['A'], none, some ['1']⟩) "int x;".toList := by decide +kernel
  refine (directive_blockComment hcomment hread ?_).2 (continued_iff.2 ⟨_, hlines⟩)
  rintro _ ⟨⟩
  exact ⟨by decide +kernel, by decide⟩

/-- The directive ends inside of a comment of two lines. -/
theorem directive_blockComment_cut : IsBlockComment "/* x\n y */".toList ∧
    directive "#define A 1\nint x;".toList = .ok (.defines ⟨['A'], none, some ['1']⟩) "int x;".toList ∧
    directive "#define A 1 /* x\n y */\nint x;".toList = .ok (.defines ⟨['A'], none, some ['1']⟩) " y */\nint x;".toList := by
  decide +kernel

end HeaderOutline
