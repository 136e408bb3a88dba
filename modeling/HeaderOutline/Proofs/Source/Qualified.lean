import HeaderOutline.Proofs.CType.Name
import HeaderOutline.Proofs.Scope.Fork
import HeaderOutline.Proofs.Source.Start
import HeaderOutline.Proofs.Transparency
/-!
# Qualified namespaces

`namespace a::b {}` stands for `namespace a { namespace b {} }`. Both are read to the same namespaces, but for
the marks `inline` in front of inner names, which only the nested form keeps.
-/

namespace HeaderOutline

open HeaderOutline.Parser HeaderOutline.CType

/-- A namespace that is opened inside another one. -/
structure Level where
  isInline : Bool
  name : Text
  deriving DecidableEq, Repr

namespace Level

/-- A word that names a namespace. -/
def IsName (name : Text) : Prop := isIdentifier name = true ∧ name ≠ "inline".toList

instance (name : Text) : Decidable (IsName name) := inferInstanceAs (Decidable (_ ∧ _))

/-- The same level without the mark. -/
def unmarked (level : Level) : Level := { level with isInline := false }

/-- The mark in front of a namespace. -/
def mark (isInline : Bool) : Text := if isInline then "inline ".toList else []

/-- A further name of a qualified namespace. -/
def segmentText (level : Level) : Text := "::".toList ++ (mark level.isInline ++ level.name)

/-- The head of a namespace with further names, and what stands behind its brace. -/
def headText (first : Text) (levels : List Level) (inner : Text) : Text :=
  "namespace ".toList ++ (first ++ (levels.flatMap segmentText ++ ' ' :: '\x7b' :: inner))

/-- `namespace a::b {...}`. -/
def qualifiedText (first : Text) (levels : List Level) (body : Text) : Text :=
  headText first levels (body ++ ['\x7d'])

/-- `namespace a { namespace b {...} }`. -/
def nestedText (first : Text) : List Level → (body : Text) → Text
  | [], body => qualifiedText first [] body
  | level :: levels, body =>
    headText first [] (' ' :: (mark level.isInline ++ nestedText level.name levels body ++ [' ', '\x7d']))

/-- What closes the namespaces around the innermost one. -/
def closers (n : Nat) : Text := (List.replicate n [' ', '\x7d']).flatten

/-- The namespaces, the first around the second and so on. -/
def nested (isInline : Bool) (first : Text) : List Level → Scope → Namespace
  | [], contents => { name := some first, isInline, scope := contents }
  | level :: levels, contents =>
    { name := some first, isInline, scope := { namespaces := [nested level.isInline level.name levels contents] } }

theorem closers_succ (n : Nat) : closers (n + 1) = closers n ++ [' ', '\x7d'] := by
  rw [closers, List.replicate_succ', List.flatten_concat]
  rfl

theorem headText_append (first : Text) (levels : List Level) (inner rest : Text) :
    headText first levels inner ++ rest = headText first levels (inner ++ rest) := by
  unfold headText
  generalize "namespace ".toList = word
  simp only [List.append_assoc, List.cons_append]

theorem qualifiedText_append (first : Text) (levels : List Level) (body rest : Text) :
    qualifiedText first levels body ++ rest = headText first levels (body ++ '\x7d' :: rest) := by
  rw [qualifiedText, headText_append, List.append_assoc]
  rfl

theorem nestedText_cons_append (first : Text) (level : Level) (levels : List Level) (body rest : Text) :
    nestedText first (level :: levels) body ++ rest =
      headText first [] (' ' :: (mark level.isInline ++ (nestedText level.name levels body ++ ([' ', '\x7d'] ++ rest)))) := by
  rw [nestedText, headText_append, List.cons_append, List.append_assoc, List.append_assoc]

theorem nest_names (first : Text) (levels : List Level) (contents : Scope) :
    Namespace.nest contents (first :: levels.map name) = nested false first (levels.map unmarked) contents := by
  induction levels generalizing first with
  | nil => rfl
  | cons level levels ih =>
    rw [List.map_cons, List.map_cons, Namespace.nest, ih level.name]
    rfl

/-- Only marks tell the two forms apart. -/
theorem nested_unmarked_iff (isInline : Bool) (first : Text) (levels : List Level) (contents : Scope) :
    nested isInline first (levels.map unmarked) contents = nested isInline first levels contents ↔
      ∀ level ∈ levels, level.isInline = false := by
  induction levels generalizing isInline first with
  | nil => simp [nested]
  | cons level levels ih =>
    rw [List.map_cons, List.forall_mem_cons, ← ih level.isInline level.name]
    obtain ⟨levelInline, levelName⟩ := level
    cases levelInline with
    | false => simp [nested, unmarked]
    | true => cases levels <;> simp [nested, unmarked]

end Level

namespace Namespace

open Level

variable {first rest inner : Text} {levels : List Level}

/-! ### Heads -/

theorem gapEnd_brace_behind (inner : Text) : gapEnd (' ' :: '\x7b' :: inner) = '\x7b' :: inner :=
  gapEnd_append_cons isSpaces_one (by decide) (by decide) inner

theorem endsWord_segments (hrest : EndsWord rest) : EndsWord (levels.flatMap segmentText ++ rest) := by
  cases levels with
  | nil => exact hrest
  | cons level levels => exact endsWord_cons (by decide) _

theorem inlineKeyword_of_name (hfirst : IsName first) (hrest : EndsWord rest) :
    Mismatches (beforeGap (keyword "inline")) (first ++ rest) := by
  refine .beforeGap (keyword_of_ne (by decide) ?_)
  rw [headWord_append (isWordChar_of_isIdentifier hfirst.1) hrest]
  exact hfirst.2

theorem inlineKeyword_mark {behind : Text} (hbehind : StartsToken behind) :
    beforeGap (keyword "inline") ("inline ".toList ++ behind) = .ok "inline".toList behind := by
  have hword : keyword "inline" ("inline".toList ++ ' ' :: behind) = .ok "inline".toList (' ' :: behind) :=
    keyword_append "inline" (endsWord_cons (by decide) behind)
  have hread := beforeGap_of_ok hword
  have hgap : gapEnd (' ' :: behind) = behind := gapEnd_append_token isSpaces_one hbehind
  rw [hgap] at hread
  exact hread

theorem startsToken_mark (isInline : Bool) {word : Text} (hword : isIdentifier word = true) (rest : Text) :
    StartsToken (mark isInline ++ (word ++ rest)) := by
  cases isInline with
  | false => exact startsToken_word hword rest
  | true => exact startsToken_cons (by decide) (by decide) _

theorem segment_append (isInline : Bool) (hfirst : IsName first) (hrest : EndsWord rest) :
    segment (mark isInline ++ first ++ rest) = .ok first rest := by
  rw [List.append_assoc]
  cases isInline with
  | false =>
    exact (bind_of_ok (opt_of_mismatch (inlineKeyword_of_name hfirst hrest))).trans (identifier_append hfirst.1 hrest)
  | true =>
    exact (bind_of_ok (opt_of_ok (inlineKeyword_mark (startsToken_word hfirst.1 rest)))).trans (identifier_append hfirst.1 hrest)

/-- All names of a head are read. -/
theorem segments_of_levels (hfirst : IsName first) (hlevels : ∀ level ∈ levels, IsName level.name) (inner : Text) :
    beforeGap (sepBy1 (spaced (literal "::")) segment) (first ++ (levels.flatMap segmentText ++ ' ' :: '\x7b' :: inner)) =
      .ok (first :: levels.map name) ('\x7b' :: inner) := by
  have hrest : EndsWord (' ' :: '\x7b' :: inner) := endsWord_cons (by decide) _
  have hstop : Mismatches (spaced (literal "::")) (' ' :: '\x7b' :: inner) := by
    refine .spaced (literal_of_ne rfl ?_)
    rw [gapEnd_brace_behind]
    exact head?_cons_ne (by decide) _
  have hall : ∀ level ∈ (⟨false, first⟩ :: levels : List Level), IsName level.name := List.forall_mem_cons.2 ⟨hfirst, hlevels⟩
  have hsep : "::".toList ≠ [] := by decide
  have hfollows : ∀ tail, EndsWord ("::".toList ++ tail) := fun tail => endsWord_cons (by decide) _
  have hseparator : ∀ level ∈ levels, ∀ tail, EndsWord tail →
      spaced (literal "::") ("::".toList ++ (mark level.isInline ++ level.name ++ tail)) =
        .ok "::".toList (mark level.isInline ++ level.name ++ tail) := by
    intro level hlevel tail _
    have htoken := startsToken_mark level.isInline (hlevels level hlevel).1 tail
    rw [← List.append_assoc] at htoken
    have hcolons : literal "::" (gapEnd ("::".toList ++ (mark level.isInline ++ level.name ++ tail))) =
        .ok "::".toList (mark level.isInline ++ level.name ++ tail) := by
      have hstart : StartsToken ("::".toList ++ (mark level.isInline ++ level.name ++ tail)) :=
        startsToken_cons (by decide) (by decide) _
      rw [gapEnd_of_startsToken hstart]
      exact literal_append "::" _
    rw [spaced_of_ok hcolons, gapEnd_of_startsToken htoken]
  have hread := sepBy1_flatMap (fun level : Level => mark level.isInline ++ level.name) name hsep hfollows hseparator
    (fun level hlevel tail htail => segment_append level.isInline (hall level hlevel) htail) hstop hrest
  have hgap := beforeGap_of_ok hread
  rw [gapEnd_brace_behind, List.append_assoc] at hgap
  exact hgap

theorem attributes_of_names (hfirst : IsName first) (levels : List Level) (inner : Text) :
    attributes (first ++ (levels.flatMap segmentText ++ ' ' :: '\x7b' :: inner)) =
      .ok () (first ++ (levels.flatMap segmentText ++ ' ' :: '\x7b' :: inner)) := by
  have hends : EndsWord (levels.flatMap segmentText ++ ' ' :: '\x7b' :: inner) :=
    endsWord_segments (endsWord_cons (by decide) _)
  have hword := isWordChar_of_isIdentifier hfirst.1
  refine attributes_of_uncalled (fun hbracket => ?_) fun word _ _ => ?_
  · obtain ⟨c, tail, hcons⟩ := List.exists_cons_of_ne_nil fun heq : first = [] => by
      rw [heq] at hfirst
      exact absurd hfirst.1 (by decide)
    rw [hcons] at hbracket hword
    cases hbracket
    exact absurd (hword '[' List.mem_cons_self) (by decide)
  · rw [List.dropWhile_append_of_pos hword, dropWhile_of_endsWord hends]
    cases levels with
    | nil =>
      rw [List.flatMap_nil, List.nil_append, gapEnd_brace_behind]
      exact head?_cons_ne (by decide) _
    | cons level levels =>
      have hstart : StartsToken (List.flatMap segmentText (level :: levels) ++ ' ' :: '\x7b' :: inner) :=
        startsToken_cons (by decide) (by decide) _
      rw [gapEnd_of_startsToken hstart]
      exact head?_cons_ne (by decide) _

theorem headWord_headText (first : Text) (levels : List Level) (inner : Text) :
    headWord (headText first levels inner) = "namespace".toList := by
  have hword : IsWord "namespace" := by decide
  have hends : EndsWord (' ' :: (first ++ (levels.flatMap segmentText ++ ' ' :: '\x7b' :: inner))) :=
    endsWord_cons (by decide) _
  exact headWord_append hword hends

theorem startsToken_headText (isInline : Bool) (first : Text) (levels : List Level) (inner : Text) :
    StartsToken (mark isInline ++ headText first levels inner) := by
  cases isInline with
  | false => exact startsToken_cons (by decide) (by decide) _
  | true => exact startsToken_cons (by decide) (by decide) _

/-- The head of a namespace is passed over, and its body is read behind the brace. -/
theorem parserWith_headText (body : Parser Scope) (isInline : Bool) (hfirst : IsName first)
    (hlevels : ∀ level ∈ levels, IsName level.name) (inner : Text) :
    parserWith body (mark isInline ++ headText first levels inner) =
      (do
        let scope ← body
        let _ ← opt (afterGap (char ';'))
        pure { nest scope (first :: levels.map name) with isInline } : Parser Namespace) inner := by
  have hnamespace (behind : Text) : StartsToken ("namespace ".toList ++ behind) :=
    startsToken_cons (by decide) (by decide) _
  have hspaces := spaces0_of_startsToken (startsToken_headText isInline first levels inner)
  have hmark : ∃ found, opt (beforeGap (keyword "inline")) (mark isInline ++ headText first levels inner) =
      .ok found (headText first levels inner) ∧ found.isSome = isInline := by
    cases isInline with
    | false =>
      refine ⟨none, opt_of_mismatch (.beforeGap (keyword_of_ne (by decide) ?_)), rfl⟩
      rw [mark, if_neg Bool.false_ne_true, List.nil_append, headWord_headText]
      decide
    | true => exact ⟨_, opt_of_ok (inlineKeyword_mark (hnamespace _)), rfl⟩
  obtain ⟨found, hmark, hfound⟩ := hmark
  have hword : beforeGap (keyword "namespace") (headText first levels inner) =
      .ok "namespace".toList (first ++ (levels.flatMap segmentText ++ ' ' :: '\x7b' :: inner)) := by
    have hread := beforeGap_of_ok (keyword_append "namespace"
      (endsWord_cons (by decide) (first ++ (levels.flatMap segmentText ++ ' ' :: '\x7b' :: inner)) : EndsWord (' ' :: _)))
    have hgap : gapEnd (' ' :: (first ++ (levels.flatMap segmentText ++ ' ' :: '\x7b' :: inner))) =
        first ++ (levels.flatMap segmentText ++ ' ' :: '\x7b' :: inner) :=
      gapEnd_append_token isSpaces_one (startsToken_word hfirst.1 _)
    rw [hgap] at hread
    exact hread
  have hattributes : attributes ('\x7b' :: inner) = .ok () ('\x7b' :: inner) :=
    attributes_of_uncalled (head?_cons_ne (by decide) _) (uncalled_of_endsWord (endsWord_cons (by decide) inner))
  rw [parserWith, bind_of_ok hspaces, bind_of_ok hmark, bind_of_ok hword, bind_of_ok (attributes_of_names hfirst levels inner),
    bind_of_ok (opt_of_ok (segments_of_levels hfirst hlevels inner)), bind_of_ok hattributes,
    bind_of_ok (char_cons '\x7b' inner), hfound]
  rfl

/-- What is left behind a closing brace: one semicolon is skipped. -/
def behindSemicolon (rest : Text) : Text :=
  match gapEnd rest with
  | ';' :: behind => behind
  | _ => rest

theorem semicolon_apply (rest : Text) : ∃ found, opt (afterGap (char ';')) rest = .ok found (behindSemicolon rest) := by
  unfold behindSemicolon
  split
  · next behind hgap => exact ⟨_, opt_of_ok (afterGap_char hgap)⟩
  · next hgap =>
    refine ⟨none, opt_of_mismatch (.afterGap (char_of_ne fun heq => ?_))⟩
    obtain ⟨behind, hbehind⟩ := List.head?_eq_some_iff.1 heq
    exact hgap behind hbehind

/-- A namespace is read if its body is read. -/
theorem parserWith_of_body {body : Parser Scope} {contents : Scope} (isInline : Bool) (hfirst : IsName first)
    (hlevels : ∀ level ∈ levels, IsName level.name) (hbody : body inner = .ok contents rest) :
    parserWith body (mark isInline ++ headText first levels inner) =
      .ok { nest contents (first :: levels.map name) with isInline } (behindSemicolon rest) := by
  obtain ⟨found, hsemicolon⟩ := semicolon_apply rest
  rw [parserWith_headText body isInline hfirst hlevels, bind_of_ok hbody, bind_of_ok hsemicolon]
  rfl

/-! ### Namespaces as items -/

theorem aliasStatement_of_headText (isInline : Bool) (hfirst : IsName first) (inner : Text) :
    Mismatches aliasStatement (mark isInline ++ headText first [] inner) := by
  have hends : EndsWord (' ' :: '\x7b' :: inner) := endsWord_cons (by decide) _
  cases isInline with
  | true =>
    refine aliasStatement_of_ne ?_
    have hword : IsWord "inline" := by decide
    have hends : EndsWord (' ' :: headText first [] inner) := endsWord_cons (by decide) _
    have hhead : headWord (mark true ++ headText first [] inner) = "inline".toList := headWord_append hword hends
    rw [hhead]
    decide
  | false =>
    have hread := beforeGap_of_ok (keyword_append "namespace"
      (endsWord_cons (by decide) (first ++ ' ' :: '\x7b' :: inner) : EndsWord (' ' :: _)))
    have hgap : gapEnd (' ' :: (first ++ ' ' :: '\x7b' :: inner)) = first ++ ' ' :: '\x7b' :: inner :=
      gapEnd_append_token isSpaces_one (startsToken_word hfirst.1 _)
    rw [hgap] at hread
    refine .textOf (.bind_of_ok hread (.bind_of_ok (identifier_append hfirst.1 hends) (.bind (.spaced (char_of_ne ?_)))))
    rw [gapEnd_brace_behind]
    exact head?_cons_ne (by decide) _

theorem head?_headText {c : Char} (hc : c ≠ 'i' ∧ c ≠ 'n') (isInline : Bool) (first : Text) (levels : List Level) (inner : Text) :
    (mark isInline ++ headText first levels inner).head? ≠ some c := by
  cases isInline with
  | false => exact head?_cons_ne hc.2.symm _
  | true => exact head?_cons_ne hc.1.symm _

theorem spaces0_headText (isInline : Bool) (first : Text) (inner : Text) :
    ∃ text, spaces0 (' ' :: (mark isInline ++ headText first [] inner)) = .ok text (mark isInline ++ headText first [] inner) :=
  spaces0_append isSpaces_one (startsToken_headText isInline first [] inner)

/-- A namespace in a block is an item of it. -/
theorem itemWith_of_namespace {room : Nat} {body : Parser Scope} {found : Namespace} (isInline : Bool) (hfirst : IsName first)
    (hread : parserWith body (mark isInline ++ headText first [] inner) = .ok found rest) :
    Scope.itemWith room body (' ' :: (mark isInline ++ headText first [] inner)) = .ok (.enclosed found) rest := by
  obtain ⟨text, hspaces⟩ := spaces0_headText isInline first inner
  have hsemicolon := char_of_ne (head?_headText (by decide : ';' ≠ 'i' ∧ ';' ≠ 'n') isInline first [] inner)
  have hnumber := directive_of_ne (head?_headText (by decide : '#' ≠ 'i' ∧ '#' ≠ 'n') isInline first [] inner)
  rw [Scope.itemWith, bind_of_ok hspaces, firstOf_of_mismatch hsemicolon.map, firstOf_of_mismatch hnumber.map,
    firstOf_of_mismatch (aliasStatement_of_headText isInline hfirst inner).map]
  exact firstOf_of_ok (map_of_ok hread)

/-- A block that holds one namespace. -/
theorem scope_of_namespace {room : Nat} {found : Namespace} (isInline : Bool) (hfirst : IsName first)
    (hread : parserWith (scope room true) (mark isInline ++ headText first [] inner) = .ok found ([' ', '\x7d'] ++ rest)) :
    scope (room + 1) true (' ' :: (mark isInline ++ headText first [] inner)) = .ok { namespaces := [found] } rest := by
  have hlength : ([' ', '\x7d'] ++ rest).length < (' ' :: (mark isInline ++ headText first [] inner)).length :=
    Nat.lt_succ_of_le (BoundedBy.suffix (C := committedConstructs) hread).length_le
  have hstop : Mismatches (Scope.scopeEnd true) (' ' :: (mark isInline ++ headText first [] inner)) := by
    obtain ⟨text, hspaces⟩ := spaces0_headText isInline first inner
    exact .bind_of_ok hspaces (Mismatches.map (char_of_ne (head?_headText (by decide) isInline first [] inner)))
  have hend : Scope.scopeEnd true ([' ', '\x7d'] ++ rest) = .ok () rest := by
    obtain ⟨text, hspaces⟩ := spaces0_append isSpaces_one (startsToken_cons (by decide) (by decide) rest : StartsToken ('\x7d' :: rest))
    exact (bind_of_ok hspaces).trans (map_of_ok (char_cons '\x7d' rest))
  have hitems : manyTill (Scope.itemWith room (scope room true)) (Scope.scopeEnd true)
      (' ' :: (mark isInline ++ headText first [] inner)) = .ok [.enclosed found] rest := by
    rw [manyTill_of_ok hstop (itemWith_of_namespace isInline hfirst hread) hlength, manyTill_of_stop hend]
    rfl
  rw [scope, map_of_ok hitems]
  rfl

/-! ### Nested and qualified definitions -/

theorem behindSemicolon_of_brace (rest : Text) : behindSemicolon ([' ', '\x7d'] ++ rest) = [' ', '\x7d'] ++ rest := by
  have hgap : gapEnd ([' ', '\x7d'] ++ rest) = '\x7d' :: rest := gapEnd_append_cons isSpaces_one (by decide) (by decide) rest
  unfold behindSemicolon
  rw [hgap]
  rfl

variable {depth : Nat} {body : Text} {contents : Scope}

/-- Nested namespaces are read, if the body of the innermost one is read in front of all their closing braces. -/
theorem parserWith_nestedText (isInline : Bool) (hfirst : IsName first) (hlevels : ∀ level ∈ levels, IsName level.name)
    (hbody : scope depth true (body ++ '\x7d' :: (closers levels.length ++ rest)) = .ok contents (closers levels.length ++ rest)) :
    parserWith (scope (levels.length + depth) true) (mark isInline ++ (nestedText first levels body ++ rest)) =
      .ok (nested isInline first levels contents) (behindSemicolon rest) := by
  induction levels generalizing isInline first rest with
  | nil =>
    have htext : nestedText first [] body ++ rest = headText first [] (body ++ '\x7d' :: rest) := by
      rw [nestedText, qualifiedText_append]
    rw [htext, List.length_nil, Nat.zero_add]
    exact parserWith_of_body isInline hfirst nofun hbody
  | cons level levels ih =>
    have htext : nestedText first (level :: levels) body ++ rest =
        headText first [] (' ' :: (mark level.isInline ++ (nestedText level.name levels body ++ ([' ', '\x7d'] ++ rest)))) := by
      rw [nestedText_cons_append]
    obtain ⟨hlevel, hlevels⟩ := List.forall_mem_cons.1 hlevels
    rw [List.length_cons, closers_succ, List.append_assoc] at hbody
    have hinner := ih level.isInline hlevel hlevels hbody
    rw [behindSemicolon_of_brace] at hinner
    rw [htext, List.length_cons, Nat.add_right_comm]
    have hhead : ∃ inner, nestedText level.name levels body ++ ([' ', '\x7d'] ++ rest) = headText level.name [] inner := by
      cases levels with
      | nil => exact ⟨_, by rw [nestedText, qualifiedText_append]⟩
      | cons next levels => exact ⟨_, nestedText_cons_append ..⟩
    obtain ⟨inner, hhead⟩ := hhead
    rw [hhead] at hinner ⊢
    exact parserWith_of_body isInline hfirst nofun (scope_of_namespace level.isInline hlevel hinner)

theorem parserWith_qualifiedText (hfirst : IsName first) (hlevels : ∀ level ∈ levels, IsName level.name)
    (hbody : scope depth true (body ++ '\x7d' :: rest) = .ok contents rest) :
    parserWith (scope (levels.length + depth) true) (qualifiedText first levels body ++ rest) =
      .ok (nested false first (levels.map unmarked) contents) (behindSemicolon rest) := by
  have hscope : scope (levels.length + depth) true (body ++ '\x7d' :: rest) = .ok contents rest := by
    have hcurtails : Curtails (scope depth true) (scope (depth + levels.length) true) := inferInstance
    rcases hcurtails.outcome (body ++ '\x7d' :: rest) with hsame | ⟨place, hdeep⟩
    · rw [Nat.add_comm, ← hsame, hbody]
    · rw [hbody] at hdeep
      cases hdeep
  have htext : qualifiedText first levels body ++ rest = mark false ++ headText first levels (body ++ '\x7d' :: rest) :=
    qualifiedText_append ..
  rw [htext, parserWith_of_body false hfirst hlevels hscope, nest_names]
  cases levels <;> rfl

end Namespace

open Level in
/-- A qualified definition means the nested ones it stands for, without the marks `inline` inside. The body is one that
ends with the brace behind it, whether the braces of the namespaces around follow or not. If it is closed, either of the two
readings gives the other one. -/
theorem namespaceBlock_qualified {first : Text} {levels : List Level} {depth : Nat} {body rest : Text} {contents : Scope}
    (hfirst : IsName first) (hlevels : ∀ level ∈ levels, IsName level.name)
    (hbody : ∀ behind ∈ [closers levels.length ++ rest, rest],
      scope depth true (body ++ '\x7d' :: behind) = .ok contents behind) :
    namespaceBlock (levels.length + depth) (nestedText first levels body ++ rest) =
      .ok (nested false first levels contents) (Namespace.behindSemicolon rest) ∧
    namespaceBlock (levels.length + depth) (qualifiedText first levels body ++ rest) =
      .ok (nested false first (levels.map unmarked) contents) (Namespace.behindSemicolon rest) ∧
    (nested false first (levels.map unmarked) contents = nested false first levels contents ↔
      ∀ level ∈ levels, level.isInline = false) := by
  simp only [List.forall_mem_cons, List.not_mem_nil, false_imp_iff, implies_true, and_true] at hbody
  exact ⟨Namespace.parserWith_nestedText false hfirst hlevels hbody.1,
    Namespace.parserWith_qualifiedText hfirst hlevels hbody.2, nested_unmarked_iff false first levels contents⟩

open Level in
set_option maxRecDepth 20000 in
/-- Three levels. The mark in front of the last one is kept by the nested form only. -/
theorem namespaceBlock_qualified_abc :
    namespaceBlock nestingLimit "namespace a \x7b namespace b \x7b inline namespace c \x7busing A;\x7d \x7d \x7d;".toList =
      .ok (nested false ['a'] [⟨false, ['b']⟩, ⟨true, ['c']⟩] { usings := [['A']] }) [] ∧
    namespaceBlock nestingLimit "namespace a::b::inline c \x7busing A;\x7d;".toList =
      .ok (nested false ['a'] [⟨false, ['b']⟩, ⟨false, ['c']⟩] { usings := [['A']] }) [] := by
  have hlevels : ∀ level ∈ [(⟨false, ['b']⟩ : Level), ⟨true, ['c']⟩], IsName level.name := by decide
  have hread : scope 62 true ("using A;".toList ++ '\x7d' :: [';']) = .ok { usings := [['A']] } [';'] := by cbv
  have hbody : ∀ behind ∈ [closers 2 ++ [';'], [';']], scope 62 true ("using A;".toList ++ '\x7d' :: behind) =
      .ok { usings := [['A']] } behind := fun behind _ => scope_of_closed (by decide) hread behind
  obtain ⟨hnested, hqualified, -⟩ := namespaceBlock_qualified (by decide : IsName ['a']) hlevels hbody
  have hend : Namespace.behindSemicolon [';'] = [] := by cbv
  have hnestedText : nestedText ['a'] [⟨false, ['b']⟩, ⟨true, ['c']⟩] "using A;".toList ++ [';'] =
      "namespace a \x7b namespace b \x7b inline namespace c \x7busing A;\x7d \x7d \x7d;".toList := by decide +kernel
  have hqualifiedText : qualifiedText ['a'] [⟨false, ['b']⟩, ⟨true, ['c']⟩] "using A;".toList ++ [';'] =
      "namespace a::b::inline c \x7busing A;\x7d;".toList := by decide +kernel
  rw [hend, hnestedText] at hnested
  rw [hend, hqualifiedText] at hqualified
  exact ⟨hnested, hqualified⟩

set_option maxRecDepth 20000 in
/-- The mark of an inner name is lost. -/
theorem namespaceBlock_qualified_inline : ∃ first second,
    namespaceBlock nestingLimit "namespace a \x7b inline namespace b \x7b\x7d \x7d".toList = .ok first [] ∧
    namespaceBlock nestingLimit "namespace a::inline b \x7b\x7d".toList = .ok second [] ∧
    first.scope.namespaces.map Enclosed.isInline = [true] ∧ second.scope.namespaces.map Enclosed.isInline = [false] := by
  refine ⟨Level.nested false ['a'] [⟨true, ['b']⟩] {}, Level.nested false ['a'] [⟨false, ['b']⟩] {}, ?_, ?_, rfl, rfl⟩
  · cbv
  · cbv

end HeaderOutline
