import HeaderOutline.Proofs.Record.Fork
/-!
# What stands in front of an item

The items in front of a place in a class body are read up to the place, and from there on the body is read as it would be
alone. What stands at the place makes no difference to the items in front of it if these are closed: statements of closed
texts and labels, and behind the last of them nothing but white space. If a comment line is the last of them, another one
goes to the same item.
-/

namespace HeaderOutline

open HeaderOutline.Parser

variable {room : Nat} {place place' input input' rest : Text} {head : Record} {items : List RecordItem}

/-! ### Places in a body -/

/-- The items of a body that begins here come to the place in front of which these are read. -/
abbrev ReadsUpTo (room : Nat) (place : Text) : Text → List RecordItem → Prop := ItemsUpTo (recordItem room) recordEnd place

/-- A class is read up to a place in its body: its head, and the items in front of the place. -/
def RecordReadsUpTo (room : Nat) (place : Text) (head : Record) (items : List RecordItem) (text : Text) : Prop :=
  ∃ behind inside, recordHead (room + 1) text = .ok head behind ∧ head.isForwardDeclaration = false ∧
    afterGap (char '\x7b') behind = .ok '\x7b' inside ∧ ReadsUpTo room place inside items

theorem RecordReadsUpTo.split {text : Text} (hreads : RecordReadsUpTo room place head items text) {found : Record}
    (hrecord : recordDefinition (room + 1) text = .ok found rest) :
    ∃ later, recordBody (room + 1) place = .ok later rest ∧
      found = head.addItems head.kind.defaultAccess (items ++ later) := by
  obtain ⟨behind, inside, hhead, hforward, hbrace, hbody⟩ := hreads
  rw [recordDefinition, recordDefinitionWith_eq, bind_of_ok hhead, hforward, if_neg Bool.false_ne_true,
    bind_of_ok hbrace] at hrecord
  obtain ⟨all, last, hall, hfound⟩ := bind_eq_ok.1 hrecord
  cases hfound
  obtain ⟨later, rfl, hlater⟩ := hbody.split hall
  exact ⟨later, hlater, rfl⟩

theorem RecordReadsUpTo.join {text : Text} {later : List RecordItem} (hreads : RecordReadsUpTo room place head items text)
    (hlater : recordBody (room + 1) place = .ok later rest) :
    recordDefinition (room + 1) text = .ok (head.addItems head.kind.defaultAccess (items ++ later)) rest := by
  obtain ⟨behind, inside, hhead, hforward, hbrace, hbody⟩ := hreads
  have hall : recordBody (room + 1) inside = .ok (items ++ later) rest := hbody.join hlater
  rw [recordDefinition, recordDefinitionWith_eq, bind_of_ok hhead, hforward, if_neg Bool.false_ne_true,
    bind_of_ok hbrace, bind_of_ok hall]
  rfl

/-! ### Two places behind the same items -/

/-- The items in front of the place in the first text are those in front of the other one in the second text. -/
structure ItemsAgree (room : Nat) (place place' input input' : Text) : Prop where
  suffix : place <:+ input
  readsUpTo : ∀ {items}, ReadsUpTo room place input items → ReadsUpTo room place' input' items

/-- A semicolon in both runs. -/
def semicolonEnds (input input' : Text) : EndPair where
  stop := ';'
  stop' := ';'
  back := input
  back' := input'
  marks := by decide

theorem agree_semicolonEnds (input input' : Text) : (semicolonEnds input input').Agree where
  same := rfl
  mem := List.mem_cons_self

theorem recordEnd_forks {ends : EndPair} (hends : ends.Lacks '\x7d') :
    Forks ends (IsPlace true []) (IsPlace true []) recordEnd recordEnd := by
  have hbrace : Blind ends (IsPlace true []) (IsPlace true []) (char '\x7d') :=
    char_blind (fun _ => hends) fun htext => htext.behind (Scan.isCode_of_ne (by decide) _) fun _ _ => List.nil_sublist _
  exact spaces0_blind.forks.bind fun _ => hbrace.forks

/-- What is not white space is not skipped up to a place. -/
theorem ReadsUpTo.exists_item {front : Text} (hreads : ReadsUpTo room place (front ++ input) items) (hplace : place <:+ input)
    {c : Char} (hc : c ∈ front) (hspace : isSpace c = false) : ∃ item behind others, items = item :: others ∧
      Mismatches recordEnd (front ++ input) ∧ recordItem room (front ++ input) = .ok item behind ∧
        ReadsUpTo room place behind others := by
  generalize htext : front ++ input = text at hreads
  cases hreads with
  | here hspaces =>
    obtain ⟨back, rfl⟩ := hplace
    rw [← List.append_assoc] at htext
    obtain rfl := List.append_cancel_right htext
    exact absurd ((hspaces c (List.mem_append_left back hc)).symm.trans hspace) (by decide)
  | item hend hitem hbehind => exact ⟨_, _, _, rfl, hend, hitem, hbehind⟩

theorem accessLabel_append {word : String} (hword : word ∈ ["public", "protected", "private"]) (hrest : rest.head? ≠ some ':') :
    accessLabel (word.toList ++ ':' :: rest) = .ok (.ofWord word.toList) rest := by
  have hends : EndsWord (':' :: rest) := CType.endsWord_cons (by decide) rest
  have hgap : gapEnd (':' :: rest) = ':' :: rest := gapEnd_cons (by decide) (by decide) rest
  have hslots : Mismatches (afterGap (anyKeyword ["slots", "Q_SLOTS"])) (':' :: rest) := by
    refine .afterGap (anyKeyword_of_ne (by decide) ?_)
    rw [hgap, headWord_of_endsWord hends]
    decide
  rw [accessLabel, bind_of_ok (firstOf_of_ok (map_of_ok (anyKeyword_append (by decide) hword hends))),
    bind_of_ok (opt_of_mismatch hslots), bind_of_ok (afterGap_char hgap), bind_of_ok (notFollowedBy_of_mismatch (char_of_ne hrest))]
  rfl

theorem recordEnd_label {word : String} (hword : word ∈ ["public", "protected", "private"]) (rest : Text) :
    Mismatches recordEnd (word.toList ++ rest) := by
  simp only [List.mem_cons, List.not_mem_nil, or_false] at hword
  rcases hword with rfl | rfl | rfl <;> exact .bind_of_ok (p := spaces0) rfl (char_of_ne (head?_cons_ne (by decide) _))

theorem recordItem_label {word : String} (hword : word ∈ ["public", "protected", "private"]) (hrest : rest.head? ≠ some ':') :
    recordItem room (word.toList ++ ':' :: rest) = .ok (.access (.ofWord word.toList)) rest := by
  have hlabel := accessLabel_append hword hrest
  have hwords : ∀ word ∈ ["public", "protected", "private"], word.toList ≠ [] ∧
      ∀ c ∈ word.toList.head?, isSpace c = false ∧ c ≠ ';' ∧ c ≠ '#' := by decide
  obtain ⟨hne, hhead⟩ := hwords word hword
  obtain ⟨c, word', heq⟩ := List.exists_cons_of_ne_nil hne
  obtain ⟨hspace, hsemicolon, hnumber⟩ := hhead c (by rw [heq]; rfl)
  rw [heq, List.cons_append] at hlabel ⊢
  have hsemicolon : Mismatches (char ';') (c :: (word' ++ ':' :: rest)) := char_of_ne (head?_cons_ne hsemicolon _)
  have hdirective : Mismatches directive (c :: (word' ++ ':' :: rest)) := directive_of_ne (head?_cons_ne hnumber _)
  rw [recordItem, RecordItem.recordItemWith_apply (by rintro d ⟨⟩; exact hspace)]
  exact (firstOf_of_mismatch hsemicolon.map).trans ((firstOf_of_mismatch hdirective.map).trans (firstOf_of_ok (map_of_ok hlabel)))

namespace ItemsAgree

variable {text text' spaces : Text}

theorem of_isSpaces (hspaces : IsSpaces spaces) (place place' : Text) :
    ItemsAgree room place place' (spaces ++ place) (spaces ++ place') where
  suffix := List.suffix_append spaces place
  readsUpTo hreads := by
    obtain rfl := ItemsUpTo.eq_nil hspaces hreads
    exact .here hspaces

/-- The items of a closed text do not see what stands behind the semicolon that ends the last one. -/
theorem of_fork (hagree : ItemsAgree room place place' input input') (hreads : ReadsUpTo room place text items)
    (htext : Fork (semicolonEnds input input') (IsPlace true []) text text') : ReadsUpTo room place' text' items := by
  have hends := agree_semicolonEnds input input'
  induction hreads generalizing text' with
  | @here before hbefore =>
    generalize hplace : before ++ place = text at htext
    obtain ⟨_⟩ := htext
    rename_i front _
    obtain ⟨back, hback⟩ := hagree.suffix
    have hbehind : before ++ place = (front ++ ';' :: back) ++ place := by
      rw [List.append_assoc, List.cons_append, hback]
      exact hplace
    have hsemicolon : ';' ∈ before := by
      rw [List.append_cancel_right hbehind]
      exact List.mem_append_right front List.mem_cons_self
    exact absurd (hbefore ';' hsemicolon) (by decide)
  | item hend hitem hbehind ih =>
    have hlacks : (semicolonEnds input input').Lacks '\x7d' := by
      change '\x7d' ∉ [';', ';']
      decide
    obtain ⟨rest', hitem', hrest⟩ := ((recordItem_alike hends isBody_nil room).outcome htext).exists_ok hitem
    refine .item ((recordEnd_forks hlacks).mismatches htext hend) hitem' ?_
    cases hrest with
    | within hrest => exact ih hrest
    | behind => exact hagree.readsUpTo hbehind

theorem behind_closed (hagree : ItemsAgree room place place' input input') {body : Text} (hclosed : IsClosed true body) :
    ItemsAgree room place place' (body ++ ';' :: input) (body ++ ';' :: input') where
  suffix := (hagree.suffix.trans (List.suffix_cons ';' input)).trans (List.suffix_append body _)
  readsUpTo hreads := hagree.of_fork hreads (.intro hclosed.isStart.isPlace)

/-- An item that both runs read in the same way. -/
theorem behind_item (hagree : ItemsAgree room place place' input input') {item : RecordItem}
    (hitem : recordItem room text = .ok item input) (hitem' : recordItem room text' = .ok item input')
    (hend : Mismatches recordEnd text') : ItemsAgree room place place' text text' where
  suffix := hagree.suffix.trans (Bounded.suffix hitem)
  readsUpTo hreads := by
    cases hreads with
    | here hspaces =>
      rw [IgnoresSpaces.append (p := recordItem room) hspaces] at hitem
      exact absurd hagree.suffix.length_le (Nat.not_le.2 (Consuming.lt hitem))
    | item _ hread hbehind =>
      cases hitem.symm.trans hread
      exact .item hend hitem' (hagree.readsUpTo hbehind)

/-- Behind a label stands white space. -/
theorem behind_label {c : Char} (hc : isSpace c = true) (hagree : ItemsAgree room place place' (c :: input) (c :: input'))
    {word : String} (hword : word ∈ ["public", "protected", "private"]) :
    ItemsAgree room place place' (word.toList ++ ':' :: c :: input) (word.toList ++ ':' :: c :: input') := by
  have hcolon : c ≠ ':' := by
    rintro rfl
    exact absurd hc (by decide)
  exact hagree.behind_item (recordItem_label hword (head?_cons_ne hcolon input))
    (recordItem_label hword (head?_cons_ne hcolon input')) (recordEnd_label hword _)

/-- A comment line behind the comment line at the end of the text goes to the same item. -/
theorem commentLine {first line : Text} (hspaces : IsSpaces spaces) (hfirst : ∀ c ∈ first, isInLine c = true)
    (hline : ∀ c ∈ line, isInLine c = true) (place : Text) :
    ItemsAgree room place place (spaces ++ (commentLine first ++ place))
      (spaces ++ (commentLine first ++ (commentLine line ++ place))) where
  suffix := (List.suffix_append _ place).trans (List.suffix_append spaces _)
  readsUpTo hreads := by
    have hcomment (tail : Text) : Mismatches recordEnd (HeaderOutline.commentLine first ++ tail) :=
      .bind_of_ok (p := spaces0) rfl (char_of_ne (head?_cons_ne (c := '/') (by decide) _))
    have hend (tail : Text) : Mismatches recordEnd (spaces ++ (HeaderOutline.commentLine first ++ tail)) := by
      rw [Mismatches, IgnoresSpaces.append (p := recordEnd) hspaces]
      exact hcomment tail
    rw [← List.append_assoc] at hreads
    obtain ⟨item, behind, others, rfl, -, hitem, hbehind⟩ :=
      hreads.exists_item (List.suffix_refl place) (List.mem_append_right spaces List.mem_cons_self) (by decide)
    rw [List.append_assoc, IgnoresSpaces.append (p := recordItem room) hspaces] at hitem
    refine .item (hend _) ?_ hbehind
    rw [IgnoresSpaces.append (p := recordItem room) hspaces]
    exact RecordItem.recordItemWith_commentLines hline hfirst hitem hbehind.length_le

end ItemsAgree

/-! ### Heads -/

/-- The opening brace of a body with what stands behind it. -/
def braceEnds (behind behind' : Text) : EndPair where
  stop := '\x7b'
  stop' := '\x7b'
  back := behind
  back' := behind'
  marks := by decide

/-- Behind a closed head the body is read up to either place. -/
theorem RecordReadsUpTo.of_closed {text : Text} (hclosed : IsClosed true text) (hbrace : '\x7b' ∉ text)
    (hagree : ItemsAgree room place place' input input')
    (hreads : RecordReadsUpTo room place head items (text ++ '\x7b' :: input)) :
    RecordReadsUpTo room place' head items (text ++ '\x7b' :: input') := by
  obtain ⟨behind, body, hhead, hforward, hopen, hbody⟩ := hreads
  have htext : Fork (braceEnds input input') (IsPlace true []) (text ++ '\x7b' :: input) (text ++ '\x7b' :: input') :=
    .intro hclosed.isStart.isPlace
  have hcomma : (braceEnds input input').Lacks ',' := by
    change ',' ∉ ['\x7b', '\x7b']
    decide
  obtain ⟨behind', hhead', hfork⟩ := ((recordHead_forks rfl hcomma (room + 1)).outcome htext).exists_ok hhead
  have hsuffix : behind <:+ text ++ '\x7b' :: input := Bounded.suffix hhead
  obtain ⟨hrest⟩ := hfork
  rename_i rest
  have hend (tail : Text) : IsEnd ('\x7b' :: tail) := ⟨'\x7b', by decide, rfl⟩
  obtain ⟨last, -, hgap⟩ := hrest.exists_gapEnd
  have hskipped : gapEnd (rest ++ '\x7b' :: input) = last ++ '\x7b' :: input := hgap _ (hend _)
  have hlast : last <:+ text := by
    obtain ⟨front, hfront⟩ := (hskipped ▸ gapEnd_suffix _).trans hsuffix
    exact ⟨front, List.append_cancel_right ((List.append_assoc ..).trans hfront)⟩
  have hcons : last ++ '\x7b' :: input = '\x7b' :: body := by
    have hread : char '\x7b' (gapEnd (rest ++ '\x7b' :: input)) = .ok '\x7b' body := hopen
    rw [hskipped] at hread
    exact (char_eq_ok.1 hread).2
  -- What is left of the head is skipped, since it has no brace.
  cases last with
  | nil =>
    obtain rfl := (List.cons.inj hcons).2
    exact ⟨_, _, hhead', hforward, afterGap_char (hgap _ (hend _)), hagree.readsUpTo hbody⟩
  | cons c last =>
    obtain ⟨rfl, -⟩ := List.cons.inj hcons
    exact absurd (hlast.mem List.mem_cons_self) hbrace

end HeaderOutline
