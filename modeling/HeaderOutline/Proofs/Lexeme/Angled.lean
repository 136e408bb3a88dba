import HeaderOutline.Proofs.Lexeme.Expression
import HeaderOutline.Proofs.Lexeme.Nested
/-!
# Angle brackets in expressions

What stands between commas in a template list may hold lists of its own. The scan counts angle brackets while no other bracket is
open, and inside parentheses they compare. So a text is read to its end, up to the comma or `>` behind it, if its angle brackets
match wherever nothing else is open, and its commas stand in brackets of one kind or another.
-/

namespace HeaderOutline

open HeaderOutline.Parser HeaderOutline.Scan

variable {text rest : Text} {opened : List Char} {c : Char}

/-- Code in which the brackets match, angle brackets among them where no other bracket is open. The flag tells whether a
comma stands outside of all brackets. -/
inductive Angled : Bool → Text → Prop
  | nil : Angled false []
  | other {c : Char} (hc : c ∉ ['(', '[', '{', ')', ']', '}', '<', '>', ';', ',']) : Angled false [c]
  | comma : Angled true [',']
  | append {inFront behind : Bool} {front back : Text} (hfront : Angled inFront front) (hback : Angled behind back) :
    Angled (inFront || behind) (front ++ back)
  | angles {inside : Bool} {text : Text} (htext : Angled inside text) : Angled false ('<' :: text ++ ['>'])
  | block {opener closer : Char} {code : Text} (hpair : IsBracketPair opener closer) (hcode : Matched code) :
    Angled false (opener :: code ++ [closer])

/-- A character that ends no expression does to the brackets what it does as a bracket. -/
theorem openedBehind_of_goes (hgoes : opened = [] → c ≠ ';' ∧ c ≠ ',') (angles : Bool) :
    openedBehind [','] angles opened c = bracketsBehind angles opened c := by
  rw [openedBehind, if_neg]
  intro hends
  obtain ⟨hempty, hends⟩ := Bool.and_eq_true_iff.1 hends
  obtain ⟨hsemicolon, hcomma⟩ := hgoes (List.isEmpty_iff.1 hempty)
  rcases (Bool.or_eq_true _ _).mp hends with heq | hstop
  · exact hsemicolon (by simpa using heq)
  · exact hcomma (isStop_comma.1 hstop)

/-- What is open stays open, as long as only angle brackets are open and a comma outside is not one that ends the expression. -/
theorem opened_of_angled {outside : Bool} (htext : Angled outside text) (hopened : ∀ c ∈ opened, c = '<')
    (hcomma : outside = true → opened ≠ []) : text.foldlM (openedBehind [','] true) opened = some opened := by
  induction htext generalizing opened with
  | nil => rfl
  | @other c hc =>
    have hgoes : opened = [] → c ≠ ';' ∧ c ≠ ',' := fun _ => by simp_all
    rw [List.foldlM_cons, openedBehind_of_goes hgoes, bracketsBehind_of_ne fun hmem => hc (List.mem_append_left [';', ','] hmem)]
    rfl
  | comma =>
    rw [List.foldlM_cons, openedBehind_of_goes fun hnil => absurd hnil (hcomma rfl), bracketsBehind_of_ne (by decide)]
    rfl
  | append _ _ ihfront ihback =>
    rw [List.foldlM_append, ihfront hopened fun h => hcomma (by rw [h, Bool.true_or])]
    exact ihback hopened fun h => hcomma (by rw [h, Bool.or_true])
  | angles _ ih =>
    have hinner : ∀ c ∈ '<' :: opened, c = '<' := List.forall_mem_cons.2 ⟨rfl, hopened⟩
    refine foldlM_bracketed ?_ (ih hinner fun _ => List.cons_ne_nil _ _) rfl
    rw [openedBehind_of_goes fun _ => by decide, bracketsBehind_less, if_pos ⟨rfl, hopened⟩]
  | @block opener closer code hpair hcode =>
    have hangle : (opener :: opened).head? ≠ some '<' := fun hhead => hpair.opener_ne (by decide) (Option.some.inj hhead)
    refine foldlM_bracketed ?_ (opened_of_matched hcode [','] true (List.cons_ne_nil _ _) hangle) ?_
    · have hgoes : opener ≠ ';' ∧ opener ≠ ',' := ⟨hpair.opener_ne (by decide), hpair.opener_ne (by decide)⟩
      rw [openedBehind_of_goes fun _ => hgoes, bracketsBehind_opener hpair.opener_mem]
    · rw [openedBehind_of_goes fun hnil => absurd hnil (List.cons_ne_nil _ _), bracketsBehind_closer hpair]

theorem walks_of_forall (htext : ∀ c ∈ text, c ∉ ['\'', '"', '/']) (before : Text) : Walks rest before text text := by
  induction text generalizing before with
  | nil => exact .nil
  | cons c text ih =>
    obtain ⟨hc, htext⟩ := List.forall_mem_cons.1 htext
    exact .code (isCode_of_ne hc _) (ih htext (c :: before))

/-- A text with its commas in brackets is read up to the comma or angle bracket behind it. -/
theorem expression_angled (htext : Angled false text) (hcode : ∀ c ∈ text, c ∉ ['\'', '"', '/'])
    (hhead : ∀ c ∈ text.head?, Text.isBlank c = false) (hlast : ∀ c ∈ text.getLast?, Text.isBlank c = false) (hne : text ≠ [])
    (hc : c ∈ [',', '>']) (rest : Text) : expression [','] true (text ++ c :: rest) = .ok text (c :: rest) := by
  have hplain : ∀ c ∈ [',', '>'], c ∉ ['\'', '"', '/'] := by decide
  have hend : openedBehind [','] true [] c = none := by
    simp only [List.mem_cons, List.not_mem_nil, or_false] at hc
    rcases hc with rfl | rfl <;> rfl
  have hscan : expressionFrom [','] true [] .code [] (text ++ c :: rest) = (text, c :: rest) := by
    rw [expressionFrom_eq_run, run_walks (walks_of_forall hcode []) (opened_of_angled htext (List.forall_mem_nil _) nofun), run_of_stop (isCode_of_ne (hplain c hc) rest) hend,
      List.append_nil, List.reverse_reverse]
  rw [expression_eq, hscan]
  dsimp only
  rw [Text.trim_of_ends hhead hlast, if_neg hne]

end HeaderOutline
