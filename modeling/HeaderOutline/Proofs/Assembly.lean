import Mathlib
import HeaderOutline.Proofs.Grammar
import HeaderOutline.Proofs.Lexeme
/-!
# How a scope is assembled

A scope is read item by item. `ReadAs` says how: each item is read behind the one before it, and the contents
of a block with a language linkage are read in the same way. Every list of the scope then holds what the items
add to it, one behind the other in the order of the text. The items of a block with a language linkage stand
for the block, so the block itself may as well be left out, however deep such blocks are nested.
-/

namespace HeaderOutline

open HeaderOutline.Parser

namespace Scope

/-! ### What an item adds to each list -/

namespace Added

def namespaces : ScopeItem → List Namespace
  | .enclosed inner => [inner]
  | .linkage contents => contents.namespaces
  | _ => []

/-- A typedef adds the class that it defines in place. -/
def records : ScopeItem → List Record
  | .record record => [record]
  | .typedef typedef => typedef.record.toList
  | .linkage contents => contents.records
  | _ => []

def functions : ScopeItem → List FunctionDecl
  | .function function => [function]
  | .linkage contents => contents.functions
  | _ => []

def vars : ScopeItem → List Variable
  | .vars declared => declared
  | .linkage contents => contents.vars
  | _ => []

/-- A typedef adds the enumeration that it defines in place. -/
def enumerations : ScopeItem → List Enumeration
  | .enumeration enumeration => [enumeration]
  | .typedef typedef => typedef.enumeration.toList
  | .linkage contents => contents.enumerations
  | _ => []

def aliases : ScopeItem → List Alias
  | .usingAlias declared => [declared]
  | .typedef typedef => typedef.aliases
  | .linkage contents => contents.aliases
  | _ => []

def usings : ScopeItem → List Text
  | .using target => [target]
  | .linkage contents => contents.usings
  | _ => []

def comments : ScopeItem → List Text
  | .comment text => [text]
  | .linkage contents => contents.comments
  | _ => []

def inclusions : ScopeItem → List Include
  | .directive (.includes target) => [target]
  | .linkage contents => contents.inclusions
  | _ => []

def definitions : ScopeItem → List Define
  | .directive (.defines definition) => [definition]
  | .linkage contents => contents.definitions
  | _ => []

def pragmas : ScopeItem → List Text
  | .directive (.pragma text) => [text]
  | .linkage contents => contents.pragmas
  | _ => []

def conditionals : ScopeItem → List Text
  | .directive (.conditional text) => [text]
  | .linkage contents => contents.conditionals
  | _ => []

end Added

variable {contents first second : Scope} {items before after : List ScopeItem}

/-- Each list of the scope holds what the items add to it, in the order of the items. -/
structure Collects (contents : Scope) (items : List ScopeItem) : Prop where
  namespaces : contents.namespaces = items.flatMap Added.namespaces
  records : contents.records = items.flatMap Added.records
  functions : contents.functions = items.flatMap Added.functions
  vars : contents.vars = items.flatMap Added.vars
  enumerations : contents.enumerations = items.flatMap Added.enumerations
  aliases : contents.aliases = items.flatMap Added.aliases
  usings : contents.usings = items.flatMap Added.usings
  comments : contents.comments = items.flatMap Added.comments
  inclusions : contents.inclusions = items.flatMap Added.inclusions
  definitions : contents.definitions = items.flatMap Added.definitions
  pragmas : contents.pragmas = items.flatMap Added.pragmas
  conditionals : contents.conditionals = items.flatMap Added.conditionals

theorem flatMap_append_of_eq {α : Type} {added : ScopeItem → List α} {firsts seconds : List α}
    (hfirsts : firsts = before.flatMap added) (hseconds : seconds = after.flatMap added) :
    firsts ++ seconds = (before ++ after).flatMap added := by rw [List.flatMap_append, hfirsts, hseconds]

theorem Collects.append (hfirst : first.Collects before) (hsecond : second.Collects after) :
    (first ++ second).Collects (before ++ after) := by
  constructor
  · exact flatMap_append_of_eq hfirst.namespaces hsecond.namespaces
  · exact flatMap_append_of_eq hfirst.records hsecond.records
  · exact flatMap_append_of_eq hfirst.functions hsecond.functions
  · exact flatMap_append_of_eq hfirst.vars hsecond.vars
  · exact flatMap_append_of_eq hfirst.enumerations hsecond.enumerations
  · exact flatMap_append_of_eq hfirst.aliases hsecond.aliases
  · exact flatMap_append_of_eq hfirst.usings hsecond.usings
  · exact flatMap_append_of_eq hfirst.comments hsecond.comments
  · exact flatMap_append_of_eq hfirst.inclusions hsecond.inclusions
  · exact flatMap_append_of_eq hfirst.definitions hsecond.definitions
  · exact flatMap_append_of_eq hfirst.pragmas hsecond.pragmas
  · exact flatMap_append_of_eq hfirst.conditionals hsecond.conditionals

theorem collects_nil : Collects {} [] := by constructor <;> rfl

theorem collects_ofItem (item : ScopeItem) : (ofItem item).Collects [item] := by
  cases item with
  | directive directive => cases directive <;> constructor <;> rfl
  | linkage contents => constructor <;> exact (List.append_nil _).symm
  | typedef typedef => constructor <;> first | rfl | exact (List.append_nil _).symm
  | vars declared => constructor <;> first | rfl | exact (List.append_nil _).symm
  | _ => constructor <;> rfl

theorem collects_ofItems (items : List ScopeItem) : (ofItems items).Collects items := by
  induction items with
  | nil => exact collects_nil
  | cons item items ih => exact (collects_ofItem item).append ih

theorem empty_append (contents : Scope) : {} ++ contents = contents := by
  cases contents
  rfl

theorem append_assoc (first second third : Scope) : first ++ second ++ third = first ++ (second ++ third) := by
  change append (append first second) third = append first (append second third)
  simp only [append, List.append_assoc]

theorem ofItems_append (before after : List ScopeItem) : ofItems (before ++ after) = ofItems before ++ ofItems after := by
  induction before with
  | nil => exact (empty_append _).symm
  | cons item before ih =>
    change ofItem item ++ ofItems (before ++ after) = ofItem item ++ ofItems before ++ ofItems after
    rw [ih, append_assoc]

/-! ### Readings -/

/-- An item with its text and the white space in front of it. The items of a block with a language linkage stand
between the text that opens the block and the text that closes it. -/
inductive Reading where
  | item (space text : Text) (item : ScopeItem)
  | block (space opening : Text) (body : List Reading) (closing : Text) (contents : Scope)

namespace Reading

/-- The item that is read: a block stands for its contents. -/
def found : Reading → ScopeItem
  | .item _ _ read => read
  | .block _ _ _ _ contents => .linkage contents

mutual

def text : Reading → Text
  | .item space text _ => space ++ text
  | .block space opening body closing _ => space ++ (opening ++ (texts body ++ closing))

def texts : List Reading → Text
  | [] => []
  | reading :: readings => text reading ++ texts readings

end

mutual

/-- The items without the blocks around them. -/
def leaves : Reading → List ScopeItem
  | .item _ _ read => [read]
  | .block _ _ body _ _ => allLeaves body

def allLeaves : List Reading → List ScopeItem
  | [] => []
  | reading :: readings => leaves reading ++ allLeaves readings

end

end Reading

open Reading

/-- An item may begin here: the text goes on, and not with the brace that closes the block. -/
structure Opens (isBlock : Bool) (text : Text) : Prop where
  nonempty : text ≠ []
  not_space : ∀ c ∈ text.head?, isSpace c = false
  not_closing : isBlock = true → text.head? ≠ some '\x7d'

/-- What stands between the last item and the rest: white space, and the brace that closes a block. A scope
that is no block goes on to the end of the text. -/
inductive Ends : (isBlock : Bool) → (ending rest : Text) → Prop where
  | block {space rest : Text} (hspace : IsSpaces space) : Ends true (space ++ ['\x7d']) rest
  | whole {space : Text} (hspace : IsSpaces space) : Ends false space []

/-- `extern "C" {`, in front of the contents of a block with a language linkage. -/
def linkageOpening : Parser Char := do
  let _ ← beforeGap (keyword "extern")
  let _ ← firstOf [literal "\"C\"", literal "\"C++\""]
  afterGap (char '\x7b')

/-- The items that are read one behind the other in front of `rest`, each where the one before it ends. What a
block with a language linkage comes to is the scope of its body. -/
inductive ReadAs : (isBlock : Bool) → (room : Nat) → List Reading → (rest : Text) → Prop where
  | nil {isBlock : Bool} {room : Nat} {rest : Text} : ReadAs isBlock room [] rest
  | item {isBlock : Bool} {room : Nat} {space text rest : Text} {item : ScopeItem} {readings : List Reading}
      (hspace : IsSpaces space) (htext : Opens isBlock text) (hitem : ∀ contents, item ≠ .linkage contents)
      (hread : scopeItem room (space ++ (text ++ (texts readings ++ rest))) = .ok item (texts readings ++ rest))
      (htail : ReadAs isBlock room readings rest) :
      ReadAs isBlock room (.item space text item :: readings) rest
  | block {isBlock : Bool} {room : Nat} {space opening closing rest : Text} {contents : Scope}
      {body readings : List Reading}
      (hspace : IsSpaces space) (htext : Opens isBlock opening)
      (hread : scopeItem (room + 1) (space ++ (opening ++ (texts body ++ (closing ++ (texts readings ++ rest))))) =
        .ok (.linkage contents) (texts readings ++ rest))
      (hopening : linkageOpening (opening ++ (texts body ++ (closing ++ (texts readings ++ rest)))) =
        .ok '\x7b' (texts body ++ (closing ++ (texts readings ++ rest))))
      (hcontents : scope (room + 1) true (texts body ++ (closing ++ (texts readings ++ rest))) =
        .ok contents (texts readings ++ rest))
      (hbody : ReadAs true room body (closing ++ (texts readings ++ rest)))
      (hclosing : Ends true closing (texts readings ++ rest))
      (hcollects : contents.Collects (body.map found))
      (htail : ReadAs isBlock (room + 1) readings rest) :
      ReadAs isBlock (room + 1) (.block space opening body closing contents :: readings) rest

/-! ### Taking a scope apart -/

section Room

variable {room : Nat} {body : Parser Scope} {isBlock : Bool} {input mid rest : Text} {item : ScopeItem}

theorem scopeEnd_true (input : Text) :
    scopeEnd true input = (char '}' (input.dropWhile isSpace)).map fun _ => () := by
  rw [scopeEnd, bind_of_ok (p := spaces0) rfl, if_pos rfl, map_apply]

theorem linkageBlock_eq (body : Parser Scope) : linkageBlock body = linkageOpening >>= fun _ => body := by
  unfold linkageBlock linkageOpening
  simp only [bind_assoc]

/-- White space in front of an item makes no difference. -/
theorem itemWith_dropWhile (room : Nat) (body : Parser Scope) (input : Text) :
    itemWith room body (input.dropWhile isSpace) = itemWith room body input := by
  unfold itemWith
  rw [bind_apply, bind_apply, spaces0, Parser.takeWhile, Parser.takeWhile, List.dropWhile_idempotent]
  rfl

/-- Only a block with a language linkage is read as one. -/
theorem linkageBlock_of_itemWith (hitem : itemWith room body input = .ok (.linkage contents) rest) :
    linkageBlock body (input.dropWhile isSpace) = .ok contents rest := by
  obtain ⟨_, place, hspaces, hchoice⟩ := bind_eq_ok.1 hitem
  cases hspaces
  -- Of all alternatives, one gives an item of this kind.
  simpa [map_eq_ok, unrecognized] using firstOf_eq_ok hchoice

theorem exists_text_of_itemWith [Bounded body] (hitem : itemWith room body input = .ok item mid) :
    ∃ text, text ≠ [] ∧ input.dropWhile isSpace = text ++ mid := by
  rw [← itemWith_dropWhile] at hitem
  obtain ⟨text, htext⟩ := Bounded.suffix hitem
  refine ⟨text, ?_, htext.symm⟩
  rintro rfl
  have hlt := Consuming.lt hitem
  rw [← htext] at hlt
  exact Nat.lt_irrefl _ hlt

theorem opens_of_not_ended (hstop : Mismatches (scopeEnd isBlock) input) {text : Text} (htext : text ≠ [])
    (hinput : input.dropWhile isSpace = text ++ mid) : Opens isBlock text where
  nonempty := htext
  not_space c hc := by
    have hhead := List.head?_dropWhile_not isSpace input
    rw [hinput, List.head?_append_of_ne_nil _ htext, hc] at hhead
    exact hhead
  not_closing hblock hhead := by
    subst hblock
    obtain ⟨trace, hstop⟩ := hstop
    obtain ⟨tail, rfl⟩ := List.head?_eq_some_iff.1 hhead
    rw [scopeEnd_true, hinput, List.cons_append, char_cons] at hstop
    cases hstop

theorem ends_of_scopeEnd (hstop : scopeEnd isBlock input = .ok () rest) :
    ∃ ending, input = ending ++ rest ∧ Ends isBlock ending rest := by
  have hspaces := isSpaces_takeWhile input
  have hinput : input.takeWhile isSpace ++ input.dropWhile isSpace = input := List.takeWhile_append_dropWhile
  cases isBlock with
  | true =>
    rw [scopeEnd_true] at hstop
    obtain ⟨c, hchar, -⟩ := Outcome.map_eq_ok.1 hstop
    rw [(char_eq_ok.1 hchar).2] at hinput
    exact ⟨input.takeWhile isSpace ++ ['}'], by rw [List.append_assoc]; exact hinput.symm, .block hspaces⟩
  | false =>
    obtain ⟨_, place, hplace, heof⟩ := bind_eq_ok.1 hstop
    cases hplace
    obtain ⟨hplace, rfl⟩ := eof_eq_ok.1 heof
    rw [hplace] at hinput
    exact ⟨input.takeWhile isSpace, hinput.symm, .whole hspaces⟩

instance {C : List Text} : BoundedBy C linkageOpening := by
  unfold linkageOpening
  infer_instance

instance : Consuming linkageOpening := by
  unfold linkageOpening
  infer_instance

/-- The input is a list of items, with the contents put together from them, and an ending in front of the rest. -/
def Assembled (isBlock : Bool) (room : Nat) (input : Text) (contents : Scope) (rest : Text) : Prop :=
  ∃ readings ending, input = texts readings ++ (ending ++ rest) ∧ ReadAs isBlock room readings (ending ++ rest) ∧
    Ends isBlock ending rest ∧ contents.Collects (readings.map found)

/-- A block with a language linkage that is read at `input` is taken apart if scopes with its room are. -/
theorem exists_body_of_linkageBlock
    (hscopes : ∀ inner, room = inner + 1 → ∀ input contents rest, scope room true input = .ok contents rest →
      Assembled true inner input contents rest)
    (hblock : linkageBlock (scope room true) input = .ok contents mid) :
    ∃ inner opening body closing, room = inner + 1 ∧ opening ≠ [] ∧
      input = opening ++ (texts body ++ (closing ++ mid)) ∧
      linkageOpening (opening ++ (texts body ++ (closing ++ mid))) = .ok '{' (texts body ++ (closing ++ mid)) ∧
      scope room true (texts body ++ (closing ++ mid)) = .ok contents mid ∧
      ReadAs true inner body (closing ++ mid) ∧ Ends true closing mid ∧ contents.Collects (body.map found) := by
  rw [linkageBlock_eq] at hblock
  obtain ⟨c, behind, hopening, hscope⟩ := bind_eq_ok.1 hblock
  cases room with
  | zero => cases hscope
  | succ inner =>
    obtain ⟨body, closing, rfl, hbody, hclosing, hcollects⟩ := hscopes inner rfl behind contents mid hscope
    obtain ⟨opening, rfl⟩ := BoundedBy.suffix [] hopening
    have hbrace : c = '{' := by
      obtain ⟨_, _, -, hopening⟩ := bind_eq_ok.1 hopening
      obtain ⟨_, _, -, hopening⟩ := bind_eq_ok.1 hopening
      exact (char_eq_ok.1 hopening).1
    subst hbrace
    refine ⟨inner, opening, body, closing, rfl, ?_, rfl, hopening, hscope, hbody, hclosing, hcollects⟩
    rintro rfl
    exact Nat.lt_irrefl _ (Consuming.lt hopening)

/-- The loop over the items of a scope, if scopes with the room of its items are taken apart. -/
theorem exists_readings_of_manyTill {items : List ScopeItem}
    (hscopes : ∀ inner, room = inner + 1 → ∀ input contents rest, scope room true input = .ok contents rest →
      Assembled true inner input contents rest)
    (hloop : manyTill (scopeItem room) (scopeEnd isBlock) input = .ok items rest) :
    ∃ readings ending, input = texts readings ++ (ending ++ rest) ∧ ReadAs isBlock room readings (ending ++ rest) ∧
      Ends isBlock ending rest ∧ readings.map found = items := by
  fun_induction manyTill (scopeItem room) (scopeEnd isBlock) input generalizing items with
  | case1 input b mid hstop =>
    cases hloop
    obtain ⟨ending, hinput, hends⟩ := ends_of_scopeEnd hstop
    exact ⟨[], ending, hinput, .nil, hends, rfl⟩
  | case2 => cases hloop
  | case3 input trace hstop item mid hitem _ ih =>
    obtain ⟨others, hothers, rfl⟩ := Outcome.map_eq_ok.1 hloop
    obtain ⟨readings, ending, rfl, hreadings, hends, rfl⟩ := ih hothers
    have hinput : input.takeWhile isSpace ++ input.dropWhile isSpace = input := List.takeWhile_append_dropWhile
    obtain ⟨text, htext, hdrop⟩ := exists_text_of_itemWith hitem
    have hopens := opens_of_not_ended ⟨trace, hstop⟩ htext hdrop
    rw [hdrop] at hinput
    by_cases hlinkage : ∃ contents, item = .linkage contents
    · obtain ⟨contents, rfl⟩ := hlinkage
      have hblock := linkageBlock_of_itemWith hitem
      obtain ⟨inner, opening, body, closing, rfl, hne, hplace, hopening, hcontents, hbody, hclosing, hcollects⟩ :=
        exists_body_of_linkageBlock hscopes hblock
      have hstart := opens_of_not_ended ⟨trace, hstop⟩ hne hplace
      rw [← hdrop, hplace] at hinput
      refine ⟨.block (input.takeWhile isSpace) opening body closing contents :: readings, ending, ?_, ?_, hends, rfl⟩
      · simp only [texts, Reading.text, List.append_assoc]
        exact hinput.symm
      · refine .block (isSpaces_takeWhile input) hstart ?_ hopening hcontents hbody hclosing hcollects hreadings
        rw [hinput]
        exact hitem
    · refine ⟨.item (input.takeWhile isSpace) text item :: readings, ending, ?_, ?_, hends, rfl⟩
      · rw [texts, Reading.text, List.append_assoc, List.append_assoc, hinput]
      · refine .item (isSpaces_takeWhile input) hopens (fun contents heq => hlinkage ⟨contents, heq⟩) ?_ hreadings
        rw [hinput]
        exact hitem
  | case4 => cases hloop
  | case5 => cases hloop
  | case6 => cases hloop

theorem assembled_of_scope (hscope : scope room isBlock input = .ok contents rest) :
    ∃ inner, room = inner + 1 ∧ Assembled isBlock inner input contents rest := by
  induction room generalizing isBlock input contents rest with
  | zero => cases hscope
  | succ inner ih =>
    unfold scope at hscope
    obtain ⟨items, hloop, rfl⟩ := map_eq_ok.1 hscope
    have hscopes (lower : Nat) (hinner : inner = lower + 1) (input : Text) (contents : Scope) (rest : Text)
        (hscope : scope inner true input = .ok contents rest) : Assembled true lower input contents rest := by
      obtain ⟨_, hroom, hassembled⟩ := ih hscope
      obtain rfl := Nat.succ.inj (hinner.symm.trans hroom)
      exact hassembled
    obtain ⟨readings, ending, hinput, hreadings, hends, rfl⟩ := exists_readings_of_manyTill hscopes hloop
    exact ⟨inner, rfl, readings, ending, hinput, hreadings, hends, collects_ofItems _⟩

end Room

/-! ### Blocks stand for their items -/

/-- A scope has no more than its lists. -/
theorem Collects.unique (hfirst : first.Collects items) (hsecond : second.Collects items) : first = second := by
  cases first
  cases second
  rw [mk.injEq]
  exact ⟨hfirst.namespaces.trans hsecond.namespaces.symm, hfirst.records.trans hsecond.records.symm,
    hfirst.functions.trans hsecond.functions.symm, hfirst.vars.trans hsecond.vars.symm,
    hfirst.enumerations.trans hsecond.enumerations.symm, hfirst.aliases.trans hsecond.aliases.symm,
    hfirst.usings.trans hsecond.usings.symm, hfirst.comments.trans hsecond.comments.symm,
    hfirst.inclusions.trans hsecond.inclusions.symm, hfirst.definitions.trans hsecond.definitions.symm,
    hfirst.pragmas.trans hsecond.pragmas.symm, hfirst.conditionals.trans hsecond.conditionals.symm⟩

theorem Collects.eq_ofItems (hcontents : contents.Collects items) : contents = ofItems items :=
  hcontents.unique (collects_ofItems items)

theorem ofItems_allLeaves {isBlock : Bool} {room : Nat} {readings : List Reading} {rest : Text}
    (hreadings : ReadAs isBlock room readings rest) : ofItems (allLeaves readings) = ofItems (readings.map found) := by
  induction hreadings with
  | nil => rfl
  | @item isBlock room space text rest read readings _ _ _ _ _ ih =>
    change ofItem read ++ ofItems (allLeaves readings) = ofItem read ++ ofItems (readings.map found)
    rw [ih]
  | @block isBlock room space opening closing rest contents body readings _ _ _ _ _ _ _ hcollects _ ihbody ih =>
    rw [allLeaves, leaves, ofItems_append, ih, ihbody, ← hcollects.eq_ofItems]
    rfl

end Scope

open Scope Scope.Reading

/-- A scope that is read is made of items with white space between them, read one behind the other up to the
closing brace or the end of the text. Each of its lists holds what the items add to it, in the order in which
they stand, and it makes no difference whether a block with a language linkage counts as one item or as the
items in it, at any depth. -/
theorem scope_assembled {room : Nat} {isBlock : Bool} {input rest : Text} {contents : Scope}
    (hscope : scope room isBlock input = .ok contents rest) :
    ∃ inner readings ending, room = inner + 1 ∧ input = texts readings ++ (ending ++ rest) ∧
      ReadAs isBlock inner readings (ending ++ rest) ∧ Ends isBlock ending rest ∧
      contents.Collects (readings.map found) ∧ contents.Collects (allLeaves readings) := by
  obtain ⟨inner, hroom, readings, ending, hinput, hreadings, hends, hcollects⟩ := assembled_of_scope hscope
  refine ⟨inner, readings, ending, hroom, hinput, hreadings, hends, hcollects, ?_⟩
  rw [hcollects.eq_ofItems, ← ofItems_allLeaves hreadings]
  exact collects_ofItems _

set_option maxRecDepth 20000 in
/-- A block with a language linkage inside another one, with items of two kinds on all levels. -/
theorem scope_assembled_linkage :
    scope 3 false "extern \"C\" \x7b using A; extern \"C++\" \x7b using B; /*c*/ \x7d /*d*/ \x7d using E;".toList =
      .ok { usings := [['A'], ['B'], ['E']], comments := [['c'], ['d']] } [] ∧
    ∃ inner readings ending, 3 = inner + 1 ∧
      "extern \"C\" \x7b using A; extern \"C++\" \x7b using B; /*c*/ \x7d /*d*/ \x7d using E;".toList =
        texts readings ++ (ending ++ []) ∧
      ReadAs false inner readings (ending ++ []) ∧ Ends false ending [] ∧
      Collects { usings := [['A'], ['B'], ['E']], comments := [['c'], ['d']] } (readings.map found) ∧
      Collects { usings := [['A'], ['B'], ['E']], comments := [['c'], ['d']] } (allLeaves readings) := by
  have hscope : scope 3 false "extern \"C\" \x7b using A; extern \"C++\" \x7b using B; /*c*/ \x7d /*d*/ \x7d using E;".toList =
      .ok { usings := [['A'], ['B'], ['E']], comments := [['c'], ['d']] } [] := by cbv
  exact ⟨hscope, scope_assembled hscope⟩

end HeaderOutline
