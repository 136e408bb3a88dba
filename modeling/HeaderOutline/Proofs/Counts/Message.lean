import HeaderOutline.Counts
import HeaderOutline.Proofs.CType.Written
import HeaderOutline.Proofs.Json.Writer
/-!
# Counts in words

The message tells the counts: each part of it shows by its word which kind it is about, and its digits are the number.
A kind of which there is nothing has no part, and the parts are told apart by the commas between them.
-/

namespace HeaderOutline

/-- The kinds of declarations that are counted. -/
inductive DeclarationKind where
  | enclosed | record | function | var | enumeration | alias
  deriving DecidableEq, Repr

namespace DeclarationKind

def all : List DeclarationKind := [.enclosed, .record, .function, .var, .enumeration, .alias]

/-- The word for one declaration of the kind, and the word for several. -/
def words : DeclarationKind → String × String
  | .enclosed => ("namespace", "namespaces")
  | .record => ("class", "classes")
  | .function => ("function", "functions")
  | .var => ("variable", "variables")
  | .enumeration => ("enum", "enums")
  | .alias => ("typedef", "typedefs")

end DeclarationKind

namespace Counts

def get (counts : Counts) : DeclarationKind → Nat
  | .enclosed => counts.namespaces
  | .record => counts.records
  | .function => counts.functions
  | .var => counts.vars
  | .enumeration => counts.enumerations
  | .alias => counts.aliases

theorem eq_of_get {counts other : Counts} (hget : ∀ kind, counts.get kind = other.get kind) : counts = other := by
  have hnamespaces := hget .enclosed
  have hrecords := hget .record
  have hfunctions := hget .function
  have hvars := hget .var
  have henumerations := hget .enumeration
  have haliases := hget .alias
  cases counts
  cases other
  simp_all only [get]

/-! ### Parts -/

/-- The part of the message for one kind, if it has one. -/
def partOf (counts : Counts) (kind : DeclarationKind) : List Text :=
  part (counts.get kind) kind.words.1 kind.words.2

def parts (counts : Counts) : List Text := DeclarationKind.all.flatMap counts.partOf

theorem message_eq (counts : Counts) : counts.message =
    if counts.parts.isEmpty then "no declarations".toList else Text.join ", ".toList counts.parts := by
  have hparts : counts.parts = part counts.namespaces "namespace" "namespaces" ++ part counts.records "class" "classes"
      ++ part counts.functions "function" "functions" ++ part counts.vars "variable" "variables"
      ++ part counts.enumerations "enum" "enums" ++ part counts.aliases "typedef" "typedefs" := by
    simp [parts, DeclarationKind.all, partOf, get, DeclarationKind.words]
  rw [message, hparts]

/-- What a part is: a number that is not zero, and a word of the kind behind a space. -/
theorem mem_partOf {counts : Counts} {kind : DeclarationKind} {text : Text} (htext : text ∈ counts.partOf kind) :
    ∃ word ∈ [kind.words.1, kind.words.2], text = Text.ofNat (counts.get kind) ++ ' ' :: word.toList := by
  unfold partOf part at htext
  split at htext
  · cases htext
  · rw [List.mem_singleton] at htext
    refine ⟨_, ?_, htext⟩
    split <;> simp

theorem ofNat_isDigit {n : Nat} {c : Char} (hc : c ∈ Text.ofNat n) : c.isDigit = true :=
  (Json.isNatural_ofNat n).isDigit c hc

theorem takeWhile_isDigit (n : Nat) (word : Text) : (Text.ofNat n ++ ' ' :: word).takeWhile Char.isDigit = Text.ofNat n := by
  rw [List.takeWhile_append_of_pos fun c hc => ofNat_isDigit hc, List.takeWhile_cons_of_neg (by decide), List.append_nil]

theorem dropWhile_isDigit (n : Nat) (word : Text) : (Text.ofNat n ++ ' ' :: word).dropWhile Char.isDigit = ' ' :: word := by
  rw [List.dropWhile_append_of_pos fun c hc => ofNat_isDigit hc, List.dropWhile_cons_of_neg (by decide)]

/-- The text has a word of the kind behind its digits. -/
def isAbout (kind : DeclarationKind) (text : Text) : Bool :=
  [kind.words.1, kind.words.2].any fun word => text.dropWhile Char.isDigit == ' ' :: word.toList

theorem isAbout_of_mem {counts : Counts} {kind other : DeclarationKind} {text : Text} (htext : text ∈ counts.partOf other) :
    isAbout kind text = decide (other = kind) := by
  have hwords : ∀ kind other : DeclarationKind, ∀ word ∈ [other.words.1, other.words.2],
      [kind.words.1, kind.words.2].any (fun own => ' ' :: word.toList == ' ' :: own.toList) = decide (other = kind) := by
    intro kind other
    cases kind <;> cases other <;> decide
  obtain ⟨word, hword, rfl⟩ := mem_partOf htext
  rw [isAbout, dropWhile_isDigit]
  exact hwords kind other word hword

theorem filter_partOf (counts : Counts) (kind other : DeclarationKind) :
    (counts.partOf other).filter (isAbout kind) = if other = kind then counts.partOf kind else [] := by
  split
  · next heq =>
    subst heq
    exact List.filter_eq_self.2 fun text htext => (isAbout_of_mem htext).trans (decide_eq_true rfl)
  · next hne =>
    refine List.filter_eq_nil_iff.2 fun text htext => Bool.eq_false_iff.1 ?_
    rw [isAbout_of_mem htext, decide_eq_false hne]

/-- The parts tell which of them, if any, is that of a kind. -/
theorem filter_parts (counts : Counts) (kind : DeclarationKind) : counts.parts.filter (isAbout kind) = counts.partOf kind := by
  rw [parts, List.filter_flatMap]
  simp only [filter_partOf, DeclarationKind.all]
  cases kind <;> simp

theorem partOf_eq_nil_iff {counts : Counts} {kind : DeclarationKind} : counts.partOf kind = [] ↔ counts.get kind = 0 := by
  unfold partOf part
  split <;> simp_all

/-- A part tells the number, and so does its absence. -/
theorem get_of_partOf_eq {counts other : Counts} {kind : DeclarationKind} (hpart : counts.partOf kind = other.partOf kind) :
    counts.get kind = other.get kind := by
  cases htext : counts.partOf kind with
  | nil => rw [partOf_eq_nil_iff.1 htext, partOf_eq_nil_iff.1 (hpart.symm.trans htext)]
  | cons text texts =>
    have hmem : text ∈ counts.partOf kind := htext ▸ List.mem_cons_self
    obtain ⟨word, -, rfl⟩ := mem_partOf hmem
    obtain ⟨word', -, heq⟩ := mem_partOf (hpart ▸ hmem)
    have hdigits := congrArg (List.takeWhile Char.isDigit) heq
    rw [takeWhile_isDigit, takeWhile_isDigit] at hdigits
    rw [← (Json.isNatural_ofNat (counts.get kind)).value, hdigits, (Json.isNatural_ofNat (other.get kind)).value]

theorem eq_of_parts_eq {counts other : Counts} (hparts : counts.parts = other.parts) : counts = other := by
  refine eq_of_get fun kind => get_of_partOf_eq ?_
  rw [← filter_parts, ← filter_parts, hparts]

/-! ### Messages -/

theorem exists_of_mem_parts {counts : Counts} {text : Text} (htext : text ∈ counts.parts) :
    ∃ kind : DeclarationKind, ∃ word ∈ [kind.words.1, kind.words.2], text = Text.ofNat (counts.get kind) ++ ' ' :: word.toList := by
  obtain ⟨kind, -, htext⟩ := List.mem_flatMap.1 htext
  exact ⟨kind, mem_partOf htext⟩

theorem comma_not_mem {counts : Counts} {text : Text} (htext : text ∈ counts.parts) : ',' ∉ text := by
  have hwords : ∀ kind : DeclarationKind, ∀ word ∈ [kind.words.1, kind.words.2], ',' ∉ ' ' :: word.toList := by
    intro kind
    cases kind <;> decide
  obtain ⟨kind, word, hword, rfl⟩ := exists_of_mem_parts htext
  rw [List.mem_append, not_or]
  exact ⟨fun hmem => absurd (ofNat_isDigit hmem) (by decide), hwords kind word hword⟩

/-- With the space behind the comma taken for the front of the next part, the separator is one character. -/
theorem join_eq_intercalate (first : Text) (others : List Text) :
    Text.join ", ".toList (first :: others) = [','].intercalate (first :: others.map (' ' :: ·)) := by
  induction others generalizing first with
  | nil => exact List.intercalate_singleton.symm
  | cons next others ih =>
    have hnext := ih next
    rw [List.map_cons, List.intercalate_cons_cons, Text.join_cons_cons, hnext]
    cases others with
    | nil => simp
    | cons last others => simp [List.intercalate_cons_cons]

/-- Parts without commas are what stands between the commas. -/
theorem join_injective {first first' : Text} {others others' : List Text} (hparts : ∀ text ∈ first :: others, ',' ∉ text)
    (hparts' : ∀ text ∈ first' :: others', ',' ∉ text)
    (hjoin : Text.join ", ".toList (first :: others) = Text.join ", ".toList (first' :: others')) :
    first :: others = first' :: others' := by
  have hspaced {first : Text} {others : List Text} (hparts : ∀ text ∈ first :: others, ',' ∉ text) :
      ∀ text ∈ first :: others.map (' ' :: ·), ',' ∉ text := by
    simpa using hparts
  rw [join_eq_intercalate, join_eq_intercalate] at hjoin
  have hsplit := congrArg (List.splitOn ',') hjoin
  rw [List.splitOn_intercalate ',' (hspaced hparts) (List.cons_ne_nil _ _),
    List.splitOn_intercalate ',' (hspaced hparts') (List.cons_ne_nil _ _)] at hsplit
  obtain ⟨rfl, hothers⟩ := List.cons.inj hsplit
  rw [(List.map_inj_right fun _ _ heq => (List.cons.inj heq).2).1 hothers]

/-- A message with parts begins with a digit. -/
theorem join_parts_ne {counts : Counts} {first : Text} {others : List Text} (hparts : counts.parts = first :: others) :
    Text.join ", ".toList (first :: others) ≠ "no declarations".toList := by
  obtain ⟨kind, word, -, rfl⟩ := exists_of_mem_parts (hparts ▸ List.mem_cons_self : first ∈ counts.parts)
  obtain ⟨c, digits, hdigits⟩ := List.exists_cons_of_ne_nil (Json.isNatural_ofNat (counts.get kind)).nonempty
  have hdigit : c.isDigit = true := ofNat_isDigit (hdigits ▸ List.mem_cons_self : c ∈ Text.ofNat (counts.get kind))
  rw [CType.join_cons, hdigits]
  rintro heq
  rw [(List.cons.inj heq).1] at hdigit
  exact absurd hdigit (by decide)

/-- The message tells every count. -/
theorem message_injective : Function.Injective message := by
  intro counts other hmessage
  refine eq_of_parts_eq ?_
  rw [message_eq, message_eq] at hmessage
  cases hparts : counts.parts with
  | nil =>
    cases hparts' : other.parts with
    | nil => rfl
    | cons first' others' =>
      rw [hparts, hparts'] at hmessage
      exact absurd hmessage.symm (join_parts_ne hparts')
  | cons first others =>
    cases hparts' : other.parts with
    | nil =>
      rw [hparts, hparts'] at hmessage
      exact absurd hmessage (join_parts_ne hparts)
    | cons first' others' =>
      rw [hparts, hparts'] at hmessage
      exact join_injective (fun text htext => comma_not_mem (hparts ▸ htext))
        (fun text htext => comma_not_mem (hparts' ▸ htext)) hmessage

example : Counts.message ⟨1, 0, 12, 0, 0, 2⟩ = "1 namespace, 12 functions, 2 typedefs".toList := by decide

end Counts

end HeaderOutline
