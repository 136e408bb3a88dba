import HeaderOutline.Conversion
import HeaderOutline.Proofs.Document.Shown
import HeaderOutline.Proofs.Json.Writer
/-!
# Documents as files

The text written for a header decodes to its document, in both layouts, and tells the path and the header.
-/

namespace HeaderOutline

open HeaderOutline.Parser

namespace Header

theorem withoutDirectives_of_ok {room : Nat} {source rest : Text} {found : Header}
    (hok : header room source = .ok found rest) : found.scope.WithoutDirectives := by
  obtain ⟨scope, -, rfl⟩ := map_eq_ok.1 hok
  exact ofScope_withoutDirectives scope

/-- A header that was parsed has its directives listed apart from its scope. -/
theorem parse_withoutDirectives {path source : Text} {found : Header} (hparse : parse path source = .ok found) :
    found.scope.WithoutDirectives := by
  unfold parse at hparse
  split at hparse
  · next hok =>
    cases hparse
    exact withoutDirectives_of_ok hok
  all_goals cases hparse

variable {header : Header} {path : Text} {layout : Json.Layout}

theorem document_eq_object (header : Header) (path : Text) : ∃ fields, header.document path = .object fields := ⟨_, rfl⟩

/-- The text ends with the bracket of the outermost object and one line feed. -/
theorem write_eq (header : Header) (path : Text) (layout : Json.Layout) : ∃ body, header.write path layout = body ++ ['\n'] ∧
    Json.Denotes (header.document path) body ∧ body.getLast? = some '\x7d' := by
  obtain ⟨body, hbody, hdenotes⟩ := Json.write_eq layout (header.document path)
  refine ⟨body, hbody, hdenotes, ?_⟩
  obtain ⟨fields, hfields⟩ := header.document_eq_object path
  rw [hfields] at hdenotes
  obtain ⟨inner, rfl, -⟩ := hdenotes
  simp [List.getLast?_cons]

theorem count_lineFeed (header : Header) (path : Text) : (header.write path .compact).count '\n' = 1 := by
  have hnone := List.count_eq_zero.2 (Json.compact_noLineFeed (header.document path))
  rw [write, Json.write, List.count_append, hnone]
  rfl

theorem read_write (hscope : header.scope.WithoutDirectives) (path : Text) (layout : Json.Layout) :
    Json.read (header.write path layout) = some (header.document path) :=
  Json.read_write layout (header.document_distinctKeys hscope path)

/-- What is written for a header is one JSON text and a line feed. In each layout it decodes to the document, from
which the path and the header with its types as text are known, and the compact one has no other line feed. -/
theorem document_recovered (hscope : header.scope.WithoutDirectives) (path : Text) :
    (∀ layout, ∃ body, header.write path layout = body ++ ['\n'] ∧ Json.Denotes (header.document path) body ∧
      body.getLast? = some '\x7d') ∧
    (∀ layout, Json.read (header.write path layout) = some (header.document path)) ∧
    (∀ layout (other : Header) path', Json.read (header.write path layout) = some (other.document path') →
      path' = path ∧ other.shown = header.shown) ∧
    (header.write path .compact).count '\n' = 1 ∧ (header.write path .compact).getLast? = some '\n' := by
  refine ⟨header.write_eq path, read_write hscope path, fun layout other path' hread => ?_, header.count_lineFeed path, ?_⟩
  · rw [read_write hscope] at hread
    obtain ⟨hpath, hshown⟩ := eq_of_document_eq (Option.some.inj hread)
    exact ⟨hpath.symm, hshown.symm⟩
  · exact List.getLast?_concat ..

/-- A name with a quote, a backslash, control characters and a letter outside ASCII. -/
def oddHeader : Header := .ofScope { usings := ["a\"b\\\n\x01é".toList] }

theorem document_recovered_odd : oddHeader.scope.WithoutDirectives ∧
    Json.read (oddHeader.write "a\tb.h".toList .pretty) = some (oddHeader.document "a\tb.h".toList) ∧
    (oddHeader.write "a\tb.h".toList .compact).count '\n' = 1 :=
  have hscope : oddHeader.scope.WithoutDirectives := ⟨rfl, rfl, rfl, rfl⟩
  have hrecovered := document_recovered hscope "a\tb.h".toList
  ⟨hscope, hrecovered.2.1 .pretty, hrecovered.2.2.2.1⟩

end Header

end HeaderOutline
