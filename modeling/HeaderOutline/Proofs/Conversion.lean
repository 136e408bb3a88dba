import Mathlib
import HeaderOutline.Conversion
import HeaderOutline.Proofs.TempFile
/-!
# Conversion

A conversion is all or nothing: it fails and leaves all files as they were, or it changes the output alone.
-/

namespace HeaderOutline.Conversion

open FileStore (SameBut)

variable {temp : TempFiles} {store after : FileStore} {path output : Text} {contents : Bytes}

theorem writeOutput_error (htemp : temp.Lawful) {error : HeaderError}
    (hwrite : writeOutput store temp path output contents = (.error error, after)) : SameBut [] store after := by
  unfold writeOutput at hwrite
  split at hwrite
  · cases hwrite
  · next hreplace =>
    cases hwrite
    exact TempFiles.replace_error htemp hreplace

theorem writeOutput_ok (htemp : temp.Lawful) (hwrite : writeOutput store temp path output contents = (.ok (), after)) :
    ∃ place, store.resolve output = .ok place ∧ SameBut [place] store after ∧ after.read output = .ok contents := by
  unfold writeOutput at hwrite
  split at hwrite
  · next hreplace =>
    cases hwrite
    exact TempFiles.replace_ok htemp hreplace
  · cases hwrite

theorem readHeader_of_read {bytes : Bytes} (hread : store.read path = .ok bytes) :
    readHeader store path = .ok (Text.Utf8.decode bytes) := by
  rw [readHeader, hread]

/-- What is described is the header that the text holds. -/
theorem describe_eq_ok {layout : Json.Layout} {bytes : Bytes} {description : Description} :
    describe path layout bytes = .ok description ↔
      ∃ header, Header.parse path (Text.Utf8.decode bytes) = .ok header ∧
        description = ⟨Text.Utf8.encode (header.write path layout), Counts.ofScope header.scope⟩ := by
  unfold describe
  cases Header.parse path (Text.Utf8.decode bytes) with
  | error error => simp [bind, Except.bind]
  | ok header => simp [bind, Except.bind, eq_comm]

/-- A conversion that fails leaves every file as it was, and adds none. One that succeeds changes what stands at the
place of the output, even if that is the input: the description of the header that was read. -/
theorem convert_atomic (htemp : temp.Lawful) (store : FileStore) (options : Options) :
    (∀ error after, convert store temp options = (.error error, after) → ∀ place, after.get? place = store.get? place) ∧
    ∀ summary after, convert store temp options = (.ok summary, after) →
      ∃ source header place, readHeader store options.input = .ok source ∧
        Header.parse options.input source = .ok header ∧ store.resolve options.output = .ok place ∧
        (∀ other ≠ place, after.get? other = store.get? other) ∧
        after.read options.output = .ok (Text.Utf8.encode (header.write options.input options.layout)) ∧
        summary = ⟨options.output, (Text.Utf8.encode (header.write options.input options.layout)).length,
          Counts.ofScope header.scope⟩ := by
  cases hread : store.read options.input with
  | error fault =>
    have hconvert : convert store temp options = (.error (.read options.input fault), store) := by rw [convert, hread]
    rw [hconvert]
    exact ⟨fun _ _ heq _ => by rw [(Prod.mk.inj heq).2], nofun⟩
  | ok bytes =>
    cases hdescribe : describe options.input options.layout bytes with
    | error error =>
      have hconvert : convert store temp options = (.error error, store) := by simp only [convert, hread, hdescribe]
      rw [hconvert]
      exact ⟨fun _ _ heq _ => by rw [(Prod.mk.inj heq).2], nofun⟩
    | ok description =>
      obtain ⟨header, hparse, rfl⟩ := describe_eq_ok.1 hdescribe
      rcases hwrite : writeOutput store temp options.input options.output
        (Text.Utf8.encode (header.write options.input options.layout)) with ⟨error | _, written⟩
      · have hconvert : convert store temp options = (.error error, written) := by
          simp only [convert, hread, hdescribe, hwrite]
        rw [hconvert]
        refine ⟨fun _ _ heq place => ?_, nofun⟩
        rw [← (Prod.mk.inj heq).2, (writeOutput_error htemp hwrite).get? place List.not_mem_nil]
      · obtain ⟨place, hresolve, hsame, hcontents⟩ := writeOutput_ok htemp hwrite
        simp only [convert, hread, hdescribe, hwrite]
        refine ⟨nofun, fun summary after heq => ?_⟩
        obtain ⟨hsummary, hafter⟩ := Prod.mk.inj heq
        rw [← hafter, ← Except.ok.inj hsummary]
        refine ⟨_, header, place, readHeader_of_read hread, hparse, hresolve, fun other hne => ?_, hcontents, rfl⟩
        exact hsame.get? other (by simpa using hne)

/-- A system with the header `// c` in the working directory. -/
def oneHeader : FileStore := (FileStore.startingIn [['w']]).put [['w'], ['a']] (.file (Text.Utf8.encode "// c".toList))

/-- The description takes the place of the header itself. -/
def ontoItself : Options := ⟨['a'], ['a'], .compact⟩

set_option maxRecDepth 20000 in
/-- Without faults the header is replaced by its description; where no file can be flushed it stays. -/
theorem convert_atomic_ontoItself : FileStore.noFaults.Lawful ∧
    (∃ header after, (convert oneHeader FileStore.noFaults ontoItself).1 = .ok ⟨['a'], 183, ⟨0, 0, 0, 0, 0, 0⟩⟩ ∧
      (convert oneHeader FileStore.noFaults ontoItself).2 = after ∧
      after.read ['a'] = .ok (Text.Utf8.encode (Header.write header ['a'] .compact)) ∧
      after.get? [['w']] = oneHeader.get? [['w']]) ∧
    ∃ after, convert oneHeader (FileStore.tempFiles fun step => if step = .flush then some .denied else none) ontoItself =
      (.error (.write ['a'] ['a'] .denied), after) ∧ ∀ place, after.get? place = oneHeader.get? place := by
  have hlawful : FileStore.noFaults.Lawful := FileStore.lawful_tempFiles _
  refine ⟨hlawful, ?_, ?_⟩
  · have hresult : (convert oneHeader FileStore.noFaults ontoItself).1 = .ok ⟨['a'], 183, ⟨0, 0, 0, 0, 0, 0⟩⟩ := by cbv
    obtain ⟨_, header, place, -, -, hresolve, hsame, hread, -⟩ :=
      (convert_atomic hlawful oneHeader ontoItself).2 _ _ (Prod.ext hresult rfl)
    have hplace : oneHeader.resolve ontoItself.output = .ok [['w'], ['a']] := by cbv
    have heq : place = [['w'], ['a']] := Except.ok.inj (hresolve.symm.trans hplace)
    exact ⟨header, _, hresult, rfl, hread, hsame [['w']] (by rw [heq]; decide)⟩
  · have hresult : (convert oneHeader (FileStore.tempFiles fun step => if step = .flush then some .denied else none)
        ontoItself).1 = .error (.write ['a'] ['a'] .denied) := by cbv
    exact ⟨_, Prod.ext hresult rfl, (convert_atomic (FileStore.lawful_tempFiles _) oneHeader ontoItself).1 _ _
      (Prod.ext hresult rfl)⟩

end HeaderOutline.Conversion
