import HeaderOutline.Proofs.FileStore
/-!
# Replacing files

Replacing a file through a temporary file is all or nothing, whatever library for temporary files does it, as
long as that keeps its promises.
-/

namespace HeaderOutline

open FileStore (SameBut)

namespace TempFiles

/-- What the library for temporary files promises. -/
structure Lawful (temp : TempFiles) : Prop where
  create_ok {store directory file created} : temp.create store directory = (.ok file, created) →
    store.get? file = none ∧ created.get? file = some (.file []) ∧ SameBut [file] store created
  create_error {store directory fault created} : temp.create store directory = (.error fault, created) →
    SameBut [] store created
  write_ok {store file earlier contents written} : store.get? file = some (.file earlier) →
    temp.write store file contents = (.ok (), written) → written.get? file = some (.file (earlier ++ contents))
  /-- A fault may leave a part of the contents. -/
  write {store file contents result written} : temp.write store file contents = (result, written) →
    SameBut [file] store written
  flush_ok {store file flushed} : temp.flush store file = (.ok (), flushed) → flushed.get? file = store.get? file
  flush {store file result flushed} : temp.flush store file = (result, flushed) → SameBut [file] store flushed
  persist_ok {store file contents target persisted} : store.get? file = some (.file contents) →
    temp.persist store file target = (.ok (), persisted) →
      store.get? target ≠ some .directory ∧ persisted.get? target = some (.file contents) ∧
        (file ≠ target → persisted.get? file = none) ∧ SameBut [file, target] store persisted
  persist_error {store file target fault persisted} : temp.persist store file target = (.error fault, persisted) →
    SameBut [] store persisted
  drop {store file} : file ≠ [] → (temp.drop store file).get? file = none ∧ SameBut [file] store (temp.drop store file)

variable {temp : TempFiles} (htemp : temp.Lawful) {store filled : FileStore} {file target : Location} {contents : Bytes}

include htemp

/-- A fault on the way touches nothing but the temporary file. -/
theorem fill_error {fault : Fault} (hfill : temp.fill store file target contents = (.error fault, filled)) :
    SameBut [file] store filled := by
  unfold fill at hfill
  split at hfill
  · next written hwrite =>
    cases hfill
    exact htemp.write hwrite
  · next written hwrite =>
    have hwritten := htemp.write hwrite
    split at hfill
    · next flushed hflush =>
      cases hfill
      exact hwritten.trans (htemp.flush hflush)
    · next flushed hflush =>
      exact (hwritten.trans (htemp.flush hflush)).trans ((htemp.persist_error hfill).mono (List.nil_subset _))

theorem fill_ok (hfile : store.get? file = some (.file []))
    (hfill : temp.fill store file target contents = (.ok (), filled)) :
    (target ≠ file → store.get? target ≠ some .directory) ∧ filled.get? target = some (.file contents) ∧
      (file ≠ target → filled.get? file = none) ∧ SameBut [file, target] store filled := by
  unfold fill at hfill
  split at hfill
  · cases hfill
  · next written hwrite =>
    split at hfill
    · cases hfill
    · next flushed hflush =>
      have hflushed := (htemp.write hwrite).trans (htemp.flush hflush)
      have hcontents : flushed.get? file = some (.file contents) := by
        rw [htemp.flush_ok hflush, htemp.write_ok hfile hwrite]
        rfl
      obtain ⟨htarget, hnew, hgone, hsame⟩ := htemp.persist_ok hcontents hfill
      refine ⟨fun hne => ?_, hnew, hgone, (hflushed.mono (by simp)).trans hsame⟩
      rwa [hflushed.get? target (by simpa using hne)] at htarget

/-- A failed replacement leaves everything as it was. -/
theorem replace_error {after : FileStore} {path : Text} {fault : Fault}
    (hreplace : temp.replace store path contents = (.error fault, after)) : SameBut [] store after := by
  unfold replace at hreplace
  split at hreplace
  · cases hreplace
    exact .refl store
  · split at hreplace
    · next created hcreate =>
      cases hreplace
      exact htemp.create_error hcreate
    · next file created hcreate =>
      obtain ⟨hnone, hempty, hcreated⟩ := htemp.create_ok hcreate
      split at hreplace
      · next filled hfill =>
        cases hreplace
        obtain ⟨hgone, hdropped⟩ := htemp.drop (FileStore.ne_nil_of_file hempty)
        refine ((hcreated.trans (fill_error htemp hfill)).trans hdropped).of_cons ?_
        rw [hgone, hnone]
      · cases hreplace

/-- A replacement changes one place: the one that the path leads to, before and after it. -/
theorem replace_ok {after : FileStore} {path : Text}
    (hreplace : temp.replace store path contents = (.ok (), after)) :
    ∃ place, store.resolve path = .ok place ∧ SameBut [place] store after ∧ after.read path = .ok contents := by
  unfold replace at hreplace
  split at hreplace
  · cases hreplace
  · next directory name htarget =>
    split at hreplace
    · cases hreplace
    · next file created hcreate =>
      obtain ⟨hnone, hempty, hcreated⟩ := htemp.create_ok hcreate
      split at hreplace
      · cases hreplace
      · next filled hfill =>
        cases hreplace
        obtain ⟨hplace, hnew, hgone, hsame⟩ := fill_ok htemp hempty hfill
        have hresolve := FileStore.resolve_of_target htarget
        have hsame := (hcreated.mono (by simp)).trans hsame
        -- The fresh file may by chance have the name of the output.
        have honly : store.get? (directory ++ [name]) ≠ some .directory ∧ SameBut [directory ++ [name]] store after := by
          by_cases heq : directory ++ [name] = file
          · rw [heq, hnone]
            exact ⟨nofun, (heq ▸ hsame).mono (by simp)⟩
          · rw [← hcreated.get? _ (by simpa using heq)]
            exact ⟨hplace heq, hsame.of_cons ((hgone (Ne.symm heq)).trans hnone.symm)⟩
        obtain ⟨hdirectory, hsame⟩ := honly
        have hkeeps := hsame.keepsDirectories (by simpa using hdirectory)
        have hresolved := FileStore.resolve_of_keepsDirectories hkeeps hsame.workingDirectory hresolve
        exact ⟨_, hresolve, hsame, FileStore.read_of_resolve hresolved hnew⟩

end TempFiles

namespace FileStore

/-! ### A system with faults -/

theorem get?_freshName (store : FileStore) (directory : Location) : store.get? (directory ++ [store.freshName]) = none := by
  rw [get?_of_ne_nil (by simp), List.lookup_eq_none_iff]
  intro entry hentry
  rw [bne_iff_ne]
  intro heq
  have hlength : entry.1.flatten.length ≤ (store.entries.flatMap fun entry => entry.1.flatten).length := by
    rw [List.flatMap_def]
    have hmem : entry.1.flatten ∈ store.entries.map fun entry => entry.1.flatten := List.mem_map_of_mem hentry
    exact (List.sublist_flatten_of_mem hmem).length_le
  rw [← heq, List.flatten_append, List.length_append] at hlength
  simp [freshName] at hlength
  omega

variable {faults : Faults} {store after : FileStore} {file target : Location} {earlier contents : Bytes}

theorem tempFiles_write_ok (hfile : store.get? file = some (.file earlier))
    (hwrite : (tempFiles faults).write store file contents = (.ok (), after)) :
    after.get? file = some (.file (earlier ++ contents)) := by
  unfold tempFiles at hwrite
  dsimp only at hwrite
  cases hfault : faults .write with
  | some fault => simp [hfault] at hwrite
  | none =>
    simp only [hfault, hfile, Prod.mk.injEq, true_and] at hwrite
    rw [← hwrite]
    exact get?_put (ne_nil_of_file hfile) _

theorem tempFiles_persist_ok (hfile : store.get? file = some (.file contents))
    (hpersist : (tempFiles faults).persist store file target = (.ok (), after)) :
    store.get? target ≠ some .directory ∧ after = (store.remove file).put target (.file contents) := by
  unfold tempFiles at hpersist
  dsimp only at hpersist
  cases hfault : faults .persist with
  | some fault => simp [hfault] at hpersist
  | none =>
    by_cases hdirectory : store.get? target = some .directory
    · simp [hfault, hdirectory] at hpersist
    · simp only [hfault, hfile, Prod.mk.injEq, true_and] at hpersist
      exact ⟨hdirectory, hpersist.symm⟩

theorem lawful_tempFiles (faults : Faults) : (tempFiles faults).Lawful where
  create_ok {store directory file created} hcreate := by
    unfold tempFiles at hcreate
    dsimp only at hcreate
    split at hcreate
    · cases hcreate
    · cases hcreate
      exact ⟨store.get?_freshName directory, get?_put (by simp) _, sameBut_put ..⟩
  create_error hcreate := by
    unfold tempFiles at hcreate
    dsimp only at hcreate
    split at hcreate
    · cases hcreate
      exact .refl _
    · cases hcreate
  write_ok := tempFiles_write_ok
  write hwrite := by
    unfold tempFiles at hwrite
    dsimp only at hwrite
    split at hwrite
    · cases hwrite
      exact (SameBut.refl _).mono (List.nil_subset _)
    · cases hwrite
      exact sameBut_put ..
    · cases hwrite
      exact (SameBut.refl _).mono (List.nil_subset _)
  flush_ok hflush := by
    unfold tempFiles at hflush
    dsimp only at hflush
    split at hflush
    · cases hflush
    · cases hflush
      rfl
  flush hflush := by
    unfold tempFiles at hflush
    dsimp only at hflush
    split at hflush <;>
    · cases hflush
      exact (SameBut.refl _).mono (List.nil_subset _)
  persist_ok {store file contents target persisted} hfile hpersist := by
    obtain ⟨hdirectory, rfl⟩ := tempFiles_persist_ok hfile hpersist
    have htarget : target ≠ [] := fun heq => hdirectory (heq ▸ rfl)
    refine ⟨hdirectory, get?_put htarget _, fun hne => ?_, ?_⟩
    · rw [(sameBut_put _ target _).get? file (by simpa using hne), get?_remove (ne_nil_of_file hfile)]
    · exact ((sameBut_remove store file).mono (by simp)).trans ((sameBut_put ..).mono (by simp))
  persist_error hpersist := by
    unfold tempFiles at hpersist
    dsimp only at hpersist
    split at hpersist <;> first
      | cases hpersist; done
      | cases hpersist; exact .refl _
  drop hfile := ⟨get?_remove hfile, sameBut_remove ..⟩

end FileStore

end HeaderOutline
