import HeaderOutline.TempFile
/-!
# File stores

What a change of one place changes, and that a path leads where it led as long as no directory is lost.
-/

namespace HeaderOutline

namespace FileStore

variable {store after last : FileStore} {place : Location} {places : List Location}

/-! ### Single changes -/

theorem get?_of_ne_nil (hplace : place ≠ []) : store.get? place = store.entries.lookup place :=
  if_neg (by simpa using hplace)

theorem ne_nil_of_file {contents : Bytes} (hfile : store.get? place = some (.file contents)) : place ≠ [] := by
  rintro rfl
  cases hfile

theorem lookup_filter_self (entries : List (Location × Node)) (place : Location) :
    (entries.filter fun entry => entry.1 != place).lookup place = none := by
  induction entries with
  | nil => rfl
  | cons entry entries ih =>
    rw [List.filter_cons]
    split
    · next hentry =>
      rw [List.lookup_cons, ih]
      split
      · next heq => simp_all
      · rfl
    · exact ih

theorem lookup_filter_of_ne (entries : List (Location × Node)) {place other : Location} (hne : other ≠ place) :
    (entries.filter fun entry => entry.1 != place).lookup other = entries.lookup other := by
  induction entries with
  | nil => rfl
  | cons entry entries ih =>
    rw [List.filter_cons]
    split
    · rw [List.lookup_cons, List.lookup_cons, ih]
    · next hentry =>
      have hentry : entry.1 = place := by simpa using hentry
      rw [List.lookup_cons, ih, hentry, beq_false_of_ne hne]

/-- Nothing differs but what stands at the places. -/
structure SameBut (places : List Location) (store after : FileStore) : Prop where
  workingDirectory : after.workingDirectory = store.workingDirectory
  get? : ∀ place ∉ places, after.get? place = store.get? place

theorem SameBut.refl (store : FileStore) : SameBut [] store store := ⟨rfl, fun _ _ => rfl⟩

theorem SameBut.trans (hafter : SameBut places store after) (hlast : SameBut places after last) : SameBut places store last where
  workingDirectory := hlast.workingDirectory.trans hafter.workingDirectory
  get? place hplace := (hlast.get? place hplace).trans (hafter.get? place hplace)

theorem SameBut.mono {others : List Location} (hafter : SameBut places store after) (hplaces : places ⊆ others) :
    SameBut others store after where
  workingDirectory := hafter.workingDirectory
  get? place hplace := hafter.get? place fun hmem => hplace (hplaces hmem)

/-- A place at which there is again what was there counts no more. -/
theorem SameBut.of_cons (hafter : SameBut (place :: places) store after) (hplace : after.get? place = store.get? place) :
    SameBut places store after where
  workingDirectory := hafter.workingDirectory
  get? other hother := by
    by_cases heq : other = place
    · rw [heq, hplace]
    · exact hafter.get? other fun hmem => (List.mem_cons.1 hmem).elim heq hother

theorem get?_put (hplace : place ≠ []) (node : Node) : (store.put place node).get? place = some node := by
  rw [get?_of_ne_nil hplace, put, List.lookup_cons, beq_self_eq_true]

theorem sameBut_put (store : FileStore) (place : Location) (node : Node) : SameBut [place] store (store.put place node) where
  workingDirectory := rfl
  get? other hother := by
    have hne : other ≠ place := fun heq => hother (List.mem_singleton.2 heq)
    unfold get? put
    dsimp only
    rw [List.lookup_cons, beq_false_of_ne hne, lookup_filter_of_ne _ hne]

theorem get?_remove (hplace : place ≠ []) : (store.remove place).get? place = none := by
  rw [get?_of_ne_nil hplace, remove, lookup_filter_self]

theorem sameBut_remove (store : FileStore) (place : Location) : SameBut [place] store (store.remove place) where
  workingDirectory := rfl
  get? other hother := by
    have hne : other ≠ place := fun heq => hother (List.mem_singleton.2 heq)
    unfold get? remove
    dsimp only
    rw [lookup_filter_of_ne _ hne]

/-! ### Paths -/

theorem follow_append (store : FileStore) (start : Location) (names others : List Text) :
    store.follow start (names ++ others) = (store.follow start names).bind fun place => store.follow place others := by
  induction names generalizing start with
  | nil => rfl
  | cons name names ih =>
    rw [List.cons_append, follow, follow]
    cases store.get? start with
    | none => rfl
    | some node =>
      cases node with
      | file contents => rfl
      | directory =>
        dsimp only
        split
        · exact ih start
        · split
          · exact ih start.dropLast
          · split
            · rfl
            · exact ih (start ++ [name])

/-- All that was a directory still is one. -/
def KeepsDirectories (store after : FileStore) : Prop :=
  ∀ place, store.get? place = some .directory → after.get? place = some .directory

theorem SameBut.keepsDirectories (hafter : SameBut places store after)
    (hplaces : ∀ place ∈ places, store.get? place ≠ some .directory) : KeepsDirectories store after := by
  intro place hplace
  rw [hafter.get? place fun hmem => hplaces place hmem hplace, hplace]

theorem follow_of_keepsDirectories (hafter : KeepsDirectories store after) {start : Location} {names : List Text}
    (hfollow : store.follow start names = .ok place) : after.follow start names = .ok place := by
  fun_induction follow store start names with
  | case1 => exact hfollow
  | case2 => cases hfollow
  | case3 => cases hfollow
  | case4 start name names hdirectory hname ih =>
    rw [follow, hafter start hdirectory]
    exact (if_pos hname).trans (ih hfollow)
  | case5 start names hdirectory hname ih =>
    rw [follow, hafter start hdirectory]
    exact (if_neg hname).trans ((if_pos rfl).trans (ih hfollow))
  | case6 => cases hfollow
  | case7 start name names hdirectory hname hup hsize ih =>
    rw [follow, hafter start hdirectory]
    exact (if_neg hname).trans ((if_neg hup).trans ((if_neg hsize).trans (ih hfollow)))

theorem route_eq (hworking : after.workingDirectory = store.workingDirectory) (path : Text) :
    after.route path = store.route path := by
  rw [route, route, hworking]

theorem resolve_eq_ok {path : Text} : store.resolve path = .ok place ↔
    ∃ start names, store.route path = .ok (start, names) ∧ store.follow start names = .ok place := by
  unfold resolve
  cases hroute : store.route path with
  | error fault => exact ⟨nofun, fun ⟨_, _, heq, _⟩ => nomatch heq⟩
  | ok found =>
    refine ⟨fun h => ⟨_, _, rfl, h⟩, fun ⟨_, _, heq, h⟩ => ?_⟩
    cases heq
    exact h

theorem resolve_of_keepsDirectories (hafter : KeepsDirectories store after)
    (hworking : after.workingDirectory = store.workingDirectory) {path : Text} (hresolve : store.resolve path = .ok place) :
    after.resolve path = .ok place := by
  obtain ⟨start, names, hroute, hfollow⟩ := resolve_eq_ok.1 hresolve
  exact resolve_eq_ok.2 ⟨start, names, (route_eq hworking path).trans hroute, follow_of_keepsDirectories hafter hfollow⟩

/-- The file that a path names is the one that the path leads to. -/
theorem resolve_of_target {path name : Text} {directory : Location} (htarget : store.target path = .ok (directory, name)) :
    store.resolve path = .ok (directory ++ [name]) := by
  unfold target at htarget
  cases hroute : store.route path with
  | error fault => simp [hroute, bind, Except.bind] at htarget
  | ok found =>
    obtain ⟨start, names⟩ := found
    cases hfollow : store.follow start names.dropLast with
    | error fault => simp [hroute, hfollow, bind, Except.bind] at htarget
    | ok place =>
      simp only [hroute, hfollow, bind, Except.bind] at htarget
      split at htarget
      · next last hdirectory hlast =>
        split at htarget
        · cases htarget
        · next hname =>
          split at htarget
          · cases htarget
          · next hsize =>
            cases htarget
            simp only [not_or] at hname hsize
            obtain ⟨front, rfl⟩ := List.getLast?_eq_some_iff.1 hlast
            rw [List.dropLast_concat] at hfollow
            refine resolve_eq_ok.2 ⟨start, front ++ [name], hroute, ?_⟩
            rw [follow_append, hfollow]
            simp only [Except.bind, follow, hdirectory, hname, hsize, or_self, if_false]
      · cases htarget
      · cases htarget

theorem read_of_resolve {path : Text} {contents : Bytes} (hresolve : store.resolve path = .ok place)
    (hplace : store.get? place = some (.file contents)) : store.read path = .ok contents := by
  unfold read
  rw [hresolve]
  simp only [bind, Except.bind, hplace]

end FileStore

end HeaderOutline
