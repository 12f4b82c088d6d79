import WebOfTrust.Files.Tree
import WebOfTrust.Proofs.Outcome
import WebOfTrust.Proofs.Table

/-!
# `WebOfTrust.Proofs.Files.Tree`: what a request leaves as it is

Where a path leads is a matter of names, as long as the directories on the way are there: no request
moves the current directory, so the same path leads to the same place all along. A request then
changes the file at the place that it names, or none.

- `FileTree.target`, `FileTree.place_eq_ok`: the place that a path names;
- `FileTree.KeptBut`: two trees with the same files but for some places, and no directory less;
- `FileTree.create_eq_ok`, `write_eq_ok`, `remove_eq_ok`, `makeDirectory_eq_ok`: what is kept by
  each request that is granted.
-/

set_option autoImplicit false

namespace WebOfTrust

namespace FileTree

variable {t t' t'' : FileTree} {path : String} {q : List String}
  {places places' : List (List String)}

/-! ### Where a path leads -/

/-- The place that a path names. It is where the path leads if the directories on the way exist. In
contrast to `place` it asks nothing of the entries, so it is the same for every tree with the same
current directory. -/
def target (t : FileTree) (path : String) : List String :=
  (Path.steps path).foldl step (if Path.isAbsolute path then [] else t.current)

/-- Steps that lead to a place lead to the one that `step` names. What `walk` asks on the way,
whether there is a directory and whether the name is short enough, only decides whether it gets
there. -/
theorem walk_eq_ok {place names : List String} (h : t.walk place names = .ok q) :
    names.foldl step place = q := by
  induction names generalizing place with
  | nil => exact Except.ok.inj h
  | cons name names ih =>
    unfold walk at h
    -- There has to be a directory here, and a name that is short enough; otherwise the walk ends.
    split at h
    · split at h
      · exact ih h
      · cases h
    · cases h
    · cases h

/-- A path that leads anywhere leads to the place that it names: `place` refuses some paths, but
where it answers, it answers `target`. -/
theorem place_eq_ok (h : t.place path = .ok q) : t.target path = q := by
  unfold place follow at h
  split at h
  · cases h
  split at h
  · cases h
  split at h
  · cases h
  -- All three tests are passed, and what is left of `follow` is a walk.
  exact walk_eq_ok h

/-- What `find` gives for a path is what there is at the `target` of the path. The trailing
separator of a path can only make it refuse an entry. -/
theorem find_eq_ok {entry : FileEntry} (h : t.find path = .ok entry) :
    t.entryAt (t.target path) = some entry := by
  unfold find at h
  obtain ⟨q, hplace, h⟩ := except_bind_eq_ok.1 h
  rw [place_eq_ok hplace]
  split at h
  · cases h
  · -- A directory may be named with a separator behind it, anything else may not.
    next hentry => rw [hentry, except_pure_eq_ok.1 h]
  · next hentry =>
    split at h
    · cases h
    · rw [hentry, except_pure_eq_ok.1 h]

/-- Where there is nothing at the `target` of a path, the program sees that nothing is there. By
this the last sentence of a theorem about places can speak of `pathExists`. -/
theorem pathExists_eq_false (h : t.entryAt (t.target path) = none) : t.pathExists path = false := by
  unfold pathExists
  cases hfind : t.find path with
  | error e => rfl
  | ok entry =>
    rw [find_eq_ok hfind] at h
    cases h

/-! ### Trees with the same files -/

/-- What there is at a place, unless that is a directory. Requests that make directories are left
out of account in this way, since no artifact is one. -/
def fileAt (t : FileTree) (place : List String) : Option FileEntry :=
  (t.entryAt place).filter (· ≠ .directory)

/-- From `t` to `t'` nothing but the files at `places` may have changed. Directories may have been
made, but none was removed. The relation is reflexive and transitive, so it is proved of a program
request by request. -/
structure KeptBut (places : List (List String)) (t t' : FileTree) : Prop where
  /-- Relative paths lead where they led, since no request moves the current directory. -/
  current : t'.current = t.current
  /-- A directory is still there. A path that led somewhere by directories can therefore only come
  to lead to another entry, not to another place. -/
  directories : ∀ q, t.entryAt q = some .directory → t'.entryAt q = some .directory
  /-- Elsewhere there are the same files, and where there was none, there is none. -/
  files : ∀ q ∉ places, t'.fileAt q = t.fileAt q

namespace KeptBut

/-- A request that is refused changes nothing, and `KeptBut` says so for any `places`. -/
theorem refl (places : List (List String)) (t : FileTree) : KeptBut places t t :=
  ⟨rfl, fun _ h => h, fun _ _ => rfl⟩

/-- What two programs leave as it is, they leave so one behind the other. All later lemmas about
`bind` come down to this. -/
theorem trans (h : KeptBut places t t') (h' : KeptBut places t' t'') : KeptBut places t t'' :=
  ⟨h'.current.trans h.current, fun q hq => h'.directories q (h.directories q hq),
    fun q hq => (h'.files q hq).trans (h.files q hq)⟩

/-- Fewer places may be named than a program is allowed to change. It lets a request for one file
stand in a program for five. -/
theorem mono (h : KeptBut places t t') (hsub : places ⊆ places') : KeptBut places' t t' :=
  ⟨h.current, h.directories, fun q hq => h.files q fun hmem => hq (hsub hmem)⟩

/-- A path names the same place before and after, because `target` depends on the current directory
only. -/
theorem target_eq (h : KeptBut places t t') (path : String) : t'.target path = t.target path := by
  rw [target, target, h.current]

/-- Faults are not among what there is, so a tree is kept whatever is going to fail.
`FileTree.change` takes one fault away with every request, so each of them needs this. -/
theorem with_faults (places : List (List String)) (t : FileTree) (faults : List (Option IoError)) :
    KeptBut places t { t with faults } :=
  ⟨rfl, fun _ h => h, fun _ _ => rfl⟩

end KeptBut

/-- The root is a directory in every tree, as no entry can stand for it. It is the one place where
`insert` is not seen. -/
theorem entryAt_root (t : FileTree) : t.entryAt [] = some .directory := rfl

/-- A change of entries at one place, where there is no directory, keeps everything but that place.
The hypothesis `hother` leaves the root out, which no table of entries holds; `entryAt_root` adds
it. -/
theorem keptBut_of_entryAt (hcurrent : t'.current = t.current)
    (hplace : t.entryAt q ≠ some .directory)
    (hother : ∀ r, r ≠ [] → r ≠ q → t'.entryAt r = t.entryAt r) : KeptBut [q] t t' := by
  have heq : ∀ r, r ≠ q → t'.entryAt r = t.entryAt r := fun r hr => by
    by_cases hroot : r = []
    · rw [hroot, entryAt_root, entryAt_root]
    · exact hother r hroot hr
  refine ⟨hcurrent, fun r hr => ?_, fun r hr => ?_⟩
  · rw [heq r, hr]
    rintro rfl
    exact hplace hr
  · rw [fileAt, fileAt, heq r fun hrq => hr (List.mem_singleton.2 hrq)]

/-- An entry in the place of a file or of nothing. This is the change that `create` and `write`
make. -/
theorem keptBut_insert {entry : FileEntry} (h : t.entryAt q ≠ some .directory) :
    KeptBut [q] t (t.insert q entry) :=
  keptBut_of_entryAt rfl h fun r hroot hr => by rw [entryAt_insert t q r entry hroot, if_neg hr]

/-- A directory in the place of nothing is no file, so `fileAt` does not see it and no place has to
be named. This is the change that `makeDirectory` makes. -/
theorem keptBut_insert_directory (h : t.entryAt q = none) :
    KeptBut [] t (t.insert q .directory) := by
  have hne : t.entryAt q ≠ some .directory := by
    rw [h]
    exact fun heq => nomatch heq
  have hkept : KeptBut [q] t (t.insert q .directory) := keptBut_insert hne
  refine ⟨hkept.current, hkept.directories, fun r _ => ?_⟩
  by_cases hr : r = q
  · -- At its own place the directory is seen, and neither tree has a file there.
    have hroot : q ≠ [] := fun heq => hne (by rw [heq, entryAt_root])
    rw [hr, fileAt, fileAt, entryAt_insert t q q .directory hroot, if_pos rfl, h]
    rfl
  · exact hkept.files r fun hmem => hr (List.mem_singleton.1 hmem)

/-! ### Requests -/

/-- A file that has been created is at the place that its path names, and nothing else has changed.
A device is not emptied, and a path with a trailing separator is never granted. -/
theorem create_eq_ok {handle : Handle} (h : t.create path = .ok (t', handle)) :
    handle.place = t.target path ∧ KeptBut [t.target path] t t' := by
  unfold create at h
  split at h
  · obtain ⟨q, -, h⟩ := except_bind_eq_ok.1 h
    cases h
  obtain ⟨q, hplace, h⟩ := except_bind_eq_ok.1 h
  rw [place_eq_ok hplace]
  split at h
  · -- A directory cannot be opened for writing.
    cases h
  · cases h
    exact ⟨rfl, .refl _ t⟩
  · cases h
    exact ⟨rfl, .refl _ t⟩
  · next hdirectory _ _ =>
    cases h
    exact ⟨rfl, keptBut_insert hdirectory⟩

/-- A write changes the file of its handle, and the handle that it hands back is one of the same
file. A path has no part in it, as the file was found when it was created. -/
theorem write_eq_ok {handle handle' : Handle} {text : String}
    (h : t.write handle text = .ok (t', handle')) :
    handle'.place = handle.place ∧ KeptBut [handle.place] t t' := by
  unfold write at h
  simp only at h
  split at h
  · next hfile =>
    cases h
    exact ⟨rfl, keptBut_insert (by rw [hfile]; exact fun heq => nomatch heq)⟩
  · cases h
  · cases h
    exact ⟨rfl, .refl _ t⟩

/-- A directory that is made was not there before, so no file has changed. What stood in its way
would have been an error. -/
theorem makeDirectory_eq_ok (h : t.makeDirectory path = .ok t') : KeptBut [] t t' := by
  unfold makeDirectory at h
  obtain ⟨q, -, h⟩ := except_bind_eq_ok.1 h
  split at h
  · cases h
  · next hnone =>
    cases h
    exact keptBut_insert_directory hnone

/-- A file that is removed is gone, and nothing is there that was not there before. The last part is
what a second removal needs: what the first one took away stays away. -/
theorem remove_eq_ok (h : t.remove path = .ok t') :
    KeptBut [t.target path] t t' ∧ t'.entryAt (t.target path) = none ∧
      ∀ r, t.entryAt r = none → t'.entryAt r = none := by
  unfold remove at h
  obtain ⟨q, hplace, h⟩ := except_bind_eq_ok.1 h
  obtain ⟨entry, hfind, h⟩ := except_bind_eq_ok.1 h
  have hentry := find_eq_ok hfind
  rw [place_eq_ok hplace] at hentry ⊢
  split at h
  · cases h
  next hfile =>
  -- The root is a directory, so what is removed is below it.
  have hroot : q ≠ [] := by
    rintro rfl
    exact hfile (Option.some.inj hentry).symm
  have hat : ∀ r, r ≠ [] → t'.entryAt r = if r = q then none else t.entryAt r := fun r hr => by
    cases h
    rw [entryAt, entryAt, if_neg hr, if_neg hr, Table.find?_filterKeys]
    by_cases hrq : r = q <;> simp [hrq]
  have hcurrent : t'.current = t.current := by
    cases h
    rfl
  have hdirectory : t.entryAt q ≠ some .directory := fun heq =>
    hfile (Option.some.inj (hentry.symm.trans heq))
  refine ⟨keptBut_of_entryAt hcurrent hdirectory fun r hr hrq => ?_, ?_, fun r hr => ?_⟩
  · rw [hat r hr, if_neg hrq]
  · rw [hat q hroot, if_pos rfl]
  · by_cases hempty : r = []
    · rw [hempty, entryAt_root] at hr
      cases hr
    · rw [hat r hempty, hr, ite_self]

end FileTree

end WebOfTrust
