import Mathlib.Data.List.Nodup
import WebOfTrust.CommandLine.Stages
import WebOfTrust.Proofs.Files.Frame

/-!
# `WebOfTrust.Proofs.CommandLine.Resolution`: the files that a resolution changes

A resolution creates five files one after the other, two for the first pass and the three artifacts
for the second one. To create a file is to empty it, so the artifacts of an earlier resolution are
gone as soon as the second pass begins, whether or not it succeeds. What can be relied on is the
order: a resolution that fails has not touched the files that it had not come to. In particular the
artifacts outlast any failure of the first pass.

- `Pass.keeps_carryOut`: a pass changes what its own files hold, and nothing else;
- `Configuration.touchedFiles`: how far a resolution had come that ends in some way;
- `ends_firstPassStage`, `ends_secondPassStage`, `ends_resolveStage`: the stage in its parts;
- `resolution_spares`: what is left as it was, however a resolution ends.
-/

set_option autoImplicit false

namespace WebOfTrust

open FileTree

/-! ### Passes at work on their files -/

namespace Pass

variable {α β : Type} {places : List (List String)}

/-- All files that are open were opened at `places`. It is the invariant of a pass at work: whatever
is written goes through one of these files. -/
def OpenedAt (places : List (List String)) (files : OpenArtifacts (StateM FileTree)) : Prop :=
  ∀ f ∈ files, Handle.place f.2.handle ∈ places

/-- A pass that has no files open writes nowhere. Both stages begin with it, before `createFile`
adds their files one by one. -/
theorem openedAt_nil : OpenedAt places [] := fun _ hf => nomatch hf

/-- A further file at one of the places may be open. The files of a stage are told one by one in
this way, each by the place at which `createFile` has put it. -/
theorem openedAt_cons {files : OpenArtifacts (StateM FileTree)} {a : Artifact}
    {file : BufferedFile (StateM FileTree)} (h : Handle.place file.handle ∈ places)
    (hfiles : OpenedAt places files) : OpenedAt places ((a, file) :: files) :=
  List.forall_mem_cons.2 ⟨h, hfiles⟩

/-- The pass changes files at `places` only, if its own files were opened there. It is `KeepsWith`
for the state that a pass has. -/
abbrev Within (places : List (List String)) (pass : Pass (StateM FileTree) α) : Prop :=
  KeepsWith places (OpenedAt places) pass

/-- To hand on a result or an error makes no request. So `accept` never counts as a request, and no
fault can meet it. -/
theorem within_accept {ε : Type} (f : ε → ResolutionError) (r : Except ε α) :
    Within places (accept f r : Pass (StateM FileTree) α) :=
  fun _ hfiles => .pure hfiles

/-- A file that is looked up by its artifact is one of those that are open, so `OpenedAt` tells its
place. -/
theorem mem_of_lookup {files : OpenArtifacts (StateM FileTree)} {a : Artifact}
    {file : BufferedFile (StateM FileTree)} (h : files.lookup a = some file) :
    (a, file) ∈ files := by
  obtain ⟨before, after, rfl, -⟩ := List.lookup_eq_some_iff.1 h
  exact List.mem_append_right _ List.mem_cons_self

/-- What is done with the file of one artifact changes files at `places` only, if it changes a file
only at the place of that file. An artifact without a file is left out. -/
theorem within_onFile {act : FileAction (StateM FileTree) Unit} (a : Artifact)
    (hact : ∀ place, KeepsWith [place] (BufferedFile.At place) act) :
    Within places (onFile a act) := by
  refine .get_bind fun files hfiles => ?_
  split
  · exact .pure hfiles
  next file hfile =>
  have hplace : Handle.place file.handle ∈ places := hfiles _ (mem_of_lookup hfile)
  have hcarried := (hact _ file rfl).mono (List.singleton_sublist.2 hplace).subset fun _ h => h
  refine keeps_lift_bind hcarried fun r hr => ?_
  obtain ⟨result, file'⟩ := r
  -- The file is the only one that has changed, and it is still at its place.
  have hmodify : Within places (modify fun files => files.map fun f =>
      if f.1 = a then (a, file') else f : Pass (StateM FileTree) Unit) :=
    .modify fun files hfiles f hf => by
      obtain ⟨g, hg, rfl⟩ := List.mem_map.1 hf
      split
      · have hsame : Handle.place file'.handle = Handle.place file.handle := hr
        rwa [hsame]
      · exact hfiles g hg
  exact hmodify.bind (fun _ => within_accept _ result) files hfiles

/-- To go through the journal of a pass is to put pieces into open files, one after the other. What
the pass decides is settled before that, in `PassOutcome`, and touches no file. -/
theorem within_replay {outcome : PassOutcome α} : Within places (replay outcome) := by
  refine .bind (.forM_array (fun entry => ?_) _) fun _ => within_accept id outcome.result
  exact within_onFile entry.artifact fun place =>
    .forM (fun piece => BufferedFile.keeps_put piece) _

/-- To empty the buffers of some artifacts changes the files of these artifacts. It is `Within` for
a list of artifacts, by the lemma for one of them. -/
theorem within_flush (artifacts : List Artifact) :
    Within places (flush artifacts : Pass (StateM FileTree) Unit) :=
  .forM (fun a => within_onFile a fun _ => BufferedFile.keeps_flush) artifacts

/-- A file that is given up is emptied into its own place, and into no other. The error that this
may end with is dropped. -/
theorem keeps_abandon {file : BufferedFile (StateM FileTree)}
    (h : Handle.place file.handle ∈ places) : Keeps places Anything file.abandon := by
  have hflush := (BufferedFile.keeps_flush file rfl).mono (List.singleton_sublist.2 h).subset
    fun _ h => h
  unfold BufferedFile.abandon
  exact hflush.bind fun _ _ => .pure trivial

/-- A pass changes what its own files hold, and nothing else, and so does giving up its files. They
are given up whether or not the pass succeeds, the last one that was opened first. -/
theorem keeps_carryOut {files : OpenArtifacts (StateM FileTree)} {pass : Pass (StateM FileTree) α}
    (hfiles : OpenedAt places files) (hpass : Within places pass) :
    Keeps places Anything (carryOut files pass).run := by
  refine keeps_run_bind (keeps_run_lift (hpass files hfiles)) fun r hr => ?_
  have hgood : OpenedAt places r.2 := hr r rfl
  -- What is left of the buffers goes to the files that the pass has left open.
  refine keeps_run_bind (Q := Anything) (keeps_run_forM fun f hf => ?_) fun _ _ => .pure trivial
  have habandon := keeps_run_lift (ε := ResolutionError)
    (keeps_abandon (hgood f (List.mem_reverse.1 hf)))
  exact habandon.mono (List.Subset.refl _) fun _ _ => trivial

end Pass

/-! ### Steps of the stage -/

/-- Since the tree was `t₀`, no files but those that `paths` name have changed. Places are those of
`t₀`, which stay the same by `KeptBut.target_eq`. -/
abbrev Touched (t₀ : FileTree) (paths : List String) (t : FileTree) : Prop :=
  KeptBut (paths.map t₀.target) t₀ t

section Steps

variable {t₀ : FileTree} {paths : List String} {path : String} {E : Failure → FileTree → Prop}

/-- One more request, at a path that is among those that may be touched from now on. -/
theorem Touched.step {t t' : FileTree} {paths' : List String} (h : Touched t₀ paths t)
    (h' : KeptBut [t.target path] t t') (hsub : paths ⊆ paths') (hpath : path ∈ paths') :
    Touched t₀ paths' t' := by
  rw [h.target_eq path] at h'
  have hplace : t₀.target path ∈ paths'.map t₀.target := List.mem_map_of_mem hpath
  exact (h.mono (List.map_subset _ hsub)).trans (h'.mono (List.singleton_sublist.2 hplace).subset)

/-- What is going to fail has no part in what was touched. Each request asks for this, since a fault
may meet it. -/
theorem Touched.awaiting {t : FileTree} (h : Touched t₀ paths t) : Touched t₀ paths t.awaiting :=
  h.trans (keptBut_awaiting _ t)

/-- The data directory is made before any file is touched, and if that fails, none has been. -/
theorem ends_makeDirectories (directory : String)
    (herror : ∀ e t, Touched t₀ paths t → E (.makingDataDirectory directory e) t) :
    Ends (Touched t₀ paths)
      (ExceptT.adapt (.makingDataDirectory directory) (makeDirectories directory)) E
      fun _ => Touched t₀ paths := by
  have hkept : ∀ t t', Touched t₀ paths t → KeptBut [] t t' → Touched t₀ paths t' :=
    fun t t' ht h => ht.trans (h.mono (List.nil_subset _))
  exact .adapt (.of_keeps (keeps_makeDirectories directory) (fun _ => hkept)
    fun e t t' ht h => herror e t' (hkept t t' ht h))

/-- A file that is created adds its path to those that were touched; if it cannot be created, it is
not touched. The difference is what `touchedFiles` counts with. -/
theorem ends_createFile (herror : ∀ e t, Touched t₀ paths t → E (.creating path e) t) :
    Ends (Touched t₀ paths) (createFile path) E fun file t =>
      Handle.place file.handle = t₀.target path ∧ Touched t₀ (paths ++ [path]) t := by
  unfold createFile
  refine .bind (Q := fun handle t =>
    Handle.place handle = t₀.target path ∧ Touched t₀ (paths ++ [path]) t) ?_ fun handle =>
      .pure fun t ht => ht
  refine .request (fun t ht => ht.awaiting) (fun t t' handle ht h => ?_) herror
  obtain ⟨hplace, hkept⟩ := create_eq_ok h
  refine ⟨hplace.trans (ht.target_eq path), ht.step hkept ?_ ?_⟩
  · exact List.subset_append_left _ _
  · exact List.mem_append_right _ List.mem_cons_self

/-- To open a file for reading touches nothing, whether or not the file is there. A read is a
request all the same, so a fault may make it fail, and `awaiting` says that this harms nothing. -/
theorem ends_openFile (herror : ∀ e t, Touched t₀ paths t → E (.opening path e) t) :
    Ends (Touched t₀ paths) (openFile path) E fun _ => Touched t₀ paths := by
  refine .request (fun t ht => ht.awaiting) (fun t t' source ht h => ?_) herror
  obtain ⟨_, -, heq⟩ := except_map_eq_ok.1 h
  cases heq
  exact ht

/-- A pass touches the files that it works on, whether it succeeds or fails. Its error does not tell
how far it had come in them. -/
theorem ends_carryOut {α : Type} {f : ResolutionError → Failure}
    {files : OpenArtifacts (StateM FileTree)} {pass : Pass (StateM FileTree) α}
    (hfiles : Pass.OpenedAt (paths.map t₀.target) files)
    (hpass : Pass.Within (paths.map t₀.target) pass)
    (herror : ∀ e t, Touched t₀ paths t → E (f e) t) :
    Ends (Touched t₀ paths) (ExceptT.adapt f (Pass.carryOut files pass)) E
      fun _ => Touched t₀ paths :=
  .adapt (.of_keeps (Pass.keeps_carryOut hfiles hpass) (fun _ _ _ ht h => ht.trans h)
    fun e _ t' ht h => herror e t' (ht.trans h))

/-- Once removed, a file stays away: `gone` are the files that were removed before, and
`remove_eq_ok` says that nothing comes back. -/
theorem ends_removeScratch (gone : List String) (hpath : path ∈ paths)
    (herror : ∀ e t, Touched t₀ paths t → E (.removing path e) t) :
    Ends (fun t => Touched t₀ paths t ∧ ∀ p ∈ gone, t.entryAt (t₀.target p) = none)
      (removeScratch path) E
      fun _ t => Touched t₀ paths t ∧ ∀ p ∈ path :: gone, t.entryAt (t₀.target p) = none := by
  refine .request (fun t ht => ⟨ht.1.awaiting, ht.2⟩) (fun t t' _ ht h => ?_)
    fun e t ht => herror e t ht.1
  obtain ⟨t₁, hremove, heq⟩ := except_map_eq_ok.1 h
  obtain rfl := (Prod.mk.inj heq).1
  obtain ⟨hkept, hgone, hstays⟩ := remove_eq_ok hremove
  refine ⟨ht.1.step hkept (List.Subset.refl _) hpath, fun p hp => ?_⟩
  rcases List.mem_cons.1 hp with rfl | hp
  · rwa [ht.1.target_eq] at hgone
  · exact hstays _ (ht.2 p hp)

end Steps

/-! ### The stage -/

namespace Configuration

/-- The scratch files of a resolution, in the order in which they are created. The first pass writes
them and the second one reads them. -/
def scratchFiles (c : Configuration) : List String :=
  [c.paths.scratch c.paths.keyStatus, c.paths.scratch c.paths.edgeCorpus]

/-- The artifacts that a resolution makes, in the order in which they are created. They are emptied
by that, whatever an earlier resolution has left in them. -/
def artifactFiles (c : Configuration) : List String :=
  [c.paths.locate c.paths.edgeCorpus, c.paths.locate c.paths.keyStatus,
    c.paths.locate c.paths.policyUris]

/-- The files that a resolution writes, in the order in which they are created. The dump is not
among them, as it is only read. -/
def resolutionFiles (c : Configuration) : List String := c.scratchFiles ++ c.artifactFiles

/-- The files that a resolution may have changed when it ends in that way. They are a first part of
`resolutionFiles`, and the failure tells how long that part is. -/
def touchedFiles (c : Configuration) : Except Failure Refinement → List String
  | .error (.makingDataDirectory ..) => []
  | .error (.creating path _) => c.resolutionFiles.takeWhile (· ≠ path)
  | .error (.opening path _) =>
    -- The second pass opens the scratch files, and the first one opens something else.
    if path ∈ c.scratchFiles then c.resolutionFiles else c.scratchFiles
  | .error (.firstPass ..) => c.scratchFiles
  | _ => c.resolutionFiles

/-- However a resolution ends, it has touched no files but its own. The bound `resolutionFiles` is
what `resolution_spares` asks to be at different places. -/
theorem touchedFiles_subset (c : Configuration) (result : Except Failure Refinement) :
    c.touchedFiles result ⊆ c.resolutionFiles := by
  unfold touchedFiles
  split
  · exact List.nil_subset _
  · exact List.takeWhile_subset _
  · split
    · exact List.Subset.refl _
    · exact List.subset_append_left _ _
  · exact List.subset_append_left _ _
  · exact List.Subset.refl _

/-- A file that cannot be created leaves those behind it as they are, and itself too. The hypothesis
that no path occurs twice makes `takeWhile` stop at the right one. -/
theorem touchedFiles_creating {c : Configuration} (hnodup : c.resolutionFiles.Nodup)
    (before : List String) {after : List String} {path : String}
    (h : c.resolutionFiles = before ++ path :: after) (e : IoError) :
    c.touchedFiles (.error (.creating path e)) = before := by
  have hbefore : ∀ p ∈ before, decide (p ≠ path) = true := fun p hp => by
    rw [h, List.nodup_append] at hnodup
    exact decide_eq_true (hnodup.2.2 p hp path List.mem_cons_self)
  rw [touchedFiles, h, List.takeWhile_append_of_pos hbefore, List.takeWhile_cons_of_neg (by simp),
    List.append_nil]

end Configuration

variable {c : Configuration} {t₀ : FileTree}

/-- The first pass touches the scratch files. At each step, `touchedFiles` of the error that is
possible there is what has been touched by then. -/
theorem ends_firstPassStage (hnodup : c.resolutionFiles.Nodup) :
    Ends (Touched t₀ []) (firstPassStage c)
      (fun e => Touched t₀ (c.touchedFiles (.error e)))
      fun _ => Touched t₀ c.scratchFiles := by
  unfold firstPassStage
  refine .bind (ends_createFile fun e t ht => ?_) fun status => ?_
  · rwa [Configuration.touchedFiles_creating hnodup [] rfl]
  rintro t ⟨hstatus, ht⟩
  refine Ends.bind (ends_createFile fun e t ht => ?_) (fun corpus => ?_) t ht
  · rwa [Configuration.touchedFiles_creating hnodup [_] rfl]
  rintro t ⟨hcorpus, ht⟩
  refine Ends.bind (ends_openFile fun e t ht => ?_) (fun source => ?_) t ht
  · -- Should the dump be one of the scratch files, then more counts as touched than was.
    rw [Configuration.touchedFiles]
    split
    · exact ht.mono (List.map_subset _ (List.subset_append_left c.scratchFiles _))
    · exact ht
  refine ends_carryOut (Pass.openedAt_cons ?_ (Pass.openedAt_cons ?_ Pass.openedAt_nil)) ?_
    fun e t ht => ht
  · simp [hstatus]
  · simp [hcorpus]
  · exact .bind Pass.within_replay fun first => .bind (Pass.within_flush _) fun _ => .pure first

/-- The second pass touches the artifacts, one after the other. All of them are created before a
scratch file is opened, so an artifact is lost even if nothing can be read. -/
theorem ends_secondPassStage (hnodup : c.resolutionFiles.Nodup) (first : FirstPass) :
    Ends (Touched t₀ c.scratchFiles) (secondPassStage c first)
      (fun e => Touched t₀ (c.touchedFiles (.error e)))
      fun _ => Touched t₀ c.resolutionFiles := by
  unfold secondPassStage
  refine .bind (ends_createFile fun e t ht => ?_) fun corpus => ?_
  · rwa [Configuration.touchedFiles_creating hnodup [_, _] rfl]
  rintro t ⟨hcorpus, ht⟩
  refine Ends.bind (ends_createFile fun e t ht => ?_) (fun status => ?_) t ht
  · rwa [Configuration.touchedFiles_creating hnodup [_, _, _] rfl]
  rintro t ⟨hstatus, ht⟩
  refine Ends.bind (ends_createFile fun e t ht => ?_) (fun policy => ?_) t ht
  · rwa [Configuration.touchedFiles_creating hnodup [_, _, _, _] rfl]
  rintro t ⟨hpolicy, ht⟩
  have hopening : ∀ path ∈ c.scratchFiles, ∀ e,
      c.touchedFiles (.error (.opening path e)) = c.resolutionFiles := fun path hpath e => by
    rw [Configuration.touchedFiles, if_pos hpath]
  refine Ends.bind (ends_openFile fun e t ht => ?_) (fun rawCorpus => ?_) t ht
  · rwa [hopening _ (List.mem_cons_of_mem _ List.mem_cons_self)]
  refine .bind (ends_openFile fun e t ht => ?_) fun _ => ?_
  · rwa [hopening _ List.mem_cons_self]
  -- From here on the pass writes to the files that it has created, and fails or not.
  refine ends_carryOut (Pass.openedAt_cons ?_ (Pass.openedAt_cons ?_
    (Pass.openedAt_cons ?_ Pass.openedAt_nil))) ?_ fun e t ht => ht
  · simp [hcorpus]
  · simp [hstatus]
  · simp [hpolicy]
  · refine .bind Pass.within_replay fun blocks => ?_
    refine .request_bind (keeps_read _) fun rawStatus => ?_
    exact .bind Pass.within_replay fun refinement => .bind (Pass.within_flush _) fun _ =>
      .pure refinement

/-- The stage touches files one after the other. In the end it takes the scratch files away, and
they are gone if both removals are granted. -/
theorem ends_resolveStage (t : FileTree) (hnodup : c.resolutionFiles.Nodup) :
    Ends (· = t) (resolveStage c) (fun e => Touched t (c.touchedFiles (.error e)))
      fun _ t' => Touched t c.resolutionFiles t' ∧
        ∀ p ∈ c.scratchFiles, t'.entryAt (t.target p) = none := by
  unfold resolveStage
  rintro t rfl
  refine Ends.bind (ends_makeDirectories _ fun e t' ht => ht) (fun _ => ?_) t (.refl _ t)
  refine .bind (ends_firstPassStage hnodup) fun first => ?_
  refine .bind (ends_secondPassStage hnodup first) fun counts => ?_
  -- From the second pass on everything is touched, so only the removals are left.
  intro t' ht
  refine Ends.bind (ends_removeScratch [] List.mem_cons_self fun e t' ht => ht) (fun _ => ?_) t'
    ⟨ht, fun p hp => nomatch hp⟩
  refine .bind (ends_removeScratch _ (List.mem_cons_of_mem _ List.mem_cons_self)
    fun e t' ht => ht) fun _ => .pure ?_
  intro t' ht
  exact ⟨ht.1, fun p hp => ht.2 p ((List.Perm.swap _ _ []).mem_iff.1 hp)⟩

/-- However a resolution ends, it has changed no files but those of its own that it had come to. An
artifact that it had not come to is as it was. If the resolution succeeds, there are no scratch
files any more. The hypothesis `hdistinct` is needed, since a scratch file at the place of an
artifact would be that artifact. -/
theorem resolution_spares {t t' : FileTree} {result : Except Failure Refinement}
    (hdistinct : (c.resolutionFiles.map t.target).Nodup)
    (h : (resolveStage c : ExceptT Failure (StateM FileTree) Refinement).run.run t = (result, t')) :
    KeptBut ((c.touchedFiles result).map t.target) t t' ∧
      (∀ path ∈ c.artifactFiles, path ∉ c.touchedFiles result →
        t'.fileAt (t.target path) = t.fileAt (t.target path)) ∧
      ∀ counts, result = .ok counts → ∀ path ∈ c.scratchFiles, t'.pathExists path = false := by
  have hends := ends_resolveStage t (List.Nodup.of_map t.target hdistinct) t rfl
  rw [h] at hends
  have hkept : KeptBut ((c.touchedFiles result).map t.target) t t' := by
    cases result with
    | error e => exact hends
    | ok counts => exact hends.1
  refine ⟨hkept, fun path hpath htouched => hkept.files _ fun hmem => htouched ?_, ?_⟩
  · -- Different files are at different places.
    obtain ⟨other, hother, heq⟩ := List.mem_map.1 hmem
    have hpath : path ∈ c.resolutionFiles := List.mem_append_right _ hpath
    rwa [← List.inj_on_of_nodup_map hdistinct (c.touchedFiles_subset result hother) hpath heq]
  · rintro counts rfl path hpath
    apply pathExists_eq_false
    rw [hkept.target_eq]
    exact hends.2 path hpath

/-- A data directory with a dump and with the artifacts of an earlier resolution. The concrete
resolutions below start from it and differ in the dump or in the faults. -/
def publishedTree (dump : String) : FileTree :=
  [("pgpring.dump", dump), ("preprocessed", "pBB\nsCC;2001-01-02;;;3;17;2;4\n"),
    ("keystatus.csv", "VC;BB;17;1024;2001-01-01;;4;1\n"), ("policyuris.csv", "BB;p\n")].foldl
    (fun t file => t.addFile ["data", file.1] (Text.Utf8.encode file.2.toList)) {}

/-- The dump begins with a user id, which the first pass refuses by `Misplacement.beforeAnyKey`. -/
def misplacedIdentityTree : FileTree := publishedTree "uid:-::::::::Alice:\n"

/-- The first pass fails, so the artifacts of the earlier resolution outlast it. What `touchedFiles`
names are the scratch files. -/
theorem resolution_spares_misplacedIdentity :
    (({} : Configuration).resolutionFiles.map misplacedIdentityTree.target).Nodup ∧
      ∃ e t', (resolveStage {} : ExceptT Failure (StateM FileTree) Refinement).run.run
          misplacedIdentityTree = (.error (.firstPass "./data/pgpring.dump" e), t') ∧
        KeptBut (({} : Configuration).scratchFiles.map misplacedIdentityTree.target)
          misplacedIdentityTree t' ∧
        ∀ path ∈ ({} : Configuration).artifactFiles,
          t'.fileAt (misplacedIdentityTree.target path)
            = misplacedIdentityTree.fileAt (misplacedIdentityTree.target path) := by
  have hdistinct :
      (({} : Configuration).resolutionFiles.map misplacedIdentityTree.target).Nodup := by
    decide +kernel
  have hresult : ((resolveStage {} : ExceptT Failure (StateM FileTree) Refinement).run.run
      misplacedIdentityTree).1
        = .error (.firstPass "./data/pgpring.dump" (.structural 1 (.beforeAnyKey .uid))) := by
    decide +kernel
  -- The case of `resolution_spares` that is of interest: no artifact is a scratch file.
  have hother : ∀ path ∈ ({} : Configuration).artifactFiles,
      path ∉ ({} : Configuration).scratchFiles := by
    decide +kernel
  have hrun := run_eq_of_fst hresult
  obtain ⟨hkept, hspared, -⟩ := resolution_spares hdistinct hrun
  exact ⟨hdistinct, _, _, hrun, hkept,
    fun path hpath => hspared path hpath (hother path hpath)⟩

/-- Six requests are granted, and the seventh one is refused for want of a permission. It is the one
by which the second pass creates the key-status table. -/
def lockedStatusTree : FileTree :=
  { publishedTree "" with faults := List.replicate 6 none ++ [some .permissionDenied] }

/-- A refused `create` stops the second pass between two artifacts: the corpus has been emptied by
then, while the key-status table and the policy table are what the earlier resolution left. -/
example :
    let run := (resolveStage {} : ExceptT Failure (StateM FileTree) Refinement).run.run
      lockedStatusTree
    run.1 = .error (.creating "./data/keystatus.csv" .permissionDenied) ∧
      ({} : Configuration).artifactFiles.filter (fun path =>
          run.2.fileAt (lockedStatusTree.target path)
            = lockedStatusTree.fileAt (lockedStatusTree.target path))
        = ["./data/keystatus.csv", "./data/policyuris.csv"] := by
  decide +kernel

/-- The dump has a semicolon in a date, so that the second pass refuses what the first one wrote.
Nothing but the contents of a scratch file tells the two dumps apart. -/
def semicolonTree : FileTree := publishedTree "pub::1024:17:AA:2001-01-01;::4:\n"

/-- By the time the second pass fails, it has emptied the artifacts of the earlier resolution. So it
is not true that a failed resolution leaves the artifacts as they were, although all files are at
different places. -/
theorem artifacts_emptied_by_failed_resolution :
    ((["pgpring.dump", "msd.csv", "centrality.csv", "report.json"].map ({} : DataFiles).locate ++
        ({} : Configuration).resolutionFiles).map semicolonTree.target).Nodup ∧
      ∃ e t', (resolveStage {} : ExceptT Failure (StateM FileTree) Refinement).run.run semicolonTree
          = (.error (.secondPass e), t') ∧
        ∀ path ∈ ({} : Configuration).artifactFiles,
          semicolonTree.fileAt (semicolonTree.target path) ≠ some (.file []) ∧
            t'.fileAt (semicolonTree.target path) = some (.file []) := by
  have hresult : ((resolveStage {} : ExceptT Failure (StateM FileTree) Refinement).run.run
      semicolonTree).1 = .error (.secondPass (.malformed 1 (.fieldCount .status 9 8))) := by
    decide +kernel
  have hemptied : ∀ path ∈ ({} : Configuration).artifactFiles,
      semicolonTree.fileAt (semicolonTree.target path) ≠ some (.file []) ∧
        ((resolveStage {} : ExceptT Failure (StateM FileTree) Refinement).run.run
          semicolonTree).2.fileAt (semicolonTree.target path) = some (.file []) := by
    decide +kernel
  exact ⟨by decide +kernel, _, _, run_eq_of_fst hresult, hemptied⟩

end WebOfTrust
