import WebOfTrust.Files.Buffered
import WebOfTrust.Proofs.Files.Tree

/-!
# `WebOfTrust.Proofs.Files.Frame`: what a program leaves as it is

A program over a file tree changes no files but those at the places that its requests name, whether
it succeeds or fails. What its parts keep, it keeps. A buffered file has one place, from which its
writes never stray, so nobody has to know when its buffer is emptied.

- `FileTree.Keeps`, `FileTree.Keeps.bind`: programs, and programs one behind the other;
- `FileTree.keeps_makeDirectories`: making directories changes no file;
- `FileTree.KeepsWith`: programs with a state of their own, as a pass has;
- `FileTree.Ends`: what is known of a tree when a program ends, by its result or its error;
- `BufferedFile.keeps_put`, `BufferedFile.keeps_flush`: a buffered file changes what is at its
  place.
-/

set_option autoImplicit false

namespace WebOfTrust

namespace FileTree

variable {α β ε σ : Type} {places places' : List (List String)} {Q : α → Prop} {R : β → Prop}

/-! ### Programs -/

/-- From any tree, the program changes files at `places` only, and its result has `Q`. The tree is
any, because the programs here are proved before it is known where they run. -/
def Keeps (places : List (List String)) (Q : α → Prop) (x : StateM FileTree α) : Prop :=
  ∀ t, KeptBut places t (x.run t).2 ∧ Q (x.run t).1

/-- The tree in which a request is answered: the fault that was there for it is gone. What
`FileTree.change` decides is decided on this tree. -/
def awaiting (t : FileTree) : FileTree := { t with faults := t.faults.tail }

/-- A fault that has met its request is no change of what there is, by `KeptBut.with_faults`. -/
theorem keptBut_awaiting (places : List (List String)) (t : FileTree) :
    KeptBut places t t.awaiting := .with_faults places t _

/-- There are two ways in which a request can be refused, by a fault and by `f` itself, and neither
changes what there is. Everything about requests is proved from these two outcomes, so that nobody
has to look at `faults` again. -/
theorem run_change (f : FileTree → Except IoError (FileTree × α)) (t : FileTree) :
    (∃ e, (change f).run t = (.error e, t.awaiting)) ∨
      ∃ t' a, f t.awaiting = .ok (t', a) ∧ (change f).run t = (.ok a, t') := by
  cases hfault : t.faults.head?.join with
  | some e => exact .inl ⟨e, by simp only [change, StateT.run, hfault]; rfl⟩
  | none =>
    cases hanswer : f t.awaiting with
    | error e =>
      refine .inl ⟨e, ?_⟩
      -- `change` spells the tree out, so it is spelled out here too.
      rw [awaiting] at hanswer ⊢
      simp only [change, StateT.run, hfault, hanswer]
    | ok r =>
      refine .inr ⟨r.1, r.2, rfl, ?_⟩
      rw [awaiting] at hanswer
      simp only [change, StateT.run, hfault, hanswer]

namespace Keeps

/-- A program that makes no request keeps everything, and its result is the one it was given. -/
theorem pure {a : α} (h : Q a) : Keeps places Q (pure a) := fun t => ⟨.refl places t, h⟩

/-- Two programs one behind the other keep what both of them keep. The second one may rely on `Q` of
what the first one gives. -/
theorem bind {x : StateM FileTree α} {f : α → StateM FileTree β} (hx : Keeps places Q x)
    (hf : ∀ a, Q a → Keeps places R (f a)) : Keeps places R (x >>= f) := by
  intro t
  obtain ⟨hkept, hq⟩ := hx t
  obtain ⟨hkept', hr⟩ := hf (x.run t).1 hq (x.run t).2
  exact ⟨hkept.trans hkept', hr⟩

/-- More places may be named, and less may be said of the result. Lemmas about parts name the places
of these parts, and lemmas about a whole have to agree on one set. -/
theorem mono {Q' : α → Prop} {x : StateM FileTree α} (h : Keeps places Q x)
    (hsub : places ⊆ places') (hq : ∀ a, Q a → Q' a) : Keeps places' Q' x :=
  fun t => ⟨(h t).1.mono hsub, hq _ (h t).2⟩

/-- A request that changes the tree if it is granted. Of `f` only its answers are asked about; that
a fault may come instead is seen to here, by `run_change`. -/
theorem change {f : FileTree → Except IoError (FileTree × α)} {Q : Except IoError α → Prop}
    (hok : ∀ t t' a, f t = .ok (t', a) → KeptBut places t t' ∧ Q (.ok a))
    (herror : ∀ e, Q (.error e)) : Keeps places Q (FileTree.change f) := by
  intro t
  have hawaiting := keptBut_awaiting places t
  rcases run_change f t with ⟨e, hrun⟩ | ⟨t', a, hf, hrun⟩
  · rw [hrun]
    exact ⟨hawaiting, herror e⟩
  · obtain ⟨hkept, hq⟩ := hok _ _ _ hf
    rw [hrun]
    exact ⟨hawaiting.trans hkept, hq⟩

end Keeps

/-! ### Programs that may fail -/

/-- A result or an error, of either of which nothing more is known. It is the `Q` of programs of
which only their effect on files matters. -/
def Anything (_ : α) : Prop := True

/-- A question changes nothing. It is a request like any other, so a fault may meet it, but `ask`
takes that for a negative answer. -/
theorem keeps_ask (f : FileTree → Bool) : Keeps places Anything (ask f) := by
  have hchange : Keeps places Anything (change fun t => .ok (t, f t)) := by
    refine .change (fun t t' a h => ?_) fun _ => trivial
    cases h
    exact ⟨.refl places t, trivial⟩
  rw [ask, map_eq_pure_bind]
  exact hchange.bind fun _ _ => .pure trivial

/-- To open a file for reading changes nothing, whether it is there or not. What the file delivers
is part of the answer, so reading it makes no further request. -/
theorem keeps_read (path : String) :
    Keeps places Anything (FileAccess.read path : StateM FileTree (Except IoError Source)) := by
  refine .change (fun t t' source h => ?_) fun _ => trivial
  obtain ⟨_, -, heq⟩ := except_map_eq_ok.1 h
  cases heq
  exact ⟨.refl places t, trivial⟩

/-- A chain of steps that may fail keeps what its steps keep. If the first one fails, the second one
has no effect, so `hf` is only asked for results. -/
theorem keeps_run_bind {x : ExceptT ε (StateM FileTree) α} {f : α → ExceptT ε (StateM FileTree) β}
    {Q : Except ε α → Prop} (hx : Keeps places Q x.run)
    (hf : ∀ a, Q (.ok a) → Keeps places Anything (f a).run) :
    Keeps places Anything (x >>= f).run := by
  rw [ExceptT.run_bind]
  refine hx.bind fun r hr => ?_
  cases r with
  | ok a => exact hf a hr
  | error e => exact .pure trivial

/-- A program that cannot fail, in a chain of steps that can. What is known of its result is known
of the result of the step. -/
theorem keeps_run_lift {x : StateM FileTree α} (hx : Keeps places Q x) :
    Keeps places (fun r => ∀ a, r = .ok a → Q a) (ExceptT.lift x : ExceptT ε _ α).run := by
  rw [ExceptT.run_lift]
  intro t
  refine ⟨(hx t).1, ?_⟩
  intro a ha
  exact Except.ok.inj ha ▸ (hx t).2

/-- A step for each member of a list, until one fails. The induction is on the list and uses
`keeps_run_bind` for the step of its head. -/
theorem keeps_run_forM {f : β → ExceptT ε (StateM FileTree) Unit} {l : List β}
    (hf : ∀ b ∈ l, Keeps places Anything (f b).run) : Keeps places Anything (l.forM f).run := by
  induction l with
  | nil => exact .pure trivial
  | cons b l ih =>
    exact keeps_run_bind (hf b List.mem_cons_self) fun _ _ =>
      ih fun b hb => hf b (List.mem_cons_of_mem _ hb)

/-- A step with another one in case it fails. Both may change files, one behind the other. -/
theorem keeps_run_tryCatch {x : ExceptT ε (StateM FileTree) α}
    {handle : ε → ExceptT ε (StateM FileTree) α} (hx : Keeps places Anything x.run)
    (hhandle : ∀ e, Keeps places Anything (handle e).run) :
    Keeps places Anything (tryCatch x handle : ExceptT ε (StateM FileTree) α).run := by
  rw [ExceptT.run_tryCatch]
  refine hx.bind fun r _ => ?_
  cases r with
  | ok a => exact .pure trivial
  | error e => exact hhandle e

/-- A request as a step of a chain: `request` only names the error of the answer, so nothing more is
changed. -/
theorem keeps_run_request {f : IoError → ε} {r : StateM FileTree (Except IoError α)}
    (hr : Keeps places Anything r) : Keeps places Anything (request f r).run :=
  hr.bind fun _ _ => .pure trivial

/-! ### Directories -/

/-- To make sure that a directory is there takes a request and at most one question. Neither changes
a file, so no place is named. -/
theorem keeps_ensureDirectory (path : String) :
    Keeps [] Anything (ensureDirectory path : ExceptT IoError (StateM FileTree) Unit).run := by
  unfold ensureDirectory
  -- The request, and if it is refused, the question that the answer to it depends on.
  refine keeps_run_tryCatch (keeps_run_request ?_) fun e =>
    keeps_run_bind (keeps_run_lift (keeps_ask _)) fun b _ => ?_
  · refine .change (fun t t' _ h => ?_) fun _ => trivial
    obtain ⟨t₁, hmake, heq⟩ := except_map_eq_ok.1 h
    cases heq
    exact ⟨makeDirectory_eq_ok hmake, trivial⟩
  · cases b <;> exact .pure trivial

/-- To make a directory with all that are missing above it changes no file. The induction is on the
paths above, in the order in which `ensureNested` tries them. -/
theorem keeps_ensureNested (paths : List String) :
    Keeps [] Anything (ensureNested paths : ExceptT IoError (StateM FileTree) Unit).run := by
  induction paths with
  | nil => exact .pure trivial
  | cons path above ih =>
    unfold ensureNested
    refine keeps_run_tryCatch (keeps_ensureDirectory path) fun e => ?_
    split
    · exact keeps_run_bind ih fun _ _ => keeps_ensureDirectory path
    · exact .pure trivial

/-- A program that makes directories changes no file. This is the first thing that a resolution
does. -/
theorem keeps_makeDirectories (path : String) :
    Keeps [] Anything (makeDirectories path : ExceptT IoError (StateM FileTree) Unit).run := by
  unfold makeDirectories
  split
  · exact .pure trivial
  · exact keeps_ensureNested _

/-! ### Programs with a state of their own -/

/-- From any tree and any state with `Good`, the program changes files at `places` only, and its
state is `Good` again. A pass has its open files as a state, and `Good` says where they were
opened. -/
def KeepsWith (places : List (List String)) (Good : σ → Prop)
    (act : ExceptT ε (StateT σ (StateM FileTree)) α) : Prop :=
  ∀ s, Good s → Keeps places (fun r => Good r.2) (act.run.run s)

namespace KeepsWith

variable {Good : σ → Prop}

/-- A result without a request leaves the tree and the state as they are. -/
theorem pure (a : α) : KeepsWith (ε := ε) places Good (pure a) := fun _ hs => .pure hs

/-- Two programs with a state one behind the other. The state that the first one leaves is `Good`,
also if it fails, so that files can still be closed. -/
theorem bind {x : ExceptT ε (StateT σ (StateM FileTree)) α}
    {f : α → ExceptT ε (StateT σ (StateM FileTree)) β} (hx : KeepsWith places Good x)
    (hf : ∀ a, KeepsWith places Good (f a)) : KeepsWith places Good (x >>= f) := by
  intro s hs
  rw [ExceptT.run_bind, StateT.run_bind]
  refine (hx s hs).bind fun r hr => ?_
  obtain ⟨e | a, s'⟩ := r
  · exact .pure hr
  · exact hf a s' hr

/-- A program for each member of a list, until one fails. The induction is on the list, with `bind`
for the head. -/
theorem forM {f : β → ExceptT ε (StateT σ (StateM FileTree)) Unit}
    (hf : ∀ b, KeepsWith places Good (f b)) (l : List β) : KeepsWith places Good (l.forM f) := by
  induction l with
  | nil => exact .pure ()
  | cons b l ih => exact (hf b).bind fun _ => ih

/-- The journal of a pass is an array, and to go through it is to go through its list:
`List.forM_toArray` takes the loop over the array to the one over the list. -/
theorem forM_array {f : β → ExceptT ε (StateT σ (StateM FileTree)) Unit}
    (hf : ∀ b, KeepsWith places Good (f b)) (as : Array β) :
    KeepsWith places Good (as.forM f) := by
  obtain ⟨l⟩ := as
  show KeepsWith places Good (ForM.forM l.toArray f)
  rw [List.forM_toArray]
  exact forM hf l

/-- To read the state changes neither it nor the tree. Where something has to be known of what is
read, `get_bind` is the lemma. -/
theorem get : KeepsWith (ε := ε) places Good get := fun _ hs => .pure hs

/-- What is read is the state, so something is known of it. The continuation is asked to keep files
from that very state on, which `bind` cannot say. -/
theorem get_bind {f : σ → ExceptT ε (StateT σ (StateM FileTree)) β}
    (hf : ∀ s, Good s → Keeps places (fun r => Good r.2) ((f s).run.run s)) :
    KeepsWith places Good (MonadState.get >>= f) :=
  fun s hs => hf s hs

/-- A change of the state that keeps it `Good` leaves the tree alone. -/
theorem modify {f : σ → σ} (hf : ∀ s, Good s → Good (f s)) :
    KeepsWith (ε := ε) places Good (modify f) :=
  fun s hs => .pure (hf s hs)

end KeepsWith

/-- A request that is made of the tree, in a program with a state. What is known of its answer is
known to what follows, and the state `s` is the same before and after. -/
theorem keeps_request_bind {g : IoError → ε} {r : StateM FileTree (Except IoError α)}
    {f : α → ExceptT ε (StateT σ (StateM FileTree)) β} {Good : σ → Prop}
    {Q : Except IoError α → Prop} {s : σ} (hr : Keeps places Q r) (hs : Good s)
    (hf : ∀ a, Q (.ok a) → Keeps places (fun r => Good r.2) ((f a).run.run s)) :
    Keeps places (fun r => Good r.2)
      ((request g (liftM r : StateT σ (StateM FileTree) (Except IoError α)) >>= f).run.run s) := by
  -- The state of the program has no part in the request.
  have hrun : (request g (liftM r : StateT σ (StateM FileTree) (Except IoError α))).run.run s
      = (fun a => (a.mapError g, s)) <$> r := by
    simp [request, liftM]
  rw [ExceptT.run_bind, StateT.run_bind, hrun, bind_map_left]
  refine hr.bind fun a ha => ?_
  cases a with
  | ok a => exact hf a ha
  | error e => exact .pure hs

/-- The same where nothing is known of the answer, so that the continuation has to keep files
whatever it is. -/
theorem KeepsWith.request_bind {g : IoError → ε} {r : StateM FileTree (Except IoError α)}
    {f : α → ExceptT ε (StateT σ (StateM FileTree)) β} {Good : σ → Prop}
    (hr : Keeps places Anything r) (hf : ∀ a, KeepsWith places Good (f a)) :
    KeepsWith places Good
      (request g (liftM r : StateT σ (StateM FileTree) (Except IoError α)) >>= f) :=
  fun s hs => keeps_request_bind hr hs fun a _ => hf a s hs

/-- A program over trees in a program with a state, and what follows it. It has no access to the
state, so `s` is the same before and after. -/
theorem keeps_lift_bind {x : StateM FileTree α}
    {f : α → ExceptT ε (StateT σ (StateM FileTree)) β} {Good : σ → Prop} {s : σ}
    (hx : Keeps places Q x)
    (hf : ∀ a, Q a → Keeps places (fun r => Good r.2) ((f a).run.run s)) :
    Keeps places (fun r => Good r.2)
      (((liftM x : ExceptT ε (StateT σ (StateM FileTree)) α) >>= f).run.run s) := by
  have hrun : (liftM x : ExceptT ε (StateT σ (StateM FileTree)) α).run.run s
      = (fun a => (.ok a, s)) <$> x := rfl
  rw [ExceptT.run_bind, StateT.run_bind, hrun, bind_map_left]
  exact hx.bind hf

/-! ### Where a program ends -/

/-- From a tree with `P` the program ends with a result and a tree that have `Q`, or with an error
and a tree that have `E`. In contrast to `Keeps` it tells by the error how far the program had come,
and the tree at its start is known. -/
def Ends {ε α : Type} (P : FileTree → Prop) (x : ExceptT ε (StateM FileTree) α)
    (E : ε → FileTree → Prop) (Q : α → FileTree → Prop) : Prop :=
  ∀ t, P t → match x.run.run t with
    | (.ok a, t') => Q a t'
    | (.error e, t') => E e t'

namespace Ends

variable {ε δ α β : Type} {P : FileTree → Prop} {x : ExceptT ε (StateM FileTree) α}
  {E : ε → FileTree → Prop} {Q : α → FileTree → Prop} {R : β → FileTree → Prop}

/-- A program that makes no request ends with the tree at which it started. -/
theorem pure {a : α} (h : ∀ t, P t → Q a t) : Ends P (pure a : ExceptT ε _ α) E Q := h

/-- Two programs one behind the other. The error of the first one is that of both, so both are asked
for the same `E`. -/
theorem bind {f : α → ExceptT ε (StateM FileTree) β} (hx : Ends P x E Q)
    (hf : ∀ a, Ends (Q a) (f a) E R) : Ends P (x >>= f) E R := by
  intro t ht
  have hx := hx t ht
  -- How the chain runs, by what its first part ends with.
  have hrun : (x >>= f).run.run t = match x.run.run t with
      | (.ok a, t') => (f a).run.run t'
      | (.error e, t') => (.error e, t') := by
    rw [ExceptT.run_bind, StateT.run_bind]
    obtain ⟨e | a, t'⟩ := x.run.run t <;> rfl
  rw [hrun]
  generalize x.run.run t = r at hx
  obtain ⟨e | a, t'⟩ := r
  · -- An error is the end, whatever was to follow.
    exact hx
  · exact hf a t' hx

/-- An error under another name. `E` is asked of the name that the chain gives it, since it is the
one that a caller sees. -/
theorem adapt {f : ε → δ} {E : δ → FileTree → Prop} (h : Ends P x (fun e => E (f e)) Q) :
    Ends P (ExceptT.adapt f x) E Q := by
  intro t ht
  have h := h t ht
  have hrun : (ExceptT.adapt f x).run.run t = match x.run.run t with
      | (r, t') => (r.mapError f, t') := by
    rw [ExceptT.run_adapt, StateT.run_map]
    rfl
  rw [hrun]
  generalize x.run.run t = r at h
  obtain ⟨e | a, t'⟩ := r <;> exact h

/-- Of a program that keeps files, what follows from that is known at its end. By this the lemmas
about `Keeps` are used where a program is told by its errors. -/
theorem of_keeps {places : List (List String)} (hx : Keeps places Anything x.run)
    (hok : ∀ a t t', P t → KeptBut places t t' → Q a t')
    (herror : ∀ e t t', P t → KeptBut places t t' → E e t') : Ends P x E Q := by
  intro t ht
  have hkept := (hx t).1
  generalize x.run.run t = r at hkept
  obtain ⟨e | a, t'⟩ := r
  · exact herror e t t' ht hkept
  · exact hok a t t' ht hkept

/-- A request that changes the tree if it is granted. What is known of the tree must not depend on
what is going to fail, since the request meets a fault first; `hfaults` asks for that. -/
theorem request {g : IoError → ε} {f : FileTree → Except IoError (FileTree × α)}
    (hfaults : ∀ t, P t → P t.awaiting)
    (hok : ∀ t t' a, P t → f t = .ok (t', a) → Q a t') (herror : ∀ e t, P t → E (g e) t) :
    Ends P (request g (FileTree.change f)) E Q := by
  intro t ht
  have hrun : (WebOfTrust.request g (FileTree.change f)).run.run t
      = (((FileTree.change f).run t).1.mapError g, ((FileTree.change f).run t).2) := rfl
  rw [hrun]
  rcases run_change f t with ⟨e, hchange⟩ | ⟨t', a, hf, hchange⟩
  · rw [hchange]
    exact herror e _ (hfaults t ht)
  · rw [hchange]
    exact hok _ t' a (hfaults t ht) hf

end Ends

/-- A run is told by its result alone if its tree is left as an expression. Concrete runs are
evaluated by `decide` in this way, since a tree would be a long term. -/
theorem run_eq_of_fst {ε α : Type} {x : ExceptT ε (StateM FileTree) α} {t : FileTree}
    {r : Except ε α} (h : (x.run.run t).1 = r) : x.run.run t = (r, (x.run.run t).2) :=
  Prod.ext h rfl

end FileTree

/-! ### Buffered files -/

namespace BufferedFile

open FileTree

/-- The file was opened at that place. It is kept by all that is done with the file, as a write
hands back a handle with the same place. -/
def At (place : List String) (file : BufferedFile (StateM FileTree)) : Prop :=
  Handle.place file.handle = place

variable {place : List String}

/-- What a buffered file hands on to the system goes to its own place. An empty text is not handed
on at all. -/
theorem keeps_handOn (text : String) : KeepsWith [place] (At place) (handOn text) := by
  unfold handOn
  split
  · refine .get_bind fun file hfile => ?_
    obtain rfl : Handle.place file.handle = place := hfile
    -- A write hands back a handle for what comes next, and that one has the same place.
    refine keeps_request_bind (Q := fun a => ∀ handle, a = .ok handle →
        Handle.place handle = Handle.place file.handle) ?_ rfl fun handle ha =>
      .pure (ha handle rfl)
    refine .change (fun t t' handle h => ?_) fun e handle he => nomatch he
    obtain ⟨hplace, hkept⟩ := write_eq_ok h
    exact ⟨hkept, fun handle' heq => Except.ok.inj heq ▸ hplace⟩
  · exact .pure ()

/-- To empty the buffer changes the file at its place, by one write of all that is pending. Only the
buffer of the state changes besides, and `At` does not look at that. -/
theorem keeps_flush : KeepsWith [place] (At place) flush := by
  unfold flush
  refine .bind .get fun file => ?_
  refine (keeps_handOn file.pending).bind fun _ => .modify ?_
  intro file hfile
  exact hfile

/-- To put a piece into a buffered file changes the file at its place or nothing, depending on how
much fits into the buffer. Nobody who uses the lemma has to know which. -/
theorem keeps_put (piece : String) : KeepsWith [place] (At place) (put piece) := by
  unfold put
  refine .bind .get fun file => ?_
  -- Whether or not the buffer is emptied first, the piece goes one of two ways.
  have hlast : KeepsWith [place] (At place) (if bufferSize ≤ piece.utf8ByteSize then handOn piece
      else modify fun file => { file with pending := file.pending ++ piece }) := by
    split
    · exact keeps_handOn piece
    · exact .modify fun _ h => h
  show KeepsWith [place] (At place)
    (if bufferSize < file.pending.utf8ByteSize + piece.utf8ByteSize
      then flush >>= fun _ => _ else _)
  split
  · exact keeps_flush.bind fun _ => hlast
  · exact hlast

end BufferedFile

end WebOfTrust
