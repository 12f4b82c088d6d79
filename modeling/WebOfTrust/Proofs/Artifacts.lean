import WebOfTrust.Artifacts
import WebOfTrust.Proofs.Outcome

/-!
# `WebOfTrust.Proofs.Artifacts`: a write reaches its own artifact

Artifacts only grow. A write that succeeds appends to one of them and leaves the others as they
were, whatever the bounds of their sinks are. So what a pass makes of the key-status table and of
the edge corpus is told by two texts, those that it appends.

- `Artifacts.text_write`, `Artifacts.sink_write_of_ne`: one write;
- `Artifacts.Gain`: what several writes append;
- `Artifacts.Faultless.write`, `Artifacts.Faultless.flush`: where no sink fails, no write does;
- `Artifacts.Faultless.foldlM`: what several writes leave then.
-/

set_option autoImplicit false

namespace WebOfTrust

/-- A sink that takes a text has it behind what it had before. One with a bounded capacity does so
until it is full. Bounds are compared before anything is taken, so there are no partial writes. -/
theorem Sink.text_write {k k' : Sink} {s : String} (h : k.write s = .ok k') :
    k'.text = k.text ++ s := by
  simp only [Sink.write] at h
  split at h
  · split at h
    · rw [← Except.ok.inj h]
    · cases h
  · rw [← Except.ok.inj h]

namespace Artifacts

variable {out out' out'' : Artifacts} {a b : Artifact} {pieces : List String}

/-- A write that succeeds has changed one sink, and has entered the pieces in the journal.
Everything below about single writes follows from this inversion. -/
theorem write_eq_ok (h : out.write a pieces = .ok out') :
    ∃ k, (out.sink a).write (String.join pieces) = .ok k ∧
      out' = { out.withSink k a with journal := out.journal.push ⟨a, pieces⟩ } := by
  simp only [write, except_bind_eq_ok, except_pure_eq_ok, except_mapError_eq_ok] at h
  obtain ⟨k, hk, rfl⟩ := h
  exact ⟨k, hk, rfl⟩

/-- A write appends to its artifact: the pieces, one behind the other. It is the first half of what
a `Gain` says of the artifact. -/
theorem text_write (h : out.write a pieces = .ok out') :
    (out'.sink a).text = (out.sink a).text ++ String.join pieces := by
  obtain ⟨k, hk, rfl⟩ := write_eq_ok h
  rw [← Sink.text_write hk]
  cases a <;> rfl

/-- A write leaves every other artifact as it was, so what has been written to the corpus is not
lost when a line of the table is written. `Gain` needs it for whichever of the two artifacts is not
written. -/
theorem sink_write_of_ne (h : out.write a pieces = .ok out') (hne : b ≠ a) :
    out'.sink b = out.sink b := by
  obtain ⟨k, -, rfl⟩ := write_eq_ok h
  cases a <;> cases b <;> first | rfl | exact absurd rfl hne

/-- From `out` to `out'` the key-status table and the edge corpus have gained two texts. The policy
table is left out, as it is written once, at the end. -/
structure Gain (out out' : Artifacts) (status corpus : String) : Prop where
  /-- What stands behind the table that was there. -/
  status : out'.status.text = out.status.text ++ status
  /-- What stands behind the corpus that was there. -/
  corpus : out'.corpus.text = out.corpus.text ++ corpus

/-- Where nothing is written, both gain the empty text. A write to the policy table, and a key that
is not interesting, are cases of it. -/
theorem Gain.refl (out : Artifacts) : Gain out out "" "" :=
  ⟨by simp, by simp⟩

/-- Gains add up in the order in which they were made. Passes are told by this, one line or block
after the other. `Resolver.run` and `refineBlocks` are followed by inductions that use it in each
step. -/
theorem Gain.trans {s c s' c' : String} (h : Gain out out' s c) (h' : Gain out' out'' s' c') :
    Gain out out'' (s ++ s') (c ++ c') :=
  ⟨by rw [h'.status, h.status, String.append_assoc], by
    rw [h'.corpus, h.corpus, String.append_assoc]⟩

/-- A line of the table is written with its line feed, and the corpus is as it was. -/
theorem gain_writeStatus {l : StatusLine} (h : out.writeStatus l = .ok out') :
    Gain out out' (l.render ++ "\n") "" := by
  have hcorpus : out'.corpus = out.corpus := sink_write_of_ne (b := .edgeCorpus) h (by decide)
  refine ⟨?_, by simp [hcorpus]⟩
  rw [← l.join_pieces]
  exact text_write h

/-- A block is written as `EdgeBlock.render` has it, and the table is as it was. -/
theorem gain_writeBlock {b : EdgeBlock} (h : out.writeBlock b = .ok out') :
    Gain out out' "" b.render := by
  have hstatus : out'.status = out.status := sink_write_of_ne (b := .keyStatus) h (by decide)
  refine ⟨by simp [hstatus], ?_⟩
  rw [← b.join_pieces]
  exact text_write h

/-- To write the policy table changes neither of the other two artifacts. The second pass writes it
last, and what it says of the other two is final by then. -/
theorem gain_writePolicies {t : PolicyUriTable} (h : out.writePolicies t = .ok out') :
    Gain out out' "" "" := by
  have hstatus : out'.status = out.status := sink_write_of_ne (b := .keyStatus) h (by decide)
  have hcorpus : out'.corpus = out.corpus := sink_write_of_ne (b := .edgeCorpus) h (by decide)
  exact ⟨by simp [hstatus], by simp [hcorpus]⟩

end Artifacts

/-! ### Sinks without faults -/

/-- A sink that takes everything and hands it on. The sinks of a pass are so from the start, unless
a test gives it others. `Sink.Faultless.write` is why it is asked for. -/
structure Sink.Faultless (k : Sink) : Prop where
  /-- There is no bound on what it takes. -/
  capacity : k.capacity = none
  /-- There is no error when it is flushed. -/
  flushError : k.flushError = none

/-- A faultless sink takes any text, and is faultless still. Both halves are needed to write more
than once. -/
theorem Sink.Faultless.write {k : Sink} (h : k.Faultless) (s : String) :
    ∃ k', k.write s = .ok k' ∧ k'.Faultless := by
  rw [Sink.write, h.capacity]
  exact ⟨_, rfl, rfl, h.flushError⟩

namespace Artifacts

variable {out : Artifacts}

/-- All sinks are faultless, so whatever is written succeeds. Claims that a pass comes to its end
are proved under this hypothesis, and claims about its result are not in need of it. The
field-by-field version for a single sink is `Sink.Faultless`. -/
def Faultless (out : Artifacts) : Prop := ∀ a, (out.sink a).Faultless

/-- The artifacts with which a pass starts are faultless. So theorems about `resolve settings dump
{}` have no hypothesis on sinks. -/
theorem faultless_empty : Faultless {} := fun a => by
  cases a <;> exact ⟨rfl, rfl⟩

/-- Any write to faultless artifacts succeeds and leaves them faultless, so it can be followed by
another one. A sink without a bound has none behind a write either. -/
theorem Faultless.write (h : out.Faultless) (a : Artifact) (pieces : List String) :
    ∃ out', out.write a pieces = .ok out' ∧ out'.Faultless := by
  obtain ⟨k, hk, hfaultless⟩ := (h a).write (String.join pieces)
  have hwrite : out.write a pieces
      = .ok { out.withSink k a with journal := out.journal.push ⟨a, pieces⟩ } := by
    rw [Artifacts.write, hk]
    rfl
  refine ⟨_, hwrite, fun b => ?_⟩
  -- Only the sink that took the text is a new one.
  by_cases hb : b = a
  · subst hb
    cases b <;> exact hfaultless
  · rw [sink_write_of_ne hwrite hb]
    exact h b

/-- Where no sink fails, things that are written one by one are written one behind the other.
`status` and `corpus` tell what one thing adds, and the induction adds these up. -/
theorem Faultless.foldlM {α : Type} {write : Artifacts → α → Except ResolutionError Artifacts}
    {status corpus : α → String}
    (hwrite : ∀ {out : Artifacts}, out.Faultless → ∀ a, ∃ out', write out a = .ok out' ∧
      out'.Faultless ∧ out.Gain out' (status a) (corpus a))
    (h : out.Faultless) (as : List α) :
    ∃ out', as.foldlM write out = .ok out' ∧
      out.Gain out' (String.join (as.map status)) (String.join (as.map corpus)) := by
  induction as generalizing out with
  | nil => exact ⟨out, rfl, .refl out⟩
  | cons a as ih =>
    obtain ⟨out₁, hfirst, h₁, hgain₁⟩ := hwrite h a
    obtain ⟨out', hrest, hgain⟩ := ih h₁
    refine ⟨out', ?_, by simpa using hgain₁.trans hgain⟩
    rw [List.foldlM_cons, hfirst, except_bind_ok, hrest]

/-- To flush faultless artifacts succeeds, whichever they are. Passes flush `rawArtifacts` and
`refinedArtifacts` when all is written. -/
theorem Faultless.flush (h : out.Faultless) (as : List Artifact) : as.forM out.flush = .ok () := by
  induction as with
  | nil => rfl
  | cons a as ih =>
    have ha : out.flush a = .ok () := by
      rw [Artifacts.flush, Sink.flush, (h a).flushError]
      rfl
    show (do out.flush a; as.forM out.flush) = .ok ()
    rw [ha, except_bind_ok, ih]

end Artifacts

end WebOfTrust
