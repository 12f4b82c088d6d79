/-!
# `WebOfTrust.Proofs.Outcome`: steps that succeed

Readers and passes are chains of steps of which each may fail. These lemmas take a chain that
succeeds apart into its steps.
-/

set_option autoImplicit false

namespace WebOfTrust

variable {ε δ α β : Type}

/-- A chain whose first step gives `a` goes on as the rest does with `a`. This is how `bind`
computes on `Except.ok`, stated so that `rw` can use it. -/
theorem except_bind_ok (a : α) (f : α → Except ε β) : (Except.ok a >>= f) = f a := rfl

/-- A chain whose first step fails has failed: the rest `f` is not reached, and the error `e` is
that of the chain. -/
theorem except_bind_error (e : ε) (f : α → Except ε β) :
    ((Except.error e : Except ε α) >>= f) = .error e := rfl

/-- A chain succeeds if and only if its first step does and the rest does with what that step gives.
Inversions of a reader or a pass start with `except_bind_eq_ok.1`, once for every step. -/
theorem except_bind_eq_ok {x : Except ε α} {f : α → Except ε β} {b : β} :
    x >>= f = .ok b ↔ ∃ a, x = .ok a ∧ f a = .ok b := by
  cases x with
  | error e =>
    rw [except_bind_error]
    simp
  | ok a =>
    rw [except_bind_ok]
    simp

/-- A chain fails with `e` if its first step does, or if that step succeeds and the rest fails with
`e`. The counterpart of `except_bind_eq_ok` for what is refused. -/
theorem except_bind_eq_error {x : Except ε α} {f : α → Except ε β} {e : ε} :
    x >>= f = .error e ↔ x = .error e ∨ ∃ a, x = .ok a ∧ f a = .error e := by
  cases x with
  | error e' =>
    rw [except_bind_error]
    simp
  | ok a =>
    rw [except_bind_ok]
    simp

/-- To apply a function to a result neither lets a step fail nor saves one that does, so `f <$> x`
gives `b` only for an `a` of `x` with `f a = b`. -/
theorem except_map_eq_ok {x : Except ε α} {f : α → β} {b : β} :
    f <$> x = .ok b ↔ ∃ a, x = .ok a ∧ f a = b := by
  cases x with
  | error e => simp [Functor.map, Except.map]
  | ok a => simp [Functor.map, Except.map]

/-- A step that only returns `a` gives `a` and nothing else. It stands at the end of most chains,
where it tells what the chain has come to. -/
theorem except_pure_eq_ok {a b : α} : (pure a : Except ε α) = .ok b ↔ a = b := by
  simp [pure, Except.pure]

/-- A result has no error that `Except.mapError` could change. The lemma is how `mapError` computes
on `Except.ok`. -/
theorem except_mapError_ok (f : ε → δ) (a : α) :
    (Except.ok a : Except ε α).mapError f = .ok a := rfl

/-- An error is the only thing that `Except.mapError` changes. The lemma is how `mapError` computes
on `Except.error`. -/
theorem except_mapError_error (f : ε → δ) (e : ε) :
    (Except.error e : Except ε α).mapError f = .error (f e) := rfl

/-- To name an error differently does not matter where a step succeeds: `x.mapError f` gives `a` if
and only if `x` does. -/
theorem except_mapError_eq_ok {x : Except ε α} {f : ε → δ} {a : α} :
    x.mapError f = .ok a ↔ x = .ok a := by
  cases x with
  | error e =>
    rw [except_mapError_error]
    simp
  | ok b =>
    rw [except_mapError_ok]
    simp

/-- Lists of results are the same only if what they hold is: `Except.ok` is injective, and so is
`List.map` of it. By this the items of a dump are determined by what `records` gives. -/
theorem map_ok_inj {as bs : List α} :
    as.map (Except.ok (ε := ε)) = bs.map .ok ↔ as = bs :=
  List.map_inj_right fun _ _ h => Except.ok.inj h

/-- Several steps of one kind succeed if each of them does: `as.mapM f` gives `bs` if and only if
`f` gives every member of `bs` for its member of `as`. The right side has no monad, so lemmas about
`List.map` apply to it. -/
theorem except_mapM_eq_ok {f : α → Except ε β} {as : List α} {bs : List β} :
    as.mapM f = .ok bs ↔ as.map f = bs.map .ok := by
  induction as generalizing bs with
  | nil =>
    rw [List.mapM_nil, except_pure_eq_ok]
    cases bs <;> simp
  | cons a as ih =>
    simp only [List.mapM_cons, except_bind_eq_ok, except_pure_eq_ok, ih, List.map_cons]
    -- Both directions take one step off; the rest is the induction hypothesis.
    constructor
    · rintro ⟨b, hb, bs, hbs, rfl⟩
      simp [hb, hbs]
    · intro h
      cases bs with
      | nil => cases h
      | cons b bs =>
        obtain ⟨hb, hbs⟩ := List.cons.inj h
        exact ⟨b, hb, bs, hbs, rfl⟩

/-- If each step keeps what `f'` and `g` read off, then so do several of them. With it a list of
keys that `mapM` has made is compared field by field with the list of records that it was made
of. -/
theorem map_of_mapM_eq_ok {γ : Type} {f : α → Except ε β} {f' : α → γ} {g : β → γ} {as : List α}
    {bs : List β} (step : ∀ a b, f a = .ok b → g b = f' a) (h : as.mapM f = .ok bs) :
    bs.map g = as.map f' := by
  rw [except_mapM_eq_ok] at h
  induction as generalizing bs with
  | nil => simp_all
  | cons a as ih =>
    cases bs with
    | nil => cases h
    | cons b bs =>
      obtain ⟨hb, hbs⟩ := List.cons.inj h
      rw [List.map_cons, List.map_cons, step a b hb, ih hbs]

end WebOfTrust
