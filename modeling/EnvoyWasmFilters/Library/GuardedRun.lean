import Mathlib.Data.List.Induction
import Mathlib.Data.List.Infix

/-!
# Invariants of guarded runs

A deterministic system is a step function `σ → ε → σ` driven by a list of events.  Some invariants
are kept by every step; others only by the steps that meet a condition on the state before the
step and the event.  This file treats the second kind:

* `run` — the state after a list of events;
* `Guarded C s es` — every step of the run of `es` from `s` meets `C`;
* `invariant_run` — an invariant that every step keeps;
* `history_run` — a relation to the events so far;
* `invariant_iff_guarded` — when a step keeps the invariant *exactly* if it meets `C`, the
  invariant holds in every state of a run exactly if the run is guarded;
* `invariant_iff_guarded_of_invariant` — the same in the presence of an invariant every step keeps.
-/

namespace GuardedRun

variable {σ ε : Type*} (step : σ → ε → σ)

/-- The state reached from `s` by the events `es`. -/
def run (s : σ) (es : List ε) : σ := es.foldl step s

/-- Every step of the run of `es` from `s` meets the condition `C`. -/
def Guarded (C : σ → ε → Prop) : σ → List ε → Prop
  | _, [] => True
  | s, e :: es => C s e ∧ Guarded C (step s e) es

/-- `I` holds in every state that the run of `es` from `s` reaches, the first one included. -/
def Throughout (I : σ → Prop) (s : σ) (es : List ε) : Prop :=
  ∀ pre, pre <+: es → I (run step s pre)

theorem throughout_nil (I : σ → Prop) (s : σ) : Throughout step I s [] ↔ I s := by
  constructor
  · intro h
    exact h [] List.nil_prefix
  · intro h pre hpre
    rw [List.prefix_nil.mp hpre]
    exact h

theorem throughout_cons (I : σ → Prop) (s : σ) (e : ε) (es : List ε) :
    Throughout step I s (e :: es) ↔ I s ∧ Throughout step I (step s e) es := by
  constructor
  · intro h
    refine ⟨h [] List.nil_prefix, fun pre hpre => ?_⟩
    exact h (e :: pre) (List.cons_prefix_cons.mpr ⟨rfl, hpre⟩)
  · rintro ⟨h0, hrest⟩ pre hpre
    cases pre with
    | nil => exact h0
    | cons f pre =>
      obtain ⟨rfl, hpre'⟩ := List.cons_prefix_cons.mp hpre
      exact hrest pre hpre'

/-- An invariant that every step keeps holds after every run. -/
theorem invariant_run {I : σ → Prop} (hstep : ∀ s e, I s → I (step s e)) {s : σ} (h0 : I s)
    (es : List ε) : I (run step s es) := by
  induction es generalizing s with
  | nil => exact h0
  | cons e es ih => exact ih (hstep s e h0)

/-- A relation between the events so far and the state, kept by every further event, holds after every
run. -/
theorem history_run {P : List ε → σ → Prop}
    (hstep : ∀ es s e, P es s → P (es ++ [e]) (step s e)) {s : σ} (h0 : P [] s) (es : List ε) :
    P es (run step s es) := by
  induction es using List.reverseRecOn with
  | nil => exact h0
  | append_singleton es e ih =>
    rw [run, List.foldl_append]
    exact hstep es (run step s es) e ih

/-- Exact guards, where the exactness needs an invariant `J` that every step keeps. -/
theorem invariant_iff_guarded_of_invariant {I J : σ → Prop} {C : σ → ε → Prop}
    (hkeep : ∀ s e, J s → J (step s e))
    (hstep : ∀ s e, J s → I s → (I (step s e) ↔ C s e)) {s : σ} {es : List ε} (hJ : J s)
    (h0 : I s) : Throughout step I s es ↔ Guarded step C s es := by
  induction es generalizing s with
  | nil =>
    rw [throughout_nil]
    exact iff_of_true h0 trivial
  | cons e es ih =>
    rw [throughout_cons, and_iff_right h0]
    constructor
    · intro h
      have h1 : I (step s e) := h [] List.nil_prefix
      exact ⟨(hstep s e hJ h0).mp h1, (ih (hkeep s e hJ) h1).mp h⟩
    · rintro ⟨hc, hrest⟩
      exact (ih (hkeep s e hJ) ((hstep s e hJ h0).mpr hc)).mpr hrest

/-- Two conditions that agree in the presence of an invariant guard the same runs. -/
theorem guarded_congr {J : σ → Prop} {C D : σ → ε → Prop} (hkeep : ∀ s e, J s → J (step s e))
    (hCD : ∀ s e, J s → (C s e ↔ D s e)) {s : σ} (hJ : J s) (es : List ε) :
    Guarded step C s es ↔ Guarded step D s es := by
  induction es generalizing s with
  | nil => exact Iff.rfl
  | cons e es ih => exact and_congr (hCD s e hJ) (ih (hkeep s e hJ))

/-- **Exact guards.**  If a step from a state with the invariant keeps it exactly when it meets
`C`, then the invariant holds throughout a run exactly when the run is guarded by `C`. -/
theorem invariant_iff_guarded {I : σ → Prop} {C : σ → ε → Prop}
    (hstep : ∀ s e, I s → (I (step s e) ↔ C s e)) {s : σ} {es : List ε} (h0 : I s) :
    Throughout step I s es ↔ Guarded step C s es := by
  apply invariant_iff_guarded_of_invariant step (J := fun _ => True) (fun _ _ h => h) _ trivial h0
  intro s e _
  exact hstep s e

end GuardedRun
