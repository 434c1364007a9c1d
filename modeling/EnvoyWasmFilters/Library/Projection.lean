import EnvoyWasmFilters.Library.GuardedRun

/-!
# What a part of a system sees of a run

Several parties drive one system, and each looks at a part of its state only: a *view*.  When the
events of the others leave the view alone and an event of its own acts on the view by what is in the
view, the view after a run is the one after the run of its own events, however the others' events lie
between them.

* `Isolated view own` — the two conditions on one step;
* `Isolated.view_run` — the run in which only the own events are left.
-/

namespace GuardedRun

variable {σ ε α : Type*} (step : σ → ε → σ)

/-- The events outside `own` do not change the view, and those in `own` change it by what it is. -/
structure Isolated (view : σ → α) (own : ε → Bool) : Prop where
  foreign : ∀ s e, own e = false → view (step s e) = view s
  own_step : ∀ s t e, own e = true → view s = view t → view (step s e) = view (step t e)

variable {step} {view : σ → α} {own : ε → Bool}

/-- Two runs with the same view at their starts, one with all events and one with the own ones. -/
theorem Isolated.view_run_eq (h : Isolated step view own) (es : List ε) {s t : σ}
    (hview : view s = view t) : view (run step s es) = view (run step t (es.filter own)) := by
  induction es generalizing s t with
  | nil => exact hview
  | cons e es ih =>
    cases hown : own e with
    | false =>
      rw [List.filter_cons_of_neg (by rw [hown]; exact Bool.false_ne_true)]
      exact ih ((h.foreign s e hown).trans hview)
    | true =>
      rw [List.filter_cons_of_pos hown]
      exact ih (h.own_step s t e hown hview)

/-- **A view sees its own events only.** -/
theorem Isolated.view_run (h : Isolated step view own) (s : σ) (es : List ε) :
    view (run step s es) = view (run step s (es.filter own)) :=
  h.view_run_eq es rfl

end GuardedRun
