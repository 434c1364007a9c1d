import EnvoyWasmFilters.Library.GuardedRun

/-!
# Two runs that should look alike

A statement about two runs, such as noninterference: one system runs twice from one state, on events
that correspond one to one.  A pair of corresponding events has the type `τ`, with its two sides
`left` and `right`, and what an observer sees of a state is its *view*.

* `AgreeThroughout` — the two runs are seen alike after any number of events;
* `agreeThroughout_iff_guarded` — when the two sides of a pair lead to one state or are told apart,
  and `C` says which, the runs are seen alike exactly if every pair meets `C`.
-/

namespace GuardedRun

variable {σ ε τ α : Type*} (step : σ → ε → σ) (left right : τ → ε) (view : σ → α)

/-- After any number of events the two runs are seen alike. -/
def AgreeThroughout (s : σ) (es : List τ) : Prop :=
  ∀ pre, pre <+: es → view (run step s (pre.map left)) = view (run step s (pre.map right))

variable {step left right view}

/-- A pair of events that leads to one state. -/
theorem agreeThroughout_cons {s : σ} {e : τ} {es : List τ}
    (h : step s (left e) = step s (right e)) :
    AgreeThroughout step left right view s (e :: es)
      ↔ AgreeThroughout step left right view (step s (left e)) es := by
  have hcons : ∀ pre, view (run step s ((e :: pre).map left))
        = view (run step s ((e :: pre).map right))
      ↔ view (run step (step s (left e)) (pre.map left))
        = view (run step (step s (left e)) (pre.map right)) := by
    intro pre
    show view (run step (step s (left e)) _) = view (run step (step s (right e)) _) ↔ _
    rw [← h]
  constructor
  · intro hagree pre hpre
    exact (hcons pre).mp (hagree (e :: pre) (List.cons_prefix_cons.mpr ⟨rfl, hpre⟩))
  · intro hagree pre hpre
    cases pre with
    | nil => rfl
    | cons f pre =>
      obtain ⟨rfl, hpre'⟩ := List.cons_prefix_cons.mp hpre
      exact (hcons pre).mpr (hagree pre hpre')

/-- **When two runs are seen alike.**  `J` holds in every state; under it a pair that meets `C` leads
to one state, and one whose sides are seen alike meets `C`. -/
theorem agreeThroughout_iff_guarded {J : σ → Prop} {C : σ → τ → Prop}
    (hkeep : ∀ s e, J s → J (step s (left e)))
    (hsame : ∀ s e, J s → C s e → step s (left e) = step s (right e))
    (hexact : ∀ s e, J s → view (step s (left e)) = view (step s (right e)) → C s e)
    {s : σ} (hJ : J s) (es : List τ) :
    AgreeThroughout step left right view s es ↔ Guarded (fun s e => step s (left e)) C s es := by
  induction es generalizing s with
  | nil =>
    apply iff_of_true _ trivial
    intro pre hpre
    rw [List.prefix_nil.mp hpre]
    rfl
  | cons e es ih =>
    constructor
    · intro hagree
      have hc : C s e := hexact s e hJ (hagree [e] (List.prefix_append [e] es))
      exact ⟨hc, (ih (hkeep s e hJ)).mp ((agreeThroughout_cons (hsame s e hJ hc)).mp hagree)⟩
    · rintro ⟨hc, hrest⟩
      exact (agreeThroughout_cons (hsame s e hJ hc)).mpr ((ih (hkeep s e hJ)).mpr hrest)

end GuardedRun
