import Mathlib.Order.Basic

/-!
# While loops

The loop `while guard do body` on a state.  A loop that ends goes through a number of rounds, the guard
holding before each of them and failing after the last one.

* `ExitsAfter n s t` — from `s` the loop leaves in `t` after `n` rounds;
* `ExitsAfter.exit_state` — where it leaves the guard fails;
* `ExitsAfter.invariant` — what a round preserves holds where the loop leaves;
* `exists_exitsAfter` — a loop whose rounds lower a measure leaves.
-/

namespace WhileLoop

variable {σ : Type*} {guard : σ → Prop} {body : σ → σ}

/-- After `n` rounds from `s` the loop leaves in `t`. -/
inductive ExitsAfter (guard : σ → Prop) (body : σ → σ) : ℕ → σ → σ → Prop
  | exit {s : σ} (h : ¬ guard s) : ExitsAfter guard body 0 s s
  | round {n : ℕ} {s t : σ} (h : guard s) (hrest : ExitsAfter guard body n (body s) t) :
      ExitsAfter guard body (n + 1) s t

/-- The guard fails in the state left in. -/
theorem ExitsAfter.exit_state {n : ℕ} {s t : σ} (h : ExitsAfter guard body n s t) : ¬ guard t := by
  induction h with
  | exit h => exact h
  | round _ _ ih => exact ih

/-- **What a round preserves** holds where the loop leaves. -/
theorem ExitsAfter.invariant {I : σ → Prop} (hstep : ∀ s, I s → guard s → I (body s)) {n : ℕ} {s t : σ}
    (h : ExitsAfter guard body n s t) (hs : I s) : I t := by
  induction h with
  | exit => exact hs
  | round hguard _ ih => exact ih (hstep _ hs hguard)

/-- **A loop whose rounds lower a measure leaves.** -/
theorem exists_exitsAfter (measure : σ → ℕ) (h : ∀ s, guard s → measure (body s) < measure s)
    (s : σ) : ∃ n t, ExitsAfter guard body n s t := by
  induction hn : measure s using Nat.strongRecOn generalizing s with
  | ind m ih =>
    by_cases hguard : guard s
    · obtain ⟨n, t, hrest⟩ := ih (measure (body s)) (hn ▸ h s hguard) (body s) rfl
      exact ⟨n + 1, t, .round hguard hrest⟩
    · exact ⟨0, s, .exit hguard⟩

end WhileLoop
