import Mathlib.Data.List.Basic

/-!
# Backpatching

A one-pass compiler emits a jump before it knows the target, keeps the position of the hole, and fills it in once
the target is reached.  `patchAll f holes code` applies `f` to the instructions at the positions `holes`; holes in
the first part of the code are filled in there, whatever has been emitted behind it.
-/

namespace Backpatch

variable {α : Type} {f : α → α} {holes : List ℕ} {i : ℕ} {x y : List α}

/-- Fill in the holes. -/
def patchAll (f : α → α) (holes : List ℕ) (code : List α) : List α :=
  holes.foldl (fun code i => code.modify i f) code

theorem patchAll_concat (f : α → α) (holes : List ℕ) (i : ℕ) (code : List α) :
    patchAll f (holes ++ [i]) code = (patchAll f holes code).modify i f := by
  rw [patchAll, List.foldl_append]
  rfl

theorem length_patchAll (f : α → α) (holes : List ℕ) (code : List α) :
    (patchAll f holes code).length = code.length := by
  induction holes generalizing code with
  | nil => rfl
  | cons i holes ih =>
    rw [patchAll, List.foldl_cons]
    exact (ih _).trans (List.length_modify _ _ _)

/-- A hole in the first part. -/
theorem modify_append (h : i < x.length) : (x ++ y).modify i f = x.modify i f ++ y := by
  induction x generalizing i with
  | nil => exact absurd h (Nat.not_lt_zero i)
  | cons a x ih =>
    cases i with
    | zero => rfl
    | succ i =>
      rw [List.cons_append, List.modify_succ_cons, List.modify_succ_cons, List.cons_append,
        ih (Nat.lt_of_succ_lt_succ h)]

/-- A hole right behind the first part. -/
theorem modify_length (f : α → α) (x y : List α) (a : α) :
    (x ++ a :: y).modify x.length f = x ++ f a :: y := by
  induction x with
  | nil => rfl
  | cons b x ih => rw [List.cons_append, List.length_cons, List.modify_succ_cons, ih, List.cons_append]

/-- Holes in the first part. -/
theorem patchAll_append (h : ∀ i ∈ holes, i < x.length) :
    patchAll f holes (x ++ y) = patchAll f holes x ++ y := by
  induction holes generalizing x with
  | nil => rfl
  | cons i holes ih =>
    have hi := h i List.mem_cons_self
    rw [patchAll, List.foldl_cons, modify_append hi]
    refine ih fun j hj => ?_
    rw [List.length_modify]
    exact h j (List.mem_cons_of_mem i hj)

end Backpatch
