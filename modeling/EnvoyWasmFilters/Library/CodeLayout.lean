import Mathlib.Data.List.Infix

/-!
# Code at a position of a program

`CodeAt program i c` says that the list `c` stands in `program` from position `i` on.  Code that is put together from
parts has its parts at the positions one behind the other (`codeAt_append`, `codeAt_cons`).
-/

namespace CodeLayout

variable {α : Type} {program c d : List α} {i : ℕ}

/-- `c` stands in `program` from position `i` on. -/
def CodeAt (program : List α) (i : ℕ) (c : List α) : Prop := c <+: program.drop i

theorem codeAt_nil : CodeAt program i [] := List.nil_prefix

theorem codeAt_self : CodeAt c 0 c := List.prefix_rfl

theorem codeAt_append : CodeAt program i (c ++ d) ↔ CodeAt program i c ∧ CodeAt program (i + c.length) d := by
  constructor
  · rintro ⟨post, hpost⟩
    have hdrop : program.drop (i + c.length) = d ++ post := by
      rw [← List.drop_drop, ← hpost, List.append_assoc, List.drop_left]
    refine ⟨⟨d ++ post, by rw [← List.append_assoc, hpost]⟩, ?_⟩
    rw [CodeAt, hdrop]
    exact List.prefix_append d post
  · rintro ⟨⟨rest, hrest⟩, post, hpost⟩
    have hdrop : program.drop (i + c.length) = rest := by
      rw [← List.drop_drop, ← hrest, List.drop_left]
    exact ⟨post, by rw [List.append_assoc, hpost, hdrop, hrest]⟩

/-- The first element is the one at the position. -/
theorem codeAt_cons {a : α} :
    CodeAt program i (a :: c) ↔ program[i]? = some a ∧ CodeAt program (i + 1) c := by
  have hhead : CodeAt program i [a] ↔ program[i]? = some a := by
    rw [CodeAt, List.singleton_prefix_iff_head?_eq_some, List.head?_drop]
  rw [← List.singleton_append, codeAt_append, hhead]
  rfl

theorem codeAt_singleton {a : α} : CodeAt program i [a] ↔ program[i]? = some a := by
  rw [codeAt_cons, and_iff_left codeAt_nil]

end CodeLayout
