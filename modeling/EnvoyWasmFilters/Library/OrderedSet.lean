import Mathlib.Data.List.Sort

/-!
# Sets ordered by a comparator

A set that is kept as the ascending list of its elements, as an ordered container does it.

* `insert` — a new element goes before the first one that is not less; one that is there is dropped;
* `mem_insert`, `ascending_insert` — what an insertion does, for a strict total order;
* `ascending_ext` — an ascending list is determined by its members.
-/

namespace OrderedSet

variable {α : Type*}

/-- Insertion with the comparator `less`. -/
def insert (less : α → α → Bool) (x : α) : List α → List α
  | [] => [x]
  | y :: ys =>
      if less x y then x :: y :: ys
      else if less y x then y :: insert less x ys
      else y :: ys

/-- A comparator that is a strict total order. -/
structure StrictTotal (less : α → α → Bool) : Prop where
  irrefl : ∀ x, less x x = false
  trans : ∀ {x y z}, less x y = true → less y z = true → less x z = true
  connected : ∀ {x y}, less x y = false → less y x = false → x = y

/-- Each element is less than the ones after it. -/
def Ascending (less : α → α → Bool) (l : List α) : Prop := l.Pairwise fun x y => less x y = true

variable {less : α → α → Bool}

theorem mem_insert (h : StrictTotal less) {a x : α} {l : List α} :
    a ∈ insert less x l ↔ a = x ∨ a ∈ l := by
  induction l with
  | nil => rw [insert, List.mem_singleton, or_iff_left List.not_mem_nil]
  | cons y ys ih =>
    rw [insert]
    split
    · exact List.mem_cons
    · next hxy =>
      split
      · rw [List.mem_cons, ih, List.mem_cons, or_left_comm]
      · next hyx =>
        have heq : x = y := h.connected (Bool.eq_false_of_not_eq_true hxy)
          (Bool.eq_false_of_not_eq_true hyx)
        rw [heq, List.mem_cons, ← or_assoc, or_self]

theorem ascending_insert (h : StrictTotal less) (x : α) {l : List α} (hl : Ascending less l) :
    Ascending less (insert less x l) := by
  induction l with
  | nil => exact List.pairwise_singleton _ x
  | cons y ys ih =>
    obtain ⟨hy, hys⟩ := List.pairwise_cons.mp hl
    rw [insert]
    split
    · next hxy =>
      apply List.Pairwise.cons _ hl
      intro z hz
      obtain rfl | hz := List.mem_cons.mp hz
      · exact hxy
      · exact h.trans hxy (hy z hz)
    · split
      · next hyx =>
        apply List.Pairwise.cons _ (ih hys)
        intro z hz
        obtain rfl | hz := (mem_insert h).mp hz
        · exact hyx
        · exact hy z hz
      · exact hl

/-- **An ascending list is determined by its members.** -/
theorem ascending_ext (h : StrictTotal less) {l m : List α} (hl : Ascending less l)
    (hm : Ascending less m) (hmem : ∀ a, a ∈ l ↔ a ∈ m) : l = m := by
  have hirrefl : Std.Irrefl fun x y => less x y = true :=
    ⟨fun x hx => Bool.false_ne_true ((h.irrefl x).symm.trans hx)⟩
  have hantisymm : Std.Antisymm fun x y => less x y = true := by
    constructor
    intro x y hxy hyx
    exact absurd (h.trans hxy hyx) (by rw [h.irrefl]; exact Bool.false_ne_true)
  exact List.Pairwise.eq_of_mem_iff hl hm hmem

end OrderedSet
