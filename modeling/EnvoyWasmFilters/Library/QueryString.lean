import EnvoyWasmFilters.Library.Delimited
import Mathlib.Data.List.Lex
import Mathlib.Data.List.Sort
import Mathlib.Data.Prod.Lex

/-!
# Query strings in canonical form

A query string is a list of parameters, separated by `amp`.  A parameter is a name and a value, with the
first `eq` between them; where there is none, all of it is the name.  In the canonical form every
parameter has its `eq`, and the parameters are sorted by name and then by value.

* `params`, `canonical` — the parameters of a query string, and its canonical form;
* `canonical_perm` — the form depends on the parameters only, in whatever order they come;
* `canonical_eq_self_iff` — **which query strings are in canonical form**.
-/

namespace QueryString

open Delimited

variable {α : Type*} [LinearOrder α] (amp eq : α)

/-- The name and the value of a parameter. -/
def param (part : List α) : List α × List α :=
  (part.takeWhile (· ≠ eq), (part.dropWhile (· ≠ eq)).drop 1)

/-- The parameters, none where the string is empty. -/
def params (q : List α) : List (List α × List α) :=
  if q = [] then [] else (q.splitOn amp).map (param eq)

/-- The order of the parameters: by name, then by value. -/
def ParamLE (p q : List α × List α) : Prop := toLex p ≤ toLex q

instance : DecidableRel (ParamLE (α := α)) := fun p q => inferInstanceAs (Decidable (toLex p ≤ toLex q))

instance : IsTrans (List α × List α) ParamLE := ⟨fun _ _ _ hpq hqr => le_trans hpq hqr⟩

instance : Std.Total (ParamLE (α := α)) := ⟨fun p q => le_total (toLex p) (toLex q)⟩

instance : Std.Antisymm (ParamLE (α := α)) :=
  ⟨fun _ _ hpq hqp => toLex.injective (le_antisymm hpq hqp)⟩

/-- **The canonical form.** -/
def canonical (q : List α) : List α :=
  [amp].intercalate (((params amp eq q).insertionSort ParamLE).map (pair eq))

variable {amp eq}

/-- The same parameters in another order have one form. -/
theorem canonical_perm {q r : List α} (h : (params amp eq q).Perm (params amp eq r)) :
    canonical amp eq q = canonical amp eq r := by
  have hsorted : (params amp eq q).insertionSort ParamLE = (params amp eq r).insertionSort ParamLE := by
    apply List.Perm.eq_of_pairwise' (List.pairwise_insertionSort ParamLE _)
      (List.pairwise_insertionSort ParamLE _)
    exact (List.perm_insertionSort ParamLE _).trans
      (h.trans (List.perm_insertionSort ParamLE _).symm)
  rw [canonical, canonical, hsorted]

/-! ### Parameters and their parts -/

/-- A parameter is read back from what is written of it. -/
theorem param_pair {p : List α × List α} (h : eq ∉ p.1) : param eq (pair eq p) = p := by
  apply Prod.ext
  · exact takeWhile_field h p.2
  · show ((p.1 ++ eq :: p.2).dropWhile (· ≠ eq)).drop 1 = p.2
    have hname : ∀ a ∈ p.1, decide (a ≠ eq) = true := by
      intro a ha
      rw [decide_eq_true_eq]
      rintro rfl
      exact h ha
    rw [List.dropWhile_append_of_pos hname, List.dropWhile_cons_of_neg (by simp)]
    rfl

/-- A part with an `eq` is what is written of its parameter. -/
theorem pair_param {part : List α} (h : eq ∈ part) : pair eq (param eq part) = part := by
  obtain ⟨name, value, hpart, hname⟩ := List.eq_append_cons_of_mem h
  have hpair : part = pair eq (name, value) := hpart
  rw [hpair, param_pair hname]

theorem name_free (part : List α) : eq ∉ (param eq part).1 := by
  intro hmem
  have hall := List.all_takeWhile (p := fun a => decide (a ≠ eq)) (l := part)
  exact absurd rfl (of_decide_eq_true (List.all_eq_true.mp hall eq hmem))

/-- No part has an `amp` in it, and neither has what is written of its parameter. -/
theorem amp_notMem {q part : List α} (hne : amp ≠ eq) (h : part ∈ q.splitOn amp) :
    amp ∉ pair eq (param eq part) := by
  have hpart : amp ∉ part := notMem_of_mem_splitOn h
  rw [pair, List.mem_append, List.mem_cons, not_or, not_or]
  refine ⟨fun hname => hpart ?_, hne, fun hvalue => hpart ?_⟩
  · exact (List.takeWhile_sublist _).mem hname
  · exact (List.dropWhile_sublist _).mem (List.mem_of_mem_drop hvalue)

/-! ### The canonical form -/

/-- A parameter comes from a part of the string. -/
theorem exists_part {q : List α} (hq : q ≠ []) {p : List α × List α} (hp : p ∈ params amp eq q) :
    ∃ part ∈ q.splitOn amp, param eq part = p := by
  rw [params, if_neg hq] at hp
  exact List.mem_map.mp hp

/-- The parts of the canonical form are the sorted parameters, each as it is written. -/
theorem splitOn_canonical (hne : amp ≠ eq) {q : List α} (hq : q ≠ []) :
    (canonical amp eq q).splitOn amp
      = ((params amp eq q).insertionSort ParamLE).map (pair eq) := by
  have hperm := List.perm_insertionSort ParamLE (params amp eq q)
  apply List.splitOn_intercalate
  · intro line hline
    obtain ⟨p, hp, rfl⟩ := List.mem_map.mp hline
    obtain ⟨part, hpart, rfl⟩ := exists_part hq (hperm.mem_iff.mp hp)
    exact amp_notMem hne hpart
  · intro hnil
    have hlength := hperm.length_eq
    rw [List.map_eq_nil_iff.mp hnil, params, if_neg hq, List.length_map] at hlength
    exact List.splitOn_ne_nil amp q (List.eq_nil_of_length_eq_zero hlength.symm)

variable (amp eq) in
/-- **In form**: every parameter has its `eq`, and they are sorted. -/
def InForm (q : List α) : Prop :=
  q = [] ∨ (∀ part ∈ q.splitOn amp, eq ∈ part) ∧ (params amp eq q).Pairwise ParamLE

/-- **Which query strings are in canonical form.** -/
theorem canonical_eq_self_iff (hne : amp ≠ eq) (q : List α) :
    canonical amp eq q = q ↔ InForm amp eq q := by
  by_cases hq : q = []
  · rw [hq, canonical, params, if_pos rfl]
    exact iff_of_true rfl (.inl rfl)
  · rw [InForm, or_iff_right hq]
    have hparams : params amp eq q = (q.splitOn amp).map (param eq) := if_neg hq
    constructor
    · intro hcanonical
      -- the parts of the canonical form are the parts of the string itself
      have hlines := splitOn_canonical hne hq
      rw [hcanonical] at hlines
      constructor
      · intro part hpart
        rw [hlines] at hpart
        obtain ⟨p, -, rfl⟩ := List.mem_map.mp hpart
        exact List.mem_append_right p.1 List.mem_cons_self
      · have hsame : params amp eq q = (params amp eq q).insertionSort ParamLE := by
          conv_lhs => rw [hparams, hlines, List.map_map]
          refine (List.map_congr_left fun p hp => ?_).trans (List.map_id _)
          obtain ⟨part, -, rfl⟩ := exists_part hq
            ((List.perm_insertionSort ParamLE (params amp eq q)).mem_iff.mp hp)
          exact param_pair (name_free part)
        rw [hsame]
        exact List.pairwise_insertionSort ParamLE (params amp eq q)
    · rintro ⟨hparts, hsorted⟩
      have hpairs : (params amp eq q).map (pair eq) = q.splitOn amp := by
        rw [hparams, List.map_map]
        exact (List.map_congr_left fun part hpart => pair_param (hparts part hpart)).trans
          (List.map_id _)
      rw [canonical, hsorted.insertionSort_eq, hpairs, List.intercalate_splitOn]

end QueryString
