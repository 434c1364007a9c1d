import Mathlib.Data.List.Infix

/-!
# Delimited texts

A piece that does not contain the delimiter can be told from what follows its delimiter.

* `field_inj` — a piece up to the first delimiter;
* `lines_inj` — a block of non-empty pieces, each ended by the delimiter, up to an empty one;
* `map_pair_inj` — two pieces with a delimiter in between;
* `notMem_of_mem_splitOn` — the pieces of a text that is split;
* `intercalate_concat`, `intercalate_ne_nil`, `notMem_intercalate` — pieces joined by a delimiter, one after the
  other.
-/

namespace Delimited

variable {α : Type*} {d : α}

theorem takeWhile_field [DecidableEq α] {a : List α} (ha : d ∉ a) (rest : List α) :
    (a ++ d :: rest).takeWhile (· ≠ d) = a := by
  induction a with
  | nil => rw [List.nil_append, List.takeWhile_cons, if_neg (by simp)]
  | cons x a ih =>
    obtain ⟨hx, ha'⟩ := List.ne_and_not_mem_of_not_mem_cons ha
    rw [List.cons_append, List.takeWhile_cons, if_pos (decide_eq_true (Ne.symm hx)), ih ha']

theorem dropWhile_field [DecidableEq α] {a : List α} (ha : d ∉ a) (rest : List α) :
    (a ++ d :: rest).dropWhile (· ≠ d) = d :: rest := by
  have hsplit := (a ++ d :: rest).takeWhile_append_dropWhile (p := (· ≠ d))
  rw [takeWhile_field ha] at hsplit
  exact List.append_cancel_left hsplit

/-- **The first piece.**  A text determines what stands before its first delimiter, and what follows. -/
theorem field_inj {a b r s : List α} (ha : d ∉ a) (hb : d ∉ b)
    (h : a ++ d :: r = b ++ d :: s) : a = b ∧ r = s := by
  induction a generalizing b with
  | nil =>
    cases b with
    | nil => exact ⟨rfl, List.tail_eq_of_cons_eq h⟩
    | cons y b => exact absurd (List.head_eq_of_cons_eq h) (List.ne_and_not_mem_of_not_mem_cons hb).1
  | cons x a ih =>
    cases b with
    | nil => exact absurd (List.head_eq_of_cons_eq h).symm (List.ne_and_not_mem_of_not_mem_cons ha).1
    | cons y b =>
      obtain ⟨hxy, hrest⟩ := List.cons.inj h
      obtain ⟨hab, hrs⟩ :=
        ih (List.ne_and_not_mem_of_not_mem_cons ha).2 (List.ne_and_not_mem_of_not_mem_cons hb).2 hrest
      exact ⟨by rw [hxy, hab], hrs⟩

/-- Pieces, each with the delimiter after it. -/
def lines (d : α) (pieces : List (List α)) : List α := pieces.flatMap (· ++ [d])

theorem lines_cons (piece : List α) (pieces : List (List α)) (r : List α) :
    lines d (piece :: pieces) ++ r = piece ++ d :: (lines d pieces ++ r) := by
  simp only [lines, List.flatMap_cons, List.append_assoc, List.cons_append, List.nil_append]

/-- **A block of pieces.**  Where none is empty, an empty piece after the block tells where it ends. -/
theorem lines_inj {ps qs : List (List α)} {r s : List α} (hp : ∀ p ∈ ps, p ≠ [] ∧ d ∉ p)
    (hq : ∀ q ∈ qs, q ≠ [] ∧ d ∉ q) (h : lines d ps ++ d :: r = lines d qs ++ d :: s) :
    ps = qs ∧ r = s := by
  have hnil : d ∉ ([] : List α) := List.not_mem_nil
  induction ps generalizing qs with
  | nil =>
    cases qs with
    | nil => exact ⟨rfl, List.tail_eq_of_cons_eq h⟩
    | cons q qs =>
      obtain ⟨hne, hd⟩ := hq q List.mem_cons_self
      rw [lines_cons] at h
      exact absurd (field_inj hnil hd h).1.symm hne
  | cons p ps ih =>
    obtain ⟨hne, hd⟩ := hp p List.mem_cons_self
    rw [lines_cons] at h
    cases qs with
    | nil => exact absurd (field_inj hd hnil h).1 hne
    | cons q qs =>
      rw [lines_cons] at h
      obtain ⟨hpq, hrest⟩ := field_inj hd (hq q List.mem_cons_self).2 h
      obtain ⟨hpqs, hrs⟩ := ih (fun p' hp' => hp p' (List.mem_cons_of_mem p hp'))
        (fun q' hq' => hq q' (List.mem_cons_of_mem q hq')) hrest
      exact ⟨by rw [hpq, hpqs], hrs⟩

/-- A pair of pieces with a delimiter between them. -/
def pair (d : α) (p : List α × List α) : List α := p.1 ++ d :: p.2

theorem pair_ne_nil (p : List α × List α) : pair d p ≠ [] :=
  List.append_ne_nil_of_right_ne_nil p.1 (List.cons_ne_nil d p.2)

/-- Lists of pairs whose first pieces are free of the delimiter. -/
theorem map_pair_inj {ps qs : List (List α × List α)} (hp : ∀ p ∈ ps, d ∉ p.1)
    (hq : ∀ q ∈ qs, d ∉ q.1) (h : ps.map (pair d) = qs.map (pair d)) : ps = qs := by
  induction ps generalizing qs with
  | nil =>
    cases qs with
    | nil => rfl
    | cons q qs => exact absurd h (List.cons_ne_nil _ _).symm
  | cons p ps ih =>
    cases qs with
    | nil => exact absurd h (List.cons_ne_nil _ _)
    | cons q qs =>
      obtain ⟨hfirst, hrest⟩ := List.cons.inj h
      obtain ⟨hname, hvalue⟩ :=
        field_inj (hp p List.mem_cons_self) (hq q List.mem_cons_self) hfirst
      have htail : ps = qs := ih (fun p' hp' => hp p' (List.mem_cons_of_mem p hp'))
        (fun q' hq' => hq q' (List.mem_cons_of_mem q hq')) hrest
      rw [htail, Prod.ext hname hvalue]

/-- The pieces that a text is split into are free of the delimiter. -/
theorem notMem_of_mem_splitOn [BEq α] [LawfulBEq α] {xs piece : List α} (h : piece ∈ xs.splitOn d) :
    d ∉ piece := by
  induction xs generalizing piece with
  | nil =>
    rw [List.splitOn_nil, List.mem_singleton] at h
    rw [h]
    exact List.not_mem_nil
  | cons x xs ih =>
    rw [List.splitOn_cons_eq_if_modifyHead] at h
    split at h
    · obtain rfl | hrest := List.mem_cons.mp h
      · exact List.not_mem_nil
      · exact ih hrest
    · next hx =>
      obtain ⟨first, rest, hsplit⟩ := List.exists_cons_of_ne_nil (List.splitOn_ne_nil d xs)
      rw [hsplit, List.modifyHead_cons] at h
      rw [hsplit] at ih
      obtain rfl | hrest := List.mem_cons.mp h
      · rw [List.mem_cons, not_or]
        refine ⟨?_, ih List.mem_cons_self⟩
        rintro rfl
        exact hx (beq_self_eq_true _)
      · exact ih (List.mem_cons_of_mem first hrest)

/-- One more piece joined. -/
theorem intercalate_concat (sep : List α) {pieces : List (List α)} (h : pieces ≠ [])
    (piece : List α) :
    sep.intercalate (pieces ++ [piece]) = sep.intercalate pieces ++ sep ++ piece := by
  induction pieces with
  | nil => exact absurd rfl h
  | cons first pieces ih =>
    by_cases hnil : pieces = []
    · rw [hnil, List.cons_append, List.nil_append, List.intercalate_cons_cons,
        List.intercalate_singleton, List.intercalate_singleton]
    · rw [List.cons_append, List.intercalate_cons_of_ne_nil (List.append_ne_nil_of_left_ne_nil hnil _),
        ih hnil, List.intercalate_cons_of_ne_nil hnil]
      simp only [List.append_assoc]

/-- Pieces that are not empty. -/
theorem intercalate_ne_nil (sep : List α) {pieces : List (List α)} (h : pieces ≠ [])
    (hpieces : [] ∉ pieces) : sep.intercalate pieces ≠ [] := by
  cases pieces with
  | nil => exact absurd rfl h
  | cons first pieces =>
    have hfirst : first ≠ [] := (List.ne_and_not_mem_of_not_mem_cons hpieces).1.symm
    by_cases hnil : pieces = []
    · rw [hnil, List.intercalate_singleton]
      exact hfirst
    · rw [List.intercalate_cons_of_ne_nil hnil, List.append_assoc]
      exact List.append_ne_nil_of_left_ne_nil hfirst _

/-- Pieces joined have no characters but their own and the delimiter. -/
theorem notMem_intercalate {c : α} (hne : c ≠ d) {pieces : List (List α)} (h : ∀ piece ∈ pieces, c ∉ piece) :
    c ∉ [d].intercalate pieces := by
  induction pieces with
  | nil => exact List.not_mem_nil
  | cons first pieces ih =>
    have hfirst := h first List.mem_cons_self
    have hrest := ih fun piece hpiece => h piece (List.mem_cons_of_mem first hpiece)
    by_cases hnil : pieces = []
    · rw [hnil, List.intercalate_singleton]
      exact hfirst
    · rw [List.intercalate_cons_of_ne_nil hnil, List.append_assoc, List.mem_append, List.mem_append,
        List.mem_singleton, not_or, not_or]
      exact ⟨hfirst, hne, hrest⟩

end Delimited
