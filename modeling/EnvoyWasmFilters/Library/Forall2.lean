import Mathlib.Data.List.Forall2
import Mathlib.Data.List.Perm.Basic

/-!
# Element by element through two lists

`List.Forall₂ R as bs` says that two lists agree element by element.  Mathlib has its algebra; this
file adds what a loop that turns each element of one list into an element of another needs:

* `exists_forall₂_iff` — the loop succeeds exactly when it succeeds on every element;
* `forall₂_perm` — reordering the input reorders the output;
* `exists_concat_of_forall₂` — the last element of the input is the last one of the output;
* `exists_forall₂_transfer` — related inputs have related outputs;
* `map_eq_of_forall₂` — from equal images of related elements to equal images of the lists;
  `map_eq_of_rel` for optional elements, and `exists_of_rel_map_eq` for the way back.
-/

namespace ElementwiseLists

variable {α β : Type*} {R : α → β → Prop}

theorem exists_of_forall₂_left {as : List α} {bs : List β} (h : List.Forall₂ R as bs) {a : α}
    (ha : a ∈ as) : ∃ b ∈ bs, R a b := by
  induction h with
  | nil => exact absurd ha List.not_mem_nil
  | cons hab _ ih =>
    rcases List.mem_cons.mp ha with rfl | ha
    · exact ⟨_, List.mem_cons_self, hab⟩
    · obtain ⟨b, hb, hR⟩ := ih ha
      exact ⟨b, List.mem_cons_of_mem _ hb, hR⟩

theorem exists_of_forall₂_right {as : List α} {bs : List β} (h : List.Forall₂ R as bs) {b : β}
    (hb : b ∈ bs) : ∃ a ∈ as, R a b := exists_of_forall₂_left h.flip hb

/-- There is a partner list exactly when every element has a partner. -/
theorem exists_forall₂_iff {as : List α} :
    (∃ bs, List.Forall₂ R as bs) ↔ ∀ a ∈ as, ∃ b, R a b := by
  induction as with
  | nil => exact ⟨fun _ a ha => absurd ha List.not_mem_nil, fun _ => ⟨[], List.Forall₂.nil⟩⟩
  | cons a as ih =>
    rw [List.forall_mem_cons, ← ih]
    constructor
    · intro h
      obtain ⟨bs, h⟩ := h
      obtain ⟨b, bs', hab, htail, -⟩ := List.forall₂_cons_left_iff.mp h
      exact ⟨⟨b, hab⟩, bs', htail⟩
    · intro h
      obtain ⟨⟨b, hab⟩, bs, htail⟩ := h
      exact ⟨b :: bs, List.Forall₂.cons hab htail⟩

/-- A reordered list has a reordered partner list. -/
theorem forall₂_perm {as as' : List α} {bs : List β} (hperm : as.Perm as')
    (h : List.Forall₂ R as bs) : ∃ bs', List.Forall₂ R as' bs' ∧ bs.Perm bs' := by
  induction hperm generalizing bs with
  | nil => exact ⟨bs, h, List.Perm.refl bs⟩
  | cons a _ ih =>
    obtain ⟨b, bs, hab, htail, rfl⟩ := List.forall₂_cons_left_iff.mp h
    obtain ⟨bs', htail', hp⟩ := ih htail
    exact ⟨b :: bs', List.Forall₂.cons hab htail', hp.cons b⟩
  | swap a a' _ =>
    obtain ⟨b, bs, hab, htail, rfl⟩ := List.forall₂_cons_left_iff.mp h
    obtain ⟨b', rest, hab', hrest, rfl⟩ := List.forall₂_cons_left_iff.mp htail
    exact ⟨b' :: b :: rest, List.Forall₂.cons hab' (List.Forall₂.cons hab hrest),
      List.Perm.swap b' b rest⟩
  | trans _ _ ih ih' =>
    obtain ⟨bs', h', hp⟩ := ih h
    obtain ⟨bs'', h'', hp'⟩ := ih' h'
    exact ⟨bs'', h'', hp.trans hp'⟩

/-- The last element has the last partner. -/
theorem exists_concat_of_forall₂ {as : List α} {a : α} {bs : List β}
    (h : List.Forall₂ R (as ++ [a]) bs) :
    ∃ front b, bs = front ++ [b] ∧ List.Forall₂ R as front ∧ R a b := by
  induction as generalizing bs with
  | nil =>
    obtain ⟨b, rest, hab, hnil, rfl⟩ := List.forall₂_cons_left_iff.mp h
    rw [List.forall₂_nil_left_iff.mp hnil]
    exact ⟨[], b, rfl, List.Forall₂.nil, hab⟩
  | cons a' as ih =>
    obtain ⟨b', rest, hab', hrest, rfl⟩ := List.forall₂_cons_left_iff.mp h
    obtain ⟨front, b, rfl, hfront, hab⟩ := ih hrest
    exact ⟨b' :: front, b, rfl, List.Forall₂.cons hab' hfront, hab⟩

/-- If related elements have related partners, related lists have related partner lists. -/
theorem exists_forall₂_transfer {α' β' : Type*} {ρ : α → α' → Prop} {R' : α' → β' → Prop}
    {σ : β → β' → Prop} (hstep : ∀ a a' b, ρ a a' → R a b → ∃ b', R' a' b' ∧ σ b b')
    {as : List α} {as' : List α'} {bs : List β} (h : List.Forall₂ ρ as as')
    (hbs : List.Forall₂ R as bs) : ∃ bs', List.Forall₂ R' as' bs' ∧ List.Forall₂ σ bs bs' := by
  induction h generalizing bs with
  | nil =>
    rw [List.forall₂_nil_left_iff.mp hbs]
    exact ⟨[], List.Forall₂.nil, List.Forall₂.nil⟩
  | cons ha _ ih =>
    obtain ⟨b, rest, hb, hrest, rfl⟩ := List.forall₂_cons_left_iff.mp hbs
    obtain ⟨b', hb', hσ⟩ := hstep _ _ b ha hb
    obtain ⟨rest', hrest', hσs⟩ := ih hrest
    exact ⟨b' :: rest', List.Forall₂.cons hb' hrest', List.Forall₂.cons hσ hσs⟩

theorem map_eq_of_forall₂ {γ : Type*} {f : α → γ} {g : β → γ} {as : List α} {bs : List β}
    (h : List.Forall₂ R as bs) (heq : ∀ a ∈ as, ∀ b, R a b → g b = f a) :
    bs.map g = as.map f := by
  induction h with
  | nil => rfl
  | cons hab _ ih =>
    rw [List.map_cons, List.map_cons, heq _ List.mem_cons_self _ hab,
      ih fun a ha => heq a (List.mem_cons_of_mem _ ha)]

theorem map_eq_of_rel {γ : Type*} {f : α → γ} {g : β → γ} {a : Option α} {b : Option β}
    (h : Option.Rel R a b) (heq : ∀ x ∈ a, ∀ y, R x y → g y = f x) : b.map g = a.map f := by
  cases h with
  | none => rfl
  | some hxy => exact congrArg some (heq _ rfl _ hxy)

theorem exists_of_rel_map_eq {γ : Type*} {f : α → γ} {g : β → γ} {a : Option α} {b : Option β}
    (h : Option.Rel R a b) (heq : b.map g = a.map f) {x : α} (hx : x ∈ a) :
    ∃ y, R x y ∧ g y = f x := by
  cases h with
  | none => exact absurd hx (by simp)
  | some hxy =>
    obtain rfl := Option.some.inj hx
    exact ⟨_, hxy, Option.some.inj heq⟩

end ElementwiseLists
