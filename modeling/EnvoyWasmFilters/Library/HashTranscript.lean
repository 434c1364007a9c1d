import Mathlib.Data.List.Basic

/-!
# Transcripts of an incremental hash

An incremental hash is used by feeding it data piece by piece and by asking for the digest.  The
transcript is the list of these calls.

* `fed` — the data fed over a transcript;
* `eq_map_update` — a transcript of data only;
* `Seals data t` — whenever the digest was asked for, exactly `data` had been fed;
* `seals_append_update`, `seals_append_final` — what one more call asks for.
-/

namespace HashTranscript

variable {α : Type*}

/-- A call on a hash context: more data, or the digest. -/
inductive Call (α : Type*) where
  | update (data : List α)
  | final
deriving DecidableEq

/-- The data a call feeds. -/
def Call.data : Call α → List α
  | .update data => data
  | .final => []

/-- The data fed over a transcript. -/
def fed (t : List (Call α)) : List α := t.flatMap Call.data

@[simp] theorem fed_nil : fed ([] : List (Call α)) = [] := rfl

@[simp] theorem fed_append (t u : List (Call α)) : fed (t ++ u) = fed t ++ fed u :=
  List.flatMap_append

@[simp] theorem fed_update (data : List α) : fed [Call.update data] = data := List.append_nil data

/-- A transcript without a digest asked for is its data, piece by piece. -/
theorem eq_map_update {t : List (Call α)} (h : .final ∉ t) : t = (t.map Call.data).map .update := by
  induction t with
  | nil => rfl
  | cons c t ih =>
    cases c with
    | final => exact absurd List.mem_cons_self h
    | update data =>
      rw [List.map_cons, List.map_cons, ← ih fun ht => h (List.mem_cons_of_mem _ ht)]
      rfl

/-- Data in pieces is fed as their concatenation. -/
theorem fed_map_update (data : List (List α)) : fed (data.map Call.update) = data.flatten := by
  induction data with
  | nil => rfl
  | cons first data ih =>
    rw [List.map_cons, ← List.singleton_append, fed_append, ih, fed_update]
    rfl

theorem fed_eq_flatten (t : List (Call α)) : fed t = (t.map Call.data).flatten :=
  List.flatMap_def

/-- Digests asked for feed nothing. -/
@[simp] theorem fed_replicate_final (n : ℕ) : fed (List.replicate n (Call.final : Call α)) = [] := by
  rw [fed, List.flatMap_replicate]
  exact List.flatten_replicate_nil

/-- Whenever the digest was asked for, exactly `data` had been fed. -/
def Seals (data : List α) (t : List (Call α)) : Prop :=
  ∀ before after, t = before ++ .final :: after → fed before = data

theorem seals_nil (data : List α) : Seals data [] := by
  intro before after h
  have hlength := congrArg List.length h
  rw [List.length_append] at hlength
  exact absurd hlength (by simp)

/-- A call at the end of a transcript is its last call, or one of the calls before it. -/
theorem append_singleton_eq {t before after : List (Call α)} {c d : Call α}
    (h : t ++ [c] = before ++ d :: after) :
    (before = t ∧ d = c) ∨ ∃ after', after = after' ++ [c] ∧ t = before ++ d :: after' := by
  rcases List.eq_nil_or_concat after with hnil | ⟨after', last, hlast⟩
  · subst hnil
    obtain ⟨hbefore, hlast⟩ := List.append_inj' h rfl
    exact .inl ⟨hbefore.symm, (List.cons.inj hlast).1.symm⟩
  · rw [List.concat_eq_append] at hlast
    subst hlast
    rw [← List.cons_append, ← List.append_assoc] at h
    obtain ⟨hinit, hlast⟩ := List.append_inj' h rfl
    rw [(List.cons.inj hlast).1]
    exact .inr ⟨after', rfl, hinit⟩

/-- **More data** spoils no digest there has been. -/
theorem seals_append_update {data more : List α} {t : List (Call α)} :
    Seals data (t ++ [.update more]) ↔ Seals data t := by
  constructor
  · intro h before after ht
    apply h before (after ++ [.update more])
    rw [ht, List.append_assoc]
    rfl
  · intro h before after ht
    rcases append_singleton_eq ht with ⟨-, hcall⟩ | ⟨after', -, ht'⟩
    · cases hcall
    · exact h before after' ht'

/-- **One more digest** is one more demand on the data fed. -/
theorem seals_append_final {data : List α} {t : List (Call α)} :
    Seals data (t ++ [.final]) ↔ Seals data t ∧ fed t = data := by
  constructor
  · intro h
    refine ⟨fun before after ht => ?_, h t [] rfl⟩
    apply h before (after ++ [.final])
    rw [ht, List.append_assoc]
    rfl
  · rintro ⟨h, hfed⟩ before after ht
    rcases append_singleton_eq ht with ⟨hbefore, -⟩ | ⟨after', -, ht'⟩
    · rw [hbefore, hfed]
    · exact h before after' ht'

end HashTranscript
