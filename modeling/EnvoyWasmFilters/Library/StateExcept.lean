import Mathlib.Logic.Basic

/-!
# Pre- and postconditions for programs with state and exceptions

A program of type `StateT σ (Except ε) α` either returns a value in a new state or stops with an
error and no state.  `wp m Q E s` says that `m` run from `s` does one of the two and that `Q` holds
of the value and state it returns, respectively `E` of the error it stops with.

`bind_eq_ok`, `pure_eq_ok` and `map_eq_ok` peel a computation without state apart, `run_bind_eq_ok`, `run_bind_ok` and
their relatives a run that is known to return; `okIf c e a s` is a result that returns on a condition, and
`run_bind_okIf` joins two of them; `thrown x` is what `x` stops with, and `Avoids e x` says that it is not `e`.  The rules `wp_pure` …
`wp_modify` compute `wp` along the syntax of a program; `wp_mono` is the rule of consequence; `wp_run` is the strongest
pair; `wp_ok` and `wp_error` read a proved `wp` back off a run.
-/

namespace StateExcept

variable {σ ε α β : Type}

/-- A sequence returns when its first part returns and then its second part does. -/
theorem bind_eq_ok {x : Except ε α} {f : α → Except ε β} {b : β} :
    x >>= f = .ok b ↔ ∃ a, x = .ok a ∧ f a = .ok b := by
  cases x with
  | error e => simp [bind, Except.bind]
  | ok a => simp [bind, Except.bind]

theorem pure_eq_ok {a b : α} : (pure a : Except ε α) = .ok b ↔ a = b := by
  show Except.ok a = .ok b ↔ a = b
  exact Except.ok.injEq a b ▸ Iff.rfl

theorem map_eq_ok {x : Except ε α} {f : α → β} {b : β} : x.map f = .ok b ↔ ∃ a, x = .ok a ∧ f a = b := by
  cases x with
  | error e => simp [Except.map]
  | ok a => simp [Except.map]

theorem throw_ne_ok {e : ε} {a : α} : (throw e : Except ε α) ≠ .ok a := by
  simp [throw, throwThe, MonadExceptOf.throw]

/-- What a computation stops with, if it does not return. -/
def thrown : Except ε α → Option ε
  | .ok _ => none
  | .error e => some e

theorem thrown_eq_some {x : Except ε α} {e : ε} : thrown x = some e ↔ x = .error e := by
  cases x with
  | error d => simp [thrown]
  | ok a => simp [thrown]

/-- A sequence stops with what its first part stops with, or else with what its second part does. -/
theorem thrown_bind {x : Except ε α} {f : α → Except ε β} {o : Option ε} (h : ∀ a, x = .ok a → thrown (f a) = o) :
    thrown (x >>= f) = (thrown x).or o := by
  cases x with
  | error e => rfl
  | ok a => exact h a rfl

theorem thrown_bind_pure (x : Except ε α) (g : α → β) : thrown (x >>= fun a => pure (g a)) = thrown x := by
  cases x with
  | error e => rfl
  | ok a => rfl

/-- `x` does not stop with `e`. -/
def Avoids (e : ε) (x : Except ε α) : Prop := x ≠ .error e

@[simp] theorem avoids_pure (e : ε) (a : α) : Avoids e (pure a) := fun h => by cases h

@[simp] theorem avoids_ok (e : ε) (a : α) : Avoids e (.ok a) := avoids_pure e a

@[simp] theorem avoids_throw {d e : ε} : Avoids e (throw d : Except ε α) ↔ d ≠ e := by
  show (Except.error d : Except ε α) ≠ .error e ↔ d ≠ e
  rw [ne_eq, Except.error.injEq]

/-- A sequence avoids what its parts avoid. -/
@[simp] theorem avoids_bind {e : ε} {x : Except ε α} {f : α → Except ε β} :
    Avoids e (x >>= f) ↔ Avoids e x ∧ ∀ a, x = .ok a → Avoids e (f a) := by
  cases x with
  | error d => simp [Avoids, bind, Except.bind]
  | ok a => simp [Avoids, bind, Except.bind]

theorem avoids_ite {e : ε} {c : Prop} [Decidable c] {x y : Except ε α} (hx : Avoids e x) (hy : Avoids e y) :
    Avoids e (if c then x else y) := by
  split
  · exact hx
  · exact hy

theorem avoids_then {e : ε} {x : Except ε α} {f : α → Except ε β} (hx : Avoids e x) (hf : ∀ a, Avoids e (f a)) :
    Avoids e (x >>= f) := avoids_bind.mpr ⟨hx, fun a _ => hf a⟩

/-- After a part that returns comes the next one. -/
theorem run_bind_ok {m : StateT σ (Except ε) α} {f : α → StateT σ (Except ε) β} {s t : σ} {a : α}
    (h : m.run s = .ok (a, t)) : (m >>= f).run s = (f a).run t := by
  rw [StateT.run_bind, h]
  rfl

/-- A sequence has returned: so have its parts. -/
theorem run_bind_eq_ok {m : StateT σ (Except ε) α} {f : α → StateT σ (Except ε) β} {s : σ} {r : β × σ} :
    (m >>= f).run s = .ok r ↔ ∃ a t, m.run s = .ok (a, t) ∧ (f a).run t = .ok r := by
  rw [StateT.run_bind, bind_eq_ok]
  constructor
  · rintro ⟨⟨a, t⟩, hm, hf⟩
    exact ⟨a, t, hm, hf⟩
  · rintro ⟨a, t, hm, hf⟩
    exact ⟨(a, t), hm, hf⟩

theorem run_get_bind (f : σ → StateT σ (Except ε) β) (s : σ) : (get >>= f).run s = (f s).run s := rfl

/-- `a` is returned in the state `s` if `c` holds, or else `e` stops the run. -/
def okIf (c : Bool) (e : ε) (a : α) (s : σ) : Except ε (α × σ) := bif c then .ok (a, s) else .error e

theorem okIf_of {c : Bool} (hc : c = true) (e : ε) (a : α) (s : σ) : okIf c e a s = .ok (a, s) := by
  rw [hc]
  rfl

theorem okIf_eq_ok {c : Bool} {e : ε} {a : α} {s : σ} {r : α × σ} :
    okIf c e a s = .ok r ↔ c = true ∧ (a, s) = r := by
  cases c with
  | true => simp [okIf]
  | false => simp [okIf]

/-- The conditions of two parts hold together. -/
theorem run_bind_okIf {m : StateT σ (Except ε) α} {f : α → StateT σ (Except ε) β} {s t u : σ} {c d : Bool} {e : ε}
    {a : α} {b : β} (hm : m.run s = okIf c e a t) (hf : (f a).run t = okIf d e b u) :
    (m >>= f).run s = okIf (c && d) e b u := by
  rw [StateT.run_bind, hm]
  cases c with
  | true => exact hf
  | false => rfl

/-- `m`, run from `s`, returns with `Q` or stops with `E`. -/
def wp (m : StateT σ (Except ε) α) (Q : α → σ → Prop) (E : ε → Prop) (s : σ) : Prop :=
  match m.run s with
  | .ok (a, s') => Q a s'
  | .error e => E e

variable {Q Q' : α → σ → Prop} {E E' : ε → Prop} {s s' : σ}

@[simp] theorem wp_pure (a : α) : wp (pure a : StateT σ (Except ε) α) Q E s ↔ Q a s := Iff.rfl

@[simp] theorem wp_bind (m : StateT σ (Except ε) α) (f : α → StateT σ (Except ε) β)
    {R : β → σ → Prop} :
    wp (m >>= f) R E s ↔ wp m (fun a t => wp (f a) R E t) E s := by
  simp only [wp]
  rw [StateT.run_bind]
  cases m.run s <;> rfl

@[simp] theorem wp_get {R : σ → σ → Prop} :
    wp (get : StateT σ (Except ε) σ) R E s ↔ R s s := Iff.rfl

@[simp] theorem wp_modify (f : σ → σ) {R : PUnit → σ → Prop} :
    wp (modify f : StateT σ (Except ε) PUnit) R E s ↔ R ⟨⟩ (f s) := Iff.rfl

/-- Consequence. -/
theorem wp_mono {m : StateT σ (Except ε) α} (h : wp m Q E s) (hQ : ∀ a t, Q a t → Q' a t)
    (hE : ∀ e, E e → E' e) : wp m Q' E' s := by
  simp only [wp] at h ⊢
  cases hm : m.run s with
  | ok r =>
    rw [hm] at h
    exact hQ _ _ h
  | error e =>
    rw [hm] at h
    exact hE _ h

/-- A run satisfies that it is the run it is. -/
theorem wp_run (m : StateT σ (Except ε) α) (s : σ) :
    wp m (fun a t => m.run s = .ok (a, t)) (fun e => m.run s = .error e) s := by
  simp only [wp]
  cases m.run s <;> rfl

/-- What a returning run satisfies. -/
theorem wp_ok {m : StateT σ (Except ε) α} (h : wp m Q E s) {a : α} (hm : m.run s = .ok (a, s')) :
    Q a s' := by
  simp only [wp] at h
  rw [hm] at h
  exact h

/-- What a stopping run satisfies. -/
theorem wp_error {m : StateT σ (Except ε) α} (h : wp m Q E s) {e : ε} (hm : m.run s = .error e) :
    E e := by
  simp only [wp] at h
  rw [hm] at h
  exact h

end StateExcept
