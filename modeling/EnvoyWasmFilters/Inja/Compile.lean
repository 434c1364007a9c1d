import EnvoyWasmFilters.Inja.Parser
import EnvoyWasmFilters.Inja.Syntax
import Mathlib.Data.List.Basic

/-!
# The bytecode of a syntax tree

`Expr.emit` is what the parser appends for an expression to the bytecode it has so far, merging included;
`Expr.code` is what it appends to no bytecode at all.  The two differ where a call merges with a bytecode that
is not its own.

* `Expr.compilable` — no call without arguments follows a literal of the same expression, and `default` has a
  literal or a variable for its first argument and one bytecode for its second;
* `emit_eq` — **the bytecode of a compilable expression does not depend on what is before it**;
* `Expr.swappable` — `default` exchanges two bytecodes that are there; `swappable_of_ne_nil`: it does so everywhere but
  at the beginning of a template, and `swappable_of_compilable`: in a compilable expression also there;
* `Tree.code` — the bytecode of the parts of a template, laid out from a position on, with its jumps.
-/

namespace EnvoyWasmFilters.Inja

open NlohmannJson

variable {J : Type}

section Append

variable [NlohmannJson J]

/-- The bytecode vector `append_function` leaves. -/
def withFunction (op : Op) (numArgs : ℕ) (bcs : List (Bytecode J)) : List (Bytecode J) :=
  match bcs.getLast? with
  | some last =>
      if last.op = .push then bcs.dropLast ++ [{ last with op := op, args := numArgs }]
      else bcs ++ [{ op := op, args := numArgs, value := null }]
  | none => bcs ++ [{ op := op, args := numArgs, value := null }]

/-- The bytecode vector `append_callback` leaves. -/
def withCallback (name : Str) (numArgs : ℕ) (bcs : List (Bytecode J)) : List (Bytecode J) :=
  match bcs.getLast? with
  | some last =>
      if last.op = .push ∧ last.flags = .immediate then
        bcs.dropLast ++ [{ last with op := .callback, args := numArgs, str := name }]
      else bcs ++ [{ op := .callback, args := numArgs, value := null, str := name }]
  | none => bcs ++ [{ op := .callback, args := numArgs, value := null, str := name }]

theorem appendFunction_eq (op : Op) (numArgs : ℕ) :
    (appendFunction op numArgs : ParseM J Unit) = modifyBytecodes (withFunction op numArgs) := rfl

variable {op : Op} {name : Str} {n : ℕ} {pre c bcs : List (Bytecode J)} {bc : Bytecode J}

theorem withFunction_push (hpush : bc.op = .push) :
    withFunction op n (bcs ++ [bc]) = bcs ++ [{ bc with op := op, args := n }] := by
  simp only [withFunction, List.getLast?_concat, if_pos hpush, List.dropLast_concat]

theorem withFunction_of_ne (hpush : bc.op ≠ .push) :
    withFunction op n (bcs ++ [bc]) = bcs ++ [bc] ++ [{ op := op, args := n, value := null }] := by
  simp only [withFunction, List.getLast?_concat, if_neg hpush]

theorem withCallback_literal (hpush : bc.op = .push ∧ bc.flags = .immediate) :
    withCallback name n (bcs ++ [bc]) = bcs ++ [{ bc with op := .callback, args := n, str := name }] := by
  simp only [withCallback, List.getLast?_concat, if_pos hpush, List.dropLast_concat]

theorem withCallback_of_not (hpush : ¬ (bc.op = .push ∧ bc.flags = .immediate)) :
    withCallback name n (bcs ++ [bc])
      = bcs ++ [bc] ++ [{ op := .callback, args := n, value := null, str := name }] := by
  simp only [withCallback, List.getLast?_concat, if_neg hpush]

/-- What is before the last bytecode stays. -/
theorem withFunction_append (hc : c ≠ []) : withFunction op n (pre ++ c) = pre ++ withFunction op n c := by
  obtain ⟨d, bc, rfl⟩ := (List.eq_nil_or_concat' c).resolve_left hc
  by_cases hpush : bc.op = .push
  · rw [withFunction_push hpush, ← List.append_assoc, withFunction_push hpush, List.append_assoc]
  · rw [withFunction_of_ne hpush, ← List.append_assoc, withFunction_of_ne hpush]
    simp only [List.append_assoc]

theorem withCallback_append (hc : c ≠ []) : withCallback name n (pre ++ c) = pre ++ withCallback name n c := by
  obtain ⟨d, bc, rfl⟩ := (List.eq_nil_or_concat' c).resolve_left hc
  by_cases hpush : bc.op = .push ∧ bc.flags = .immediate
  · rw [withCallback_literal hpush, ← List.append_assoc, withCallback_literal hpush, List.append_assoc]
  · rw [withCallback_of_not hpush, ← List.append_assoc, withCallback_of_not hpush]
    simp only [List.append_assoc]

/-- The last bytecode is the call. -/
theorem getLast?_withFunction (op : Op) (n : ℕ) (bcs : List (Bytecode J)) :
    ∃ bc, (withFunction op n bcs).getLast? = some bc ∧ bc.op = op := by
  simp only [withFunction]
  split
  · split
    · exact ⟨_, List.getLast?_concat, rfl⟩
    · exact ⟨_, List.getLast?_concat, rfl⟩
  · exact ⟨_, List.getLast?_concat, rfl⟩

theorem withFunction_ne_nil (op : Op) (n : ℕ) (bcs : List (Bytecode J)) : withFunction op n bcs ≠ [] := by
  obtain ⟨bc, hbc, -⟩ := getLast?_withFunction op n bcs
  exact fun hnil => by cases hnil ▸ hbc

theorem getLast?_withCallback (name : Str) (n : ℕ) (bcs : List (Bytecode J)) :
    ∃ bc, (withCallback name n bcs).getLast? = some bc ∧ bc.op = .callback := by
  simp only [withCallback]
  split
  · split
    · exact ⟨_, List.getLast?_concat, rfl⟩
    · exact ⟨_, List.getLast?_concat, rfl⟩
  · exact ⟨_, List.getLast?_concat, rfl⟩

omit [NlohmannJson J] in
theorem swapLastTwo_append (bcs : List (Bytecode J)) (previous last : Bytecode J) :
    swapLastTwo (bcs ++ [previous, last]) = bcs ++ [last, previous] := by
  simp [swapLastTwo]

/-! ### Expressions -/

/-- What a call appends. -/
def Func.append : Func → ℕ → List (Bytecode J) → List (Bytecode J)
  | .builtin op _, n, bcs => withFunction op n bcs
  | .callback name, n, bcs => withCallback name n bcs

mutual

/-- The bytecode vector after an expression. -/
def Expr.emit : Expr J → List (Bytecode J) → List (Bytecode J)
  | .literal value, bcs => bcs ++ [{ op := .push, value := value, flags := .immediate }]
  | .var name, bcs => bcs ++ [{ op := .push, value := null, str := name, flags := .lookupDot }]
  | .apply func args, bcs => func.append args.length (emitAll args bcs)
  | .default first second, bcs =>
      withFunction .default 2 (swapLastTwo (second.emit (first.emit bcs)))

/-- The bytecode vector after the arguments of a call. -/
def emitAll : List (Expr J) → List (Bytecode J) → List (Bytecode J)
  | [], bcs => bcs
  | arg :: args, bcs => emitAll args (arg.emit bcs)

end

/-- The bytecode of an expression. -/
def Expr.code (e : Expr J) : List (Bytecode J) := e.emit []

def codeAll (args : List (Expr J)) : List (Bytecode J) := emitAll args []

end Append

def Expr.isLiteral : Expr J → Bool
  | .literal _ => true
  | _ => false

def Expr.isLeaf : Expr J → Bool
  | .literal _ | .var _ => true
  | _ => false

/-- The first bytecode of the expression is a call without arguments. -/
def Expr.startsWithCall : Expr J → Bool
  | .literal _ | .var _ => false
  | .apply _ [] => true
  | .apply _ (arg :: _) => arg.startsWithCall
  | .default first _ => first.startsWithCall

/-- The same for the arguments of a call. -/
def startsWithCallAll : List (Expr J) → Bool
  | [] => false
  | arg :: _ => arg.startsWithCall

/-- A built-in operation has arguments. -/
def Func.admits : Func → ℕ → Bool
  | .builtin _ _, n => n != 0
  | .callback _, _ => true

variable [NlohmannJson J]

mutual

/-- The bytecode of the expression is its own: nothing in it merges with what it does not belong to, and the
arguments of `default` can be exchanged. -/
def Expr.compilable : Expr J → Bool
  | .literal _ | .var _ => true
  | .apply func args => func.admits args.length && decide (args.length < 2 ^ 32) && compilableAll args
  | .default first second =>
      first.isLeaf && second.compilable && second.code.length == 1
        && !(first.isLiteral && second.startsWithCall)

def compilableAll : List (Expr J) → Bool
  | [] => true
  | arg :: args => arg.compilable && !(arg.isLiteral && startsWithCallAll args) && compilableAll args

end

theorem compilable_of_mem {args : List (Expr J)} (h : compilableAll args = true) {arg : Expr J}
    (harg : arg ∈ args) : arg.compilable = true := by
  induction args with
  | nil => exact absurd harg List.not_mem_nil
  | cons first args ih =>
    simp only [compilableAll, Bool.and_eq_true] at h
    rcases List.mem_cons.mp harg with rfl | harg
    · exact h.1.1
    · exact ih h.2 harg

/-- A call without arguments may follow: the last bytecode pushes no literal. -/
def Settled (bcs : List (Bytecode J)) : Prop :=
  ∀ bc, bcs.getLast? = some bc → ¬ (bc.op = .push ∧ bc.flags = .immediate)

omit [NlohmannJson J] in
theorem settled_nil : Settled ([] : List (Bytecode J)) := by
  intro bc h
  cases h

omit [NlohmannJson J] in
theorem settled_of_last {bcs : List (Bytecode J)} {last : Bytecode J} (h : bcs.getLast? = some last)
    (hpush : last.op ≠ .push) : Settled bcs := by
  intro bc hbc hliteral
  obtain rfl := Option.some.inj (h.symm.trans hbc)
  exact hpush hliteral.1

theorem Func.getLast?_append (func : Func) (n : ℕ) (bcs : List (Bytecode J)) :
    ∃ bc, (func.append n bcs).getLast? = some bc ∧ bc.op ≠ .push := by
  cases func with
  | builtin op hcomputes =>
    obtain ⟨bc, hlast, hop⟩ := getLast?_withFunction op n bcs
    refine ⟨bc, hlast, fun hpush => ?_⟩
    rw [← hop, hpush] at hcomputes
    exact absurd hcomputes (by decide)
  | callback name =>
    obtain ⟨bc, hlast, hop⟩ := getLast?_withCallback name n bcs
    exact ⟨bc, hlast, by rw [hop]; decide⟩

/-- A compound expression ends with a call. -/
theorem getLast?_emit {e : Expr J} (h : e.isLeaf = false) (bcs : List (Bytecode J)) :
    ∃ bc, (e.emit bcs).getLast? = some bc ∧ bc.op ≠ .push := by
  cases e with
  | literal value => exact absurd h (by simp [Expr.isLeaf])
  | var name => exact absurd h (by simp [Expr.isLeaf])
  | apply func args => exact func.getLast?_append args.length (emitAll args bcs)
  | default first second =>
    obtain ⟨bc, hlast, hop⟩ := getLast?_withFunction .default 2 (swapLastTwo (second.emit (first.emit bcs)))
    exact ⟨bc, hlast, by rw [hop]; decide⟩

/-- After an expression that is no literal. -/
theorem settled_emit {e : Expr J} (h : e.isLiteral = false) (bcs : List (Bytecode J)) :
    Settled (e.emit bcs) := by
  cases hleaf : e.isLeaf with
  | false =>
    obtain ⟨bc, hlast, hop⟩ := getLast?_emit hleaf bcs
    exact settled_of_last hlast hop
  | true =>
    cases e with
    | var name =>
      intro bc hbc hliteral
      rw [Expr.emit, List.getLast?_concat] at hbc
      obtain rfl := Option.some.inj hbc
      exact absurd hliteral.2 (by simp)
    | literal value => exact absurd h (by simp [Expr.isLiteral])
    | apply func args => exact absurd hleaf (by simp [Expr.isLeaf])
    | default first second => exact absurd hleaf (by simp [Expr.isLeaf])

theorem withCallback_settled {name : Str} {n : ℕ} {bcs : List (Bytecode J)} (h : Settled bcs) :
    withCallback name n bcs = bcs ++ [{ op := .callback, args := n, value := null, str := name }] := by
  rcases List.eq_nil_or_concat' bcs with rfl | ⟨before, last, rfl⟩
  · rfl
  · rw [withCallback_of_not (h last List.getLast?_concat)]

theorem Func.append_append (func : Func) (n : ℕ) {pre c : List (Bytecode J)} (hc : c ≠ []) :
    func.append n (pre ++ c) = pre ++ func.append n c := by
  cases func with
  | builtin op hcomputes => exact withFunction_append hc
  | callback name => exact withCallback_append hc

omit [NlohmannJson J] in
theorem isLeaf_cases {e : Expr J} (h : e.isLeaf = true) :
    (∃ value, e = .literal value) ∨ ∃ name, e = .var name := by
  cases e with
  | literal value => exact Or.inl ⟨value, rfl⟩
  | var name => exact Or.inr ⟨name, rfl⟩
  | apply func args => exact absurd h (by simp [Expr.isLeaf])
  | default first second => exact absurd h (by simp [Expr.isLeaf])

/-- A literal or a variable is one bytecode that pushes it. -/
theorem emit_leaf {e : Expr J} (h : e.isLeaf = true) :
    ∃ bc, bc.op = .push ∧ e.code = [bc] ∧ ∀ pre, e.emit pre = pre ++ [bc] := by
  obtain ⟨value, rfl⟩ | ⟨name, rfl⟩ := isLeaf_cases h
  · exact ⟨_, rfl, rfl, fun _ => rfl⟩
  · exact ⟨_, rfl, rfl, fun _ => rfl⟩

/-- There is no expression without bytecode. -/
theorem emit_ne_nil (e : Expr J) (bcs : List (Bytecode J)) : e.emit bcs ≠ [] := by
  cases hleaf : e.isLeaf with
  | false =>
    obtain ⟨bc, hlast, -⟩ := getLast?_emit hleaf bcs
    exact fun hnil => absurd hlast (by rw [hnil]; simp)
  | true =>
    obtain ⟨bc, -, -, hemit⟩ := emit_leaf hleaf
    rw [hemit]
    exact List.concat_ne_nil _ _

theorem code_ne_nil (e : Expr J) : e.code ≠ [] := emit_ne_nil e []

/-! ### Where the bytecode of an expression is its own -/

/-- The bytecode of `e` does not depend on what is before it. -/
def Expr.Placed (e : Expr J) : Prop :=
  ∀ pre, (e.startsWithCall = true → Settled pre) → e.emit pre = pre ++ e.code

/-- The arguments of a call stand one behind the other. -/
theorem emitAll_eq {args : List (Expr J)} (hargs : ∀ arg ∈ args, arg.compilable = true → arg.Placed)
    (h : compilableAll args = true) (pre : List (Bytecode J))
    (hpre : startsWithCallAll args = true → Settled pre) :
    emitAll args pre = pre ++ args.flatMap Expr.code := by
  induction args generalizing pre with
  | nil => simp [emitAll]
  | cons arg args ih =>
    simp only [compilableAll, Bool.and_eq_true, Bool.not_eq_true', Bool.and_eq_false_iff] at h
    obtain ⟨⟨harg, hcall⟩, hrest⟩ := h
    have hhead := hargs arg List.mem_cons_self harg pre hpre
    have hnext : startsWithCallAll args = true → Settled (arg.emit pre) := fun hstart =>
      settled_emit (hcall.resolve_right (by simp [hstart])) pre
    rw [emitAll, ih (fun a ha => hargs a (List.mem_cons_of_mem arg ha)) hrest _ hnext, hhead,
      List.flatMap_cons, List.append_assoc]

/-- The fallback of `default` stands before the value it replaces. -/
theorem emit_default {first second : Expr J} {bc : Bytecode J} (hsecond : second.Placed)
    (hlen : second.code.length = 1) (hpush : bc.op = .push)
    (hfirst : ∀ pre, first.emit pre = pre ++ [bc])
    (hcall : (first.isLiteral && second.startsWithCall) = false) (pre : List (Bytecode J)) :
    (Expr.default first second).emit pre = pre ++ (second.code ++ [{ bc with op := .default, args := 2 }]) := by
  obtain ⟨fallback, hcode⟩ := List.length_eq_one_iff.mp hlen
  have hsettled : second.startsWithCall = true → Settled (pre ++ [bc]) := by
    intro hstart
    rw [← hfirst pre]
    exact settled_emit (by simpa [hstart] using hcall) pre
  have hswap : swapLastTwo (pre ++ [bc] ++ [fallback]) = pre ++ [fallback] ++ [bc] := by
    rw [List.append_assoc, List.append_assoc]
    exact swapLastTwo_append pre bc fallback
  rw [Expr.emit, hfirst, hsecond _ hsettled, hcode, hswap, withFunction_push hpush, List.append_assoc]

/-- **The bytecode of a compilable expression is its own**, by induction on the expression. -/
theorem emit_eq (e : Expr J) (h : e.compilable = true) : e.Placed := by
  induction e with
  | literal value => exact fun _ _ => rfl
  | var name => exact fun _ _ => rfl
  | apply func args ih =>
    simp only [Expr.compilable, Bool.and_eq_true] at h
    obtain ⟨⟨hadmits, -⟩, hargs⟩ := h
    intro pre hpre
    cases args with
    | nil =>
      cases func with
      | builtin op hcomputes => exact absurd hadmits (by simp [Func.admits])
      | callback name => exact withCallback_settled (hpre rfl)
    | cons arg args =>
      have hne : (arg :: args).flatMap Expr.code ≠ [] := by
        rw [List.flatMap_cons]
        exact List.append_ne_nil_of_left_ne_nil (code_ne_nil arg) _
      rw [Expr.code, Expr.emit, Expr.emit, emitAll_eq ih hargs pre hpre,
        emitAll_eq ih hargs [] fun _ => settled_nil, Func.append_append func _ hne]
      rfl
  | default first second _ ih =>
    simp only [Expr.compilable, Bool.and_eq_true, Bool.not_eq_true', beq_iff_eq] at h
    obtain ⟨⟨⟨hleaf, hsecond⟩, hlen⟩, hcall⟩ := h
    obtain ⟨bc, hpush, -, hfirst⟩ := emit_leaf hleaf
    intro pre _
    rw [Expr.code, emit_default (ih hsecond) hlen hpush hfirst hcall pre,
      emit_default (ih hsecond) hlen hpush hfirst hcall []]
    rfl

theorem codeAll_eq {args : List (Expr J)} (h : compilableAll args = true) :
    codeAll args = args.flatMap Expr.code :=
  emitAll_eq (fun arg _ harg => emit_eq arg harg) h [] fun _ => settled_nil

/-- The bytecode of a call. -/
theorem code_apply (func : Func) {args : List (Expr J)} (h : compilableAll args = true) :
    (Expr.apply func args).code = func.append args.length (args.flatMap Expr.code) := by
  rw [← codeAll_eq h]
  rfl

/-- The bytecode of a call that merges with nothing. -/
def Func.call (func : Func) (n : ℕ) : Bytecode J :=
  match func with
  | .builtin op _ => { op := op, args := n, value := null }
  | .callback name => { op := .callback, args := n, value := null, str := name }

omit [NlohmannJson J] in
/-- The bytecode of a call whose last argument is `bc`. -/
def Func.merged (func : Func) (n : ℕ) (bc : Bytecode J) : Bytecode J :=
  match func with
  | .builtin op _ => { bc with op := op, args := n }
  | .callback name => { bc with op := .callback, args := n, str := name }

/-- A call merges with an argument it can take along: with a literal, or a built-in operation with a
variable. -/
def Func.merges (func : Func) (arg : Expr J) : Bool :=
  match func with
  | .builtin _ _ => arg.isLeaf
  | .callback _ => arg.isLiteral

theorem withFunction_compound (op : Op) (n : ℕ) {e : Expr J} (h : e.isLeaf = false) :
    withFunction op n e.code = e.code ++ [{ op := op, args := n, value := null }] := by
  obtain ⟨bc, hlast, hop⟩ := getLast?_emit h []
  obtain ⟨before, hcode⟩ := List.getLast?_eq_some_iff.mp hlast
  rw [Expr.code, hcode, withFunction_of_ne hop]

omit [NlohmannJson J] in
theorem isLeaf_of_isLiteral {e : Expr J} (h : e.isLiteral = true) : e.isLeaf = true := by
  cases e with
  | literal value => rfl
  | var name => rfl
  | apply func args => exact h
  | default first second => exact h

/-- A call of one argument, or the end of a longer one. -/
theorem Func.append_code (func : Func) (n : ℕ) (arg : Expr J) :
    (func.merges arg = false ∧ func.append n arg.code = arg.code ++ [func.call n]) ∨
    (func.merges arg = true ∧ ∃ bc, arg.code = [bc] ∧ func.append n arg.code = [func.merged n bc]) := by
  cases hmerges : func.merges arg with
  | true =>
    refine Or.inr ⟨rfl, ?_⟩
    cases func with
    | builtin op hcomputes =>
      obtain ⟨bc, hpush, hcode, -⟩ := emit_leaf hmerges
      refine ⟨bc, hcode, ?_⟩
      rw [hcode]
      show withFunction op n ([] ++ [bc]) = [] ++ [{ bc with op := op, args := n }]
      exact withFunction_push hpush
    | callback name =>
      cases arg with
      | literal value => exact ⟨_, rfl, rfl⟩
      | var name => exact absurd hmerges (by simp [Func.merges, Expr.isLiteral])
      | apply func args => exact absurd hmerges (by simp [Func.merges, Expr.isLiteral])
      | default first second => exact absurd hmerges (by simp [Func.merges, Expr.isLiteral])
  | false =>
    refine Or.inl ⟨rfl, ?_⟩
    cases func with
    | builtin op hcomputes => exact withFunction_compound op n hmerges
    | callback name => exact withCallback_settled (settled_emit hmerges [])

/-- **The bytecode of a call**: that of the arguments and the call, or of all arguments but the last with the
call that takes the last one along. -/
theorem Func.append_cases (func : Func) (n : ℕ) (args : List (Expr J)) :
    func.append n (args.flatMap Expr.code) = args.flatMap Expr.code ++ [func.call n] ∨
    ∃ before arg bc, args = before ++ [arg] ∧ func.merges arg = true ∧ arg.code = [bc] ∧
      func.append n (args.flatMap Expr.code) = before.flatMap Expr.code ++ [func.merged n bc] := by
  rcases List.eq_nil_or_concat' args with rfl | ⟨before, arg, rfl⟩
  · cases func with
    | builtin op hcomputes => exact Or.inl rfl
    | callback name => exact Or.inl rfl
  · have hcode : (before ++ [arg]).flatMap Expr.code = before.flatMap Expr.code ++ arg.code := by
      rw [List.flatMap_append, List.flatMap_singleton]
    rw [hcode, func.append_append n (code_ne_nil arg)]
    rcases func.append_code n arg with ⟨-, happend⟩ | ⟨hmerges, bc, harg, happend⟩
    · exact Or.inl (by rw [happend, List.append_assoc])
    · exact Or.inr ⟨before, arg, bc, rfl, hmerges, harg, by rw [happend]⟩

/-- The bytecode of `default`. -/
theorem code_default {first second : Expr J} {bc : Bytecode J}
    (h : (Expr.default first second).compilable = true) (hpush : bc.op = .push) (hfirst : first.code = [bc]) :
    (Expr.default first second).code = second.code ++ [{ bc with op := .default, args := 2 }] := by
  simp only [Expr.compilable, Bool.and_eq_true, Bool.not_eq_true', beq_iff_eq] at h
  obtain ⟨⟨⟨hleaf, hsecond⟩, hlen⟩, hcall⟩ := h
  obtain ⟨bc', -, hcode, hemit⟩ := emit_leaf hleaf
  obtain rfl : bc' = bc := List.singleton_inj.mp (hcode.symm.trans hfirst)
  exact emit_default (emit_eq second hsecond) hlen hpush hemit hcall []

/-! ### Where the arguments of `default` can be exchanged -/

mutual

/-- Every `default` of the expression has two bytecodes to exchange, if `bcs` is the bytecode before the
expression. -/
def Expr.swappable : Expr J → List (Bytecode J) → Bool
  | .literal _, _ | .var _, _ => true
  | .apply _ args, bcs => swappableAll args bcs
  | .default first second, bcs =>
      first.swappable bcs && second.swappable (first.emit bcs)
        && decide (2 ≤ (second.emit (first.emit bcs)).length)

def swappableAll : List (Expr J) → List (Bytecode J) → Bool
  | [], _ => true
  | arg :: args, bcs => arg.swappable bcs && swappableAll args (arg.emit bcs)

end

omit [NlohmannJson J] in
theorem length_swapLastTwo (bcs : List (Bytecode J)) : (swapLastTwo bcs).length = bcs.length := by
  rw [swapLastTwo]
  split
  · rename_i last previous before hreverse
    have hlength : bcs.reverse.length = bcs.length := List.length_reverse
    rw [List.length_reverse, ← hlength, hreverse]
    rfl
  · rfl

theorem length_le_withFunction (op : Op) (n : ℕ) (bcs : List (Bytecode J)) :
    bcs.length ≤ (withFunction op n bcs).length := by
  rcases List.eq_nil_or_concat' bcs with rfl | ⟨before, last, rfl⟩
  · exact Nat.zero_le _
  by_cases hpush : last.op = .push
  · simp [withFunction_push hpush]
  · simp [withFunction_of_ne hpush]

theorem Func.length_le_append (func : Func) (n : ℕ) (bcs : List (Bytecode J)) :
    bcs.length ≤ (func.append n bcs).length := by
  cases func with
  | builtin op hcomputes => exact length_le_withFunction op n bcs
  | callback name =>
    rw [Func.append]
    rcases List.eq_nil_or_concat' bcs with rfl | ⟨before, last, rfl⟩
    · exact Nat.zero_le _
    by_cases hpush : last.op = .push ∧ last.flags = .immediate
    · simp [withCallback_literal hpush]
    · simp [withCallback_of_not hpush]

theorem length_le_emitAll {args : List (Expr J)}
    (hargs : ∀ arg ∈ args, ∀ bcs : List (Bytecode J), bcs.length ≤ (arg.emit bcs).length) (bcs : List (Bytecode J)) :
    bcs.length ≤ (emitAll args bcs).length := by
  induction args generalizing bcs with
  | nil => exact Nat.le_refl _
  | cons arg args ih =>
    rw [emitAll]
    exact (hargs arg List.mem_cons_self bcs).trans (ih (fun a ha => hargs a (List.mem_cons_of_mem arg ha)) _)

/-- No expression shortens the bytecode. -/
theorem length_le_emit (e : Expr J) (bcs : List (Bytecode J)) : bcs.length ≤ (e.emit bcs).length := by
  induction e generalizing bcs with
  | literal value => simp [Expr.emit]
  | var name => simp [Expr.emit]
  | apply func args ih => exact (length_le_emitAll ih bcs).trans (func.length_le_append _ _)
  | default first second ihf ihs =>
    calc bcs.length ≤ (second.emit (first.emit bcs)).length := (ihf bcs).trans (ihs _)
      _ = (swapLastTwo (second.emit (first.emit bcs))).length := (length_swapLastTwo _).symm
      _ ≤ ((Expr.default first second).emit bcs).length := length_le_withFunction .default 2 _

/-- Behind a call every expression appends something, for it has nothing to merge with. -/
theorem length_lt_emit (e : Expr J) {bcs : List (Bytecode J)} {last : Bytecode J}
    (hlast : bcs.getLast? = some last) (hop : last.op ≠ .push) : bcs.length < (e.emit bcs).length := by
  obtain ⟨before, hbcs⟩ := List.getLast?_eq_some_iff.mp hlast
  induction e with
  | literal value => simp [Expr.emit]
  | var name => simp [Expr.emit]
  | apply func args ih =>
    cases args with
    | nil =>
      rw [Expr.emit, emitAll, hbcs]
      cases func with
      | builtin op hcomputes => simp [Func.append, withFunction_of_ne hop]
      | callback name => simp [Func.append, withCallback_of_not fun hpush => hop hpush.1]
    | cons arg args =>
      calc bcs.length < (arg.emit bcs).length := ih arg List.mem_cons_self
        _ ≤ (emitAll args (arg.emit bcs)).length := length_le_emitAll (fun a _ => length_le_emit a) _
        _ ≤ ((Expr.apply func (arg :: args)).emit bcs).length := func.length_le_append _ _
  | default first second ihf _ =>
    calc bcs.length < (first.emit bcs).length := ihf
      _ ≤ (second.emit (first.emit bcs)).length := length_le_emit second _
      _ = (swapLastTwo (second.emit (first.emit bcs))).length := (length_swapLastTwo _).symm
      _ ≤ ((Expr.default first second).emit bcs).length := length_le_withFunction .default 2 _

/-- Two expressions behind a bytecode leave two bytecodes at least. -/
theorem two_le_length_emit (first second : Expr J) {bcs : List (Bytecode J)} (hbcs : bcs ≠ []) :
    2 ≤ (second.emit (first.emit bcs)).length := by
  have hpos := List.length_pos_iff.mpr hbcs
  cases hleaf : first.isLeaf with
  | true =>
    obtain ⟨bc, -, -, hemit⟩ := emit_leaf hleaf
    have hlength := length_le_emit second (first.emit bcs)
    rw [hemit, List.length_append, List.length_singleton] at hlength
    rw [hemit]
    omega
  | false =>
    obtain ⟨bc, hlast, hop⟩ := getLast?_emit hleaf bcs
    have hfirst := length_le_emit first bcs
    have hsecond := length_lt_emit second hlast hop
    omega

theorem swappableAll_of_mem {args : List (Expr J)} {bcs : List (Bytecode J)} (hbcs : bcs ≠ [])
    (hargs : ∀ arg ∈ args, ∀ bcs : List (Bytecode J), bcs ≠ [] → arg.swappable bcs = true) :
    swappableAll args bcs = true := by
  induction args generalizing bcs with
  | nil => rfl
  | cons arg args ih =>
    rw [swappableAll, hargs arg List.mem_cons_self bcs hbcs, Bool.true_and]
    exact ih (emit_ne_nil arg bcs) fun a ha => hargs a (List.mem_cons_of_mem arg ha)

/-- **Only at the beginning of a template can the exchange leave the bytecode**, by induction on the expression. -/
theorem swappable_of_ne_nil (e : Expr J) {bcs : List (Bytecode J)} (hbcs : bcs ≠ []) : e.swappable bcs = true := by
  induction e generalizing bcs with
  | literal value => rfl
  | var name => rfl
  | apply func args ih => exact swappableAll_of_mem hbcs fun arg harg _ hne => ih arg harg hne
  | default first second ihf ihs =>
    rw [Expr.swappable, ihf hbcs, ihs (emit_ne_nil first bcs), decide_eq_true (two_le_length_emit first second hbcs)]
    rfl

/-- The beginning of a template is the one place to look at. -/
theorem swappable_of_nil (e : Expr J) {bcs : List (Bytecode J)} (h : bcs = [] → e.swappable [] = true) :
    e.swappable bcs = true := by
  by_cases hnil : bcs = []
  · rw [hnil]
    exact h hnil
  · exact swappable_of_ne_nil e hnil

/-- **The arguments of a compilable expression can be exchanged**, whatever is before it. -/
theorem swappable_of_compilable (e : Expr J) (h : e.compilable = true) (bcs : List (Bytecode J)) :
    e.swappable bcs = true := by
  induction e generalizing bcs with
  | literal value => rfl
  | var name => rfl
  | apply func args ih =>
    simp only [Expr.compilable, Bool.and_eq_true] at h
    rw [Expr.swappable]
    cases args with
    | nil => rfl
    | cons arg args =>
      have hargs := h.2
      rw [swappableAll, ih arg List.mem_cons_self (compilable_of_mem hargs List.mem_cons_self), Bool.true_and]
      exact swappableAll_of_mem (emit_ne_nil arg bcs) fun a _ _ hne => swappable_of_ne_nil a hne
  | default first second ihf ihs =>
    simp only [Expr.compilable, Bool.and_eq_true, Bool.not_eq_true', beq_iff_eq] at h
    obtain ⟨⟨⟨hleaf, hsecond⟩, hlen⟩, hcall⟩ := h
    obtain ⟨bc, -, -, hfirst⟩ := emit_leaf hleaf
    have hsettled : second.startsWithCall = true → Settled (first.emit bcs) := fun hstart =>
      settled_emit (by simpa [hstart] using hcall) bcs
    have htwo : 2 ≤ (second.emit (first.emit bcs)).length := by
      rw [emit_eq second hsecond _ hsettled, hfirst, List.length_append, List.length_append, hlen,
        List.length_singleton]
      omega
    rw [Expr.swappable, ihs hsecond, decide_eq_true htwo, Bool.and_true, Bool.and_true]
    obtain ⟨value, rfl⟩ | ⟨name, rfl⟩ := isLeaf_cases hleaf
    · rfl
    · rfl

/-! ### Templates -/

/-- The name a `StartLoop` keeps for the keys. -/
def keyValue (key : Str) : J := if key.isEmpty then null else string key

/-- The bytecode of the parts of a template, the first one at position `pos`. -/
def Tree.code : ℕ → Tree J → List (Bytecode J)
  | _, .nil => []
  | pos, .text content next =>
      { op := .printText, value := null, str := content } :: next.code (pos + 1)
  | pos, .print value next =>
      let printing := withFunction .printValue 1 value.code
      printing ++ next.code (pos + printing.length)
  | pos, .ifThen condition body next =>
      let jump := pos + condition.code.length
      let inner := body.code (jump + 1)
      let stop := jump + 1 + inner.length
      condition.code ++ [{ op := .conditionalJump, args := stop, value := null }] ++ inner ++ next.code stop
  | pos, .ifElse condition body other next =>
      let jump := pos + condition.code.length
      let inner := body.code (jump + 1)
      let leave := jump + 1 + inner.length
      let outer := other.code (leave + 1)
      let stop := leave + 1 + outer.length
      condition.code ++ [{ op := .conditionalJump, args := leave + 1, value := null }] ++ inner
        ++ [{ op := .jump, args := stop, value := null }] ++ outer ++ next.code stop
  | pos, .loop key value values body next =>
      let start := pos + values.code.length
      let inner := body.code (start + 1)
      let stop := start + 1 + inner.length
      values.code ++ [{ op := .startLoop, args := stop, value := keyValue key, str := value }] ++ inner
        ++ [{ op := .endLoop, args := start + 1, value := null }] ++ next.code (stop + 1)

/-- The first bytecodes of the template, where nothing is before them, can be exchanged. -/
def Tree.swappable : Tree J → Bool
  | .nil | .text _ _ => true
  | .print value _ => value.swappable []
  | .ifThen condition _ _ => condition.swappable []
  | .ifElse condition _ _ _ => condition.swappable []
  | .loop _ _ values _ _ => values.swappable []

/-- Every expression of the template is compilable. -/
def Tree.compilable : Tree J → Bool
  | .nil => true
  | .text _ next => next.compilable
  | .print value next => value.compilable && next.compilable
  | .ifThen condition body next => condition.compilable && body.compilable && next.compilable
  | .ifElse condition body other next =>
      condition.compilable && body.compilable && other.compilable && next.compilable
  | .loop _ _ values body next => values.compilable && body.compilable && next.compilable

end EnvoyWasmFilters.Inja
