import EnvoyWasmFilters.Inja.Compile
import EnvoyWasmFilters.Inja.IncludeFree
import EnvoyWasmFilters.Library.CodeLayout
import EnvoyWasmFilters.Library.FailingMachine

/-!
# Running the bytecode of an expression

The renderer, on the bytecode of an expression, does what the value of the expression says: it pushes it, or it
ends as the evaluation ends.

* `execute_call`, `execute_merged` — a call whose arguments are on the stack, or all but the last;
* `args_follow`, `call_pushes`, `default_pushes` — the parts of an expression;
* `expr_pushes` — **an expression pushes its value**, whatever is on the stack and wherever its bytecode stands;
* `print_follows` — an expression between braces is printed.
-/

namespace EnvoyWasmFilters.Inja

open NlohmannJson RenderJson FailingMachine CodeLayout StateExcept

variable {J : Type}

/-- The state of a rendering that has written `os` and is at `regs`, the rest being that of `r`. -/
def Rendering.at (r : Rendering J) (os : Str) (regs : Registers J) : Rendering J :=
  { r with os := os, activation := { r.activation with toRegisters := regs } }

/-- The bytecodes of the template being rendered. -/
abbrev Rendering.program (r : Rendering J) : List (Bytecode J) := r.activation.tmpl.bytecodes

variable [NlohmannJson J] [RenderJson J] {env : Renderer J} {r : Rendering J} {os : Str}
  {regs : Registers J}

/-- The scope of an activation at `regs`. -/
def Renderer.scope (env : Renderer J) (r : Rendering J) (loops : List (LoopLevel J)) : Scope J :=
  { callbacks := env.callbacks, data := r.activation.data, loops := loops }

/-! ### One bytecode -/

theorem step_silent {bc : Bytecode J} {x : Except Stop (Registers J)} (hbc : r.program[regs.i]? = some bc)
    (h : env.execute (r.at os regs).activation bc = silent x) :
    env.step (r.at os regs) = x.map fun regs' => some (r.at os regs') := by
  have hnext : (r.at os regs).bytecode? = some bc := hbc
  simp only [Renderer.step, hnext, h, silent]
  cases x with
  | error e => rfl
  | ok regs' =>
    show Except.ok (some (r.at (os ++ []) regs')) = .ok (some (r.at os regs'))
    rw [List.append_nil]

theorem step_goOn {bc : Bytecode J} {x : Except Stop (Str × Registers J)}
    (hbc : r.program[regs.i]? = some bc)
    (h : env.execute (r.at os regs).activation bc = x.map fun p => .goOn p.1 p.2) :
    env.step (r.at os regs) = x.map fun p => some (r.at (os ++ p.1) p.2) := by
  have hnext : (r.at os regs).bytecode? = some bc := hbc
  simp only [Renderer.step, hnext, h]
  cases x with
  | error e => rfl
  | ok p => rfl

/-- The operations that compute a value share one branch. -/
theorem execute_computes {a : Activation J} {bc : Bytecode J} (h : bc.op.computes = true) :
    env.execute a bc = silent (do
      let args ← a.getArgs env.callbacks bc
      let result ← applyBuiltin a.data bc.op args
      pure (a.pushResult bc result)) := by
  simp only [Renderer.execute]
  split
  case h_13 => rfl
  all_goals
    rename_i hop
    rw [hop] at h
    exact absurd h (by decide)

/-! ### Arguments -/

omit [NlohmannJson J] in
/-- All arguments are on the stack. -/
theorem getArgs_pop (env : Renderer J) (a : Activation J) (bc : Bytecode J) (values : List J) {stack : List J}
    (hstack : a.stack = values.reverse ++ stack) (hflags : bc.flags = .pop) (hargs : bc.args = values.length) :
    a.getArgs env.callbacks bc = pure values ∧ a.stack.drop bc.popArgs = stack := by
  have hpop : bc.popArgs = values.reverse.length := by
    rw [Bytecode.popArgs, if_pos hflags, hargs, List.length_reverse]
  have henough : ¬ a.stack.length < bc.popArgs := by
    rw [hstack, hpop, List.length_append]
    omega
  constructor
  · rw [Activation.getArgs, if_neg henough]
    simp only [if_pos hflags, hstack, hpop, List.take_left, List.reverse_reverse]
  · rw [hstack, hpop, List.drop_left]

omit [NlohmannJson J] in
/-- The last argument is the bytecode's own. -/
theorem getArgs_merged (env : Renderer J) (a : Activation J) {bc : Bytecode J} (values : List J) {stack : List J}
    (hstack : a.stack = values.reverse ++ stack) (hflags : bc.flags ≠ .pop)
    (hargs : bc.args = values.length + 1) (hlt : bc.args < 2 ^ 32) :
    a.getArgs env.callbacks bc = (a.getImm env.callbacks bc >>= fun value => pure (values ++ [value])) ∧
      a.stack.drop bc.popArgs = stack := by
  have hpop : bc.popArgs = values.reverse.length := by
    rw [Bytecode.popArgs, if_neg hflags, List.length_reverse]
    omega
  have henough : ¬ a.stack.length < bc.popArgs := by
    rw [hstack, hpop, List.length_append]
    omega
  constructor
  · rw [Activation.getArgs, if_neg henough]
    simp only [if_neg hflags, hstack, hpop, List.take_left, List.reverse_reverse]
  · rw [hstack, hpop, List.drop_left]

/-- A bytecode that is a call of `func`. -/
def Func.Calls (func : Func) (bc : Bytecode J) : Prop :=
  match func with
  | .builtin op _ => bc.op = op
  | .callback name => bc.op = .callback ∧ bc.str = name

/-- **A call** whose arguments have their values. -/
theorem execute_call {func : Func} {bc : Bytecode J} {values stack : List J} (hcall : func.Calls bc)
    (hgets : (r.at os regs).activation.getArgs env.callbacks bc = pure values)
    (hrest : regs.stack.drop bc.popArgs = stack) (hargs : bc.args = values.length) :
    env.execute (r.at os regs).activation bc
      = silent ((func.eval (env.scope r regs.loopStack) values).map fun value =>
          ⟨regs.i + 1, value :: stack, regs.loopStack⟩) := by
  have hpush : ∀ value, (r.at os regs).activation.pushResult bc value
      = ⟨regs.i + 1, value :: stack, regs.loopStack⟩ := by
    intro value
    rw [← hrest]
    rfl
  cases func with
  | builtin op hcomputes =>
    have hop : bc.op = op := hcall
    rw [execute_computes (by rw [hop]; exact hcomputes), hgets, hop]
    show silent (applyBuiltin r.activation.data op values >>= fun value => pure _) = _
    simp only [hpush]
    show _ = silent ((applyBuiltin r.activation.data op values).map _)
    cases applyBuiltin r.activation.data op values <;> rfl
  | callback name =>
    obtain ⟨hop, hname⟩ := hcall
    simp only [Renderer.execute, hop, Activation.applyCallback, hname, hargs, Func.eval, Renderer.scope]
    cases findCallback env.callbacks name values.length with
    | none => rfl
    | some function =>
      simp only [hgets, pure_bind, hpush]
      cases function values <;> rfl

/-- A literal or a variable in a bytecode. -/
theorem getImm_leaf (env : Renderer J) (r : Rendering J) (os : Str) (regs : Registers J) {e : Expr J}
    {bc : Bytecode J} (bc' : Bytecode J) (hleaf : e.isLeaf = true) (hcode : e.code = [bc])
    (hflags : bc'.flags = bc.flags) (hvalue : bc'.value = bc.value)
    (hstr : e.isLiteral = false → bc'.str = bc.str) :
    bc'.flags ≠ .pop ∧
      (r.at os regs).activation.getImm env.callbacks bc' = e.eval (env.scope r regs.loopStack) := by
  obtain ⟨value, rfl⟩ | ⟨name, rfl⟩ := isLeaf_cases hleaf
  · obtain rfl := List.singleton_inj.mp hcode
    dsimp only at hflags hvalue
    refine ⟨by rw [hflags]; decide, ?_⟩
    simp only [Activation.getImm, hflags, hvalue, Expr.eval]
  · obtain rfl := List.singleton_inj.mp hcode
    dsimp only at hflags
    have hname : bc'.str = name := hstr rfl
    refine ⟨by rw [hflags]; decide, ?_⟩
    simp only [Activation.getImm, hflags, hname, Expr.eval]
    rfl

/-- **A call** that takes its last argument along. -/
theorem execute_merged {func : Func} {leaf : Expr J} {bc : Bytecode J} {values stack : List J}
    (hmerges : func.merges leaf = true) (hcode : leaf.code = [bc])
    (hstack : regs.stack = values.reverse ++ stack) (hlt : values.length + 1 < 2 ^ 32) :
    env.execute (r.at os regs).activation (func.merged (values.length + 1) bc)
      = silent ((leaf.eval (env.scope r regs.loopStack) >>= fun value =>
          func.eval (env.scope r regs.loopStack) (values ++ [value])).map fun value =>
            ⟨regs.i + 1, value :: stack, regs.loopStack⟩) := by
  have hleaf : leaf.isLeaf = true := by
    cases func with
    | builtin op hcomputes => exact hmerges
    | callback name => exact isLeaf_of_isLiteral hmerges
  have hflags : (func.merged (values.length + 1) bc).flags = bc.flags := by cases func <;> rfl
  have hvalue : (func.merged (values.length + 1) bc).value = bc.value := by cases func <;> rfl
  have hargs : (func.merged (values.length + 1) bc).args = values.length + 1 := by cases func <;> rfl
  have hcall : func.Calls (func.merged (values.length + 1) bc) := by
    cases func with
    | builtin op hcomputes => rfl
    | callback name => exact ⟨rfl, rfl⟩
  have hstr : leaf.isLiteral = false → (func.merged (values.length + 1) bc).str = bc.str := by
    intro hliteral
    cases func with
    | builtin op hcomputes => rfl
    | callback name => exact absurd (hliteral.symm.trans hmerges) (by decide)
  obtain ⟨hpop, himm⟩ := getImm_leaf env r os regs _ hleaf hcode hflags hvalue hstr
  obtain ⟨hgets, hrest⟩ := getArgs_merged env (r.at os regs).activation values hstack hpop hargs
    (by rw [hargs]; exact hlt)
  rw [himm] at hgets
  cases heval : leaf.eval (env.scope r regs.loopStack) with
  | ok value =>
    rw [heval] at hgets
    exact execute_call hcall hgets hrest (by rw [hargs, List.length_append]; rfl)
  | error e =>
    rw [heval] at hgets
    cases func with
    | builtin op hcomputes =>
      rw [execute_computes (by exact hcomputes), hgets]
      rfl
    | callback name =>
      -- a literal has a value
      cases leaf with
      | literal value => exact absurd heval (by simp [Expr.eval, pure, Except.pure])
      | var name => exact absurd hmerges (by simp [Func.merges, Expr.isLiteral])
      | apply func args => exact absurd hmerges (by simp [Func.merges, Expr.isLiteral])
      | default first second => exact absurd hmerges (by simp [Func.merges, Expr.isLiteral])

/-! ### Expressions -/

/-- A bytecode that writes nothing, as the computation it performs. -/
theorem follows_silent {α : Type} (regs : Registers J) {bc : Bytecode J} {x : Except Stop α}
    {f : α → Registers J} (hbc : r.program[regs.i]? = some bc)
    (h : env.execute (r.at os regs).activation bc = silent (x.map f)) :
    Follows env.step (r.at os regs) x fun value => r.at os (f value) := by
  apply follows_of_step
  rw [step_silent hbc h]
  cases x <;> rfl

/-- The bytecode of `e` at position `i` pushes the value of `e`. -/
def Pushes (env : Renderer J) (r : Rendering J) (os : Str) (loops : List (LoopLevel J)) (e : Expr J) : Prop :=
  ∀ i stack, CodeAt r.program i e.code →
    Follows env.step (r.at os ⟨i, stack, loops⟩) (e.eval (env.scope r loops)) fun value =>
      r.at os ⟨i + e.code.length, value :: stack, loops⟩

variable {loops : List (LoopLevel J)} {i : ℕ} {stack : List J}

/-- A literal or a variable. -/
theorem leaf_pushes {e : Expr J} (hleaf : e.isLeaf = true) : Pushes env r os loops e := by
  intro i stack hcode
  obtain ⟨bc, hpush, hbc, -⟩ := emit_leaf hleaf
  rw [hbc] at hcode ⊢
  have himm := (getImm_leaf env r os ⟨i, stack, loops⟩ bc hleaf hbc rfl rfl fun _ => rfl).2
  apply follows_silent ⟨i, stack, loops⟩ (codeAt_singleton.mp hcode)
  simp only [Renderer.execute, hpush, himm]
  rfl

/-- **The arguments of a call**, by induction on their list: the first one ends up lowest. -/
theorem args_follow {args : List (Expr J)} (hargs : ∀ arg ∈ args, Pushes env r os loops arg)
    (hcode : CodeAt r.program i (args.flatMap Expr.code)) :
    Follows env.step (r.at os ⟨i, stack, loops⟩) (evalAll (env.scope r loops) args) fun values =>
      r.at os ⟨i + (args.flatMap Expr.code).length, values.reverse ++ stack, loops⟩ := by
  induction args generalizing i stack with
  | nil => exact follows_pure _ _ rfl
  | cons arg args ih =>
    rw [List.flatMap_cons] at hcode ⊢
    obtain ⟨hhead, hrest⟩ := codeAt_append.mp hcode
    rw [evalAll]
    refine (hargs arg List.mem_cons_self i stack hhead).bind fun value _ => ?_
    refine (ih (fun a ha => hargs a (List.mem_cons_of_mem arg ha)) hrest).map (value :: ·) fun values _ => ?_
    rw [List.length_append, ← Nat.add_assoc, List.reverse_cons, List.append_assoc]
    rfl

/-- As many values as arguments. -/
theorem evalAll_length {scope : Scope J} {args : List (Expr J)} {values : List J}
    (h : evalAll scope args = .ok values) : values.length = args.length := by
  induction args generalizing values with
  | nil =>
    obtain rfl := pure_eq_ok.mp h
    rfl
  | cons arg args ih =>
    rw [evalAll] at h
    obtain ⟨value, -, h⟩ := bind_eq_ok.mp h
    obtain ⟨rest, hrest, h⟩ := bind_eq_ok.mp h
    obtain rfl := pure_eq_ok.mp h
    rw [List.length_cons, List.length_cons, ih hrest]

/-- The last argument is the last to be evaluated. -/
theorem evalAll_concat (scope : Scope J) (args : List (Expr J)) (last : Expr J) :
    evalAll scope (args ++ [last]) = (do
      let values ← evalAll scope args
      let value ← last.eval scope
      pure (values ++ [value])) := by
  induction args with
  | nil =>
    rw [List.nil_append, evalAll, evalAll]
    simp only [pure_bind]
    rfl
  | cons arg args ih =>
    rw [List.cons_append, evalAll, ih, evalAll]
    simp only [bind_assoc, pure_bind, List.cons_append]

/-- **A call**, once its arguments push their values. -/
theorem call_pushes {func : Func} {args : List (Expr J)} (hargs : ∀ arg ∈ args, Pushes env r os loops arg)
    (hall : compilableAll args = true) (hlt : args.length < 2 ^ 32) :
    Pushes env r os loops (.apply func args) := by
  intro i stack hcode
  rw [code_apply func hall] at hcode ⊢
  obtain happend | ⟨before, arg, bc, rfl, hmerges, harg, happend⟩ := func.append_cases args.length args
  · rw [happend] at hcode ⊢
    obtain ⟨hbefore, hcall⟩ := codeAt_append.mp hcode
    rw [Expr.eval]
    refine (args_follow hargs hbefore).bind fun values hvalues => ?_
    have hlen := evalAll_length hvalues
    have hargs' : (func.call args.length : Bytecode J).args = values.length := by
      rw [hlen]
      cases func <;> rfl
    have hflags : (func.call args.length : Bytecode J).flags = .pop := by cases func <;> rfl
    have hcalls : func.Calls (func.call args.length : Bytecode J) := by
      cases func with
      | builtin op hcomputes => rfl
      | callback name => exact ⟨rfl, rfl⟩
    obtain ⟨hgets, hrest⟩ := getArgs_pop env
      (r.at os ⟨i + (args.flatMap Expr.code).length, values.reverse ++ stack, loops⟩).activation
      (func.call args.length) values rfl hflags hargs'
    refine (follows_silent _ (codeAt_singleton.mp hcall) (execute_call hcalls hgets hrest hargs')).congr ?_
    intro value _
    rw [List.length_append, ← Nat.add_assoc]
    rfl
  · rw [happend] at hcode ⊢
    obtain ⟨hbefore, hcall⟩ := codeAt_append.mp hcode
    rw [Expr.eval, evalAll_concat]
    simp only [bind_assoc, pure_bind]
    refine (args_follow (fun a ha => hargs a (List.mem_append_left _ ha)) hbefore).bind fun values hvalues => ?_
    have hlen : (before ++ [arg]).length = values.length + 1 := by
      rw [evalAll_length hvalues, List.length_append]
      rfl
    rw [hlen] at hcall hlt ⊢
    refine (follows_silent _ (codeAt_singleton.mp hcall) (execute_merged hmerges harg rfl hlt)).congr ?_
    intro value _
    rw [List.length_append, ← Nat.add_assoc]
    rfl

/-- `default`, whose fallback is pushed first. -/
theorem default_pushes {first second : Expr J} (hc : (Expr.default first second).compilable = true)
    (hsecond : Pushes env r os loops second) : Pushes env r os loops (.default first second) := by
  have hleaf : first.isLeaf = true := by
    simp only [Expr.compilable, Bool.and_eq_true] at hc
    exact hc.1.1.1
  obtain ⟨bc, hpush, hfirst, -⟩ := emit_leaf hleaf
  intro i stack hcode
  rw [code_default hc hpush hfirst] at hcode ⊢
  obtain ⟨hbefore, hcall⟩ := codeAt_append.mp hcode
  rw [Expr.eval]
  refine (hsecond i stack hbefore).bind fun fallback _ => ?_
  have himm := (getImm_leaf env r os ⟨i + second.code.length, fallback :: stack, loops⟩
    { bc with op := .default, args := 2 } hleaf hfirst rfl rfl fun _ => rfl).2
  refine (follows_silent _ (f := fun value => ⟨i + second.code.length + 1, value :: stack, loops⟩)
    (codeAt_singleton.mp hcall) ?_).congr fun value _ => by rw [List.length_append, ← Nat.add_assoc]; rfl
  simp only [Renderer.execute, Activation.applyDefault, himm]
  cases first.eval (env.scope r loops) with
  | ok value => rfl
  | error e =>
    cases hexception : e.isException with
    | true => simp only [orDefault, hexception, if_true]; rfl
    | false => simp only [orDefault, hexception]; rfl

/-- **An expression pushes its value**, by induction on the expression. -/
theorem expr_pushes (e : Expr J) (hc : e.compilable = true) : Pushes env r os loops e := by
  induction e with
  | literal value => exact leaf_pushes rfl
  | var name => exact leaf_pushes rfl
  | apply func args ih =>
    have hc' := hc
    simp only [Expr.compilable, Bool.and_eq_true, decide_eq_true_eq] at hc'
    obtain ⟨⟨-, hlt⟩, hall⟩ := hc'
    exact call_pushes (fun arg harg => ih arg harg (compilable_of_mem hall harg)) hall hlt
  | default first second _ ih =>
    have hc' := hc
    simp only [Expr.compilable, Bool.and_eq_true] at hc'
    exact default_pushes hc (ih hc'.1.1.2)

/-! ### Printing -/

/-- `PrintValue` on a value that `x` computes. -/
theorem execute_printValue {bc : Bytecode J} {x : Except Stop J} {stack : List J} (hop : bc.op = .printValue)
    (hgets : (r.at os regs).activation.getArgs env.callbacks bc = x >>= fun value => pure [value])
    (hrest : regs.stack.drop bc.popArgs = stack) :
    env.execute (r.at os regs).activation bc
      = ((x >>= printed).map fun text => (text, ⟨regs.i + 1, stack, regs.loopStack⟩)).map
          fun p => .goOn p.1 p.2 := by
  simp only [Renderer.execute, hop, Activation.printValue, hgets, ← hrest]
  cases x with
  | error e => rfl
  | ok value =>
    simp only [bind, Except.bind, pure, Except.pure]
    cases printed value <;> rfl

/-- One bytecode that writes a text. -/
theorem follows_printValue {bc : Bytecode J} {x : Except Stop J} (hop : bc.op = .printValue)
    (hbc : r.program[regs.i]? = some bc)
    (hgets : (r.at os regs).activation.getArgs env.callbacks bc = x >>= fun value => pure [value])
    (hrest : regs.stack.drop bc.popArgs = stack) :
    Follows env.step (r.at os regs) (x >>= printed) fun text =>
      r.at (os ++ text) ⟨regs.i + 1, stack, regs.loopStack⟩ := by
  apply follows_of_step
  rw [step_goOn hbc (execute_printValue hop hgets hrest)]
  cases x >>= printed <;> rfl

/-- **An expression between braces** is printed. -/
theorem print_follows (e : Expr J) (hc : e.compilable = true)
    (hcode : CodeAt r.program i (withFunction .printValue 1 e.code)) :
    Follows env.step (r.at os ⟨i, stack, loops⟩) (e.eval (env.scope r loops) >>= printed) fun text =>
      r.at (os ++ text) ⟨i + (withFunction .printValue 1 e.code).length, stack, loops⟩ := by
  cases hleaf : e.isLeaf with
  | true =>
    obtain ⟨bc, hpush, hbc, -⟩ := emit_leaf hleaf
    have hmerge : withFunction .printValue 1 e.code = [{ bc with op := .printValue, args := 1 }] := by
      rw [hbc]
      show withFunction .printValue 1 ([] ++ [bc]) = [] ++ [{ bc with op := .printValue, args := 1 }]
      exact withFunction_push hpush
    rw [hmerge] at hcode ⊢
    obtain ⟨hpop, himm⟩ := getImm_leaf env r os ⟨i, stack, loops⟩ { bc with op := .printValue, args := 1 } hleaf
      hbc rfl rfl fun _ => rfl
    obtain ⟨hgets, hrest⟩ := getArgs_merged env (r.at os ⟨i, stack, loops⟩).activation [] rfl hpop rfl
      (show 1 < 2 ^ 32 by decide)
    rw [himm] at hgets
    exact follows_printValue rfl (codeAt_singleton.mp hcode) hgets hrest
  | false =>
    rw [withFunction_compound .printValue 1 hleaf] at hcode ⊢
    obtain ⟨hvalue, hprint⟩ := codeAt_append.mp hcode
    refine (expr_pushes e hc i stack hvalue).bind fun value _ => ?_
    have hprinting := codeAt_singleton.mp hprint
    obtain ⟨hgets, hrest⟩ := getArgs_pop env (r.at os ⟨i + e.code.length, value :: stack, loops⟩).activation
      { op := .printValue, args := 1, value := null } [value] rfl rfl rfl
    refine (follows_printValue (x := pure value) rfl hprinting hgets hrest).congr ?_
    intro text _
    rw [List.length_append, ← Nat.add_assoc]
    rfl

end EnvoyWasmFilters.Inja
