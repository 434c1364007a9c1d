import EnvoyWasmFilters.Inja.Renderer

/-!
# The language of inja templates

What a template says, apart from the bytecode that renders it: the expressions and the parts of a template as
syntax trees, and their values.

* `Expr`, `Tree` — the syntax; a chain of `else if` is an `ifElse` in the second branch;
* `Scope` — where names are looked up: the data, the open loops and the callbacks;
* `Expr.eval` — the value of an expression, its arguments taken from left to right;
* `Tree.eval` — the text a template stands for;
* `LawfulJson` — what is used of `nlohmann::json`.
-/

namespace EnvoyWasmFilters.Inja

/-- The operations that compute a value from their arguments, those of the last branch of
`Renderer.execute`. -/
def Op.computes : Op → Bool
  | .nop | .printText | .printValue | .push | .default | .include | .callback | .jump | .conditionalJump
  | .startLoop | .endLoop | .result => false
  | _ => true

/-- What an expression applies to its arguments: a built-in operation, or a callback of the environment. -/
inductive Func where
  | builtin (op : Op) (hcomputes : op.computes = true)
  | callback (name : Str)
deriving DecidableEq

/-- An expression. -/
inductive Expr (J : Type) where
  | literal (value : J)
  | var (name : Str)
  | apply (func : Func) (args : List (Expr J))
  | default (first second : Expr J)

/-- The parts of a template, each with what follows it.  The name `key` of a loop over an array is empty. -/
inductive Tree (J : Type) where
  | nil
  | text (content : Str) (next : Tree J)
  | print (value : Expr J) (next : Tree J)
  | ifThen (condition : Expr J) (body next : Tree J)
  | ifElse (condition : Expr J) (body other next : Tree J)
  | loop (key value : Str) (values : Expr J) (body next : Tree J)

variable {J : Type}

/-- Induction over an expression, with the hypothesis on every argument of a call. -/
@[induction_eliminator]
theorem Expr.induction {motive : Expr J → Prop} (literal : ∀ value, motive (.literal value))
    (var : ∀ name, motive (.var name))
    (apply : ∀ func args, (∀ arg ∈ args, motive arg) → motive (.apply func args))
    (default : ∀ first second, motive first → motive second → motive (.default first second))
    (e : Expr J) : motive e :=
  @Expr.rec J motive (fun args => ∀ arg ∈ args, motive arg) literal var apply default
    (fun _ harg => absurd harg List.not_mem_nil)
    (fun _ _ hhead htail => List.forall_mem_cons.mpr ⟨hhead, htail⟩) e

/-! ### Values -/

/-- Where the names of an expression are looked up. -/
structure Scope (J : Type) where
  callbacks : Callbacks J
  data : J
  loops : List (LoopLevel J) := []

/-- The data of the innermost loop, or what the template was given. -/
def Scope.current (scope : Scope J) : J :=
  match scope.loops with
  | level :: _ => level.data
  | [] => scope.data

/-- The scope of the body of a loop. -/
def Scope.within (scope : Scope J) (level : LoopLevel J) : Scope J :=
  { scope with loops := level :: scope.loops }

open NlohmannJson RenderJson

variable [NlohmannJson J] [RenderJson J]

/-- The value of a variable: what its path leads to, or else the result of the callback without arguments of
that name. -/
def Scope.lookup (scope : Scope J) (name : Str) : Except Stop J :=
  match atPointer scope.current ((convertDotToJsonPointer name).takeWhile (· != '\x00')) with
  | .ok value => pure value
  | .error e =>
      if e.isException then
        match findCallback scope.callbacks name 0 with
        | some callback => callback []
        | none => throwInja "render_error" ("variable '" ++ name ++ "' not found")
      else throw e

/-- The value of a call. -/
def Func.eval (scope : Scope J) (args : List J) : Func → Except Stop J
  | .builtin op _ => applyBuiltin scope.data op args
  | .callback name =>
      match findCallback scope.callbacks name args.length with
      | some function => function args
      | none => throwInja "render_error"
          ("function '" ++ name ++ "' (" ++ Nat.toDigits 10 args.length ++ ") not found")

/-- What `default` makes of its first argument: an exception stands for the fallback. -/
def orDefault (fallback : J) : Except Stop J → Except Stop J
  | .ok value => pure value
  | .error e => if e.isException then pure fallback else throw e

mutual

/-- The value of an expression.  The second argument of `default` comes first, and is needed even where the
first one has a value. -/
def Expr.eval (scope : Scope J) : Expr J → Except Stop J
  | .literal value => pure value
  | .var name => scope.lookup name
  | .apply func args => do
      let values ← evalAll scope args
      func.eval scope values
  | .default first second => do
      let fallback ← second.eval scope
      orDefault fallback (first.eval scope)

/-- The values of the arguments, from left to right. -/
def evalAll (scope : Scope J) : List (Expr J) → Except Stop (List J)
  | [] => pure []
  | arg :: args => do
      let value ← arg.eval scope
      let values ← evalAll scope args
      pure (value :: values)

end

/-- The elements a loop goes through. -/
def LoopLevel.length (level : LoopLevel J) : ℕ :=
  match level.loopType with
  | .array => RenderJson.size level.values
  | .map => level.mapValues.length

/-- The loop over `values`: over an array `for value in values`, over the members of an object in the order of
their names `for key, value in values`. -/
def Scope.loopOver (scope : Scope J) (key value : Str) (values : J) : Except Stop (LoopLevel J) :=
  if key.isEmpty then
    if isArray values then
      pure { loopType := .array, valueName := value, data := scope.current, values := values,
             size := RenderJson.size values }
    else throwInja "render_error" "type must be array"
  else if isObject values then
    pure { loopType := .map, keyName := key, valueName := value, data := scope.current, values := values,
           mapValues := (items values).mergeSort fun a b => !decide (b.1 < a.1) }
  else throwInja "render_error" "for key, value requires object"

/-- The first round of a loop.  Behind the sixteenth loop the memory of the others has moved. -/
def Scope.enter (scope : Scope J) (key value : Str) (values : J) : Except Stop (LoopLevel J) :=
  if loopCapacity ≤ scope.loops.length then throw .undefinedBehaviour
  else do
    let level ← scope.loopOver key value values
    let level ← level.withParent
    level.update

/-- The texts of the round at hand and of `n` more. -/
def rounds (body : LoopLevel J → Except Stop Str) : ℕ → LoopLevel J → Except Stop Str
  | 0, level => body level
  | n + 1, level => do
      let text ← body level
      let level ← level.advance.update
      let rest ← rounds body n level
      pure (text ++ rest)

/-- The text of a loop: one round for each element. -/
def Scope.loopText (scope : Scope J) (key value : Str) (values : J)
    (body : LoopLevel J → Except Stop Str) : Except Stop Str :=
  if empty values then pure []
  else do
    let level ← scope.enter key value values
    rounds body (level.length - 1) level

/-- **The text a template stands for.** -/
def Tree.eval : Tree J → Scope J → Except Stop Str
  | .nil, _ => pure []
  | .text content next, scope => do
      let rest ← next.eval scope
      pure (content ++ rest)
  | .print value next, scope => do
      let value ← value.eval scope
      let text ← printed value
      let rest ← next.eval scope
      pure (text ++ rest)
  | .ifThen condition body next, scope => do
      let value ← condition.eval scope
      let holds ← truthy value
      let text ← (if holds then body.eval scope else pure [])
      let rest ← next.eval scope
      pure (text ++ rest)
  | .ifElse condition body other next, scope => do
      let value ← condition.eval scope
      let holds ← truthy value
      let text ← (if holds then body.eval scope else other.eval scope)
      let rest ← next.eval scope
      pure (text ++ rest)
  | .loop key value values body next, scope => do
      let values ← values.eval scope
      let text ← scope.loopText key value values fun level => body.eval (scope.within level)
      let rest ← next.eval scope
      pure (text ++ rest)

/-- What the rendering of a template relies on: which values are strings, and that an array without elements is
empty. -/
class LawfulJson (J : Type) [NlohmannJson J] [RenderJson J] : Prop where
  isString_null : isString (null : J) = false
  isString_string : ∀ str : Str, isString (string str : J) = true
  getString_string : ∀ str : Str, getString (string str : J) = .ok str
  size_pos : ∀ value : J, isArray value = true → empty value = false → 0 < RenderJson.size value

end EnvoyWasmFilters.Inja
