import EnvoyWasmFilters.Inja.Bytecode
import Mathlib.Algebra.Order.Ring.Int
import Mathlib.Data.List.Sort
import Mathlib.Logic.Relation

/-!
# The inja renderer

`Renderer::render_to` of `inja.hpp`, one bytecode a step.  An `Include` starts a renderer of its own for
the included template, so that a state is the activation at work and those that wait for it.

* `RenderJson` — the operations of `nlohmann::json` the renderer calls;
* `applyBuiltin` — the built-in functions, on the arguments taken from the stack and the bytecode;
* `Activation.execute` — the `switch` of `render_to`;
* `Renderer.step`, `Renderer.Reaches` — the run of a template.

A pointer that does not point to a value, an access outside a vector and a dereferenced end iterator are
`Stop.undefinedBehaviour`.
-/

namespace EnvoyWasmFilters.Inja

/-- The operations of `nlohmann::json` that only the renderer uses, and `std::stod`. -/
class RenderJson (J : Type) where
  /-- `json(bool)`. -/
  ofBool : Bool → J
  /-- `json(int)`. -/
  ofInt : Int32 → J
  /-- `json(size_t)`. -/
  ofSize : ℕ → J
  /-- `json(double)`. -/
  ofDouble : Float → J
  /-- `json(std::vector<json>)`. -/
  ofArray : List J → J
  isBoolean : J → Bool
  isNumber : J → Bool
  isNumberInteger : J → Bool
  isNumberFloat : J → Bool
  isString : J → Bool
  isArray : J → Bool
  empty : J → Bool
  size : J → ℕ
  /-- The values from `begin()` to `end()`. -/
  elements : J → List J
  /-- The members of an object in the order of its iterators. -/
  items : J → List (Str × J)
  /-- `a == b`. -/
  beq : J → J → Bool
  /-- `a < b`. -/
  lt : J → J → Bool
  dump : J → Except Stop Str
  /-- `get<bool>()`. -/
  getBool : J → Except Stop Bool
  /-- `get<int>()`. -/
  getInt : J → Except Stop Int32
  /-- `get<double>()`. -/
  getDouble : J → Except Stop Float
  /-- `get<std::string>()`. -/
  getStdString : J → Except Stop Str
  /-- `get<std::vector<json>>()`. -/
  getArray : J → Except Stop (List J)
  front : J → Except Stop J
  back : J → Except Stop J
  /-- `at(size_t)`. -/
  atIndex : J → ℕ → Except Stop J
  /-- `at(json_pointer(pointer))`. -/
  atPointer : J → Str → Except Stop J
  /-- `find(key)`, unless it is `end()`. -/
  find : J → Str → Option J
  /-- `value[key] = member`. -/
  assign : J → Str → J → Except Stop J
  /-- `std::stod`. -/
  stod : Str → Except Stop Float

open NlohmannJson RenderJson

/-- `inja_throw`. -/
def throwInja {α : Type} (type message : Str) : Except Stop α :=
  throw (.runtimeError ("[inja.exception." ++ type ++ "] " ++ message))

/-- `isspace`. -/
def isSpace (ch : Char) : Bool := ch == ' ' || (9 ≤ ch.toNat && ch.toNat ≤ 13)

/-- `std::stoi`. -/
def stoi (str : Str) : Except Stop Int32 :=
  let numeral := str.dropWhile isSpace
  let signed := numeral.head? = some '-' ∨ numeral.head? = some '+'
  let digits := (if signed then numeral.drop 1 else numeral).takeWhile Char.isDigit
  let magnitude : ℤ := Nat.ofDigitChars 10 digits 0
  let number := if numeral.head? = some '-' then -magnitude else magnitude
  if digits.isEmpty then throw (.logicError "stoi: no conversion")
  else if number < -2 ^ 31 ∨ 2 ^ 31 ≤ number then throw (.logicError "stoi: out of range")
  else pure (Int32.ofInt number)

/-- `convert_dot_to_json_pointer`: each part between two dots becomes a reference token. -/
def convertDotToJsonPointer (dot : Str) : Str :=
  let part := dot.takeWhile (· != '.')
  let rest := dot.drop (part.length + 1)
  if _ : rest = [] then '/' :: part else '/' :: part ++ convertDotToJsonPointer rest
termination_by dot.length
decreasing_by
  have hpos : 0 < (dot.drop (part.length + 1)).length := List.length_pos_of_ne_nil ‹_›
  rw [List.length_drop] at hpos
  show (dot.drop (part.length + 1)).length < dot.length
  rw [List.length_drop]
  omega

variable {J : Type} [NlohmannJson J] [RenderJson J]

/-! ### The built-in functions -/

/-- `truthy`.  A `json::type_error` becomes an error of inja. -/
def truthy (var : J) : Except Stop Bool :=
  if empty var then pure false
  else if isNumber var then pure (!beq var (ofInt 0))
  else if isString var then pure (!empty var)
  else match getBool var with
    | .error (.jsonException what) => throwInja "json_error" what
    | result => result

/-- `*std::max_element(begin(), end())`, where `front()` stands for `*end()` if there are no elements. -/
def maxElement (value : J) : Except Stop J :=
  match elements value with
  | [] => front value
  | first :: rest => pure (rest.foldl (fun largest e => if lt largest e then e else largest) first)

/-- `*std::min_element(begin(), end())`. -/
def minElement (value : J) : Except Stop J :=
  match elements value with
  | [] => front value
  | first :: rest => pure (rest.foldl (fun smallest e => if lt e smallest then e else smallest) first)

/-- The `round` of `utils.cc`, to which `std::round` is linked. -/
def round (_ : Float) : Float := 0

/-- The operations that compute a value from their arguments.  `data` is what `render_to` was given, not
what a loop made of it.  `std::sort` leaves the order of equivalent elements open; here they stay in the
order they had. -/
def applyBuiltin (data : J) : Op → List J → Except Stop J
  | .upper, arg :: _ => do
      let result ← getStdString arg
      pure (string (result.map Char.toUpper))
  | .lower, arg :: _ => do
      let result ← getStdString arg
      pure (string (result.map Char.toLower))
  | .range, arg :: _ => do
      let number ← getInt arg
      if number < 0 then throw (.logicError "vector")
      else pure (ofArray ((List.range number.toInt.toNat).map fun n => ofInt (Int32.ofNat n)))
  | .length, arg :: _ =>
      if isString arg then do
        let text ← getString arg
        pure (ofInt (Int32.ofNat text.length))
      else pure (ofInt (Int32.ofNat (size arg)))
  | .sort, arg :: _ => do
      let values ← getArray arg
      pure (ofArray (values.mergeSort fun a b => !lt b a))
  | .at, container :: index :: _ => do
      let n ← getInt index
      atIndex container n.toUInt32.toNat
  | .first, arg :: _ => front arg
  | .last, arg :: _ => back arg
  | .round, arg :: digits :: _ => do
      let number ← getDouble arg
      let precision ← getInt digits
      let scale := Float.pow 10 (Float.ofInt precision.toInt)
      pure (ofDouble (round (number * scale) / scale))
  | .divisibleBy, dividend :: divisorArg :: _ => do
      let number ← getInt dividend
      let divisor ← getInt divisorArg
      -- the one quotient that overflows
      if number = Int32.minValue ∧ divisor = -1 then throw .undefinedBehaviour
      else pure (ofBool (divisor != 0 && number % divisor == 0))
  | .odd, arg :: _ => do
      let number ← getInt arg
      pure (ofBool (number % 2 != 0))
  | .even, arg :: _ => do
      let number ← getInt arg
      pure (ofBool (number % 2 == 0))
  | .max, arg :: _ => maxElement arg
  | .min, arg :: _ => minElement arg
  | .not, arg :: _ => do
      let value ← truthy arg
      pure (ofBool !value)
  | .and, left :: right :: _ => do
      if ← truthy left then
        let value ← truthy right
        pure (ofBool value)
      else pure (ofBool false)
  | .or, left :: right :: _ => do
      if ← truthy left then pure (ofBool true)
      else
        let value ← truthy right
        pure (ofBool value)
  | .in, value :: container :: _ => pure (ofBool ((elements container).any fun e => beq e value))
  | .equal, a :: b :: _ => pure (ofBool (beq a b))
  | .different, a :: b :: _ => pure (ofBool !(beq a b))
  | .less, a :: b :: _ => pure (ofBool (lt a b))
  | .greater, a :: b :: _ => pure (ofBool (lt b a))
  | .lessEqual, a :: b :: _ => pure (ofBool !(lt b a))
  | .greaterEqual, a :: b :: _ => pure (ofBool !(lt a b))
  | .float, arg :: _ => do
      let text ← getString arg
      let number ← stod (J := J) text
      pure (ofDouble number)
  | .int, arg :: _ => do
      let text ← getString arg
      let number ← stoi text
      pure (ofInt number)
  | .exists, arg :: _ => do
      let name ← getString arg
      pure (ofBool (find data name).isSome)
  | .existsInObject, container :: key :: _ => do
      let name ← getString key
      pure (ofBool (find container name).isSome)
  | .isBoolean, arg :: _ => pure (ofBool (isBoolean arg))
  | .isNumber, arg :: _ => pure (ofBool (isNumber arg))
  | .isInteger, arg :: _ => pure (ofBool (isNumberInteger arg))
  | .isFloat, arg :: _ => pure (ofBool (isNumberFloat arg))
  | .isObject, arg :: _ => pure (ofBool (isObject arg))
  | .isArray, arg :: _ => pure (ofBool (isArray arg))
  | .isString, arg :: _ => pure (ofBool (isString arg))
  -- an argument is missing
  | _, _ => throw .undefinedBehaviour

/-! ### Loops -/

/-- `LoopLevel::Type`. -/
inductive LoopType where
  | map | array
deriving DecidableEq

/-- `struct LoopLevel`.  `mapIt` is the position of `map_it` in `map_values`. -/
structure LoopLevel (J : Type) where
  loopType : LoopType
  keyName : Str := []
  valueName : Str
  data : J
  values : J
  index : ℕ := 0
  size : ℕ := 0
  mapValues : List (Str × J) := []
  mapIt : ℕ := 0

/-- `update_loop_data`: the loop's variables for the element it is at. -/
def LoopLevel.update (level : LoopLevel J) : Except Stop (LoopLevel J) :=
  match level.loopType with
  | .array => do
      let value ← atIndex level.values level.index
      let data ← assign level.data level.valueName value
      let loopData ← assign ((find data "loop").getD null) "index" (ofSize level.index)
      let loopData ← assign loopData "index1" (ofSize (level.index + 1))
      let loopData ← assign loopData "is_first" (ofBool (level.index == 0))
      let loopData ← assign loopData "is_last" (ofBool (level.index == level.size - 1))
      let data ← assign data "loop" loopData
      pure { level with data := data }
  | .map =>
      match level.mapValues[level.mapIt]? with
      | none => throw .undefinedBehaviour
      | some (key, value) => do
          let data ← assign level.data level.keyName (string key)
          let data ← assign data level.valueName value
          pure { level with data := data }

/-- The level `StartLoop` opens over `values`, before its variables are set. -/
def LoopLevel.new (bc : Bytecode J) (values data : J) : Except Stop (LoopLevel J) :=
  if isString bc.value then
    if isObject values then do
      let keyName ← getString bc.value
      let mapValues := (items values).mergeSort fun a b => !decide (b.1 < a.1)
      pure { loopType := .map, keyName := keyName, valueName := bc.str, data := data,
             values := values, mapValues := mapValues }
    else throwInja "render_error" "for key, value requires object"
  else if isArray values then
    pure { loopType := .array, valueName := bc.str, data := data, values := values,
           size := RenderJson.size values }
  else throwInja "render_error" "type must be array"

/-- The variable `loop` of an outer loop becomes `loop.parent`. -/
def LoopLevel.withParent (level : LoopLevel J) : Except Stop (LoopLevel J) :=
  match find level.data "loop" with
  | none => pure level
  | some outer => do
      let inner ← assign outer "parent" outer
      let data ← assign level.data "loop" inner
      pure { level with data := data }

/-- `level.index += 1`, `level.map_it += 1`. -/
def LoopLevel.advance (level : LoopLevel J) : LoopLevel J :=
  match level.loopType with
  | .array => { level with index := level.index + 1 }
  | .map => { level with mapIt := level.mapIt + 1 }

/-- Whether `EndLoop` leaves the loop. -/
def LoopLevel.done (level : LoopLevel J) : Bool :=
  match level.loopType with
  | .array => level.index == RenderJson.size level.values
  | .map => level.mapIt == level.mapValues.length

/-! ### One renderer -/

/-- What a bytecode may change: the loop variable `i` of `render_to`, the stack and the open loops.  The
top of a stack is the head of its list. -/
structure Registers (J : Type) where
  i : ℕ := 0
  stack : List J := []
  loopStack : List (LoopLevel J) := []

/-- An activation of `render_to` with its renderer. -/
structure Activation (J : Type) extends Registers J where
  tmpl : Template J
  data : J

/-- `*m_data`: the data of the innermost loop, or what `render_to` was given. -/
def Activation.current (a : Activation J) : J :=
  match a.loopStack with
  | level :: _ => level.data
  | [] => a.data

/-- `++i`. -/
def Registers.next (regs : Registers J) : Registers J := { regs with i := regs.i + 1 }

/-- `m_stack.emplace_back(value)`. -/
def Registers.push (regs : Registers J) (value : J) : Registers J :=
  { regs with stack := value :: regs.stack }

/-- The capacity `m_loop_stack` reserves. -/
def loopCapacity : ℕ := 16

section

variable (callbacks : Callbacks J)

/-- The value of a variable, or of the callback without arguments of that name. -/
def Activation.lookup (a : Activation J) (name pointer : Str) : Except Stop J :=
  match atPointer a.current (pointer.takeWhile (· != '\x00')) with
  | .ok value => pure value
  | .error e =>
      if e.isException then
        match findCallback callbacks name 0 with
        | some callback => callback []
        | none => throwInja "render_error" ("variable '" ++ name ++ "' not found")
      else throw e

/-- `*get_imm(bc)`.  For an operation whose value is on the stack the pointer is null. -/
def Activation.getImm (a : Activation J) (bc : Bytecode J) : Except Stop J :=
  match bc.flags with
  | .pop => throw .undefinedBehaviour
  | .immediate => pure bc.value
  | .lookupDot => a.lookup callbacks bc.str (convertDotToJsonPointer bc.str)
  | .lookupPointer => a.lookup callbacks bc.str ('/' :: bc.str)

omit [NlohmannJson J] [RenderJson J] in
/-- How many arguments are on the stack, an unsigned number. -/
def Bytecode.popArgs (bc : Bytecode J) : ℕ :=
  if bc.flags = .pop then bc.args else (bc.args + (2 ^ 32 - 1)) % 2 ^ 32

/-- `get_args`. -/
def Activation.getArgs (a : Activation J) (bc : Bytecode J) : Except Stop (List J) :=
  if a.stack.length < bc.popArgs then throw .undefinedBehaviour
  else
    let onStack := (a.stack.take bc.popArgs).reverse
    if bc.flags = .pop then pure onStack
    else do
      let value ← a.getImm callbacks bc
      pure (onStack ++ [value])

/-- `pop_args`, and the result in their place. -/
def Activation.pushResult (a : Activation J) (bc : Bytecode J) (result : J) : Registers J :=
  { a.toRegisters with stack := result :: a.stack.drop bc.popArgs, i := a.i + 1 }

/-- What `PrintValue` writes of a value. -/
def printed (val : J) : Except Stop Str := if isString val then getString val else dump val

/-- The case `PrintValue`: the text, and what comes after it. -/
def Activation.printValue (a : Activation J) (bc : Bytecode J) : Except Stop (Str × Registers J) := do
  match ← a.getArgs callbacks bc with
  | [] => throw .undefinedBehaviour
  | val :: _ =>
      let text ← printed val
      pure (text, { a.toRegisters with stack := a.stack.drop bc.popArgs, i := a.i + 1 })

/-- The case `Default`: whatever exception the immediate value raises, the stack stays as it is. -/
def Activation.applyDefault (a : Activation J) (bc : Bytecode J) : Except Stop (Registers J) :=
  match a.getImm callbacks bc with
  | .ok imm =>
      match a.stack with
      | [] => throw .undefinedBehaviour
      | _ :: rest => pure { a.toRegisters with stack := imm :: rest, i := a.i + 1 }
  | .error e => if e.isException then pure a.next else throw e

/-- The case `Callback`. -/
def Activation.applyCallback (a : Activation J) (bc : Bytecode J) : Except Stop (Registers J) :=
  match findCallback callbacks bc.str bc.args with
  | none => throwInja "render_error"
      ("function '" ++ bc.str ++ "' (" ++ Nat.toDigits 10 bc.args ++ ") not found")
  | some callback => do
      let args ← a.getArgs callbacks bc
      let result ← callback args
      pure (a.pushResult bc result)

/-- The case `ConditionalJump`. -/
def Activation.conditionalJump (a : Activation J) (bc : Bytecode J) : Except Stop (Registers J) :=
  match a.stack with
  | [] => throw .undefinedBehaviour
  | top :: rest => do
      let holds ← truthy top
      pure { a.toRegisters with stack := rest, i := if holds then a.i + 1 else bc.args }

/-- The case `StartLoop`.  When all the reserved levels are in use, a new one moves them, and `m_data` no
longer points to the data of the innermost one. -/
def Activation.startLoop (a : Activation J) (bc : Bytecode J) : Except Stop (Registers J) :=
  match a.stack with
  | [] => throw .undefinedBehaviour
  | values :: rest =>
      if empty values then pure { a.toRegisters with stack := rest, i := bc.args + 1 }
      else if loopCapacity ≤ a.loopStack.length then throw .undefinedBehaviour
      else do
        let level ← LoopLevel.new bc values a.current
        let level ← level.withParent
        let level ← level.update
        pure { stack := rest, loopStack := level :: a.loopStack, i := a.i + 1 }

/-- The case `EndLoop`. -/
def Activation.endLoop (a : Activation J) (bc : Bytecode J) : Except Stop (Registers J) :=
  match a.loopStack with
  | [] => throwInja "render_error" "unexpected state in renderer"
  | level :: outer =>
      let level := level.advance
      if level.done then pure { a.toRegisters with loopStack := outer, i := a.i + 1 }
      else do
        let level ← level.update
        pure { a.toRegisters with loopStack := level :: outer, i := bc.args }

end

/-! ### The run of a template -/

/-- What all renderers of one environment refer to: `m_included_templates` and `m_callbacks`. -/
structure Renderer (J : Type) where
  includedTemplates : Dict (Template J)
  callbacks : Callbacks J

/-- What a bytecode does: it writes a text and goes on, or another template is to be rendered first. -/
inductive Effect (J : Type) where
  | goOn (text : Str) (regs : Registers J)
  | render (tmpl : Template J)

/-- The effect of an operation that writes nothing. -/
def silent (result : Except Stop (Registers J)) : Except Stop (Effect J) := result.map (.goOn [])

/-- The case `Include`: `m_included_templates.find(name)->second`, where a name that is not found leaves
the end iterator to be dereferenced. -/
def Renderer.findIncluded (env : Renderer J) (a : Activation J) (bc : Bytecode J) :
    Except Stop (Effect J) := do
  let value ← a.getImm env.callbacks bc
  let name ← getString value
  match env.includedTemplates.lookup name with
  | some tmpl => pure (.render tmpl)
  | none => throw .undefinedBehaviour

/-- The `switch` of `render_to`. -/
def Renderer.execute (env : Renderer J) (a : Activation J) (bc : Bytecode J) :
    Except Stop (Effect J) :=
  match bc.op with
  | .nop => silent (pure a.next)
  | .printText => pure (.goOn bc.str a.next)
  | .printValue => (a.printValue env.callbacks bc).map fun r => .goOn r.1 r.2
  | .push => silent ((a.getImm env.callbacks bc).map fun value => a.next.push value)
  | .default => silent (a.applyDefault env.callbacks bc)
  | .include => env.findIncluded a bc
  | .callback => silent (a.applyCallback env.callbacks bc)
  | .jump => silent (pure { a.toRegisters with i := bc.args })
  | .conditionalJump => silent (a.conditionalJump bc)
  | .startLoop => silent (a.startLoop bc)
  | .endLoop => silent (a.endLoop bc)
  -- no case of the `switch`
  | .result => throwInja "render_error" "unknown op in renderer: 27"
  | op => silent do
      let args ← a.getArgs env.callbacks bc
      let result ← applyBuiltin a.data op args
      pure (a.pushResult bc result)

/-- A state of the run: the output, the activation at work, and those that wait for it, the innermost
first. -/
structure Rendering (J : Type) where
  os : Str := []
  activation : Activation J
  callers : List (Activation J) := []

/-- The call `render_to(os, tmpl, data)`. -/
def Rendering.start (tmpl : Template J) (data : J) : Rendering J :=
  { activation := { tmpl := tmpl, data := data } }

/-- The bytecode that is executed next. -/
def Rendering.bytecode? (r : Rendering J) : Option (Bytecode J) :=
  r.activation.tmpl.bytecodes[r.activation.i]?

/-- The next bytecode is an `Include`: the state is about to look up an included template. -/
def Rendering.AtInclude (r : Rendering J) : Prop := ∃ bc, r.bytecode? = some bc ∧ bc.op = .include

/-- The state after the next bytecode.  Behind the last one an activation returns to the one that waits for
it, and the first one ends the run. -/
def Renderer.step (env : Renderer J) (r : Rendering J) : Except Stop (Option (Rendering J)) :=
  match r.bytecode? with
  | some bc => do
      match ← env.execute r.activation bc with
      | .goOn text regs => pure (some { r with
          os := r.os ++ text, activation := { r.activation with toRegisters := regs } })
      | .render tmpl => pure (some { r with
          activation := { tmpl := tmpl, data := r.activation.current }
          callers := r.activation :: r.callers })
  | none =>
      match r.callers with
      | [] => pure none
      | caller :: callers => pure (some { r with
          activation := { caller with toRegisters := caller.next }, callers := callers })

/-- One step of the run. -/
def Renderer.Step (env : Renderer J) (r s : Rendering J) : Prop := env.step r = .ok (some s)

/-- The run of `tmpl` on `data` passes through `r`. -/
def Renderer.Reaches (env : Renderer J) (tmpl : Template J) (data : J) (r : Rendering J) : Prop :=
  Relation.ReflTransGen env.Step (Rendering.start tmpl data) r

/-- The run returns, having written `text`. -/
def Renderer.Returns (env : Renderer J) (tmpl : Template J) (data : J) (text : Str) : Prop :=
  ∃ r, env.Reaches tmpl data r ∧ env.step r = .ok none ∧ r.os = text

end EnvoyWasmFilters.Inja
