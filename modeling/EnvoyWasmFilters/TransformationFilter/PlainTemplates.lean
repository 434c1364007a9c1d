import EnvoyWasmFilters.Inja.Renderer
import EnvoyWasmFilters.TransformationFilter.Filter

/-!
# Plain templates

The libraries the transformer is parameterised by, on the inputs that templates of plain text and
calls of `header("…")` and `extraction("…")` give them: JSON values that are null or a string, the
renderer's loop on the bytecodes such templates compile to, and regular expressions without
metacharacters.  On everything else these instances throw, as the libraries would for one reason or
another; they serve to run the filter on concrete messages.
-/

namespace EnvoyWasmFilters.TransformationFilter

open Inja

/-- A JSON value that is null or a string. -/
inductive PlainJson where
  | null
  | string (value : Str)
deriving DecidableEq

/-- `json::parse` on a string literal without escapes. -/
def PlainJson.parse : Str → Except Stop PlainJson
  | '"' :: rest =>
      match rest.reverse with
      | '"' :: body =>
          if '"' ∈ body ∨ '\\' ∈ body then throw (.jsonException "parse_error")
          else pure (.string body.reverse)
      | _ => throw (.jsonException "parse_error")
  | text => if text = "null" then pure .null else throw (.jsonException "parse_error")

/-- `get_ref<const std::string&>()`. -/
def PlainJson.getString : PlainJson → Except Stop Str
  | .string value => pure value
  | .null => throw (.jsonException "incompatible ReferenceType for get_ref, actual type is null")

instance : NlohmannJson PlainJson where
  null := .null
  string := .string
  parse := PlainJson.parse
  getString := PlainJson.getString
  isObject := fun _ => false

/-- The error of an operation for another type of values. -/
def PlainJson.typeError {α : Type} (expected : Str) : PlainJson → Except Stop α
  | .string _ => throw (.jsonException ("type must be " ++ expected ++ ", but is string"))
  | .null => throw (.jsonException ("type must be " ++ expected ++ ", but is null"))

/-- The only element of a string, when it is iterated over. -/
def PlainJson.elements : PlainJson → List PlainJson
  | .string value => [.string value]
  | .null => []

/-- `front()` and `back()`. -/
def PlainJson.only : PlainJson → Except Stop PlainJson
  | .string value => pure (.string value)
  | .null => throw (.jsonException "cannot get value")

/-- `a < b`: null comes before every string. -/
def PlainJson.lt : PlainJson → PlainJson → Bool
  | .null, .string _ => true
  | .string a, .string b => decide (a < b)
  | _, .null => false

/-- Where the library would make a value of another type there is null. -/
instance : RenderJson PlainJson where
  ofBool := fun _ => .null
  ofInt := fun _ => .null
  ofSize := fun _ => .null
  ofDouble := fun _ => .null
  ofArray := fun _ => .null
  isBoolean := fun _ => false
  isNumber := fun _ => false
  isNumberInteger := fun _ => false
  isNumberFloat := fun _ => false
  isString := fun value => decide (value ≠ .null)
  isArray := fun _ => false
  empty := fun value => decide (value = .null)
  size := fun value => value.elements.length
  elements := PlainJson.elements
  items := fun _ => []
  beq := fun a b => decide (a = b)
  lt := PlainJson.lt
  dump := fun value => match value with
    | .string text => pure ('"' :: text ++ ['"'])
    | .null => pure "null"
  getBool := PlainJson.typeError "boolean"
  getInt := PlainJson.typeError "number"
  getDouble := PlainJson.typeError "number"
  getStdString := fun value => match value with
    | .string text => pure text
    | .null => value.typeError "string"
  getArray := PlainJson.typeError "array"
  front := PlainJson.only
  back := PlainJson.only
  atIndex := fun value _ => value.typeError "array"
  atPointer := fun value pointer =>
    if pointer = [] then pure value else throw (.jsonException "unresolved reference token")
  find := fun _ _ => none
  assign := fun value _ _ => value.typeError "object"
  stod := fun _ => throw (.logicError "stod: no conversion")

/-- What `print_value` writes. -/
def PlainJson.print : PlainJson → Str
  | .null => "null"
  | .string value => value

/-- `inja_throw("render_error", …)`. -/
def throwRender {α : Type} (message : Str) : Except Stop α :=
  throw (.runtimeError ("[inja.exception.render_error] " ++ message))

/-- `get_imm`: the value in the bytecode, or that of the variable it names.  The data has no
variables, so that only a callback without arguments can stand for one. -/
def immediate (callbacks : Callbacks PlainJson) (bc : Bytecode PlainJson) : Except Stop PlainJson :=
  if bc.flags = .immediate then pure bc.value
  else match findCallback callbacks bc.str 0 with
    | some function => function []
    | none => throwRender ("variable '" ++ bc.str ++ "' not found")

/-- `get_args`: the arguments of an operation, the last of which is in the bytecode itself unless it
is taken from the stack.  The top of the stack is its head. -/
def getArgs (callbacks : Callbacks PlainJson) (bc : Bytecode PlainJson) (stack : List PlainJson) :
    Except Stop (List PlainJson) :=
  if bc.flags = .pop then pure (stack.take bc.args).reverse
  else do
    let value ← immediate callbacks bc
    pure ((stack.take (bc.args - 1)).reverse ++ [value])

/-- `pop_args`. -/
def popArgs (bc : Bytecode PlainJson) (stack : List PlainJson) : List PlainJson :=
  if bc.flags = .pop then stack.drop bc.args else stack.drop (bc.args - 1)

/-- `render_to` on the operations of plain templates. -/
def renderPlain (callbacks : Callbacks PlainJson) :
    List PlainJson → List (Bytecode PlainJson) → Except Stop Str
  | _, [] => pure []
  | stack, bc :: bcs =>
      match bc.op with
      | .printText => do
          let rest ← renderPlain callbacks stack bcs
          pure (bc.str ++ rest)
      | .printValue => do
          let args ← getArgs callbacks bc stack
          let rest ← renderPlain callbacks (popArgs bc stack) bcs
          pure (args.flatMap PlainJson.print ++ rest)
      | .push => do
          let value ← immediate callbacks bc
          renderPlain callbacks (value :: stack) bcs
      | .callback =>
          match findCallback callbacks bc.str bc.args with
          | none => throwRender ("function '" ++ bc.str ++ "' not found")
          | some function => do
              let args ← getArgs callbacks bc stack
              let value ← function args
              renderPlain callbacks (value :: popArgs bc stack) bcs
      | _ => throwRender "unexpected state in renderer"

instance : InjaRenderer PlainJson where
  render := fun callbacks tmpl _ => renderPlain callbacks [] tmpl.bytecodes

/-- A regular expression without metacharacters. -/
structure PlainRegex where
  pattern : Str
deriving DecidableEq

/-- `std::regex_match` compares the whole text. -/
instance : StdRegex PlainRegex where
  compile := fun pattern =>
    if pattern.all Char.isAlphanum then pure ⟨pattern⟩
    else throw (.regexError "The expression contained mismatched ( and ).")
  markCount := fun _ => 0
  regexMatch := fun regex text =>
    pure (if text = regex.pattern then some [some text] else none)

/-- A transformation without extractors. -/
def Transformation.ofHeaders (headers : Dict InjaTemplate) : Transformation :=
  { extractors := ∅, headers := headers }

end EnvoyWasmFilters.TransformationFilter
