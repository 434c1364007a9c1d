import EnvoyWasmFilters.Common.Runtime

/-!
# inja bytecode and the built-in functions

`struct Bytecode`, `struct Template` and the table `ParserStatic` fills in.  JSON values belong to
the `nlohmann::json` library, which is not part of the repository: `NlohmannJson` lists the
operations the parser and the transformer call, on an arbitrary type of values.
-/

namespace EnvoyWasmFilters.Inja

/-- The operations of `nlohmann::json` the filter uses. -/
class NlohmannJson (J : Type) where
  /-- `json()`. -/
  null : J
  /-- `json(std::string)`. -/
  string : Str → J
  /-- `json::parse`. -/
  parse : Str → Except Stop J
  /-- `get_ref<const std::string&>()`, which throws on a value that is no string. -/
  getString : J → Except Stop Str
  /-- `is_object()`. -/
  isObject : J → Bool

/-- `Bytecode::Op`. -/
inductive Op where
  | nop | printText | printValue | push
  | not | and | or | in | equal | greater | greaterEqual | less | lessEqual | at | different
  | divisibleBy | even | first | float | int | last | length | lower | max | min | odd | range
  | result | round | sort | upper | exists | existsInObject
  | isBoolean | isNumber | isInteger | isFloat | isObject | isArray | isString | default
  | include | callback | jump | conditionalJump | startLoop | endLoop
deriving DecidableEq

/-- `Bytecode::Flag`: where the value of a value-taking operation is. -/
inductive ValueFlag where
  | pop | immediate | lookupDot | lookupPointer
deriving DecidableEq

/-- `struct Bytecode`. -/
structure Bytecode (J : Type) where
  op : Op
  args : ℕ := 0
  flags : ValueFlag := .pop
  value : J
  str : Str := []
deriving DecidableEq

/-- `struct Template`. -/
structure Template (J : Type) where
  bytecodes : List (Bytecode J) := []
  content : Str := []
deriving DecidableEq

/-- The functions `ParserStatic` registers, with their number of arguments. -/
def builtins : List (Str × ℕ × Op) :=
  [("at", 2, .at), ("default", 2, .default), ("divisibleBy", 2, .divisibleBy), ("even", 1, .even),
   ("first", 1, .first), ("float", 1, .float), ("int", 1, .int), ("last", 1, .last),
   ("length", 1, .length), ("lower", 1, .lower), ("max", 1, .max), ("min", 1, .min),
   ("odd", 1, .odd), ("range", 1, .range), ("round", 2, .round), ("sort", 1, .sort),
   ("upper", 1, .upper), ("exists", 1, .exists), ("existsIn", 2, .existsInObject),
   ("isBoolean", 1, .isBoolean), ("isNumber", 1, .isNumber), ("isInteger", 1, .isInteger),
   ("isFloat", 1, .isFloat), ("isObject", 1, .isObject), ("isArray", 1, .isArray),
   ("isString", 1, .isString)]

/-- `FunctionStorage::find_builtin`: `Op::Nop` when no function of that name takes that many
arguments. -/
def findBuiltin (name : Str) (numArgs : ℕ) : Op :=
  match builtins.find? fun b => b.1 == name && b.2.1 == numArgs with
  | some (_, _, op) => op
  | none => .nop

/-- `FunctionStorage` as an environment's callback table: the name, the number of arguments and the
function of each callback. -/
abbrev Callbacks (J : Type) := List ((Str × ℕ) × (List J → Except Stop J))

/-- `FunctionStorage::find_callback`. -/
def findCallback {J : Type} (callbacks : Callbacks J) (name : Str) (numArgs : ℕ) :
    Option (List J → Except Stop J) :=
  (callbacks.find? fun c => c.1 == (name, numArgs)).map Prod.snd

end EnvoyWasmFilters.Inja
