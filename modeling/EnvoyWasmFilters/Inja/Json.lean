import EnvoyWasmFilters.Inja.Syntax

/-!
# JSON values

A type of JSON values with the operations of `nlohmann::json` that templates use, so that templates can be run on
data.  There are no floating-point numbers, the strings have no characters that JSON escapes, and of JSON text only
scalars are parsed; on anything else the operations throw.

The members of an object are in the order of their names, the order in which `std::map` keeps them.
-/

namespace EnvoyWasmFilters.Inja

/-- A JSON value. -/
inductive Json where
  | null
  | bool (b : Bool)
  | int (n : ℤ)
  | string (text : Str)
  | array (elements : List Json)
  | object (members : List (Str × Json))

namespace Json

/-- The order of the types: `null < boolean < number < object < array < string`. -/
def rank : Json → ℕ
  | .null => 0
  | .bool _ => 1
  | .int _ => 2
  | .object _ => 3
  | .array _ => 4
  | .string _ => 5

def typeName : Json → Str
  | .null => "null"
  | .bool _ => "boolean"
  | .int _ => "number"
  | .object _ => "object"
  | .array _ => "array"
  | .string _ => "string"

def throwType {α : Type} (expected : Str) (value : Json) : Except Stop α :=
  throw (.jsonException ("[json.exception.type_error.302] type must be " ++ expected ++ ", but is " ++ value.typeName))

/-- The comparison of two keys. -/
def compareKeys (a b : Str) : Ordering := if a < b then .lt else if a = b then .eq else .gt

mutual

/-- The order of values: within a type by their contents, otherwise by the type. -/
def compare : Json → Json → Ordering
  | .bool a, .bool b => Ord.compare a b
  | .int a, .int b => Ord.compare a b
  | .string a, .string b => compareKeys a b
  | .array as, .array bs => compareAll as bs
  | .object as, .object bs => compareMembers as bs
  | a, b => Ord.compare a.rank b.rank

def compareAll : List Json → List Json → Ordering
  | [], [] => .eq
  | [], _ :: _ => .lt
  | _ :: _, [] => .gt
  | a :: as, b :: bs => (compare a b).then (compareAll as bs)

def compareMembers : List (Str × Json) → List (Str × Json) → Ordering
  | [], [] => .eq
  | [], _ :: _ => .lt
  | _ :: _, [] => .gt
  | (k, a) :: as, (l, b) :: bs => ((compareKeys k l).then (compare a b)).then (compareMembers as bs)

end

/-- A string in quotes. -/
def quoted (text : Str) : Str := '"' :: text ++ ['"']

/-- A decimal integer. -/
def intText : ℤ → Str
  | .ofNat n => Nat.toDigits 10 n
  | .negSucc n => '-' :: Nat.toDigits 10 (n + 1)

mutual

/-- `dump`. -/
def text : Json → Str
  | .null => "null"
  | .bool b => if b then "true" else "false"
  | .int n => intText n
  | .string text => quoted text
  | .array elements => '[' :: List.intercalate [','] (texts elements) ++ [']']
  | .object members => '\x7b' :: List.intercalate [','] (memberTexts members) ++ ['\x7d']

def texts : List Json → List Str
  | [] => []
  | value :: values => value.text :: texts values

def memberTexts : List (Str × Json) → List Str
  | [] => []
  | (key, value) :: members => (quoted key ++ ':' :: value.text) :: memberTexts members

end

/-- `json::parse` on a scalar. -/
def parse : Str → Except Stop Json
  | '"' :: rest =>
      match rest.reverse with
      | '"' :: body =>
          if '"' ∈ body ∨ '\\' ∈ body then throw (.jsonException "parse_error")
          else pure (.string body.reverse)
      | _ => throw (.jsonException "parse_error")
  | text =>
      if text = "null" then pure .null
      else if text = "true" then pure (.bool true)
      else if text = "false" then pure (.bool false)
      else if text.all Char.isDigit && !text.isEmpty then pure (.int (Nat.ofDigitChars 10 text 0))
      else throw (.jsonException "parse_error")

/-- The values from `begin()` to `end()`. -/
def elements : Json → List Json
  | .null => []
  | .array elements => elements
  | .object members => members.map Prod.snd
  | value => [value]

/-- `front()` and `back()`: of a container without elements they are undefined. -/
def endOf (pick : List Json → Option Json) (value : Json) : Except Stop Json :=
  match value with
  | .null => throw (.jsonException "[json.exception.invalid_iterator.214] cannot get value")
  | value => match pick value.elements with
    | some element => pure element
    | none => throw .undefinedBehaviour

/-- The member called `key`. -/
def member (key : Str) : Json → Option Json
  | .object members => (members.find? fun m => m.1 == key).map Prod.snd
  | _ => none

/-- `value[key] = member`: the members stay in the order of their names. -/
def insert (key : Str) (value : Json) : List (Str × Json) → List (Str × Json)
  | [] => [(key, value)]
  | m :: members =>
      if key < m.1 then (key, value) :: m :: members
      else if key = m.1 then (key, value) :: members
      else m :: insert key value members

/-- `at(json_pointer(pointer))`, one reference token after the other. -/
def resolve : List Str → Json → Except Stop Json
  | [], value => pure value
  | key :: keys, .object members =>
      match (Json.object members).member key with
      | some value => resolve keys value
      | none => throw (.jsonException ("[json.exception.out_of_range.403] key '" ++ key ++ "' not found"))
  | key :: keys, .array elements =>
      if key.all Char.isDigit && !key.isEmpty then
        match elements[Nat.ofDigitChars 10 key 0]? with
        | some value => resolve keys value
        | none => throw (.jsonException ("[json.exception.out_of_range.401] array index " ++ key ++ " is out of range"))
      else throw (.jsonException ("[json.exception.parse_error.109] array index '" ++ key ++ "' is not a number"))
  | key :: _, _ => throw (.jsonException ("[json.exception.out_of_range.404] unresolved reference token '" ++ key ++ "'"))

end Json

instance : NlohmannJson Json where
  null := .null
  string := .string
  parse := Json.parse
  getString := fun value => match value with
    | .string text => pure text
    | value => value.throwType "string"
  isObject := fun value => match value with
    | .object _ => true
    | _ => false

instance : RenderJson Json where
  ofBool := .bool
  ofInt := fun n => .int n.toInt
  ofSize := fun n => .int n
  ofDouble := fun _ => .null
  ofArray := .array
  isBoolean := fun value => value.rank == 1
  isNumber := fun value => value.rank == 2
  isNumberInteger := fun value => value.rank == 2
  isNumberFloat := fun _ => false
  isString := fun value => value.rank == 5
  isArray := fun value => value.rank == 4
  empty := fun value => value.elements.isEmpty
  size := fun value => value.elements.length
  elements := Json.elements
  items := fun value => match value with
    | .object members => members
    | _ => []
  beq := fun a b => a.compare b == .eq
  lt := fun a b => a.compare b == .lt
  dump := fun value => pure value.text
  getBool := fun value => match value with
    | .bool b => pure b
    | value => value.throwType "boolean"
  getInt := fun value => match value with
    | .int n => pure (Int32.ofInt n)
    | .bool b => pure (if b then 1 else 0)
    | value => value.throwType "number"
  getDouble := fun value => match value with
    | .int n => pure (Float.ofInt n)
    | .bool b => pure (if b then 1 else 0)
    | value => value.throwType "number"
  getStdString := fun value => match value with
    | .string text => pure text
    | value => value.throwType "string"
  getArray := fun value => match value with
    | .array elements => pure elements
    | value => value.throwType "array"
  front := Json.endOf List.head?
  back := Json.endOf List.getLast?
  atIndex := fun value n => match value with
    | .array elements => match elements[n]? with
      | some element => pure element
      | none => throw (.jsonException "[json.exception.out_of_range.401] array index is out of range")
    | value => throw (.jsonException ("[json.exception.type_error.304] cannot use at() with " ++ value.typeName))
  atPointer := fun value pointer => (pointer.splitOn '/').tail |> fun keys => value.resolve keys
  find := fun value key => value.member key
  assign := fun value key m => match value with
    | .null => pure (.object [(key, m)])
    | .object members => pure (.object (Json.insert key m members))
    | value => throw (.jsonException
        ("[json.exception.type_error.305] cannot use operator[] with a string argument with " ++ value.typeName))
  stod := fun text =>
    if text.all Char.isDigit && !text.isEmpty then pure (Float.ofNat (Nat.ofDigitChars 10 text 0))
    else throw (.logicError "stod: no conversion")

instance : LawfulJson Json where
  isString_null := rfl
  isString_string := fun _ => rfl
  getString_string := fun _ => rfl
  size_pos := by
    intro value _ hempty
    have hne : value.elements ≠ [] := by simpa [RenderJson.empty] using hempty
    exact List.length_pos_of_ne_nil hne

end EnvoyWasmFilters.Inja
