import EnvoyWasmFilters.Inja.Compile
import EnvoyWasmFilters.Inja.Tokens

/-!
# The grammar of inja expressions

Which tokens are an expression, and which one.  `Derives level toks e rest` says that `toks` begins with the
expression `e` of the level in question and goes on with `rest`.  A production looks at the token behind it where
the parser does, so that `and` does not end an operand of `or` too early.

Inside the brackets and braces of a JSON value only numbers, strings, `true`, `false`, `null`, commas and colons
belong to the value.  At anything else that begins a datum the parser forgets the value: `[ 1, user` is the
variable `user`.
-/

namespace EnvoyWasmFilters.Inja

variable {J : Type}

/-- The identifiers that are JSON values. -/
def Token.JsonWord (tok : Token) : Prop := tok.text = "true" ∨ tok.text = "false" ∨ tok.text = "null"

instance (tok : Token) : Decidable tok.JsonWord := inferInstanceAs (Decidable (_ ∨ _ ∨ _))

/-- The function of a name: a built-in one with that many arguments, or else a callback. -/
def Func.named (name : Str) (n : ℕ) : Func :=
  if hcomputes : (findBuiltin name n).computes = true then .builtin (findBuiltin name n) hcomputes
  else .callback name

/-- The expression a call stands for. -/
def Expr.call (name : Str) (args : List (Expr J)) : Expr J :=
  match findBuiltin name args.length, args with
  | .default, [first, second] => .default first second
  | _, args => .apply (Func.named name args.length) args

/-- A binary operation. -/
def Expr.binary (op : Op) (hcomputes : op.computes = true) (left right : Expr J) : Expr J :=
  .apply (.builtin op hcomputes) [left, right]

/-- What an expression is an operand of.  A datum is inside `bracketLevel` brackets and `braceLevel` braces, the
first of which is at the position `first` of the text. -/
inductive Level where
  | datum (first bracketLevel braceLevel : ℕ)
  | comparison
  | negation
  | conjunction
  | disjunction

/-- A scalar of JSON: a number, a string, or a word that is not called. -/
def Scalar (tok : Token) (rest : List Token) : Prop :=
  tok.kind = .number ∨ tok.kind = .string ∨ (tok.kind = .id ∧ look rest ≠ .leftParen ∧ tok.JsonWord)

/-- The arguments of a call, up to and including the right parenthesis. -/
inductive Arguments (operand : List Token → Expr J → List Token → Prop) :
    List Token → List (Expr J) → List Token → Prop
  | last {toks rest : List Token} {e : Expr J} {close : Token} (hlast : operand toks e (close :: rest))
      (hclose : close.kind = .rightParen) : Arguments operand toks [e] rest
  | more {toks others rest : List Token} {e : Expr J} {es : List (Expr J)} {comma : Token}
      (hfirst : operand toks e (comma :: others)) (hcomma : comma.kind = .comma)
      (hmore : Arguments operand others es rest) : Arguments operand toks (e :: es) rest

variable [NlohmannJson J]

/-- The characters from `first` to the end of `tok` are the JSON value `value`. -/
def JsonText (input : Str) (first : ℕ) (tok : Token) (value : J) : Prop :=
  NlohmannJson.parse (slice input first (tok.start + tok.text.length)) = .ok value

/-- **The grammar.** -/
inductive Derives (input : Str) : Level → List Token → Expr J → List Token → Prop
  /-- A variable. -/
  | var {first bracket brace : ℕ} {tok : Token} {rest : List Token} (hid : tok.kind = .id)
      (hcall : look rest ≠ .leftParen) (hword : ¬ tok.JsonWord) :
      Derives input (.datum first bracket brace) (tok :: rest) (.var tok.text) rest
  /-- An expression in parentheses. -/
  | paren {first bracket brace : ℕ} {left right : Token} {toks rest : List Token} {e : Expr J}
      (hleft : left.kind = .leftParen) (he : Derives input .disjunction toks e (right :: rest))
      (hright : right.kind = .rightParen) : Derives input (.datum first bracket brace) (left :: toks) e rest
  /-- A call without arguments. -/
  | call0 {first bracket brace : ℕ} {func left right : Token} {rest : List Token} (hid : func.kind = .id)
      (hleft : left.kind = .leftParen) (hright : right.kind = .rightParen) :
      Derives input (.datum first bracket brace) (func :: left :: right :: rest) (.call func.text []) rest
  /-- A call. -/
  | call {first bracket brace : ℕ} {func left : Token} {toks rest : List Token} {args : List (Expr J)}
      (hid : func.kind = .id) (hleft : left.kind = .leftParen) (hargs : look toks ≠ .rightParen)
      (harguments : Arguments (Derives input .disjunction) toks args rest) :
      Derives input (.datum first bracket brace) (func :: left :: toks) (.call func.text args) rest
  /-- A scalar by itself. -/
  | scalar {first : ℕ} {tok : Token} {rest : List Token} {value : J} (hscalar : Scalar tok rest)
      (hvalue : JsonText input tok.start tok value) :
      Derives input (.datum first 0 0) (tok :: rest) (.literal value) rest
  /-- A part of a JSON value. -/
  | part {first bracket brace : ℕ} {tok : Token} {toks rest : List Token} {e : Expr J}
      (hinside : ¬ (brace = 0 ∧ bracket = 0))
      (hpart : Scalar tok toks ∨ tok.kind = .comma ∨ tok.kind = .colon)
      (he : Derives input (.datum first bracket brace) toks e rest) :
      Derives input (.datum first bracket brace) (tok :: toks) e rest
  | leftBracket {first bracket brace : ℕ} {tok : Token} {toks rest : List Token} {e : Expr J}
      (htok : tok.kind = .leftBracket)
      (he : Derives input (.datum (if brace = 0 ∧ bracket = 0 then tok.start else first) (bracket + 1) brace)
        toks e rest) : Derives input (.datum first bracket brace) (tok :: toks) e rest
  | leftBrace {first bracket brace : ℕ} {tok : Token} {toks rest : List Token} {e : Expr J}
      (htok : tok.kind = .leftBrace)
      (he : Derives input (.datum (if brace = 0 ∧ bracket = 0 then tok.start else first) bracket (brace + 1))
        toks e rest) : Derives input (.datum first bracket brace) (tok :: toks) e rest
  | rightBracket {first bracket brace : ℕ} {tok : Token} {toks rest : List Token} {e : Expr J}
      (htok : tok.kind = .rightBracket) (hlast : ¬ (brace = 0 ∧ bracket = 0))
      (he : Derives input (.datum first bracket brace) toks e rest) :
      Derives input (.datum first (bracket + 1) brace) (tok :: toks) e rest
  | rightBrace {first bracket brace : ℕ} {tok : Token} {toks rest : List Token} {e : Expr J}
      (htok : tok.kind = .rightBrace) (hlast : ¬ (brace = 0 ∧ bracket = 0))
      (he : Derives input (.datum first bracket brace) toks e rest) :
      Derives input (.datum first bracket (brace + 1)) (tok :: toks) e rest
  /-- The end of an array. -/
  | array {first : ℕ} {tok : Token} {rest : List Token} {value : J} (htok : tok.kind = .rightBracket)
      (hvalue : JsonText input first tok value) :
      Derives input (.datum first 1 0) (tok :: rest) (.literal value) rest
  /-- The end of an object. -/
  | object {first : ℕ} {tok : Token} {rest : List Token} {value : J} (htok : tok.kind = .rightBrace)
      (hvalue : JsonText input first tok value) :
      Derives input (.datum first 0 1) (tok :: rest) (.literal value) rest
  | datum {toks rest : List Token} {e : Expr J} (he : Derives input (.datum 0 0 0) toks e rest)
      (hnext : rest.head?.bind comparisonOp = none) : Derives input .comparison toks e rest
  | compare {toks toks' rest : List Token} {left right : Expr J} {tok : Token} {op : Op}
      (hleft : Derives input (.datum 0 0 0) toks left (tok :: toks')) (hop : comparisonOp tok = some op)
      (hcomputes : op.computes = true) (hright : Derives input (.datum 0 0 0) toks' right rest) :
      Derives input .comparison toks (.binary op hcomputes left right) rest
  | comparison {toks rest : List Token} {e : Expr J} (hnot : ¬ toks.head?.any (·.isWord "not"))
      (he : Derives input .comparison toks e rest) : Derives input .negation toks e rest
  | not {tok : Token} {toks rest : List Token} {e : Expr J} (hnot : tok.isWord "not")
      (he : Derives input .negation toks e rest) :
      Derives input .negation (tok :: toks) (.apply (.builtin .not rfl) [e]) rest
  | negation {toks rest : List Token} {e : Expr J} (he : Derives input .negation toks e rest)
      (hnext : ¬ rest.head?.any (·.isWord "and")) : Derives input .conjunction toks e rest
  | and {toks toks' rest : List Token} {left right : Expr J} {tok : Token}
      (hleft : Derives input .negation toks left (tok :: toks')) (hand : tok.isWord "and")
      (hright : Derives input .negation toks' right rest) :
      Derives input .conjunction toks (.binary .and rfl left right) rest
  | conjunction {toks rest : List Token} {e : Expr J} (he : Derives input .conjunction toks e rest)
      (hnext : ¬ rest.head?.any (·.isWord "or")) : Derives input .disjunction toks e rest
  | or {toks toks' rest : List Token} {left right : Expr J} {tok : Token}
      (hleft : Derives input .conjunction toks left (tok :: toks')) (hor : tok.isWord "or")
      (hright : Derives input .conjunction toks' right rest) :
      Derives input .disjunction toks (.binary .or rfl left right) rest

end EnvoyWasmFilters.Inja
