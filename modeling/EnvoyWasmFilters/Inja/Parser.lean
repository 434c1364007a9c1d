import EnvoyWasmFilters.Inja.Bytecode
import EnvoyWasmFilters.Inja.Lexer
import EnvoyWasmFilters.Library.StateExcept

/-!
# The inja parser

The `Parser` of `inja.hpp`: recursive descent over the lexer's tokens, emitting bytecode into the
template under construction and patching jumps through two stacks of open blocks.

The source recurses and loops without a bound.  Here every loop and the recursion through
parenthesised expressions carry a counter, and `none` is the error of a counter that ran out; the
functions below the recursion take the recursive call as an argument.  `Parser.parse` starts the
counter at a value that `parseInto_spec` proves sufficient for every template, so that it is a total
function with the source's own outcomes.
-/

namespace EnvoyWasmFilters.Inja

open StateExcept

variable {J : Type} [NlohmannJson J]

/-- `Parser::IfData`.  `prevCondJump` is `none` where the source stores
`std::numeric_limits<unsigned int>::max()`. -/
structure IfData where
  prevCondJump : Option ℕ
  uncondJumps : List ℕ
deriving DecidableEq

/-- The members of `class Parser`; `m_have_peek_tok` says whether `m_peek_tok` is there.  The top
of a stack is the head of its list. -/
structure Parser (J : Type) where
  lexer : Lexer := {}
  tok : Token := {}
  peekTok : Option Token := none
  ifStack : List IfData := []
  loopStack : List ℕ := []
  includedTemplates : Dict (Template J) := ∅

/-- A parser at work on the template `tmpl`. -/
structure Parsing (J : Type) extends Parser J where
  tmpl : Template J

/-- A parsing action: it may stop as the source does, or (`none`) because its counter ran out. -/
abbrev ParseM (J : Type) := StateT (Parsing J) (Except (Option Stop))

/-- `inja_throw`. -/
def injaThrow {α : Type} (type message : Str) : ParseM J α :=
  throw (some (.runtimeError ("[inja.exception." ++ type ++ "] " ++ message)))

/-- A call of `nlohmann::json` that may throw. -/
def liftJson {α : Type} : Except Stop α → ParseM J α
  | .ok a => pure a
  | .error e => throw (some e)

/-- The effect of `get_next_token`. -/
def Parsing.nextToken (s : Parsing J) : Parsing J :=
  match s.peekTok with
  | some tok => { s with tok := tok, peekTok := none }
  | none => { s with tok := s.lexer.scan.1, lexer := s.lexer.scan.2 }

/-- The effect of `get_peek_token`. -/
def Parsing.peekToken (s : Parsing J) : Parsing J :=
  match s.peekTok with
  | some _ => s
  | none => { s with peekTok := some s.lexer.scan.1, lexer := s.lexer.scan.2 }

def getNextToken : ParseM J Unit := modify Parsing.nextToken

def getPeekToken : ParseM J Unit := modify Parsing.peekToken

/-- A change of the bytecode vector. -/
def Parsing.mapBytecodes (s : Parsing J) (f : List (Bytecode J) → List (Bytecode J)) : Parsing J :=
  { s with tmpl := { s.tmpl with bytecodes := f s.tmpl.bytecodes } }

def modifyBytecodes (f : List (Bytecode J) → List (Bytecode J)) : ParseM J Unit :=
  modify fun s => s.mapBytecodes f

/-- `tmpl.bytecodes.emplace_back`. -/
def emit (bc : Bytecode J) : ParseM J Unit := modifyBytecodes fun bcs => bcs ++ [bc]

/-- `tmpl.bytecodes[i].args = target`. -/
def patch (target : ℕ) (i : ℕ) : ParseM J Unit :=
  modifyBytecodes fun bcs => bcs.modify i fun bc => { bc with args := target }

/-- `append_function`: a trailing `Push` becomes the function, its value the last argument. -/
def appendFunction (op : Op) (numArgs : ℕ) : ParseM J Unit :=
  modifyBytecodes fun bcs => match bcs.getLast? with
    | some last =>
        if last.op = .push then bcs.dropLast ++ [{ last with op := op, args := numArgs }]
        else bcs ++ [{ op := op, args := numArgs, value := NlohmannJson.null }]
    | none => bcs ++ [{ op := op, args := numArgs, value := NlohmannJson.null }]

/-- `append_callback`: only a trailing `Push` of an immediate value is merged. -/
def appendCallback (name : Str) (numArgs : ℕ) : ParseM J Unit :=
  modifyBytecodes fun bcs => match bcs.getLast? with
    | some last =>
        if last.op = .push ∧ last.flags = .immediate then
          bcs.dropLast ++ [{ last with op := .callback, args := numArgs, str := name }]
        else bcs ++ [{ op := .callback, args := numArgs, value := NlohmannJson.null, str := name }]
    | none => bcs ++ [{ op := .callback, args := numArgs, value := NlohmannJson.null, str := name }]

/-- The last two bytecodes, where there are two, exchanged. -/
def swapLastTwo (bcs : List (Bytecode J)) : List (Bytecode J) :=
  match bcs.reverse with
  | last :: previous :: before => (previous :: last :: before).reverse
  | _ => bcs

/-- `std::swap(tmpl.bytecodes.back(), *(tmpl.bytecodes.rbegin() + 1))`, which is outside of the vector
where there are not two bytecodes. -/
def swapArguments : ParseM J Unit := do
  let s ← get
  if s.tmpl.bytecodes.length < 2 then throw (some .undefinedBehaviour)
  else modifyBytecodes swapLastTwo

/-- Whether a token is the identifier `word`. -/
def Token.isWord (tok : Token) (word : Str) : Bool := tok.kind == .id && tok.text == word

/-! ### Expressions -/

/-- The label `returnJson`: the characters from `first` to the end of the current token are one JSON
value. -/
def returnJson (first : ℕ) : ParseM J Bool := do
  let s ← get
  let value ← liftJson
    (NlohmannJson.parse (slice s.lexer.input first (s.tok.start + s.tok.text.length)))
  emit { op := .push, value := value, flags := .immediate }
  getNextToken
  pure true

/-- The argument loop of a function call. -/
def parseArguments (expression : ParseM J Bool) : ℕ → ℕ → ParseM J ℕ
  | 0, _ => throw none
  | fuel + 1, numArgs => do
      let ok ← expression
      let s ← get
      if ok then
        match s.tok.kind with
        | .rightParen => do
            getNextToken
            pure (numArgs + 1)
        | .comma => do
            getNextToken
            parseArguments expression fuel (numArgs + 1)
        | _ => injaThrow "parser_error" ("expected ')' or ',', got '" ++ s.tok.describe ++ "'")
      else injaThrow "parser_error" ("expected expression, got '" ++ s.tok.describe ++ "'")

/-- The bytecode of a call: a callback unless a built-in function has that name and number of
arguments. -/
def emitCall (name : Str) (numArgs : ℕ) : ParseM J Bool :=
  let op := findBuiltin name numArgs
  if op = .nop then do
    appendCallback name numArgs
    pure true
  else if op = .default then do
    swapArguments
    appendFunction op numArgs
    pure true
  else do
    appendFunction op numArgs
    pure true

/-- A function call: the current token is its name, the peeked one the left parenthesis. -/
def parseFunctionCall (expression : ParseM J Bool) (fuel : ℕ) : ParseM J Bool := do
  let func := (← get).tok
  getNextToken
  getNextToken
  let s ← get
  if s.tok.kind = .rightParen then do
    getNextToken
    emitCall func.text 0
  else do
    let numArgs ← parseArguments expression fuel 0
    emitCall func.text numArgs

/-- `parse_expression_datum`, from the head of its loop. -/
def parseExpressionDatum (expression : ParseM J Bool) : ℕ → ℕ → ℕ → ℕ → ParseM J Bool
  | 0, _, _, _ => throw none
  | fuel + 1, jsonFirst, bracketLevel, braceLevel => do
      let s ← get
      let outermost := braceLevel == 0 && bracketLevel == 0
      let continueWith := fun (first bracket brace : ℕ) => do
        getNextToken
        parseExpressionDatum expression fuel first bracket brace
      match s.tok.kind with
      | .leftParen => do
          getNextToken
          let ok ← expression
          if ok then
            let s ← get
            if s.tok.kind = .rightParen then do
              getNextToken
              pure true
            else injaThrow "parser_error" "unmatched '('"
          else pure false
      | .id => do
          getPeekToken
          let s ← get
          if s.peekTok.map Token.kind = some .leftParen then
            parseFunctionCall expression fuel
          else if s.tok.text = "true" ∨ s.tok.text = "false" ∨ s.tok.text = "null" then
            if outermost then returnJson s.tok.start
            else continueWith jsonFirst bracketLevel braceLevel
          else do
            emit { op := .push, value := NlohmannJson.null, str := s.tok.text, flags := .lookupDot }
            getNextToken
            pure true
      | .number | .string =>
          if outermost then returnJson s.tok.start
          else continueWith jsonFirst bracketLevel braceLevel
      | .comma | .colon =>
          if outermost then
            injaThrow "parser_error" ("unexpected token '" ++ s.tok.describe ++ "'")
          else continueWith jsonFirst bracketLevel braceLevel
      | .leftBracket =>
          continueWith (if outermost then s.tok.start else jsonFirst) (bracketLevel + 1) braceLevel
      | .leftBrace =>
          continueWith (if outermost then s.tok.start else jsonFirst) bracketLevel (braceLevel + 1)
      | .rightBracket =>
          if bracketLevel = 0 then injaThrow "parser_error" "unexpected ']'"
          else if braceLevel = 0 ∧ bracketLevel = 1 then returnJson jsonFirst
          else continueWith jsonFirst (bracketLevel - 1) braceLevel
      | .rightBrace =>
          if braceLevel = 0 then injaThrow "parser_error" "unexpected '\x7d'"
          else if braceLevel = 1 ∧ bracketLevel = 0 then returnJson jsonFirst
          else continueWith jsonFirst bracketLevel (braceLevel - 1)
      | _ =>
          if braceLevel ≠ 0 then injaThrow "parser_error" "unmatched '\x7b'"
          else if bracketLevel ≠ 0 then injaThrow "parser_error" "unmatched '['"
          else pure false

/-- The comparison operator a token stands for. -/
def comparisonOp (tok : Token) : Option Op :=
  match tok.kind with
  | .id => if tok.text = "in" then some .in else none
  | .equal => some .equal
  | .greaterThan => some .greater
  | .lessThan => some .less
  | .lessEqual => some .lessEqual
  | .greaterEqual => some .greaterEqual
  | .notEqual => some .different
  | _ => none

/-- `parse_expression_comparison`. -/
def parseExpressionComparison (expression : ParseM J Bool) (fuel : ℕ) : ParseM J Bool := do
  let ok ← parseExpressionDatum expression fuel 0 0 0
  if ok then
    let s ← get
    match comparisonOp s.tok with
    | none => pure true
    | some op => do
        getNextToken
        let ok ← parseExpressionDatum expression fuel 0 0 0
        if ok then do
          appendFunction op 2
          pure true
        else pure false
  else pure false

/-- `parse_expression_not`. -/
def parseExpressionNot (expression : ParseM J Bool) : ℕ → ParseM J Bool
  | 0 => throw none
  | fuel + 1 => do
      let s ← get
      if s.tok.isWord "not" then do
        getNextToken
        let ok ← parseExpressionNot expression fuel
        if ok then do
          appendFunction .not 1
          pure true
        else pure false
      else parseExpressionComparison expression (fuel + 1)

/-- The shape of `parse_expression` and `parse_expression_and`: one operand, and a second one if the
operator's word follows. -/
def parseBinary (operand : ParseM J Bool) (word : Str) (op : Op) : ParseM J Bool := do
  let ok ← operand
  if ok then
    let s ← get
    if s.tok.isWord word then do
      getNextToken
      let ok ← operand
      if ok then do
        appendFunction op 2
        pure true
      else pure false
    else pure true
  else pure false

/-- `parse_expression_and`. -/
def parseExpressionAnd (expression : ParseM J Bool) (fuel : ℕ) : ParseM J Bool :=
  parseBinary (parseExpressionNot expression fuel) "and" .and

/-- `parse_expression`. -/
def parseExpression : ℕ → ParseM J Bool
  | 0 => throw none
  | fuel + 1 => parseBinary (parseExpressionAnd (parseExpression fuel) (fuel + 1)) "or" .or

/-! ### Statements -/

/-- The branch `if` of `parse_statement`. -/
def parseIf (fuel : ℕ) : ParseM J Bool := do
  getNextToken
  let ok ← parseExpression fuel
  if ok then do
    modify fun s => { s with ifStack := ⟨some s.tmpl.bytecodes.length, []⟩ :: s.ifStack }
    emit { op := .conditionalJump, value := NlohmannJson.null }
    pure true
  else pure false

/-- The branch `endif`. -/
def parseEndif : ParseM J Bool := do
  match (← get).ifStack with
  | [] => injaThrow "parser_error" "endif without matching if"
  | ifData :: rest => do
      getNextToken
      let target := (← get).tmpl.bytecodes.length
      ifData.prevCondJump.toList.forM (patch target)
      ifData.uncondJumps.forM (patch target)
      modify fun s => { s with ifStack := rest }
      pure true

/-- The branch `else`.  After an unconditional `else` there is no conditional jump left to patch:
the source then writes outside the bytecode vector. -/
def parseElse (fuel : ℕ) : ParseM J Bool := do
  match (← get).ifStack with
  | [] => injaThrow "parser_error" "else without matching if"
  | ifData :: rest => do
      getNextToken
      let jump := (← get).tmpl.bytecodes.length
      emit { op := .jump, value := NlohmannJson.null }
      match ifData.prevCondJump with
      | none => throw (some .undefinedBehaviour)
      | some i => do
          patch (jump + 1) i
          modify fun s => { s with ifStack := ⟨none, ifData.uncondJumps ++ [jump]⟩ :: rest }
          let s ← get
          if s.tok.isWord "if" then do
            getNextToken
            let ok ← parseExpression fuel
            if ok then do
              modify fun s => { s with
                ifStack := ⟨some s.tmpl.bytecodes.length, ifData.uncondJumps ++ [jump]⟩ :: rest }
              emit { op := .conditionalJump, value := NlohmannJson.null }
              pure true
            else pure false
          else pure true

/-- `if (m_tok.kind != Token::Kind::Id) inja_throw(…)`, then the token. -/
def expectId : ParseM J Token := do
  let tok := (← get).tok
  if tok.kind = .id then pure tok
  else injaThrow "parser_error" ("expected id, got '" ++ tok.describe ++ "'")

/-- The names a `for` binds: `value`, or `key, value`, the key's name being empty in the first
case. -/
def parseForNames : ParseM J (Str × Str) := do
  let first ← expectId
  getNextToken
  let s ← get
  if s.tok.kind = .comma then do
    getNextToken
    let second ← expectId
    getNextToken
    pure (first.text, second.text)
  else pure ([], first.text)

/-- The branch `for`: `for value in list` or `for key, value in object`. -/
def parseFor (fuel : ℕ) : ParseM J Bool := do
  getNextToken
  let names ← parseForNames
  let s ← get
  if s.tok.isWord "in" then do
    getNextToken
    let ok ← parseExpression fuel
    if ok then do
      modify fun s => { s with loopStack := s.tmpl.bytecodes.length :: s.loopStack }
      emit {
        op := .startLoop
        value := if names.1.isEmpty then NlohmannJson.null else NlohmannJson.string names.1
        str := names.2 }
      pure true
    else pure false
  else injaThrow "parser_error" ("expected 'in', got '" ++ s.tok.describe ++ "'")

/-- The branch `endfor`. -/
def parseEndfor : ParseM J Bool := do
  getNextToken
  let s ← get
  match s.loopStack with
  | [] => injaThrow "parser_error" "endfor without matching for"
  | start :: rest => do
      patch s.tmpl.bytecodes.length start
      emit { op := .endLoop, args := start + 1, value := NlohmannJson.null }
      modify fun s => { s with loopStack := rest }
      pure true

/-- `open_file_or_throw`, from which the repository's patch removed the file access. -/
def openFileOrThrow (path : Str) : ParseM J Str :=
  injaThrow "file_error" ("failed accessing file at '" ++ path ++ "'")

/-- `load_file`. -/
def loadFile (filename : Str) : ParseM J Str := openFileOrThrow filename

/-- `parse_template`: a parser of its own for the file, sharing the included templates. -/
def parseTemplate (parseInto : Str → ParseM J Unit) (filename : Str) : ParseM J (Template J) := do
  let content ← loadFile filename
  let outer ← get
  let path := (filename.reverse.dropWhile fun ch => !(ch == '/' || ch == '\\')).reverse
  set ({ lexer := Lexer.start content, includedTemplates := outer.includedTemplates,
         tmpl := { content := content } } : Parsing J)
  parseInto path
  let inner ← get
  set { outer with includedTemplates := inner.includedTemplates }
  pure inner.tmpl

/-- The end of the branch `include`: the bytecode, once the template is among the included ones. -/
def finishInclude (pathname : Str) : ParseM J Bool := do
  emit { op := .include, value := NlohmannJson.string pathname, flags := .immediate }
  getNextToken
  pure true

/-- The branch `include`. -/
def parseInclude (parseInto : Str → ParseM J Unit) (path : Str) : ParseM J Bool := do
  getNextToken
  let tok := (← get).tok
  if tok.kind = .string then do
    let jsonName ← liftJson (NlohmannJson.parse (J := J) tok.text)
    let name ← liftJson (NlohmannJson.getString jsonName)
    let joined := path ++ name
    let pathname := if joined.take 2 = "./" then joined.drop 2 else joined
    let s ← get
    match s.includedTemplates.lookup pathname with
    | some _ => finishInclude pathname
    | none => do
        let included ← parseTemplate parseInto pathname
        modify fun s => { s with includedTemplates := s.includedTemplates.insert pathname included }
        finishInclude pathname
  else injaThrow "parser_error" ("expected string, got '" ++ tok.describe ++ "'")

/-- `parse_statement`. -/
def parseStatement (parseInto : Str → ParseM J Unit) (fuel : ℕ) (path : Str) : ParseM J Bool := do
  let tok := (← get).tok
  if tok.isWord "if" then parseIf fuel
  else if tok.isWord "endif" then parseEndif
  else if tok.isWord "else" then parseElse fuel
  else if tok.isWord "for" then parseFor fuel
  else if tok.isWord "endfor" then parseEndfor
  else if tok.isWord "include" then parseInclude parseInto path
  else pure false

/-- The `switch` of `parse_into` on a token other than the end of the text. -/
def parseBlock (parseInto : Str → ParseM J Unit) (fuel : ℕ) (path : Str) : ParseM J Unit := do
  let s ← get
  match s.tok.kind with
  | .text => emit { op := .printText, value := NlohmannJson.null, str := s.tok.text }
  | .statementOpen => do
      getNextToken
      let ok ← parseStatement parseInto fuel path
      let s ← get
      if ok then
        if s.tok.kind = .statementClose then pure ()
        else injaThrow "parser_error" ("expected statement close, got '" ++ s.tok.describe ++ "'")
      else injaThrow "parser_error" ("expected statement, got '" ++ s.tok.describe ++ "'")
  | .lineStatementOpen => do
      getNextToken
      -- the result is not looked at
      let _ ← parseStatement parseInto fuel path
      let s ← get
      if s.tok.kind = .lineStatementClose ∨ s.tok.kind = .eof then pure ()
      else injaThrow "parser_error" ("expected line statement close, got '" ++ s.tok.describe ++ "'")
  | .expressionOpen => do
      getNextToken
      let ok ← parseExpression fuel
      if ok then do
        appendFunction .printValue 1
        let s ← get
        if s.tok.kind = .expressionClose then pure ()
        else injaThrow "parser_error" ("expected expression close, got '" ++ s.tok.describe ++ "'")
      else do
        let s ← get
        injaThrow "parser_error" ("expected expression, got '" ++ s.tok.describe ++ "'")
  | .commentOpen => do
      getNextToken
      let s ← get
      if s.tok.kind = .commentClose then pure ()
      else injaThrow "parser_error" ("expected comment close, got '" ++ s.tok.describe ++ "'")
  | _ => injaThrow "parser_error" ("unexpected token '" ++ s.tok.describe ++ "'")

/-- The loop of `parse_into`. -/
def parseInto : ℕ → Str → ParseM J Unit
  | 0, _ => throw none
  | fuel + 1, path => do
      getNextToken
      let s ← get
      if s.tok.kind = .eof then
        if s.ifStack ≠ [] then injaThrow "parser_error" "unmatched if"
        else if s.loopStack ≠ [] then injaThrow "parser_error" "unmatched for"
        else pure ()
      else do
        parseBlock (parseInto fuel) fuel path
        parseInto fuel path

end EnvoyWasmFilters.Inja
