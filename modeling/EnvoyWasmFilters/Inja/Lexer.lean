import EnvoyWasmFilters.Common.Runtime

/-!
# The inja lexer

The `Lexer` of `inja.hpp`: a state machine over one template text that hands out one token for each
call of `scan`.  A start state (`ExpressionStart`, `LineStart`, `StatementStart`, `CommentStart`) is
left with the token of the opening sequence, a body state (`ExpressionBody`, …) with the tokens up to
and including the closing sequence.

`scan_spec` says what one call can do to the position in the text: it never moves back, and it moves
forward whenever the token is not the end of the text.  The parser's termination rests on it.
-/

namespace EnvoyWasmFilters.Inja

/-- `struct LexerConfig`, with its default member values. -/
structure LexerConfig where
  statementOpen : Str := "\x7b%"
  statementClose : Str := "%\x7d"
  lineStatement : Str := "##"
  expressionOpen : Str := "\x7b\x7b"
  expressionClose : Str := "\x7d\x7d"
  commentOpen : Str := "\x7b#"
  commentClose : Str := "#\x7d"
  openChars : Str := "#\x7b"
  trimBlocks : Bool := false
  lstripBlocks : Bool := false

/-- The configuration every parser and environment of the filter is built with. -/
def lexerConfig : LexerConfig := {}

/-- `Token::Kind`. -/
inductive TokenKind where
  | text
  | expressionOpen | expressionClose
  | lineStatementOpen | lineStatementClose
  | statementOpen | statementClose
  | commentOpen | commentClose
  | id | number | string
  | comma | colon
  | leftParen | rightParen | leftBracket | rightBracket | leftBrace | rightBrace
  | equal | greaterThan | greaterEqual | lessThan | lessEqual | notEqual
  | unknown | eof
deriving DecidableEq

/-- `struct Token`.  The text is a view into the template; `start` is where the view begins. -/
structure Token where
  kind : TokenKind := .unknown
  text : Str := []
  start : ℕ := 0
deriving DecidableEq

/-- `Token::describe`. -/
def Token.describe (tok : Token) : Str :=
  match tok.kind with
  | .text => "<text>"
  | .lineStatementClose => "<eol>"
  | .eof => "<eof>"
  | _ => tok.text

/-- What an opening sequence opens. -/
inductive Block where
  | expression | line | statement | comment
deriving DecidableEq

/-- `Lexer::State`: `Text`, and for each kind of block its `…Start` and `…Body`. -/
inductive LexerState where
  | text
  | start (block : Block)
  | body (block : Block)
deriving DecidableEq

/-- The opening sequence of a block. -/
def Block.opening : Block → Str
  | .expression => lexerConfig.expressionOpen
  | .line => lexerConfig.lineStatement
  | .statement => lexerConfig.statementOpen
  | .comment => lexerConfig.commentOpen

/-- The token kind of the opening sequence. -/
def Block.openKind : Block → TokenKind
  | .expression => .expressionOpen
  | .line => .lineStatementOpen
  | .statement => .statementOpen
  | .comment => .commentOpen

/-- `must_lstrip`: whether white space before the block is dropped. -/
def Block.mustLstrip : Block → Bool
  | .statement => lexerConfig.lstripBlocks
  | .comment => lexerConfig.lstripBlocks
  | _ => false

/-- The members of `class Lexer`. -/
structure Lexer where
  state : LexerState := .text
  input : Str := []
  tokStart : ℕ := 0
  pos : ℕ := 0
deriving DecidableEq

/-- `Lexer::start`. -/
def Lexer.start (input : Str) : Lexer := { state := .text, input := input, tokStart := 0, pos := 0 }

/-- `string_view::slice`: the characters from `start` up to `stop`, both clamped to the view. -/
def slice (view : Str) (start stop : ℕ) : Str := (view.drop start).take (stop - start)

/-- `make_token`. -/
def Lexer.makeToken (l : Lexer) (kind : TokenKind) : Token :=
  { kind := kind, text := slice l.input l.tokStart l.pos, start := l.tokStart }

/-- `skip_newline`. -/
def Lexer.skipNewline (l : Lexer) : Lexer :=
  match l.input.drop l.pos with
  | '\n' :: _ => { l with pos := l.pos + 1 }
  | '\r' :: '\n' :: _ => { l with pos := l.pos + 2 }
  | '\r' :: _ => { l with pos := l.pos + 1 }
  | _ => l

/-- `clear_final_line_if_whitespace`. -/
def clearFinalLineIfWhitespace (text : Str) : Str :=
  match text.reverse.dropWhile fun ch => ch == ' ' || ch == '\t' with
  | [] => []
  | ch :: before => if ch == '\n' || ch == '\r' then (ch :: before).reverse else text

/-- The block whose opening sequence stands at the head of `rest`. -/
def openingAt (atLineStart : Bool) (rest : Str) : Option Block :=
  if lexerConfig.expressionOpen.isPrefixOf rest then some .expression
  else if lexerConfig.statementOpen.isPrefixOf rest then some .statement
  else if lexerConfig.commentOpen.isPrefixOf rest then some .comment
  else if atLineStart && lexerConfig.lineStatement.isPrefixOf rest then some .line
  else none

/-- The loop of `State::Text`: the first position at or after `pos` at which a block opens.  `rest`
is the text from `pos` on. -/
def findOpening : Bool → ℕ → Str → Option (ℕ × Block)
  | _, _, [] => none
  | atLineStart, pos, ch :: rest =>
      match if ch ∈ lexerConfig.openChars then openingAt atLineStart (ch :: rest) else none with
      | some block => some (pos, block)
      | none => findOpening (ch == '\n') (pos + 1) rest

/-- The `…Start` states: the token of the opening sequence. -/
def Lexer.scanOpen (l : Lexer) (block : Block) : Token × Lexer :=
  let l := { l with state := .body block, pos := l.pos + block.opening.length }
  (l.makeToken block.openKind, l)

/-- `State::Text`. -/
def Lexer.scanText (l : Lexer) : Token × Lexer :=
  let atLineStart := l.pos == 0 || (l.input.drop (l.pos - 1)).head? == some '\n'
  match findOpening atLineStart l.pos (l.input.drop l.pos) with
  | none =>
      let l := { l with pos := l.input.length }
      (l.makeToken .text, l)
  | some (pos, block) =>
      let l := { l with pos := pos, state := .start block }
      let view := slice l.input l.tokStart l.pos
      let text := if block.mustLstrip then clearFinalLineIfWhitespace view else view
      -- no empty text token: `goto again` in the new state
      if text.isEmpty then l.scanOpen block else ({ kind := .text, text := text, start := l.tokStart }, l)

/-- The white space `scan_body` skips: blanks, and line ends unless the closing sequence stands
there.  The result is the position of the next token and the text from there on. -/
def skipBlank (close : Str) : ℕ → Str → ℕ × Str
  | pos, [] => (pos, [])
  | pos, ch :: rest =>
      if ch == ' ' || ch == '\t' || ch == '\r' then skipBlank close (pos + 1) rest
      else if close.isPrefixOf (ch :: rest) then (pos, ch :: rest)
      else if ch == '\n' then skipBlank close (pos + 1) rest
      else (pos, ch :: rest)

/-- The characters `scan_id` accepts after the first. -/
def isIdChar (ch : Char) : Bool :=
  ch.isAlphanum || ch == '.' || ch == '/' || ch == '_' || ch == '-'

/-- The characters `scan_number` accepts after the first. -/
def isNumberChar (ch : Char) : Bool :=
  ch.isDigit || ch == '.' || ch == 'e' || ch == 'E' || ch == '+' || ch == '-'

/-- `scan_string`: how many characters follow the opening quote, the closing one included. -/
def stringLength : Bool → Str → ℕ
  | _, [] => 0
  | escape, ch :: rest =>
      if ch == '\\' then stringLength true rest + 1
      else if !escape && ch == '"' then 1
      else stringLength false rest + 1

/-- The token that begins with `ch`, and the number of characters after `ch` it takes. -/
def bodyToken (ch : Char) (rest : Str) : TokenKind × ℕ :=
  let followedByEqual := rest.head? == some '='
  if ch.isAlpha then (.id, (rest.takeWhile isIdChar).length)
  else match ch with
    | ',' => (.comma, 0)
    | ':' => (.colon, 0)
    | '(' => (.leftParen, 0)
    | ')' => (.rightParen, 0)
    | '[' => (.leftBracket, 0)
    | ']' => (.rightBracket, 0)
    | '{' => (.leftBrace, 0)
    | '}' => (.rightBrace, 0)
    | '>' => if followedByEqual then (.greaterEqual, 1) else (.greaterThan, 0)
    | '<' => if followedByEqual then (.lessEqual, 1) else (.lessThan, 0)
    | '=' => if followedByEqual then (.equal, 1) else (.unknown, 0)
    | '!' => if followedByEqual then (.notEqual, 1) else (.unknown, 0)
    | '"' => (.string, stringLength false rest)
    | '_' => (.id, (rest.takeWhile isIdChar).length)
    | _ => if ch.isDigit || ch == '-' then (.number, (rest.takeWhile isNumberChar).length)
           else (.unknown, 0)

/-- `scan_body`.  At the end of the text only the token's start has moved. -/
def Lexer.scanBody (l : Lexer) (close : Str) (closeKind : TokenKind) (trim : Bool) :
    Token × Lexer :=
  let next := skipBlank close l.tokStart (l.input.drop l.tokStart)
  let l := { l with tokStart := next.1 }
  match next.2 with
  | [] => (l.makeToken .eof, l)
  | ch :: rest =>
      if close.isPrefixOf (ch :: rest) then
        let l := { l with state := .text, pos := l.tokStart + close.length }
        (l.makeToken closeKind, if trim then l.skipNewline else l)
      else
        let found := bodyToken ch rest
        let l := { l with pos := l.tokStart + 1 + found.2 }
        (l.makeToken found.1, l)

/-- `std::string_view::find` of a string: the offset of its first occurrence. -/
def findString (needle : Str) : Str → Option ℕ
  | [] => if needle.isEmpty then some 0 else none
  | ch :: rest =>
      if needle.isPrefixOf (ch :: rest) then some 0 else (findString needle rest).map (· + 1)

/-- `State::CommentBody`: the whole comment is the text of the closing token. -/
def Lexer.scanComment (l : Lexer) : Token × Lexer :=
  match findString lexerConfig.commentClose (l.input.drop l.pos) with
  | none =>
      let l := { l with pos := l.input.length }
      (l.makeToken .eof, l)
  | some stop =>
      let l := { l with state := .text, pos := l.pos + stop + lexerConfig.commentClose.length }
      (l.makeToken .commentClose, if lexerConfig.trimBlocks then l.skipNewline else l)

/-- `Lexer::scan`. -/
def Lexer.scan (l : Lexer) : Token × Lexer :=
  let l := { l with tokStart := l.pos }
  if l.input.length ≤ l.tokStart then (l.makeToken .eof, l)
  else match l.state with
    | .text => l.scanText
    | .start block => l.scanOpen block
    | .body .expression => l.scanBody lexerConfig.expressionClose .expressionClose false
    | .body .line => l.scanBody ['\n'] .lineStatementClose false
    | .body .statement =>
        l.scanBody lexerConfig.statementClose .statementClose lexerConfig.trimBlocks
    | .body .comment => l.scanComment

/-! ### Progress -/

theorem opening_length_pos (block : Block) : 0 < block.opening.length := by
  cases block <;> decide

theorem slice_eq_nil_of_le {view : Str} {start stop : ℕ} (h : stop ≤ start) :
    slice view start stop = [] := by
  rw [slice, Nat.sub_eq_zero_of_le h, List.take_zero]

theorem findOpening_le {atLineStart : Bool} {pos stop : ℕ} {rest : Str} {block : Block}
    (h : findOpening atLineStart pos rest = some (stop, block)) : pos ≤ stop := by
  induction rest generalizing atLineStart pos with
  | nil => simp [findOpening] at h
  | cons ch rest ih =>
    simp only [findOpening] at h
    split at h
    · simp only [Option.some.injEq, Prod.mk.injEq] at h
      omega
    · have := ih h
      omega

theorem skipBlank_le (close : Str) (pos : ℕ) (rest : Str) : pos ≤ (skipBlank close pos rest).1 := by
  induction rest generalizing pos with
  | nil => exact Nat.le_refl pos
  | cons ch rest ih =>
    have := ih (pos + 1)
    simp only [skipBlank]
    split
    · omega
    · split
      · exact Nat.le_refl pos
      · split
        · omega
        · exact Nat.le_refl pos

/-- What a call may do to the position, given where it stands in the text: nothing moves back, and
a token other than the end of the text moves it forward. -/
structure Advances (l : Lexer) (r : Token × Lexer) : Prop where
  input : r.2.input = l.input
  mono : l.pos ≤ r.2.pos
  progress : r.1.kind ≠ .eof → l.pos < r.2.pos

theorem scanOpen_advances (l : Lexer) (block : Block) : Advances l (l.scanOpen block) where
  input := rfl
  mono := by
    simp only [Lexer.scanOpen]
    omega
  progress := by
    intro _
    have := opening_length_pos block
    simp only [Lexer.scanOpen]
    omega

theorem clearFinalLine_nil : clearFinalLineIfWhitespace [] = [] := rfl

theorem scanText_advances (l : Lexer) (hstart : l.tokStart = l.pos) (hlt : l.pos < l.input.length) :
    Advances l l.scanText := by
  simp only [Lexer.scanText]
  split
  · exact ⟨rfl, Nat.le_of_lt hlt, fun _ => hlt⟩
  · rename_i pos block hfind
    have hle := findOpening_le hfind
    generalize htext : (if block.mustLstrip then
      clearFinalLineIfWhitespace (slice l.input l.tokStart pos)
      else slice l.input l.tokStart pos) = text
    by_cases hempty : text.isEmpty = true
    · rw [if_pos hempty]
      -- the text before the opening sequence is empty: the opening token is read at once
      have hopen := scanOpen_advances { l with pos := pos, state := .start block } block
      exact ⟨hopen.input, Nat.le_trans hle hopen.mono,
        fun h => Nat.lt_of_le_of_lt hle (hopen.progress h)⟩
    · rw [if_neg hempty]
      refine ⟨rfl, hle, fun _ => Nat.lt_of_le_of_ne hle fun heq => hempty ?_⟩
      have hpos : l.pos = pos := heq
      have hslice : slice l.input l.tokStart pos = [] := slice_eq_nil_of_le (by omega)
      rw [hslice, clearFinalLine_nil, ite_self] at htext
      rw [← htext]
      rfl

theorem skipNewline_input (l : Lexer) : l.skipNewline.input = l.input := by
  simp only [Lexer.skipNewline]
  split <;> rfl

theorem skipNewline_le (l : Lexer) : l.pos ≤ l.skipNewline.pos := by
  simp only [Lexer.skipNewline]
  split <;> simp

theorem scanBody_advances (l : Lexer) (hstart : l.tokStart = l.pos) (close : Str)
    (hclose : 0 < close.length) (closeKind : TokenKind) (trim : Bool) :
    Advances l (l.scanBody close closeKind trim) := by
  have hle := skipBlank_le close l.tokStart (l.input.drop l.tokStart)
  simp only [Lexer.scanBody]
  split
  · exact ⟨rfl, Nat.le_refl _, fun h => absurd rfl h⟩
  · split
    · have hmove : l.pos < (skipBlank close l.tokStart (l.input.drop l.tokStart)).1 + close.length := by
        omega
      split
      · have hskip := skipNewline_le { l with
          state := .text
          tokStart := (skipBlank close l.tokStart (l.input.drop l.tokStart)).1
          pos := (skipBlank close l.tokStart (l.input.drop l.tokStart)).1 + close.length }
        exact ⟨skipNewline_input _, Nat.le_trans (Nat.le_of_lt hmove) hskip,
          fun _ => Nat.lt_of_lt_of_le hmove hskip⟩
      · exact ⟨rfl, Nat.le_of_lt hmove, fun _ => hmove⟩
    · refine ⟨rfl, ?_, fun _ => ?_⟩ <;> dsimp only <;> omega

theorem scanComment_advances (l : Lexer) (hlt : l.pos < l.input.length) :
    Advances l l.scanComment := by
  have hclose : 0 < lexerConfig.commentClose.length := by decide
  simp only [Lexer.scanComment]
  split
  · exact ⟨rfl, Nat.le_of_lt hlt, fun h => absurd rfl h⟩
  · rw [if_neg (by decide)]
    refine ⟨rfl, ?_, fun _ => ?_⟩ <;> dsimp only <;> omega

/-- **What `scan` does to the position.** -/
theorem scan_spec (l : Lexer) : Advances l l.scan ∧
    (l.scan.1.kind ≠ .eof → l.pos < l.input.length) := by
  simp only [Lexer.scan]
  split
  · exact ⟨⟨rfl, Nat.le_refl _, fun h => absurd rfl h⟩, fun h => absurd rfl h⟩
  · rename_i hlen
    have hlt : l.pos < l.input.length := Nat.lt_of_not_le hlen
    refine ⟨?_, fun _ => hlt⟩
    -- the token's start is reset to the position first
    have hreset : ∀ r, Advances { l with tokStart := l.pos } r → Advances l r :=
      fun r h => ⟨h.input, h.mono, h.progress⟩
    apply hreset
    split
    · exact scanText_advances _ rfl hlt
    · exact scanOpen_advances _ _
    · exact scanBody_advances _ rfl _ (by decide) _ _
    · exact scanBody_advances _ rfl _ (by decide) _ _
    · exact scanBody_advances _ rfl _ (by decide) _ _
    · exact scanComment_advances _ hlt

end EnvoyWasmFilters.Inja
