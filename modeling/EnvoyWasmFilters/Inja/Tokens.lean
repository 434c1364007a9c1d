import EnvoyWasmFilters.Inja.ParserTotal
import Mathlib.Logic.Function.Iterate

/-!
# The tokens of a template

The lexer does not look at the parser, so that a template has its tokens before it is parsed.

* `Lexer.tokens`, `tokens` — all tokens up to the end of the text;
* `scan_eof` — behind the end of the text the lexer finds nothing but the end of the text;
* `Parsing.Shows toks` — the parser is at the first of `toks`, with the others still to come;
* `Parsing.write` — a parser reads in one part of its state and writes in another: the bytecode and the stacks of
  open blocks; taking a token does not depend on what has been written.
-/

namespace EnvoyWasmFilters.Inja

/-! ### The lexer -/

/-- The tokens up to the end of the text, with a counter of calls. -/
def Lexer.tokens : ℕ → Lexer → List Token
  | 0, _ => []
  | fuel + 1, l => if l.scan.1.kind = .eof then [] else l.scan.1 :: tokens fuel l.scan.2

/-- The tokens of a template.  Each takes one character at least. -/
def tokens (input : Str) : List Token := (Lexer.start input).tokens (input.length + 1)

theorem bodyToken_ne_eof (ch : Char) (rest : Str) : (bodyToken ch rest).1 ≠ .eof := by
  intro h
  simp only [bodyToken] at h
  split at h
  · cases h
  · split at h
    all_goals first
      | cases h
      | split at h <;> cases h

theorem openKind_ne_eof (block : Block) : block.openKind ≠ .eof := by
  cases block <;> decide

theorem scanText_ne_eof (l : Lexer) : l.scanText.1.kind ≠ .eof := by
  simp only [Lexer.scanText]
  split
  · exact fun h => by cases h
  · rename_i pos block hfind
    generalize (if block.mustLstrip then clearFinalLineIfWhitespace (slice l.input l.tokStart pos)
      else slice l.input l.tokStart pos) = text
    cases text.isEmpty with
    | true => exact openKind_ne_eof block
    | false => exact fun h => by cases h

/-- The body of a block ends the text only where nothing but white space is left. -/
theorem scanBody_eof {l : Lexer} {close : Str} {closeKind : TokenKind} {trim : Bool} (hkind : closeKind ≠ .eof)
    (h : (l.scanBody close closeKind trim).1.kind = .eof) :
    ∃ start, (l.scanBody close closeKind trim).2 = { l with tokStart := start } := by
  simp only [Lexer.scanBody] at h ⊢
  split at h
  · exact ⟨_, rfl⟩
  · split at h
    · exact absurd h hkind
    · exact absurd h (bodyToken_ne_eof _ _)

/-- A scan begins by resetting the start of the token. -/
theorem scan_tokStart (l : Lexer) (start : ℕ) : ({ l with tokStart := start } : Lexer).scan = l.scan := rfl

/-- **Behind the end of the text is the end of the text**, by cases on the lexer's state. -/
theorem scan_eof {l : Lexer} (h : l.scan.1.kind = .eof) : l.scan.2.scan.1.kind = .eof := by
  by_cases hlen : l.input.length ≤ l.pos
  · have hscan : l.scan.2 = { l with tokStart := l.pos } := by rw [Lexer.scan, if_pos hlen]
    rw [hscan, scan_tokStart]
    exact h
  have hbody : ∀ close closeKind trim, closeKind ≠ .eof →
      l.scan = ({ l with tokStart := l.pos } : Lexer).scanBody close closeKind trim →
      l.scan.2.scan.1.kind = .eof := by
    intro close closeKind trim hkind hscan
    obtain ⟨start, hstart⟩ := scanBody_eof hkind (hscan ▸ h)
    rw [← hscan] at hstart
    rw [hstart, scan_tokStart, scan_tokStart]
    exact h
  cases hstate : l.state with
  | text =>
    have hscan : l.scan = ({ l with tokStart := l.pos } : Lexer).scanText := by
      simp only [Lexer.scan, if_neg hlen, hstate]
    rw [hscan] at h
    exact absurd h (scanText_ne_eof _)
  | start block =>
    have hscan : l.scan = ({ l with tokStart := l.pos } : Lexer).scanOpen block := by
      simp only [Lexer.scan, if_neg hlen, hstate]
    rw [hscan] at h
    exact absurd h (openKind_ne_eof block)
  | body block =>
    cases block with
    | expression =>
      exact hbody lexerConfig.expressionClose .expressionClose false (by decide)
        (by simp only [Lexer.scan, if_neg hlen, hstate])
    | line =>
      exact hbody ['\n'] .lineStatementClose false (by decide) (by simp only [Lexer.scan, if_neg hlen, hstate])
    | statement =>
      exact hbody lexerConfig.statementClose .statementClose lexerConfig.trimBlocks (by decide)
        (by simp only [Lexer.scan, if_neg hlen, hstate])
    | comment =>
      have hscan : l.scan = ({ l with tokStart := l.pos } : Lexer).scanComment := by
        simp only [Lexer.scan, if_neg hlen, hstate]
      rw [hscan] at h ⊢
      simp only [Lexer.scanComment] at h ⊢
      split at h
      · -- the comment is not closed: the whole text has been read
        dsimp only
        rw [Lexer.scan, if_pos (Nat.le_refl _)]
        rfl
      · cases h

/-! ### The parser at a token -/

variable {J : Type}

/-- The parser is at the first of `toks`, or at the end of the text where there are none left. -/
def Parsing.Shows : List Token → Parsing J → Prop
  | [], s => ∀ n, (Parsing.nextToken^[n] s).tok.kind = .eof
  | tok :: toks, s => s.tok = tok ∧ tok.kind ≠ .eof ∧ Shows toks s.nextToken

/-- The kind of the next token. -/
def look : List Token → TokenKind
  | [] => .eof
  | tok :: _ => tok.kind

theorem Parsing.Shows.kind {toks : List Token} {s : Parsing J} (h : s.Shows toks) : s.tok.kind = look toks := by
  cases toks with
  | nil => exact h 0
  | cons tok toks => rw [h.1, look]

theorem Parsing.Shows.nil_next {s : Parsing J} (h : s.Shows []) : s.nextToken.Shows [] := fun n => h (n + 1)

/-- What a parser writes: the bytecode and the open blocks. -/
structure Writing (J : Type) where
  bytecodes : List (Bytecode J) := []
  ifStack : List IfData := []
  loopStack : List ℕ := []

def Parsing.writing (s : Parsing J) : Writing J := ⟨s.tmpl.bytecodes, s.ifStack, s.loopStack⟩

/-- The parser that reads as `s` does and has written `w`. -/
def Parsing.write (s : Parsing J) (w : Writing J) : Parsing J :=
  { s with ifStack := w.ifStack, loopStack := w.loopStack, tmpl := { s.tmpl with bytecodes := w.bytecodes } }

/-- More bytecode. -/
def Writing.map (w : Writing J) (f : List (Bytecode J) → List (Bytecode J)) : Writing J :=
  { w with bytecodes := f w.bytecodes }

@[simp] theorem write_writing (s : Parsing J) : s.write s.writing = s := rfl

@[simp] theorem write_tok (s : Parsing J) (w : Writing J) : (s.write w).tok = s.tok := rfl

@[simp] theorem write_peekTok (s : Parsing J) (w : Writing J) : (s.write w).peekTok = s.peekTok := rfl

@[simp] theorem write_write (s : Parsing J) (v w : Writing J) : (s.write v).write w = s.write w := rfl

@[simp] theorem mapBytecodes_write (s : Parsing J) (w : Writing J)
    (f : List (Bytecode J) → List (Bytecode J)) : (s.write w).mapBytecodes f = s.write (w.map f) := rfl

@[simp] theorem nextToken_write (s : Parsing J) (w : Writing J) :
    (s.write w).nextToken = s.nextToken.write w := by
  cases hpeek : s.peekTok <;> simp [Parsing.nextToken, Parsing.write, hpeek]

@[simp] theorem peekToken_write (s : Parsing J) (w : Writing J) :
    (s.write w).peekToken = s.peekToken.write w := by
  cases hpeek : s.peekTok <;> simp [Parsing.peekToken, Parsing.write, hpeek]

/-- Looking at a token and then taking it is taking it. -/
theorem peekToken_nextToken (s : Parsing J) : s.peekToken.nextToken = s.nextToken := by
  cases hpeek : s.peekTok <;> simp [Parsing.peekToken, Parsing.nextToken, hpeek]

theorem peekTok_peekToken {s : Parsing J} (h : s.peekTok = none) :
    s.peekToken.peekTok = some s.nextToken.tok := by
  simp [Parsing.peekToken, Parsing.nextToken, h]

/-- The parser of the template `input` is at the first of `toks`, and has not looked at the next one. -/
structure Parsing.Ready (input : Str) (toks : List Token) (s : Parsing J) : Prop where
  shows : s.Shows toks
  peekTok : s.peekTok = none
  lexer : s.lexer.input = input
  content : s.tmpl.content = input

/-- `t` is the parser `s` some tokens further on, with `toks` still to come. -/
structure Parsing.After (s : Parsing J) (toks : List Token) (t : Parsing J) : Prop where
  shows : t.Shows toks
  peekTok : t.peekTok = none
  input : t.lexer.input = s.lexer.input
  content : t.tmpl.content = s.tmpl.content
  measure_le : t.measure ≤ s.measure

theorem Parsing.After.trans {s t u : Parsing J} {toks toks' : List Token} (h : s.After toks t)
    (h' : t.After toks' u) : s.After toks' u where
  shows := h'.shows
  peekTok := h'.peekTok
  input := h'.input.trans h.input
  content := h'.content.trans h.content
  measure_le := Nat.le_trans h'.measure_le h.measure_le

theorem nextToken_content (s : Parsing J) : s.nextToken.tmpl = s.tmpl := by
  cases hpeek : s.peekTok <;> simp [Parsing.nextToken, hpeek]

/-- Taking a token. -/
theorem Parsing.Shows.after {tok : Token} {toks : List Token} {s : Parsing J} (h : s.Shows (tok :: toks)) :
    s.After toks s.nextToken where
  shows := h.2.2
  peekTok := nextToken_peekTok s
  input := (nextToken_below s).input
  content := by rw [nextToken_content]
  measure_le := (nextToken_below s).measure_le

theorem Parsing.Shows.measure_lt {tok : Token} {toks : List Token} {s : Parsing J} (h : s.Shows (tok :: toks)) :
    s.nextToken.measure < s.measure := by
  apply nextToken_lt_of_ne
  rw [h.1]
  exact h.2.1

theorem Parsing.Ready.of_after {input : Str} {toks rest : List Token} {s t : Parsing J} (hs : s.Ready input toks)
    (h : s.After rest t) : t.Ready input rest :=
  ⟨h.shows, h.peekTok, h.input.trans hs.lexer, h.content.trans hs.content⟩

theorem Parsing.Ready.next {input : Str} {tok : Token} {toks : List Token} {s : Parsing J}
    (h : s.Ready input (tok :: toks)) : s.nextToken.Ready input toks := h.of_after h.shows.after

/-! ### Every parser is at its tokens -/

/-- Where the lexer finds the end of the text, the parser stays there. -/
theorem shows_nil {s : Parsing J} (hpeek : s.peekTok = none) (h : s.lexer.scan.1.kind = .eof) :
    s.nextToken.Shows [] := by
  intro n
  induction n generalizing s with
  | zero =>
    rw [Function.iterate_zero_apply]
    simpa [Parsing.nextToken, hpeek] using h
  | succ n ih =>
    have hlexer : s.nextToken.lexer = s.lexer.scan.2 := by simp [Parsing.nextToken, hpeek]
    rw [Function.iterate_succ_apply]
    exact ih (nextToken_peekTok s) (by rw [hlexer]; exact scan_eof h)

/-- The tokens the lexer finds are those the parser comes to. -/
theorem shows_tokens (fuel : ℕ) {s : Parsing J} (hpeek : s.peekTok = none)
    (hfuel : s.lexer.input.length - s.lexer.pos < fuel) : s.nextToken.Shows (s.lexer.tokens fuel) := by
  induction fuel generalizing s with
  | zero => omega
  | succ fuel ih =>
    have htok : s.nextToken.tok = s.lexer.scan.1 := by simp [Parsing.nextToken, hpeek]
    have hlexer : s.nextToken.lexer = s.lexer.scan.2 := by simp [Parsing.nextToken, hpeek]
    have hpeek' := nextToken_peekTok s
    rw [Lexer.tokens]
    split
    · rename_i heof
      exact shows_nil hpeek heof
    · rename_i hne
      refine ⟨htok, hne, ?_⟩
      rw [← hlexer]
      have hlt := (scan_remaining s.lexer).2 hne
      exact ih hpeek' (by rw [hlexer]; omega)

/-- A parser about to parse a text comes to the tokens of the text. -/
theorem begin_ready {p : Parser J} (hp : p.peekTok = none) (input : Str) :
    (p.begin input).nextToken.Ready input (tokens input) where
  shows := shows_tokens (s := p.begin input) (input.length + 1) hp (by show input.length - 0 < _; omega)
  peekTok := nextToken_peekTok _
  lexer := (nextToken_below _).input
  content := by rw [nextToken_content]; rfl

end EnvoyWasmFilters.Inja
