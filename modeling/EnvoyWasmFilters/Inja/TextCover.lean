import EnvoyWasmFilters.Inja.Tokens

/-!
# The tokens cover the text

The lexer takes a template apart without losing anything: the tokens stand in the text one after the other, and what is
between two of them is white space inside a block.

* `Taken` — what one call of `scan` takes: white space, and then the characters of the token;
* `Lexer.Placed` — what the lexer relies on between two calls, and `scan_taken`, that each call keeps it;
* `Covers`, `tokens_cover` — **the text is its tokens and the white space between them**, up to a comment without end.
-/

namespace EnvoyWasmFilters.Inja

/-! ### Places in the text -/

/-- The white space that `scan_body` skips. -/
def isBlank (ch : Char) : Bool := ch == ' ' || ch == '\t' || ch == '\r' || ch == '\n'

/-- Nothing but white space. -/
def Blank (text : Str) : Prop := ∀ ch ∈ text, isBlank ch = true

theorem blank_nil : Blank [] := fun _ hmem => absurd hmem List.not_mem_nil

theorem blank_cons {ch : Char} {text : Str} (hch : isBlank ch = true) (h : Blank text) : Blank (ch :: text) := by
  intro c hmem
  rcases List.mem_cons.mp hmem with rfl | hmem
  · exact hch
  · exact h c hmem

/-- A text up to a place and from there on. -/
theorem slice_append_drop {text : Str} {start stop : ℕ} (h : start ≤ stop) :
    slice text start stop ++ text.drop stop = text.drop start := by
  have hstop : text.drop stop = (text.drop start).drop (stop - start) := by
    rw [List.drop_drop, Nat.add_sub_cancel' h]
  rw [slice, hstop, List.take_append_drop]

theorem length_slice {text : Str} {start stop : ℕ} (h : start ≤ stop) (hle : stop ≤ text.length) :
    (slice text start stop).length = stop - start := by
  rw [slice, List.length_take, List.length_drop]
  omega

/-- A sequence at a place ends before the text does. -/
theorem add_length_le {text pre : Str} {pos : ℕ} (hpos : pos ≤ text.length) (h : pre.isPrefixOf (text.drop pos) = true) :
    pos + pre.length ≤ text.length := by
  have hle := (List.isPrefixOf_iff_prefix.mp h).length_le
  rw [List.length_drop] at hle
  omega

/-! ### What the parts of `scan` find -/

/-- The place where a block opens has its opening sequence. -/
theorem findOpening_spec {atLineStart : Bool} {pos stop : ℕ} {rest : Str} {block : Block}
    (h : findOpening atLineStart pos rest = some (stop, block)) :
    pos ≤ stop ∧ block.opening.isPrefixOf (rest.drop (stop - pos)) = true := by
  induction rest generalizing atLineStart pos with
  | nil => cases h
  | cons ch rest ih =>
    simp only [findOpening] at h
    split at h
    · next found hfound =>
      obtain ⟨rfl, rfl⟩ := Prod.mk.inj (Option.some.inj h)
      refine ⟨Nat.le_refl _, ?_⟩
      rw [Nat.sub_self, List.drop_zero]
      split at hfound
      · simp only [openingAt] at hfound
        split at hfound
        · next hopen =>
          obtain rfl := Option.some.inj hfound
          exact hopen
        · split at hfound
          · next hopen =>
            obtain rfl := Option.some.inj hfound
            exact hopen
          · split at hfound
            · next hopen =>
              obtain rfl := Option.some.inj hfound
              exact hopen
            · split at hfound
              · next hopen =>
                obtain rfl := Option.some.inj hfound
                exact (Bool.and_eq_true_iff.mp hopen).2
              · cases hfound
      · cases hfound
    · obtain ⟨hle, hopen⟩ := ih h
      have hdrop : stop - pos = stop - (pos + 1) + 1 := by omega
      refine ⟨by omega, ?_⟩
      rw [hdrop, List.drop_succ_cons]
      exact hopen

/-- What `skipBlank` skips is white space. -/
theorem skipBlank_spec (close : Str) (pos : ℕ) (rest : Str) :
    ∃ gap, rest = gap ++ (skipBlank close pos rest).2 ∧ (skipBlank close pos rest).1 = pos + gap.length ∧ Blank gap := by
  induction rest generalizing pos with
  | nil => exact ⟨[], rfl, rfl, blank_nil⟩
  | cons ch rest ih =>
    have hskip : isBlank ch = true → ∃ gap, ch :: rest = gap ++ (skipBlank close (pos + 1) rest).2 ∧
        (skipBlank close (pos + 1) rest).1 = pos + gap.length ∧ Blank gap := by
      intro hch
      obtain ⟨gap, hrest, hpos, hgap⟩ := ih (pos + 1)
      refine ⟨ch :: gap, ?_, ?_, blank_cons hch hgap⟩
      · rw [List.cons_append, ← hrest]
      · rw [hpos, List.length_cons]
        omega
    simp only [skipBlank]
    split
    · next hch =>
      exact hskip (by rw [isBlank, hch, Bool.true_or])
    · split
      · exact ⟨[], rfl, rfl, blank_nil⟩
      · split
        · next hch =>
          exact hskip (by rw [isBlank, hch, Bool.or_true])
        · exact ⟨[], rfl, rfl, blank_nil⟩

theorem stringLength_le (escape : Bool) (rest : Str) : stringLength escape rest ≤ rest.length := by
  induction rest generalizing escape with
  | nil => exact Nat.le_refl 0
  | cons ch rest ih =>
    have htrue := ih true
    have hfalse := ih false
    simp only [stringLength, List.length_cons]
    split
    · omega
    · split <;> omega

/-- A token of a body does not reach beyond the text. -/
theorem bodyToken_le (ch : Char) (rest : Str) : (bodyToken ch rest).2 ≤ rest.length := by
  have htake : ∀ p : Char → Bool, (rest.takeWhile p).length ≤ rest.length :=
    fun p => (List.takeWhile_prefix p).length_le
  have hequal : (rest.head? == some '=') = true → 1 ≤ rest.length := by
    intro h
    cases rest with
    | nil => cases h
    | cons c rest => exact Nat.succ_pos _
  simp only [bodyToken]
  split
  · exact htake isIdChar
  · split
    all_goals first
      | exact Nat.zero_le _
      | exact stringLength_le false rest
      | exact htake isIdChar
      | split
        · next h => first
            | exact hequal h
            | exact htake isNumberChar
        · exact Nat.zero_le _

/-- The closing sequence of a comment is in the text. -/
theorem findString_le {needle rest : Str} {stop : ℕ} (h : findString needle rest = some stop) :
    stop + needle.length ≤ rest.length := by
  induction rest generalizing stop with
  | nil =>
    rw [findString] at h
    split at h
    · next hempty =>
      obtain rfl := Option.some.inj h
      rw [List.isEmpty_iff.mp hempty]
      exact Nat.le_refl 0
    · cases h
  | cons ch rest ih =>
    rw [findString] at h
    split at h
    · next hprefix =>
      obtain rfl := Option.some.inj h
      rw [Nat.zero_add]
      exact (List.isPrefixOf_iff_prefix.mp hprefix).length_le
    · obtain ⟨offset, hfound, rfl⟩ := Option.map_eq_some_iff.mp h
      have hle := ih hfound
      rw [List.length_cons]
      omega

/-! ### One call of `scan` -/

/-- The tokens that stand outside the bodies of blocks. -/
def TokenKind.outside : TokenKind → Bool
  | .text | .expressionOpen | .statementOpen | .commentOpen | .lineStatementOpen => true
  | _ => false

/-- What the lexer relies on between two calls: it is in the text, and where a block starts the opening sequence is
there. -/
structure Lexer.Placed (l : Lexer) : Prop where
  pos_le : l.pos ≤ l.input.length
  opening : ∀ block, l.state = .start block → block.opening.isPrefixOf (l.input.drop l.pos) = true

/-- What a call with a token takes: white space, none outside of blocks, and the characters of the token. -/
structure Taken (l : Lexer) (r : Token × Lexer) : Prop where
  input : r.2.input = l.input
  placed : r.2.Placed
  start_le : l.pos ≤ r.1.start
  blank : Blank (slice l.input l.pos r.1.start)
  outside : r.1.kind.outside = true → r.1.start = l.pos
  text : r.1.text = slice l.input r.1.start r.2.pos
  progress : r.1.start < r.2.pos
  comment : r.2.state = .body .comment → r.1.kind = .commentOpen

/-- The opening sequence of a block, where it stands. -/
theorem scanOpen_taken {l : Lexer} {block : Block} (hstart : l.tokStart = l.pos) (hpos : l.pos ≤ l.input.length)
    (hopen : block.opening.isPrefixOf (l.input.drop l.pos) = true) : Taken l (l.scanOpen block) where
  input := rfl
  placed := ⟨add_length_le hpos hopen, fun _ h => by cases h⟩
  start_le := Nat.le_of_eq hstart.symm
  blank := by
    show Blank (slice l.input l.pos l.tokStart)
    rw [hstart, slice_eq_nil_of_le (Nat.le_refl _)]
    exact blank_nil
  outside := fun _ => hstart
  text := rfl
  progress := by
    have hlength := opening_length_pos block
    show l.tokStart < l.pos + block.opening.length
    omega
  comment := by
    intro h
    obtain rfl : block = .comment := LexerState.body.inj h
    rfl

/-- The text before a block, or all there is left. -/
theorem scanText_taken {l : Lexer} (hstate : l.state = .text) (hstart : l.tokStart = l.pos)
    (hlt : l.pos < l.input.length) : Taken l l.scanText := by
  have hnone : Blank (slice l.input l.pos l.tokStart) := by
    rw [hstart, slice_eq_nil_of_le (Nat.le_refl _)]
    exact blank_nil
  simp only [Lexer.scanText]
  split
  · exact ⟨rfl, ⟨Nat.le_refl _, fun _ h => by cases hstate.symm.trans h⟩, Nat.le_of_eq hstart.symm, hnone,
      fun _ => hstart, rfl, hstart ▸ hlt, fun h => by cases hstate.symm.trans h⟩
  · next pos block hfind =>
    obtain ⟨hle, hopen⟩ := findOpening_spec hfind
    have hplace : block.opening.isPrefixOf (l.input.drop pos) = true := by
      rw [List.drop_drop, Nat.add_sub_cancel' hle] at hopen
      exact hopen
    have hpos : pos ≤ l.input.length := by
      by_contra hbeyond
      rw [List.drop_eq_nil_of_le (by omega)] at hplace
      cases block <;> cases hplace
    have hkept : (if block.mustLstrip then clearFinalLineIfWhitespace (slice l.input l.tokStart pos)
        else slice l.input l.tokStart pos) = slice l.input l.tokStart pos := by
      cases block <;> rfl
    rw [hkept]
    by_cases hempty : (slice l.input l.tokStart pos).isEmpty = true
    · rw [if_pos hempty]
      -- there is no text before the block, which starts where the lexer is
      have hhere : pos = l.pos := by
        have hlength := length_slice (show l.tokStart ≤ pos by omega) hpos
        rw [List.isEmpty_iff.mp hempty, List.length_nil] at hlength
        omega
      subst hhere
      exact scanOpen_taken hstart hpos hplace
    · rw [if_neg hempty]
      refine ⟨rfl, ⟨hpos, ?_⟩, Nat.le_of_eq hstart.symm, hnone, fun _ => hstart, rfl, ?_, fun h => by cases h⟩
      · intro block' h
        obtain rfl : block = block' := LexerState.start.inj h
        exact hplace
      · show l.tokStart < pos
        by_contra hnot
        rw [slice_eq_nil_of_le (by omega)] at hempty
        exact hempty rfl

/-- The kinds of the tokens inside a block are none of those outside. -/
theorem bodyToken_inside (ch : Char) (rest : Str) : (bodyToken ch rest).1.outside = false := by
  simp only [bodyToken]
  split
  · rfl
  · split
    all_goals first
      | rfl
      | split <;> rfl

/-- A token of a body, or the closing sequence of its block. -/
theorem scanBody_taken {l : Lexer} {block : Block} {close : Str} {closeKind : TokenKind} (hstate : l.state = .body block)
    (hcomment : block ≠ .comment) (hstart : l.tokStart = l.pos) (hpos : l.pos ≤ l.input.length)
    (hclose : 0 < close.length) (hinside : closeKind.outside = false)
    (hkind : (l.scanBody close closeKind false).1.kind ≠ .eof) : Taken l (l.scanBody close closeKind false) := by
  obtain ⟨gap, hrest, hplace, hgap⟩ := skipBlank_spec close l.tokStart (l.input.drop l.tokStart)
  simp only [Lexer.scanBody] at hkind ⊢
  generalize skipBlank close l.tokStart (l.input.drop l.tokStart) = next at hrest hplace hkind ⊢
  obtain ⟨start, rest⟩ := next
  dsimp only at hrest hplace hkind ⊢
  subst hplace
  rw [hstart] at hrest hkind ⊢
  have hblank : slice l.input l.pos (l.pos + gap.length) = gap := by
    rw [slice, hrest, Nat.add_sub_cancel_left, List.take_left]
  have hlength : l.input.length = l.pos + gap.length + rest.length := by
    have hdrop := congrArg List.length hrest
    rw [List.length_drop, List.length_append] at hdrop
    omega
  cases rest with
  | nil => exact absurd rfl hkind
  | cons ch rest =>
    dsimp only at hkind ⊢
    rw [List.length_cons] at hlength
    split
    · next hprefix =>
      have hle := (List.isPrefixOf_iff_prefix.mp hprefix).length_le
      rw [List.length_cons] at hle
      rw [if_neg Bool.false_ne_true]
      refine ⟨rfl, ⟨?_, fun _ h => by cases h⟩, Nat.le_add_right _ _, ?_, ?_, rfl, ?_, fun h => by cases h⟩
      · show l.pos + gap.length + close.length ≤ l.input.length
        omega
      · show Blank (slice l.input l.pos (l.pos + gap.length))
        rw [hblank]
        exact hgap
      · intro h
        exact absurd (hinside.symm.trans h) Bool.false_ne_true
      · exact Nat.lt_add_of_pos_right hclose
    · have hle := bodyToken_le ch rest
      refine ⟨rfl, ⟨?_, fun _ h => by cases hstate.symm.trans h⟩, Nat.le_add_right _ _, ?_, ?_, rfl, ?_, ?_⟩
      · show l.pos + gap.length + 1 + (bodyToken ch rest).2 ≤ l.input.length
        omega
      · show Blank (slice l.input l.pos (l.pos + gap.length))
        rw [hblank]
        exact hgap
      · intro h
        exact absurd ((bodyToken_inside ch rest).symm.trans h) Bool.false_ne_true
      · show l.pos + gap.length < l.pos + gap.length + 1 + (bodyToken ch rest).2
        omega
      · intro h
        exact absurd (LexerState.body.inj (hstate.symm.trans h)) hcomment

/-- A comment with an end is one token. -/
theorem scanComment_taken {l : Lexer} (hstart : l.tokStart = l.pos) (hpos : l.pos ≤ l.input.length)
    (hkind : l.scanComment.1.kind ≠ .eof) : Taken l l.scanComment := by
  simp only [Lexer.scanComment] at hkind ⊢
  split
  · next hnone =>
    rw [hnone] at hkind
    exact absurd rfl hkind
  · next stop hfound =>
    have hle := findString_le hfound
    rw [List.length_drop] at hle
    have hclose : 0 < lexerConfig.commentClose.length := by decide
    rw [if_neg (by decide)]
    refine ⟨rfl, ⟨?_, fun _ h => by cases h⟩, Nat.le_of_eq hstart.symm, ?_, (fun h => by cases h), rfl, ?_,
      fun h => by cases h⟩
    · show l.pos + stop + lexerConfig.commentClose.length ≤ l.input.length
      omega
    · show Blank (slice l.input l.pos l.tokStart)
      rw [hstart, slice_eq_nil_of_le (Nat.le_refl _)]
      exact blank_nil
    · show l.tokStart < l.pos + stop + lexerConfig.commentClose.length
      omega

/-- The closing sequence of a block. -/
def Block.closing : Block → Str
  | .expression => lexerConfig.expressionClose
  | .line => ['\n']
  | .statement => lexerConfig.statementClose
  | .comment => lexerConfig.commentClose

/-- The token kind of the closing sequence. -/
def Block.closeKind : Block → TokenKind
  | .expression => .expressionClose
  | .line => .lineStatementClose
  | .statement => .statementClose
  | .comment => .commentClose

/-- Blocks other than comments are scanned alike: white space behind a block is not trimmed. -/
theorem scan_body {l : Lexer} {block : Block} (hlt : l.pos < l.input.length) (hstate : l.state = .body block)
    (hcomment : block ≠ .comment) :
    l.scan = ({ l with tokStart := l.pos } : Lexer).scanBody block.closing block.closeKind false := by
  simp only [Lexer.scan, if_neg (Nat.not_le_of_lt hlt), hstate]
  cases block with
  | expression => rfl
  | line => rfl
  | statement => rfl
  | comment => exact absurd rfl hcomment

/-- **A call with a token**, by cases on the lexer's state. -/
theorem scan_taken {l : Lexer} (h : l.Placed) (hkind : l.scan.1.kind ≠ .eof) : Taken l l.scan := by
  have hlt := (scan_spec l).2 hkind
  have hreset : ∀ r, Taken { l with tokStart := l.pos } r → Taken l r :=
    fun r t => ⟨t.input, t.placed, t.start_le, t.blank, t.outside, t.text, t.progress, t.comment⟩
  cases hstate : l.state with
  | text =>
    have hscan : l.scan = ({ l with tokStart := l.pos } : Lexer).scanText := by
      simp only [Lexer.scan, if_neg (Nat.not_le_of_lt hlt), hstate]
    rw [hscan]
    exact hreset _ (scanText_taken hstate rfl hlt)
  | start block =>
    have hscan : l.scan = ({ l with tokStart := l.pos } : Lexer).scanOpen block := by
      simp only [Lexer.scan, if_neg (Nat.not_le_of_lt hlt), hstate]
    rw [hscan]
    exact hreset _ (scanOpen_taken rfl h.pos_le (h.opening block hstate))
  | body block =>
    by_cases hcomment : block = .comment
    · have hscan : l.scan = ({ l with tokStart := l.pos } : Lexer).scanComment := by
        simp only [Lexer.scan, if_neg (Nat.not_le_of_lt hlt), hstate, hcomment]
      rw [hscan] at hkind ⊢
      exact hreset _ (scanComment_taken rfl h.pos_le hkind)
    · rw [scan_body hlt hstate hcomment] at hkind ⊢
      have hclose : 0 < block.closing.length := by cases block <;> decide
      have hinside : block.closeKind.outside = false := by cases block <;> rfl
      exact hreset _ (scanBody_taken hstate hcomment rfl h.pos_le hclose hinside hkind)

/-! ### The whole text -/

/-- The rest of a text, from the offset `pos` on and behind a token of the kind `last`, is covered by tokens: each stands
where it says, behind white space, and outside of blocks behind nothing at all.  After the last there is white space, or a
comment that nothing closes. -/
inductive Covers : TokenKind → ℕ → List Token → Str → Prop
  | blank {last : TokenKind} {pos : ℕ} {rest : Str} (h : Blank rest) : Covers last pos [] rest
  | comment {pos : ℕ} {rest : Str} (h : findString lexerConfig.commentClose rest = none) :
      Covers .commentOpen pos [] rest
  | token {last : TokenKind} {pos : ℕ} {gap rest : Str} {tok : Token} {toks : List Token} (hgap : Blank gap)
      (houtside : tok.kind.outside = true → gap = []) (hstart : tok.start = pos + gap.length) (htext : tok.text ≠ [])
      (hrest : Covers tok.kind (tok.start + tok.text.length) toks rest) :
      Covers last pos (tok :: toks) (gap ++ tok.text ++ rest)

/-- A body without a token is white space. -/
theorem scanBody_eof_blank {l : Lexer} {close : Str} {closeKind : TokenKind} {trim : Bool} (hclose : closeKind ≠ .eof)
    (hkind : (l.scanBody close closeKind trim).1.kind = .eof) : Blank (l.input.drop l.tokStart) := by
  obtain ⟨gap, hrest, -, hgap⟩ := skipBlank_spec close l.tokStart (l.input.drop l.tokStart)
  simp only [Lexer.scanBody] at hkind
  split at hkind
  · next hnil =>
    rw [hrest, hnil, List.append_nil]
    exact hgap
  · split at hkind
    · exact absurd hkind hclose
    · exact absurd hkind (bodyToken_ne_eof _ _)

/-- Where there is no token any more, only white space is left, or a comment without end. -/
theorem scan_eof_rest {l : Lexer} (hkind : l.scan.1.kind = .eof) :
    Blank (l.input.drop l.pos) ∨
      (l.state = .body .comment ∧ findString lexerConfig.commentClose (l.input.drop l.pos) = none) := by
  by_cases hlen : l.input.length ≤ l.pos
  · rw [List.drop_eq_nil_of_le hlen]
    exact .inl blank_nil
  cases hstate : l.state with
  | text =>
    simp only [Lexer.scan, if_neg hlen, hstate] at hkind
    exact absurd hkind (scanText_ne_eof _)
  | start block =>
    simp only [Lexer.scan, if_neg hlen, hstate] at hkind
    exact absurd hkind (openKind_ne_eof block)
  | body block =>
    by_cases hcomment : block = .comment
    · simp only [Lexer.scan, if_neg hlen, hstate, hcomment, Lexer.scanComment] at hkind
      split at hkind
      · next hnone => exact .inr ⟨by rw [hcomment], hnone⟩
      · cases hkind
    · rw [scan_body (Nat.lt_of_not_le hlen) hstate hcomment] at hkind
      have hclose : block.closeKind ≠ .eof := by cases block <;> decide
      exact .inl (scanBody_eof_blank hclose hkind)

/-- The tokens from a lexer on cover the text from its position on, by induction on the calls. -/
theorem covers_tokens {l : Lexer} (h : l.Placed) {last : TokenKind} (hlast : l.state = .body .comment → last = .commentOpen)
    {fuel : ℕ} (hfuel : l.input.length - l.pos < fuel) : Covers last l.pos (l.tokens fuel) (l.input.drop l.pos) := by
  induction fuel generalizing l last with
  | zero => exact absurd hfuel (Nat.not_lt_zero _)
  | succ fuel ih =>
    rw [Lexer.tokens]
    by_cases hkind : l.scan.1.kind = .eof
    · rw [if_pos hkind]
      rcases scan_eof_rest hkind with hblank | ⟨hstate, hnone⟩
      · exact .blank hblank
      · rw [hlast hstate]
        exact .comment hnone
    · rw [if_neg hkind]
      have htaken := scan_taken h hkind
      generalize l.scan = r at htaken hkind
      have hnext := htaken.placed.pos_le
      rw [htaken.input] at hnext
      have hle := htaken.start_le
      have hlt := htaken.progress
      have hgap : (slice l.input l.pos r.1.start).length = r.1.start - l.pos := length_slice hle (by omega)
      have hlength : r.1.text.length = r.2.pos - r.1.start := by
        rw [htaken.text]
        exact length_slice (Nat.le_of_lt hlt) hnext
      have hsplit : slice l.input l.pos r.1.start ++ r.1.text ++ r.2.input.drop r.2.pos = l.input.drop l.pos := by
        rw [htaken.input, htaken.text, List.append_assoc, slice_append_drop (Nat.le_of_lt hlt), slice_append_drop hle]
      rw [← hsplit]
      refine .token htaken.blank ?_ ?_ ?_ ?_
      · intro houtside
        rw [htaken.outside houtside]
        exact slice_eq_nil_of_le (Nat.le_refl _)
      · omega
      · intro hnil
        rw [hnil, List.length_nil] at hlength
        omega
      · have hpos : r.1.start + r.1.text.length = r.2.pos := by omega
        rw [hpos]
        exact ih htaken.placed htaken.comment (by rw [htaken.input]; omega)

/-- **The tokens of a template cover its text.**  They stand in it one after the other with nothing but white space
between them, and none outside of blocks; all that can be lost at the end is white space and a comment without end. -/
theorem tokens_cover (input : Str) : Covers .text 0 (tokens input) input :=
  covers_tokens (l := Lexer.start input) ⟨Nat.zero_le _, fun _ h => by cases h⟩ (fun h => by cases h) (Nat.lt_succ_self _)

end EnvoyWasmFilters.Inja
