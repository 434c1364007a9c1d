import EnvoyWasmFilters.Inja.Parser

/-!
# The inja parser returns on every template

A parsing action is *tame* from a state (`Tame`) when it stops only as the source stops, never
because a counter ran out, and when a state it returns lies `Below` the one it started from (the
same text, the same included templates, no larger `Parsing.measure`) with no peeked token.  The
measure counts what the parser has still to consume: three for each character of the text the lexer
has not passed, two for a peeked token and one for the current one, the end of the text counting
nothing.

* `nextToken_lt` — taking a token lowers the measure or leads to the end of the text;
* one tameness lemma for each parsing function, given a counter above the measure;
* `parseInto_spec` — the whole template, by induction on the counter;
* `Parser.parse` — the parser as a total function, and `parse_idle`, `parse_eq_of_idle`: every
  successful parse leaves a parser behind that does what a new one does;
* `parse_noInclude` — without included templates no bytecode refers to one.
-/

namespace EnvoyWasmFilters.Inja

open StateExcept

variable {J : Type}

/-! ### The measure -/

/-- The part of the measure a peeked token contributes. -/
def peekWeight : Option Token → ℕ
  | some tok => if tok.kind = .eof then 0 else 2
  | none => 0

/-- The part of the measure the current token contributes. -/
def tokWeight (tok : Token) : ℕ := if tok.kind = .eof then 0 else 1

/-- What is still to be consumed. -/
def Parsing.measure (s : Parsing J) : ℕ :=
  3 * (s.lexer.input.length - s.lexer.pos) + peekWeight s.peekTok + tokWeight s.tok

theorem tokWeight_le (tok : Token) : tokWeight tok ≤ 1 := by
  simp only [tokWeight]
  split <;> omega

theorem tokWeight_of_ne {tok : Token} (h : tok.kind ≠ .eof) : tokWeight tok = 1 := if_neg h

theorem peekWeight_of_ne {tok : Token} (h : tok.kind ≠ .eof) : peekWeight (some tok) = 2 := if_neg h

@[simp] theorem peekWeight_none : peekWeight none = 0 := rfl

theorem tokWeight_eof {tok : Token} (h : tok.kind = .eof) : tokWeight tok = 0 := if_pos h

theorem peekWeight_eof {tok : Token} (h : tok.kind = .eof) : peekWeight (some tok) = 0 := if_pos h

/-- No bytecode of the list includes another template. -/
def NoInclude (bcs : List (Bytecode J)) : Prop := ∀ bc ∈ bcs, bc.op ≠ .include

/-- The states an action may return in: the text and the included templates are the same, no more
is left to consume, and as long as there are no included templates none is referred to. -/
structure Parsing.Below (s s' : Parsing J) : Prop where
  input : s'.lexer.input = s.lexer.input
  included : s'.includedTemplates = s.includedTemplates
  measure_le : s'.measure ≤ s.measure
  noInclude : s.includedTemplates = ∅ → NoInclude s.tmpl.bytecodes → NoInclude s'.tmpl.bytecodes

theorem Parsing.Below.refl (s : Parsing J) : s.Below s :=
  ⟨rfl, rfl, Nat.le_refl _, fun _ h => h⟩

theorem Parsing.Below.trans {s t u : Parsing J} (h : s.Below t) (h' : t.Below u) : s.Below u where
  input := h'.input.trans h.input
  included := h'.included.trans h.included
  measure_le := Nat.le_trans h'.measure_le h.measure_le
  noInclude := fun hempty hs => h'.noInclude (h.included.trans hempty) (h.noInclude hempty hs)

/-- A change that leaves lexer, tokens, included templates and the template alone. -/
theorem below_of_eq {s s' : Parsing J} (hl : s'.lexer = s.lexer) (ht : s'.tok = s.tok)
    (hp : s'.peekTok = s.peekTok) (hi : s'.includedTemplates = s.includedTemplates)
    (hb : s'.tmpl = s.tmpl) : s.Below s' := by
  refine ⟨by rw [hl], hi, Nat.le_of_eq ?_, fun _ h => by rwa [hb]⟩
  rw [Parsing.measure, Parsing.measure, hl, ht, hp]

/-- The characters left after a scan, by the token it found. -/
theorem scan_remaining (l : Lexer) :
    l.scan.2.input.length - l.scan.2.pos ≤ l.input.length - l.pos ∧
      (l.scan.1.kind ≠ .eof →
        l.scan.2.input.length - l.scan.2.pos < l.input.length - l.pos) := by
  obtain ⟨hadv, hinside⟩ := scan_spec l
  have hmono := hadv.mono
  rw [hadv.input]
  refine ⟨by omega, fun h => ?_⟩
  have := hadv.progress h
  have := hinside h
  omega

/-- Taking a token: the measure drops unless the end of the text is reached. -/
theorem nextToken_lt (s : Parsing J) :
    s.nextToken.tok.kind = .eof ∨ s.nextToken.measure < s.measure := by
  by_cases hend : s.nextToken.tok.kind = .eof
  · exact Or.inl hend
  · apply Or.inr
    simp only [Parsing.nextToken] at hend ⊢
    cases hp : s.peekTok with
    | some tok =>
      rw [hp] at hend
      simp only [Parsing.measure, hp, peekWeight_of_ne hend, tokWeight_of_ne hend, peekWeight_none]
      omega
    | none =>
      rw [hp] at hend
      have := (scan_remaining s.lexer).2 hend
      simp only [Parsing.measure, hp, tokWeight_of_ne hend, peekWeight_none]
      omega

/-- Taking a token never raises the measure. -/
theorem nextToken_below (s : Parsing J) : s.Below s.nextToken := by
  have hle : s.nextToken.measure ≤ s.measure := by
    rcases nextToken_lt s with hend | hlt
    · simp only [Parsing.nextToken] at hend ⊢
      cases hp : s.peekTok with
      | some tok =>
        rw [hp] at hend
        simp only [Parsing.measure, hp, peekWeight_eof hend, tokWeight_eof hend, peekWeight_none]
        omega
      | none =>
        rw [hp] at hend
        have := (scan_remaining s.lexer).1
        simp only [Parsing.measure, hp, tokWeight_eof hend, peekWeight_none]
        omega
    · exact Nat.le_of_lt hlt
  simp only [Parsing.nextToken] at hle ⊢
  split
  · rename_i tok hp
    rw [hp] at hle
    exact ⟨rfl, rfl, hle, fun _ h => h⟩
  · rename_i hp
    simp only [hp] at hle
    exact ⟨(scan_spec s.lexer).1.input, rfl, hp ▸ hle, fun _ h => h⟩

/-- Taking a token leaves no peeked one. -/
theorem nextToken_peekTok (s : Parsing J) : s.nextToken.peekTok = none := by
  simp only [Parsing.nextToken]
  split
  · rfl
  · assumption

/-- Leaving a token that is not the end of the text lowers the measure. -/
theorem nextToken_lt_of_ne {s : Parsing J} (h : s.tok.kind ≠ .eof) :
    s.nextToken.measure < s.measure := by
  rcases nextToken_lt s with hend | hlt
  · simp only [Parsing.nextToken] at hend ⊢
    cases hp : s.peekTok with
    | some tok =>
      rw [hp] at hend
      simp only [Parsing.measure, hp, peekWeight_eof hend, tokWeight_eof hend, tokWeight_of_ne h,
        peekWeight_none]
      omega
    | none =>
      rw [hp] at hend
      have := (scan_remaining s.lexer).1
      simp only [Parsing.measure, hp, tokWeight_eof hend, tokWeight_of_ne h, peekWeight_none]
      omega
  · exact hlt

/-- Peeking moves a token from the text to the parser. -/
theorem peekToken_below (s : Parsing J) : s.Below s.peekToken := by
  simp only [Parsing.peekToken]
  cases hp : s.peekTok with
  | some tok => exact Parsing.Below.refl s
  | none =>
    refine ⟨(scan_spec s.lexer).1.input, rfl, ?_, fun _ h => h⟩
    obtain ⟨hle, hlt⟩ := scan_remaining s.lexer
    by_cases hend : s.lexer.scan.1.kind = .eof
    · simp only [Parsing.measure, hp, peekWeight_eof hend, peekWeight_none]
      omega
    · have := hlt hend
      simp only [Parsing.measure, hp, peekWeight_of_ne hend, peekWeight_none]
      omega

theorem peekToken_tok (s : Parsing J) : s.peekToken.tok = s.tok := by
  simp only [Parsing.peekToken]
  split <;> rfl

/-! ### Bytecode without includes -/

theorem noInclude_append {bcs : List (Bytecode J)} (h : NoInclude bcs) {bc : Bytecode J}
    (hbc : bc.op ≠ .include) : NoInclude (bcs ++ [bc]) := by
  intro b hb
  rcases List.mem_append.mp hb with hb | hb
  · exact h b hb
  · rw [List.mem_singleton.mp hb]
    exact hbc

theorem noInclude_dropLast {bcs : List (Bytecode J)} (h : NoInclude bcs) : NoInclude bcs.dropLast :=
  fun b hb => h b (List.dropLast_subset bcs hb)

theorem noInclude_modify {bcs : List (Bytecode J)} (h : NoInclude bcs) (target i : ℕ) :
    NoInclude (bcs.modify i fun bc => { bc with args := target }) := by
  intro b hb
  obtain ⟨j, hj, rfl⟩ := List.mem_iff_getElem.mp hb
  have hj' : j < bcs.length := by simpa using hj
  have hop : ((bcs.modify i fun bc => { bc with args := target })[j]).op = bcs[j].op := by
    rw [List.getElem_modify]
    split <;> rfl
  rw [hop]
  exact h _ (List.getElem_mem hj')

theorem noInclude_swapLastTwo {bcs : List (Bytecode J)} (h : NoInclude bcs) :
    NoInclude (swapLastTwo bcs) := by
  simp only [swapLastTwo]
  split
  · rename_i last previous before heq
    intro b hb
    refine h b (List.mem_reverse.mp ?_)
    rw [heq]
    simp only [List.mem_reverse, List.mem_cons] at hb ⊢
    rcases hb with hb | hb | hb
    · exact Or.inr (Or.inl hb)
    · exact Or.inl hb
    · exact Or.inr (Or.inr hb)
  · exact h

/-- No built-in function is an include. -/
theorem findBuiltin_ne_include (name : Str) (numArgs : ℕ) : findBuiltin name numArgs ≠ .include := by
  have htable : ∀ b ∈ builtins, b.2.2 ≠ Op.include := by decide
  simp only [findBuiltin]
  split
  · rename_i op hfind
    exact htable _ (List.mem_of_find?_eq_some hfind)
  · decide

theorem comparisonOp_ne_include {tok : Token} {op : Op} (h : comparisonOp tok = some op) :
    op ≠ .include := by
  rintro rfl
  simp only [comparisonOp] at h
  split at h
  · split at h <;> simp at h
  all_goals simp at h

/-! ### Tame actions -/

/-- The action stops only as the source does; it returns below the state it started from, with no
peeked token. -/
def Tame {α : Type} (m : ParseM J α) (s : Parsing J) : Prop :=
  wp m (fun _ s' => s.Below s' ∧ s'.peekTok = none) (fun e => e ≠ none) s

section Rules

variable {α β : Type} {s : Parsing J}

theorem tame_pure (hs : s.peekTok = none) (a : α) : Tame (pure a : ParseM J α) s :=
  ⟨Parsing.Below.refl s, hs⟩

theorem tame_throw (e : Stop) : Tame (throw (some e) : ParseM J α) s := Option.some_ne_none e

theorem tame_injaThrow (type message : Str) : Tame (injaThrow type message : ParseM J α) s :=
  tame_throw _

/-- Sequencing: the second action starts below the first one's state. -/
theorem tame_bind {m : ParseM J α} {f : α → ParseM J β} (hm : Tame m s)
    (hf : ∀ a s', s.Below s' → s'.peekTok = none → Tame (f a) s') : Tame (m >>= f) s := by
  rw [Tame, wp_bind]
  refine wp_mono hm (fun a s' hs' => ?_) fun _ he => he
  exact wp_mono (hf a s' hs'.1 hs'.2) (fun _ _ ht => ⟨hs'.1.trans ht.1, ht.2⟩) fun _ he => he

/-- An action that begins by reading the state. -/
theorem tame_get {f : Parsing J → ParseM J β} (hf : Tame (f s) s) : Tame (get >>= f) s := by
  rw [Tame, wp_bind, wp_get]
  exact hf

/-- An action that begins by changing the state to one below. -/
theorem tame_modify {g : Parsing J → Parsing J} {f : Unit → ParseM J β} (hg : s.Below (g s))
    (hf : Tame (f ()) (g s)) : Tame (modify g >>= f) s := by
  rw [Tame, wp_bind, wp_modify]
  exact wp_mono hf (fun _ _ ht => ⟨hg.trans ht.1, ht.2⟩) fun _ he => he

theorem tame_nextToken {k : Unit → ParseM J β} (hk : Tame (k ()) s.nextToken) :
    Tame (getNextToken >>= k) s := tame_modify (nextToken_below s) hk

/-- An action that begins by changing the bytecode without adding an include. -/
theorem tame_bytecodes {f : List (Bytecode J) → List (Bytecode J)} {k : Unit → ParseM J β}
    (hf : NoInclude s.tmpl.bytecodes → NoInclude (f s.tmpl.bytecodes))
    (hk : Tame (k ()) (s.mapBytecodes f)) : Tame (modifyBytecodes f >>= k) s :=
  tame_modify ⟨rfl, rfl, Nat.le_refl _, fun _ => hf⟩ hk

theorem tame_emit {bc : Bytecode J} {k : Unit → ParseM J β} (hbc : bc.op ≠ .include)
    (hk : Tame (k ()) (s.mapBytecodes fun bcs => bcs ++ [bc])) : Tame (emit bc >>= k) s :=
  tame_bytecodes (fun h => noInclude_append h hbc) hk

/-- The exchange, where there are two bytecodes, and then what comes next. -/
theorem run_swapArguments_bind (k : Unit → ParseM J β) (s : Parsing J) :
    (swapArguments >>= k).run s =
      if s.tmpl.bytecodes.length < 2 then .error (some .undefinedBehaviour)
      else (k ()).run (s.mapBytecodes swapLastTwo) := by
  rw [swapArguments, bind_assoc, run_get_bind]
  split
  · rfl
  · rfl

theorem tame_swapArguments {k : Unit → ParseM J β} (hk : Tame (k ()) (s.mapBytecodes swapLastTwo)) :
    Tame (swapArguments >>= k) s := by
  have hrun := run_swapArguments_bind k s
  by_cases hlength : s.tmpl.bytecodes.length < 2
  · rw [if_pos hlength] at hrun
    rw [Tame, wp, hrun]
    exact Option.some_ne_none _
  · rw [if_neg hlength] at hrun
    rw [Tame, wp, hrun]
    exact tame_bytecodes noInclude_swapLastTwo hk

theorem tame_liftJson {k : α → ParseM J β} {r : Except Stop α} (hk : ∀ a, Tame (k a) s) :
    Tame (liftJson r >>= k) s := by
  cases r with
  | ok a => exact hk a
  | error e => exact tame_throw e

variable [NlohmannJson J]

/-- `append_function` and the value returned after it. -/
theorem tame_appendFunction {op : Op} (hop : op ≠ .include) (numArgs : ℕ) (a : α)
    (hs : s.peekTok = none) : Tame (appendFunction op numArgs >>= fun _ => pure a) s := by
  refine tame_bytecodes (fun h => ?_) (tame_pure (s := s.mapBytecodes _) hs a)
  split
  · split
    · exact noInclude_append (noInclude_dropLast h) hop
    · exact noInclude_append h hop
  · exact noInclude_append h hop

theorem tame_appendCallback (name : Str) (numArgs : ℕ) (a : α) (hs : s.peekTok = none) :
    Tame (appendCallback name numArgs >>= fun _ => pure a) s := by
  have hop : Op.callback ≠ .include := by decide
  refine tame_bytecodes (fun h => ?_) (tame_pure (s := s.mapBytecodes _) hs a)
  split
  · split
    · exact noInclude_append (noInclude_dropLast h) hop
    · exact noInclude_append h hop
  · exact noInclude_append h hop

end Rules

/-! ### Expressions -/

theorem isWord_ne_eof {tok : Token} {word : Str} (h : tok.isWord word = true) : tok.kind ≠ .eof := by
  simp only [Token.isWord, Bool.and_eq_true, beq_iff_eq] at h
  rw [h.1]
  decide

section

variable [NlohmannJson J]

theorem returnJson_tame (first : ℕ) (s : Parsing J) : Tame (returnJson first) s :=
  tame_get (tame_liftJson fun _ =>
    tame_emit (by simp) (tame_nextToken (tame_pure (nextToken_peekTok _) true)))

theorem emitCall_tame (name : Str) (numArgs : ℕ) {s : Parsing J} (hs : s.peekTok = none) :
    Tame (emitCall name numArgs) s := by
  have hop := findBuiltin_ne_include name numArgs
  simp only [emitCall]
  split
  · exact tame_appendCallback name numArgs true hs
  · split
    · exact tame_swapArguments (tame_appendFunction hop numArgs true hs)
    · exact tame_appendFunction hop numArgs true hs

end

section Expressions

variable {expression : ParseM J Bool} {bound : ℕ}
  (hexpr : ∀ s : Parsing J, s.peekTok = none → s.measure < bound → Tame expression s)

include hexpr

/-- The argument loop: each round but the last consumes a comma. -/
theorem parseArguments_tame (fuel numArgs : ℕ) (s : Parsing J) (hs : s.peekTok = none)
    (hb : s.measure < bound) (hf : s.measure < fuel) :
    Tame (parseArguments expression fuel numArgs) s := by
  induction fuel generalizing numArgs s with
  | zero => omega
  | succ fuel ih =>
    rw [parseArguments]
    refine tame_bind (hexpr s hs hb) fun ok t ht hpeek => tame_get ?_
    have htm := ht.measure_le
    cases ok with
    | false => exact tame_injaThrow _ _
    | true =>
      simp only [if_true]
      split
      · exact tame_nextToken (tame_pure (nextToken_peekTok t) _)
      · rename_i hcomma
        have hlt : t.nextToken.measure < t.measure :=
          nextToken_lt_of_ne (by rw [hcomma]; decide)
        exact tame_nextToken (ih _ _ (nextToken_peekTok t) (by omega) (by omega))
      · exact tame_injaThrow _ _

variable [NlohmannJson J]

theorem parseFunctionCall_tame (fuel : ℕ) (s : Parsing J) (hb : s.measure ≤ bound)
    (hf : s.measure ≤ fuel) (hid : s.tok.kind = .id) :
    Tame (parseFunctionCall expression fuel) s := by
  have hlt : s.nextToken.measure < s.measure := nextToken_lt_of_ne (by rw [hid]; decide)
  have hle := (nextToken_below s.nextToken).measure_le
  refine tame_get (tame_nextToken (tame_nextToken (tame_get ?_)))
  split
  · exact tame_nextToken (emitCall_tame _ _ (nextToken_peekTok _))
  · refine tame_bind ?_ fun numArgs t _ hpeek => emitCall_tame _ _ hpeek
    exact parseArguments_tame hexpr fuel 0 _ (nextToken_peekTok _) (by omega) (by omega)

omit [NlohmannJson J] in
/-- An expression in parentheses, from the left one on. -/
theorem parenthesised_tame {s : Parsing J} (hb : s.measure ≤ bound) (hparen : s.tok.kind = .leftParen) :
    Tame (do
      getNextToken
      let ok ← expression
      if ok then
        let s ← get
        if s.tok.kind = .rightParen then do
          getNextToken
          pure true
        else injaThrow "parser_error" "unmatched '('"
      else pure false) s := by
  have hlt : s.nextToken.measure < s.measure := nextToken_lt_of_ne (by rw [hparen]; decide)
  refine tame_nextToken (tame_bind (hexpr _ (nextToken_peekTok s) (by omega)) ?_)
  intro ok t _ hpeek
  cases ok with
  | false => exact tame_pure hpeek _
  | true =>
    apply tame_get
    split
    · exact tame_nextToken (tame_pure (nextToken_peekTok t) _)
    · exact tame_injaThrow _ _

/-- The datum loop, by cases on the token: each round consumes the current one. -/
theorem parseExpressionDatum_tame (fuel first bracket brace : ℕ) (s : Parsing J)
    (hs : s.peekTok = none) (hb : s.measure ≤ bound) (hf : s.measure < fuel) :
    Tame (parseExpressionDatum expression fuel first bracket brace) s := by
  induction fuel generalizing first bracket brace s with
  | zero => omega
  | succ fuel ih =>
    -- a round that goes on: the token it leaves is not the end of the text
    have hround : ∀ (t : Parsing J) (first bracket brace : ℕ), s.Below t → t.tok.kind ≠ .eof →
        Tame ((getNextToken : ParseM J Unit) >>= fun _ =>
          parseExpressionDatum expression fuel first bracket brace) t := by
      intro t first bracket brace ht hne
      have htm := ht.measure_le
      have hlt := nextToken_lt_of_ne hne
      exact tame_nextToken (ih _ _ _ _ (nextToken_peekTok t) (by omega) (by omega))
    have hself : ∀ (first bracket brace : ℕ), s.tok.kind ≠ .eof →
        Tame ((getNextToken : ParseM J Unit) >>= fun _ =>
          parseExpressionDatum expression fuel first bracket brace) s :=
      fun first bracket brace => hround s first bracket brace (Parsing.Below.refl s)
    rw [parseExpressionDatum]
    apply tame_get
    dsimp only
    split
    · rename_i hparen
      exact parenthesised_tame hexpr hb hparen
    · -- an identifier: a call, a JSON word or a variable
      rename_i hid
      have hpk := (peekToken_below s).measure_le
      have htok : s.peekToken.tok.kind = .id := by rw [peekToken_tok, hid]
      refine tame_modify (peekToken_below s) (tame_get ?_)
      split
      · exact parseFunctionCall_tame hexpr fuel _ (by omega) (by omega) htok
      · split
        · split
          · exact returnJson_tame _ _
          · exact hround _ _ _ _ (peekToken_below s) (by rw [htok]; decide)
        · exact tame_emit (by simp) (tame_nextToken (tame_pure (nextToken_peekTok _) _))
    · rename_i hk
      split
      · exact returnJson_tame _ _
      · exact hself _ _ _ (by rw [hk]; decide)
    · rename_i hk
      split
      · exact returnJson_tame _ _
      · exact hself _ _ _ (by rw [hk]; decide)
    · rename_i hk
      split
      · exact tame_injaThrow _ _
      · exact hself _ _ _ (by rw [hk]; decide)
    · rename_i hk
      split
      · exact tame_injaThrow _ _
      · exact hself _ _ _ (by rw [hk]; decide)
    · rename_i hk
      exact hself _ _ _ (by rw [hk]; decide)
    · rename_i hk
      exact hself _ _ _ (by rw [hk]; decide)
    · rename_i hk
      split
      · exact tame_injaThrow _ _
      · split
        · exact returnJson_tame _ _
        · exact hself _ _ _ (by rw [hk]; decide)
    · rename_i hk
      split
      · exact tame_injaThrow _ _
      · split
        · exact returnJson_tame _ _
        · exact hself _ _ _ (by rw [hk]; decide)
    · -- a token no expression starts with
      split
      · exact tame_injaThrow _ _
      · split
        · exact tame_injaThrow _ _
        · exact tame_pure hs _

theorem parseExpressionComparison_tame (fuel : ℕ) (s : Parsing J) (hs : s.peekTok = none)
    (hb : s.measure ≤ bound) (hf : s.measure < fuel) :
    Tame (parseExpressionComparison expression fuel) s := by
  apply tame_bind (parseExpressionDatum_tame hexpr fuel 0 0 0 s hs hb hf)
  intro ok t ht hpeek
  have htm := ht.measure_le
  cases ok with
  | false => exact tame_pure hpeek _
  | true =>
    apply tame_get
    split
    · exact tame_pure hpeek _
    · rename_i op hop
      have hle := (nextToken_below t).measure_le
      refine tame_nextToken (tame_bind (parseExpressionDatum_tame hexpr fuel 0 0 0 _
        (nextToken_peekTok t) (by omega) (by omega)) fun ok u _ hpeek' => ?_)
      cases ok with
      | false => exact tame_pure hpeek' _
      | true => exact tame_appendFunction (comparisonOp_ne_include hop) 2 true hpeek'

/-- Each `not` consumes its word. -/
theorem parseExpressionNot_tame (fuel : ℕ) (s : Parsing J) (hs : s.peekTok = none)
    (hb : s.measure ≤ bound) (hf : s.measure < fuel) :
    Tame (parseExpressionNot expression fuel) s := by
  induction fuel generalizing s with
  | zero => omega
  | succ fuel ih =>
    rw [parseExpressionNot]
    apply tame_get
    split
    · rename_i hword
      have hlt := nextToken_lt_of_ne (isWord_ne_eof hword)
      refine tame_nextToken (tame_bind (ih _ (nextToken_peekTok s) (by omega) (by omega)) ?_)
      intro ok t _ hpeek
      cases ok with
      | false => exact tame_pure hpeek _
      | true => exact tame_appendFunction (by decide) 1 true hpeek
    · exact parseExpressionComparison_tame hexpr (fuel + 1) s hs hb hf

end Expressions

variable [NlohmannJson J]

/-- One operand, or two with the operator's word between them. -/
theorem parseBinary_tame {operand : ParseM J Bool} {bound : ℕ}
    (hoperand : ∀ s : Parsing J, s.peekTok = none → s.measure ≤ bound → Tame operand s)
    (word : Str) {op : Op} (hop : op ≠ .include) (s : Parsing J) (hs : s.peekTok = none)
    (hb : s.measure ≤ bound) : Tame (parseBinary operand word op) s := by
  apply tame_bind (hoperand s hs hb)
  intro ok t ht hpeek
  have htm := ht.measure_le
  cases ok with
  | false => exact tame_pure hpeek _
  | true =>
    apply tame_get
    split
    · have hle := (nextToken_below t).measure_le
      refine tame_nextToken (tame_bind (hoperand _ (nextToken_peekTok t) (by omega)) ?_)
      intro ok u _ hpeek'
      cases ok with
      | false => exact tame_pure hpeek' _
      | true => exact tame_appendFunction hop 2 true hpeek'
    · exact tame_pure hpeek _

/-- **Expressions**, by induction on the counter: a parenthesised expression, an argument or an
operand is parsed with the counter one lower, behind a consumed token. -/
theorem parseExpression_tame (fuel : ℕ) (s : Parsing J) (hs : s.peekTok = none)
    (hf : s.measure < fuel) : Tame (parseExpression fuel) s := by
  induction fuel generalizing s with
  | zero => omega
  | succ fuel ih =>
    have hnot : ∀ t : Parsing J, t.peekTok = none → t.measure ≤ fuel →
        Tame (parseExpressionNot (parseExpression fuel) (fuel + 1)) t :=
      fun t ht hle => parseExpressionNot_tame ih (fuel + 1) t ht hle (by omega)
    have hand : ∀ t : Parsing J, t.peekTok = none → t.measure ≤ fuel →
        Tame (parseExpressionAnd (parseExpression fuel) (fuel + 1)) t :=
      parseBinary_tame hnot "and" (by decide)
    exact parseBinary_tame hand "or" (by decide) s hs (by omega)

/-! ### Statements -/

/-- An expression followed by what depends on whether there was one. -/
theorem tame_expression {α : Type} {fuel : ℕ} {s : Parsing J} (hs : s.peekTok = none)
    (hf : s.measure < fuel) {k : Bool → ParseM J α}
    (hk : ∀ ok t, t.peekTok = none → Tame (k ok) t) : Tame (parseExpression fuel >>= k) s :=
  tame_bind (parseExpression_tame fuel s hs hf) fun ok t _ hpeek => hk ok t hpeek

omit [NlohmannJson J] in
theorem nextToken_measure_lt {s : Parsing J} {fuel : ℕ} (hf : s.measure < fuel) :
    s.nextToken.measure < fuel :=
  Nat.lt_of_le_of_lt (nextToken_below s).measure_le hf

theorem parseIf_tame {fuel : ℕ} {s : Parsing J} (hf : s.measure < fuel) :
    Tame (parseIf fuel) s := by
  refine tame_nextToken (tame_expression (nextToken_peekTok s) (nextToken_measure_lt hf) ?_)
  intro ok t hpeek
  cases ok with
  | false => exact tame_pure hpeek _
  | true =>
    refine tame_modify (below_of_eq rfl rfl rfl rfl rfl) (tame_emit (by simp) ?_)
    exact tame_pure (by exact hpeek) _

omit [NlohmannJson J] in
theorem patches_tame (target : ℕ) (is : List ℕ) (s : Parsing J) (hs : s.peekTok = none) :
    Tame (is.forM (patch target)) s := by
  induction is generalizing s with
  | nil => exact tame_pure hs _
  | cons i is ih =>
    rw [List.forM_eq_forM, List.forM_cons]
    exact tame_bytecodes (fun h => noInclude_modify h target i) (ih _ hs)

omit [NlohmannJson J] in
theorem parseEndif_tame (s : Parsing J) : Tame (parseEndif : ParseM J Bool) s := by
  apply tame_get
  split
  · exact tame_injaThrow _ _
  · refine tame_nextToken (tame_get (tame_bind (patches_tame _ _ _ (nextToken_peekTok s)) ?_))
    intro _ t _ ht
    apply tame_bind (patches_tame _ _ t ht)
    intro _ u _ hu
    exact tame_modify (below_of_eq rfl rfl rfl rfl rfl) (tame_pure (by exact hu) _)

theorem parseElse_tame {fuel : ℕ} {s : Parsing J} (hf : s.measure < fuel) :
    Tame (parseElse fuel) s := by
  have hpeek := nextToken_peekTok s
  apply tame_get
  split
  · exact tame_injaThrow _ _
  · refine tame_nextToken (tame_get (tame_emit (by simp) ?_))
    split
    · exact tame_throw _
    · refine tame_bytecodes (fun h => noInclude_modify h _ _) ?_
      refine tame_modify (below_of_eq rfl rfl rfl rfl rfl) (tame_get ?_)
      split
      · refine tame_nextToken (tame_expression (nextToken_peekTok _) (nextToken_measure_lt ?_) ?_)
        · exact nextToken_measure_lt hf
        intro ok t ht
        cases ok with
        | false => exact tame_pure ht _
        | true =>
          refine tame_modify (below_of_eq rfl rfl rfl rfl rfl) (tame_emit (by simp) ?_)
          exact tame_pure (by exact ht) _
      · exact tame_pure (by exact hpeek) _

omit [NlohmannJson J] in
theorem expectId_tame {s : Parsing J} (hs : s.peekTok = none) : Tame (expectId : ParseM J Token) s := by
  apply tame_get
  dsimp only
  split
  · exact tame_pure hs _
  · exact tame_injaThrow _ _

omit [NlohmannJson J] in
theorem parseForNames_tame {s : Parsing J} (hs : s.peekTok = none) :
    Tame (parseForNames : ParseM J (Str × Str)) s := by
  refine tame_bind (expectId_tame hs) fun first t _ _ => tame_nextToken (tame_get ?_)
  split
  · refine tame_nextToken (tame_bind (expectId_tame (nextToken_peekTok _)) fun second u _ _ => ?_)
    exact tame_nextToken (tame_pure (nextToken_peekTok u) _)
  · exact tame_pure (nextToken_peekTok t) _

theorem parseFor_tame {fuel : ℕ} {s : Parsing J} (hf : s.measure < fuel) :
    Tame (parseFor fuel) s := by
  have hlt := nextToken_measure_lt hf
  refine tame_nextToken (tame_bind (parseForNames_tame (nextToken_peekTok s)) fun names t ht _ => ?_)
  have htm := ht.measure_le
  apply tame_get
  split
  · refine tame_nextToken (tame_expression (nextToken_peekTok t)
      (nextToken_measure_lt (by omega)) fun ok u hu => ?_)
    cases ok with
    | false => exact tame_pure hu _
    | true =>
      refine tame_modify (below_of_eq rfl rfl rfl rfl rfl) (tame_emit (by simp) ?_)
      exact tame_pure (by exact hu) _
  · exact tame_injaThrow _ _

theorem parseEndfor_tame (s : Parsing J) : Tame (parseEndfor : ParseM J Bool) s := by
  have hpeek := nextToken_peekTok s
  refine tame_nextToken (tame_get ?_)
  split
  · exact tame_injaThrow _ _
  · refine tame_bytecodes (fun h => noInclude_modify h _ _) (tame_emit (by simp) ?_)
    apply tame_modify (below_of_eq rfl rfl rfl rfl rfl)
    exact tame_pure (by exact hpeek) _

omit [NlohmannJson J] in
/-- No file can be read: an include that is not yet among the included templates stops the parse. -/
theorem parseTemplate_throws {α : Type} (into : Str → ParseM J Unit) (filename : Str)
    (k : Template J → ParseM J α) (s : Parsing J) : Tame (parseTemplate into filename >>= k) s := by
  show wp _ _ _ s
  rw [wp_bind]
  exact Option.some_ne_none _

theorem parseInclude_tame (into : Str → ParseM J Unit) (path : Str) (s : Parsing J) :
    Tame (parseInclude into path) s := by
  refine tame_nextToken (tame_get ?_)
  dsimp only
  split
  · refine tame_liftJson fun jsonName => tame_liftJson fun name => tame_get ?_
    split
    · rename_i included hlookup
      -- the template is among the included ones, so that there are some
      refine tame_modify ⟨rfl, rfl, Nat.le_refl _, fun hempty => ?_⟩
        (tame_nextToken (tame_pure (nextToken_peekTok _) _))
      rw [hempty] at hlookup
      simp at hlookup
    · exact parseTemplate_throws _ _ _ _
  · exact tame_injaThrow _ _

theorem parseStatement_tame (into : Str → ParseM J Unit) {fuel : ℕ} (path : Str) {s : Parsing J}
    (hs : s.peekTok = none) (hf : s.measure < fuel) : Tame (parseStatement into fuel path) s := by
  apply tame_get
  dsimp only
  split
  · exact parseIf_tame hf
  split
  · exact parseEndif_tame s
  split
  · exact parseElse_tame hf
  split
  · exact parseFor_tame hf
  split
  · exact parseEndfor_tame s
  split
  · exact parseInclude_tame into path s
  · exact tame_pure hs _

/-! ### The whole template -/

omit [NlohmannJson J] in
/-- A check on the token a block ends with. -/
theorem tame_check {c : Prop} [Decidable c] {s : Parsing J} (hs : s.peekTok = none)
    (type message : Str) :
    Tame (if c then pure () else injaThrow type message : ParseM J Unit) s := by
  split
  · exact tame_pure hs _
  · exact tame_injaThrow _ _

theorem parseBlock_tame (into : Str → ParseM J Unit) {fuel : ℕ} (path : Str) {s : Parsing J}
    (hs : s.peekTok = none) (hf : s.measure < fuel) : Tame (parseBlock into fuel path) s := by
  have hpeek := nextToken_peekTok s
  apply tame_get
  split
  · have hemit : Tame (emit { op := .printText, value := NlohmannJson.null, str := s.tok.text } >>=
        fun _ => pure () : ParseM J Unit) s :=
      tame_emit (by simp) (tame_pure (by exact hs) _)
    exact hemit
  · refine tame_nextToken (tame_bind (parseStatement_tame into path hpeek
      (nextToken_measure_lt hf)) fun ok t _ ht => tame_get ?_)
    cases ok with
    | false => exact tame_injaThrow _ _
    | true => exact tame_check ht _ _
  · refine tame_nextToken (tame_bind (parseStatement_tame into path hpeek
      (nextToken_measure_lt hf)) fun ok t _ ht => tame_get ?_)
    exact tame_check ht _ _
  · refine tame_nextToken (tame_expression hpeek (nextToken_measure_lt hf) fun ok t ht => ?_)
    cases ok with
    | false => exact tame_get (tame_injaThrow _ _)
    | true =>
      refine tame_bind (m := appendFunction .printValue 1 >>= fun _ => pure ())
        (tame_appendFunction (by decide) 1 () ht) fun _ u _ hu => tame_get ?_
      exact tame_check hu _ _
  · exact tame_nextToken (tame_get (tame_check hpeek _ _))
  · exact tame_injaThrow _ _

/-- A parser with nothing left over from a template: no peeked token and no open block. -/
structure Parser.Idle (p : Parser J) : Prop where
  peekTok : p.peekTok = none
  ifStack : p.ifStack = []
  loopStack : p.loopStack = []

/-- **The loop of `parse_into`**, by induction on the counter: each block but the end of the text
lowers the measure, and at the end no block is open. -/
theorem parseInto_spec (fuel : ℕ) (path : Str) (s : Parsing J) (hf : s.measure < fuel) :
    wp (parseInto fuel path) (fun _ s' => s.Below s' ∧ s'.toParser.Idle) (fun e => e ≠ none) s := by
  induction fuel generalizing s with
  | zero => omega
  | succ fuel ih =>
    have hbelow := nextToken_below s
    rw [parseInto, wp_bind]
    show wp _ _ _ s.nextToken
    rw [wp_bind, wp_get]
    split
    · split
      · exact Option.some_ne_none _
      · split
        · exact Option.some_ne_none _
        · rename_i hif hloop
          exact ⟨hbelow, nextToken_peekTok s, not_not.mp hif, not_not.mp hloop⟩
    · rename_i hne
      have hlt : s.nextToken.measure < fuel := by
        have := (nextToken_lt s).resolve_left hne
        omega
      rw [wp_bind]
      refine wp_mono (parseBlock_tame _ path (nextToken_peekTok s) hlt) (fun _ t ht => ?_)
        fun _ he => he
      have htm := ht.1.measure_le
      refine wp_mono (ih t (by omega)) (fun _ u hu => ?_) fun _ he => he
      exact ⟨hbelow.trans (ht.1.trans hu.1), hu.2⟩

/-- A parser about to read the template text `input`. -/
def Parser.begin (p : Parser J) (input : Str) : Parsing J :=
  { p with lexer := Lexer.start input, tmpl := { content := input } }

/-- What the counter of `parse` starts at. -/
def parseFuel (input : Str) : ℕ := 3 * input.length + 4

omit [NlohmannJson J] in
/-- The counter of `parse` exceeds the measure. -/
theorem begin_measure (p : Parser J) (input : Str) : (p.begin input).measure < parseFuel input := by
  have hpeek : peekWeight (p.begin input).peekTok ≤ 2 := by
    simp only [peekWeight]
    split
    · split <;> omega
    · omega
  have htok := tokWeight_le (p.begin input).tok
  have hlex : (p.begin input).lexer = Lexer.start input := rfl
  rw [Parsing.measure, hlex, parseFuel]
  simp only [Lexer.start]
  omega

theorem begin_spec (p : Parser J) (input : Str) :
    wp (parseInto (parseFuel input) "./")
      (fun _ s' => (p.begin input).Below s' ∧ s'.toParser.Idle) (fun e => e ≠ none)
      (p.begin input) :=
  parseInto_spec _ _ _ (begin_measure p input)

/-- The outcome of a run whose counter did not run out. -/
def settle {α : Type} : (r : Except (Option Stop) α) → r ≠ .error none → Except Stop α
  | .ok a, _ => .ok a
  | .error (some e), _ => .error e
  | .error none, h => absurd rfl h

omit [NlohmannJson J] in
theorem settle_eq_ok {α : Type} {r : Except (Option Stop) α} (h : r ≠ .error none) (a : α) :
    settle r h = .ok a ↔ r = .ok a := by
  match r, h with
  | .ok b, _ => simp [settle]
  | .error (some e), _ => simp [settle]
  | .error none, h => exact absurd rfl h

/-- The counter `parse` starts does not run out. -/
theorem begin_ne_none (p : Parser J) (input : Str) :
    (parseInto (parseFuel input) "./").run (p.begin input) ≠ .error none :=
  fun h => absurd rfl (wp_error (begin_spec p input) h)

/-- **`Parser::parse`**: the template and the parser left behind, or what stops the parse. -/
def Parser.parse (p : Parser J) (input : Str) : Except Stop (Template J × Parser J) :=
  (settle ((parseInto (parseFuel input) "./").run (p.begin input)) (begin_ne_none p input)).map
    fun r => (r.2.tmpl, r.2.toParser)

/-- A successful parse is a run that returns. -/
theorem parse_run {p q : Parser J} {input : Str} {tmpl : Template J}
    (h : p.parse input = .ok (tmpl, q)) :
    ∃ s : Parsing J, (parseInto (parseFuel input) "./").run (p.begin input) = .ok ((), s) ∧
      s.tmpl = tmpl ∧ s.toParser = q := by
  simp only [Parser.parse] at h
  cases hset : settle _ (begin_ne_none p input) with
  | error e =>
    rw [hset] at h
    exact absurd h (by simp [Except.map])
  | ok r =>
    rw [hset] at h
    obtain ⟨htmpl, hq⟩ := Prod.mk.inj (Except.ok.inj h)
    exact ⟨r.2, (settle_eq_ok (begin_ne_none p input) r).mp hset, htmpl, hq⟩

/-- The state a successful parse ends in. -/
theorem parse_ok {p q : Parser J} {input : Str} {tmpl : Template J}
    (h : p.parse input = .ok (tmpl, q)) :
    ∃ s : Parsing J, (p.begin input).Below s ∧ s.toParser.Idle ∧ s.tmpl = tmpl ∧ s.toParser = q := by
  obtain ⟨s, hrun, htmpl, hq⟩ := parse_run h
  obtain ⟨hbelow, hidle⟩ := wp_ok (begin_spec p input) hrun
  exact ⟨s, hbelow, hidle, htmpl, hq⟩

/-- A successful parse leaves an idle parser and the included templates as they were. -/
theorem parse_idle {p q : Parser J} {input : Str} {tmpl : Template J}
    (h : p.parse input = .ok (tmpl, q)) :
    q.Idle ∧ q.includedTemplates = p.includedTemplates := by
  obtain ⟨s, hbelow, hidle, -, rfl⟩ := parse_ok h
  exact ⟨hidle, hbelow.included⟩

/-- Without included templates, a parsed template includes none. -/
theorem parse_noInclude {p q : Parser J} {input : Str} {tmpl : Template J}
    (hempty : p.includedTemplates = ∅) (h : p.parse input = .ok (tmpl, q)) :
    NoInclude tmpl.bytecodes := by
  obtain ⟨s, hbelow, -, rfl, -⟩ := parse_ok h
  exact hbelow.noInclude hempty fun bc hbc => absurd hbc List.not_mem_nil

omit [NlohmannJson J] in
theorem begin_nextToken {p q : Parser J} (hp : p.Idle) (hq : q.Idle)
    (hincl : p.includedTemplates = q.includedTemplates) (input : Str) :
    (p.begin input).nextToken = (q.begin input).nextToken := by
  have hpp : (p.begin input).peekTok = none := hp.peekTok
  have hqp : (q.begin input).peekTok = none := hq.peekTok
  simp only [Parsing.nextToken, hpp, hqp]
  simp only [Parser.begin, hp.peekTok, hq.peekTok, hp.ifStack, hq.ifStack, hp.loopStack,
    hq.loopStack, hincl]

/-- **An idle parser parses as any other.**  What an earlier template left in the lexer and the
current token is not looked at. -/
theorem parse_eq_of_idle {p q : Parser J} (hp : p.Idle) (hq : q.Idle)
    (hincl : p.includedTemplates = q.includedTemplates) (input : Str) :
    p.parse input = q.parse input := by
  have hrun : (parseInto (parseFuel input) "./").run (p.begin input)
      = (parseInto (parseFuel input) "./").run (q.begin input) := by
    have hfuel : parseFuel input = 3 * input.length + 3 + 1 := rfl
    rw [hfuel, parseInto]
    show StateT.run _ (p.begin input).nextToken = StateT.run _ (q.begin input).nextToken
    rw [begin_nextToken hp hq hincl]
  simp only [Parser.parse, hrun]

end EnvoyWasmFilters.Inja
