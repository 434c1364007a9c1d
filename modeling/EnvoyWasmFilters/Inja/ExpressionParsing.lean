import EnvoyWasmFilters.Inja.Grammar

/-!
# The parser on the expressions of the grammar

What the grammar derives the parser accepts, and it appends the bytecode of the expression derived; only a `default`
without two bytecodes to exchange is undefined.

* `Accepts` — an action that returns `true` at the tokens behind the expression, or is undefined;
* one lemma for each level of the grammar, given the one for parenthesised expressions and arguments;
* `parseExpression_accepts` — **the whole expression**, by induction on the counter.
-/

namespace EnvoyWasmFilters.Inja

open StateExcept

variable {J : Type} {input : Str} {s t : Parsing J} {toks rest : List Token} {tok : Token}

/-! ### Steps of the parser -/

theorem run_nextToken_bind {α : Type} (f : Unit → ParseM J α) (s : Parsing J) (w : Writing J) :
    (getNextToken >>= f).run (s.write w) = (f ()).run (s.nextToken.write w) := by
  rw [← nextToken_write]
  rfl

theorem run_peekToken_bind {α : Type} (f : Unit → ParseM J α) (s : Parsing J) (w : Writing J) :
    (getPeekToken >>= f).run (s.write w) = (f ()).run (s.peekToken.write w) := by
  rw [← peekToken_write]
  rfl

theorem run_bytecodes_bind {α : Type} (g : List (Bytecode J) → List (Bytecode J)) (f : Unit → ParseM J α)
    (s : Parsing J) (w : Writing J) :
    (modifyBytecodes g >>= f).run (s.write w) = (f ()).run (s.write (w.map g)) := rfl

theorem run_swap_bind {α : Type} (f : Unit → ParseM J α) (s : Parsing J) (w : Writing J) :
    (swapArguments >>= f).run (s.write w) =
      if w.bytecodes.length < 2 then .error (some .undefinedBehaviour)
      else (f ()).run (s.write (w.map swapLastTwo)) := run_swapArguments_bind f (s.write w)

theorem Writing.map_map (w : Writing J) (f g : List (Bytecode J) → List (Bytecode J)) :
    (w.map f).map g = w.map fun bcs => g (f bcs) := rfl

variable [NlohmannJson J]

/-- The action returns `true` at the tokens `rest`, having appended the bytecode of `e`, if the arguments of every
`default` in `e` can be exchanged, and is undefined otherwise. -/
def Accepts (m : ParseM J Bool) (s : Parsing J) (rest : List Token) (e : Expr J) : Prop :=
  ∃ t, s.After rest t ∧ ∀ w, m.run (s.write w)
    = okIf (e.swappable w.bytecodes) (some .undefinedBehaviour) true (t.write (w.map e.emit))

/-- The value of the characters up to the current token, whether or not the next one has been looked at. -/
theorem run_returnJson {first : ℕ} {value : J} (hvalue : JsonText s.lexer.input first s.tok value)
    (w : Writing J) :
    (returnJson first).run (s.write w) = .ok (true, s.nextToken.write (w.map (Expr.literal value).emit)) := by
  have hparse : NlohmannJson.parse (slice (s.write w).lexer.input first
      ((s.write w).tok.start + (s.write w).tok.text.length)) = .ok value := hvalue
  rw [returnJson, run_get_bind, hparse, ← nextToken_write]
  rfl

/-- The functions `ParserStatic` registers compute a value, `default` with its two arguments apart. -/
theorem findBuiltin_cases (name : Str) (n : ℕ) :
    findBuiltin name n = .nop ∨ (findBuiltin name n).computes = true ∨
      (findBuiltin name n = .default ∧ n = 2) := by
  have htable : ∀ b ∈ builtins, b.2.2.computes = true ∨ (b.2.2 = .default ∧ b.2.1 = 2) := by decide
  cases hfind : builtins.find? (fun b => b.1 == name && b.2.1 == n) with
  | none =>
    left
    simp only [findBuiltin, hfind]
  | some b =>
    right
    have hargs : b.2.1 = n := by
      have := List.find?_some hfind
      simp only [Bool.and_eq_true, beq_iff_eq] at this
      exact this.2
    have hop : findBuiltin name n = b.2.2 := by simp only [findBuiltin, hfind]
    rw [hop]
    rcases htable b (List.mem_of_find?_eq_some hfind) with hcomputes | ⟨hdefault, htwo⟩
    · exact Or.inl hcomputes
    · exact Or.inr ⟨hdefault, hargs.symm.trans htwo⟩

omit [NlohmannJson J] in
/-- A call of anything but `default`. -/
theorem call_eq_apply {name : Str} {args : List (Expr J)} (h : findBuiltin name args.length ≠ .default) :
    Expr.call name args = .apply (Func.named name args.length) args := by
  rw [Expr.call]
  exact fun _ _ hdefault _ => h hdefault

/-- A call is swappable where its arguments are and, if it is `default`, leave two bytecodes. -/
theorem swappable_call (name : Str) (args : List (Expr J)) (bcs : List (Bytecode J)) :
    (Expr.call name args).swappable bcs = (swappableAll args bcs &&
      decide (findBuiltin name args.length = .default → 2 ≤ (emitAll args bcs).length)) := by
  by_cases hdefault : findBuiltin name args.length = .default
  · have htwo : args.length = 2 := by
      rcases findBuiltin_cases name args.length with hnop | hcomputes | ⟨-, htwo⟩
      · rw [hdefault] at hnop
        cases hnop
      · rw [hdefault] at hcomputes
        cases hcomputes
      · exact htwo
    obtain ⟨first, second, rfl⟩ := List.length_eq_two.mp htwo
    have hcall : Expr.call name [first, second] = .default first second := by
      simp only [Expr.call, hdefault]
    have hpair : findBuiltin name 2 = .default := hdefault
    simp [hcall, hpair, Expr.swappable, swappableAll, emitAll]
  · rw [call_eq_apply hdefault, decide_eq_true fun h => absurd h hdefault, Bool.and_true, Expr.swappable]

/-- **The end of a call**: the bytecode is that of the call. -/
theorem run_emitCall (name : Str) (args : List (Expr J)) (s : Parsing J) (w : Writing J) :
    (emitCall name args.length).run (s.write (w.map (emitAll args)))
      = okIf (decide (findBuiltin name args.length = .default → 2 ≤ (emitAll args w.bytecodes).length))
          (some .undefinedBehaviour) true (s.write (w.map (Expr.call name args).emit)) := by
  rcases findBuiltin_cases name args.length with hnop | hcomputes | ⟨hdefault, htwo⟩
  · have hfunc : Func.named name args.length = .callback name := by
      rw [Func.named, dif_neg (by rw [hnop]; decide)]
    rw [call_eq_apply (by rw [hnop]; decide), hfunc, okIf_of (by rw [hnop]; rfl)]
    simp only [emitCall, hnop, if_true]
    rfl
  · have hfunc : Func.named name args.length = .builtin (findBuiltin name args.length) hcomputes := by
      rw [Func.named, dif_pos hcomputes]
    have hne : ∀ op : Op, op.computes = false → findBuiltin name args.length ≠ op := by
      rintro op hop rfl
      rw [hop] at hcomputes
      cases hcomputes
    rw [call_eq_apply (hne .default rfl), hfunc, okIf_of (decide_eq_true fun h => absurd h (hne .default rfl))]
    simp only [emitCall, if_neg (hne .nop rfl), if_neg (hne .default rfl)]
    rfl
  · obtain ⟨first, second, rfl⟩ := List.length_eq_two.mp htwo
    have hcall : Expr.call name [first, second] = .default first second := by
      simp only [Expr.call, hdefault]
    rw [hcall]
    simp only [emitCall, hdefault, reduceCtorEq, if_false, if_true]
    rw [run_swap_bind]
    by_cases hlength : 2 ≤ (emitAll [first, second] w.bytecodes).length
    · rw [okIf_of (decide_eq_true fun _ => hlength)]
      exact if_neg (Nat.not_lt.mpr hlength)
    · rw [decide_eq_false fun h => hlength (h trivial)]
      exact if_pos (Nat.not_le.mp hlength)

/-! ### Data -/

/-- What the levels below the disjunction are given: an action that accepts the expressions the grammar derives,
from a state of a lower measure. -/
def AcceptsBelow (input : Str) (expression : ParseM J Bool) (bound : ℕ) : Prop :=
  ∀ toks (e : Expr J) rest (s : Parsing J), Derives input .disjunction toks e rest → s.Ready input toks →
    s.measure < bound → Accepts expression s rest e

section Levels

variable {expression : ParseM J Bool} {bound : ℕ} (hexpr : AcceptsBelow input expression bound)

include hexpr

/-- **The arguments of a call**, by induction on their derivation. -/
theorem parseArguments_accepts {args : List (Expr J)}
    (h : Arguments (Derives input .disjunction) toks args rest) (fuel n : ℕ) (hs : s.Ready input toks)
    (hb : s.measure < bound) (hf : s.measure < fuel) :
    ∃ t, s.After rest t ∧ ∀ w, (parseArguments expression fuel n).run (s.write w)
      = okIf (swappableAll args w.bytecodes) (some .undefinedBehaviour) (n + args.length)
          (t.write (w.map (emitAll args))) := by
  induction h generalizing fuel n s with
  | @last toks rest e close hlast hclose =>
    obtain ⟨fuel, rfl⟩ := Nat.exists_eq_succ_of_ne_zero (Nat.ne_of_gt (Nat.zero_lt_of_lt hf))
    obtain ⟨t, ht, hrun⟩ := hexpr _ _ _ s hlast hs hb
    have hkind : t.tok.kind = .rightParen := by rw [ht.shows.1, hclose]
    refine ⟨t.nextToken, ht.trans ht.shows.after, fun w => ?_⟩
    rw [parseArguments, swappableAll]
    refine run_bind_okIf (hrun w) ?_
    rw [run_get_bind]
    simp only [if_true, write_tok, hkind]
    rw [run_nextToken_bind]
    rfl
  | @more toks others rest e es comma hfirst hcomma hmore ih =>
    obtain ⟨fuel, rfl⟩ := Nat.exists_eq_succ_of_ne_zero (Nat.ne_of_gt (Nat.zero_lt_of_lt hf))
    obtain ⟨t, ht, hrun⟩ := hexpr _ _ _ s hfirst hs hb
    have hkind : t.tok.kind = .comma := by rw [ht.shows.1, hcomma]
    have hlt := ht.shows.measure_lt
    have hle := ht.measure_le
    obtain ⟨u, hu, hrest⟩ := ih fuel (n + 1) ((hs.of_after ht).next) (by omega) (by omega)
    refine ⟨u, (ht.trans ht.shows.after).trans hu, fun w => ?_⟩
    rw [parseArguments, swappableAll]
    refine run_bind_okIf (hrun w) ?_
    rw [run_get_bind]
    simp only [if_true, write_tok, hkind]
    rw [run_nextToken_bind, hrest, List.length_cons, Nat.add_assoc, Nat.add_comm 1]
    rfl

/-- **A call**, from its name on; the parenthesis has been looked at. -/
theorem parseFunctionCall_accepts {func left : Token} (args : List (Expr J)) (rest : List Token)
    (h : (args = [] ∧ ∃ right : Token, right.kind = .rightParen ∧ toks = right :: rest) ∨
      (look toks ≠ .rightParen ∧ Arguments (Derives input .disjunction) toks args rest)) (fuel : ℕ)
    (hs : s.Ready input (func :: left :: toks)) (hb : s.measure ≤ bound) (hf : s.measure ≤ fuel) :
    ∃ t, s.After rest t ∧ ∀ w, (parseFunctionCall expression fuel).run (s.peekToken.write w)
      = okIf ((Expr.call func.text args).swappable w.bytecodes) (some .undefinedBehaviour) true
          (t.write (w.map (Expr.call func.text args).emit)) := by
  have hname : s.peekToken.tok.text = func.text := by rw [peekToken_tok, hs.shows.1]
  have hfunc := hs.shows.after
  have hleft := (hs.next).shows.after
  have hlt := hs.shows.measure_lt
  have hle := hleft.measure_le
  have hready := hs.next.next
  have hkind := hready.shows.kind
  have hstart : ∀ w : Writing J, (parseFunctionCall expression fuel).run (s.peekToken.write w)
      = StateT.run (if s.nextToken.nextToken.tok.kind = .rightParen then do
          getNextToken
          emitCall func.text 0
        else do
          let numArgs ← parseArguments expression fuel 0
          emitCall func.text numArgs) (s.nextToken.nextToken.write w) := by
    intro w
    rw [parseFunctionCall, run_get_bind, run_nextToken_bind, run_nextToken_bind, run_get_bind,
      peekToken_nextToken, write_tok, write_tok, hname]
  obtain ⟨rfl, right, hright, rfl⟩ | ⟨hne, harguments⟩ := h
  · refine ⟨_, (hfunc.trans hleft).trans hready.shows.after, fun w => ?_⟩
    rw [hstart, if_pos (by rw [hkind, look, hright]), run_nextToken_bind, swappable_call, swappableAll,
      Bool.true_and]
    exact run_emitCall func.text [] _ w
  · obtain ⟨t, ht, hrun⟩ := parseArguments_accepts hexpr harguments fuel 0 hready (by omega) (by omega)
    refine ⟨t, (hfunc.trans hleft).trans ht, fun w => ?_⟩
    rw [hstart, if_neg (by rw [hkind]; exact hne), swappable_call]
    refine run_bind_okIf (hrun w) ?_
    rw [Nat.zero_add]
    exact run_emitCall func.text args t w

omit hexpr in
/-- An identifier: what follows it decides whether it is called. -/
theorem run_datum_id {fuel first bracket brace : ℕ} (hid : s.tok.kind = .id) (hpeek : s.peekTok = none)
    (w : Writing J) :
    (parseExpressionDatum expression (fuel + 1) first bracket brace).run (s.write w)
      = StateT.run (if s.nextToken.tok.kind = .leftParen then parseFunctionCall expression fuel
        else if s.tok.JsonWord then
          if (brace == 0 && bracket == 0) = true then returnJson s.tok.start
          else do
            getNextToken
            parseExpressionDatum expression fuel first bracket brace
        else do
          emit { op := .push, value := NlohmannJson.null, str := s.tok.text, flags := .lookupDot }
          getNextToken
          pure true) (s.peekToken.write w) := by
  rw [parseExpressionDatum, run_get_bind]
  simp only [write_tok, hid]
  rw [run_peekToken_bind, run_get_bind]
  simp only [write_tok, write_peekTok, peekToken_tok, peekTok_peekToken hpeek, Option.map_some,
    Option.some.injEq]
  rfl

omit hexpr in
/-- A scalar ends the datum it begins, or belongs to the value it is in. -/
theorem run_datum_scalar (expression : ParseM J Bool) (fuel first bracket brace : ℕ) (hscalar : Scalar tok rest)
    (hs : s.Ready input (tok :: rest)) :
    ∃ s' : Parsing J, s'.tok = tok ∧ s'.nextToken = s.nextToken ∧ s'.lexer.input = input ∧ ∀ w,
      (parseExpressionDatum expression (fuel + 1) first bracket brace).run (s.write w)
        = StateT.run (if (brace == 0 && bracket == 0) = true then returnJson tok.start
          else do
            getNextToken
            parseExpressionDatum expression fuel first bracket brace) (s'.write w) := by
  have htok := hs.shows.1
  rcases hscalar with hnumber | hstring | ⟨hid, hcall, hword⟩
  · refine ⟨s, htok, rfl, hs.lexer, fun w => ?_⟩
    rw [parseExpressionDatum, run_get_bind]
    simp only [write_tok, htok, hnumber]
  · refine ⟨s, htok, rfl, hs.lexer, fun w => ?_⟩
    rw [parseExpressionDatum, run_get_bind]
    simp only [write_tok, htok, hstring]
  · refine ⟨s.peekToken, by rw [peekToken_tok, htok], peekToken_nextToken s,
      (peekToken_below s).input.trans hs.lexer, fun w => ?_⟩
    have hnext : s.nextToken.tok.kind ≠ .leftParen := by rw [hs.next.shows.kind]; exact hcall
    rw [run_datum_id (by rw [htok, hid]) hs.peekTok, if_neg hnext, if_pos (by rw [htok]; exact hword), htok]

/-- **A datum**, by induction on the counter: each production consumes a token. -/
theorem parseExpressionDatum_accepts {first bracket brace : ℕ} {e : Expr J} (fuel : ℕ)
    (h : Derives input (.datum first bracket brace) toks e rest) (hs : s.Ready input toks)
    (hb : s.measure ≤ bound) (hf : s.measure < fuel) :
    Accepts (parseExpressionDatum expression fuel first bracket brace) s rest e := by
  induction fuel generalizing first bracket brace toks s with
  | zero => omega
  | succ fuel ih =>
    -- a token that belongs to the value: the loop goes on behind it
    have hround : ∀ (tok : Token) (toks : List Token) (first bracket brace : ℕ), s.Ready input (tok :: toks) →
        Derives input (.datum first bracket brace) toks e rest →
        ∃ t, s.After rest t ∧ ∀ w, (parseExpressionDatum expression fuel first bracket brace).run
          (s.nextToken.write w)
            = okIf (e.swappable w.bytecodes) (some .undefinedBehaviour) true (t.write (w.map e.emit)) := by
      intro tok toks first bracket brace hs he
      have hlt := hs.shows.measure_lt
      obtain ⟨t, ht, hrun⟩ := ih he hs.next (by omega) (by omega)
      exact ⟨t, hs.shows.after.trans ht, hrun⟩
    cases h with
    | @var first bracket brace tok rest hid hcall hword =>
      have htok := hs.shows.1
      have hnext : s.nextToken.tok.kind ≠ .leftParen := by rw [hs.next.shows.kind]; exact hcall
      refine ⟨s.nextToken, hs.shows.after, fun w => ?_⟩
      rw [run_datum_id (by rw [htok, hid]) hs.peekTok, if_neg hnext, if_neg (by rw [htok]; exact hword), emit,
        run_bytecodes_bind, run_nextToken_bind, peekToken_nextToken, htok]
      rfl
    | @paren first bracket brace left right toks rest e hleft he hright =>
      have hlt := hs.shows.measure_lt
      obtain ⟨t, ht, hrun⟩ := hexpr _ _ _ _ he hs.next (by omega)
      have hkind : t.tok.kind = .rightParen := by rw [ht.shows.1, hright]
      refine ⟨t.nextToken, (hs.shows.after.trans ht).trans ht.shows.after, fun w => ?_⟩
      rw [parseExpressionDatum, run_get_bind]
      simp only [write_tok, hs.shows.1, hleft]
      rw [run_nextToken_bind, ← Bool.and_true (e.swappable w.bytecodes)]
      refine run_bind_okIf (hrun w) ?_
      simp only [if_true]
      rw [run_get_bind, if_pos (by exact hkind), run_nextToken_bind]
      rfl
    | @call0 first bracket brace func left right rest hid hleft hright =>
      obtain ⟨t, ht, hrun⟩ := parseFunctionCall_accepts hexpr [] rest (Or.inl ⟨rfl, right, hright, rfl⟩) fuel hs hb
        (by omega)
      refine ⟨t, ht, fun w => ?_⟩
      rw [run_datum_id (by rw [hs.shows.1, hid]) hs.peekTok, if_pos (by rw [hs.next.shows.1, hleft]), hrun]
    | @call first bracket brace func left toks rest args hid hleft hne harguments =>
      obtain ⟨t, ht, hrun⟩ := parseFunctionCall_accepts hexpr args rest (Or.inr ⟨hne, harguments⟩) fuel hs hb
        (by omega)
      refine ⟨t, ht, fun w => ?_⟩
      rw [run_datum_id (by rw [hs.shows.1, hid]) hs.peekTok, if_pos (by rw [hs.next.shows.1, hleft]), hrun]
    | @scalar first tok rest value hscalar hvalue =>
      obtain ⟨s', htok, hnext, hinput, hrun⟩ := run_datum_scalar expression fuel first 0 0 hscalar hs
      refine ⟨s.nextToken, hs.shows.after, fun w => ?_⟩
      rw [hrun, if_pos (by decide), run_returnJson (by rw [hinput, htok]; exact hvalue), hnext]
      rfl
    | @part first bracket brace tok toks rest e hinside hpart he =>
      have houter : (brace == 0 && bracket == 0) = false := by
        rw [Bool.eq_false_iff]
        simpa using hinside
      obtain ⟨t, ht, hrest⟩ := hround tok toks first bracket brace hs he
      refine ⟨t, ht, fun w => ?_⟩
      rcases hpart with hscalar | hcomma | hcolon
      · obtain ⟨s', -, hnext, -, hrun⟩ := run_datum_scalar expression fuel first bracket brace hscalar
          hs
        rw [hrun, if_neg (by rw [houter]; decide), run_nextToken_bind, hnext, hrest]
      · rw [parseExpressionDatum, run_get_bind]
        simp only [write_tok, hs.shows.1, hcomma, houter]
        exact (run_nextToken_bind _ s w).trans (hrest w)
      · rw [parseExpressionDatum, run_get_bind]
        simp only [write_tok, hs.shows.1, hcolon, houter]
        exact (run_nextToken_bind _ s w).trans (hrest w)
    | @leftBracket first bracket brace tok toks rest e htok he =>
      obtain ⟨t, ht, hrest⟩ := hround tok toks _ (bracket + 1) brace hs he
      refine ⟨t, ht, fun w => ?_⟩
      rw [parseExpressionDatum, run_get_bind]
      simp only [write_tok, hs.shows.1, htok, Bool.and_eq_true, beq_iff_eq]
      exact (run_nextToken_bind _ s w).trans (hrest w)
    | @leftBrace first bracket brace tok toks rest e htok he =>
      obtain ⟨t, ht, hrest⟩ := hround tok toks _ bracket (brace + 1) hs he
      refine ⟨t, ht, fun w => ?_⟩
      rw [parseExpressionDatum, run_get_bind]
      simp only [write_tok, hs.shows.1, htok, Bool.and_eq_true, beq_iff_eq]
      exact (run_nextToken_bind _ s w).trans (hrest w)
    | @rightBracket first bracket brace tok toks rest e htok hlast he =>
      obtain ⟨t, ht, hrest⟩ := hround tok toks first bracket brace hs he
      refine ⟨t, ht, fun w => ?_⟩
      rw [parseExpressionDatum, run_get_bind]
      simp only [write_tok, hs.shows.1, htok, Nat.add_eq_zero_iff, Nat.one_ne_zero, and_false, if_false,
        Nat.add_eq_right, hlast, Nat.add_sub_cancel]
      exact (run_nextToken_bind _ s w).trans (hrest w)
    | @rightBrace first bracket brace tok toks rest e htok hlast he =>
      obtain ⟨t, ht, hrest⟩ := hround tok toks first bracket brace hs he
      refine ⟨t, ht, fun w => ?_⟩
      rw [parseExpressionDatum, run_get_bind]
      simp only [write_tok, hs.shows.1, htok, Nat.add_eq_zero_iff, Nat.one_ne_zero, and_false, if_false,
        Nat.add_eq_right, hlast, Nat.add_sub_cancel]
      exact (run_nextToken_bind _ s w).trans (hrest w)
    | @array first tok rest value htok hvalue =>
      refine ⟨s.nextToken, hs.shows.after, fun w => ?_⟩
      rw [parseExpressionDatum, run_get_bind]
      simp only [write_tok, hs.shows.1, htok, Nat.one_ne_zero, if_false, and_self, if_true]
      exact run_returnJson (by rw [hs.lexer, hs.shows.1]; exact hvalue) w
    | @object first tok rest value htok hvalue =>
      refine ⟨s.nextToken, hs.shows.after, fun w => ?_⟩
      rw [parseExpressionDatum, run_get_bind]
      simp only [write_tok, hs.shows.1, htok, Nat.one_ne_zero, if_false, and_self, if_true]
      exact run_returnJson (by rw [hs.lexer, hs.shows.1]; exact hvalue) w

/-! ### Operators -/

omit [NlohmannJson J] hexpr in
theorem Parsing.Shows.comparisonOp (h : s.Shows toks) :
    comparisonOp s.tok = toks.head?.bind Inja.comparisonOp := by
  cases toks with
  | nil => simp [Inja.comparisonOp, h.kind, look]
  | cons tok toks =>
    rw [h.1]
    rfl

omit [NlohmannJson J] hexpr in
theorem Parsing.Shows.isWord (h : s.Shows toks) (word : Str) :
    s.tok.isWord word = toks.head?.any (·.isWord word) := by
  cases toks with
  | nil => simp [Token.isWord, h.kind, look]
  | cons tok toks =>
    rw [h.1]
    rfl

omit [NlohmannJson J] hexpr in
theorem run_appendFunction (op : Op) (n : ℕ) [NlohmannJson J] (s : Parsing J) (w : Writing J) :
    (appendFunction op n >>= fun _ => (pure true : ParseM J Bool)).run (s.write w)
      = okIf true (some .undefinedBehaviour) true (s.write (w.map (withFunction op n))) := rfl

omit hexpr in
theorem swappable_binary (op : Op) (hcomputes : op.computes = true) (left right : Expr J)
    (bcs : List (Bytecode J)) :
    (Expr.binary op hcomputes left right).swappable bcs
      = (left.swappable bcs && (right.swappable (left.emit bcs) && true)) := rfl

theorem parseExpressionComparison_accepts {e : Expr J} (fuel : ℕ) (h : Derives input .comparison toks e rest)
    (hs : s.Ready input toks) (hb : s.measure ≤ bound) (hf : s.measure < fuel) :
    Accepts (parseExpressionComparison expression fuel) s rest e := by
  cases h with
  | @datum toks rest e he hnext =>
    obtain ⟨t, ht, hrun⟩ := parseExpressionDatum_accepts hexpr fuel he hs hb hf
    have hop : comparisonOp t.tok = none := by rw [ht.shows.comparisonOp, hnext]
    refine ⟨t, ht, fun w => ?_⟩
    rw [parseExpressionComparison, ← Bool.and_true (e.swappable w.bytecodes)]
    refine run_bind_okIf (hrun w) ?_
    simp only [if_true]
    rw [run_get_bind]
    simp only [write_tok, hop]
    rfl
  | @compare toks toks' rest left right tok op hleft hop hcomputes hright =>
    obtain ⟨t, ht, hrun⟩ := parseExpressionDatum_accepts hexpr fuel hleft hs hb hf
    have hready := hs.of_after ht
    have hlt := ht.shows.measure_lt
    have hle := ht.measure_le
    obtain ⟨u, hu, hrun'⟩ := parseExpressionDatum_accepts hexpr fuel hright hready.next (by omega) (by omega)
    refine ⟨u, (ht.trans ht.shows.after).trans hu, fun w => ?_⟩
    rw [parseExpressionComparison, swappable_binary]
    refine run_bind_okIf (hrun w) ?_
    simp only [if_true]
    rw [run_get_bind]
    simp only [write_tok, ht.shows.1, hop]
    rw [run_nextToken_bind]
    exact run_bind_okIf (hrun' _) (run_appendFunction op 2 u _)

theorem parseExpressionNot_accepts {e : Expr J} (fuel : ℕ) (h : Derives input .negation toks e rest)
    (hs : s.Ready input toks) (hb : s.measure ≤ bound) (hf : s.measure < fuel) :
    Accepts (parseExpressionNot expression fuel) s rest e := by
  induction fuel generalizing toks e s with
  | zero => omega
  | succ fuel ih =>
    cases h with
    | @comparison toks rest e hnot he =>
      obtain ⟨t, ht, hrun⟩ := parseExpressionComparison_accepts hexpr (fuel + 1) he hs hb hf
      refine ⟨t, ht, fun w => ?_⟩
      rw [parseExpressionNot, run_get_bind, write_tok, hs.shows.isWord, if_neg hnot]
      exact hrun w
    | @not tok toks rest e hnot he =>
      have hlt := hs.shows.measure_lt
      obtain ⟨t, ht, hrun⟩ := ih he hs.next (by omega) (by omega)
      refine ⟨t, hs.shows.after.trans ht, fun w => ?_⟩
      rw [parseExpressionNot, run_get_bind, write_tok, hs.shows.1, if_pos hnot, run_nextToken_bind]
      exact run_bind_okIf (hrun w) (run_appendFunction .not 1 t _)

omit hexpr in
/-- One operand, or two with the operator's word between them. -/
theorem parseBinary_accepts {operand : ParseM J Bool} {word : Str} {op : Op} (hcomputes : op.computes = true)
    {level : Level} {left : Expr J} {toks' : List Token}
    (hoperand : ∀ toks (e : Expr J) rest (s : Parsing J), Derives input level toks e rest →
      s.Ready input toks → s.measure ≤ bound → Accepts operand s rest e)
    (hleft : Derives input level toks left toks') (hs : s.Ready input toks) (hb : s.measure ≤ bound) :
    (toks'.head?.any (·.isWord word) = false → Accepts (parseBinary operand word op) s toks' left) ∧
    ∀ tok toks'' right rest, toks' = tok :: toks'' → tok.isWord word = true →
      Derives input level toks'' right rest →
      Accepts (parseBinary operand word op) s rest (Expr.binary op hcomputes left right) := by
  obtain ⟨t, ht, hrun⟩ := hoperand _ _ _ s hleft hs hb
  constructor
  · intro hnext
    refine ⟨t, ht, fun w => ?_⟩
    rw [parseBinary, ← Bool.and_true (left.swappable w.bytecodes)]
    refine run_bind_okIf (hrun w) ?_
    simp only [if_true]
    rw [run_get_bind, write_tok, ht.shows.isWord, hnext]
    rfl
  · rintro tok toks'' right rest rfl hword hright
    have hready := hs.of_after ht
    have hlt := ht.shows.measure_lt
    have hle := ht.measure_le
    obtain ⟨u, hu, hrun'⟩ := hoperand _ _ _ _ hright hready.next (by omega)
    refine ⟨u, (ht.trans ht.shows.after).trans hu, fun w => ?_⟩
    rw [parseBinary, swappable_binary]
    refine run_bind_okIf (hrun w) ?_
    simp only [if_true]
    rw [run_get_bind, write_tok, ht.shows.1, if_pos hword, run_nextToken_bind]
    exact run_bind_okIf (hrun' _) (run_appendFunction op 2 u _)

theorem parseExpressionAnd_accepts {e : Expr J} (fuel : ℕ) (h : Derives input .conjunction toks e rest)
    (hs : s.Ready input toks) (hb : s.measure ≤ bound) (hbf : bound < fuel) :
    Accepts (parseExpressionAnd expression fuel) s rest e := by
  have hoperand : ∀ toks (e : Expr J) rest (s : Parsing J), Derives input .negation toks e rest →
      s.Ready input toks → s.measure ≤ bound →
      Accepts (parseExpressionNot expression fuel) s rest e :=
    fun _ _ _ _ he hs hb => parseExpressionNot_accepts hexpr fuel he hs hb (by omega)
  cases h with
  | @negation toks rest e he hnext =>
    exact (parseBinary_accepts rfl hoperand he hs hb).1 (by simpa using hnext)
  | @and toks toks' rest left right tok hleft hand hright =>
    exact (parseBinary_accepts rfl hoperand hleft hs hb).2 tok toks' right rest rfl hand hright

end Levels

/-- **What the grammar derives the parser accepts**, with the bytecode of the expression derived, where its
arguments can be exchanged; by induction on the counter. -/
theorem parseExpression_accepts {e : Expr J} (fuel : ℕ) (h : Derives input .disjunction toks e rest)
    (hs : s.Ready input toks) (hf : s.measure < fuel) : Accepts (parseExpression fuel) s rest e := by
  induction fuel generalizing toks e rest s with
  | zero => omega
  | succ fuel ih =>
    have hexpr : AcceptsBelow input (parseExpression fuel) fuel := fun _ _ _ _ he hs hlt => ih he hs hlt
    have hoperand : ∀ toks (e : Expr J) rest (s : Parsing J), Derives input .conjunction toks e rest →
        s.Ready input toks → s.measure ≤ fuel →
        Accepts (parseExpressionAnd (parseExpression fuel) (fuel + 1)) s rest e :=
      fun _ _ _ _ he hs hb =>
        parseExpressionAnd_accepts hexpr (fuel + 1) he hs hb (Nat.lt_succ_self fuel)
    cases h with
    | @conjunction toks rest e he hnext =>
      exact (parseBinary_accepts rfl hoperand he hs (by omega)).1 (by simpa using hnext)
    | @or toks toks' rest left right tok hleft hor hright =>
      exact (parseBinary_accepts rfl hoperand hleft hs (by omega)).2 tok toks' right rest rfl hor hright

/-- An expression with arguments to exchange. -/
theorem parseExpression_returns {e : Expr J} (fuel : ℕ) (h : Derives input .disjunction toks e rest)
    (hs : s.Ready input toks) (hf : s.measure < fuel) {w : Writing J} (hswap : e.swappable w.bytecodes = true) :
    ∃ t, s.After rest t ∧ (parseExpression fuel).run (s.write w) = .ok (true, t.write (w.map e.emit)) := by
  obtain ⟨t, ht, hrun⟩ := parseExpression_accepts fuel h hs hf
  exact ⟨t, ht, (hrun w).trans (okIf_of hswap _ _ _)⟩

end EnvoyWasmFilters.Inja
