import EnvoyWasmFilters.Inja.ExpressionParsing
import EnvoyWasmFilters.Inja.Json

/-!
# What the parser accepts the grammar derives

The other direction: where `parse_expression` returns `true`, the tokens begin with an expression.  The state it is
left in is then known from the derivation, so that a parser's parts are taken one behind the other.  A `default` has
found two bytecodes to exchange.

* `Sound` — an action that returns `true` only where the grammar derives something;
* one lemma for each level of the grammar;
* `parseExpression_iff` — **the parser accepts exactly what the grammar derives**, `default` without two bytecodes
  apart.
-/

namespace EnvoyWasmFilters.Inja

open StateExcept

variable {J : Type} {input : Str} {s : Parsing J} {toks rest : List Token} {w : Writing J}

/-- Where the action returns `true`, `derives` holds of some expression and the tokens behind it. -/
def Sound (m : ParseM J Bool) (s : Parsing J) (derives : Expr J → List Token → Prop) : Prop :=
  ∀ w t, m.run (s.write w) = .ok (true, t) → ∃ e rest, derives e rest

/-- An action and what is done if it returns `true`. -/
theorem run_then {m k : ParseM J Bool} {s t : Parsing J}
    (h : StateT.run (do if ← m then k else pure false) s = .ok (true, t)) :
    ∃ u, m.run s = .ok (true, u) ∧ k.run u = .ok (true, t) := by
  obtain ⟨ok, u, hm, hk⟩ := run_bind_eq_ok.mp h
  cases ok with
  | true => exact ⟨u, hm, hk⟩
  | false => cases hk

/-- A check that has not thrown. -/
theorem run_check {c : Prop} [Decidable c] {k : ParseM J Bool} {type message : Str} {s t : Parsing J}
    (h : StateT.run (if c then k else injaThrow type message) s = .ok (true, t)) : c ∧ k.run s = .ok (true, t) := by
  by_cases hc : c
  · rw [if_pos hc] at h
    exact ⟨hc, h⟩
  · rw [if_neg hc] at h
    cases h

/-- A state shows a token of some kind: it is the first of its tokens. -/
theorem Parsing.Shows.eq_cons (h : s.Shows toks) {kind : TokenKind} (hkind : s.tok.kind = kind) (hne : kind ≠ .eof) :
    ∃ tok rest, toks = tok :: rest ∧ tok.kind = kind := by
  cases toks with
  | nil => exact absurd (hkind.symm.trans h.kind) hne
  | cons tok rest => exact ⟨tok, rest, rfl, by rw [← h.1, hkind]⟩

variable [NlohmannJson J]

/-- What accepts all that is derived, and nothing else, is known from the derivation. -/
theorem Sound.state {m : ParseM J Bool} {derives : Expr J → List Token → Prop} (hsound : Sound m s derives)
    (haccepts : ∀ e rest, derives e rest → Accepts m s rest e) {u : Parsing J}
    (h : m.run (s.write w) = .ok (true, u)) :
    ∃ e rest t, derives e rest ∧ e.swappable w.bytecodes = true ∧ s.After rest t ∧ u = t.write (w.map e.emit) := by
  obtain ⟨e, rest, he⟩ := hsound w u h
  obtain ⟨t, ht, hm⟩ := haccepts e rest he
  obtain ⟨hswap, heq⟩ := okIf_eq_ok.mp ((hm w).symm.trans h)
  exact ⟨e, rest, t, he, hswap, ht, (Prod.mk.inj heq).2.symm⟩

theorem returnJson_sound {first : ℕ} {t : Parsing J} (h : (returnJson first).run (s.write w) = .ok (true, t)) :
    ∃ value : J, JsonText s.lexer.input first s.tok value := by
  rw [returnJson, run_get_bind] at h
  obtain ⟨value, u, hvalue, -⟩ := run_bind_eq_ok.mp h
  refine ⟨value, ?_⟩
  show NlohmannJson.parse (slice (s.write w).lexer.input first
    ((s.write w).tok.start + (s.write w).tok.text.length)) = .ok value
  cases hparse : NlohmannJson.parse (J := J) (slice (s.write w).lexer.input first
    ((s.write w).tok.start + (s.write w).tok.text.length)) with
  | error e =>
    rw [hparse] at hvalue
    cases hvalue
  | ok value' =>
    rw [hparse] at hvalue
    cases hvalue
    rfl

/-- What the levels below the disjunction are given. -/
def SoundBelow (input : Str) (expression : ParseM J Bool) (bound : ℕ) : Prop :=
  ∀ toks (s : Parsing J), s.Ready input toks → s.measure < bound →
    Sound expression s (Derives input .disjunction toks)

section Levels

variable {expression : ParseM J Bool} {bound : ℕ} (hexpr : AcceptsBelow input expression bound)
  (hsound : SoundBelow input expression bound)

include hexpr hsound

/-- An expression that has been accepted: what it is, and where the parser is then. -/
theorem expression_state {u : Parsing J} (hs : s.Ready input toks) (hb : s.measure < bound)
    (h : expression.run (s.write w) = .ok (true, u)) :
    ∃ e rest t, Derives input .disjunction toks e rest ∧ e.swappable w.bytecodes = true ∧ s.After rest t ∧
      u = t.write (w.map e.emit) :=
  (hsound toks s hs hb).state (fun e rest he => hexpr toks e rest s he hs hb) h

/-- **The arguments of a call**, by induction on the counter. -/
theorem parseArguments_sound (fuel n : ℕ) (hs : s.Ready input toks) (hb : s.measure < bound) {r : ℕ × Parsing J}
    (h : (parseArguments expression fuel n).run (s.write w) = .ok r) :
    ∃ (args : List (Expr J)) (rest : List Token), Arguments (Derives input .disjunction) toks args rest := by
  induction fuel generalizing n s toks w with
  | zero => cases h
  | succ fuel ih =>
    rw [parseArguments] at h
    obtain ⟨ok, u, hrun, h⟩ := run_bind_eq_ok.mp h
    rw [run_get_bind] at h
    cases ok with
    | false => cases h
    | true =>
      obtain ⟨e, rest, t, he, -, ht, rfl⟩ := expression_state hexpr hsound hs hb hrun
      simp only [if_true, write_tok] at h
      split at h
      · rename_i hkind
        obtain ⟨close, rest, rfl, hclose⟩ := ht.shows.eq_cons hkind (by decide)
        exact ⟨[e], rest, .last he hclose⟩
      · rename_i hkind
        obtain ⟨comma, others, rfl, hcomma⟩ := ht.shows.eq_cons hkind (by decide)
        have hlt := ht.shows.measure_lt
        have hle := ht.measure_le
        rw [run_nextToken_bind] at h
        obtain ⟨args, rest, hargs⟩ := ih (n + 1) (hs.of_after ht).next (by omega) h
        exact ⟨e :: args, rest, .more he hcomma hargs⟩
      · cases h

/-- **A call**, from its name on; the parenthesis has been looked at. -/
theorem parseFunctionCall_sound {func left : Token} (fuel : ℕ) (hs : s.Ready input (func :: left :: toks))
    (hb : s.measure ≤ bound) {t : Parsing J}
    (h : (parseFunctionCall expression fuel).run (s.peekToken.write w) = .ok (true, t)) :
    (∃ right rest, right.kind = .rightParen ∧ toks = right :: rest) ∨
      look toks ≠ .rightParen ∧ ∃ (args : List (Expr J)) (rest : List Token),
        Arguments (Derives input .disjunction) toks args rest := by
  have hready := hs.next.next
  have hlt := hs.shows.measure_lt
  have hle := hs.next.shows.after.measure_le
  rw [parseFunctionCall, run_get_bind, run_nextToken_bind, run_nextToken_bind, run_get_bind,
    peekToken_nextToken] at h
  simp only [write_tok, hready.shows.kind] at h
  split at h
  · rename_i hkind
    rw [← hready.shows.kind] at hkind
    obtain ⟨right, rest, rfl, hright⟩ := hready.shows.eq_cons hkind (by decide)
    exact Or.inl ⟨right, rest, hright, rfl⟩
  · rename_i hkind
    obtain ⟨n, u, hargs, -⟩ := run_bind_eq_ok.mp h
    exact Or.inr ⟨hkind, parseArguments_sound hexpr hsound fuel 0 hready (by omega) hargs⟩

/-- **A datum**, by induction on the counter: one production for each kind of token. -/
theorem parseExpressionDatum_sound {first bracket brace : ℕ} (fuel : ℕ) (hs : s.Ready input toks)
    (hb : s.measure ≤ bound) :
    Sound (parseExpressionDatum expression fuel first bracket brace) s
      (Derives input (.datum first bracket brace) toks) := by
  induction fuel generalizing first bracket brace toks s with
  | zero => exact fun w t h => by cases h
  | succ fuel ih =>
    intro w t h
    -- behind a token that belongs to the value the loop goes on
    have hround : ∀ {tok : Token} {toks : List Token} {first bracket brace : ℕ} {w : Writing J},
        s.Ready input (tok :: toks) →
        (parseExpressionDatum expression fuel first bracket brace).run (s.nextToken.write w) = .ok (true, t) →
        ∃ (e : Expr J) (rest : List Token), Derives input (.datum first bracket brace) toks e rest := by
      intro tok toks first bracket brace w hs h
      have hlt := hs.shows.measure_lt
      exact ih hs.next (by omega) w t h
    -- a token that belongs to a value, if it is inside of one
    have hpart : ∀ {tok : Token} {toks : List Token} {s' : Parsing J} {alone : ParseM J Bool},
        s.Ready input (tok :: toks) → Scalar tok toks ∨ tok.kind = .comma ∨ tok.kind = .colon →
        s'.nextToken = s.nextToken →
        (brace = 0 ∧ bracket = 0 → alone.run (s'.write w) = .ok (true, t) →
          ∃ (e : Expr J) (rest : List Token), Derives input (.datum first bracket brace) (tok :: toks) e rest) →
        StateT.run (if (brace == 0 && bracket == 0) = true then alone
          else do
            getNextToken
            parseExpressionDatum expression fuel first bracket brace) (s'.write w) = .ok (true, t) →
        ∃ (e : Expr J) (rest : List Token), Derives input (.datum first bracket brace) (tok :: toks) e rest := by
      intro tok toks s' alone hs hpart hnext halone h
      split at h
      · rename_i houter
        exact halone (by simpa using houter) h
      · rename_i hinside
        rw [run_nextToken_bind, hnext] at h
        obtain ⟨e, rest, he⟩ := hround hs h
        exact ⟨e, rest, .part (by simpa using hinside) hpart he⟩
    have hscalar : ∀ {tok : Token} {toks : List Token} {s' : Parsing J}, s'.tok = tok → s'.lexer.input = input →
        Scalar tok toks → brace = 0 ∧ bracket = 0 → (returnJson tok.start).run (s'.write w) = .ok (true, t) →
        ∃ (e : Expr J) (rest : List Token), Derives input (.datum first bracket brace) (tok :: toks) e rest := by
      rintro tok toks s' htok hinput hscalar ⟨rfl, rfl⟩ h
      obtain ⟨value, hvalue⟩ := returnJson_sound h
      rw [hinput, htok] at hvalue
      exact ⟨_, toks, .scalar hscalar hvalue⟩
    rw [parseExpressionDatum, run_get_bind] at h
    split at h
    case h_1 hkind =>
      obtain ⟨left, toks, rfl, hleft⟩ := hs.shows.eq_cons hkind (by decide)
      have hlt := hs.shows.measure_lt
      rw [run_nextToken_bind] at h
      obtain ⟨u, he, h⟩ := run_then h
      obtain ⟨e, rest, u, he, -, hu, rfl⟩ := expression_state hexpr hsound hs.next (by omega) he
      obtain ⟨hright, -⟩ := run_check h
      obtain ⟨right, rest, rfl, hright⟩ := hu.shows.eq_cons hright (by decide)
      exact ⟨e, rest, .paren hleft he hright⟩
    case h_2 hkind =>
      obtain ⟨tok, toks, rfl, hid⟩ := hs.shows.eq_cons hkind (by decide)
      rw [run_peekToken_bind, run_get_bind] at h
      simp only [write_tok, write_peekTok, peekToken_tok, peekTok_peekToken hs.peekTok, Option.map_some,
        Option.some.injEq, hs.shows.1] at h
      split at h
      · rename_i hleft
        obtain ⟨left, toks, rfl, hleft⟩ := hs.next.shows.eq_cons hleft (by decide)
        rcases parseFunctionCall_sound hexpr hsound fuel hs hb h with
          ⟨right, rest, hright, rfl⟩ | ⟨hne, args, rest, hargs⟩
        · exact ⟨_, rest, .call0 hid hleft hright⟩
        · exact ⟨_, rest, .call hid hleft hne hargs⟩
      · rename_i hcall
        rw [hs.next.shows.kind] at hcall
        split at h
        · rename_i hword
          have htoken : Scalar tok toks := Or.inr (Or.inr ⟨hid, hcall, hword⟩)
          exact hpart hs (Or.inl htoken) (peekToken_nextToken s)
            (hscalar (by rw [peekToken_tok, hs.shows.1]) ((peekToken_below s).input.trans hs.lexer) htoken) h
        · rename_i hword
          exact ⟨_, toks, .var hid hcall hword⟩
    case h_3 hkind =>
      obtain ⟨tok, toks, rfl, hnumber⟩ := hs.shows.eq_cons hkind (by decide)
      rw [write_tok, hs.shows.1] at h
      exact hpart hs (Or.inl (Or.inl hnumber)) rfl (hscalar hs.shows.1 hs.lexer (Or.inl hnumber)) h
    case h_4 hkind =>
      obtain ⟨tok, toks, rfl, hstring⟩ := hs.shows.eq_cons hkind (by decide)
      rw [write_tok, hs.shows.1] at h
      have htoken : Scalar tok toks := Or.inr (Or.inl hstring)
      exact hpart hs (Or.inl htoken) rfl (hscalar hs.shows.1 hs.lexer htoken) h
    case h_5 hkind =>
      obtain ⟨tok, toks, rfl, hcomma⟩ := hs.shows.eq_cons hkind (by decide)
      exact hpart hs (Or.inr (Or.inl hcomma)) rfl (fun _ h => by cases h) h
    case h_6 hkind =>
      obtain ⟨tok, toks, rfl, hcolon⟩ := hs.shows.eq_cons hkind (by decide)
      exact hpart hs (Or.inr (Or.inr hcolon)) rfl (fun _ h => by cases h) h
    case h_7 hkind =>
      obtain ⟨tok, toks, rfl, htok⟩ := hs.shows.eq_cons hkind (by decide)
      rw [run_nextToken_bind, write_tok, hs.shows.1] at h
      obtain ⟨e, rest, he⟩ := hround hs h
      exact ⟨e, rest, .leftBracket htok (by simpa using he)⟩
    case h_8 hkind =>
      obtain ⟨tok, toks, rfl, htok⟩ := hs.shows.eq_cons hkind (by decide)
      rw [run_nextToken_bind, write_tok, hs.shows.1] at h
      obtain ⟨e, rest, he⟩ := hround hs h
      exact ⟨e, rest, .leftBrace htok (by simpa using he)⟩
    case h_9 hkind =>
      obtain ⟨tok, toks, rfl, htok⟩ := hs.shows.eq_cons hkind (by decide)
      cases bracket with
      | zero => cases h
      | succ bracket =>
        simp only [Nat.add_eq_zero_iff, Nat.one_ne_zero, and_false, if_false, Nat.add_eq_right,
          Nat.add_sub_cancel] at h
        split at h
        · rename_i hlast
          obtain ⟨rfl, rfl⟩ := hlast
          obtain ⟨value, hvalue⟩ := returnJson_sound h
          rw [hs.lexer, hs.shows.1] at hvalue
          exact ⟨_, toks, .array htok hvalue⟩
        · rename_i hlast
          rw [run_nextToken_bind] at h
          obtain ⟨e, rest, he⟩ := hround hs h
          exact ⟨e, rest, .rightBracket htok hlast he⟩
    case h_10 hkind =>
      obtain ⟨tok, toks, rfl, htok⟩ := hs.shows.eq_cons hkind (by decide)
      cases brace with
      | zero => cases h
      | succ brace =>
        simp only [Nat.add_eq_zero_iff, Nat.one_ne_zero, and_false, if_false, Nat.add_eq_right,
          Nat.add_sub_cancel] at h
        split at h
        · rename_i hlast
          obtain ⟨rfl, rfl⟩ := hlast
          obtain ⟨value, hvalue⟩ := returnJson_sound h
          rw [hs.lexer, hs.shows.1] at hvalue
          exact ⟨_, toks, .object htok hvalue⟩
        · rename_i hlast
          rw [run_nextToken_bind] at h
          obtain ⟨e, rest, he⟩ := hround hs h
          exact ⟨e, rest, .rightBrace htok hlast he⟩
    case h_11 =>
      split at h
      · cases h
      · split at h <;> cases h

/-! ### Operators -/

omit [NlohmannJson J] hexpr hsound in
theorem comparisonOp_computes {tok : Token} {op : Op} (h : comparisonOp tok = some op) : op.computes = true := by
  unfold comparisonOp at h
  split at h
  case h_1 =>
    split at h
    · exact Option.some.inj h ▸ rfl
    · cases h
  case h_8 => cases h
  all_goals exact Option.some.inj h ▸ rfl

omit [NlohmannJson J] hexpr hsound in
/-- A state whose next token is an identifier of the text `word`. -/
theorem Parsing.Shows.eq_cons_word (h : s.Shows toks) {word : Str} (hword : s.tok.isWord word = true) :
    ∃ tok rest, toks = tok :: rest ∧ tok.isWord word = true := by
  rw [h.isWord] at hword
  cases toks with
  | nil => cases hword
  | cons tok rest => exact ⟨tok, rest, rfl, hword⟩

theorem parseExpressionComparison_sound (fuel : ℕ) (hs : s.Ready input toks) (hb : s.measure ≤ bound)
    (hf : s.measure < fuel) :
    Sound (parseExpressionComparison expression fuel) s (Derives input .comparison toks) := by
  intro w t h
  rw [parseExpressionComparison] at h
  obtain ⟨u, hrun, h⟩ := run_then h
  obtain ⟨left, rest, u, hleft, -, hu, rfl⟩ := (parseExpressionDatum_sound hexpr hsound fuel hs hb).state
    (fun e rest he => parseExpressionDatum_accepts hexpr fuel he hs hb hf) hrun
  rw [run_get_bind, write_tok, hu.shows.comparisonOp] at h
  cases hop : rest.head?.bind comparisonOp with
  | none => exact ⟨left, rest, .datum hleft hop⟩
  | some op =>
    cases rest with
    | nil => cases hop
    | cons tok rest =>
      have hlt := hu.shows.measure_lt
      have hle := hu.measure_le
      simp only [hop] at h
      rw [run_nextToken_bind] at h
      obtain ⟨v, hrun, -⟩ := run_then h
      obtain ⟨right, rest, hright⟩ :=
        parseExpressionDatum_sound hexpr hsound fuel (hs.of_after hu).next (by omega) _ v hrun
      exact ⟨_, rest, .compare hleft hop (comparisonOp_computes hop) hright⟩

theorem parseExpressionNot_sound (fuel : ℕ) (hs : s.Ready input toks) (hb : s.measure ≤ bound)
    (hf : s.measure < fuel) : Sound (parseExpressionNot expression fuel) s (Derives input .negation toks) := by
  induction fuel generalizing toks s with
  | zero => omega
  | succ fuel ih =>
    intro w t h
    rw [parseExpressionNot, run_get_bind] at h
    split at h
    · rename_i hnot
      obtain ⟨tok, toks, rfl, hnot⟩ := hs.shows.eq_cons_word hnot
      have hlt := hs.shows.measure_lt
      rw [run_nextToken_bind] at h
      obtain ⟨u, he, -⟩ := run_then h
      obtain ⟨e, rest, he⟩ := ih hs.next (by omega) (by omega) _ u he
      exact ⟨_, rest, .not hnot he⟩
    · rename_i hnot
      rw [write_tok, hs.shows.isWord] at hnot
      obtain ⟨e, rest, he⟩ := parseExpressionComparison_sound hexpr hsound (fuel + 1) hs hb hf w t h
      exact ⟨e, rest, .comparison hnot he⟩

omit hexpr hsound in
/-- One operand, or two with the operator's word between them. -/
theorem parseBinary_sound {operand : ParseM J Bool} {word : Str} {op : Op} {level : Level}
    (hsound : ∀ toks (s : Parsing J), s.Ready input toks → s.measure ≤ bound →
      Sound operand s (Derives input level toks))
    (haccepts : ∀ toks (e : Expr J) rest (s : Parsing J), Derives input level toks e rest →
      s.Ready input toks → s.measure ≤ bound → Accepts operand s rest e)
    (hs : s.Ready input toks) (hb : s.measure ≤ bound) {t : Parsing J}
    (h : (parseBinary operand word op).run (s.write w) = .ok (true, t)) :
    ∃ (left : Expr J) (toks' : List Token), Derives input level toks left toks' ∧
      (toks'.head?.any (·.isWord word) = false ∨
        ∃ (tok : Token) (toks'' : List Token) (right : Expr J) (rest : List Token), toks' = tok :: toks'' ∧
          tok.isWord word = true ∧ Derives input level toks'' right rest) := by
  rw [parseBinary] at h
  obtain ⟨u, hrun, h⟩ := run_then h
  obtain ⟨left, toks', u, hleft, -, hu, rfl⟩ := (hsound toks s hs hb).state
    (fun e rest he => haccepts toks e rest s he hs hb) hrun
  refine ⟨left, toks', hleft, ?_⟩
  rw [run_get_bind] at h
  split at h
  · rename_i hword
    obtain ⟨tok, toks'', rfl, hword⟩ := hu.shows.eq_cons_word hword
    have hlt := hu.shows.measure_lt
    have hle := hu.measure_le
    rw [run_nextToken_bind] at h
    obtain ⟨v, hrun, -⟩ := run_then h
    obtain ⟨right, rest, hright⟩ := hsound toks'' _ (hs.of_after hu).next (by omega) _ v hrun
    exact Or.inr ⟨tok, toks'', right, rest, rfl, hword, hright⟩
  · rename_i hword
    rw [write_tok, hu.shows.isWord] at hword
    exact Or.inl (by simpa using hword)

theorem parseExpressionAnd_sound (fuel : ℕ) (hs : s.Ready input toks) (hb : s.measure ≤ bound)
    (hbf : bound < fuel) : Sound (parseExpressionAnd expression fuel) s (Derives input .conjunction toks) := by
  intro w t h
  obtain ⟨left, toks', hleft, hnext | ⟨tok, toks'', right, rest, rfl, hand, hright⟩⟩ :=
    parseBinary_sound
      (fun toks s hs hb => parseExpressionNot_sound hexpr hsound fuel hs hb (by omega))
      (fun _ _ _ _ he hs hb => parseExpressionNot_accepts hexpr fuel he hs hb (by omega)) hs hb h
  · exact ⟨left, toks', .negation hleft (by simpa using hnext)⟩
  · exact ⟨_, rest, .and hleft hand hright⟩

end Levels

/-- **What the parser accepts the grammar derives**, by induction on the counter. -/
theorem parseExpression_sound (fuel : ℕ) (hs : s.Ready input toks) (hf : s.measure < fuel) :
    Sound (parseExpression fuel) s (Derives input .disjunction toks) := by
  induction fuel generalizing toks s with
  | zero => omega
  | succ fuel ih =>
    have hexpr : AcceptsBelow input (parseExpression (J := J) fuel) fuel :=
      fun _ _ _ _ he hs hlt => parseExpression_accepts fuel he hs hlt
    have hsound : SoundBelow input (parseExpression (J := J) fuel) fuel := fun _ _ hs hlt => ih hs hlt
    intro w t h
    obtain ⟨left, toks', hleft, hnext | ⟨tok, toks'', right, rest, rfl, hor, hright⟩⟩ :=
      parseBinary_sound
        (fun toks s hs hb => parseExpressionAnd_sound hexpr hsound (fuel + 1) hs hb (Nat.lt_succ_self fuel))
        (fun _ _ _ _ he hs hb => parseExpressionAnd_accepts hexpr (fuel + 1) he hs hb (Nat.lt_succ_self fuel))
        hs (Nat.le_of_lt_succ hf) h
    · exact ⟨left, toks', .conjunction hleft (by simpa using hnext)⟩
    · exact ⟨_, rest, .or hleft hor hright⟩

/-- An expression that the parser has accepted: what it is, and where the parser is then. -/
theorem parseExpression_state (fuel : ℕ) (hs : s.Ready input toks) (hf : s.measure < fuel) {u : Parsing J}
    (h : (parseExpression fuel).run (s.write w) = .ok (true, u)) :
    ∃ e rest t, Derives input .disjunction toks e rest ∧ e.swappable w.bytecodes = true ∧ s.After rest t ∧
      u = t.write (w.map e.emit) :=
  (parseExpression_sound fuel hs hf).state (fun _ _ he => parseExpression_accepts fuel he hs hf) h

/-- **The parser accepts exactly the expressions of the grammar** whose `default`s have arguments to exchange.  At the
tokens `toks` it returns `true` if and only if they begin with such an expression.  At any expression it stands at the
tokens behind it then and has written its bytecode, and it is undefined if there is nothing to exchange. -/
theorem parseExpression_iff (fuel : ℕ) (hs : s.Ready input toks) (hf : s.measure < fuel) (w : Writing J) :
    ((∃ u, (parseExpression fuel).run (s.write w) = .ok (true, u)) ↔
      ∃ (e : Expr J) (rest : List Token), Derives input .disjunction toks e rest ∧
        e.swappable w.bytecodes = true) ∧
    ∀ (e : Expr J) (rest : List Token), Derives input .disjunction toks e rest →
      ∃ t, s.After rest t ∧ (parseExpression fuel).run (s.write w)
        = if e.swappable w.bytecodes = true then .ok (true, t.write (w.map e.emit))
          else .error (some .undefinedBehaviour) := by
  refine ⟨⟨?_, ?_⟩, ?_⟩
  · rintro ⟨u, hrun⟩
    obtain ⟨e, rest, -, he, hswap, -⟩ := parseExpression_state fuel hs hf hrun
    exact ⟨e, rest, he, hswap⟩
  · rintro ⟨e, rest, he, hswap⟩
    obtain ⟨t, -, hrun⟩ := parseExpression_returns fuel he hs hf hswap
    exact ⟨_, hrun⟩
  · intro e rest he
    obtain ⟨t, ht, hrun⟩ := parseExpression_accepts fuel he hs hf
    refine ⟨t, ht, (hrun w).trans ?_⟩
    cases e.swappable w.bytecodes with
    | true => rfl
    | false => rfl

/-- In `not user` the parser finds the negation of a variable. -/
theorem parseExpression_iff_not :
    ∃ u, (parseExpression 100).run ((({} : Parser Json).begin "\x7b\x7b not user \x7d\x7d").nextToken.nextToken.write {})
      = .ok (true, u) := by
  have htokens : tokens "\x7b\x7b not user \x7d\x7d" = [⟨.expressionOpen, "\x7b\x7b", 0⟩, ⟨.id, "not", 3⟩,
      ⟨.id, "user", 7⟩, ⟨.expressionClose, "\x7d\x7d", 12⟩] := by decide +kernel
  have hready := begin_ready (p := ({} : Parser Json)) rfl "\x7b\x7b not user \x7d\x7d"
  rw [htokens] at hready
  refine (parseExpression_iff 100 hready.next (by decide +kernel) {}).1.mpr
    ⟨.apply (.builtin .not rfl) [.var "user"], [⟨.expressionClose, "\x7d\x7d", 12⟩], ?_, rfl⟩
  exact .conjunction (.negation (.not rfl (.comparison (by decide) (.datum (.var rfl (by decide) (by decide)) rfl)))
    (by decide)) (by decide)

end EnvoyWasmFilters.Inja
