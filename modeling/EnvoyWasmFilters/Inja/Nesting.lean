import EnvoyWasmFilters.Inja.Items

/-!
# Nested blocks

Whether the blocks of a template nest can be read off its tokens: the word behind each opening of a statement says what
it does to the open blocks, and nothing else in the template opens a statement.

* `derives_spans` — an expression opens no statement;
* `nests` — the blocks of a list of tokens nest;
* `takes_nests` — an item does to the open blocks what its word says.
-/

namespace EnvoyWasmFilters.Inja

variable {J : Type} {input : Str} {toks inner after rest : List Token} {item : Item J}

/-! ### The tokens of an expression -/

/-- The tokens `toks` go on with `rest` behind tokens none of which opens a statement. -/
def Spans (toks rest : List Token) : Prop :=
  ∃ used, toks = used ++ rest ∧ ∀ tok ∈ used, tok.kind ≠ .statementOpen

theorem Spans.refl (toks : List Token) : Spans toks toks := ⟨[], rfl, fun _ h => absurd h List.not_mem_nil⟩

theorem Spans.cons {tok : Token} {toks rest : List Token} (htok : tok.kind ≠ .statementOpen) (h : Spans toks rest) :
    Spans (tok :: toks) rest := by
  obtain ⟨used, rfl, hused⟩ := h
  exact ⟨tok :: used, rfl, List.forall_mem_cons.mpr ⟨htok, hused⟩⟩

theorem Spans.trans {toks between rest : List Token} (h : Spans toks between) (h' : Spans between rest) :
    Spans toks rest := by
  obtain ⟨used, rfl, hused⟩ := h
  obtain ⟨used', rfl, hused'⟩ := h'
  exact ⟨used ++ used', (List.append_assoc _ _ _).symm, List.forall_mem_append.mpr ⟨hused, hused'⟩⟩

theorem Spans.suffix {toks rest : List Token} (h : Spans toks rest) : rest <:+ toks := by
  obtain ⟨used, rfl, -⟩ := h
  exact List.suffix_append used rest

theorem spans_tok {kind : TokenKind} {tok : Token} {rest : List Token} (htok : tok.kind = kind)
    (hkind : kind ≠ .statementOpen) : Spans (tok :: rest) rest := .cons (by rw [htok]; exact hkind) (.refl rest)

theorem spans_word {tok : Token} {rest : List Token} {word : Str} (h : tok.isWord word) : Spans (tok :: rest) rest := by
  simp only [Token.isWord, Bool.and_eq_true, beq_iff_eq] at h
  exact spans_tok h.1 (by decide)

theorem spans_scalar {tok : Token} {rest : List Token} (h : Scalar tok rest) : Spans (tok :: rest) rest := by
  rcases h with hnumber | hstring | ⟨hid, -, -⟩
  · exact spans_tok hnumber (by decide)
  · exact spans_tok hstring (by decide)
  · exact spans_tok hid (by decide)

theorem spans_comparison {tok : Token} {rest : List Token} {op : Op} (h : comparisonOp tok = some op) :
    Spans (tok :: rest) rest := by
  refine .cons (fun hkind => ?_) (.refl rest)
  simp only [comparisonOp, hkind] at h
  cases h

variable [NlohmannJson J]

mutual

/-- **An expression opens no statement**, by recursion on its derivation. -/
theorem derives_spans {level : Level} {toks rest : List Token} {e : Expr J} :
    Derives input level toks e rest → Spans toks rest
  | .var hid _ _ => spans_tok hid (by decide)
  | .paren hleft he hright =>
    (spans_tok hleft (by decide)).trans ((derives_spans he).trans (spans_tok hright (by decide)))
  | .call0 hid hleft hright =>
    (spans_tok hid (by decide)).trans ((spans_tok hleft (by decide)).trans (spans_tok hright (by decide)))
  | .call hid hleft _ harguments =>
    (spans_tok hid (by decide)).trans ((spans_tok hleft (by decide)).trans (arguments_span harguments))
  | .scalar hscalar _ => spans_scalar hscalar
  | .part _ (.inl hscalar) he => (spans_scalar hscalar).trans (derives_spans he)
  | .part _ (.inr (.inl hcomma)) he => (spans_tok hcomma (by decide)).trans (derives_spans he)
  | .part _ (.inr (.inr hcolon)) he => (spans_tok hcolon (by decide)).trans (derives_spans he)
  | .leftBracket htok he => (spans_tok htok (by decide)).trans (derives_spans he)
  | .leftBrace htok he => (spans_tok htok (by decide)).trans (derives_spans he)
  | .rightBracket htok _ he => (spans_tok htok (by decide)).trans (derives_spans he)
  | .rightBrace htok _ he => (spans_tok htok (by decide)).trans (derives_spans he)
  | .array htok _ => spans_tok htok (by decide)
  | .object htok _ => spans_tok htok (by decide)
  | .datum he _ => derives_spans he
  | .compare hleft hop _ hright => (derives_spans hleft).trans ((spans_comparison hop).trans (derives_spans hright))
  | .comparison _ he => derives_spans he
  | .not hnot he => (spans_word hnot).trans (derives_spans he)
  | .negation he _ => derives_spans he
  | .and hleft hand hright => (derives_spans hleft).trans ((spans_word hand).trans (derives_spans hright))
  | .conjunction he _ => derives_spans he
  | .or hleft hor hright => (derives_spans hleft).trans ((spans_word hor).trans (derives_spans hright))

theorem arguments_span {toks rest : List Token} {args : List (Expr J)} :
    Arguments (Derives input .disjunction) toks args rest → Spans toks rest
  | .last he hclose => (derives_spans he).trans (spans_tok hclose (by decide))
  | .more he hcomma hmore =>
    (derives_spans he).trans ((spans_tok hcomma (by decide)).trans (arguments_span hmore))

end

/-! ### The open blocks -/

/-- What a statement does to the kinds of the open blocks, by its first word; `true` is a loop. -/
def Token.nest (word : Token) (kinds : List Bool) : Option (List Bool) :=
  if word.isWord "if" then some (false :: kinds)
  else if word.isWord "else" then if kinds.head? = some false then some kinds else none
  else if word.isWord "endif" then if kinds.head? = some false then some kinds.tail else none
  else if word.isWord "for" then some (true :: kinds)
  else if word.isWord "endfor" then if kinds.head? = some true then some kinds.tail else none
  else some kinds

/-- **The blocks nest**: each statement that goes on with a block or closes one is about the innermost, and in the end
none is open. -/
def nests : List Bool → List Token → Bool
  | kinds, [] => kinds.isEmpty
  | kinds, tok :: toks =>
      match if tok.kind = .statementOpen then toks.head?.elim none (·.nest kinds) else some kinds with
      | some kinds => nests kinds toks
      | none => false

/-- What an item does to the kinds of the open blocks. -/
def Item.nestKinds : Item J → List Bool → Option (List Bool)
  | .comment, kinds | .text _, kinds | .print _, kinds => some kinds
  | .ifThen _, kinds => some (false :: kinds)
  | .elseIf _, false :: kinds => some (false :: kinds)
  | .else, false :: kinds => some (false :: kinds)
  | .endif, false :: kinds => some kinds
  | .loop _ _ _, kinds => some (true :: kinds)
  | .endfor, true :: kinds => some kinds
  | _, _ => none

omit [NlohmannJson J] in
/-- Tokens that open no statement are passed over. -/
theorem Spans.nests (h : Spans toks rest) (kinds : List Bool) : nests kinds toks = nests kinds rest := by
  obtain ⟨used, rfl, hused⟩ := h
  induction used with
  | nil => rfl
  | cons tok used ih =>
    obtain ⟨htok, hused⟩ := List.forall_mem_cons.mp hused
    rw [List.cons_append, Inja.nests, if_neg htok]
    exact ih hused

/-- The words of a statement: the first one says what it does, and the others open no statement. -/
theorem words_nest (h : Words input inner item after) :
    ∃ word, inner.head? = some word ∧ Spans inner after ∧ ∀ kinds, word.nest kinds = item.nestKinds kinds := by
  have hblock : ∀ {word : Token} {name : Str} {item : Item J}, word.isWord name →
      (∀ kinds, (if name = "if" then some (false :: kinds)
        else if name = "else" then if kinds.head? = some false then some kinds else none
        else if name = "endif" then if kinds.head? = some false then some kinds.tail else none
        else if name = "for" then some (true :: kinds)
        else if name = "endfor" then if kinds.head? = some true then some kinds.tail else none
        else some kinds) = item.nestKinds kinds) →
      ∀ kinds, word.nest kinds = item.nestKinds kinds := by
    intro word name item hword hitem kinds
    rw [← hitem]
    simp only [Token.nest, isWord_eq hword, decide_eq_true_eq]
  cases h with
  | @ifThen word inner after e hword he =>
    exact ⟨word, rfl, (spans_word hword).trans (derives_spans he), hblock hword fun kinds => rfl⟩
  | @elseIf word word' inner after e hword hword' he =>
    refine ⟨word, rfl, (spans_word hword).trans ((spans_word hword').trans (derives_spans he)), hblock hword ?_⟩
    rintro (_ | ⟨_ | _, kinds⟩) <;> rfl
  | @«else» word after hword hnext =>
    refine ⟨word, rfl, spans_word hword, hblock hword ?_⟩
    rintro (_ | ⟨_ | _, kinds⟩) <;> rfl
  | @endif word after hword =>
    refine ⟨word, rfl, spans_word hword, hblock hword ?_⟩
    rintro (_ | ⟨_ | _, kinds⟩) <;> rfl
  | @loop word inWord names inner after key value e hword hnames hin he =>
    have hspans : Spans names (inWord :: inner) := by
      cases hnames with
      | value hname hcomma => exact spans_tok hname (by decide)
      | keyValue hkey hcomma hname =>
        exact (spans_tok hkey (by decide)).trans ((spans_tok hcomma (by decide)).trans (spans_tok hname (by decide)))
    exact ⟨word, rfl, (spans_word hword).trans (hspans.trans ((spans_word hin).trans (derives_spans he))),
      hblock hword fun kinds => rfl⟩
  | @endfor word after hword =>
    refine ⟨word, rfl, spans_word hword, hblock hword ?_⟩
    rintro (_ | ⟨_ | _, kinds⟩) <;> rfl

/-- **An item does to the open blocks what its word says**, unless it is a line of its own. -/
theorem takes_nests (h : Takes input toks item rest) (hline : ∀ tok ∈ toks, tok.kind ≠ .lineStatementOpen)
    (kinds : List Bool) : nests kinds toks = (item.nestKinds kinds).elim false (nests · rest) := by
  cases h with
  | text htok => exact (spans_tok htok (by decide)).nests kinds
  | print hopening he hclose =>
    have hspans := (derives_spans he).trans (spans_tok hclose (by decide))
    exact ((spans_tok hopening (by decide)).trans hspans).nests kinds
  | comment hopening hclose =>
    exact ((spans_tok hopening (by decide)).trans (spans_tok hclose (by decide))).nests kinds
  | statement hstatement hwords =>
    obtain ⟨word, hhead, hspans, hnest⟩ := words_nest hwords
    obtain ⟨opening, rfl, ⟨hopening, close, rfl, hclose⟩ | ⟨hopening, -⟩⟩ := hstatement
    · rw [nests, if_pos hopening, hhead, Option.elim_some, hnest]
      cases item.nestKinds kinds with
      | none => rfl
      | some kinds' => exact (hspans.trans (spans_tok hclose (by decide))).nests kinds'
    · exact absurd hopening (hline _ List.mem_cons_self)

/-- An item takes tokens from the front. -/
theorem takes_suffix (h : Takes input toks item rest) : rest <:+ toks := by
  cases h with
  | text htok => exact List.suffix_cons _ _
  | print hopening he hclose =>
    exact ((List.suffix_cons _ _).trans (derives_spans he).suffix).trans (List.suffix_cons _ _)
  | comment hopening hclose => exact (List.suffix_cons _ _).trans (List.suffix_cons _ _)
  | statement hstatement hwords =>
    obtain ⟨word, -, hspans, -⟩ := words_nest hwords
    obtain ⟨opening, rfl, ⟨-, close, rfl, -⟩ | ⟨-, ⟨close, rfl, -⟩ | ⟨rfl, rfl⟩⟩⟩ := hstatement
    · exact ((List.suffix_cons _ _).trans hspans.suffix).trans (List.suffix_cons _ _)
    · exact ((List.suffix_cons _ _).trans hspans.suffix).trans (List.suffix_cons _ _)
    · exact List.nil_suffix

end EnvoyWasmFilters.Inja
