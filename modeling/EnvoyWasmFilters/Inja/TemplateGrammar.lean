import EnvoyWasmFilters.Inja.Grammar

/-!
# The grammar of inja templates

Which tokens are a template, and which one.  Statements stand between `\x7b%` and `%\x7d`, or on a line of their own
after `##`; comments leave nothing behind.  What follows the first branch of an `if` is a part of its own, so that a
chain of `else if` is one statement after the other.
-/

namespace EnvoyWasmFilters.Inja

variable {J : Type} [NlohmannJson J]

/-- An identifier is one word. -/
theorem isWord_eq {tok : Token} {word : Str} (h : tok.isWord word) (other : Str) :
    tok.isWord other = decide (word = other) := by
  simp only [Token.isWord, Bool.and_eq_true, beq_iff_eq] at h
  obtain ⟨hkind, rfl⟩ := h
  simp [Token.isWord, hkind, beq_eq_decide]

/-- The tokens `toks` begin with a statement whose words are at `inner`; behind its words are the tokens `after`,
the end of the statement and then `rest`.  The end of the text ends a line, too. -/
def Statement (toks inner after rest : List Token) : Prop :=
  ∃ opening, toks = opening :: inner ∧
    ((opening.kind = .statementOpen ∧ ∃ close, after = close :: rest ∧ close.kind = .statementClose) ∨
      (opening.kind = .lineStatementOpen ∧
        ((∃ close, after = close :: rest ∧ close.kind = .lineStatementClose) ∨ (after = [] ∧ rest = []))))

/-- Behind the words of a statement is no other word. -/
theorem Statement.not_word {toks inner after rest : List Token} (h : Statement toks inner after rest) (word : Str) :
    after.head?.any (·.isWord word) = false := by
  obtain ⟨opening, -, ⟨-, close, rfl, hclose⟩ | ⟨-, ⟨close, rfl, hclose⟩ | ⟨rfl, -⟩⟩⟩ := h
  · simp [Token.isWord, hclose]
  · simp [Token.isWord, hclose]
  · rfl

/-- A conditional: the second branch is there or not. -/
def Tree.conditional (condition : Expr J) (body : Tree J) (other : Option (Tree J)) (next : Tree J) : Tree J :=
  match other with
  | none => .ifThen condition body next
  | some other => .ifElse condition body other next

/-- The names of a loop: one for the values, or one for the keys before it. -/
inductive LoopNames : List Token → Str → Str → List Token → Prop
  | value {name : Token} {rest : List Token} (hname : name.kind = .id) (hcomma : look rest ≠ .comma) :
      LoopNames (name :: rest) [] name.text rest
  | keyValue {key comma name : Token} {rest : List Token} (hkey : key.kind = .id) (hcomma : comma.kind = .comma)
      (hname : name.kind = .id) : LoopNames (key :: comma :: name :: rest) key.text name.text rest

/-- What a list of tokens may stand for: parts of a template, or what follows the first branch of an `if`. -/
inductive Part (J : Type) where
  | blocks (t : Tree J)
  | tail (other : Option (Tree J))

/-- **The grammar of templates.** -/
inductive Parses (input : Str) : List Token → Part J → List Token → Prop
  | nil {toks : List Token} : Parses input toks (.blocks .nil) toks
  | text {tok : Token} {toks rest : List Token} {t : Tree J} (htok : tok.kind = .text)
      (hnext : Parses input toks (.blocks t) rest) :
      Parses input (tok :: toks) (.blocks (.text tok.text t)) rest
  | print {opening close : Token} {toks toks' rest : List Token} {e : Expr J} {t : Tree J}
      (hopening : opening.kind = .expressionOpen) (he : Derives input .disjunction toks e (close :: toks'))
      (hclose : close.kind = .expressionClose) (hnext : Parses input toks' (.blocks t) rest) :
      Parses input (opening :: toks) (.blocks (.print e t)) rest
  | comment {opening close : Token} {toks rest : List Token} {t : Tree J} (hopening : opening.kind = .commentOpen)
      (hclose : close.kind = .commentClose) (hnext : Parses input toks (.blocks t) rest) :
      Parses input (opening :: close :: toks) (.blocks t) rest
  | conditional {word : Token} {toks inner after body tail next rest : List Token} {e : Expr J} {b t : Tree J}
      {other : Option (Tree J)} (hstatement : Statement toks (word :: inner) after body)
      (hword : word.isWord "if") (he : Derives input .disjunction inner e after)
      (hbody : Parses input body (.blocks b) tail) (htail : Parses input tail (.tail other) next)
      (hnext : Parses input next (.blocks t) rest) :
      Parses input toks (.blocks (.conditional e b other t)) rest
  | loop {word inWord word' : Token} {toks names inner after body tail after' next rest : List Token}
      {key value : Str} {e : Expr J} {b t : Tree J} (hstatement : Statement toks (word :: names) after body)
      (hword : word.isWord "for") (hnames : LoopNames names key value (inWord :: inner))
      (hin : inWord.isWord "in") (he : Derives input .disjunction inner e after)
      (hbody : Parses input body (.blocks b) tail) (hend : Statement tail (word' :: after') after' next)
      (hword' : word'.isWord "endfor") (hnext : Parses input next (.blocks t) rest) :
      Parses input toks (.blocks (.loop key value e b t)) rest
  | endif {word : Token} {toks after rest : List Token} (hstatement : Statement toks (word :: after) after rest)
      (hword : word.isWord "endif") : Parses input toks (.tail none) rest
  | else {word word' : Token} {toks after body tail after' rest : List Token} {b : Tree J}
      (hstatement : Statement toks (word :: after) after body) (hword : word.isWord "else")
      (hbody : Parses input body (.blocks b) tail) (hend : Statement tail (word' :: after') after' rest)
      (hword' : word'.isWord "endif") : Parses input toks (.tail (some b)) rest
  | elseIf {word word' : Token} {toks inner after body tail rest : List Token} {e : Expr J} {b : Tree J}
      {other : Option (Tree J)} (hstatement : Statement toks (word :: word' :: inner) after body)
      (hword : word.isWord "else") (hword' : word'.isWord "if") (he : Derives input .disjunction inner e after)
      (hbody : Parses input body (.blocks b) tail) (htail : Parses input tail (.tail other) rest) :
      Parses input toks (.tail (some (.conditional e b other .nil))) rest

/-- **The text `input` is the template `t`.** -/
def IsTemplate (input : Str) (t : Tree J) : Prop := Parses input (tokens input) (.blocks t) []

end EnvoyWasmFilters.Inja
