import EnvoyWasmFilters.Inja.Json
import EnvoyWasmFilters.Inja.TemplateParsing
import EnvoyWasmFilters.Inja.TreeExecution

/-!
# What a template means

The parser and the renderer together: a text that the grammar reads as a tree is parsed to a template whose
rendering is the evaluation of the tree.

* `derives_datum` — a datum with no operator behind it is an expression;
* `template_meaning` — **from the text of a template to the text it stands for.**
-/

namespace EnvoyWasmFilters.Inja

variable {J : Type} [NlohmannJson J] [RenderJson J] [LawfulJson J]

/-- What rendering `tmpl` is to do: what evaluating `t` does. -/
def Renderer.Renders (env : Renderer J) (tmpl : Template J) (data : J) (x : Except Stop Str) : Prop :=
  (∀ text, env.Returns tmpl data text ↔ x = .ok text) ∧ ∀ e, env.Stops tmpl data e ↔ x = .error e

omit [RenderJson J] [LawfulJson J] in
/-- A datum that no operator follows is a whole expression. -/
theorem derives_datum {input : Str} {toks rest : List Token} {e : Expr J}
    (he : Derives input (.datum 0 0 0) toks e rest) (hnot : toks.head?.any (·.isWord "not") = false)
    (hnext : rest.head?.bind comparisonOp = none)
    (hand : rest.head?.any (·.isWord "and") = false) (hor : rest.head?.any (·.isWord "or") = false) :
    Derives input .disjunction toks e rest :=
  .conjunction (.negation (.comparison (Bool.eq_false_iff.mp hnot) (.datum he hnext)) (Bool.eq_false_iff.mp hand)) (Bool.eq_false_iff.mp hor)

/-- **From the text of a template to the text it stands for.**  An idle parser accepts the text, and rendering what
it leaves is evaluating the tree the grammar reads in the text. -/
theorem template_meaning {p : Parser J} (hp : p.Idle) {input : Str} {t : Tree J} (h : IsTemplate input t)
    (hc : t.compilable = true) :
    ∃ tmpl q, p.parse input = .ok (tmpl, q) ∧ ∀ (env : Renderer J) (data : J),
      env.Renders tmpl data (t.eval { callbacks := env.callbacks, data := data }) := by
  obtain ⟨q, hparse⟩ := parse_eq_code hp h hc
  exact ⟨⟨t.code 0, input⟩, q, hparse, fun env data => render_iff_eval hc rfl env data⟩

/-- A template with a loop over the names of the data. -/
def greeting : Str := "Hi \x7b% for n in names %\x7d\x7b\x7b n \x7d\x7d,\x7b% endfor %\x7d"

def greetingTree : Tree Json := .text "Hi " (.loop [] "n" (.var "names") (.print (.var "n") (.text "," .nil)) .nil)

theorem greeting_isTemplate : IsTemplate greeting greetingTree := by
  have htokens : tokens greeting = [⟨.text, "Hi ", 0⟩, ⟨.statementOpen, "\x7b%", 3⟩, ⟨.id, "for", 6⟩,
      ⟨.id, "n", 10⟩, ⟨.id, "in", 12⟩, ⟨.id, "names", 15⟩, ⟨.statementClose, "%\x7d", 21⟩,
      ⟨.expressionOpen, "\x7b\x7b", 23⟩, ⟨.id, "n", 26⟩, ⟨.expressionClose, "\x7d\x7d", 28⟩, ⟨.text, ",", 30⟩,
      ⟨.statementOpen, "\x7b%", 31⟩, ⟨.id, "endfor", 34⟩, ⟨.statementClose, "%\x7d", 41⟩] := by decide +kernel
  rw [IsTemplate, htokens]
  have hstatement : ∀ (start stop : ℕ) (inner rest : List Token),
      Statement (⟨.statementOpen, "\x7b%", start⟩ :: (inner ++ ⟨.statementClose, "%\x7d", stop⟩ :: rest))
        (inner ++ ⟨.statementClose, "%\x7d", stop⟩ :: rest) (⟨.statementClose, "%\x7d", stop⟩ :: rest) rest :=
    fun start stop inner rest => ⟨_, rfl, Or.inl ⟨rfl, _, rfl, rfl⟩⟩
  refine .text rfl (.loop (hstatement 3 21 [⟨.id, "for", 6⟩, ⟨.id, "n", 10⟩, ⟨.id, "in", 12⟩, ⟨.id, "names", 15⟩] _)
    rfl (.value rfl (by decide)) rfl ?_ ?_ (hstatement 31 41 [⟨.id, "endfor", 34⟩] []) rfl .nil)
  · exact derives_datum (.var rfl (by decide) (by decide)) (by decide) rfl rfl rfl
  · exact .print rfl (derives_datum (.var rfl (by decide) (by decide)) (by decide) rfl rfl rfl) rfl
      (.text rfl .nil)

theorem template_meaning_greeting :
    ∃ tmpl q, ({} : Parser Json).parse greeting = .ok (tmpl, q) ∧
      (⟨∅, []⟩ : Renderer Json).Returns tmpl (.object [("names", .array [.string "a", .string "b"])]) "Hi a,b," := by
  obtain ⟨tmpl, q, hparse, hrenders⟩ :=
    template_meaning (p := {}) ⟨rfl, rfl, rfl⟩ greeting_isTemplate (by decide +kernel)
  exact ⟨tmpl, q, hparse, ((hrenders ⟨∅, []⟩ _).1 _).mpr (by decide +kernel)⟩

end EnvoyWasmFilters.Inja
