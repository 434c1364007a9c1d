import EnvoyWasmFilters.TransformationFilter.MapOrder

/-!
# One parser for all templates

The constructor of `InjaTransformer` gives every header template to the same `Parser` object, whose
lexer, tokens and stacks are not reset in between.

* `Parser.After` — a parser that has parsed some texts before;
* `after_parse` — what it makes of another text is what a new parser makes of it;
* `sharedParser_asFresh` — **the constructor does as with a parser for each header**.
-/

namespace EnvoyWasmFilters.TransformationFilter

open Inja StateExcept

variable {R J : Type} [StdRegex R] [NlohmannJson J]

/-- `parser` is what a new one is after it has accepted the texts, one after the other. -/
inductive Parser.After : List Str → Parser J → Prop
  | new : Parser.After [] {}
  | next {texts : List Str} {parser parser' : Parser J} {text : Str} {tmpl : Template J}
      (h : Parser.After texts parser) (hparse : parser.parse text = .ok (tmpl, parser')) :
      Parser.After (texts ++ [text]) parser'

/-- Whatever it has accepted, nothing is left over. -/
theorem after_idle {texts : List Str} {parser : Parser J} (h : Parser.After texts parser) :
    parser.Idle ∧ parser.includedTemplates = ∅ := by
  induction h with
  | new => exact ⟨new_parser_idle, rfl⟩
  | next _ hparse ih =>
    obtain ⟨hidle, hincluded⟩ := parse_idle hparse
    exact ⟨hidle, hincluded.trans ih.2⟩

/-- **Earlier templates have no influence**: not on the template, nor on the error, nor on the parser left
behind. -/
theorem after_parse {texts : List Str} {parser : Parser J} (h : Parser.After texts parser) (text : Str) :
    parser.parse text = ({} : Parser J).parse text := by
  obtain ⟨hidle, hincluded⟩ := after_idle h
  exact parse_eq_of_idle hidle new_parser_idle hincluded text

/-- Whether a transformation is accepted does not depend on the order of its maps. -/
theorem new_isOk_reordered {T T' : Transformation} (h : Reordered T T') :
    (∃ t : InjaTransformer R J, InjaTransformer.new T = .ok t) ↔
      ∃ t' : InjaTransformer R J, InjaTransformer.new T' = .ok t' := by
  constructor
  · rintro ⟨t, hnew⟩
    obtain ⟨t', hnew', -⟩ := new_reordered h hnew
    exact ⟨t', hnew'⟩
  · rintro ⟨t', hnew'⟩
    obtain ⟨t, hnew, -⟩ := new_reordered ⟨h.1.symm, h.2.symm⟩ hnew'
    exact ⟨t, hnew⟩

/-- **The shared parser does as a new one for each header.**  In whatever order the map is visited, the
template stored for a header is the one that a parser of its own makes of the header's text; another order
is accepted or refused alike; and a parser that has accepted any templates parses a text as a new one. -/
theorem sharedParser_asFresh (T : Transformation) :
    (∀ t : InjaTransformer R J, InjaTransformer.new T = .ok t →
        List.Forall₂ (fun e h => h.1 = lower e.1 ∧
          ∃ parser, ({} : Parser J).parse e.2.text = .ok (h.2, parser)) T.headers.entries t.headers) ∧
      (∀ T', Reordered T T' →
        ((∃ t : InjaTransformer R J, InjaTransformer.new T = .ok t) ↔
          ∃ t' : InjaTransformer R J, InjaTransformer.new T' = .ok t')) ∧
      ∀ (texts : List Str) (parser : Parser J), Parser.After texts parser →
        ∀ text, parser.parse text = ({} : Parser J).parse text := by
  refine ⟨fun t hnew => (InjaTransformer.new_eq_ok.mp hnew).2, fun T' h => new_isOk_reordered h, ?_⟩
  intro texts parser hafter text
  exact after_parse hafter text

end EnvoyWasmFilters.TransformationFilter
