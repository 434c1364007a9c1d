import EnvoyWasmFilters.Inja.IncludeFree
import EnvoyWasmFilters.Inja.Rounds
import EnvoyWasmFilters.TransformationFilter.HeaderRewrite
import EnvoyWasmFilters.TransformationFilter.SharedParser

/-!
# No template comes to an include

The constructor of `InjaTransformer` parses with one table of included templates, a `TransformerInstance`
renders with another one, which is empty, and the renderer does not check what it looks up there.

* `Transformation.PassesThrough` — the states of the shared parser while it works on a header's template;
* `new_passesThrough` — for an accepted transformation they lead from each text to its template;
* `passesThrough_storage` — in none of them is there an included template or an `Include`;
* `never_includes` — **hence no rendering comes to the look-up**.
-/

namespace EnvoyWasmFilters.TransformationFilter

open Inja StateExcept ElementwiseLists

variable {R J : Type} [StdRegex R] [NlohmannJson J]

/-! ### Parsing -/

/-- While the constructor works on the template of `entry`, the shared parser is in the state `s` at the
head of its loop: it has accepted the templates of the entries before. -/
def Transformation.PassesThrough (T : Transformation) (entry : (_ : Str) × InjaTemplate)
    (s : Parsing J) : Prop :=
  ∃ before after parser, T.headers.entries = before ++ entry :: after ∧
    Parser.After (before.map fun e => e.2.text) parser ∧ Rounds "./" (parser.begin entry.2.text) s

/-- The loop of the constructor from the entries after `before` on. -/
theorem parseHeaders_passesThrough {T : Transformation} {before entries : List ((_ : Str) × InjaTemplate)}
    {parser : Parser J} {headers : List (Str × Template J)}
    (hentries : T.headers.entries = before ++ entries)
    (hafter : Parser.After (before.map fun e => e.2.text) parser)
    (h : parseHeaders parser entries = .ok headers) :
    List.Forall₂ (fun e header => ∃ s : Parsing J, T.PassesThrough e s ∧
      s.nextToken.tok.kind = .eof ∧ s.nextToken.tmpl = header.2) entries headers := by
  induction entries generalizing before parser headers with
  | nil =>
    rw [← pure_eq_ok.mp h]
    exact .nil
  | cons e entries ih =>
    obtain ⟨⟨tmpl, next⟩, hparse, h⟩ := bind_eq_ok.mp h
    obtain ⟨rest, hrest, h⟩ := bind_eq_ok.mp h
    rw [← pure_eq_ok.mp h]
    constructor
    · obtain ⟨s, hrounds, hend, htmpl, -⟩ := parse_rounds hparse
      exact ⟨s, ⟨before, entries, parser, hentries, hafter, hrounds⟩, hend, htmpl⟩
    · have hnext : Parser.After ((before ++ [e]).map fun e => e.2.text) next := by
        rw [List.map_append]
        exact hafter.next hparse
      exact ih (by rw [hentries, List.append_assoc]; rfl) hnext hrest

/-- **The parse of an accepted transformation**: for each header the states passed through lead to the end
of the text, where the template is the one stored. -/
theorem new_passesThrough {T : Transformation} {t : InjaTransformer R J}
    (hnew : InjaTransformer.new T = .ok t) :
    List.Forall₂ (fun e header => ∃ s : Parsing J, T.PassesThrough e s ∧
      s.nextToken.tok.kind = .eof ∧ s.nextToken.tmpl = header.2) T.headers.entries t.headers := by
  obtain ⟨extractors, -, h⟩ := bind_eq_ok.mp hnew
  obtain ⟨headers, hheaders, h⟩ := bind_eq_ok.mp h
  rw [← pure_eq_ok.mp h]
  have hentries : T.headers.entries = [] ++ T.headers.entries := rfl
  exact parseHeaders_passesThrough hentries .new hheaders

/-- **The table stays empty**, and no bytecode refers to it. -/
theorem passesThrough_storage {T : Transformation} {entry : (_ : Str) × InjaTemplate} {s : Parsing J}
    (h : T.PassesThrough entry s) :
    s.includedTemplates = ∅ ∧ NoInclude s.tmpl.bytecodes := by
  obtain ⟨before, after, parser, -, hafter, hrounds⟩ := h
  have hempty : (parser.begin entry.2.text).includedTemplates = ∅ := (after_idle hafter).2
  have hbelow := Rounds.below hrounds
  exact ⟨hbelow.included.trans hempty,
    hbelow.noInclude hempty fun bc hbc => absurd hbc List.not_mem_nil⟩

/-- A stored template has no `Include`. -/
theorem new_noInclude {T : Transformation} {t : InjaTransformer R J}
    (hnew : InjaTransformer.new T = .ok t) {header : Str × Template J} (hheader : header ∈ t.headers) :
    NoInclude header.2.bytecodes := by
  obtain ⟨e, -, -, parser, hparse⟩ :=
    exists_of_forall₂_right (InjaTransformer.new_eq_ok.mp hnew).2 hheader
  exact parse_noInclude rfl hparse

/-! ### Rendering -/

/-- The renderer of the instance's environment, to which no template was added. -/
def TransformerInstance.renderer (i : TransformerInstance J) : Renderer J :=
  { includedTemplates := ∅, callbacks := i.callbacks }

/-- The data the instance renders with. -/
def TransformerInstance.data (i : TransformerInstance J) : J :=
  if NlohmannJson.isObject i.context then i.context else NlohmannJson.null

variable [RenderJson J]

/-- While the instance renders `input`, the run passes through `r`. -/
def TransformerInstance.Reaches (i : TransformerInstance J) (input : Template J) (r : Rendering J) :
    Prop := i.renderer.Reaches input i.data r

/-- **No template reaches a missing include.**  The constructor parses each header's text of an accepted
transformation from start to end with an empty table of included templates: the parse of an included file,
after which the only insertion stands, never returns.  No state and no stored template has an `Include`,
and whatever the message's headers, the extracted values and the context, no instance that renders a stored
template comes to the look-up. -/
theorem never_includes {T : Transformation} {t : InjaTransformer R J}
    (hnew : InjaTransformer.new T = .ok t) :
    (List.Forall₂ (fun e header => ∃ s : Parsing J, T.PassesThrough e s ∧
        s.nextToken.tok.kind = .eof ∧ s.nextToken.tmpl = header.2) T.headers.entries t.headers) ∧
      (∀ (entry : (_ : Str) × InjaTemplate) (s : Parsing J), T.PassesThrough entry s →
        s.includedTemplates = ∅ ∧ NoInclude s.tmpl.bytecodes) ∧
      (∀ (into : Str → ParseM J Unit) (filename : Str) (s : Parsing J),
        ∃ e, (parseTemplate into filename).run s = .error (some e)) ∧
      (∀ header ∈ t.headers, NoInclude header.2.bytecodes) ∧
      ∀ (i : TransformerInstance J), ∀ header ∈ t.headers, ∀ r, i.Reaches header.2 r →
        ¬ r.AtInclude := by
  refine ⟨new_passesThrough hnew, fun entry s h => passesThrough_storage h, parseTemplate_error,
    fun header hheader => new_noInclude hnew hheader, ?_⟩
  intro i header hheader r hreach
  exact reaches_not_atInclude (new_noInclude hnew hheader) hreach

/-- The transformation that copies the header `y` into `X-A`. -/
theorem copy_never_includes :
    (List.Forall₂ (fun e header => ∃ s : Parsing PlainJson, copyTransformation.PassesThrough e s ∧
        s.nextToken.tok.kind = .eof ∧ s.nextToken.tmpl = header.2)
        copyTransformation.headers.entries copyTransformer.headers) ∧
      (∀ (entry : (_ : Str) × InjaTemplate) (s : Parsing PlainJson),
        copyTransformation.PassesThrough entry s →
          s.includedTemplates = ∅ ∧ NoInclude s.tmpl.bytecodes) ∧
      (∀ (into : Str → ParseM PlainJson Unit) (filename : Str) (s : Parsing PlainJson),
        ∃ e, (parseTemplate into filename).run s = .error (some e)) ∧
      (∀ header ∈ copyTransformer.headers, NoInclude header.2.bytecodes) ∧
      ∀ (i : TransformerInstance PlainJson), ∀ header ∈ copyTransformer.headers, ∀ r,
        i.Reaches header.2 r → ¬ r.AtInclude :=
  never_includes copyTransformer_new

end EnvoyWasmFilters.TransformationFilter
