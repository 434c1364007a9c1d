import EnvoyWasmFilters.Library.Forall2
import EnvoyWasmFilters.TransformationFilter.Filter

/-!
# What the constructors accept

A configuration is built rule by rule, a transformer entry by entry; any of the constructors may
throw.  `Config.Accepted` lists what has to be right, entry by entry: each regular expression compiles
and has the requested group, each header template is accepted by a parser of its own.

* `parseHeaders_eq_ok` — although all templates of a transformer go through one parser, each is
  parsed as by a new one;
* `InjaTransformer.new_eq_ok` — what the constructor of a transformer builds;
* `new_isOk_iff` — a configuration can be built exactly when it is accepted;
* `new_eq_error` — and otherwise the constructor stops with the failure of the first entry that is not.
-/

namespace EnvoyWasmFilters.TransformationFilter

open Inja StateExcept ElementwiseLists

variable {R J : Type} [StdRegex R] [NlohmannJson J]

/-! ### Extractors -/

theorem Extractor.new_eq_ok {extractor : Extraction} {x : Extractor R} :
    Extractor.new extractor = .ok x ↔ ∃ regex, StdRegex.compile extractor.regex = .ok regex ∧
      extractor.subgroup ≤ StdRegex.markCount regex ∧
      x = { headername := extractor.header, group := extractor.subgroup, extractRegex := regex } := by
  rw [Extractor.new, bind_eq_ok]
  refine exists_congr fun regex => and_congr_right fun _ => ?_
  by_cases hgroup : StdRegex.markCount regex < extractor.subgroup
  · rw [if_pos hgroup]
    constructor
    · intro h
      exact absurd h throw_ne_ok
    · intro h
      omega
  · rw [if_neg hgroup, pure_eq_ok]
    constructor
    · intro h
      exact ⟨by omega, h.symm⟩
    · intro h
      exact h.2.symm

/-- One extractor per entry of the map, under the entry's name. -/
theorem newExtractors_eq_ok {entries : List ((_ : Str) × Extraction)}
    {extractors : List (Str × Extractor R)} :
    newExtractors entries = .ok extractors ↔
      List.Forall₂ (fun e x => x.1 = e.1 ∧ Extractor.new e.2 = .ok x.2) entries extractors := by
  induction entries generalizing extractors with
  | nil =>
    rw [newExtractors, pure_eq_ok, List.forall₂_nil_left_iff]
    exact eq_comm
  | cons e entries ih =>
    rw [newExtractors, bind_eq_ok, List.forall₂_cons_left_iff]
    constructor
    · intro h
      obtain ⟨extractor, hnew, h⟩ := h
      obtain ⟨rest, hrest, h⟩ := bind_eq_ok.mp h
      exact ⟨(e.1, extractor), rest, ⟨rfl, hnew⟩, ih.mp hrest, (pure_eq_ok.mp h).symm⟩
    · intro h
      obtain ⟨⟨name, extractor⟩, rest, ⟨hname, hnew⟩, hrest, rfl⟩ := h
      obtain rfl : name = e.1 := hname
      exact ⟨extractor, hnew, bind_eq_ok.mpr ⟨rest, ih.mpr hrest, rfl⟩⟩

/-! ### Header templates -/

/-- A parser of its own makes `tmpl` of the text. -/
def ParsesTo (text : Str) (tmpl : Template J) : Prop :=
  ∃ parser, ({} : Parser J).parse text = .ok (tmpl, parser)

theorem ParsesTo.unique {text : Str} {tmpl tmpl' : Template J} (h : ParsesTo text tmpl)
    (h' : ParsesTo text tmpl') : tmpl = tmpl' := by
  obtain ⟨p, hp⟩ := h
  obtain ⟨p', hp'⟩ := h'
  rw [hp] at hp'
  exact (Prod.mk.inj (Except.ok.inj hp')).1

omit [NlohmannJson J] in
theorem new_parser_idle : ({} : Parser J).Idle := ⟨rfl, rfl, rfl⟩

/-- **The shared parser.**  Starting idle and without included templates, it makes of each text what
a parser of its own makes of it, and rejects exactly the texts that one rejects. -/
theorem parseHeaders_eq_ok {parser : Parser J} (hidle : parser.Idle)
    (hincl : parser.includedTemplates = ∅) {entries : List ((_ : Str) × InjaTemplate)}
    {headers : List (Str × Template J)} :
    parseHeaders parser entries = .ok headers ↔
      List.Forall₂ (fun e h => h.1 = lower e.1 ∧ ParsesTo e.2.text h.2) entries headers := by
  induction entries generalizing parser headers with
  | nil =>
    rw [parseHeaders, pure_eq_ok, List.forall₂_nil_left_iff]
    exact eq_comm
  | cons e entries ih =>
    have hfresh : parser.parse e.2.text = ({} : Parser J).parse e.2.text :=
      parse_eq_of_idle hidle new_parser_idle hincl _
    rw [parseHeaders, bind_eq_ok, List.forall₂_cons_left_iff]
    constructor
    · intro h
      obtain ⟨⟨tmpl, next⟩, hparse, h⟩ := h
      obtain ⟨rest, hrest, h⟩ := bind_eq_ok.mp h
      obtain ⟨hidle', hincl'⟩ := parse_idle hparse
      refine ⟨(lower e.1, tmpl), rest, ⟨rfl, next, hfresh ▸ hparse⟩, ?_, (pure_eq_ok.mp h).symm⟩
      exact (ih hidle' (hincl'.trans hincl)).mp hrest
    · intro h
      obtain ⟨⟨name, tmpl⟩, rest, ⟨hname, next, hparse⟩, hrest, rfl⟩ := h
      obtain rfl : name = lower e.1 := hname
      rw [← hfresh] at hparse
      obtain ⟨hidle', hincl'⟩ := parse_idle hparse
      have hrest' := (ih hidle' (hincl'.trans hincl)).mpr hrest
      exact ⟨(tmpl, next), hparse, bind_eq_ok.mpr ⟨rest, hrest', rfl⟩⟩

/-! ### Transformers and rules -/

/-- **What the constructor of `InjaTransformer` builds.** -/
theorem InjaTransformer.new_eq_ok {T : Transformation} {t : InjaTransformer R J} :
    InjaTransformer.new T = .ok t ↔
      List.Forall₂ (fun e x => x.1 = e.1 ∧ Extractor.new e.2 = .ok x.2)
        T.extractors.entries t.extractors ∧
      List.Forall₂ (fun e h => h.1 = lower e.1 ∧ ParsesTo e.2.text h.2)
        T.headers.entries t.headers := by
  rw [← newExtractors_eq_ok, ← parseHeaders_eq_ok new_parser_idle rfl]
  constructor
  · intro h
    obtain ⟨extractors, hext, h⟩ := bind_eq_ok.mp h
    obtain ⟨headers, hheaders, h⟩ := bind_eq_ok.mp h
    obtain rfl : ⟨extractors, headers⟩ = t := pure_eq_ok.mp h
    exact ⟨hext, hheaders⟩
  · intro h
    exact bind_eq_ok.mpr ⟨t.extractors, h.1, bind_eq_ok.mpr ⟨t.headers, h.2, rfl⟩⟩

/-- A list of rules is turned into the table rule by rule. -/
theorem newTransformations_eq_ok {rules : List TransformationRule}
    {table : List (MatcherImpl × RouteTransformers R J)} :
    newTransformations rules = .ok table ↔
      List.Forall₂ (fun rule entry => entry.1 = MatcherImpl.new rule.matcher ∧
        RouteTransformers.new rule.routeTransformations = .ok entry.2) rules table := by
  induction rules generalizing table with
  | nil =>
    rw [newTransformations, pure_eq_ok, List.forall₂_nil_left_iff]
    exact eq_comm
  | cons rule rules ih =>
    rw [newTransformations, bind_eq_ok, List.forall₂_cons_left_iff]
    constructor
    · intro h
      obtain ⟨rt, hrt, h⟩ := h
      obtain ⟨rest, hrest, h⟩ := bind_eq_ok.mp h
      exact ⟨(MatcherImpl.new rule.matcher, rt), rest, ⟨rfl, hrt⟩, ih.mp hrest,
        (pure_eq_ok.mp h).symm⟩
    · intro h
      obtain ⟨⟨matcher, rt⟩, rest, ⟨hmatcher, hrt⟩, hrest, rfl⟩ := h
      obtain rfl : matcher = MatcherImpl.new rule.matcher := hmatcher
      exact ⟨rt, hrt, bind_eq_ok.mpr ⟨rest, ih.mpr hrest, rfl⟩⟩

/-- **What the constructor of `TransformationConfig` builds.** -/
theorem TransformationConfig.new_eq_ok {config : Config} {tc : TransformationConfig R J} :
    TransformationConfig.new config = .ok tc ↔
      List.Forall₂ (fun rule entry => entry.1 = MatcherImpl.new rule.matcher ∧
        RouteTransformers.new rule.routeTransformations = .ok entry.2)
        config.transformations tc.transformations := by
  rw [← newTransformations_eq_ok]
  constructor
  · intro h
    obtain ⟨table, htable, h⟩ := bind_eq_ok.mp h
    obtain rfl : ⟨table⟩ = tc := pure_eq_ok.mp h
    exact htable
  · intro h
    exact bind_eq_ok.mpr ⟨tc.transformations, h, rfl⟩

/-! ### Accepted configurations -/

section Accepted

variable (R J)

/-- The extraction's regular expression compiles and has the requested group. -/
def Extraction.Accepted (e : Extraction) : Prop :=
  ∃ regex : R, StdRegex.compile e.regex = .ok regex ∧ e.subgroup ≤ StdRegex.markCount regex

/-- The template's text is accepted by a parser of its own. -/
def InjaTemplate.Accepted (template : InjaTemplate) : Prop :=
  ∃ tmpl : Template J, ParsesTo template.text tmpl

/-- Every extraction and every header template is accepted. -/
def Transformation.Accepted (T : Transformation) : Prop :=
  (∀ e ∈ T.extractors.entries, e.2.Accepted R) ∧ ∀ h ∈ T.headers.entries, h.2.Accepted J

/-- Both transformations of the rule, where present, are accepted. -/
def RouteTransformations.Accepted (routes : RouteTransformations) : Prop :=
  (∀ T ∈ routes.requestTransformation, T.Accepted R J) ∧
    ∀ T ∈ routes.responseTransformation, T.Accepted R J

/-- Every rule is accepted. -/
def Config.Accepted (config : Config) : Prop :=
  ∀ rule ∈ config.transformations, rule.routeTransformations.Accepted R J

variable {R J}

theorem InjaTransformer.new_isOk_iff {T : Transformation} :
    (∃ t : InjaTransformer R J, InjaTransformer.new T = .ok t) ↔ T.Accepted R J := by
  have hext : ∀ e : (_ : Str) × Extraction, e.2.Accepted R ↔
      ∃ x : Str × Extractor R, x.1 = e.1 ∧ Extractor.new e.2 = .ok x.2 := by
    intro e
    constructor
    · intro h
      obtain ⟨regex, hregex, hgroup⟩ := h
      exact ⟨(e.1, _), rfl, Extractor.new_eq_ok.mpr ⟨regex, hregex, hgroup, rfl⟩⟩
    · intro h
      obtain ⟨x, -, hx⟩ := h
      obtain ⟨regex, hregex, hgroup, -⟩ := Extractor.new_eq_ok.mp hx
      exact ⟨regex, hregex, hgroup⟩
  have hheader : ∀ e : (_ : Str) × InjaTemplate, e.2.Accepted J ↔
      ∃ h : Str × Template J, h.1 = lower e.1 ∧ ParsesTo e.2.text h.2 := by
    intro e
    constructor
    · intro h
      obtain ⟨tmpl, htmpl⟩ := h
      exact ⟨(lower e.1, tmpl), rfl, htmpl⟩
    · intro h
      obtain ⟨x, -, hx⟩ := h
      exact ⟨x.2, hx⟩
  rw [Transformation.Accepted, forall₂_congr fun e _ => hext e, forall₂_congr fun e _ => hheader e,
    ← exists_forall₂_iff, ← exists_forall₂_iff]
  constructor
  · intro h
    obtain ⟨t, ht⟩ := h
    obtain ⟨hextractors, hheaders⟩ := InjaTransformer.new_eq_ok.mp ht
    exact ⟨⟨_, hextractors⟩, _, hheaders⟩
  · intro h
    obtain ⟨⟨extractors, hextractors⟩, headers, hheaders⟩ := h
    exact ⟨⟨extractors, headers⟩, InjaTransformer.new_eq_ok.mpr ⟨hextractors, hheaders⟩⟩

theorem newTransformer_isOk_iff {T : Option Transformation} :
    (∃ t : Option (InjaTransformer R J), newTransformer T = .ok t) ↔
      ∀ transformation ∈ T, transformation.Accepted R J := by
  cases T with
  | none => exact ⟨fun _ T hT => absurd hT (by simp), fun _ => ⟨none, rfl⟩⟩
  | some T =>
    simp only [Option.mem_def, Option.some.injEq, forall_eq', ← InjaTransformer.new_isOk_iff]
    constructor
    · intro h
      obtain ⟨t, ht⟩ := h
      obtain ⟨transformer, htransformer, -⟩ := bind_eq_ok.mp ht
      exact ⟨transformer, htransformer⟩
    · intro h
      obtain ⟨transformer, htransformer⟩ := h
      exact ⟨some transformer, bind_eq_ok.mpr ⟨transformer, htransformer, rfl⟩⟩

theorem RouteTransformers.new_isOk_iff {routes : RouteTransformations} :
    (∃ rt : RouteTransformers R J, RouteTransformers.new routes = .ok rt) ↔
      routes.Accepted R J := by
  rw [RouteTransformations.Accepted, ← newTransformer_isOk_iff, ← newTransformer_isOk_iff]
  constructor
  · intro h
    obtain ⟨rt, hrt⟩ := h
    obtain ⟨request, hrequest, hrt⟩ := bind_eq_ok.mp hrt
    obtain ⟨response, hresponse, -⟩ := bind_eq_ok.mp hrt
    exact ⟨⟨request, hrequest⟩, response, hresponse⟩
  · intro h
    obtain ⟨⟨request, hrequest⟩, response, hresponse⟩ := h
    exact ⟨⟨request, response⟩,
      bind_eq_ok.mpr ⟨request, hrequest, bind_eq_ok.mpr ⟨response, hresponse, rfl⟩⟩⟩

/-- **A configuration can be built exactly when it is accepted**, entry by entry. -/
theorem new_isOk_iff {config : Config} :
    (∃ tc : TransformationConfig R J, TransformationConfig.new config = .ok tc) ↔
      config.Accepted R J := by
  have hrule : ∀ rule : TransformationRule, rule.routeTransformations.Accepted R J ↔
      ∃ entry : MatcherImpl × RouteTransformers R J, entry.1 = MatcherImpl.new rule.matcher ∧
        RouteTransformers.new rule.routeTransformations = .ok entry.2 := by
    intro rule
    rw [← RouteTransformers.new_isOk_iff]
    constructor
    · intro h
      obtain ⟨rt, hrt⟩ := h
      exact ⟨(MatcherImpl.new rule.matcher, rt), rfl, hrt⟩
    · intro h
      obtain ⟨entry, -, hrt⟩ := h
      exact ⟨entry.2, hrt⟩
  rw [Config.Accepted, forall₂_congr fun rule _ => hrule rule, ← exists_forall₂_iff]
  constructor
  · intro h
    obtain ⟨tc, htc⟩ := h
    exact ⟨tc.transformations, TransformationConfig.new_eq_ok.mp htc⟩
  · intro h
    obtain ⟨table, htable⟩ := h
    exact ⟨⟨table⟩, TransformationConfig.new_eq_ok.mpr htable⟩

end Accepted

/-! ### What fails first -/

section Failures

variable (R J)

/-- Why the extraction cannot be built, if it cannot. -/
def Extraction.failure (e : Extraction) : Option Stop := thrown (Extractor.new e : Except Stop (Extractor R))

/-- Why a parser of its own does not accept the template's text, if it does not. -/
def InjaTemplate.failure (template : InjaTemplate) : Option Stop := thrown (({} : Parser J).parse template.text)

/-- The failures of the entries, extractions first. -/
def Transformation.failures (T : Transformation) : List Stop :=
  T.extractors.entries.filterMap (fun e => e.2.failure R) ++ T.headers.entries.filterMap fun e => e.2.failure J

/-- The failures of both transformations, the request's first. -/
def RouteTransformations.failures (routes : RouteTransformations) : List Stop :=
  routes.requestTransformation.elim [] (·.failures R J) ++ routes.responseTransformation.elim [] (·.failures R J)

/-- The failures of all rules. -/
def Config.failures (config : Config) : List Stop :=
  config.transformations.flatMap fun rule => rule.routeTransformations.failures R J

variable {R J}

omit [NlohmannJson J] in
theorem thrown_newExtractors (entries : List ((_ : Str) × Extraction)) :
    thrown (newExtractors entries : Except Stop (List (Str × Extractor R)))
      = (entries.filterMap fun e => e.2.failure R).head? := by
  induction entries with
  | nil => rfl
  | cons e entries ih =>
    have hrest : ∀ x : Extractor R, thrown (newExtractors entries >>= fun rest => pure ((e.1, x) :: rest))
        = (entries.filterMap fun e => e.2.failure R).head? := fun x => by
      rw [thrown_bind_pure, ih]
    rw [newExtractors, thrown_bind fun x _ => hrest x, List.filterMap_cons, Extraction.failure]
    cases thrown (Extractor.new e.2 : Except Stop (Extractor R)) with
    | none => rfl
    | some e => rfl

theorem thrown_parseHeaders {parser : Parser J} (hidle : parser.Idle) (hincl : parser.includedTemplates = ∅)
    (entries : List ((_ : Str) × InjaTemplate)) :
    thrown (parseHeaders parser entries) = (entries.filterMap fun e => e.2.failure J).head? := by
  induction entries generalizing parser with
  | nil => rfl
  | cons e entries ih =>
    have hfresh : parser.parse e.2.text = ({} : Parser J).parse e.2.text :=
      parse_eq_of_idle hidle new_parser_idle hincl _
    have hrest : ∀ parsed, parser.parse e.2.text = .ok parsed →
        thrown (parseHeaders parsed.2 entries >>= fun rest => pure ((lower e.1, parsed.1) :: rest))
          = (entries.filterMap fun e => e.2.failure J).head? := fun parsed hparse => by
      obtain ⟨hidle', hincl'⟩ := parse_idle hparse
      rw [thrown_bind_pure, ih hidle' (hincl'.trans hincl)]
    rw [parseHeaders, thrown_bind hrest, hfresh, List.filterMap_cons, InjaTemplate.failure]
    cases thrown (({} : Parser J).parse e.2.text) with
    | none => rfl
    | some e => rfl

theorem thrown_newTransformer (T : Option Transformation) :
    thrown (newTransformer T : Except Stop (Option (InjaTransformer R J)))
      = (T.elim [] (·.failures R J)).head? := by
  cases T with
  | none => rfl
  | some T =>
    have hheaders : ∀ extractors : List (Str × Extractor R),
        thrown (parseHeaders {} T.headers.entries >>= fun headers =>
            (pure { extractors := extractors, headers := headers } : Except Stop (InjaTransformer R J)))
          = (T.headers.entries.filterMap fun e => e.2.failure J).head? := fun extractors => by
      rw [thrown_bind_pure, thrown_parseHeaders new_parser_idle rfl]
    rw [newTransformer, thrown_bind_pure, InjaTransformer.new, thrown_bind fun extractors _ => hheaders extractors, thrown_newExtractors, ← List.head?_append]
    rfl

theorem thrown_routes (routes : RouteTransformations) :
    thrown (RouteTransformers.new routes : Except Stop (RouteTransformers R J)) = (routes.failures R J).head? := by
  have hresponse : ∀ request : Option (InjaTransformer R J),
      thrown (newTransformer routes.responseTransformation >>= fun response =>
          (pure { request := request, response := response } : Except Stop (RouteTransformers R J)))
        = (routes.responseTransformation.elim [] (·.failures R J)).head? := fun request => by
    rw [thrown_bind_pure, thrown_newTransformer]
  rw [RouteTransformers.new, thrown_bind fun request _ => hresponse request, thrown_newTransformer,
    ← List.head?_append]
  rfl

theorem thrown_newTransformations (rules : List TransformationRule) :
    thrown (newTransformations rules : Except Stop (List (MatcherImpl × RouteTransformers R J)))
      = (rules.flatMap fun rule => rule.routeTransformations.failures R J).head? := by
  induction rules with
  | nil => rfl
  | cons rule rules ih =>
    have hrest : ∀ rt : RouteTransformers R J,
        thrown (newTransformations rules >>= fun rest => pure ((MatcherImpl.new rule.matcher, rt) :: rest))
          = (rules.flatMap fun rule => rule.routeTransformations.failures R J).head? := fun rt => by
      rw [thrown_bind_pure, ih]
    rw [newTransformations, thrown_bind fun rt _ => hrest rt, thrown_routes, List.flatMap_cons, List.head?_append]

/-- **The constructor stops with the first failure**, in the order of the entries. -/
theorem new_eq_error {config : Config} {e : Stop} :
    (TransformationConfig.new config : Except Stop (TransformationConfig R J)) = .error e ↔
      (config.failures R J).head? = some e := by
  rw [← thrown_eq_some, TransformationConfig.new, thrown_bind_pure, thrown_newTransformations, Config.failures]

end Failures

end EnvoyWasmFilters.TransformationFilter
