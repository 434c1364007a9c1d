import EnvoyWasmFilters.TransformationFilter.HeaderOrder

/-!
# Other header names in a configuration

Two configurations that differ in the header names they mention: in the names of match entries and
of extractions, which are related by some `ρ`, and in the letter case of the keys of the header
templates, which the constructor of `InjaTransformer` lower-cases.

* `TransformationConfig.new_renamed` — the constructors accept both, and the extractors built differ
  by `ρ` in the name of their header only;
* `TransformationConfig.outcome` — what a stream's request headers and response headers become, by the
  rule that is selected; `outcome_run` relates it to the filter's callbacks;
* `effect_eq` / `exists_extract_eq` — renamed transformers do the same when the extractors that run
  extract the same, and only then.
-/

namespace EnvoyWasmFilters.TransformationFilter

open Inja StateExcept ElementwiseLists

/-- The names are equal up to the case of letters. -/
def SameLetters (name name' : Str) : Prop := lower name' = lower name

section Renamed

variable (ρ : Str → Str → Prop)

/-! ### Configurations -/

/-- A match entry for another header. -/
structure HeaderMatch.Renamed (e e' : HeaderMatch) : Prop where
  name : ρ e.name e'.name
  headerMatchSpecifier : e'.headerMatchSpecifier = e.headerMatchSpecifier

/-- An extraction from another header. -/
structure Extraction.Renamed (e e' : Extraction) : Prop where
  source : Option.Rel ρ e.source e'.source
  regex : e'.regex = e.regex
  subgroup : e'.subgroup = e.subgroup

/-- The extractions are from other headers, and the keys of the header templates are in another letter
case.  The maps are visited in the same order. -/
structure Transformation.Renamed (T T' : Transformation) : Prop where
  extractors : List.Forall₂ (fun e e' => e'.1 = e.1 ∧ e.2.Renamed ρ e'.2)
    T.extractors.entries T'.extractors.entries
  headers : List.Forall₂ (fun e e' => SameLetters e.1 e'.1 ∧ e'.2 = e.2)
    T.headers.entries T'.headers.entries

structure RouteTransformations.Renamed (r r' : RouteTransformations) : Prop where
  requestTransformation : Option.Rel (Transformation.Renamed ρ) r.requestTransformation
    r'.requestTransformation
  responseTransformation : Option.Rel (Transformation.Renamed ρ) r.responseTransformation
    r'.responseTransformation

structure TransformationRule.Renamed (rule rule' : TransformationRule) : Prop where
  matcher : List.Forall₂ (HeaderMatch.Renamed ρ) rule.matcher.headerMatchers
    rule'.matcher.headerMatchers
  routeTransformations : rule.routeTransformations.Renamed ρ rule'.routeTransformations

/-- The configurations differ in header names: match entries and extractions are related by `ρ`, the
keys of header templates have the same letters. -/
def Config.Renamed (config config' : Config) : Prop :=
  List.Forall₂ (TransformationRule.Renamed ρ) config.transformations config'.transformations

/-! ### What is built from them -/

variable {R J : Type} [StdRegex R] [NlohmannJson J]

omit [StdRegex R] in
/-- The same extractor for another header. -/
def Extractor.Renamed (x x' : Extractor R) : Prop :=
  ∃ name, ρ x.headername name ∧ x' = { x with headername := name }

/-- The same templates, and extractors for other headers. -/
structure InjaTransformer.Renamed (t t' : InjaTransformer R J) : Prop where
  extractors : List.Forall₂ (fun x x' => x'.1 = x.1 ∧ x.2.Renamed ρ x'.2) t.extractors t'.extractors
  headers : t'.headers = t.headers

structure RouteTransformers.Renamed (rt rt' : RouteTransformers R J) : Prop where
  request : Option.Rel (InjaTransformer.Renamed ρ) rt.request rt'.request
  response : Option.Rel (InjaTransformer.Renamed ρ) rt.response rt'.response

variable {ρ}

/-- An unset header name reads as the empty name, which `ρ` has to relate to itself. -/
theorem Extractor.new_renamed (hnil : ρ [] []) {e e' : Extraction} (h : e.Renamed ρ e')
    {x : Extractor R} (hnew : Extractor.new e = .ok x) :
    ∃ x', Extractor.new e' = .ok x' ∧ x.Renamed ρ x' := by
  obtain ⟨regex, hregex, hgroup, rfl⟩ := Extractor.new_eq_ok.mp hnew
  have hname : ρ e.header e'.header := by
    have hsource := h.source
    rw [Extraction.header, Extraction.header]
    generalize e.source = source, e'.source = source' at hsource ⊢
    cases hsource with
    | some hname => exact hname
    | none => exact hnil
  rw [← h.regex] at hregex
  rw [← h.subgroup] at hgroup
  refine ⟨_, Extractor.new_eq_ok.mpr ⟨regex, hregex, hgroup, rfl⟩, e'.header, hname, ?_⟩
  rw [h.subgroup]

theorem InjaTransformer.new_renamed (hnil : ρ [] []) {T T' : Transformation} (h : T.Renamed ρ T')
    {t : InjaTransformer R J} (hnew : InjaTransformer.new T = .ok t) :
    ∃ t', InjaTransformer.new T' = .ok t' ∧ t.Renamed ρ t' := by
  obtain ⟨hextractors, hheaders⟩ := InjaTransformer.new_eq_ok.mp hnew
  have hextractor : ∀ (e e' : (_ : Str) × Extraction) (x : Str × Extractor R),
      e'.1 = e.1 ∧ e.2.Renamed ρ e'.2 → x.1 = e.1 ∧ Extractor.new e.2 = .ok x.2 →
      ∃ x' : Str × Extractor R, (x'.1 = e'.1 ∧ Extractor.new e'.2 = .ok x'.2) ∧
        (x'.1 = x.1 ∧ x.2.Renamed ρ x'.2) := by
    intro e e' x he hx
    obtain ⟨x', hx', hrel⟩ := Extractor.new_renamed hnil he.2 hx.2
    exact ⟨(e'.1, x'), ⟨rfl, hx'⟩, he.1.trans hx.1.symm, hrel⟩
  -- the constructor lower-cases the keys, so that their letter case is gone
  have hheader : ∀ (e e' : (_ : Str) × InjaTemplate) (x : Str × Template J),
      SameLetters e.1 e'.1 ∧ e'.2 = e.2 → x.1 = lower e.1 ∧ ParsesTo e.2.text x.2 →
      ∃ x' : Str × Template J, (x'.1 = lower e'.1 ∧ ParsesTo e'.2.text x'.2) ∧ x = x' := by
    intro e e' x he hx
    refine ⟨x, ⟨hx.1.trans he.1.symm, ?_⟩, rfl⟩
    rw [he.2]
    exact hx.2
  obtain ⟨extractors, hnew', hrenamed⟩ :=
    exists_forall₂_transfer hextractor h.extractors hextractors
  obtain ⟨headers, hnew'', heq⟩ := exists_forall₂_transfer hheader h.headers hheaders
  rw [List.forall₂_eq_eq_eq] at heq
  exact ⟨⟨extractors, headers⟩, InjaTransformer.new_eq_ok.mpr ⟨hnew', hnew''⟩, hrenamed, heq.symm⟩

theorem newTransformer_renamed (hnil : ρ [] []) {T T' : Option Transformation}
    (h : Option.Rel (Transformation.Renamed ρ) T T') {t : Option (InjaTransformer R J)}
    (hnew : newTransformer T = .ok t) :
    ∃ t', newTransformer T' = .ok t' ∧ Option.Rel (InjaTransformer.Renamed ρ) t t' := by
  cases h with
  | none =>
    obtain rfl : none = t := pure_eq_ok.mp hnew
    exact ⟨none, rfl, Option.Rel.none⟩
  | some h =>
    obtain ⟨transformer, htransformer, hpure⟩ := bind_eq_ok.mp hnew
    obtain rfl : some transformer = t := pure_eq_ok.mp hpure
    obtain ⟨t', ht', hrel⟩ := InjaTransformer.new_renamed hnil h htransformer
    exact ⟨some t', bind_eq_ok.mpr ⟨t', ht', rfl⟩, Option.Rel.some hrel⟩

theorem RouteTransformers.new_renamed (hnil : ρ [] []) {r r' : RouteTransformations}
    (h : r.Renamed ρ r') {rt : RouteTransformers R J} (hnew : RouteTransformers.new r = .ok rt) :
    ∃ rt', RouteTransformers.new r' = .ok rt' ∧ rt.Renamed ρ rt' := by
  obtain ⟨request, hrequest, hrest⟩ := bind_eq_ok.mp hnew
  obtain ⟨response, hresponse, hpure⟩ := bind_eq_ok.mp hrest
  obtain rfl : ⟨request, response⟩ = rt := pure_eq_ok.mp hpure
  obtain ⟨request', hrequest', hrel⟩ := newTransformer_renamed hnil h.requestTransformation hrequest
  obtain ⟨response', hresponse', hrel'⟩ :=
    newTransformer_renamed hnil h.responseTransformation hresponse
  exact ⟨⟨request', response'⟩,
    bind_eq_ok.mpr ⟨request', hrequest', bind_eq_ok.mpr ⟨response', hresponse', rfl⟩⟩, hrel, hrel'⟩

/-- **Renamed configurations build renamed tables.** -/
theorem TransformationConfig.new_renamed (hnil : ρ [] []) {config config' : Config}
    (h : config.Renamed ρ config') {tc : TransformationConfig R J}
    (hnew : TransformationConfig.new config = .ok tc) :
    ∃ tc', TransformationConfig.new config' = .ok tc' ∧
      List.Forall₂ (fun e e' => e.2.Renamed ρ e'.2) tc.transformations tc'.transformations := by
  have hstep : ∀ (rule rule' : TransformationRule) (entry : MatcherImpl × RouteTransformers R J),
      rule.Renamed ρ rule' → entry.1 = MatcherImpl.new rule.matcher ∧
        RouteTransformers.new rule.routeTransformations = .ok entry.2 →
      ∃ entry' : MatcherImpl × RouteTransformers R J,
        (entry'.1 = MatcherImpl.new rule'.matcher ∧
          RouteTransformers.new rule'.routeTransformations = .ok entry'.2) ∧
        entry.2.Renamed ρ entry'.2 := by
    intro rule rule' entry hrule hentry
    obtain ⟨rt, hrt, hrel⟩ := RouteTransformers.new_renamed hnil hrule.routeTransformations hentry.2
    exact ⟨(MatcherImpl.new rule'.matcher, rt), ⟨rfl, hrt⟩, hrel⟩
  obtain ⟨table, htable, hrenamed⟩ :=
    exists_forall₂_transfer hstep h (TransformationConfig.new_eq_ok.mp hnew)
  exact ⟨⟨table⟩, TransformationConfig.new_eq_ok.mpr htable, hrenamed⟩

/-! ### What they make of a message's headers -/

/-- What a transformer makes of the headers of a message: its extractions, the headers it leaves at
the host, and how it ends. -/
structure Effect where
  extractions : List (Str × Except Stop Str)
  headers : HeaderMap
  ended : Except Stop Unit

omit [NlohmannJson J] in
/-- The extractors that run on the headers: behind one that throws there is no other. -/
def reached (pairs : HeaderMap) : List (Str × Extractor R) → List (Str × Extractor R)
  | [] => []
  | x :: xs =>
      x :: match x.2.extract pairs with
        | .ok _ => reached pairs xs
        | .error _ => []

/-- The extractions of a transformer, by name. -/
def InjaTransformer.extractions (t : InjaTransformer R J) (pairs : HeaderMap) :
    List (Str × Except Stop Str) :=
  (reached pairs t.extractors).map fun x => (x.1, x.2.extract pairs)

section Extractors

variable {pairs : HeaderMap} {xs xs' : List (Str × Extractor R)}

omit [NlohmannJson J] in
/-- An extractor and those behind it. -/
theorem map_reached_cons (pairs : HeaderMap) (x : Str × Extractor R) (xs : List (Str × Extractor R)) :
    (reached pairs (x :: xs)).map (fun x => (x.1, x.2.extract pairs))
      = (x.1, x.2.extract pairs) :: (match x.2.extract pairs with
        | .ok _ => (reached pairs xs).map fun x => (x.1, x.2.extract pairs)
        | .error _ => []) := by
  rw [reached, List.map_cons]
  refine congrArg _ ?_
  cases x.2.extract pairs with
  | ok value => rfl
  | error e => rfl

omit [NlohmannJson J] in
/-- The map of extractions depends on the extractions, not on how they are extracted. -/
theorem collectExtractions_of_reached
    (h : (reached pairs xs').map (fun x => (x.1, x.2.extract pairs))
      = (reached pairs xs).map fun x => (x.1, x.2.extract pairs)) (m : Dict Str) :
    collectExtractions pairs m xs' = collectExtractions pairs m xs := by
  induction xs generalizing xs' m with
  | nil =>
    cases xs' with
    | nil => rfl
    | cons x' xs' =>
      rw [map_reached_cons] at h
      cases h
  | cons x xs ih =>
    cases xs' with
    | nil =>
      rw [map_reached_cons] at h
      cases h
    | cons x' xs' =>
      rw [map_reached_cons, map_reached_cons, List.cons.injEq, Prod.mk.injEq] at h
      obtain ⟨⟨hname, hvalue⟩, hrest⟩ := h
      rw [collectExtractions, collectExtractions, hname, hvalue]
      rw [hvalue] at hrest
      cases hextract : x.2.extract pairs with
      | error e => rfl
      | ok value =>
        rw [hextract] at hrest
        exact ih hrest _

variable {σ : Str × Extractor R → Str × Extractor R → Prop}

omit [NlohmannJson J] in
/-- Extractors that extract the same as those that run do the same. -/
theorem map_reached_eq (h : List.Forall₂ σ xs xs')
    (hextract : ∀ x ∈ reached pairs xs, ∀ x', σ x x' →
      (x'.1, x'.2.extract pairs) = (x.1, x.2.extract pairs)) :
    (reached pairs xs').map (fun x => (x.1, x.2.extract pairs))
      = (reached pairs xs).map fun x => (x.1, x.2.extract pairs) := by
  induction h with
  | nil => rfl
  | @cons x x' xs xs' hx _ ih =>
    have hhead := hextract x List.mem_cons_self x' hx
    rw [map_reached_cons, map_reached_cons, hhead, (Prod.mk.inj hhead).2]
    cases hvalue : x.2.extract pairs with
    | error e => rfl
    | ok value =>
      refine congrArg _ (ih fun y hy => hextract y ?_)
      rw [reached, hvalue]
      exact List.mem_cons_of_mem x hy

omit [NlohmannJson J] in
/-- Where the extractions are the same, each extractor that runs extracts what its partner does. -/
theorem exists_of_map_reached_eq (h : List.Forall₂ σ xs xs')
    (heq : (reached pairs xs').map (fun x => (x.1, x.2.extract pairs))
      = (reached pairs xs).map fun x => (x.1, x.2.extract pairs))
    {x : Str × Extractor R} (hx : x ∈ reached pairs xs) :
    ∃ x', σ x x' ∧ x'.2.extract pairs = x.2.extract pairs := by
  induction h with
  | nil => exact absurd hx List.not_mem_nil
  | @cons y y' xs xs' hy _ ih =>
    rw [map_reached_cons, map_reached_cons, List.cons.injEq, Prod.mk.injEq] at heq
    obtain ⟨⟨-, hvalue⟩, hrest⟩ := heq
    rw [hvalue] at hrest
    rw [reached] at hx
    rcases List.mem_cons.mp hx with rfl | hx
    · exact ⟨y', hy, hvalue⟩
    · cases hextract : y.2.extract pairs with
      | error e =>
        rw [hextract] at hx
        exact absurd hx List.not_mem_nil
      | ok value =>
        rw [hextract] at hx hrest
        exact ih hrest hx

end Extractors

variable [InjaRenderer J]

def InjaTransformer.effect (t : InjaTransformer R J) (pairs : HeaderMap) : Effect where
  extractions := t.extractions pairs
  headers := execCalls pairs (t.transform pairs).1
  ended := (t.transform pairs).2

/-- What becomes of a stream: the rule its request headers select, and what the rule's transformers make
of the request headers and of the response headers. -/
structure Outcome where
  selected : Option ℕ
  request : Option Effect
  response : Option Effect

omit [InjaRenderer J] in
/-- The transformers of the rule that is selected. -/
def TransformationConfig.selectedRoute (tc : TransformationConfig R J) (pairs : HeaderMap) :
    Option (RouteTransformers R J) :=
  (tc.getRouteTransformation pairs).bind fun index => tc.transformations[index]?.map Prod.snd

def TransformationConfig.outcome (tc : TransformationConfig R J)
    (requestPairs responsePairs : HeaderMap) : Outcome where
  selected := tc.getRouteTransformation requestPairs
  request := (tc.selectedRoute requestPairs).bind fun rt => rt.request.map fun t => t.effect requestPairs
  response :=
    (tc.selectedRoute requestPairs).bind fun rt => rt.response.map fun t => t.effect responsePairs

/-! ### The callbacks of a stream -/

section Callbacks

/-- What a callback leaves at the host. -/
theorem applyTransformer_headers (direction : Str) (transformer : Option (InjaTransformer R J))
    (pairs : HeaderMap) : (applyTransformer direction transformer pairs).headers
      = ((transformer.map fun t => t.effect pairs).map Effect.headers).getD pairs := by
  cases transformer with
  | none => rfl
  | some t => exact runTransformer_headers direction t pairs

/-- **The two callbacks of a stream** leave the headers of the outcome. -/
theorem outcome_run {root : RootContext R J} {tc : TransformationConfig R J}
    (hroot : root.transformationConfig = some tc) (requestPairs responsePairs : HeaderMap) :
    ∃ result context result',
      TransformationContext.onRequestHeaders {} root requestPairs = some (result, context) ∧
      context.onResponseHeaders root responsePairs = some result' ∧
      result.headers
        = ((tc.outcome requestPairs responsePairs).request.map Effect.headers).getD requestPairs ∧
      result'.headers
        = ((tc.outcome requestPairs responsePairs).response.map Effect.headers).getD responsePairs := by
  cases hindex : tc.getRouteTransformation requestPairs with
  | none =>
    have hroute : tc.selectedRoute requestPairs = none := by
      rw [TransformationConfig.selectedRoute, hindex, Option.bind_none]
    refine ⟨{ status := pure .continue, headers := requestPairs }, {},
      { status := pure .continue, headers := responsePairs }, ?_, rfl, ?_, ?_⟩
    · simp only [TransformationContext.onRequestHeaders, hroot, hindex]
    · rw [TransformationConfig.outcome, hroute]
      rfl
    · rw [TransformationConfig.outcome, hroute]
      rfl
  | some index =>
    obtain ⟨route, hderef, hselected⟩ := deref_selected hroot hindex
    have hroute : tc.selectedRoute requestPairs = some route := by
      rw [RootContext.selectedRoute, hroot] at hselected
      exact hselected
    refine ⟨applyTransformer "request" route.request requestPairs,
      { transformation := some ⟨root.generation, index⟩ },
      applyTransformer "response" route.response responsePairs, ?_, ?_, ?_, ?_⟩
    · simp only [TransformationContext.onRequestHeaders, hroot, hindex, hderef, Option.bind_eq_bind,
        Option.bind_some, Option.pure_def]
    · simp only [TransformationContext.onResponseHeaders, hderef, Option.bind_eq_bind, Option.bind_some,
        Option.pure_def]
    · rw [applyTransformer_headers, TransformationConfig.outcome, hroute]
      rfl
    · rw [applyTransformer_headers, TransformationConfig.outcome, hroute]
      rfl

end Callbacks

/-! ### Renamed transformers -/

variable {pairs : HeaderMap}

theorem transform_of_extractions_eq {t t' : InjaTransformer R J} (hheaders : t'.headers = t.headers)
    (hextractions : t'.extractions pairs = t.extractions pairs) :
    t'.transform pairs = t.transform pairs := by
  rw [InjaTransformer.transform, InjaTransformer.transform, hheaders,
    collectExtractions_of_reached hextractions]

/-- Renamed transformers do the same if the extractors that run extract the same. -/
theorem effect_eq {t t' : InjaTransformer R J} (h : t.Renamed ρ t')
    (hextract : ∀ x ∈ reached pairs t.extractors, ∀ x',
      x.2.Renamed ρ x' → x'.extract pairs = x.2.extract pairs) :
    t'.effect pairs = t.effect pairs := by
  have hextractions : t'.extractions pairs = t.extractions pairs :=
    map_reached_eq h.extractors fun x hx x' hrel => by rw [hrel.1, hextract x hx x'.2 hrel.2]
  rw [InjaTransformer.effect, InjaTransformer.effect, hextractions,
    transform_of_extractions_eq h.headers hextractions]

/-- Where renamed transformers do the same, every extractor that runs extracts what it extracts under its
other name. -/
theorem exists_extract_eq {t t' : InjaTransformer R J} (h : t.Renamed ρ t')
    (heq : t'.effect pairs = t.effect pairs) {x : Str × Extractor R} (hx : x ∈ reached pairs t.extractors) :
    ∃ x', x.2.Renamed ρ x' ∧ x'.extract pairs = x.2.extract pairs := by
  obtain ⟨x', hrel, hextract⟩ :=
    exists_of_map_reached_eq h.extractors (congrArg Effect.extractions heq) hx
  exact ⟨x'.2, hrel.2, hextract⟩

section Tables

variable {tc tc' : TransformationConfig R J}
  (h : List.Forall₂ (fun e e' => e.2.Renamed ρ e'.2) tc.transformations tc'.transformations)

include h

omit [StdRegex R] [NlohmannJson J] [InjaRenderer J] in
/-- Renamed tables that select the same rule select renamed transformers. -/
theorem selectedRoute_renamed (hselected : tc'.getRouteTransformation pairs = tc.getRouteTransformation pairs) :
    Option.Rel (RouteTransformers.Renamed ρ) (tc.selectedRoute pairs) (tc'.selectedRoute pairs) := by
  rw [TransformationConfig.selectedRoute, TransformationConfig.selectedRoute, hselected]
  cases tc.getRouteTransformation pairs with
  | none => exact Option.Rel.none
  | some index =>
    rw [Option.bind_some, Option.bind_some]
    by_cases hlt : index < tc.transformations.length
    · have hlt' : index < tc'.transformations.length := h.length_eq ▸ hlt
      rw [List.getElem?_eq_getElem hlt, List.getElem?_eq_getElem hlt']
      exact Option.Rel.some (h.get hlt hlt')
    · rw [List.getElem?_eq_none (Nat.not_lt.mp hlt), List.getElem?_eq_none (h.length_eq ▸ Nat.not_lt.mp hlt)]
      exact Option.Rel.none

/-- **Renamed tables do the same** where they select the same rule and its extractors that run extract the
same. -/
theorem outcome_eq {requestPairs responsePairs : HeaderMap}
    (hselected : tc'.getRouteTransformation requestPairs = tc.getRouteTransformation requestPairs)
    (hextract : ∀ rt ∈ tc.selectedRoute requestPairs,
      (∀ t ∈ rt.request, ∀ x ∈ reached requestPairs t.extractors, ∀ x',
        x.2.Renamed ρ x' → x'.extract requestPairs = x.2.extract requestPairs) ∧
      (∀ t ∈ rt.response, ∀ x ∈ reached responsePairs t.extractors, ∀ x',
        x.2.Renamed ρ x' → x'.extract responsePairs = x.2.extract responsePairs)) :
    tc'.outcome requestPairs responsePairs = tc.outcome requestPairs responsePairs := by
  have hroutes := selectedRoute_renamed h hselected
  rw [TransformationConfig.outcome, TransformationConfig.outcome, hselected]
  generalize tc.selectedRoute requestPairs = route, tc'.selectedRoute requestPairs = route'
    at hroutes hextract ⊢
  cases hroutes with
  | none => rfl
  | @some rt rt' hrt =>
    obtain ⟨hrequest, hresponse⟩ := hextract rt rfl
    have hrequests := map_eq_of_rel hrt.request fun t ht t' hrel => effect_eq hrel (hrequest t ht)
    have hresponses := map_eq_of_rel hrt.response fun t ht t' hrel => effect_eq hrel (hresponse t ht)
    rw [Option.bind_some, Option.bind_some, Option.bind_some, Option.bind_some, hrequests, hresponses]

/-- Where renamed tables do the same, the extractors that run extract what they extract under their other
names. -/
theorem exists_of_outcome_eq {requestPairs responsePairs : HeaderMap}
    (heq : tc'.outcome requestPairs responsePairs = tc.outcome requestPairs responsePairs)
    {rt : RouteTransformers R J} (hrt : rt ∈ tc.selectedRoute requestPairs) :
    (∀ t ∈ rt.request, ∀ x ∈ reached requestPairs t.extractors,
      ∃ x', x.2.Renamed ρ x' ∧ x'.extract requestPairs = x.2.extract requestPairs) ∧
    (∀ t ∈ rt.response, ∀ x ∈ reached responsePairs t.extractors,
      ∃ x', x.2.Renamed ρ x' ∧ x'.extract responsePairs = x.2.extract responsePairs) := by
  have hroutes := selectedRoute_renamed h (congrArg Outcome.selected heq)
  have hrequest := congrArg Outcome.request heq
  have hresponse := congrArg Outcome.response heq
  simp only [TransformationConfig.outcome] at hrequest hresponse
  generalize tc.selectedRoute requestPairs = route, tc'.selectedRoute requestPairs = route'
    at hroutes hrt hrequest hresponse
  cases hroutes with
  | none => cases hrt
  | @some rt₀ rt' hrel =>
    obtain rfl := Option.some.inj hrt
    rw [Option.bind_some, Option.bind_some] at hrequest hresponse
    refine ⟨fun t ht x hx => ?_, fun t ht x hx => ?_⟩
    · obtain ⟨t', hrel', heffect⟩ := exists_of_rel_map_eq hrel.request hrequest ht
      exact exists_extract_eq hrel' heffect hx
    · obtain ⟨t', hrel', heffect⟩ := exists_of_rel_map_eq hrel.response hresponse ht
      exact exists_extract_eq hrel' heffect hx

end Tables

end Renamed

end EnvoyWasmFilters.TransformationFilter
