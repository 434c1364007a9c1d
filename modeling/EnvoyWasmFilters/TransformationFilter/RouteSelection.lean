import EnvoyWasmFilters.Library.FirstMatch
import EnvoyWasmFilters.TransformationFilter.Construction
import EnvoyWasmFilters.TransformationFilter.PlainTemplates

/-!
# Which rule a request selects

The rule a request ought to select is the first one all of whose match entries are satisfied
(`FirstMatch.IsFirst` of `Matcher.Satisfied`).  `getRouteTransformation` searches for the first rule
whose *stored* matchers accept, and `MatcherImpl` stores one matcher for each header name.

* `getRouteTransformation_isFirst` — what the search does find;
* `selectsFirst_iff` — exactly when that is the rule that ought to be selected.
-/

namespace EnvoyWasmFilters.TransformationFilter

open Inja

variable {R J : Type} [StdRegex R] [NlohmannJson J]

/-- Searching the table is searching the rules. -/
theorem findIdx?_forall₂ {rules : List TransformationRule}
    {table : List (MatcherImpl × RouteTransformers R J)} (headers : HeaderMap)
    (h : List.Forall₂ (fun rule entry => entry.1 = MatcherImpl.new rule.matcher ∧
      RouteTransformers.new rule.routeTransformations = .ok entry.2) rules table) :
    (table.findIdx? fun entry => entry.1.matches headers)
      = rules.findIdx? fun rule => (MatcherImpl.new rule.matcher).matches headers := by
  induction h with
  | nil => rfl
  | cons hentry _ ih => rw [List.findIdx?_cons, List.findIdx?_cons, hentry.1, ih]

/-- What the search over the table finds: the first rule the stored matchers accept. -/
theorem getRouteTransformation_isFirst {config : Config} {tc : TransformationConfig R J}
    (h : TransformationConfig.new config = .ok tc) (headers : HeaderMap) :
    FirstMatch.IsFirst (fun rule => (MatcherImpl.new rule.matcher).matches headers = true)
      config.transformations (tc.getRouteTransformation headers) := by
  have htable := TransformationConfig.new_eq_ok.mp h
  rw [TransformationConfig.getRouteTransformation, findIdx?_forall₂ headers htable]
  exact FirstMatch.findIdx?_isFirst _ _

/-- The transformers at a selected index are those of the rule at that index. -/
theorem getElem?_transformations {config : Config} {tc : TransformationConfig R J}
    (h : TransformationConfig.new config = .ok tc) {i : ℕ} {rule : TransformationRule}
    (hrule : config.transformations[i]? = some rule) :
    ∃ rt, tc.transformations[i]?.map Prod.snd = some rt ∧
      RouteTransformers.new rule.routeTransformations = .ok rt := by
  have htable := TransformationConfig.new_eq_ok.mp h
  obtain ⟨hi, rfl⟩ := List.getElem?_eq_some_iff.mp hrule
  have hi' : i < tc.transformations.length := htable.length_eq ▸ hi
  refine ⟨tc.transformations[i].2, by rw [List.getElem?_eq_getElem hi']; rfl, ?_⟩
  exact (htable.get hi hi').2

/-- The transformation table selects the first rule all of whose entries are satisfied, and holds
that rule's transformers. -/
def SelectsFirst (config : Config) (tc : TransformationConfig R J) (headers : HeaderMap) : Prop :=
  FirstMatch.IsFirst (fun rule => rule.matcher.Satisfied headers) config.transformations
      (tc.getRouteTransformation headers) ∧
    ∀ i ∈ tc.getRouteTransformation headers, ∃ rule rt,
      config.transformations[i]? = some rule ∧
      tc.transformations[i]?.map Prod.snd = some rt ∧
      RouteTransformers.new rule.routeTransformations = .ok rt

/-- **When the right rule is selected.**  Exactly when every rule that is accepted although a replaced
entry of it is not satisfied comes after a rule all of whose entries are satisfied. -/
theorem selectsFirst_iff {config : Config} {tc : TransformationConfig R J}
    (h : TransformationConfig.new config = .ok tc) (headers : HeaderMap) :
    SelectsFirst config tc headers ↔
      ∀ (i : ℕ) (rule : TransformationRule), config.transformations[i]? = some rule →
        (∀ entry ∈ lastEntries rule.matcher.headerMatchers, entry.Satisfied headers) →
        ¬ rule.matcher.Satisfied headers →
        ∃ j < i, ∃ earlier, config.transformations[j]? = some earlier ∧
          earlier.matcher.Satisfied headers := by
  have hfirst := getRouteTransformation_isFirst h headers
  have hpointed : ∀ i ∈ tc.getRouteTransformation headers, ∃ rule rt,
      config.transformations[i]? = some rule ∧
      tc.transformations[i]?.map Prod.snd = some rt ∧
      RouteTransformers.new rule.routeTransformations = .ok rt := by
    intro i hi
    rw [Option.mem_def.mp hi] at hfirst
    obtain ⟨⟨rule, hrule, -⟩, -⟩ := hfirst
    obtain ⟨rt, hrt, hnew⟩ := getElem?_transformations h hrule
    exact ⟨rule, rt, hrule, hrt, hnew⟩
  have haccepted : ∀ rule : TransformationRule, rule.matcher.Satisfied headers →
      (MatcherImpl.new rule.matcher).matches headers = true :=
    fun rule hsat => MatcherImpl.matches_of_satisfied hsat
  rw [SelectsFirst, and_iff_left hpointed, FirstMatch.IsFirst.imp_iff haccepted hfirst]
  simp only [MatcherImpl.matches_iff]

/-- A rule for the paths that begin with `/a` and end in `/b`. -/
def pathRule : TransformationRule where
  matcher := { headerMatchers :=
    [⟨":path", some (.prefixMatch "/a")⟩, ⟨":path", some (.suffixMatch "/b")⟩] }
  routeTransformations := { requestTransformation := none, responseTransformation := none }

/-- The table built from `pathRule` alone. -/
def pathTable : TransformationConfig PlainRegex PlainJson where
  transformations := [(MatcherImpl.new pathRule.matcher, { request := none, response := none })]

/-- On a path with the prefix and the suffix the rule is selected, and rightly so. -/
theorem selectsFirst_path_both : SelectsFirst ⟨[pathRule]⟩ pathTable [(":path", "/a/b")] := by
  refine (selectsFirst_iff rfl _).mpr fun i rule hrule _ hnot => absurd ?_ hnot
  have hmem : rule ∈ [pathRule] := List.mem_of_getElem? hrule
  rw [List.mem_singleton.mp hmem]
  intro entry hentry
  simp only [pathRule, List.mem_cons, List.not_mem_nil, or_false] at hentry
  rcases hentry with rfl | rfl
  · exact ⟨"/a/b", rfl, by simp [HeaderMatchSpecifier.Accepts]⟩
  · exact ⟨"/a/b", rfl, by simpa [HeaderMatchSpecifier.Accepts] using by decide⟩

/-- On a path with the suffix alone the rule is selected as well: the second entry has replaced the
first one. -/
theorem path_suffix_selects :
    TransformationConfig.new ⟨[pathRule]⟩ = .ok pathTable ∧
      pathTable.getRouteTransformation [(":path", "/x/b")] = some 0 ∧
      ¬ SelectsFirst ⟨[pathRule]⟩ pathTable [(":path", "/x/b")] := by
  have hselected : pathTable.getRouteTransformation [(":path", "/x/b")] = some 0 := by decide
  refine ⟨rfl, hselected, fun h => ?_⟩
  have hfirst := h.1
  rw [hselected] at hfirst
  obtain ⟨⟨rule, hrule, hsat⟩, -⟩ := hfirst
  obtain rfl : pathRule = rule := Option.some.inj hrule
  obtain ⟨value, hvalue, haccept⟩ :=
    hsat ⟨":path", some (.prefixMatch "/a")⟩ List.mem_cons_self
  obtain rfl : "/x/b".toList = value := Option.some.inj hvalue
  have hprefix : "/a".toList <+: "/x/b".toList := haccept _ rfl
  exact absurd hprefix (by decide)

end EnvoyWasmFilters.TransformationFilter
