import EnvoyWasmFilters.TransformationFilter.Renaming
import Mathlib

/-!
# The letter case of the configured header names

The host delivers header names in lower case.  The keys of a transformation's header templates are
lower-cased when the transformer is built; the names of match entries and of extractions are compared
as they are configured.

* `matches_rename_lower` — on lower-case headers an accepted match names its headers in lower case;
* `LetterFreeExtraction` — of the extractors that run, those with a letter in the name of their header
  extract nothing;
* `caseInsensitive_iff` — exactly when another letter case of the configured names changes nothing.
-/

namespace EnvoyWasmFilters.TransformationFilter

open Inja StateExcept ElementwiseLists

/-! ### Names -/

/-- The name in upper case. -/
def upper (name : Str) : Str := name.map Char.toUpper

/-- No character of the name is a letter. -/
def LetterFree (name : Str) : Prop := ∀ c ∈ name, c.isAlpha = false

theorem lower_lower (name : Str) : lower (lower name) = lower name := by
  rw [lower, lower, List.map_map]
  exact List.map_congr_left fun c _ => Char.toLower_toLower_eq_toLower c

theorem lower_upper (name : Str) : lower (upper name) = lower name := by
  rw [lower, lower, upper, List.map_map]
  exact List.map_congr_left fun c _ => Char.toLower_toUpper_eq_toLower c

/-- A character that is not a letter is the only one in its letter case. -/
theorem eq_of_toLower_eq {c d : Char} (hc : c.isAlpha = false) (h : d.toLower = c.toLower) : d = c := by
  have hd : d.isAlpha = false := by
    rw [← Char.isAlpha_toLower_eq_isAlpha, h, Char.isAlpha_toLower_eq_isAlpha, hc]
  have hupper : ∀ e : Char, e.isAlpha = false → ¬ e.isUpper := by
    intro e he
    rw [Char.isAlpha, Bool.or_eq_false_iff] at he
    simp [he.1]
  rw [← Char.toLower_eq_of_not_isUpper (hupper d hd), h, Char.toLower_eq_of_not_isUpper (hupper c hc)]

theorem LetterFree.eq_of_sameLetters {name name' : Str} (hfree : LetterFree name)
    (h : SameLetters name name') : name' = name := by
  induction name generalizing name' with
  | nil => exact List.map_eq_nil_iff.mp h
  | cons c cs ih =>
    cases name' with
    | nil => cases h
    | cons d ds =>
      obtain ⟨hhead, htail⟩ := List.cons.inj h
      rw [eq_of_toLower_eq (hfree c List.mem_cons_self) hhead,
        ih (fun e he => hfree e (List.mem_cons_of_mem c he)) htail]

/-- Only a name without letters is in lower case when it is in upper case. -/
theorem letterFree_of_lower_upper {name : Str} (h : lower (upper name) = upper name) :
    LetterFree name := by
  intro c hc
  rw [lower, upper, List.map_map] at h
  have hchar : c.toUpper.toLower = c.toUpper := List.map_inj_left.mp h c hc
  rw [← Char.isUpper_toUpper_eq_isAlpha, ← hchar, Char.isUpper_toLower_eq_false]

/-- The names of the headers are in lower case. -/
def LowerCase (pairs : HeaderMap) : Prop := ∀ header ∈ pairs, lower header.1 = header.1

theorem LowerCase.of_getHeader {pairs : HeaderMap} (hlower : LowerCase pairs) {name value : Str}
    (h : getHeader pairs name = some value) : lower name = name := by
  rw [getHeader_eq_head?] at h
  obtain ⟨header, hheader, -⟩ := Option.map_eq_some_iff.mp h
  have hmem := List.mem_filter.mp (List.mem_of_mem_head? hheader)
  obtain rfl : header.1 = name := of_decide_eq_true hmem.2
  exact hlower header hmem.1

/-! ### Changing the names -/

section Rename

variable (φ : Str → Str)

def HeaderMatch.rename (entry : HeaderMatch) : HeaderMatch := { entry with name := φ entry.name }

def Matcher.rename (matcher : Matcher) : Matcher where
  headerMatchers := matcher.headerMatchers.map fun entry => entry.rename φ

def Extraction.rename (e : Extraction) : Extraction := { e with source := e.source.map φ }

/-- The extractions from the headers of the other names; the templates stay. -/
def Transformation.rename (T : Transformation) : Transformation where
  extractors := {
    entries := T.extractors.entries.map fun e => ⟨e.1, e.2.rename φ⟩
    nodupKeys := by
      rw [List.NodupKeys, List.keys, List.map_map]
      exact T.extractors.nodupKeys }
  headers := T.headers

def RouteTransformations.rename (routes : RouteTransformations) : RouteTransformations where
  requestTransformation := routes.requestTransformation.map fun T => T.rename φ
  responseTransformation := routes.responseTransformation.map fun T => T.rename φ

def TransformationRule.rename (rule : TransformationRule) : TransformationRule where
  matcher := rule.matcher.rename φ
  routeTransformations := rule.routeTransformations.rename φ

def Config.rename (config : Config) : Config where
  transformations := config.transformations.map fun rule => rule.rename φ

variable {ρ : Str → Str → Prop} (hρ : ∀ name, ρ name (φ name))

include hρ

theorem HeaderMatch.renamed_rename (entry : HeaderMatch) : entry.Renamed ρ (entry.rename φ) :=
  ⟨hρ entry.name, rfl⟩

theorem Transformation.renamed_rename (T : Transformation) : T.Renamed ρ (T.rename φ) := by
  constructor
  · refine List.forall₂_map_right_iff.mpr (List.forall₂_same.mpr fun e _ => ⟨rfl, ?_, rfl, rfl⟩)
    show Option.Rel ρ e.2.source (e.2.source.map φ)
    cases e.2.source with
    | none => exact Option.Rel.none
    | some name => exact Option.Rel.some (hρ name)
  · exact List.forall₂_same.mpr fun e _ => ⟨rfl, rfl⟩

theorem RouteTransformations.renamed_rename (routes : RouteTransformations) :
    routes.Renamed ρ (routes.rename φ) := by
  have hoption : ∀ T : Option Transformation,
      Option.Rel (Transformation.Renamed ρ) T (T.map fun T => T.rename φ) := by
    intro T
    cases T with
    | none => exact Option.Rel.none
    | some T => exact Option.Rel.some (T.renamed_rename φ hρ)
  exact ⟨hoption _, hoption _⟩

theorem Config.renamed_rename (config : Config) : config.Renamed ρ (config.rename φ) := by
  refine List.forall₂_map_right_iff.mpr (List.forall₂_same.mpr fun rule _ => ⟨?_, ?_⟩)
  · exact List.forall₂_map_right_iff.mpr (List.forall₂_same.mpr fun entry _ =>
      entry.renamed_rename φ hρ)
  · exact rule.routeTransformations.renamed_rename φ hρ

end Rename

theorem Config.rename_id (config : Config) : config.rename id = config := by
  have hT : ∀ T : Transformation, T.rename id = T := by
    intro T
    simp [Transformation.rename, Extraction.rename]
  simp [Config.rename, TransformationRule.rename, RouteTransformations.rename, Matcher.rename,
    HeaderMatch.rename, hT]

/-- A configuration is renamed from itself. -/
theorem Config.renamed_self {ρ : Str → Str → Prop} (config : Config) (hρ : ∀ name, ρ name name) :
    config.Renamed ρ config := by
  have h := config.renamed_rename id hρ
  rwa [Config.rename_id] at h

/-- Changing names only by their letter case keeps their lower case. -/
theorem Matcher.rename_lower_of_renamed {rule rule' : TransformationRule}
    (h : rule.Renamed SameLetters rule') : rule'.matcher.rename lower = rule.matcher.rename lower := by
  refine congrArg Matcher.mk (map_eq_of_forall₂ h.matcher fun entry _ entry' hrel => ?_)
  rw [HeaderMatch.rename, HeaderMatch.rename, hrel.name, hrel.headerMatchSpecifier]

/-- A match whose names have no letters has no other letter case. -/
theorem Matcher.eq_of_letterFree {rule rule' : TransformationRule}
    (h : rule.Renamed SameLetters rule')
    (hfree : ∀ entry ∈ rule.matcher.headerMatchers, LetterFree entry.name) :
    rule'.matcher = rule.matcher := by
  have heq := map_eq_of_forall₂ (g := id) (f := id) h.matcher fun entry hentry entry' hrel => by
    have hname := (hfree entry hentry).eq_of_sameLetters hrel.name
    obtain ⟨name, specifier⟩ := entry
    obtain ⟨name', specifier'⟩ := entry'
    obtain rfl : name' = name := hname
    obtain rfl : specifier' = specifier := hrel.headerMatchSpecifier
    rfl
  rw [List.map_id, List.map_id] at heq
  exact congrArg Matcher.mk heq

theorem Matcher.rename_eq_self {φ : Str → Str} {matcher : Matcher}
    (h : ∀ entry ∈ matcher.headerMatchers, φ entry.name = entry.name) : matcher.rename φ = matcher := by
  refine congrArg Matcher.mk ((List.map_congr_left fun entry hentry => ?_).trans (List.map_id _))
  rw [HeaderMatch.rename, h entry hentry]
  rfl

/-! ### Selection -/

section Selection

variable {R J : Type} [StdRegex R] [NlohmannJson J] {pairs : HeaderMap}

/-- On lower-case headers an accepted match has lower-case names. -/
theorem matches_rename_lower (hlower : LowerCase pairs) {matcher : Matcher}
    (h : (MatcherImpl.new matcher).matches pairs = true) : matcher.rename lower = matcher :=
  Matcher.rename_eq_self fun entry hentry => by
    obtain ⟨value, hvalue⟩ := exists_getHeader_of_matches h hentry
    exact hlower.of_getHeader hvalue

/-- Whether the rule's match would be accepted with its names changed by `φ`. -/
def acceptsRenamed (φ : Str → Str) (pairs : HeaderMap) (rule : TransformationRule) : Bool :=
  (MatcherImpl.new (rule.matcher.rename φ)).matches pairs

/-- The rule that is selected when the names of all matches are put in lower case. -/
def SelectedInLower (config : Config) (pairs : HeaderMap) (i : ℕ) : Prop :=
  FirstMatch.IsFirst (fun rule => acceptsRenamed lower pairs rule = true) config.transformations (some i)

/-- This rule has no letter in the names of its match. -/
def LetterFreeSelection (config : Config) (pairs : HeaderMap) : Prop :=
  ∀ (i : ℕ) (rule : TransformationRule), SelectedInLower config pairs i →
    config.transformations[i]? = some rule → ∀ entry ∈ rule.matcher.headerMatchers,
      LetterFree entry.name

theorem getRouteTransformation_rename {φ : Str → Str} {config : Config}
    {tc : TransformationConfig R J} (hnew : TransformationConfig.new (config.rename φ) = .ok tc) :
    tc.getRouteTransformation pairs = config.transformations.findIdx? (acceptsRenamed φ pairs) := by
  rw [TransformationConfig.getRouteTransformation,
    findIdx?_forall₂ pairs (TransformationConfig.new_eq_ok.mp hnew), Config.rename,
    List.findIdx?_map]
  rfl

/-- The rule selected in lower case does not depend on the letter case the names had before. -/
theorem findIdx?_acceptsRenamed_lower {config config' : Config}
    (hrenamed : config.Renamed SameLetters config') :
    config'.transformations.findIdx? (acceptsRenamed lower pairs)
      = config.transformations.findIdx? (acceptsRenamed lower pairs) := by
  have hmatchers := map_eq_of_forall₂ hrenamed fun rule _ rule' h =>
    Matcher.rename_lower_of_renamed h
  have hsearch :=
    congrArg (List.findIdx? fun matcher => (MatcherImpl.new matcher).matches pairs) hmatchers
  rw [List.findIdx?_map, List.findIdx?_map] at hsearch
  exact hsearch

/-- A rule accepted as it is configured is accepted in lower case. -/
theorem acceptsRenamed_lower_of_matches (hlower : LowerCase pairs) {rule : TransformationRule}
    (h : (MatcherImpl.new rule.matcher).matches pairs = true) :
    acceptsRenamed lower pairs rule = true := by
  rw [acceptsRenamed, matches_rename_lower hlower h]
  exact h

/-- A rule accepted in lower case is accepted in every letter case, if its names have no letters. -/
theorem matches_of_letterFree {rule rule' : TransformationRule} (h : rule.Renamed SameLetters rule')
    (hfree : ∀ entry ∈ rule.matcher.headerMatchers, LetterFree entry.name)
    (haccepted : acceptsRenamed lower pairs rule' = true) :
    (MatcherImpl.new rule'.matcher).matches pairs = true := by
  have hself : rule.matcher.rename lower = rule.matcher :=
    Matcher.rename_eq_self fun entry hentry =>
      (hfree entry hentry).eq_of_sameLetters (lower_lower entry.name)
  rw [acceptsRenamed, Matcher.rename_lower_of_renamed h, hself] at haccepted
  rw [Matcher.eq_of_letterFree h hfree]
  exact haccepted

/-- In whatever letter case the names are, the rule selected is the one selected in lower case, if
that rule's names have no letters. -/
theorem getRouteTransformation_of_letterFree (hlower : LowerCase pairs) {config config' : Config}
    (hfree : LetterFreeSelection config pairs) (hrenamed : config.Renamed SameLetters config')
    {tc' : TransformationConfig R J} (hnew : TransformationConfig.new config' = .ok tc') :
    tc'.getRouteTransformation pairs
      = config.transformations.findIdx? (acceptsRenamed lower pairs) := by
  refine (getRouteTransformation_isFirst hnew pairs).unique ?_
  have hfirst := FirstMatch.findIdx?_isFirst (acceptsRenamed lower pairs) config.transformations
  have hfirst' := FirstMatch.findIdx?_isFirst (acceptsRenamed lower pairs) config'.transformations
  rw [findIdx?_acceptsRenamed_lower hrenamed] at hfirst'
  cases hindex : config.transformations.findIdx? (acceptsRenamed lower pairs) with
  | none =>
    rw [hindex] at hfirst'
    exact fun rule' hrule' h => hfirst' rule' hrule' (acceptsRenamed_lower_of_matches hlower h)
  | some i =>
    rw [hindex] at hfirst hfirst'
    obtain ⟨⟨rule', hrule', haccepted⟩, hbefore⟩ := hfirst'
    obtain ⟨rule, hrule, hrel⟩ : ∃ rule, config.transformations[i]? = some rule ∧
        rule.Renamed SameLetters rule' := by
      obtain ⟨hi', rfl⟩ := List.getElem?_eq_some_iff.mp hrule'
      have hi : i < config.transformations.length := hrenamed.length_eq ▸ hi'
      exact ⟨_, List.getElem?_eq_getElem hi, hrenamed.get hi hi'⟩
    have hmatches := matches_of_letterFree hrel (hfree i rule hfirst hrule) haccepted
    exact ⟨⟨rule', hrule', hmatches⟩, fun j hj a ha h =>
      hbefore j hj a ha (acceptsRenamed_lower_of_matches hlower h)⟩

/-- If lower-case and upper-case names select the same rule, its names have no letters: no header has
a name with an upper-case letter. -/
theorem letterFreeSelection_of_eq (hlower : LowerCase pairs) {config : Config}
    (heq : config.transformations.findIdx? (acceptsRenamed upper pairs)
      = config.transformations.findIdx? (acceptsRenamed lower pairs)) :
    LetterFreeSelection config pairs := by
  intro i rule hfirst hrule entry hentry
  have hupper := FirstMatch.findIdx?_isFirst (acceptsRenamed upper pairs) config.transformations
  rw [heq, (FirstMatch.findIdx?_isFirst (acceptsRenamed lower pairs) _).unique hfirst] at hupper
  obtain ⟨⟨rule', hrule', haccepted⟩, -⟩ := hupper
  obtain rfl : rule = rule' := Option.some.inj (hrule.symm.trans hrule')
  obtain ⟨value, hvalue⟩ := exists_getHeader_of_matches haccepted (List.mem_map_of_mem hentry)
  exact letterFree_of_lower_upper (hlower.of_getHeader hvalue)

end Selection

/-! ### Extraction -/

section Extraction

variable {R J : Type} [StdRegex R] [NlohmannJson J] {pairs : HeaderMap}

omit [NlohmannJson J] in
/-- An extractor that runs on the headers and has a letter in its header's name extracts nothing from the
header of the name in lower case, if there is one. -/
def InjaTransformer.LetterFreeExtraction (t : InjaTransformer R J) (pairs : HeaderMap) : Prop :=
  ∀ x ∈ reached pairs t.extractors, ¬ LetterFree x.2.headername →
    ∀ value, getHeader pairs (lower x.2.headername) = some value → x.2.extractValue value = .ok []

/-- The same of the rule that is selected: on the request headers for its requests, and on the response
headers for its responses. -/
def LetterFreeExtraction (config : Config) (tc : TransformationConfig R J)
    (requestPairs responsePairs : HeaderMap) : Prop :=
  ∀ (i : ℕ) (entry : MatcherImpl × RouteTransformers R J), SelectedInLower config requestPairs i →
    tc.transformations[i]? = some entry →
      (∀ t ∈ entry.2.request, t.LetterFreeExtraction requestPairs) ∧
        ∀ t ∈ entry.2.response, t.LetterFreeExtraction responsePairs

omit [StdRegex R] [NlohmannJson J] in
/-- The transformers selected are those of the rule that is selected in lower case, where this is the one
selected. -/
theorem mem_selectedRoute_iff {config : Config} {tc : TransformationConfig R J}
    (hselected : tc.getRouteTransformation pairs
      = config.transformations.findIdx? (acceptsRenamed lower pairs)) {rt : RouteTransformers R J} :
    rt ∈ tc.selectedRoute pairs ↔ ∃ (i : ℕ) (entry : MatcherImpl × RouteTransformers R J),
      SelectedInLower config pairs i ∧ tc.transformations[i]? = some entry ∧ entry.2 = rt := by
  have hfirst := FirstMatch.findIdx?_isFirst (acceptsRenamed lower pairs) config.transformations
  rw [TransformationConfig.selectedRoute, hselected, Option.mem_def, Option.bind_eq_some_iff]
  constructor
  · rintro ⟨i, hi, hentry⟩
    obtain ⟨entry, hget, hrt⟩ := Option.map_eq_some_iff.mp hentry
    rw [hi] at hfirst
    exact ⟨i, entry, hfirst, hget, hrt⟩
  · rintro ⟨i, entry, hi, hget, hrt⟩
    exact ⟨i, hfirst.unique hi, Option.map_eq_some_iff.mpr ⟨entry, hget, hrt⟩⟩

theorem extract_eq_of_sameLetters (hlower : LowerCase pairs) {x x' : Extractor R}
    (hempty : ¬ LetterFree x.headername → ∀ value,
      getHeader pairs (lower x.headername) = some value → x.extractValue value = .ok [])
    (h : x.Renamed SameLetters x') : x'.extract pairs = x.extract pairs := by
  obtain ⟨name, hname, rfl⟩ := h
  by_cases hfree : LetterFree x.headername
  · rw [hfree.eq_of_sameLetters hname]
  · have hnil : ∀ name, SameLetters x.headername name →
        Extractor.extract { x with headername := name } pairs = .ok [] := by
      intro name hname
      cases hget : getHeader pairs name with
      | none =>
        simp only [Extractor.extract, hget]
        rfl
      | some value =>
        simp only [Extractor.extract, hget]
        rw [← hlower.of_getHeader hget, hname] at hget
        exact hempty hfree value hget
    rw [hnil name hname]
    exact (hnil x.headername rfl).symm

/-- An extractor that extracts the same under its name in lower and in upper case extracts nothing, or
has no letter in the name. -/
theorem extractValue_eq_nil (hlower : LowerCase pairs) {x : Extractor R}
    (heq : Extractor.extract { x with headername := upper x.headername } pairs
      = Extractor.extract { x with headername := lower x.headername } pairs)
    (hfree : ¬ LetterFree x.headername) {value : Str}
    (hvalue : getHeader pairs (lower x.headername) = some value) :
    x.extractValue value = .ok [] := by
  have habsent : getHeader pairs (upper x.headername) = none := by
    cases hget : getHeader pairs (upper x.headername) with
    | none => rfl
    | some other => exact absurd (letterFree_of_lower_upper (hlower.of_getHeader hget)) hfree
  simp only [Extractor.extract, habsent, hvalue] at heq
  exact heq.symm

end Extraction

/-! ### The configured names -/

/-- The keys of the header templates are different up to letter case. -/
def Transformation.KeysDistinct (T : Transformation) : Prop :=
  (T.headers.entries.map fun e => lower e.1).Nodup

/-- The keys of the header templates of each transformation are different up to letter case. -/
def Config.KeysDistinct (config : Config) : Prop :=
  ∀ rule ∈ config.transformations, ∀ T, T ∈ rule.routeTransformations.requestTransformation ∨
    T ∈ rule.routeTransformations.responseTransformation → T.KeysDistinct

theorem Config.KeysDistinct.rename {config : Config} (h : config.KeysDistinct) (φ : Str → Str) :
    (config.rename φ).KeysDistinct := by
  intro rule hrule T hT
  obtain ⟨rule, hmem, rfl⟩ := List.mem_map.mp hrule
  have hrenamed : ∀ o : Option Transformation, T ∈ o.map (fun T => T.rename φ) →
      (∀ T ∈ o, T.KeysDistinct) → T.KeysDistinct := by
    intro o hT hall
    obtain ⟨T, hmem, rfl⟩ := Option.map_eq_some_iff.mp hT
    exact hall T hmem
  rcases hT with hT | hT
  · exact hrenamed _ hT fun T hT => h rule hmem T (Or.inl hT)
  · exact hrenamed _ hT fun T hT => h rule hmem T (Or.inr hT)

section CaseInsensitive

variable {R J : Type} [StdRegex R] [NlohmannJson J] [InjaRenderer J]

/-- Another letter case of the header names of the configuration, the keys of header templates staying
different, changes nothing in what becomes of a stream: neither the rule selected nor the extractions and the
headers that its transformers leave. -/
def CaseInsensitive (config : Config) (tc : TransformationConfig R J)
    (requestPairs responsePairs : HeaderMap) : Prop :=
  ∀ config', config.Renamed SameLetters config' → config'.KeysDistinct →
    ∃ tc' : TransformationConfig R J, TransformationConfig.new config' = .ok tc' ∧
      tc'.outcome requestPairs responsePairs = tc.outcome requestPairs responsePairs

variable {config : Config} {tc : TransformationConfig R J} {requestPairs responsePairs : HeaderMap}

/-- The configuration with its names changed by `φ` to another letter case. -/
theorem CaseInsensitive.rename (hcase : CaseInsensitive config tc requestPairs responsePairs)
    (hnew : TransformationConfig.new config = .ok tc) (hkeys : config.KeysDistinct)
    {φ : Str → Str} (hnil : φ [] = []) (hφ : ∀ name, SameLetters name (φ name)) :
    config.transformations.findIdx? (acceptsRenamed φ requestPairs)
        = tc.getRouteTransformation requestPairs ∧
      ∀ rt ∈ tc.selectedRoute requestPairs,
        (∀ t ∈ rt.request, ∀ x ∈ reached requestPairs t.extractors,
          Extractor.extract { x.2 with headername := φ x.2.headername } requestPairs
            = x.2.extract requestPairs) ∧
        (∀ t ∈ rt.response, ∀ x ∈ reached responsePairs t.extractors,
          Extractor.extract { x.2 with headername := φ x.2.headername } responsePairs
            = x.2.extract responsePairs) := by
  have hsame : config.Renamed SameLetters (config.rename φ) := config.renamed_rename φ hφ
  have hrenamed : config.Renamed (fun name name' => φ name = name') (config.rename φ) :=
    config.renamed_rename φ fun _ => rfl
  obtain ⟨tc', hnew', houtcome⟩ := hcase (config.rename φ) hsame (hkeys.rename φ)
  obtain ⟨tc'', hnew'', htables⟩ := TransformationConfig.new_renamed hnil hrenamed hnew
  obtain rfl : tc' = tc'' := Except.ok.inj (hnew'.symm.trans hnew'')
  refine ⟨?_, fun rt hrt => ?_⟩
  · rw [← getRouteTransformation_rename hnew']
    exact congrArg Outcome.selected houtcome
  · obtain ⟨hrequest, hresponse⟩ := exists_of_outcome_eq htables houtcome hrt
    refine ⟨fun t ht x hx => ?_, fun t ht x hx => ?_⟩
    · obtain ⟨_, ⟨name, rfl, rfl⟩, hextract⟩ := hrequest t ht x hx
      exact hextract
    · obtain ⟨_, ⟨name, rfl, rfl⟩, hextract⟩ := hresponse t ht x hx
      exact hextract

/-- **When the letter case of configured names does not matter.**  Exactly when the rule that is
selected with all names in lower case has no letters in the names of its match, and no extractor of it
that runs and has a letter in its header's name would extract something under the name in lower case. -/
theorem caseInsensitive_iff (hnew : TransformationConfig.new config = .ok tc)
    (hlower : LowerCase requestPairs) (hlower' : LowerCase responsePairs)
    (hkeys : config.KeysDistinct) :
    CaseInsensitive config tc requestPairs responsePairs ↔
      LetterFreeSelection config requestPairs ∧
        LetterFreeExtraction config tc requestPairs responsePairs := by
  constructor
  · intro hcase
    obtain ⟨hselected, hextract⟩ := hcase.rename hnew hkeys rfl lower_lower
    obtain ⟨hselected', hextract'⟩ := hcase.rename hnew hkeys rfl lower_upper
    refine ⟨letterFreeSelection_of_eq hlower (hselected'.trans hselected.symm), ?_⟩
    intro i entry hi hentry
    have hrt : entry.2 ∈ tc.selectedRoute requestPairs :=
      (mem_selectedRoute_iff hselected.symm).mpr ⟨i, entry, hi, hentry, rfl⟩
    obtain ⟨hrequest, hresponse⟩ := hextract entry.2 hrt
    obtain ⟨hrequest', hresponse'⟩ := hextract' entry.2 hrt
    refine ⟨fun t ht x hx hletter value hvalue => ?_, fun t ht x hx hletter value hvalue => ?_⟩
    · have heq := (hrequest' t ht x hx).trans (hrequest t ht x hx).symm
      exact extractValue_eq_nil hlower heq hletter hvalue
    · have heq := (hresponse' t ht x hx).trans (hresponse t ht x hx).symm
      exact extractValue_eq_nil hlower' heq hletter hvalue
  · rintro ⟨hselection, hextraction⟩ config' hrenamed -
    have hnil : SameLetters [] [] := rfl
    obtain ⟨tc', hnew', htables⟩ := TransformationConfig.new_renamed hnil hrenamed hnew
    have hselected := getRouteTransformation_of_letterFree hlower hselection
      (config.renamed_self fun _ => rfl) hnew
    have hselected' := getRouteTransformation_of_letterFree hlower hselection hrenamed hnew'
    refine ⟨tc', hnew', outcome_eq htables (hselected'.trans hselected.symm) fun rt hrt => ?_⟩
    obtain ⟨i, entry, hi, hentry, rfl⟩ := (mem_selectedRoute_iff hselected).mp hrt
    obtain ⟨hrequest, hresponse⟩ := hextraction i entry hi hentry
    exact ⟨fun t ht x hx x' hrel => extract_eq_of_sameLetters hlower (hrequest t ht x hx) hrel,
      fun t ht x hx x' hrel => extract_eq_of_sameLetters hlower' (hresponse t ht x hx) hrel⟩

end CaseInsensitive

/-- The header `y` is copied into `X-A`, and the header `x-user` extracted if it is `u`. -/
def userCopy : Transformation where
  extractors := AList.singleton "user".toList { source := some "x-user", regex := "u", subgroup := 0 }
  headers := copyTransformation.headers

/-- What the constructor makes of it. -/
def userCopier : InjaTransformer PlainRegex PlainJson where
  extractors := [("user", { headername := "x-user", group := 0, extractRegex := ⟨"u"⟩ })]
  headers := copyTransformer.headers

/-- A rule for the messages with a header `1`, which does this with requests and responses. -/
def copyRule : TransformationRule where
  matcher := { headerMatchers := [⟨"1", none⟩] }
  routeTransformations :=
    { requestTransformation := some userCopy, responseTransformation := some userCopy }

/-- The table built from `copyRule` alone. -/
def copyTable : TransformationConfig PlainRegex PlainJson where
  transformations :=
    [(MatcherImpl.new copyRule.matcher, { request := some userCopier, response := some userCopier })]

/-- A message of the user `v`. -/
def otherUser : HeaderMap := [("1", "2"), ("x-user", "v"), ("y", "1"), ("x-a", "2")]

/-- The rule is selected, and the key `X-A` and the header `x-user` may be in any letter case. -/
theorem copyRule_caseInsensitive :
    copyTable.getRouteTransformation otherUser = some 0 ∧
      CaseInsensitive ⟨[copyRule]⟩ copyTable otherUser [("y", "3")] := by
  have hcopier : InjaTransformer.new userCopy = .ok userCopier := by decide +kernel
  have hnew : TransformationConfig.new ⟨[copyRule]⟩ = .ok copyTable := by
    refine TransformationConfig.new_eq_ok.mpr (List.Forall₂.cons ⟨rfl, ?_⟩ List.Forall₂.nil)
    simp only [copyRule, RouteTransformers.new, newTransformer, hcopier]
    rfl
  have hlower : LowerCase otherUser := by
    intro header hheader
    simp only [otherUser, List.mem_cons, List.not_mem_nil, or_false] at hheader
    rcases hheader with rfl | rfl | rfl | rfl <;> rfl
  have hlower' : LowerCase [("y", "3")] := by
    intro header hheader
    rw [List.mem_singleton.mp hheader]
    rfl
  have hkeys : Config.KeysDistinct ⟨[copyRule]⟩ := by
    intro rule hrule T hT
    rw [List.mem_singleton.mp hrule] at hT
    obtain rfl : userCopy = T := by
      rcases hT with hT | hT
      · exact Option.some.inj hT
      · exact Option.some.inj hT
    exact List.nodup_singleton _
  refine ⟨by decide +kernel, (caseInsensitive_iff hnew hlower hlower' hkeys).mpr ⟨?_, ?_⟩⟩
  · intro i rule _ hrule entry hentry
    rw [List.mem_singleton.mp (List.mem_of_getElem? hrule)] at hentry
    rw [List.mem_singleton.mp hentry]
    intro c hc
    rw [List.mem_singleton.mp hc]
    decide
  · intro i entry _ hentry
    rw [List.mem_singleton.mp (List.mem_of_getElem? hentry)]
    constructor
    · -- the user is no `u`, so that nothing is extracted
      rintro t ht x hx - value hvalue
      obtain rfl : userCopier = t := Option.some.inj ht
      obtain rfl := List.mem_singleton.mp hx
      obtain rfl : ("v" : Str) = value := Option.some.inj hvalue
      rfl
    · rintro t ht x hx - value hvalue
      obtain rfl : userCopier = t := Option.some.inj ht
      obtain rfl := List.mem_singleton.mp hx
      cases hvalue

/-- A rule for the messages with a header `x-user`. -/
def userRule : TransformationRule where
  matcher := { headerMatchers := [⟨"x-user", none⟩] }
  routeTransformations := {
    requestTransformation := some {
      extractors := AList.singleton "user".toList
        { source := some "x-user", regex := "u", subgroup := 0 }
      headers := ∅ }
    responseTransformation := none }

/-- The table built from `userRule` alone. -/
def userTable : TransformationConfig PlainRegex PlainJson where
  transformations := [(MatcherImpl.new userRule.matcher, {
    request := some {
      extractors := [("user", { headername := "x-user", group := 0, extractRegex := ⟨"u"⟩ })]
      headers := [] }
    response := none })]

/-- With `X-USER` for `x-user` the rule is not selected any more. -/
theorem userRule_not_caseInsensitive :
    TransformationConfig.new ⟨[userRule]⟩ = .ok userTable ∧ LowerCase [("x-user", "u")] ∧
      Config.KeysDistinct ⟨[userRule]⟩ ∧
      ¬ CaseInsensitive ⟨[userRule]⟩ userTable [("x-user", "u")] [] := by
  have hnew : TransformationConfig.new ⟨[userRule]⟩ = .ok userTable := rfl
  have hlower : LowerCase [("x-user", "u")] := by
    intro header hheader
    rw [List.mem_singleton.mp hheader]
    rfl
  have hkeys : Config.KeysDistinct ⟨[userRule]⟩ := by
    intro rule hrule T hT
    rw [List.mem_singleton.mp hrule] at hT
    rcases hT with hT | hT
    · obtain rfl := Option.some.inj hT
      exact List.nodup_nil
    · cases hT
  refine ⟨hnew, hlower, hkeys, fun hcase => ?_⟩
  have hselected := (hcase.rename hnew hkeys rfl lower_upper).1
  exact absurd hselected (by decide)

end EnvoyWasmFilters.TransformationFilter
