import EnvoyWasmFilters.Library.GuardedRun
import EnvoyWasmFilters.TransformationFilter.Construction
import EnvoyWasmFilters.TransformationFilter.PlainTemplates

/-!
# Reconfiguring the transformation filter

What one call of `onConfigure` does depends on the configuration alone (`onConfigure_cases`): null
ones are accepted, texts that are no message are refused, messages that are not accepted end the call
after the old rules are gone, and the others replace the old rules.

* `unusable_refused_iff` — which unusable configurations are refused with the old rules left in
  place;
* `deployed_iff_guarded` — in which histories the rules in force are always those of the last call
  that returned true.

A call in which a template exchanges arguments that are not there is undefined behaviour, and behind
it no rules can be said to be in force.
-/

namespace EnvoyWasmFilters.TransformationFilter

open Inja StateExcept

variable {R J : Type} [StdRegex R] [NlohmannJson J]
  (jsonStringToMessage : Str → Except Str Config)

/-! ### The four kinds of configuration -/

/-- No configuration or no data. -/
def Configuration.IsNull (conf : Configuration) : Prop := ∀ text, conf ≠ .data text

/-- A text the JSON parser rejects. -/
def Configuration.Refused (conf : Configuration) : Prop :=
  ∃ text status, conf = .data text ∧ jsonStringToMessage text = .error status

/-- A message, whether or not its rules can be built. -/
def Configuration.IsMessage (conf : Configuration) (config : Config) : Prop :=
  ∃ text, conf = .data text ∧ jsonStringToMessage text = .ok config

/-- Every configuration is null, refused or a message. -/
theorem configuration_cases (conf : Configuration) :
    conf.IsNull ∨ conf.Refused jsonStringToMessage ∨
      ∃ config, conf.IsMessage jsonStringToMessage config := by
  cases conf with
  | null => exact Or.inl fun text => by simp
  | nullData => exact Or.inl fun text => by simp
  | data text =>
    cases h : jsonStringToMessage text with
    | error status => exact Or.inr (Or.inl ⟨text, status, rfl, h⟩)
    | ok config => exact Or.inr (Or.inr ⟨config, text, rfl, h⟩)

variable {jsonStringToMessage}

theorem isMessage_not_null {conf : Configuration} {config : Config}
    (h : conf.IsMessage jsonStringToMessage config) : ¬ conf.IsNull := by
  obtain ⟨text, rfl, -⟩ := h
  exact fun hnull => hnull text rfl

theorem isMessage_not_refused {conf : Configuration} {config : Config}
    (h : conf.IsMessage jsonStringToMessage config) : ¬ conf.Refused jsonStringToMessage := by
  obtain ⟨text, rfl, hok⟩ := h
  intro hrefused
  obtain ⟨text', status, htext, herr⟩ := hrefused
  obtain rfl : text = text' := by simpa using htext
  rw [hok] at herr
  exact absurd herr (by simp)

/-- **What a call does**, configuration by configuration. -/
theorem onConfigure_cases (jsonStringToMessage : Str → Except Str Config) (root : RootContext R J)
    (conf : Configuration) :
    (conf.IsNull ∧ (root.onConfigure jsonStringToMessage conf).returned = pure true ∧
        (root.onConfigure jsonStringToMessage conf).root = root) ∨
      (conf.Refused jsonStringToMessage ∧
        (root.onConfigure jsonStringToMessage conf).returned = pure false ∧
        (root.onConfigure jsonStringToMessage conf).root = root) ∨
      (∃ config e, conf.IsMessage jsonStringToMessage config ∧ ¬ config.Accepted R J ∧
        (root.onConfigure jsonStringToMessage conf).returned = .error e ∧
        (root.onConfigure jsonStringToMessage conf).root = ⟨none, root.generation + 1⟩) ∨
      (∃ config value, conf.IsMessage jsonStringToMessage config ∧
        TransformationConfig.new config = .ok value ∧
        (root.onConfigure jsonStringToMessage conf).returned = pure true ∧
        (root.onConfigure jsonStringToMessage conf).root = ⟨some value, root.generation + 1⟩) := by
  rcases configuration_cases jsonStringToMessage conf with hnull | hrefused | ⟨config, hmessage⟩
  · exact Or.inl ⟨hnull, onConfigure_null root conf hnull⟩
  · obtain ⟨text, status, rfl, herr⟩ := hrefused
    exact Or.inr (Or.inl ⟨⟨text, status, rfl, herr⟩, onConfigure_rejected root herr⟩)
  · obtain ⟨text, rfl, hok⟩ := hmessage
    cases hnew : (TransformationConfig.new config : Except Stop (TransformationConfig R J)) with
    | error e =>
      have hnot : ¬ config.Accepted R J := fun hacc => by
        obtain ⟨tc, htc⟩ := new_isOk_iff.mpr hacc
        rw [hnew] at htc
        exact absurd htc (by simp)
      exact Or.inr (Or.inr (Or.inl
        ⟨config, e, ⟨text, rfl, hok⟩, hnot, onConfigure_unbuildable root hok hnew⟩))
    | ok value =>
      exact Or.inr (Or.inr (Or.inr
        ⟨config, value, ⟨text, rfl, hok⟩, hnew, onConfigure_usable root hok hnew⟩))

/-! ### Unusable configurations -/

/-- The text is no message, or one some entry of which is not accepted. -/
def Unusable (R J : Type) [StdRegex R] [NlohmannJson J]
    (jsonStringToMessage : Str → Except Str Config) (text : Str) : Prop :=
  ∀ config, jsonStringToMessage text = .ok config → ¬ config.Accepted R J

/-- **Unusable configurations.**  A call with one returns false and leaves the rules in place exactly
when it is the JSON parser that rejects it. -/
theorem unusable_refused_iff (root : RootContext R J) {text : Str}
    (h : Unusable R J jsonStringToMessage text) :
    ((root.onConfigure jsonStringToMessage (.data text)).returned = pure false ∧
      (root.onConfigure jsonStringToMessage (.data text)).root.transformationConfig
        = root.transformationConfig) ↔
      ∃ status, jsonStringToMessage text = .error status := by
  constructor
  · intro hrefused
    cases hparse : jsonStringToMessage text with
    | error status => exact ⟨status, rfl⟩
    | ok config =>
      cases hnew : (TransformationConfig.new config : Except Stop (TransformationConfig R J)) with
      | ok value => exact absurd (new_isOk_iff.mp ⟨value, hnew⟩) (h config hparse)
      | error e =>
        have hthrown := (onConfigure_unbuildable root hparse hnew).1
        rw [hthrown] at hrefused
        exact absurd hrefused.1 (by simp [pure, Except.pure])
  · intro hreject
    obtain ⟨status, hstatus⟩ := hreject
    obtain ⟨hreturned, hroot⟩ := onConfigure_rejected root hstatus
    exact ⟨hreturned, by rw [hroot]⟩

/-- A rule whose request transformation has the unfinished template `{{`. -/
def unfinishedRule : TransformationRule where
  matcher := { headerMatchers := [] }
  routeTransformations :=
    { requestTransformation :=
        some (.ofHeaders (AList.singleton "x-a".toList { text := "\x7b\x7b" }))
      responseTransformation := none }

/-- A configuration with this rule alone, as the host hands it over. -/
def unfinishedText : Str :=
  "\x7b\"transformations\":[\x7b\"route_transformations\":\x7b\"request_transformation\":" ++
    "\x7b\"headers\":\x7b\"x-a\":\x7b\"text\":\"\x7b\x7b\"\x7d\x7d\x7d\x7d\x7d]\x7d"

/-- The root context while a table without rules is in force. -/
def emptyTableRoot : RootContext PlainRegex PlainJson :=
  { transformationConfig := some { transformations := [] }, generation := 1 }

/-- A text that is no message is refused, the table staying in force. -/
theorem unusable_refused_no_message :
    (emptyTableRoot.onConfigure (fun _ => .error "INVALID_ARGUMENT") (.data "\x7b")).returned
        = pure false ∧
      (emptyTableRoot.onConfigure (fun _ => .error "INVALID_ARGUMENT")
        (.data "\x7b")).root.transformationConfig = emptyTableRoot.transformationConfig :=
  (unusable_refused_iff emptyTableRoot fun _ h => absurd h (by simp)).mpr
    ⟨"INVALID_ARGUMENT", rfl⟩

/-- The unfinished template is not refused: the call ends with an exception and the table is gone. -/
theorem unfinished_destroys_table :
    Unusable PlainRegex PlainJson (fun _ => .ok ⟨[unfinishedRule]⟩) unfinishedText ∧
      (emptyTableRoot.onConfigure (fun _ => .ok ⟨[unfinishedRule]⟩)
        (.data unfinishedText)).root.transformationConfig = none ∧
      ¬ ((emptyTableRoot.onConfigure (fun _ => .ok ⟨[unfinishedRule]⟩) (.data unfinishedText)).returned
          = pure false ∧
        (emptyTableRoot.onConfigure (fun _ => .ok ⟨[unfinishedRule]⟩)
          (.data unfinishedText)).root.transformationConfig = emptyTableRoot.transformationConfig) := by
  have hnew : (TransformationConfig.new ⟨[unfinishedRule]⟩ :
      Except Stop (TransformationConfig PlainRegex PlainJson))
      = .error (.runtimeError
          "[inja.exception.parser_error] expected expression, got '<eof>'") := rfl
  have hunusable : Unusable PlainRegex PlainJson (fun _ => .ok ⟨[unfinishedRule]⟩) unfinishedText := by
    intro config hconfig hacc
    obtain rfl : ⟨[unfinishedRule]⟩ = config := Except.ok.inj hconfig
    obtain ⟨tc, htc⟩ := new_isOk_iff.mpr hacc
    rw [hnew] at htc
    exact absurd htc (by simp)
  obtain ⟨hthrown, hroot⟩ : _ ∧ (emptyTableRoot.onConfigure (fun _ => .ok ⟨[unfinishedRule]⟩)
      (.data unfinishedText)).root = ⟨none, 2⟩ := onConfigure_unbuildable emptyTableRoot rfl hnew
  refine ⟨hunusable, by rw [hroot], fun h => ?_⟩
  rw [hthrown] at h
  exact absurd h.1 (by simp [pure, Except.pure])

/-! ### Histories of configurations -/

/-- The root context after some calls, with the rules that ought to be in force, those of the last
call that returned true, and whether a call has been undefined. -/
structure Deployment (R J : Type) where
  root : RootContext R J := {}
  expected : Option (TransformationConfig R J) := none
  undefined : Bool := false

/-- The rules a configuration calls for: none for a null one. -/
def Configuration.rules (jsonStringToMessage : Str → Except Str Config) :
    Configuration → Option (TransformationConfig R J)
  | .null => none
  | .nullData => none
  | .data text =>
      match jsonStringToMessage text with
      | .ok config => (TransformationConfig.new config).toOption
      | .error _ => none

/-- A call that ends in undefined behaviour. -/
def isUndefined {α : Type} : Except Stop α → Bool
  | .error .undefinedBehaviour => true
  | _ => false

/-- The first entry of the message that cannot be built is one whose building is undefined. -/
def Config.Undefined (R J : Type) [StdRegex R] [NlohmannJson J] (config : Config) : Prop :=
  (config.failures R J).head? = some .undefinedBehaviour

/-- One call of `onConfigure`. -/
def Deployment.configure (jsonStringToMessage : Str → Except Str Config) (d : Deployment R J)
    (conf : Configuration) : Deployment R J :=
  let configured := d.root.onConfigure jsonStringToMessage conf
  { root := configured.root
    expected := match configured.returned with
      | .ok true => conf.rules jsonStringToMessage
      | _ => d.expected
    undefined := d.undefined || isUndefined configured.returned }

/-- The rules in force are the expected ones. -/
def Deployment.InForce (d : Deployment R J) : Prop :=
  d.undefined = false ∧ d.root.transformationConfig = d.expected

/-- A call that does not go wrong: the configuration is refused or accepted, or there is nothing in
force that it could lose or fail to switch off, and no undefined entry is the first it fails on. -/
def Deployment.Harmless (jsonStringToMessage : Str → Except Str Config) (d : Deployment R J)
    (conf : Configuration) : Prop :=
  conf.Refused jsonStringToMessage ∨
    (∃ config, conf.IsMessage jsonStringToMessage config ∧ config.Accepted R J) ∨
    (d.root.transformationConfig = none ∧
      ∀ config, conf.IsMessage jsonStringToMessage config → ¬ config.Undefined R J)

theorem rules_of_isNull {conf : Configuration} (h : conf.IsNull) :
    (conf.rules jsonStringToMessage : Option (TransformationConfig R J)) = none := by
  cases conf with
  | null => rfl
  | nullData => rfl
  | data text => exact absurd rfl (h text)

theorem rules_of_isMessage {conf : Configuration} {config : Config}
    {value : TransformationConfig R J} (h : conf.IsMessage jsonStringToMessage config)
    (hnew : TransformationConfig.new config = .ok value) :
    conf.rules jsonStringToMessage = some value := by
  obtain ⟨text, rfl, hok⟩ := h
  simp only [Configuration.rules, hok, hnew]
  rfl

/-- A configuration has one message. -/
theorem isMessage_unique {conf : Configuration} {config config' : Config}
    (h : conf.IsMessage jsonStringToMessage config) (h' : conf.IsMessage jsonStringToMessage config') :
    config = config' := by
  obtain ⟨text, rfl, hok⟩ := h
  obtain ⟨text', htext, hok'⟩ := h'
  obtain rfl : text = text' := by simpa using htext
  rw [hok] at hok'
  exact Except.ok.inj hok'

theorem isUndefined_eq_true {e : Stop} :
    isUndefined (.error e : Except Stop Bool) = true ↔ e = .undefinedBehaviour := by
  cases e <;> simp [isUndefined]

/-- A call that throws is undefined exactly if building the rules of its message is. -/
theorem undefined_iff {root : RootContext R J} {conf : Configuration} {config : Config} {e : Stop}
    (hmsg : conf.IsMessage jsonStringToMessage config)
    (hret : (root.onConfigure jsonStringToMessage conf).returned = .error e) :
    config.Undefined R J ↔ e = .undefinedBehaviour := by
  obtain ⟨text, rfl, hok⟩ := hmsg
  rw [Config.Undefined, ← new_eq_error]
  cases hnew : (TransformationConfig.new config : Except Stop (TransformationConfig R J)) with
  | ok value =>
    have hreturned := (onConfigure_usable root hok hnew).1
    rw [hreturned] at hret
    cases hret
  | error e' =>
    have hthrown := (onConfigure_unbuildable root hok hnew).1
    obtain rfl : e' = e := Except.error.inj (hthrown.symm.trans hret)
    rw [Except.error.injEq]

/-- One call keeps the expected rules in force exactly when it is harmless. -/
theorem configure_inForce_iff (d : Deployment R J) (conf : Configuration) (h : d.InForce) :
    (d.configure jsonStringToMessage conf).InForce ↔ d.Harmless jsonStringToMessage conf := by
  obtain ⟨hdefined, hd⟩ := h
  simp only [Deployment.InForce, Deployment.configure, Deployment.Harmless, hdefined, Bool.false_or]
  rcases onConfigure_cases jsonStringToMessage d.root conf with
    ⟨hnull, hret, hroot⟩ | ⟨hrefused, hret, hroot⟩ | ⟨config, e, hmsg, hnot, hret, hroot⟩ |
      ⟨config, value, hmsg, hnew, hret, hroot⟩
  · -- a null configuration ought to switch the rules off, and does not
    rw [hret, hroot]
    show _ ∧ _ = conf.rules jsonStringToMessage ↔ _
    rw [rules_of_isNull hnull]
    constructor
    · rintro ⟨-, hnone⟩
      exact Or.inr (Or.inr ⟨hnone, fun config hmsg => absurd hnull (isMessage_not_null hmsg)⟩)
    · intro hharmless
      rcases hharmless with hrefused | ⟨config, hmsg, -⟩ | ⟨hnone, -⟩
      · obtain ⟨text, status, rfl, -⟩ := hrefused
        exact absurd rfl (hnull text)
      · exact absurd hnull (isMessage_not_null hmsg)
      · exact ⟨rfl, hnone⟩
  · rw [hret, hroot]
    exact ⟨fun _ => Or.inl hrefused, fun _ => ⟨rfl, hd⟩⟩
  · -- the rules are gone, the call has not returned
    have hundefined := undefined_iff hmsg hret
    rw [hret, hroot]
    show isUndefined (.error e) = false ∧ none = d.expected ↔ _
    rw [← hd, Bool.eq_false_iff, ne_eq, isUndefined_eq_true, ← hundefined]
    constructor
    · rintro ⟨hdef, hnone⟩
      exact Or.inr (Or.inr ⟨hnone.symm, fun config' hmsg' => isMessage_unique hmsg hmsg' ▸ hdef⟩)
    · intro hharmless
      rcases hharmless with hrefused | ⟨config', hmsg', hacc⟩ | ⟨hnone, hdef⟩
      · exact absurd hrefused (isMessage_not_refused hmsg)
      · exact absurd (isMessage_unique hmsg' hmsg ▸ hacc) hnot
      · exact ⟨hdef config hmsg, hnone.symm⟩
  · rw [hret, hroot]
    show _ ∧ some value = conf.rules jsonStringToMessage ↔ _
    rw [rules_of_isMessage hmsg hnew]
    exact ⟨fun _ => Or.inr (Or.inl ⟨config, hmsg, new_isOk_iff.mp ⟨value, hnew⟩⟩), fun _ => ⟨rfl, rfl⟩⟩

/-- **Histories.**  From a new root context, the rules of the last call that returned true are in
force after every call exactly when every call is harmless. -/
theorem deployed_iff_guarded (confs : List Configuration) :
    GuardedRun.Throughout (Deployment.configure jsonStringToMessage) Deployment.InForce
        ({} : Deployment R J) confs ↔
      GuardedRun.Guarded (Deployment.configure jsonStringToMessage)
        (Deployment.Harmless jsonStringToMessage) ({} : Deployment R J) confs :=
  GuardedRun.invariant_iff_guarded _ configure_inForce_iff ⟨rfl, rfl⟩

/-- A rule that gives every request the header `x-a` with the text of a template. -/
def stampRule (template : Str) : TransformationRule where
  matcher := { headerMatchers := [] }
  routeTransformations :=
    { requestTransformation := some (.ofHeaders (AList.singleton "x-a".toList { text := template }))
      responseTransformation := none }

/-- A configuration with the rule for `1` alone, as the host hands it over. -/
def stampText : Str :=
  "\x7b\"transformations\":[\x7b\"route_transformations\":\x7b\"request_transformation\":" ++
    "\x7b\"headers\":\x7b\"x-a\":\x7b\"text\":\"1\"\x7d\x7d\x7d\x7d\x7d]\x7d"

/-- The root context after this configuration and a null one. -/
def stampedThenNull : RootContext PlainRegex PlainJson :=
  (GuardedRun.run (Deployment.configure fun _ => .ok ⟨[stampRule "1"]⟩) {} [.data stampText, .null]).root

/-- A configuration followed by a null one: the rules ought to be off and are not, a request is still
rewritten. -/
theorem null_leaves_rules_in_force :
    ¬ GuardedRun.Throughout (Deployment.configure fun _ => .ok ⟨[stampRule "1"]⟩) Deployment.InForce
        ({} : Deployment PlainRegex PlainJson) [.data stampText, .null] ∧
      (TransformationContext.onRequestHeaders {} stampedThenNull [(":path", "/")]).map
          (fun result => result.1.headers) = some ([(":path", "/"), ("x-a", "1")] : HeaderMap) := by
  constructor
  · intro h
    have hlast := h [.data stampText, .null] (List.prefix_refl _)
    have hforce : stampedThenNull.transformationConfig = none := hlast.2
    have hsome : stampedThenNull.transformationConfig.isSome = true := rfl
    rw [hforce] at hsome
    cases hsome
  · decide +kernel

/-- The construction is undefined where a template begins with a `default` whose arguments share a
bytecode. -/
example : isUndefined (TransformationConfig.new
    ⟨[stampRule "\x7b\x7b default(\"d\", context()) \x7d\x7d"]⟩ :
      Except Stop (TransformationConfig PlainRegex PlainJson)) = true := by
  decide +kernel

end EnvoyWasmFilters.TransformationFilter
