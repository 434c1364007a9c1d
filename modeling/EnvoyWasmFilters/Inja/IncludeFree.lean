import EnvoyWasmFilters.Inja.ParserTotal
import EnvoyWasmFilters.Inja.Renderer

/-!
# Templates without includes

The renderer looks up an included template without asking whether it is there.

* `execute_include_missing` — on an empty table the look-up is undefined behaviour;
* `step_cases` — what a step can do;
* `reaches_alone` — a template without an `Include` is rendered by one activation from start to end;
* `reaches_not_atInclude` — and its run comes to no look-up.
-/

namespace EnvoyWasmFilters.Inja

open StateExcept

variable {J : Type}

/-! ### One bytecode -/

/-- Going on is not having another template rendered. -/
theorem goOn_ne_render {text : Str} {regs : Registers J} {tmpl : Template J} :
    Effect.goOn text regs ≠ .render tmpl := fun h => by cases h

theorem map_ne_render {α : Type} {result : Except Stop α} {f : α → Effect J} {tmpl : Template J}
    (hf : ∀ a, f a ≠ .render tmpl) : result.map f ≠ .ok (.render tmpl) := by
  intro h
  obtain ⟨a, -, ha⟩ := map_eq_ok.mp h
  exact hf a ha

theorem silent_ne_render {result : Except Stop (Registers J)} {tmpl : Template J} :
    silent result ≠ .ok (.render tmpl) := map_ne_render fun _ => goOn_ne_render

theorem silent_eq_goOn {result : Except Stop (Registers J)} {text : Str} {regs : Registers J} :
    silent result = .ok (.goOn text regs) ↔ text = [] ∧ result = .ok regs := by
  rw [silent, map_eq_ok]
  constructor
  · rintro ⟨regs', hresult, heffect⟩
    obtain ⟨rfl, rfl⟩ := Effect.goOn.inj heffect
    exact ⟨rfl, hresult⟩
  · rintro ⟨rfl, hresult⟩
    exact ⟨regs, hresult, rfl⟩

variable [NlohmannJson J] [RenderJson J] {env : Renderer J}

/-- Only an `Include` has another template rendered. -/
theorem execute_eq_render {a : Activation J} {bc : Bytecode J} {tmpl : Template J}
    (h : env.execute a bc = .ok (.render tmpl)) : bc.op = .include := by
  simp only [Renderer.execute] at h
  split at h
  case h_2 => exact absurd (Except.ok.inj h) goOn_ne_render
  case h_3 => exact absurd h (map_ne_render fun _ => goOn_ne_render)
  case h_6 hop => exact hop
  case h_12 => exact absurd h throw_ne_ok
  all_goals exact absurd h silent_ne_render

/-- **The look-up is unguarded.**  With no included templates, an `Include` whose name is a string is
undefined behaviour. -/
theorem execute_include_missing {a : Activation J} {bc : Bytecode J} {value : J} {name : Str}
    (hop : bc.op = .include) (hempty : env.includedTemplates = ∅)
    (hvalue : a.getImm env.callbacks bc = .ok value) (hname : NlohmannJson.getString value = .ok name) :
    env.execute a bc = .error .undefinedBehaviour := by
  have hlookup : env.includedTemplates.lookup name = none := by rw [hempty, AList.lookup_empty]
  have hfind : env.findIncluded a bc = .error .undefinedBehaviour := by
    simp only [Renderer.findIncluded, hvalue, hname, hlookup, bind, Except.bind]
    rfl
  simp only [Renderer.execute, hop]
  exact hfind

/-! ### Runs -/

/-- **What a step can do**: go on in the activation at work, start another one at an `Include`, or return to
the one that waits. -/
theorem step_cases {r s : Rendering J} (h : env.Step r s) :
    (∃ bc text regs, r.bytecode? = some bc ∧ env.execute r.activation bc = .ok (.goOn text regs) ∧
      s = { r with
        os := r.os ++ text, activation := { r.activation with toRegisters := regs } }) ∨
    (∃ bc tmpl, r.bytecode? = some bc ∧ bc.op = .include ∧
      s = { r with
        activation := { tmpl := tmpl, data := r.activation.current }
        callers := r.activation :: r.callers }) ∨
    ∃ caller callers, r.bytecode? = none ∧ r.callers = caller :: callers ∧
      s = { r with activation := { caller with toRegisters := caller.next }, callers := callers } := by
  simp only [Renderer.Step, Renderer.step] at h
  split at h
  · rename_i bc hbc
    obtain ⟨effect, heffect, h⟩ := bind_eq_ok.mp h
    cases effect with
    | goOn text regs => exact Or.inl ⟨bc, text, regs, hbc, heffect, (Option.some.inj (Except.ok.inj h)).symm⟩
    | render tmpl =>
      exact Or.inr (Or.inl ⟨bc, tmpl, hbc, execute_eq_render heffect,
        (Option.some.inj (Except.ok.inj h)).symm⟩)
  · rename_i hend
    split at h
    · exact absurd (Except.ok.inj h) (Option.some_ne_none _).symm
    · rename_i caller callers hcallers
      exact Or.inr (Or.inr ⟨caller, callers, hend, hcallers, (Option.some.inj (Except.ok.inj h)).symm⟩)

/-- A run ends behind the last bytecode of the first activation. -/
theorem step_eq_none {r : Rendering J} (h : env.step r = .ok none) :
    r.bytecode? = none ∧ r.callers = [] := by
  simp only [Renderer.step] at h
  split at h
  · obtain ⟨effect, -, h⟩ := bind_eq_ok.mp h
    cases effect with
    | goOn text regs => exact absurd (pure_eq_ok.mp h) (Option.some_ne_none _)
    | render tmpl => exact absurd (pure_eq_ok.mp h) (Option.some_ne_none _)
  · rename_i hend
    split at h
    · rename_i hcallers
      exact ⟨hend, hcallers⟩
    · exact absurd (pure_eq_ok.mp h) (Option.some_ne_none _)

omit [NlohmannJson J] [RenderJson J] in
/-- An activation of a template without an `Include` is not about to look one up. -/
theorem not_atInclude {r : Rendering J} (h : NoInclude r.activation.tmpl.bytecodes) : ¬ r.AtInclude := by
  rintro ⟨bc, hbc, hop⟩
  exact h bc (List.mem_of_getElem? hbc) hop

/-- **A template without an `Include` is rendered alone**, by induction on the run. -/
theorem reaches_alone {tmpl : Template J} {data : J} {r : Rendering J}
    (hno : NoInclude tmpl.bytecodes) (h : env.Reaches tmpl data r) :
    r.activation.tmpl = tmpl ∧ r.callers = [] := by
  induction h with
  | refl => exact ⟨rfl, rfl⟩
  | tail _ hstep ih =>
    obtain ⟨htmpl, hcallers⟩ := ih
    obtain ⟨bc, text, regs, -, -, rfl⟩ | ⟨bc, tmpl', hbc, hop, -⟩ | ⟨caller, callers, -, hmore, -⟩ :=
      step_cases hstep
    · exact ⟨htmpl, hcallers⟩
    · exact absurd ⟨bc, hbc, hop⟩ (not_atInclude (htmpl ▸ hno))
    · rw [hcallers] at hmore
      exact absurd hmore (List.cons_ne_nil _ _).symm

/-- **Its run comes to no look-up.** -/
theorem reaches_not_atInclude {tmpl : Template J} {data : J} {r : Rendering J}
    (hno : NoInclude tmpl.bytecodes) (h : env.Reaches tmpl data r) : ¬ r.AtInclude := by
  have htmpl := (reaches_alone hno h).1
  exact not_atInclude (htmpl.symm ▸ hno)

end EnvoyWasmFilters.Inja
