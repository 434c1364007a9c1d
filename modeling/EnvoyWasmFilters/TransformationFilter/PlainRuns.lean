import EnvoyWasmFilters.Inja.IncludeFree
import EnvoyWasmFilters.TransformationFilter.PlainTemplates

/-!
# Runs of plain templates

The renderer of `PlainTemplates` is the loop of `render_to` on a few operations.  Where the renderer of inja
returns a text on these, it is the same text.

* `PlainBytecode` — the operations in question;
* `execute_plain` — one bytecode;
* `renderPlain_of_returns` — **the whole template**.
-/

namespace EnvoyWasmFilters.TransformationFilter

open Inja StateExcept

/-- A bytecode of a plain template: a text, a value to push or to print, or a callback whose immediate value,
if it has one, is among its arguments. -/
inductive PlainBytecode (bc : Bytecode PlainJson) : Prop
  | text (hop : bc.op = .printText)
  | push (hop : bc.op = .push)
  | value (hop : bc.op = .printValue) (hargs : bc.args = 1)
  | callback (hop : bc.op = .callback) (hlt : bc.args < 2 ^ 32) (hargs : bc.flags ≠ .pop → 0 < bc.args)

/-! ### Values -/

theorem convertDot_eq_cons (dot : Str) : ∃ rest, convertDotToJsonPointer dot = '/' :: rest := by
  rw [convertDotToJsonPointer]
  split
  · exact ⟨_, rfl⟩
  · exact ⟨_, rfl⟩

variable {callbacks : Callbacks PlainJson} {a : Activation PlainJson} {bc : Bytecode PlainJson}

theorem throwInja_render {α : Type} (message : Str) :
    throwInja "render_error" message = (throwRender message : Except Stop α) := by
  have htype : ("[inja.exception." : Str) ++ "render_error" ++ "] " = "[inja.exception.render_error] " := by
    decide
  rw [throwInja, throwRender, htype]

/-- No pointer leads to a variable, so that a name is that of a callback. -/
theorem lookup_plain (name rest : Str) :
    a.lookup callbacks name ('/' :: rest) = match findCallback callbacks name 0 with
      | some function => function []
      | none => throwRender ("variable '" ++ name ++ "' not found") := by
  have hmissing : RenderJson.atPointer a.current (('/' :: rest).takeWhile (· != '\x00'))
      = (.error (.jsonException "unresolved reference token") : Except Stop PlainJson) := by
    rw [List.takeWhile_cons_of_pos (by decide)]
    exact if_neg (List.cons_ne_nil _ _)
  rw [Activation.lookup, hmissing]
  cases findCallback callbacks name 0 with
  | none => exact throwInja_render _
  | some function => rfl

theorem getImm_plain {value : PlainJson} (h : a.getImm callbacks bc = .ok value) :
    immediate callbacks bc = .ok value := by
  simp only [Activation.getImm] at h
  simp only [immediate]
  cases hflags : bc.flags with
  | pop =>
    rw [hflags] at h
    exact absurd h throw_ne_ok
  | immediate =>
    rw [hflags] at h
    exact h
  | lookupDot =>
    rw [hflags] at h
    obtain ⟨rest, hrest⟩ := convertDot_eq_cons bc.str
    rw [hrest] at h
    exact (lookup_plain _ _).symm.trans h
  | lookupPointer =>
    rw [hflags] at h
    exact (lookup_plain _ _).symm.trans h

/-! ### Arguments -/

/-- The arguments on the stack are all, or all but the last. -/
theorem popArgs_plain (hlt : bc.args < 2 ^ 32) (hargs : bc.flags ≠ .pop → 0 < bc.args) :
    bc.popArgs = if bc.flags = .pop then bc.args else bc.args - 1 := by
  rw [Bytecode.popArgs]
  split
  · rfl
  · rename_i hflags
    have hpos := hargs hflags
    omega

theorem drop_popArgs (hlt : bc.args < 2 ^ 32) (hargs : bc.flags ≠ .pop → 0 < bc.args)
    (stack : List PlainJson) : stack.drop bc.popArgs = popArgs bc stack := by
  rw [popArgs_plain hlt hargs, popArgs]
  split
  · rfl
  · rfl

theorem getArgs_plain {args : List PlainJson} (hlt : bc.args < 2 ^ 32)
    (hargs : bc.flags ≠ .pop → 0 < bc.args) (h : a.getArgs callbacks bc = .ok args) :
    getArgs callbacks bc a.stack = .ok args := by
  have hcount := popArgs_plain hlt hargs
  rw [Activation.getArgs] at h
  rw [getArgs]
  split at h
  · exact absurd h throw_ne_ok
  · by_cases hflags : bc.flags = .pop
    · rw [if_pos hflags] at hcount
      rw [if_pos hflags, hcount] at h
      rw [if_pos hflags]
      exact h
    · rw [if_neg hflags] at hcount
      rw [if_neg hflags, hcount] at h
      rw [if_neg hflags]
      obtain ⟨value, hvalue, hall⟩ := bind_eq_ok.mp h
      exact bind_eq_ok.mpr ⟨value, getImm_plain hvalue, hall⟩

/-- As many arguments as the bytecode says. -/
theorem length_getArgs {args : List PlainJson} (hlt : bc.args < 2 ^ 32)
    (hargs : bc.flags ≠ .pop → 0 < bc.args) (h : a.getArgs callbacks bc = .ok args) :
    args.length = bc.args := by
  have hcount := popArgs_plain hlt hargs
  rw [Activation.getArgs] at h
  split at h
  · exact absurd h throw_ne_ok
  · rename_i henough
    have htaken : (a.stack.take bc.popArgs).reverse.length = bc.popArgs := by
      rw [List.length_reverse, List.length_take]
      omega
    by_cases hflags : bc.flags = .pop
    · rw [if_pos hflags] at h hcount
      rw [← pure_eq_ok.mp h, htaken, hcount]
    · rw [if_neg hflags] at h hcount
      obtain ⟨value, -, hall⟩ := bind_eq_ok.mp h
      rw [← pure_eq_ok.mp hall, List.length_append, htaken, hcount]
      exact Nat.sub_add_cancel (hargs hflags)

/-! ### One bytecode -/

/-- What `PrintValue` does with its one argument. -/
theorem printValue_plain {out : Str} {regs : Registers PlainJson} (hargs : bc.args = 1)
    (h : a.printValue callbacks bc = .ok (out, regs)) :
    ∃ val : PlainJson, getArgs callbacks bc a.stack = .ok [val] ∧ val.print = out ∧
      regs.stack = popArgs bc a.stack ∧ regs.i = a.i + 1 := by
  have hlt : bc.args < 2 ^ 32 := by omega
  have hpos : bc.flags ≠ .pop → 0 < bc.args := fun _ => by omega
  obtain ⟨args, hall, hprint⟩ := bind_eq_ok.mp h
  have hone : args.length = 1 := (length_getArgs hlt hpos hall).trans hargs
  obtain ⟨val, rfl⟩ := List.length_eq_one_iff.mp hone
  obtain ⟨text, hprinted, hprint⟩ := bind_eq_ok.mp hprint
  obtain ⟨rfl, rfl⟩ := Prod.mk.inj (pure_eq_ok.mp hprint)
  refine ⟨val, getArgs_plain hlt hpos hall, ?_, drop_popArgs hlt hpos a.stack, rfl⟩
  cases val with
  | null => exact Except.ok.inj hprinted
  | string value => exact Except.ok.inj hprinted

/-- What `Callback` does. -/
theorem applyCallback_plain {regs : Registers PlainJson} (hlt : bc.args < 2 ^ 32)
    (hargs : bc.flags ≠ .pop → 0 < bc.args) (h : a.applyCallback callbacks bc = .ok regs) :
    ∃ function args result, findCallback callbacks bc.str bc.args = some function ∧
      getArgs callbacks bc a.stack = .ok args ∧ function args = .ok result ∧
      regs.stack = result :: popArgs bc a.stack ∧ regs.i = a.i + 1 := by
  rw [Activation.applyCallback] at h
  split at h
  · exact absurd h throw_ne_ok
  · rename_i function hfunction
    obtain ⟨args, hall, h⟩ := bind_eq_ok.mp h
    obtain ⟨result, hresult, h⟩ := bind_eq_ok.mp h
    obtain rfl := pure_eq_ok.mp h
    exact ⟨function, args, result, hfunction, getArgs_plain hlt hargs hall, hresult,
      congrArg (result :: ·) (drop_popArgs hlt hargs a.stack), rfl⟩

/-- **One bytecode**: the renderer goes on behind it, and what it has written stands before the rest. -/
theorem execute_plain {env : Renderer PlainJson} (hbc : PlainBytecode bc) {out : Str}
    {regs : Registers PlainJson} (h : env.execute a bc = .ok (.goOn out regs)) :
    regs.i = a.i + 1 ∧ ∀ bcs rest, renderPlain env.callbacks regs.stack bcs = .ok rest →
      renderPlain env.callbacks a.stack (bc :: bcs) = .ok (out ++ rest) := by
  cases hbc with
  | text hop =>
    simp only [Renderer.execute, hop] at h
    obtain ⟨rfl, rfl⟩ := Effect.goOn.inj (Except.ok.inj h)
    refine ⟨rfl, fun bcs rest hrest => ?_⟩
    simp only [renderPlain, hop]
    exact bind_eq_ok.mpr ⟨rest, hrest, rfl⟩
  | push hop =>
    simp only [Renderer.execute, hop] at h
    obtain ⟨rfl, hregs⟩ := silent_eq_goOn.mp h
    obtain ⟨value, hvalue, rfl⟩ := map_eq_ok.mp hregs
    refine ⟨rfl, fun bcs rest hrest => ?_⟩
    simp only [renderPlain, hop]
    exact bind_eq_ok.mpr ⟨value, getImm_plain hvalue, hrest⟩
  | value hop hargs =>
    simp only [Renderer.execute, hop] at h
    obtain ⟨⟨text, regs'⟩, hprint, heffect⟩ := map_eq_ok.mp h
    obtain ⟨rfl, rfl⟩ := Effect.goOn.inj heffect
    obtain ⟨val, hall, htext, hstack, hi⟩ := printValue_plain hargs hprint
    refine ⟨hi, fun bcs rest hrest => ?_⟩
    dsimp only at hrest htext ⊢
    rw [hstack] at hrest
    simp only [renderPlain, hop]
    refine bind_eq_ok.mpr ⟨[val], hall, bind_eq_ok.mpr ⟨rest, hrest, ?_⟩⟩
    rw [List.flatMap_singleton, htext]
    rfl
  | callback hop hlt hargs =>
    simp only [Renderer.execute, hop] at h
    obtain ⟨rfl, hregs⟩ := silent_eq_goOn.mp h
    obtain ⟨function, args, result, hfunction, hall, hresult, hstack, hi⟩ :=
      applyCallback_plain hlt hargs hregs
    refine ⟨hi, fun bcs rest hrest => ?_⟩
    rw [hstack] at hrest
    simp only [renderPlain, hop, hfunction]
    exact bind_eq_ok.mpr ⟨args, hall, bind_eq_ok.mpr ⟨result, hresult, hrest⟩⟩

/-! ### Runs -/

theorem PlainBytecode.op_ne_include (hbc : PlainBytecode bc) : bc.op ≠ .include := by
  cases hbc with
  | text hop => rw [hop]; decide
  | push hop => rw [hop]; decide
  | value hop => rw [hop]; decide
  | callback hop => rw [hop]; decide

/-- The state of a run of `tmpl` that has not left the template. -/
def Within (tmpl : Template PlainJson) (r : Rendering PlainJson) : Prop :=
  r.activation.tmpl = tmpl ∧ r.callers = []

/-- What `renderPlain` makes of the bytecodes that are left, once it is known at the end of a run. -/
theorem reaches_rest {env : Renderer PlainJson} {tmpl : Template PlainJson}
    (hplain : ∀ bc ∈ tmpl.bytecodes, PlainBytecode bc) {r s : Rendering PlainJson}
    (h : Relation.ReflTransGen env.Step r s) (hr : Within tmpl r) (hend : env.step s = .ok none) :
    ∃ rest, s.os = r.os ++ rest ∧
      renderPlain env.callbacks r.activation.stack (tmpl.bytecodes.drop r.activation.i) = .ok rest := by
  induction h using Relation.ReflTransGen.head_induction_on with
  | refl =>
    have hlast : tmpl.bytecodes[s.activation.i]? = none := hr.1 ▸ (step_eq_none hend).1
    refine ⟨[], (List.append_nil _).symm, ?_⟩
    rw [List.drop_eq_nil_of_le (List.getElem?_eq_none_iff.mp hlast)]
    rfl
  | head hstep hrun ih =>
    rename_i r t
    obtain ⟨htmpl, hcallers⟩ := hr
    obtain ⟨bc, out, regs, hbc, heffect, rfl⟩ | ⟨bc, tmpl', hbc, hop, -⟩ | ⟨caller, callers, -, hmore, -⟩ :=
      step_cases hstep
    · rw [Rendering.bytecode?, htmpl] at hbc
      have hdrop : tmpl.bytecodes.drop r.activation.i = bc :: tmpl.bytecodes.drop (r.activation.i + 1) := by
        obtain ⟨hlt, rfl⟩ := List.getElem?_eq_some_iff.mp hbc
        exact List.drop_eq_getElem_cons hlt
      obtain ⟨hi, hrest⟩ := execute_plain (hplain bc (List.mem_of_getElem? hbc)) heffect
      obtain ⟨rest, hos, hplainRest⟩ := ih ⟨htmpl, hcallers⟩
      dsimp only at hos hplainRest
      rw [hi] at hplainRest
      refine ⟨out ++ rest, by rw [hos, List.append_assoc], ?_⟩
      rw [hdrop]
      exact hrest _ _ hplainRest
    · rw [Rendering.bytecode?, htmpl] at hbc
      exact absurd hop (hplain bc (List.mem_of_getElem? hbc)).op_ne_include
    · rw [hcallers] at hmore
      exact absurd hmore (List.cons_ne_nil _ _).symm

/-- **Where the renderer of inja returns a text of a plain template**, the text is that of `renderPlain`. -/
theorem renderPlain_of_returns {env : Renderer PlainJson} {tmpl : Template PlainJson} {data : PlainJson}
    {text : Str} (hplain : ∀ bc ∈ tmpl.bytecodes, PlainBytecode bc)
    (h : env.Returns tmpl data text) : renderPlain env.callbacks [] tmpl.bytecodes = .ok text := by
  obtain ⟨s, hreach, hend, rfl⟩ := h
  obtain ⟨rest, hos, hrest⟩ := reaches_rest hplain hreach ⟨rfl, rfl⟩ hend
  rw [hos]
  exact hrest

end EnvoyWasmFilters.TransformationFilter
