import EnvoyWasmFilters.Inja.Execution

/-!
# Rendering is evaluating

The renderer, run on the bytecode of a syntax tree, does what the tree's value says: it writes the text
`Tree.eval` returns, or it ends as `Tree.eval` ends.

* `rounds_follow`, `loop_follows` — a loop goes through its elements one by one;
* `tree_follows` — **the parts of a template**, with their jumps, by induction on the tree;
* `render_iff_eval` — **the run of a whole template**: every run of a compiled tree comes to an end, and it is the
  end of the evaluation.
-/

namespace EnvoyWasmFilters.Inja

open NlohmannJson RenderJson FailingMachine CodeLayout StateExcept

variable {J : Type} [NlohmannJson J] [RenderJson J] {env : Renderer J} {r : Rendering J} {os : Str}
  {loops : List (LoopLevel J)} {i : ℕ} {stack : List J}

/-! ### Loops -/

/-- The element a loop is at. -/
def LoopLevel.position (level : LoopLevel J) : ℕ :=
  match level.loopType with
  | .array => level.index
  | .map => level.mapIt

omit [NlohmannJson J] in
theorem advance_position (level : LoopLevel J) :
    level.advance.position = level.position + 1 ∧ level.advance.length = level.length := by
  cases hkind : level.loopType <;>
    simp [LoopLevel.advance, LoopLevel.position, LoopLevel.length, hkind]

omit [NlohmannJson J] in
theorem done_iff (level : LoopLevel J) : level.done = true ↔ level.position = level.length := by
  cases hkind : level.loopType <;>
    simp [LoopLevel.done, LoopLevel.position, LoopLevel.length, hkind]

/-- What a loop level keeps while its variables are set. -/
def LoopLevel.SameRound (level level' : LoopLevel J) : Prop := ∃ data, level' = { level with data := data }

omit [NlohmannJson J] in
theorem LoopLevel.SameRound.position {level level' : LoopLevel J} (h : level.SameRound level') :
    level'.position = level.position ∧ level'.length = level.length := by
  obtain ⟨data, rfl⟩ := h
  exact ⟨rfl, rfl⟩

theorem update_sameRound {level level' : LoopLevel J} (h : level.update = .ok level') :
    level.SameRound level' := by
  cases hkind : level.loopType with
  | array =>
    simp only [LoopLevel.update, hkind] at h
    obtain ⟨_, -, h⟩ := bind_eq_ok.mp h
    obtain ⟨_, -, h⟩ := bind_eq_ok.mp h
    obtain ⟨_, -, h⟩ := bind_eq_ok.mp h
    obtain ⟨_, -, h⟩ := bind_eq_ok.mp h
    obtain ⟨_, -, h⟩ := bind_eq_ok.mp h
    obtain ⟨_, -, h⟩ := bind_eq_ok.mp h
    obtain ⟨data, -, h⟩ := bind_eq_ok.mp h
    exact ⟨data, by rw [← pure_eq_ok.mp h, hkind]⟩
  | map =>
    simp only [LoopLevel.update, hkind] at h
    split at h
    · exact absurd h throw_ne_ok
    · obtain ⟨_, -, h⟩ := bind_eq_ok.mp h
      obtain ⟨data, -, h⟩ := bind_eq_ok.mp h
      exact ⟨data, by rw [← pure_eq_ok.mp h, hkind]⟩

omit [NlohmannJson J] in
theorem withParent_sameRound {level level' : LoopLevel J} (h : level.withParent = .ok level') :
    level.SameRound level' := by
  simp only [LoopLevel.withParent] at h
  split at h
  · exact ⟨level.data, (pure_eq_ok.mp h).symm⟩
  · obtain ⟨_, -, h⟩ := bind_eq_ok.mp h
    obtain ⟨data, -, h⟩ := bind_eq_ok.mp h
    exact ⟨data, (pure_eq_ok.mp h).symm⟩

/-- The end of a round: the loop is left, or its variables are set for the next element. -/
theorem endLoop_follows {start : ℕ} {level : LoopLevel J}
    (hbc : r.program[i]? = some { op := .endLoop, args := start, value := null })
    (hmore : level.position + 1 ≠ level.length) :
    Follows env.step (r.at os ⟨i, stack, level :: loops⟩) level.advance.update fun next =>
      r.at os ⟨start, stack, next :: loops⟩ := by
  obtain ⟨hposition, hlength⟩ := advance_position level
  have hdone : level.advance.done = false := by
    rw [Bool.eq_false_iff, ne_eq, done_iff, hposition, hlength]
    exact hmore
  apply follows_silent ⟨i, stack, level :: loops⟩ hbc
  simp only [Renderer.execute, Activation.endLoop, Rendering.at, hdone]
  cases level.advance.update <;> rfl

theorem endLoop_leaves {start : ℕ} {level : LoopLevel J}
    (hbc : r.program[i]? = some { op := .endLoop, args := start, value := null })
    (hlast : level.position + 1 = level.length) :
    Reaches env.step (r.at os ⟨i, stack, level :: loops⟩) (r.at os ⟨i + 1, stack, loops⟩) := by
  obtain ⟨hposition, hlength⟩ := advance_position level
  have hdone : level.advance.done = true := by
    rw [done_iff, hposition, hlength]
    exact hlast
  refine follows_silent ⟨i, stack, level :: loops⟩ (x := pure ()) (f := fun _ => ⟨i + 1, stack, loops⟩) hbc ?_
  simp only [Renderer.execute, Activation.endLoop, Rendering.at, hdone, if_true]
  rfl

/-- **The rounds of a loop**, by induction on how many are left: each is the body and an `EndLoop`. -/
theorem rounds_follow {start stop : ℕ} {body : LoopLevel J → Except Stop Str}
    (hbody : ∀ os level, Follows env.step (r.at os ⟨start, stack, level :: loops⟩) (body level) fun text =>
      r.at (os ++ text) ⟨stop, stack, level :: loops⟩)
    (hbc : r.program[stop]? = some { op := .endLoop, args := start, value := null }) (n : ℕ)
    (level : LoopLevel J) (os : Str) (hn : level.position + n + 1 = level.length) :
    Follows env.step (r.at os ⟨start, stack, level :: loops⟩) (rounds body n level) fun text =>
      r.at (os ++ text) ⟨stop + 1, stack, loops⟩ := by
  induction n generalizing level os with
  | zero =>
    exact (hbody os level).andThen fun text _ => endLoop_leaves hbc hn
  | succ n ih =>
    rw [rounds]
    refine (hbody os level).bind fun text _ => ?_
    refine (endLoop_follows hbc (by omega)).bind fun next hnext => ?_
    obtain ⟨hposition, hlength⟩ := (update_sameRound hnext).position
    obtain ⟨hadvanced, hsame⟩ := advance_position level
    refine (ih next (os ++ text) (by omega)).map (text ++ ·) fun rest _ => ?_
    rw [List.append_assoc]

variable [LawfulJson J]

/-- The level `StartLoop` opens is that of the loop. -/
theorem new_eq_loopOver (scope : Scope J) (key value : Str) (values : J) {bc : Bytecode J}
    (hvalue : bc.value = keyValue key) (hstr : bc.str = value) :
    LoopLevel.new bc values scope.current = scope.loopOver key value values := by
  cases hkey : key.isEmpty with
  | true =>
    have hnull : bc.value = null := by rw [hvalue, keyValue, hkey]; rfl
    simp only [LoopLevel.new, hnull, LawfulJson.isString_null, Scope.loopOver, hkey, hstr]
    rfl
  | false =>
    have hstring : bc.value = string key := by rw [hvalue, keyValue, hkey]; rfl
    simp only [LoopLevel.new, hstring, LawfulJson.isString_string, LawfulJson.getString_string,
      Scope.loopOver, hkey, hstr]
    rfl

/-- A loop that is entered begins at its first element. -/
theorem enter_position {scope : Scope J} {key value : Str} {values : J} {level : LoopLevel J}
    (hempty : empty values = false) (h : scope.enter key value values = .ok level) :
    level.position = 0 ∧ 0 < level.length := by
  simp only [Scope.enter] at h
  split at h
  · exact absurd h throw_ne_ok
  obtain ⟨first, hfirst, h⟩ := bind_eq_ok.mp h
  obtain ⟨second, hparent, hupdate⟩ := bind_eq_ok.mp h
  obtain ⟨data, rfl⟩ := withParent_sameRound hparent
  obtain ⟨hposition, hlength⟩ := (update_sameRound hupdate).position
  rw [hposition, hlength]
  simp only [Scope.loopOver] at hfirst
  split at hfirst
  · split at hfirst
    · rename_i harray
      obtain rfl := pure_eq_ok.mp hfirst
      exact ⟨rfl, LawfulJson.size_pos values harray hempty⟩
    · exact absurd hfirst throw_ne_ok
  · split at hfirst
    · obtain rfl := pure_eq_ok.mp hfirst
      refine ⟨rfl, Nat.pos_of_ne_zero fun hzero => ?_⟩
      -- without members there is no first one
      have hnone : ((items values).mergeSort fun a b : Str × J => !decide (b.1 < a.1)) = [] :=
        List.length_eq_zero_iff.mp hzero
      simp only [LoopLevel.update, hnone, List.getElem?_nil] at hupdate
      exact absurd hupdate throw_ne_ok
    · exact absurd hfirst throw_ne_ok

omit [LawfulJson J] in
/-- Where there is nothing to go through, the loop is left at once. -/
theorem startLoop_empty {bc : Bytecode J} {values : J} (hbc : r.program[i]? = some bc) (hop : bc.op = .startLoop)
    (hempty : empty values = true) :
    Reaches env.step (r.at os ⟨i, values :: stack, loops⟩) (r.at os ⟨bc.args + 1, stack, loops⟩) := by
  refine follows_silent ⟨i, values :: stack, loops⟩ (x := pure ()) (f := fun _ => ⟨bc.args + 1, stack, loops⟩)
    hbc ?_
  simp only [Renderer.execute, hop, Activation.startLoop, Rendering.at, hempty, if_true]
  rfl

theorem startLoop_enters {bc : Bytecode J} {key value : Str} {values : J} (hbc : r.program[i]? = some bc)
    (hop : bc.op = .startLoop) (hvalue : bc.value = keyValue key) (hstr : bc.str = value)
    (hempty : empty values = false) :
    Follows env.step (r.at os ⟨i, values :: stack, loops⟩) ((env.scope r loops).enter key value values)
      fun level => r.at os ⟨i + 1, stack, level :: loops⟩ := by
  have hnew := new_eq_loopOver (env.scope r loops) key value values hvalue hstr
  have hcurrent : (r.at os ⟨i, values :: stack, loops⟩).activation.current = (env.scope r loops).current := rfl
  apply follows_silent ⟨i, values :: stack, loops⟩ hbc
  simp only [Renderer.execute, hop, Activation.startLoop, hcurrent, Scope.enter]
  show silent (if empty values = true then _ else if loopCapacity ≤ loops.length then _ else _) = _
  rw [if_neg (by rw [hempty]; decide)]
  show _ = silent (Except.map _ (if loopCapacity ≤ loops.length then _ else _))
  split
  · rfl
  · rw [hnew]
    cases (env.scope r loops).loopOver key value values with
    | error e => rfl
    | ok first =>
      simp only [bind, Except.bind]
      cases first.withParent with
      | error e => rfl
      | ok second =>
        dsimp only
        cases second.update <;> rfl

/-- **A loop** over a value on the stack. -/
theorem loop_follows {key value : Str} {values : J} {stop : ℕ} {body : LoopLevel J → Except Stop Str}
    (hstart : r.program[i]?
      = some { op := .startLoop, args := stop, value := keyValue key, str := value })
    (hbody : ∀ os level, Follows env.step (r.at os ⟨i + 1, stack, level :: loops⟩) (body level) fun text =>
      r.at (os ++ text) ⟨stop, stack, level :: loops⟩)
    (hstop : r.program[stop]? = some { op := .endLoop, args := i + 1, value := null }) :
    Follows env.step (r.at os ⟨i, values :: stack, loops⟩) ((env.scope r loops).loopText key value values body)
      fun text => r.at (os ++ text) ⟨stop + 1, stack, loops⟩ := by
  rw [Scope.loopText]
  cases hempty : empty values with
  | true =>
    exact (follows_pure [] (fun text => r.at (os ++ text) ⟨stop + 1, stack, loops⟩)
      (by rw [List.append_nil])).of_reaches (startLoop_empty hstart rfl hempty)
  | false =>
    refine (startLoop_enters hstart rfl rfl rfl hempty).bind fun level hlevel => ?_
    obtain ⟨hposition, hlength⟩ := enter_position hempty hlevel
    exact rounds_follow hbody hstop _ level os (by omega)

/-! ### Jumps -/

omit [LawfulJson J] in
theorem conditionalJump_follows {target : ℕ} {value : J}
    (hbc : r.program[i]? = some { op := .conditionalJump, args := target, value := null }) :
    Follows env.step (r.at os ⟨i, value :: stack, loops⟩) (truthy value) fun holds =>
      r.at os ⟨if holds then i + 1 else target, stack, loops⟩ := by
  apply follows_silent ⟨i, value :: stack, loops⟩ hbc
  simp only [Renderer.execute, Activation.conditionalJump, Rendering.at]
  cases truthy value <;> rfl

omit [LawfulJson J] in
theorem jump_reaches {target : ℕ} (hbc : r.program[i]? = some { op := .jump, args := target, value := null }) :
    Reaches env.step (r.at os ⟨i, stack, loops⟩) (r.at os ⟨target, stack, loops⟩) :=
  follows_silent ⟨i, stack, loops⟩ (x := pure ()) (f := fun _ => ⟨target, stack, loops⟩) hbc rfl

omit [LawfulJson J] in
theorem printText_reaches {content : Str}
    (hbc : r.program[i]? = some { op := .printText, value := null, str := content }) :
    Reaches env.step (r.at os ⟨i, stack, loops⟩) (r.at (os ++ content) ⟨i + 1, stack, loops⟩) := by
  have hstep : env.step (r.at os ⟨i, stack, loops⟩) = .ok (some (r.at (os ++ content) ⟨i + 1, stack, loops⟩)) :=
    step_goOn (x := pure (content, ⟨i + 1, stack, loops⟩)) hbc rfl
  exact Relation.ReflTransGen.single hstep

omit [LawfulJson J] in
/-- A part of a template and what follows it. -/
theorem follows_next {x y : Except Stop Str} {middle stop : ℕ}
    (hx : Follows env.step (r.at os ⟨i, stack, loops⟩) x fun text => r.at (os ++ text) ⟨middle, stack, loops⟩)
    (hy : ∀ os, Follows env.step (r.at os ⟨middle, stack, loops⟩) y fun text =>
      r.at (os ++ text) ⟨stop, stack, loops⟩) :
    Follows env.step (r.at os ⟨i, stack, loops⟩) (do let text ← x; let rest ← y; pure (text ++ rest))
      fun text => r.at (os ++ text) ⟨stop, stack, loops⟩ := by
  refine hx.bind fun text _ => ?_
  refine (hy (os ++ text)).map (text ++ ·) fun rest _ => ?_
  rw [List.append_assoc]

/-! ### Templates -/

/-- **The parts of a template**, by induction on the tree. -/
theorem tree_follows (t : Tree J) (hc : t.compilable = true) (hcode : CodeAt r.program i (t.code i)) (os : Str)
    (stack : List J) (loops : List (LoopLevel J)) :
    Follows env.step (r.at os ⟨i, stack, loops⟩) (t.eval (env.scope r loops)) fun text =>
      r.at (os ++ text) ⟨i + (t.code i).length, stack, loops⟩ := by
  induction t generalizing i os stack loops with
  | nil => exact follows_pure [] _ (by rw [List.append_nil]; rfl)
  | text content next ih =>
    obtain ⟨hbc, hnext⟩ := codeAt_cons.mp hcode
    refine ((ih hc hnext (os ++ content) stack loops).of_reaches (printText_reaches hbc)).map (content ++ ·) ?_
    intro rest _
    rw [Tree.code, List.length_cons, List.append_assoc, Nat.add_right_comm, Nat.add_assoc]
  | print value next ih =>
    simp only [Tree.compilable, Bool.and_eq_true] at hc
    obtain ⟨hprint, hnext⟩ := codeAt_append.mp hcode
    rw [Tree.eval, ← bind_assoc]
    refine (follows_next (print_follows value hc.1 hprint) fun os => ih hc.2 hnext os stack loops).congr ?_
    intro text _
    rw [Tree.code, List.length_append, Nat.add_assoc]
  | ifThen condition body next ihb ihn =>
    simp only [Tree.compilable, Bool.and_eq_true] at hc
    obtain ⟨⟨hcondition, hbody⟩, hnext⟩ := hc
    simp only [Tree.code, codeAt_append, codeAt_singleton, List.length_append, List.length_singleton,
      ← Nat.add_assoc] at hcode ⊢
    obtain ⟨⟨⟨hcodeCondition, hjump⟩, hcodeBody⟩, hcodeNext⟩ := hcode
    have hpart : Follows env.step (r.at os ⟨i, stack, loops⟩) (do
        let value ← condition.eval (env.scope r loops)
        let holds ← truthy value
        if holds then body.eval (env.scope r loops) else pure []) fun text =>
        r.at (os ++ text) ⟨i + condition.code.length + 1
          + (body.code (i + condition.code.length + 1)).length, stack, loops⟩ := by
      refine (expr_pushes condition hcondition i stack hcodeCondition).bind fun value _ => ?_
      refine (conditionalJump_follows hjump).bind fun holds _ => ?_
      cases holds with
      | true => exact ihb hbody hcodeBody os stack loops
      | false => exact follows_pure [] _ (by rw [List.append_nil]; rfl)
    have htree := follows_next hpart fun os => ihn hnext hcodeNext os stack loops
    simp only [bind_assoc] at htree
    exact htree
  | ifElse condition body other next ihb iho ihn =>
    simp only [Tree.compilable, Bool.and_eq_true] at hc
    obtain ⟨⟨⟨hcondition, hbody⟩, hother⟩, hnext⟩ := hc
    simp only [Tree.code, codeAt_append, codeAt_singleton, List.length_append, List.length_singleton,
      ← Nat.add_assoc] at hcode ⊢
    obtain ⟨⟨⟨⟨⟨hcodeCondition, hjump⟩, hcodeBody⟩, hleave⟩, hcodeOther⟩, hcodeNext⟩ := hcode
    have hpart : Follows env.step (r.at os ⟨i, stack, loops⟩) (do
        let value ← condition.eval (env.scope r loops)
        let holds ← truthy value
        if holds then body.eval (env.scope r loops) else other.eval (env.scope r loops)) fun text =>
        r.at (os ++ text) ⟨i + condition.code.length + 1
          + (body.code (i + condition.code.length + 1)).length + 1
          + (other.code (i + condition.code.length + 1
            + (body.code (i + condition.code.length + 1)).length + 1)).length, stack, loops⟩ := by
      refine (expr_pushes condition hcondition i stack hcodeCondition).bind fun value _ => ?_
      refine (conditionalJump_follows hjump).bind fun holds _ => ?_
      cases holds with
      | true => exact (ihb hbody hcodeBody os stack loops).andThen fun text _ => jump_reaches hleave
      | false => exact iho hother hcodeOther os stack loops
    have htree := follows_next hpart fun os => ihn hnext hcodeNext os stack loops
    simp only [bind_assoc] at htree
    exact htree
  | loop key value values body next ihb ihn =>
    simp only [Tree.compilable, Bool.and_eq_true] at hc
    obtain ⟨⟨hvalues, hbody⟩, hnext⟩ := hc
    simp only [Tree.code, codeAt_append, codeAt_singleton, List.length_append, List.length_singleton,
      ← Nat.add_assoc] at hcode ⊢
    obtain ⟨⟨⟨⟨hcodeValues, hstart⟩, hcodeBody⟩, hstop⟩, hcodeNext⟩ := hcode
    have hpushes : Pushes env r os loops values := expr_pushes values hvalues
    have hpart := (hpushes i stack hcodeValues).bind
      (y := fun list => (env.scope r loops).loopText key value list fun level =>
        body.eval (env.scope r (level :: loops)))
      fun list _ => loop_follows hstart (fun os level => ihb hbody hcodeBody os stack (level :: loops)) hstop
    have htree := follows_next hpart fun os => ihn hnext hcodeNext os stack loops
    simp only [bind_assoc] at htree
    exact htree

/-! ### Whole templates -/

omit [LawfulJson J] in
/-- The rendering of `tmpl` on `data` ends with `e`. -/
def Renderer.Stops (env : Renderer J) (tmpl : Template J) (data : J) (e : Stop) : Prop :=
  Fails env.step (Rendering.start tmpl data) e

/-- The run of a compiled tree. -/
theorem start_follows {t : Tree J} (hc : t.compilable = true) {tmpl : Template J}
    (htmpl : tmpl.bytecodes = t.code 0) (env : Renderer J) (data : J) :
    Follows env.step (Rendering.start tmpl data) (t.eval { callbacks := env.callbacks, data := data })
      fun text => (Rendering.start tmpl data).at text ⟨(t.code 0).length, [], []⟩ := by
  have hcode : CodeAt (Rendering.start tmpl data).program 0 (t.code 0) := by
    show CodeAt tmpl.bytecodes 0 (t.code 0)
    rw [htmpl]
    exact codeAt_self
  refine (tree_follows t hc hcode [] [] []).congr fun text _ => ?_
  rw [List.nil_append, Nat.zero_add]

omit [LawfulJson J] in
/-- Behind the last bytecode the run is over. -/
theorem step_end {t : Tree J} {tmpl : Template J} (htmpl : tmpl.bytecodes = t.code 0) (env : Renderer J)
    (data : J) (text : Str) :
    env.step ((Rendering.start tmpl data).at text ⟨(t.code 0).length, [], []⟩) = .ok none := by
  have hend : ((Rendering.start tmpl data).at text ⟨(t.code 0).length, [], []⟩).bytecode? = none := by
    show tmpl.bytecodes[(t.code 0).length]? = none
    rw [htmpl]
    exact List.getElem?_eq_none (Nat.le_refl _)
  simp only [Renderer.step, hend]
  rfl

/-- **Rendering is evaluating.**  The run of a compiled tree returns the text its evaluation returns, and ends
as its evaluation ends. -/
theorem render_iff_eval {t : Tree J} (hc : t.compilable = true) {tmpl : Template J}
    (htmpl : tmpl.bytecodes = t.code 0) (env : Renderer J) (data : J) :
    (∀ text, env.Returns tmpl data text ↔ t.eval { callbacks := env.callbacks, data := data } = .ok text) ∧
      ∀ e, env.Stops tmpl data e ↔ t.eval { callbacks := env.callbacks, data := data } = .error e := by
  have hrun := start_follows hc htmpl env data
  have hend := step_end htmpl env data
  refine ⟨fun text => ?_, fun e => hrun.fails_iff hend e⟩
  constructor
  · rintro ⟨s, hreach, hhalt, rfl⟩
    obtain ⟨text, heval, rfl⟩ := (hrun.halts_iff hend s).mp ⟨hreach, hhalt⟩
    exact heval
  · intro heval
    obtain ⟨hreach, hhalt⟩ := (hrun.halts_iff hend _).mpr ⟨text, heval, rfl⟩
    exact ⟨_, hreach, hhalt, rfl⟩

end EnvoyWasmFilters.Inja
