import EnvoyWasmFilters.Inja.Meaning

/-!
# Rendering without undefined behaviour

The renderer reads its stack, its arguments and its loops without looking whether they are there.  On the bytecode of
a template they are: what undefined behaviour is left comes from the library, from a callback, from more open loops
than `m_loop_stack` has room for, and from five operations that are not defined on every value.

* `SafeJson` — the library throws where it cannot do what it is asked for;
* `Op.guarded` — the operations defined on all values;
* `applyBuiltin_avoids`, `expr_avoids`, `tree_avoids` — the evaluation, by induction on the syntax;
* `rendering_safe` — **from the text of a template to a run that ends, and not with undefined behaviour.**
-/

namespace EnvoyWasmFilters.Inja

open NlohmannJson RenderJson StateExcept

/-- What `nlohmann::json` documents: an operation on a value of the wrong type throws. -/
class SafeJson (J : Type) [NlohmannJson J] [RenderJson J] : Prop where
  getString : ∀ value : J, Avoids .undefinedBehaviour (NlohmannJson.getString value)
  dump : ∀ value : J, Avoids .undefinedBehaviour (RenderJson.dump value)
  getBool : ∀ value : J, Avoids .undefinedBehaviour (RenderJson.getBool value)
  getInt : ∀ value : J, Avoids .undefinedBehaviour (RenderJson.getInt value)
  getDouble : ∀ value : J, Avoids .undefinedBehaviour (RenderJson.getDouble value)
  getStdString : ∀ value : J, Avoids .undefinedBehaviour (RenderJson.getStdString value)
  getArray : ∀ value : J, Avoids .undefinedBehaviour (RenderJson.getArray value)
  atIndex : ∀ (value : J) (n : ℕ), Avoids .undefinedBehaviour (RenderJson.atIndex value n)
  atPointer : ∀ (value : J) (pointer : Str), Avoids .undefinedBehaviour (RenderJson.atPointer value pointer)
  assign : ∀ (value : J) (key : Str) (m : J), Avoids .undefinedBehaviour (RenderJson.assign value key m)
  stod : ∀ text : Str, Avoids .undefinedBehaviour (RenderJson.stod (J := J) text)
  items_pos : ∀ value : J, isObject value = true → empty value = false → 0 < (items value).length

attribute [simp] SafeJson.getString SafeJson.dump SafeJson.getBool SafeJson.getInt SafeJson.getDouble
  SafeJson.getStdString SafeJson.getArray SafeJson.atIndex SafeJson.atPointer SafeJson.assign SafeJson.stod

/-! ### Operations -/

/-- How many arguments an operation takes. -/
def Op.arity : Op → ℕ
  | .and | .or | .in | .equal | .greater | .greaterEqual | .less | .lessEqual | .at | .different | .divisibleBy
  | .round | .existsInObject => 2
  | _ => 1

/-- The operations that are defined on all values.  `first`, `last`, `max` and `min` need elements, and
`divisibleBy` a quotient that does not overflow. -/
def Op.guarded : Op → Bool
  | .first | .last | .max | .min | .divisibleBy => false
  | _ => true

variable {J : Type} [NlohmannJson J] [RenderJson J] [SafeJson J]

omit [SafeJson J] in
@[simp] theorem throwInja_avoids {α : Type} (type message : Str) :
    Avoids .undefinedBehaviour (throwInja type message : Except Stop α) := by
  simp [throwInja]

@[simp] theorem truthy_avoids (value : J) : Avoids .undefinedBehaviour (truthy value) := by
  rw [truthy]
  split
  · simp
  split
  · simp
  split
  · simp
  split
  · simp
  · exact SafeJson.getBool value

theorem stoi_avoids (text : Str) : Avoids .undefinedBehaviour (stoi text) := by
  rw [stoi]
  exact avoids_ite (avoids_throw.mpr nofun) (avoids_ite (avoids_throw.mpr nofun) (avoids_pure _ _))

theorem truthy_then (value : J) {f : Bool → Except Stop J} (hf : ∀ holds, Avoids .undefinedBehaviour (f holds)) :
    Avoids .undefinedBehaviour (truthy value >>= f) := avoids_then (truthy_avoids value) hf

theorem applyBuiltin_avoids (data : J) {op : Op} (hcomputes : op.computes = true) (hguarded : op.guarded = true)
    {values : List J} (hlen : values.length = op.arity) :
    Avoids .undefinedBehaviour (applyBuiltin data op values) := by
  have hpair : op.arity = 2 → ∃ a b, values = [a, b] := fun h => List.length_eq_two.mp (hlen.trans h)
  have hsingle : op.arity = 1 → ∃ a, values = [a] := fun h => List.length_eq_one_iff.mp (hlen.trans h)
  cases op with
  | upper =>
    obtain ⟨a, rfl⟩ := hsingle rfl
    exact avoids_then (SafeJson.getStdString a) fun _ => avoids_pure _ _
  | lower =>
    obtain ⟨a, rfl⟩ := hsingle rfl
    exact avoids_then (SafeJson.getStdString a) fun _ => avoids_pure _ _
  | range =>
    obtain ⟨a, rfl⟩ := hsingle rfl
    exact avoids_then (SafeJson.getInt a) fun _ => avoids_ite (avoids_throw.mpr nofun) (avoids_pure _ _)
  | length =>
    obtain ⟨a, rfl⟩ := hsingle rfl
    exact avoids_ite (avoids_then (SafeJson.getString a) fun _ => avoids_pure _ _) (avoids_pure _ _)
  | sort =>
    obtain ⟨a, rfl⟩ := hsingle rfl
    exact avoids_then (SafeJson.getArray a) fun _ => avoids_pure _ _
  | «at» =>
    obtain ⟨a, b, rfl⟩ := hpair rfl
    exact avoids_then (SafeJson.getInt b) fun n => SafeJson.atIndex a _
  | round =>
    obtain ⟨a, b, rfl⟩ := hpair rfl
    exact avoids_then (SafeJson.getDouble a) fun _ => avoids_then (SafeJson.getInt b) fun _ => avoids_pure _ _
  | odd =>
    obtain ⟨a, rfl⟩ := hsingle rfl
    exact avoids_then (SafeJson.getInt a) fun _ => avoids_pure _ _
  | even =>
    obtain ⟨a, rfl⟩ := hsingle rfl
    exact avoids_then (SafeJson.getInt a) fun _ => avoids_pure _ _
  | not =>
    obtain ⟨a, rfl⟩ := hsingle rfl
    exact truthy_then a fun _ => avoids_pure _ _
  | and =>
    obtain ⟨a, b, rfl⟩ := hpair rfl
    refine truthy_then a fun holds => ?_
    cases holds with
    | true => exact truthy_then b fun _ => avoids_pure _ _
    | false => exact avoids_pure _ _
  | or =>
    obtain ⟨a, b, rfl⟩ := hpair rfl
    refine truthy_then a fun holds => ?_
    cases holds with
    | true => exact avoids_pure _ _
    | false => exact truthy_then b fun _ => avoids_pure _ _
  | float =>
    obtain ⟨a, rfl⟩ := hsingle rfl
    exact avoids_then (SafeJson.getString a) fun text => avoids_then (SafeJson.stod text) fun _ => avoids_pure _ _
  | int =>
    obtain ⟨a, rfl⟩ := hsingle rfl
    exact avoids_then (SafeJson.getString a) fun text => avoids_then (stoi_avoids text) fun _ => avoids_pure _ _
  | «exists» =>
    obtain ⟨a, rfl⟩ := hsingle rfl
    exact avoids_then (SafeJson.getString a) fun _ => avoids_pure _ _
  | existsInObject =>
    obtain ⟨a, b, rfl⟩ := hpair rfl
    exact avoids_then (SafeJson.getString b) fun _ => avoids_pure _ _
  | «in» | equal | different | less | greater | lessEqual | greaterEqual =>
    obtain ⟨a, b, rfl⟩ := hpair rfl
    exact avoids_pure _ _
  | isBoolean | isNumber | isInteger | isFloat | isObject | isArray | isString =>
    obtain ⟨a, rfl⟩ := hsingle rfl
    exact avoids_pure _ _
  | first | last | max | min | divisibleBy => cases hguarded
  | nop | printText | printValue | push | default | «include» | callback | jump | conditionalJump | startLoop
  | endLoop | result => cases hcomputes

/-! ### Expressions -/

/-- The callbacks throw where they cannot return. -/
def SafeCallbacks (callbacks : Callbacks J) : Prop :=
  ∀ c ∈ callbacks, ∀ args, Avoids .undefinedBehaviour (c.2 args)

/-- A function is called with as many arguments as it takes, and is defined on all of them. -/
def Func.safe : Func → ℕ → Bool
  | .builtin op _, n => op.guarded && n == op.arity
  | .callback _, _ => true

mutual

/-- All calls of the expression are safe. -/
def Expr.safe : Expr J → Bool
  | .literal _ | .var _ => true
  | .apply func args => func.safe args.length && safeAll args
  | .default first second => first.safe && second.safe

def safeAll : List (Expr J) → Bool
  | [] => true
  | arg :: args => arg.safe && safeAll args

end

omit [NlohmannJson J] [RenderJson J] [SafeJson J] in
theorem findCallback_avoids {callbacks : Callbacks J} (h : SafeCallbacks callbacks) {name : Str} {n : ℕ}
    {function : List J → Except Stop J} (hfind : findCallback callbacks name n = some function) (args : List J) :
    Avoids .undefinedBehaviour (function args) := by
  obtain ⟨c, hc, rfl⟩ := Option.map_eq_some_iff.mp hfind
  exact h c (List.mem_of_find?_eq_some hc) args

/-- What is thrown in place of a value. -/
theorem avoids_error {e : Stop} {α β : Type} {x : Except Stop α} (hx : Avoids .undefinedBehaviour x)
    (h : x = .error e) : Avoids .undefinedBehaviour (throw e : Except Stop β) := by
  refine avoids_throw.mpr ?_
  rintro rfl
  exact hx h

variable {scope : Scope J}

theorem lookup_avoids (h : SafeCallbacks scope.callbacks) (name : Str) :
    Avoids .undefinedBehaviour (scope.lookup name) := by
  have hpointer := SafeJson.atPointer scope.current ((convertDotToJsonPointer name).takeWhile (· != '\x00'))
  rw [Scope.lookup]
  split
  · exact avoids_pure _ _
  · rename_i e he
    refine avoids_ite ?_ (avoids_error hpointer he)
    split
    · rename_i callback hfind
      exact findCallback_avoids h hfind []
    · exact throwInja_avoids _ _

theorem func_avoids (h : SafeCallbacks scope.callbacks) {func : Func} {values : List J}
    (hsafe : func.safe values.length = true) : Avoids .undefinedBehaviour (func.eval scope values) := by
  cases func with
  | builtin op hcomputes =>
    simp only [Func.safe, Bool.and_eq_true, beq_iff_eq] at hsafe
    exact applyBuiltin_avoids scope.data hcomputes hsafe.1 hsafe.2
  | callback name =>
    simp only [Func.eval]
    split
    · rename_i function hfind
      exact findCallback_avoids h hfind values
    · exact throwInja_avoids _ _

omit [NlohmannJson J] [RenderJson J] [SafeJson J] in
theorem orDefault_avoids {fallback : J} {x : Except Stop J} (hx : Avoids .undefinedBehaviour x) :
    Avoids .undefinedBehaviour (orDefault fallback x) := by
  cases x with
  | ok value => exact avoids_pure _ _
  | error e => exact avoids_ite (avoids_pure _ _) (avoids_error hx rfl)

omit [SafeJson J] in
theorem evalAll_avoids {args : List (Expr J)}
    (hargs : ∀ arg ∈ args, arg.safe = true → Avoids .undefinedBehaviour (arg.eval scope))
    (hsafe : safeAll args = true) : Avoids .undefinedBehaviour (evalAll scope args) := by
  induction args with
  | nil => exact avoids_pure _ _
  | cons arg args ih =>
    simp only [safeAll, Bool.and_eq_true] at hsafe
    rw [evalAll]
    refine avoids_then (hargs arg List.mem_cons_self hsafe.1) fun value => ?_
    refine avoids_then (ih (fun a ha => hargs a (List.mem_cons_of_mem arg ha)) hsafe.2) fun values => ?_
    exact avoids_pure _ _

/-- **Expressions**, by induction. -/
theorem expr_avoids (h : SafeCallbacks scope.callbacks) (e : Expr J) (hsafe : e.safe = true) :
    Avoids .undefinedBehaviour (e.eval scope) := by
  induction e with
  | literal value =>
    rw [Expr.eval]
    exact avoids_pure _ _
  | var name =>
    rw [Expr.eval]
    exact lookup_avoids h name
  | apply func args ih =>
    simp only [Expr.safe, Bool.and_eq_true] at hsafe
    rw [Expr.eval, avoids_bind]
    refine ⟨evalAll_avoids ih hsafe.2, fun values hvalues => ?_⟩
    rw [← evalAll_length hvalues] at hsafe
    exact func_avoids h hsafe.1
  | default first second ihf ihs =>
    simp only [Expr.safe, Bool.and_eq_true] at hsafe
    rw [Expr.eval]
    exact avoids_then (ihs hsafe.2) fun _ => orDefault_avoids (ihf hsafe.1)

/-! ### Templates -/

/-- How many loops are open at once. -/
def Tree.nesting : Tree J → ℕ
  | .nil => 0
  | .text _ next => next.nesting
  | .print _ next => next.nesting
  | .ifThen _ body next => max body.nesting next.nesting
  | .ifElse _ body other next => max (max body.nesting other.nesting) next.nesting
  | .loop _ _ _ body next => max (body.nesting + 1) next.nesting

/-- All calls of the template are safe. -/
def Tree.safe : Tree J → Bool
  | .nil => true
  | .text _ next => next.safe
  | .print value next => value.safe && next.safe
  | .ifThen condition body next => condition.safe && body.safe && next.safe
  | .ifElse condition body other next => condition.safe && body.safe && other.safe && next.safe
  | .loop _ _ values body next => values.safe && body.safe && next.safe

theorem printed_avoids (value : J) : Avoids .undefinedBehaviour (printed value) :=
  avoids_ite (SafeJson.getString value) (SafeJson.dump value)

theorem update_avoids {level : LoopLevel J} (h : level.position < level.length) :
    Avoids .undefinedBehaviour level.update := by
  cases hkind : level.loopType with
  | array =>
    simp only [LoopLevel.update, hkind]
    refine avoids_then (SafeJson.atIndex _ _) fun _ => ?_
    iterate 6 refine avoids_then (SafeJson.assign _ _ _) fun _ => ?_
    exact avoids_pure _ _
  | map =>
    simp only [LoopLevel.position, LoopLevel.length, hkind] at h
    simp only [LoopLevel.update, hkind, List.getElem?_eq_getElem h]
    exact avoids_then (SafeJson.assign _ _ _) fun _ =>
      avoids_then (SafeJson.assign _ _ _) fun _ => avoids_pure _ _

theorem withParent_avoids (level : LoopLevel J) : Avoids .undefinedBehaviour level.withParent := by
  rw [LoopLevel.withParent]
  split
  · exact avoids_pure _ _
  · exact avoids_then (SafeJson.assign _ _ _) fun _ =>
      avoids_then (SafeJson.assign _ _ _) fun _ => avoids_pure _ _

omit [SafeJson J] in
theorem loopOver_avoids (key value : Str) (values : J) :
    Avoids .undefinedBehaviour (scope.loopOver key value values) := by
  rw [Scope.loopOver]
  exact avoids_ite (avoids_ite (avoids_pure _ _) (throwInja_avoids _ _))
    (avoids_ite (avoids_pure _ _) (throwInja_avoids _ _))

variable [LawfulJson J]

/-- A loop over a value that is not empty has a first element. -/
theorem loopOver_position {key value : Str} {values : J} {level : LoopLevel J} (hempty : empty values = false)
    (h : scope.loopOver key value values = .ok level) : level.position = 0 ∧ 0 < level.length := by
  simp only [Scope.loopOver] at h
  split at h
  · split at h
    · rename_i harray
      obtain rfl := pure_eq_ok.mp h
      exact ⟨rfl, LawfulJson.size_pos values harray hempty⟩
    · exact absurd h throw_ne_ok
  · split at h
    · rename_i hobject
      obtain rfl := pure_eq_ok.mp h
      refine ⟨rfl, ?_⟩
      show 0 < (List.mergeSort (items values) _).length
      rw [List.length_mergeSort]
      exact SafeJson.items_pos values hobject hempty
    · exact absurd h throw_ne_ok

theorem enter_avoids {key value : Str} {values : J} (hempty : empty values = false)
    (hroom : scope.loops.length < loopCapacity) :
    Avoids .undefinedBehaviour (scope.enter key value values) := by
  rw [Scope.enter, if_neg (Nat.not_le_of_lt hroom), avoids_bind]
  refine ⟨loopOver_avoids key value values, fun first hfirst => ?_⟩
  rw [avoids_bind]
  refine ⟨withParent_avoids first, fun second hsecond => ?_⟩
  obtain ⟨hposition, hlength⟩ := loopOver_position hempty hfirst
  obtain ⟨hposition', hlength'⟩ := (withParent_sameRound hsecond).position
  exact update_avoids (by omega)

omit [LawfulJson J] in
/-- **The rounds of a loop**, by induction on how many are left. -/
theorem rounds_avoid {body : LoopLevel J → Except Stop Str}
    (hbody : ∀ level, Avoids .undefinedBehaviour (body level)) (n : ℕ) (level : LoopLevel J)
    (hn : level.position + n + 1 = level.length) : Avoids .undefinedBehaviour (rounds body n level) := by
  induction n generalizing level with
  | zero => exact hbody level
  | succ n ih =>
    obtain ⟨hposition, hlength⟩ := advance_position level
    rw [rounds]
    refine avoids_then (hbody level) fun text => avoids_bind.mpr ⟨update_avoids (by omega), fun next hnext => ?_⟩
    obtain ⟨hposition', hlength'⟩ := (update_sameRound hnext).position
    exact avoids_then (ih next (by omega)) fun rest => avoids_pure _ _

theorem loopText_avoids {key value : Str} {values : J} {body : LoopLevel J → Except Stop Str}
    (hbody : ∀ level, Avoids .undefinedBehaviour (body level)) (hroom : scope.loops.length < loopCapacity) :
    Avoids .undefinedBehaviour (scope.loopText key value values body) := by
  rw [Scope.loopText]
  cases hempty : empty values with
  | true => exact avoids_pure _ _
  | false =>
    show Avoids _ (scope.enter key value values >>= _)
    refine avoids_bind.mpr ⟨enter_avoids hempty hroom, fun level hlevel => ?_⟩
    obtain ⟨hposition, hlength⟩ := enter_position hempty hlevel
    exact rounds_avoid hbody _ level (by omega)

omit [NlohmannJson J] [RenderJson J] [SafeJson J] [LawfulJson J] in
/-- A text and the text behind it. -/
theorem avoids_append {x y : Except Stop Str} (hx : Avoids .undefinedBehaviour x)
    (hy : Avoids .undefinedBehaviour y) :
    Avoids .undefinedBehaviour (do let text ← x; let rest ← y; pure (text ++ rest)) :=
  avoids_then hx fun _ => avoids_then hy fun _ => avoids_pure _ _

/-- **Templates**, by induction on the tree. -/
theorem tree_avoids (t : Tree J) (h : SafeCallbacks scope.callbacks) (hsafe : t.safe = true)
    (hroom : scope.loops.length + t.nesting ≤ loopCapacity) : Avoids .undefinedBehaviour (t.eval scope) := by
  induction t generalizing scope with
  | nil => exact avoids_pure _ _
  | text content next ih =>
    rw [Tree.eval]
    exact avoids_then (ih h hsafe hroom) fun _ => avoids_pure _ _
  | print value next ih =>
    simp only [Tree.safe, Bool.and_eq_true] at hsafe
    rw [Tree.eval]
    exact avoids_then (expr_avoids h value hsafe.1) fun value =>
      avoids_append (printed_avoids value) (ih h hsafe.2 hroom)
  | ifThen condition body next ihb ihn =>
    simp only [Tree.safe, Bool.and_eq_true] at hsafe
    simp only [Tree.nesting] at hroom
    rw [Tree.eval]
    refine avoids_then (expr_avoids h condition hsafe.1.1) fun value => ?_
    refine avoids_then (truthy_avoids value) fun holds => ?_
    exact avoids_append (avoids_ite (ihb h hsafe.1.2 (by omega)) (avoids_pure _ _)) (ihn h hsafe.2 (by omega))
  | ifElse condition body other next ihb iho ihn =>
    simp only [Tree.safe, Bool.and_eq_true] at hsafe
    simp only [Tree.nesting] at hroom
    rw [Tree.eval]
    refine avoids_then (expr_avoids h condition hsafe.1.1.1) fun value => ?_
    refine avoids_then (truthy_avoids value) fun holds => ?_
    exact avoids_append (avoids_ite (ihb h hsafe.1.1.2 (by omega)) (iho h hsafe.1.2 (by omega)))
      (ihn h hsafe.2 (by omega))
  | loop key value values body next ihb ihn =>
    simp only [Tree.safe, Bool.and_eq_true] at hsafe
    simp only [Tree.nesting] at hroom
    rw [Tree.eval]
    refine avoids_then (expr_avoids h values hsafe.1.1) fun list => ?_
    refine avoids_append (loopText_avoids (fun level => ?_) (by omega)) (ihn h hsafe.2 (by omega))
    refine ihb h hsafe.1.2 ?_
    show scope.loops.length + 1 + body.nesting ≤ loopCapacity
    omega

/-- **Rendering is safe.**  A text that the grammar reads as a tree without unguarded calls, in which at most sixteen
loops are open at once, is accepted, and every rendering of it ends: with a text or an exception, not with undefined
behaviour. -/
theorem rendering_safe {p : Parser J} (hp : p.Idle) {input : Str} {t : Tree J} (ht : IsTemplate input t)
    (hc : t.compilable = true) (hsafe : t.safe = true) (hroom : t.nesting ≤ loopCapacity) :
    ∃ tmpl q, p.parse input = .ok (tmpl, q) ∧ ∀ (env : Renderer J) (data : J), SafeCallbacks env.callbacks →
      ((∃ text, env.Returns tmpl data text) ∨ ∃ e, e.isException = true ∧ env.Stops tmpl data e) ∧
        ¬ env.Stops tmpl data .undefinedBehaviour := by
  obtain ⟨q, hparse⟩ := parse_eq_code hp ht hc
  refine ⟨⟨t.code 0, input⟩, q, hparse, fun env data hcallbacks => ?_⟩
  have hcode : (⟨t.code 0, input⟩ : Template J).bytecodes = t.code 0 := rfl
  obtain ⟨hreturns, hstops⟩ := render_iff_eval hc hcode env data
  have havoids : Avoids .undefinedBehaviour (t.eval { callbacks := env.callbacks, data := data }) :=
    tree_avoids t hcallbacks hsafe (by simpa using hroom)
  refine ⟨?_, fun h => havoids ((hstops _).mp h)⟩
  cases heval : t.eval { callbacks := env.callbacks, data := data } with
  | ok text => exact Or.inl ⟨text, (hreturns text).mpr heval⟩
  | error e =>
    refine Or.inr ⟨e, ?_, (hstops e).mpr heval⟩
    cases e with
    | undefinedBehaviour => exact absurd heval havoids
    | regexError what => rfl
    | logicError what => rfl
    | runtimeError what => rfl
    | jsonException what => rfl

/-! ### The values of `Json` -/

theorem resolve_avoids (keys : List Str) (value : Json) : Avoids .undefinedBehaviour (value.resolve keys) := by
  induction keys generalizing value with
  | nil => cases value <;> exact avoids_pure _ _
  | cons key keys ih =>
    cases value with
    | object members =>
      rw [Json.resolve]
      split
      · exact ih _
      · exact avoids_throw.mpr nofun
    | array elements =>
      rw [Json.resolve]
      refine avoids_ite ?_ (avoids_throw.mpr nofun)
      split
      · exact ih _
      · exact avoids_throw.mpr nofun
    | null => exact avoids_throw.mpr nofun
    | bool b => exact avoids_throw.mpr nofun
    | int n => exact avoids_throw.mpr nofun
    | string text => exact avoids_throw.mpr nofun

instance : SafeJson Json where
  getString := fun value => by cases value <;> first | exact avoids_pure _ _ | exact avoids_throw.mpr nofun
  dump := fun _ => avoids_pure _ _
  getBool := fun value => by cases value <;> first | exact avoids_pure _ _ | exact avoids_throw.mpr nofun
  getInt := fun value => by cases value <;> first | exact avoids_pure _ _ | exact avoids_throw.mpr nofun
  getDouble := fun value => by cases value <;> first | exact avoids_pure _ _ | exact avoids_throw.mpr nofun
  getStdString := fun value => by cases value <;> first | exact avoids_pure _ _ | exact avoids_throw.mpr nofun
  getArray := fun value => by cases value <;> first | exact avoids_pure _ _ | exact avoids_throw.mpr nofun
  atIndex := fun value n => by
    cases value with
    | array elements =>
      simp only [RenderJson.atIndex]
      split
      · exact avoids_pure _ _
      · exact avoids_throw.mpr nofun
    | _ => exact avoids_throw.mpr nofun
  atPointer := fun value pointer => resolve_avoids _ value
  assign := fun value key m => by cases value <;> first | exact avoids_pure _ _ | exact avoids_throw.mpr nofun
  stod := fun text => avoids_ite (avoids_pure _ _) (avoids_throw.mpr nofun)
  items_pos := by
    intro value hobject hempty
    cases value with
    | object members =>
      have hne : members ≠ [] := by
        rintro rfl
        cases hempty
      exact List.length_pos_of_ne_nil hne
    | _ => cases hobject

theorem rendering_safe_greeting :
    ∃ tmpl q, ({} : Parser Json).parse greeting = .ok (tmpl, q) ∧
      ∀ data : Json, ¬ (⟨∅, []⟩ : Renderer Json).Stops tmpl data .undefinedBehaviour := by
  obtain ⟨tmpl, q, hparse, hsafe⟩ := rendering_safe (p := {}) ⟨rfl, rfl, rfl⟩ greeting_isTemplate
    (by decide +kernel) (by decide +kernel) (by decide +kernel)
  exact ⟨tmpl, q, hparse, fun data => (hsafe ⟨∅, []⟩ data fun c hc => absurd hc List.not_mem_nil).2⟩

end EnvoyWasmFilters.Inja
