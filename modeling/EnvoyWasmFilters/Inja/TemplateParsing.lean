import EnvoyWasmFilters.Inja.ExpressionParsing
import EnvoyWasmFilters.Inja.TemplateGrammar
import EnvoyWasmFilters.Library.Backpatch

/-!
# The parser on the templates of the grammar

What the grammar derives the parser accepts, and the bytecode it leaves is that of the tree derived.  The parser
works through the template block by block: at the `if` and the `else` of a conditional it emits jumps without a
target, and the `endif` fills them in.

* `finish` — what the rest of an `if` does to the bytecode and to the jumps that wait for it;
* `finish_conditional`, `finish_elseIf` — that is the bytecode of the conditional;
* `Turns`, `Comes` — a round of the loop of `parse_into`, and the loop after some of its rounds;
* `parses_accepted` — **the parts of a template**, by induction on their derivation;
* `parse_eq_code` — **a text that is a template is parsed to the bytecode of its tree**.
-/

namespace EnvoyWasmFilters.Inja

open StateExcept Backpatch NlohmannJson

variable {J : Type}

/-! ### Jumps -/

/-- The bytecode with another target. -/
def Bytecode.aim (target : ℕ) (bc : Bytecode J) : Bytecode J := { bc with args := target }

/-- The last bytecode is not a value that waits for its operation. -/
def Ended (bcs : List (Bytecode J)) : Prop := ∀ bc, bcs.getLast? = some bc → bc.op ≠ .push

theorem Ended.settled {bcs : List (Bytecode J)} (h : Ended bcs) : Settled bcs :=
  fun bc hbc hliteral => h bc hbc hliteral.1

theorem ended_concat {bcs : List (Bytecode J)} {bc : Bytecode J} (h : bc.op ≠ .push) : Ended (bcs ++ [bc]) := by
  intro last hlast
  rw [List.getLast?_concat] at hlast
  obtain rfl := Option.some.inj hlast
  exact h

theorem ended_nil : Ended ([] : List (Bytecode J)) := fun bc h => by cases h

variable [NlohmannJson J]

/-- No part of a template ends with a value that waits. -/
theorem ended_code (t : Tree J) (pos : ℕ) {bcs : List (Bytecode J)} (h : Ended bcs) :
    Ended (bcs ++ t.code pos) := by
  induction t generalizing pos bcs with
  | nil =>
    rw [Tree.code, List.append_nil]
    exact h
  | text content next ih =>
    rw [Tree.code, List.append_cons]
    exact ih _ (ended_concat (by simp))
  | print value next ih =>
    rw [Tree.code, ← List.append_assoc]
    refine ih _ ?_
    intro last hlast
    obtain ⟨bc, hbc, hop⟩ := getLast?_withFunction .printValue 1 value.code
    rw [List.getLast?_append, hbc, Option.some_or] at hlast
    obtain rfl := Option.some.inj hlast
    rw [hop]
    decide
  | ifThen condition body next ihb ihn =>
    simp only [Tree.code, ← List.append_assoc]
    exact ihn _ (ihb _ (ended_concat (by simp)))
  | ifElse condition body other next ihb iho ihn =>
    simp only [Tree.code, ← List.append_assoc]
    exact ihn _ (iho _ (ended_concat (by simp)))
  | loop key value values body next ihb ihn =>
    simp only [Tree.code, ← List.append_assoc]
    exact ihn _ (ended_concat (by simp))

/-- What is left of an `if` behind its first branch: the hole is that of its last conditional jump, `jumps` are
those of the branches that have ended. -/
def finish (other : Option (Tree J)) (hole : ℕ) (jumps : List ℕ) (bcs : List (Bytecode J)) :
    List (Bytecode J) :=
  match other with
  | none => patchAll (Bytecode.aim bcs.length) jumps (bcs.modify hole (Bytecode.aim bcs.length))
  | some other =>
      let code := other.code (bcs.length + 1)
      let stop := bcs.length + 1 + code.length
      patchAll (Bytecode.aim stop) jumps (bcs.modify hole (Bytecode.aim (bcs.length + 1)))
        ++ [{ op := .jump, args := stop, value := null }] ++ code

/-- The jumps that wait are filled in last: to the end of the bytecode. -/
theorem finish_jumps (other : Option (Tree J)) (hole : ℕ) {jumps : List ℕ} {bcs : List (Bytecode J)}
    (hjumps : ∀ j ∈ jumps, j < bcs.length) :
    finish other hole jumps bcs
      = patchAll (Bytecode.aim (finish other hole [] bcs).length) jumps (finish other hole [] bcs) := by
  have hopened : ∀ target, (bcs.modify hole (Bytecode.aim target)).length = bcs.length :=
    fun target => List.length_modify _ _ _
  cases other with
  | none =>
    show _ = patchAll (Bytecode.aim (bcs.modify hole _).length) jumps (bcs.modify hole _)
    rw [hopened]
    rfl
  | some other =>
    have hlen : (finish (some other) hole [] bcs).length
        = bcs.length + 1 + (other.code (bcs.length + 1)).length := by
      simp only [finish, patchAll, List.foldl_nil, List.length_append, List.length_singleton, hopened]
    rw [hlen]
    simp only [finish, patchAll, List.foldl_nil, List.append_assoc]
    exact (patchAll_append (by simpa only [hopened] using hjumps)).symm

/-- **A conditional**: its bytecode is in its place. -/
theorem finish_conditional (condition : Expr J) (body : Tree J) (other : Option (Tree J))
    (bcs : List (Bytecode J)) :
    finish other (bcs ++ condition.code).length []
        (bcs ++ condition.code ++ [({ op := .conditionalJump, value := null } : Bytecode J)]
          ++ body.code (bcs.length + condition.code.length + 1))
      = bcs ++ (Tree.conditional condition body other .nil).code bcs.length := by
  have hlen : (bcs ++ condition.code ++ [({ op := .conditionalJump, value := null } : Bytecode J)]
      ++ body.code (bcs.length + condition.code.length + 1)).length
      = bcs.length + condition.code.length + 1
        + (body.code (bcs.length + condition.code.length + 1)).length := by
    simp only [List.length_append, List.length_singleton]
  have hhole : ∀ target,
      (bcs ++ condition.code ++ [({ op := .conditionalJump, value := null } : Bytecode J)]
        ++ body.code (bcs.length + condition.code.length + 1)).modify (bcs ++ condition.code).length
          (Bytecode.aim target)
      = bcs ++ condition.code ++ [{ op := .conditionalJump, args := target, value := null }]
        ++ body.code (bcs.length + condition.code.length + 1) := by
    intro target
    rw [List.append_assoc (bcs ++ condition.code), List.singleton_append, modify_length, List.append_cons]
    rfl
  cases other with
  | none =>
    rw [finish, hhole, hlen]
    simp only [Tree.conditional, Tree.code, List.append_nil, ← List.append_assoc]
    rfl
  | some other =>
    simp only [finish, hhole, hlen]
    simp only [Tree.conditional, Tree.code, List.append_nil, ← List.append_assoc]
    rfl

/-- The bytecode in which an `else` has ended the branch before it. -/
def afterElse (hole : ℕ) (bcs : List (Bytecode J)) : List (Bytecode J) :=
  bcs.modify hole (Bytecode.aim (bcs.length + 1)) ++ [{ op := .jump, value := null }]

theorem length_afterElse (hole : ℕ) (bcs : List (Bytecode J)) :
    (afterElse hole bcs).length = bcs.length + 1 := by
  rw [afterElse, List.length_append, List.length_modify]
  rfl

/-- The jump at the end of a branch is filled in with the others. -/
theorem patchAll_afterElse (hole : ℕ) {jumps : List ℕ} {bcs code : List (Bytecode J)} (target : ℕ)
    (hjumps : ∀ j ∈ jumps, j < bcs.length) :
    patchAll (Bytecode.aim target) (jumps ++ [bcs.length]) (afterElse hole bcs ++ code)
      = patchAll (Bytecode.aim target) jumps (bcs.modify hole (Bytecode.aim (bcs.length + 1)))
        ++ [{ op := .jump, args := target, value := null }] ++ code := by
  have hopened : (bcs.modify hole (Bytecode.aim (bcs.length + 1))).length = bcs.length :=
    List.length_modify _ _ _
  rw [patchAll_concat, afterElse, List.append_assoc, patchAll_append (by simpa only [hopened] using hjumps)]
  have hmodify := modify_length (Bytecode.aim target)
    (patchAll (Bytecode.aim target) jumps (bcs.modify hole (Bytecode.aim (bcs.length + 1)))) code
    ({ op := .jump, value := null } : Bytecode J)
  rw [length_patchAll, hopened] at hmodify
  rw [List.singleton_append, hmodify, List.append_cons]
  rfl

/-- **A chain**: an `else if` is a conditional in the second branch, and its jumps end where the chain does. -/
theorem finish_elseIf (condition : Expr J) (body : Tree J) (other : Option (Tree J)) (hole : ℕ)
    {jumps : List ℕ} {bcs : List (Bytecode J)} (hjumps : ∀ j ∈ jumps, j < bcs.length) :
    finish other (afterElse hole bcs ++ condition.code).length (jumps ++ [bcs.length])
        (afterElse hole bcs ++ condition.code ++ [({ op := .conditionalJump, value := null } : Bytecode J)]
          ++ body.code ((afterElse hole bcs).length + condition.code.length + 1))
      = finish (some (.conditional condition body other .nil)) hole jumps bcs := by
  have hall : ∀ j ∈ jumps ++ [bcs.length], j < (afterElse hole bcs ++ condition.code
      ++ [({ op := .conditionalJump, value := null } : Bytecode J)]
      ++ body.code ((afterElse hole bcs).length + condition.code.length + 1)).length := by
    intro j hj
    simp only [List.length_append, length_afterElse]
    rcases List.mem_append.mp hj with hj | hj
    · have := hjumps j hj
      omega
    · obtain rfl := List.mem_singleton.mp hj
      omega
  rw [finish_jumps other _ hall, finish_conditional, patchAll_afterElse hole _ hjumps, length_afterElse,
    List.length_append, length_afterElse]
  rfl

/-- An unconditional `else`. -/
theorem finish_else (body : Tree J) (hole : ℕ) {jumps : List ℕ} {bcs : List (Bytecode J)}
    (hjumps : ∀ j ∈ jumps, j < bcs.length) :
    patchAll (Bytecode.aim (afterElse hole bcs ++ body.code (bcs.length + 1)).length) (jumps ++ [bcs.length])
        (afterElse hole bcs ++ body.code (bcs.length + 1))
      = finish (some body) hole jumps bcs := by
  rw [patchAll_afterElse hole _ hjumps, List.length_append, length_afterElse]
  rfl

/-! ### Statements -/

section Statements

variable {input path : Str} {s : Parsing J} {fuel : ℕ} {word : Token} {inner after : List Token}

omit [NlohmannJson J] in
/-- Filling in holes, before what comes next. -/
theorem run_patches_bind {α : Type} (target : ℕ) (holes : List ℕ) (f : Unit → ParseM J α) (s : Parsing J)
    (w : Writing J) : (holes.forM (patch target) >>= f).run (s.write w)
      = (f ()).run (s.write (w.map (patchAll (Bytecode.aim target) holes))) := by
  induction holes generalizing w with
  | nil => rfl
  | cons i holes ih =>
    rw [List.forM_eq_forM, List.forM_cons, bind_assoc]
    exact ih (w.map fun bcs => bcs.modify i (Bytecode.aim target))

/-- The writing when the branch of a conditional is open: the hole is in its conditional jump. -/
def Writing.openBranch (w : Writing J) (jumps : List ℕ) (ifs : List IfData) : Writing J :=
  { w with
    bytecodes := w.bytecodes ++ [{ op := .conditionalJump, value := null }]
    ifStack := ⟨some w.bytecodes.length, jumps⟩ :: ifs }

/-- The writing when a loop is open. -/
def Writing.openLoop (w : Writing J) (key value : Str) : Writing J :=
  { w with
    bytecodes := w.bytecodes ++ [{ op := .startLoop, value := keyValue key, str := value }]
    loopStack := w.bytecodes.length :: w.loopStack }

/-- The writing when a conditional is closed: every jump that waits goes to what comes next. -/
def Writing.closeBranch (w : Writing J) (branch : IfData) (ifs : List IfData) : Writing J :=
  { w with
    bytecodes := patchAll (Bytecode.aim w.bytecodes.length) branch.uncondJumps
      (patchAll (Bytecode.aim w.bytecodes.length) branch.prevCondJump.toList w.bytecodes)
    ifStack := ifs }

/-- The writing when a loop is closed. -/
def Writing.closeLoop (w : Writing J) (start : ℕ) (loops : List ℕ) : Writing J :=
  { w with
    bytecodes := w.bytecodes.modify start (Bytecode.aim w.bytecodes.length)
      ++ [{ op := .endLoop, args := start + 1, value := null }]
    loopStack := loops }

theorem parseIf_accepts {e : Expr J} (he : Derives input .disjunction inner e after)
    (hs : s.Ready input (word :: inner)) (hf : s.measure < fuel) {w : Writing J}
    (hswap : e.swappable w.bytecodes = true) :
    ∃ t, s.After after t ∧ (parseIf fuel).run (s.write w)
      = .ok (true, t.write ((w.map e.emit).openBranch [] w.ifStack)) := by
  have hlt := hs.shows.measure_lt
  obtain ⟨t, ht, hrun⟩ := parseExpression_returns fuel he hs.next (by omega) hswap
  refine ⟨t, hs.shows.after.trans ht, ?_⟩
  rw [parseIf, run_nextToken_bind, run_bind_ok hrun]
  rfl

omit [NlohmannJson J] in
theorem parseEndif_accepts (hs : s.Ready input (word :: after)) {w : Writing J} {branch : IfData}
    {ifs : List IfData} (hw : w.ifStack = branch :: ifs) :
    ∃ t, s.After after t ∧
      (parseEndif : ParseM J Bool).run (s.write w) = .ok (true, t.write (w.closeBranch branch ifs)) := by
  refine ⟨s.nextToken, hs.shows.after, ?_⟩
  have hstack : (s.write w).ifStack = branch :: ifs := hw
  rw [parseEndif, run_get_bind, hstack]
  dsimp only
  rw [run_nextToken_bind, run_get_bind, run_patches_bind, run_patches_bind]
  rfl

/-- The writing when an `else` has ended a branch. -/
def Writing.openElse (w : Writing J) (hole : ℕ) (jumps : List ℕ) (ifs : List IfData) : Writing J :=
  { w with
    bytecodes := afterElse hole w.bytecodes
    ifStack := ⟨none, jumps ++ [w.bytecodes.length]⟩ :: ifs }

omit [NlohmannJson J] in
@[simp] theorem write_bytecodes (s : Parsing J) (w : Writing J) : (s.write w).tmpl.bytecodes = w.bytecodes := rfl

/-- The jump at the end of the branch before an `else`, and the target of the conditional jump. -/
theorem run_else (m : ParseM J Bool) {hole : ℕ} (jumps : List ℕ) (ifs : List IfData) {w : Writing J}
    (hhole : hole < w.bytecodes.length) (s : Parsing J) :
    StateT.run (do
      emit { op := .jump, value := null }
      patch (w.bytecodes.length + 1) hole
      modify fun s : Parsing J => { s with ifStack := ⟨none, jumps ++ [w.bytecodes.length]⟩ :: ifs }
      m) (s.write w) = m.run (s.write (w.openElse hole jumps ifs)) := by
  rw [emit, run_bytecodes_bind, patch, run_bytecodes_bind, Writing.openElse, afterElse, ← modify_append hhole]
  rfl

theorem parseElse_accepts (fuel : ℕ) (hs : s.Ready input (word :: after)) (hnot : after.head?.any (·.isWord "if") = false)
    {w : Writing J} {hole : ℕ} {jumps : List ℕ} {ifs : List IfData} (hw : w.ifStack = ⟨some hole, jumps⟩ :: ifs)
    (hhole : hole < w.bytecodes.length) :
    ∃ t, s.After after t ∧ (parseElse fuel).run (s.write w) = .ok (true, t.write (w.openElse hole jumps ifs)) := by
  refine ⟨s.nextToken, hs.shows.after, ?_⟩
  have hstack : (s.write w).ifStack = ⟨some hole, jumps⟩ :: ifs := hw
  rw [parseElse, run_get_bind, hstack]
  dsimp only
  rw [run_nextToken_bind, run_get_bind]
  refine (run_else _ jumps ifs hhole s.nextToken).trans ?_
  rw [run_get_bind, write_tok, hs.next.shows.isWord, hnot]
  rfl

theorem parseElseIf_accepts {word' : Token} {e : Expr J} (he : Derives input .disjunction inner e after)
    (hword' : word'.isWord "if") (hs : s.Ready input (word :: word' :: inner)) (hf : s.measure < fuel)
    {w : Writing J} {hole : ℕ} {jumps : List ℕ} {ifs : List IfData} (hw : w.ifStack = ⟨some hole, jumps⟩ :: ifs)
    (hhole : hole < w.bytecodes.length) :
    ∃ t, s.After after t ∧ (parseElse fuel).run (s.write w) = .ok (true, t.write
      (((w.openElse hole jumps ifs).map e.emit).openBranch (jumps ++ [w.bytecodes.length]) ifs)) := by
  have hlt := hs.shows.measure_lt
  have hlt' := hs.next.shows.measure_lt
  have hswap : e.swappable (w.openElse hole jumps ifs).bytecodes = true :=
    swappable_of_ne_nil e (List.concat_ne_nil _ _)
  obtain ⟨t, ht, hrun⟩ := parseExpression_returns fuel he hs.next.next (by omega) hswap
  refine ⟨t, (hs.shows.after.trans hs.next.shows.after).trans ht, ?_⟩
  have hstack : (s.write w).ifStack = ⟨some hole, jumps⟩ :: ifs := hw
  rw [parseElse, run_get_bind, hstack]
  dsimp only
  rw [run_nextToken_bind, run_get_bind]
  refine (run_else _ jumps ifs hhole s.nextToken).trans ?_
  rw [run_get_bind, write_tok, hs.next.shows.1, if_pos hword', run_nextToken_bind, run_bind_ok hrun]
  rfl

omit [NlohmannJson J] in
theorem run_expectId_bind {α : Type} {tok : Token} (hid : tok.kind = .id) (htok : s.tok = tok)
    (f : Token → ParseM J α) (w : Writing J) :
    ((expectId : ParseM J Token) >>= f).run (s.write w) = (f tok).run (s.write w) := by
  refine run_bind_ok ?_
  rw [expectId, run_get_bind, write_tok, htok, if_pos hid]
  rfl

omit [NlohmannJson J] in
theorem parseForNames_accepts {names rest : List Token} {key value : Str} (h : LoopNames names key value rest)
    (hs : s.Ready input names) :
    ∃ t, s.After rest t ∧ ∀ w, (parseForNames : ParseM J (Str × Str)).run (s.write w)
      = .ok ((key, value), t.write w) := by
  cases h with
  | @value name rest hname hcomma =>
    refine ⟨s.nextToken, hs.shows.after, fun w => ?_⟩
    have hkind : s.nextToken.tok.kind ≠ .comma := by rw [hs.next.shows.kind]; exact hcomma
    rw [parseForNames, run_expectId_bind hname hs.shows.1, run_nextToken_bind, run_get_bind, write_tok,
      if_neg hkind]
    rfl
  | @keyValue key comma name rest hkey hcomma hname =>
    have hready := hs.next.next
    refine ⟨_, (hs.shows.after.trans hs.next.shows.after).trans hready.shows.after, fun w => ?_⟩
    have hkind : s.nextToken.tok.kind = .comma := by rw [hs.next.shows.1, hcomma]
    rw [parseForNames, run_expectId_bind hkey hs.shows.1, run_nextToken_bind, run_get_bind, write_tok,
      if_pos hkind, run_nextToken_bind, run_expectId_bind hname hready.shows.1, run_nextToken_bind]
    rfl

theorem parseFor_accepts {inWord : Token} {names : List Token} {key value : Str} {e : Expr J}
    (hnames : LoopNames names key value (inWord :: inner)) (hin : inWord.isWord "in")
    (he : Derives input .disjunction inner e after) (hs : s.Ready input (word :: names)) (hf : s.measure < fuel)
    {w : Writing J} (hswap : e.swappable w.bytecodes = true) :
    ∃ t, s.After after t ∧ (parseFor fuel).run (s.write w)
      = .ok (true, t.write ((w.map e.emit).openLoop key value)) := by
  have hlt := hs.shows.measure_lt
  obtain ⟨t, ht, hrun⟩ := parseForNames_accepts hnames hs.next
  have hready := hs.next.of_after ht
  have hle := ht.measure_le
  have hlt' := hready.shows.measure_lt
  obtain ⟨u, hu, hrun'⟩ := parseExpression_returns fuel he hready.next (by omega) hswap
  refine ⟨u, (hs.shows.after.trans ht).trans (hready.shows.after.trans hu), ?_⟩
  rw [parseFor, run_nextToken_bind, run_bind_ok (hrun w), run_get_bind, write_tok, ht.shows.1, if_pos hin,
    run_nextToken_bind, run_bind_ok hrun']
  rfl

theorem parseEndfor_accepts (hs : s.Ready input (word :: after)) {w : Writing J} {start : ℕ} {loops : List ℕ}
    (hw : w.loopStack = start :: loops) :
    ∃ t, s.After after t ∧
      (parseEndfor : ParseM J Bool).run (s.write w) = .ok (true, t.write (w.closeLoop start loops)) := by
  refine ⟨s.nextToken, hs.shows.after, ?_⟩
  have hstack : (s.nextToken.write w).loopStack = start :: loops := hw
  rw [parseEndfor, run_nextToken_bind, run_get_bind, hstack]
  rfl

end Statements

/-- The word a statement begins with decides. -/
theorem run_parseStatement {path : Str} {s : Parsing J} {fuel : ℕ} {w : Writing J} {word : Token} {name : Str}
    (into : Str → ParseM J Unit) (htok : s.tok = word) (hword : word.isWord name) :
    (parseStatement into fuel path).run (s.write w) =
      StateT.run (if name = "if" then parseIf fuel
        else if name = "endif" then parseEndif
        else if name = "else" then parseElse fuel
        else if name = "for" then parseFor fuel
        else if name = "endfor" then parseEndfor
        else if name = "include" then parseInclude into path
        else pure false) (s.write w) := by
  rw [parseStatement, run_get_bind]
  simp only [write_tok, htok, isWord_eq hword, decide_eq_true_eq]

/-! ### The loop of `parse_into` -/

/-- A round takes the parser from the tokens `toks` to the tokens `rest`, and from having written `w` to `w'`. -/
def Turns (input path : Str) (toks rest : List Token) (w w' : Writing J) : Prop :=
  ∀ fuel (s : Parsing J), s.Ready input toks → s.measure < fuel →
    ∃ t : Parsing J, t.measure ≤ s.measure ∧ t.nextToken.Ready input rest ∧
      (parseBlock (parseInto fuel) fuel path).run (s.write w) = .ok ((), t.write w')

/-- The loop that ends with `r` comes to the tokens `toks` with `w` written. -/
def Comes (input path : Str) (r : Except (Option Stop) (Unit × Parsing J)) (toks : List Token)
    (w : Writing J) : Prop :=
  ∃ (fuel : ℕ) (s : Parsing J), s.measure < fuel ∧ s.nextToken.Ready input toks ∧
    (parseInto fuel path).run (s.write w) = r

variable {input path : Str} {r : Except (Option Stop) (Unit × Parsing J)} {toks inner after rest : List Token}
  {w w' : Writing J}

/-- A text. -/
theorem text_turns {tok : Token} (htok : tok.kind = .text) (w : Writing J) :
    Turns input path (tok :: rest) rest w
      (w.map fun bcs => bcs ++ [{ op := .printText, value := null, str := tok.text }]) := by
  refine fun fuel s hs _ => ⟨s, Nat.le_refl _, hs.next, ?_⟩
  rw [parseBlock, run_get_bind]
  simp only [write_tok, hs.shows.1, htok]
  rfl

/-- An expression between braces. -/
theorem print_turns {opening close : Token} {e : Expr J} (hopening : opening.kind = .expressionOpen)
    (he : Derives input .disjunction toks e (close :: rest)) (hclose : close.kind = .expressionClose)
    (hswap : e.swappable w.bytecodes = true) :
    Turns input path (opening :: toks) rest w (w.map fun bcs => withFunction .printValue 1 (e.emit bcs)) := by
  intro fuel s hs hfuel
  have hlt := hs.shows.measure_lt
  obtain ⟨t, ht, hrun⟩ := parseExpression_returns fuel he hs.next (by omega) hswap
  have hle := ht.measure_le
  refine ⟨t, by omega, (hs.next.of_after ht).next, ?_⟩
  rw [parseBlock, run_get_bind]
  simp only [write_tok, hs.shows.1, hopening]
  rw [run_nextToken_bind, run_bind_ok hrun]
  simp only [if_true]
  rw [appendFunction_eq, run_bytecodes_bind, run_get_bind, write_tok, ht.shows.1, if_pos hclose,
    Writing.map_map]
  rfl

/-- A comment leaves nothing behind. -/
theorem comment_turns {opening close : Token} (hopening : opening.kind = .commentOpen)
    (hclose : close.kind = .commentClose) (w : Writing J) :
    Turns input path (opening :: close :: rest) rest w w := by
  intro fuel s hs _
  have hlt := hs.shows.measure_lt
  refine ⟨s.nextToken, by omega, hs.next.next, ?_⟩
  rw [parseBlock, run_get_bind]
  simp only [write_tok, hs.shows.1, hopening]
  rw [run_nextToken_bind, run_get_bind, write_tok, hs.next.shows.1, if_pos hclose]
  rfl

/-- A statement between its delimiters. -/
theorem statement_turns (hstatement : Statement toks inner after rest)
    (hinner : ∀ fuel (s : Parsing J), s.Ready input inner → s.measure < fuel →
      ∃ t, s.After after t ∧
        (parseStatement (parseInto fuel) fuel path).run (s.write w) = .ok (true, t.write w')) :
    Turns input path toks rest w w' := by
  obtain ⟨opening, rfl, hclosing⟩ := hstatement
  intro fuel s hs hfuel
  have hlt := hs.shows.measure_lt
  obtain ⟨t, ht, hrun⟩ := hinner fuel s.nextToken hs.next (by omega)
  have hle := ht.measure_le
  have hready := hs.next.of_after ht
  refine ⟨t, by omega, ?_, ?_⟩
  · rcases hclosing with ⟨-, close, rfl, -⟩ | ⟨-, ⟨close, rfl, -⟩ | ⟨rfl, rfl⟩⟩
    · exact hready.next
    · exact hready.next
    · exact ⟨hready.shows.nil_next, nextToken_peekTok t, (nextToken_below t).input.trans hready.lexer,
        by rw [nextToken_content]; exact hready.content⟩
  · rcases hclosing with ⟨hopening, close, rfl, hclose⟩ | ⟨hopening, hclosing⟩
    · rw [parseBlock, run_get_bind]
      simp only [write_tok, hs.shows.1, hopening]
      rw [run_nextToken_bind, run_bind_ok hrun, run_get_bind]
      simp only [if_true, write_tok, ht.shows.1, hclose]
      rfl
    · have hkind : t.tok.kind = .lineStatementClose ∨ t.tok.kind = .eof := by
        rcases hclosing with ⟨close, rfl, hclose⟩ | ⟨rfl, rfl⟩
        · exact Or.inl (by rw [ht.shows.1, hclose])
        · exact Or.inr ht.shows.kind
      rw [parseBlock, run_get_bind]
      simp only [write_tok, hs.shows.1, hopening]
      rw [run_nextToken_bind, run_bind_ok hrun, run_get_bind]
      rw [write_tok, if_pos hkind]
      rfl

/-- A round of the loop. -/
theorem Comes.turn {tok : Token} (h : Comes input path r (tok :: toks) w)
    (hturns : Turns input path (tok :: toks) rest w w') : Comes input path r rest w' := by
  obtain ⟨fuel, s, hfuel, hs, rfl⟩ := h
  obtain ⟨fuel, rfl⟩ := Nat.exists_eq_succ_of_ne_zero (Nat.ne_of_gt (Nat.zero_lt_of_lt hfuel))
  have hne : s.nextToken.tok.kind ≠ .eof := by
    rw [hs.shows.1]
    exact hs.shows.2.1
  have hlt : s.nextToken.measure < fuel := by
    have := (nextToken_lt s).resolve_left hne
    omega
  obtain ⟨t, hle, ht, hrun⟩ := hturns fuel s.nextToken hs hlt
  refine ⟨fuel, t, Nat.lt_of_le_of_lt hle hlt, ht, ?_⟩
  rw [parseInto, run_nextToken_bind, run_get_bind, write_tok, if_neg hne, run_bind_ok hrun]

/-- A statement is a round. -/
theorem Comes.statement (h : Comes input path r toks w) (hstatement : Statement toks inner after rest)
    (hinner : ∀ fuel (s : Parsing J), s.Ready input inner → s.measure < fuel →
      ∃ t, s.After after t ∧
        (parseStatement (parseInto fuel) fuel path).run (s.write w) = .ok (true, t.write w')) :
    Comes input path r rest w' := by
  have hturns : Turns input path toks rest w w' := statement_turns hstatement hinner
  obtain ⟨opening, rfl, -⟩ := hstatement
  exact h.turn hturns

/-- At the end of the text the loop ends. -/
theorem Comes.eof (h : Comes input path r [] w) (hif : w.ifStack = []) (hloop : w.loopStack = []) :
    ∃ u : Parsing J, u.tmpl.content = input ∧ r = .ok ((), u.write w) := by
  obtain ⟨fuel, s, hfuel, hs, rfl⟩ := h
  obtain ⟨fuel, rfl⟩ := Nat.exists_eq_succ_of_ne_zero (Nat.ne_of_gt (Nat.zero_lt_of_lt hfuel))
  have heof : s.nextToken.tok.kind = .eof := hs.shows.kind
  have hif' : (s.nextToken.write w).ifStack = [] := hif
  have hloop' : (s.nextToken.write w).loopStack = [] := hloop
  refine ⟨s.nextToken, hs.content, ?_⟩
  rw [parseInto, run_nextToken_bind, run_get_bind, write_tok, if_pos heof, if_neg (not_not.mpr hif'),
    if_neg (not_not.mpr hloop')]
  rfl

/-! ### The parts of a template -/

omit [NlohmannJson J] in
theorem Writing.map_congr {f g : List (Bytecode J) → List (Bytecode J)} (h : f w.bytecodes = g w.bytecodes) :
    w.map f = w.map g := by
  simp only [Writing.map, h]

theorem code_conditional (condition : Expr J) (body : Tree J) (other : Option (Tree J)) (next : Tree J) (pos : ℕ) :
    (Tree.conditional condition body other next).code pos
      = (Tree.conditional condition body other .nil).code pos
        ++ next.code (pos + ((Tree.conditional condition body other .nil).code pos).length) := by
  cases other with
  | none =>
    simp only [Tree.conditional, Tree.code, List.append_nil, List.length_append, List.length_singleton,
      Nat.add_assoc]
  | some other =>
    simp only [Tree.conditional, Tree.code, List.append_nil, List.length_append, List.length_singleton,
      Nat.add_assoc]

theorem compilable_conditional (condition : Expr J) (body : Tree J) (other : Option (Tree J)) (next : Tree J) :
    (Tree.conditional condition body other next).compilable
      = (condition.compilable && body.compilable && other.all Tree.compilable && next.compilable) := by
  cases other with
  | none => simp only [Tree.conditional, Tree.compilable, Option.all_none, Bool.and_true]
  | some other => rfl

/-- What the loop makes of a part, the tokens of which are followed by `rest`. -/
def Part.Accepted (input path : Str) (r : Except (Option Stop) (Unit × Parsing J)) (toks rest : List Token) :
    Part J → Prop
  | .blocks t => ∀ w : Writing J, t.compilable = true → Ended w.bytecodes → Comes input path r toks w →
      Comes input path r rest (w.map fun bcs => bcs ++ t.code bcs.length)
  | .tail other => ∀ (w : Writing J) (hole : ℕ) (jumps : List ℕ) (ifs : List IfData),
      other.all Tree.compilable = true → w.ifStack = ⟨some hole, jumps⟩ :: ifs → hole < w.bytecodes.length →
      (∀ j ∈ jumps, j < w.bytecodes.length) → Comes input path r toks w →
      Comes input path r rest
        { w with bytecodes := finish other hole jumps w.bytecodes, ifStack := ifs }

/-- The bytecode of a whole expression behind a part that has ended. -/
theorem emit_ended {e : Expr J} (he : e.compilable = true) {bcs : List (Bytecode J)} (h : Ended bcs) :
    e.emit bcs = bcs ++ e.code := emit_eq e he bcs fun _ => h.settled

/-- A part and then the parts behind it. -/
theorem Comes.next {code : List (Bytecode J)} {t part : Tree J}
    (ih : (Part.blocks t).Accepted input path r toks rest) (hc : t.compilable = true)
    (h : Comes input path r toks (w.map fun bcs => bcs ++ code)) (hended : Ended (w.bytecodes ++ code))
    (hcode : part.code w.bytecodes.length = code ++ t.code (w.bytecodes.length + code.length)) :
    Comes input path r rest (w.map fun bcs => bcs ++ part.code bcs.length) := by
  have hnext := ih _ hc hended h
  rw [Writing.map_map] at hnext
  have hmap : (w.map fun bcs => bcs ++ part.code bcs.length)
      = w.map fun bcs => bcs ++ code ++ t.code (bcs ++ code).length :=
    Writing.map_congr (by rw [hcode, List.length_append, List.append_assoc])
  rw [hmap]
  exact hnext

theorem accepted_text {tok : Token} {t : Tree J} (htok : tok.kind = .text)
    (ih : (Part.blocks t).Accepted input path r toks rest) :
    (Part.blocks (.text tok.text t)).Accepted input path r (tok :: toks) rest :=
  fun w hc _ h => Comes.next ih hc (h.turn (text_turns htok w)) (ended_concat (by simp)) rfl

theorem accepted_print {opening close : Token} {toks' : List Token} {e : Expr J} {t : Tree J}
    (hopening : opening.kind = .expressionOpen) (he : Derives input .disjunction toks e (close :: toks'))
    (hclose : close.kind = .expressionClose) (ih : (Part.blocks t).Accepted input path r toks' rest) :
    (Part.blocks (.print e t)).Accepted input path r (opening :: toks) rest := by
  intro w hc hended h
  simp only [Tree.compilable, Bool.and_eq_true] at hc
  have hemit : w.map (fun bcs => withFunction .printValue 1 (e.emit bcs))
      = w.map fun bcs => bcs ++ withFunction .printValue 1 e.code :=
    Writing.map_congr (by rw [emit_ended hc.1 hended, withFunction_append (code_ne_nil e)])
  have hprint := h.turn (print_turns hopening he hclose (swappable_of_compilable e hc.1 _))
  rw [hemit] at hprint
  have hended' : Ended (w.bytecodes ++ withFunction .printValue 1 e.code) := by
    have := ended_code (.print e .nil) w.bytecodes.length hended
    simpa only [Tree.code, List.append_nil] using this
  exact Comes.next ih hc.2 hprint hended' rfl

theorem accepted_conditional {word : Token} {body tail next : List Token} {e : Expr J} {b t : Tree J}
    {other : Option (Tree J)} (hstatement : Statement toks (word :: inner) after body)
    (hword : word.isWord "if") (he : Derives input .disjunction inner e after)
    (ihb : (Part.blocks b).Accepted input path r body tail)
    (iht : (Part.tail other).Accepted input path r tail next)
    (ihn : (Part.blocks t).Accepted input path r next rest) :
    (Part.blocks (.conditional e b other t)).Accepted input path r toks rest := by
  intro w hc hended h
  rw [compilable_conditional] at hc
  simp only [Bool.and_eq_true] at hc
  obtain ⟨⟨⟨hce, hcb⟩, hco⟩, hct⟩ := hc
  have hbody : Comes input path r body ((w.map e.emit).openBranch [] w.ifStack) := by
    refine h.statement hstatement fun fuel s hs hfuel => ?_
    obtain ⟨t, ht, hrun⟩ := parseIf_accepts he hs hfuel (swappable_of_compilable e hce _)
    exact ⟨t, ht, (run_parseStatement _ hs.shows.1 hword).trans hrun⟩
  have htail := ihb _ hcb (ended_concat (by simp)) hbody
  have hnext := iht _ (e.emit w.bytecodes).length [] w.ifStack hco rfl
    (by simp [Writing.map, Writing.openBranch]) (by simp) htail
  have hwritten : { ((w.map e.emit).openBranch [] w.ifStack).map fun bcs => bcs ++ b.code bcs.length with
        bytecodes := finish other (e.emit w.bytecodes).length [] (((w.map e.emit).openBranch [] w.ifStack).map
          fun bcs => bcs ++ b.code bcs.length).bytecodes
        ifStack := w.ifStack }
      = w.map fun bcs => bcs ++ (Tree.conditional e b other .nil).code w.bytecodes.length := by
    simp only [Writing.map, Writing.openBranch, emit_ended hce hended, List.length_append, List.length_singleton]
    rw [← finish_conditional, List.length_append]
  rw [hwritten] at hnext
  exact Comes.next ihn hct hnext (ended_code _ _ hended) (code_conditional e b other t _)

/-- **A loop**: its end fills in the hole at its start. -/
theorem finish_loop (key value : Str) (values : Expr J) (body : Tree J) (bcs : List (Bytecode J)) :
    (bcs ++ values.code ++ [({ op := .startLoop, value := keyValue key, str := value } : Bytecode J)]
        ++ body.code (bcs.length + values.code.length + 1)).modify (bcs ++ values.code).length
          (Bytecode.aim (bcs.length + values.code.length + 1
            + (body.code (bcs.length + values.code.length + 1)).length))
        ++ [{ op := .endLoop, args := bcs.length + values.code.length + 1, value := null }]
      = bcs ++ (Tree.loop key value values body .nil).code bcs.length := by
  rw [List.append_assoc (bcs ++ values.code), List.singleton_append, modify_length,
    List.append_cons (bcs ++ values.code)]
  simp only [Tree.code, List.append_nil, ← List.append_assoc]
  rfl

theorem accepted_loop {word inWord word' : Token} {names body tail after' next : List Token} {key value : Str}
    {e : Expr J} {b t : Tree J} (hstatement : Statement toks (word :: names) after body)
    (hword : word.isWord "for") (hnames : LoopNames names key value (inWord :: inner))
    (hin : inWord.isWord "in") (he : Derives input .disjunction inner e after)
    (hend : Statement tail (word' :: after') after' next) (hword' : word'.isWord "endfor")
    (ihb : (Part.blocks b).Accepted input path r body tail)
    (ihn : (Part.blocks t).Accepted input path r next rest) :
    (Part.blocks (.loop key value e b t)).Accepted input path r toks rest := by
  intro w hc hended h
  simp only [Tree.compilable, Bool.and_eq_true] at hc
  obtain ⟨⟨hce, hcb⟩, hct⟩ := hc
  have hbody : Comes input path r body ((w.map e.emit).openLoop key value) := by
    refine h.statement hstatement fun fuel s hs hfuel => ?_
    obtain ⟨t, ht, hrun⟩ := parseFor_accepts hnames hin he hs hfuel (swappable_of_compilable e hce _)
    exact ⟨t, ht, (run_parseStatement _ hs.shows.1 hword).trans hrun⟩
  have htail := ihb _ hcb (ended_concat (by simp)) hbody
  have hnext := htail.statement hend fun fuel s hs _ => by
    obtain ⟨t, ht, hrun⟩ := parseEndfor_accepts hs (w := ((w.map e.emit).openLoop key value).map
      fun bcs => bcs ++ b.code bcs.length) rfl
    exact ⟨t, ht, (run_parseStatement _ hs.shows.1 hword').trans hrun⟩
  have hwritten := finish_loop key value e b w.bytecodes
  simp only [Writing.map, Writing.openLoop, Writing.closeLoop, emit_ended hce hended, List.length_append,
    List.length_singleton] at hnext hwritten
  rw [hwritten] at hnext
  refine Comes.next ihn hct hnext (ended_code _ _ hended) ?_
  simp only [Tree.code, List.append_nil, List.length_append, List.length_singleton, Nat.add_assoc]

theorem accepted_endif {word : Token} (hstatement : Statement toks (word :: after) after rest)
    (hword : word.isWord "endif") : (Part.tail (none : Option (Tree J))).Accepted input path r toks rest := by
  intro w hole jumps ifs _ hw _ _ h
  refine h.statement hstatement fun fuel s hs _ => ?_
  obtain ⟨t, ht, hrun⟩ := parseEndif_accepts hs hw
  exact ⟨t, ht, (run_parseStatement _ hs.shows.1 hword).trans hrun⟩

theorem accepted_else {word word' : Token} {body tail after' : List Token} {b : Tree J}
    (hstatement : Statement toks (word :: after) after body) (hword : word.isWord "else")
    (hend : Statement tail (word' :: after') after' rest) (hword' : word'.isWord "endif")
    (ihb : (Part.blocks b).Accepted input path r body tail) :
    (Part.tail (some b)).Accepted input path r toks rest := by
  intro w hole jumps ifs hc hw hhole hjumps h
  have hbody : Comes input path r body (w.openElse hole jumps ifs) := by
    refine h.statement hstatement fun fuel s hs _ => ?_
    obtain ⟨t, ht, hrun⟩ := parseElse_accepts fuel hs (hstatement.not_word "if") hw hhole
    exact ⟨t, ht, (run_parseStatement _ hs.shows.1 hword).trans hrun⟩
  have htail := ihb _ hc (ended_concat (by simp)) hbody
  have hlast := htail.statement hend fun fuel s hs _ => by
    obtain ⟨t, ht, hrun⟩ := parseEndif_accepts hs (w := (w.openElse hole jumps ifs).map
      fun bcs => bcs ++ b.code bcs.length) rfl
    exact ⟨t, ht, (run_parseStatement _ hs.shows.1 hword').trans hrun⟩
  have hwritten := finish_else b hole hjumps
  simp only [Writing.map, Writing.openElse, Writing.closeBranch, length_afterElse, Option.toList_none]
    at hlast hwritten
  rw [← hwritten]
  exact hlast

theorem accepted_elseIf {word word' : Token} {body tail : List Token} {e : Expr J} {b : Tree J}
    {other : Option (Tree J)} (hstatement : Statement toks (word :: word' :: inner) after body)
    (hword : word.isWord "else") (hword' : word'.isWord "if") (he : Derives input .disjunction inner e after)
    (ihb : (Part.blocks b).Accepted input path r body tail)
    (iht : (Part.tail other).Accepted input path r tail rest) :
    (Part.tail (some (.conditional e b other .nil))).Accepted input path r toks rest := by
  intro w hole jumps ifs hc hw hhole hjumps h
  rw [Option.all_some, compilable_conditional] at hc
  simp only [Bool.and_eq_true] at hc
  obtain ⟨⟨⟨hce, hcb⟩, hco⟩, -⟩ := hc
  have hbody : Comes input path r body
      (((w.openElse hole jumps ifs).map e.emit).openBranch (jumps ++ [w.bytecodes.length]) ifs) := by
    refine h.statement hstatement fun fuel s hs hfuel => ?_
    obtain ⟨t, ht, hrun⟩ := parseElseIf_accepts he hword' hs hfuel hw hhole
    exact ⟨t, ht, (run_parseStatement _ hs.shows.1 hword).trans hrun⟩
  have htail := ihb _ hcb (ended_concat (by simp)) hbody
  have hended : Ended (afterElse hole w.bytecodes) := ended_concat (by simp)
  have hlast := iht _ (e.emit (afterElse hole w.bytecodes)).length (jumps ++ [w.bytecodes.length]) ifs hco rfl
    (by simp [Writing.map, Writing.openBranch, Writing.openElse]) ?_ htail
  · have hwritten := finish_elseIf e b other hole hjumps
    simp only [Writing.map, Writing.openElse, Writing.openBranch, emit_ended hce hended, List.length_append,
      List.length_singleton] at hlast hwritten
    rw [← hwritten]
    exact hlast
  · intro j hj
    simp only [Writing.map, Writing.openElse, Writing.openBranch, emit_ended hce hended, List.length_append,
      length_afterElse]
    rcases List.mem_append.mp hj with hj | hj
    · have := hjumps j hj
      omega
    · obtain rfl := List.mem_singleton.mp hj
      omega

/-- **What the grammar derives the parser accepts**, with the bytecode of the parts derived; by induction on the
derivation. -/
theorem parses_accepted {part : Part J} (h : Parses input toks part rest) :
    part.Accepted input path r toks rest := by
  induction h with
  | nil =>
    intro w _ _ h
    have hnil : (w.map fun bcs => bcs ++ (Tree.nil : Tree J).code bcs.length) = w := by
      simp [Writing.map, Tree.code]
    rw [hnil]
    exact h
  | text htok _ ih => exact accepted_text htok ih
  | print hopening he hclose _ ih => exact accepted_print hopening he hclose ih
  | comment hopening hclose _ ih => exact fun w hc hended h => ih w hc hended (h.turn (comment_turns hopening hclose w))
  | conditional hstatement hword he _ _ _ ihb iht ihn =>
    exact accepted_conditional hstatement hword he ihb iht ihn
  | loop hstatement hword hnames hin he _ hend hword' _ ihb ihn =>
    exact accepted_loop hstatement hword hnames hin he hend hword' ihb ihn
  | endif hstatement hword => exact accepted_endif hstatement hword
  | «else» hstatement hword _ hend hword' ihb => exact accepted_else hstatement hword hend hword' ihb
  | elseIf hstatement hword hword' he _ _ ihb iht =>
    exact accepted_elseIf hstatement hword hword' he ihb iht

/-- The parse of a text begins at its first token. -/
theorem parse_comes {p : Parser J} (hp : p.Idle) (input : Str) :
    Comes input "./" ((parseInto (parseFuel input) "./").run (p.begin input)) (tokens input)
      { bytecodes := [], ifStack := [], loopStack := [] } := by
  refine ⟨parseFuel input, p.begin input, begin_measure p input, begin_ready hp.peekTok input, ?_⟩
  have hwrite : (p.begin input).write { bytecodes := [], ifStack := [], loopStack := [] } = p.begin input := by
    simp [Parsing.write, Parser.begin, hp.ifStack, hp.loopStack]
  rw [hwrite]

/-- The parse that comes to the end of the text, with no block open, returns what it has written. -/
theorem parse_eq_written {p : Parser J} {input : Str}
    (h : Comes input "./" ((parseInto (parseFuel input) "./").run (p.begin input)) [] w) (hif : w.ifStack = [])
    (hloop : w.loopStack = []) : ∃ q, p.parse input = .ok (⟨w.bytecodes, input⟩, q) := by
  obtain ⟨u, hcontent, hrun⟩ := h.eof hif hloop
  have hset := (settle_eq_ok (begin_ne_none p input) _).mpr hrun
  have htmpl : (⟨w.bytecodes, input⟩ : Template J) = ⟨w.bytecodes, u.tmpl.content⟩ := by rw [hcontent]
  rw [Parser.parse, hset, htmpl]
  exact ⟨_, rfl⟩

/-- **A text that is a template is parsed to the bytecode of its tree.** -/
theorem parse_eq_code {p : Parser J} (hp : p.Idle) {input : Str} {t : Tree J} (h : IsTemplate input t)
    (hc : t.compilable = true) : ∃ q, p.parse input = .ok (⟨t.code 0, input⟩, q) :=
  parse_eq_written (parses_accepted h _ hc ended_nil (parse_comes hp input)) rfl rfl

end EnvoyWasmFilters.Inja
