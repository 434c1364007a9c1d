import EnvoyWasmFilters.Inja.ExpressionSoundness
import EnvoyWasmFilters.Inja.Meaning
import EnvoyWasmFilters.Inja.Nesting
import EnvoyWasmFilters.Inja.Rounds
import EnvoyWasmFilters.Inja.TemplateParsing

/-!
# What the parser accepts is a template

The parser keeps the open conditionals and the open loops on two stacks, so that it accepts blocks that overlap: a loop
that begins inside of a conditional may end behind it.  Where they do not overlap, what it accepts is a template.  At
the beginning of a template a `default` may find nothing to exchange: there the parser is undefined, and accepts nothing.

* `Item.open` — what an item does to the two stacks;
* `parseStatement_accepts`, `parseStatement_sound`, and the same of a round — the parser takes exactly the items;
* `nests` — the blocks of a list of tokens do not overlap;
* `parse_accepts_iff` — **the parser accepts such a text if and only if it is a template**, and its first expression has
  arguments to exchange.
-/

namespace EnvoyWasmFilters.Inja

open Backpatch StateExcept

/-! ### The open blocks of the parser -/

/-- The open conditionals, with whether another branch may come, and the number of open loops. -/
structure Opened where
  branches : List Bool
  loops : ℕ

variable {J : Type}

/-- The open blocks of a parser. -/
def Writing.opened (w : Writing J) : Opened :=
  ⟨w.ifStack.map fun branch => branch.prevCondJump.isSome, w.loopStack.length⟩

/-- What an item does to the open blocks of the parser. -/
def Item.open : Item J → Opened → Option Opened
  | .comment, o | .text _, o | .print _, o => some o
  | .ifThen _, ⟨branches, loops⟩ => some ⟨true :: branches, loops⟩
  | .elseIf _, ⟨true :: branches, loops⟩ => some ⟨true :: branches, loops⟩
  | .else, ⟨true :: branches, loops⟩ => some ⟨false :: branches, loops⟩
  | .endif, ⟨_ :: branches, loops⟩ => some ⟨branches, loops⟩
  | .loop _ _ _, ⟨branches, loops⟩ => some ⟨branches, loops + 1⟩
  | .endfor, ⟨branches, loops + 1⟩ => some ⟨branches, loops⟩
  | _, _ => none

/-- What items do to them, one after the other. -/
def openAll : List (Item J) → Opened → Option Opened
  | [], o => some o
  | item :: items, o => (item.open o).bind (openAll items)

variable [NlohmannJson J] {input path : Str} {s u : Parsing J} {w : Writing J} {toks inner after rest : List Token}
  {item : Item J} {fuel : ℕ}

/-! ### Statements -/

/-- The writing at an `else`: the jump behind the branch before it, and the target of its conditional jump. -/
def Writing.turn (w : Writing J) (hole : ℕ) (jumps : List ℕ) (ifs : List IfData) : Writing J :=
  { w with
    bytecodes := (w.bytecodes ++ [({ op := .jump, value := NlohmannJson.null } : Bytecode J)]).modify hole
      (Bytecode.aim (w.bytecodes.length + 1))
    ifStack := ⟨none, jumps ++ [w.bytecodes.length]⟩ :: ifs }

/-- The branch `else`, up to the word behind it. -/
theorem run_parseElse {hole : ℕ} {jumps : List ℕ} {ifs : List IfData} (hw : w.ifStack = ⟨some hole, jumps⟩ :: ifs)
    (s : Parsing J) : (parseElse fuel).run (s.write w) =
      StateT.run (if s.nextToken.tok.isWord "if" then do
        getNextToken
        let ok ← parseExpression fuel
        if ok then do
          modify fun s : Parsing J => { s with
            ifStack := ⟨some s.tmpl.bytecodes.length, jumps ++ [w.bytecodes.length]⟩ :: ifs }
          emit { op := .conditionalJump, value := NlohmannJson.null }
          pure true
        else pure false
      else pure true) (s.nextToken.write (w.turn hole jumps ifs)) := by
  have hstack : (s.write w).ifStack = ⟨some hole, jumps⟩ :: ifs := hw
  rw [parseElse, run_get_bind, hstack]
  dsimp only
  rw [run_nextToken_bind, run_get_bind, emit, run_bytecodes_bind, patch, run_bytecodes_bind]
  rfl

omit [NlohmannJson J] in
theorem opened_cons {branch : IfData} {ifs : List IfData} (h : w.ifStack = branch :: ifs) :
    w.opened = ⟨branch.prevCondJump.isSome :: ifs.map fun branch => branch.prevCondJump.isSome, w.loopStack.length⟩ := by
  rw [Writing.opened, h, List.map_cons]

omit [NlohmannJson J] in
theorem opened_loop {start : ℕ} {loops : List ℕ} (h : w.loopStack = start :: loops) :
    w.opened = ⟨w.ifStack.map fun branch => branch.prevCondJump.isSome, loops.length + 1⟩ := by
  rw [Writing.opened, h, List.length_cons]

/-- An item has arguments to exchange if it does at the beginning. -/
theorem item_swappable_of_nil (item : Item J) {bcs : List (Bytecode J)} (h : bcs = [] → item.swappable [] = true) :
    item.swappable bcs = true := by
  cases item with
  | print value => exact swappable_of_nil value h
  | ifThen condition => exact swappable_of_nil condition h
  | loop key value values => exact swappable_of_nil values h
  | _ => rfl

theorem turn_bytecodes_ne_nil (w : Writing J) (hole : ℕ) (jumps : List ℕ) (ifs : List IfData) :
    (w.turn hole jumps ifs).bytecodes ≠ [] := by
  rw [← List.length_pos_iff, Writing.turn, List.length_modify, List.length_append]
  exact Nat.succ_pos _

omit [NlohmannJson J] in
/-- The end of a conditional only fills in holes. -/
theorem closeBranch_bytecodes (w : Writing J) (branch : IfData) (ifs : List IfData) :
    (w.closeBranch branch ifs).bytecodes = [] ↔ w.bytecodes = [] := by
  have hlength : (w.closeBranch branch ifs).bytecodes.length = w.bytecodes.length := by
    simp only [Writing.closeBranch, length_patchAll]
  rw [← List.length_eq_zero_iff, hlength, List.length_eq_zero_iff]

omit [NlohmannJson J] in
/-- Where another branch is admitted, the conditional on top of the stack has a jump that waits. -/
theorem opened_turn {o : Opened} (hitem : item = .else ∨ ∃ e, item = .elseIf e) (hopen : item.open w.opened = some o) :
    ∃ hole jumps ifs, w.ifStack = ⟨some hole, jumps⟩ :: ifs := by
  cases hif : w.ifStack with
  | nil =>
    rw [Writing.opened, hif] at hopen
    rcases hitem with rfl | ⟨e, rfl⟩ <;> cases hopen
  | cons branch ifs =>
    rw [opened_cons hif] at hopen
    obtain ⟨_ | hole, jumps⟩ := branch
    · rcases hitem with rfl | ⟨e, rfl⟩ <;> cases hopen
    · exact ⟨hole, jumps, ifs, rfl⟩

/-- What is written behind an item: nothing, if it appends nothing and nothing was there. -/
def Item.Leaves (item : Item J) (w w' : Writing J) : Prop := w'.bytecodes = [] ↔ item.silent = true ∧ w.bytecodes = []

omit [NlohmannJson J] in
theorem leaves_of_ne_nil {w' : Writing J} (hitem : item.silent = false) (hw : w'.bytecodes ≠ []) :
    item.Leaves w w' := by
  rw [Item.Leaves, hitem]
  exact ⟨fun h => absurd h hw, fun h => by cases h.1⟩

/-- **A statement is accepted** where the open blocks admit it and its expression has arguments to exchange. -/
theorem statement_accepted (path : Str) (h : Words input inner item after) {o : Opened}
    (hopen : item.open w.opened = some o) (hswap : item.swappable w.bytecodes = true) :
    ∃ w' : Writing J, w'.opened = o ∧ item.Leaves w w' ∧ ∀ (into : Str → ParseM J Unit) (fuel : ℕ) (s : Parsing J),
      s.Ready input inner → s.measure < fuel →
      ∃ t, s.After after t ∧ (parseStatement into fuel path).run (s.write w) = .ok (true, t.write w') := by
  cases h with
  | @ifThen word inner after e hword he =>
    refine ⟨(w.map e.emit).openBranch [] w.ifStack, Option.some.inj hopen,
      leaves_of_ne_nil rfl (List.concat_ne_nil _ _), fun into fuel s hs hf => ?_⟩
    obtain ⟨t, ht, hrun⟩ := parseIf_accepts he hs hf hswap
    exact ⟨t, ht, (run_parseStatement into hs.shows.1 hword).trans hrun⟩
  | endif hword =>
    cases hif : w.ifStack with
    | nil => simp [Writing.opened, hif, Item.open] at hopen
    | cons branch ifs =>
      rw [opened_cons hif] at hopen
      have hleaves : (Item.endif : Item J).Leaves w (w.closeBranch branch ifs) :=
        (closeBranch_bytecodes w branch ifs).trans (and_iff_right rfl).symm
      refine ⟨w.closeBranch branch ifs, Option.some.inj hopen, hleaves, fun into fuel s hs hf => ?_⟩
      obtain ⟨t, ht, hrun⟩ := parseEndif_accepts hs hif
      exact ⟨t, ht, (run_parseStatement into hs.shows.1 hword).trans hrun⟩
  | «else» hword hnot =>
    obtain ⟨hole, jumps, ifs, hif⟩ := opened_turn (Or.inl rfl) hopen
    rw [opened_cons hif] at hopen
    refine ⟨w.turn hole jumps ifs, Option.some.inj hopen,
      leaves_of_ne_nil rfl (turn_bytecodes_ne_nil w hole jumps ifs), fun into fuel s hs hf => ?_⟩
    have hrun : (parseElse fuel).run (s.write w) = .ok (true, s.nextToken.write (w.turn hole jumps ifs)) := by
      rw [run_parseElse hif, hs.next.shows.isWord, hnot]
      rfl
    exact ⟨_, hs.shows.after, (run_parseStatement into hs.shows.1 hword).trans hrun⟩
  | @elseIf word word' inner after e hword hword' he =>
    obtain ⟨hole, jumps, ifs, hif⟩ := opened_turn (Or.inr ⟨e, rfl⟩) hopen
    rw [opened_cons hif] at hopen
    refine ⟨((w.turn hole jumps ifs).map e.emit).openBranch (jumps ++ [w.bytecodes.length]) ifs,
      Option.some.inj hopen, leaves_of_ne_nil rfl (List.concat_ne_nil _ _), fun into fuel s hs hf => ?_⟩
    have hlt := hs.shows.measure_lt
    have hlt' := hs.next.shows.measure_lt
    obtain ⟨t, ht, hexpr⟩ := parseExpression_returns fuel he hs.next.next (by omega)
      (swappable_of_ne_nil e (turn_bytecodes_ne_nil w hole jumps ifs))
    have hrun : (parseElse fuel).run (s.write w) = .ok (true, t.write
        (((w.turn hole jumps ifs).map e.emit).openBranch (jumps ++ [w.bytecodes.length]) ifs)) := by
      rw [run_parseElse hif, hs.next.shows.1, if_pos hword', run_nextToken_bind, run_bind_ok hexpr]
      rfl
    exact ⟨t, (hs.shows.after.trans hs.next.shows.after).trans ht,
      (run_parseStatement into hs.shows.1 hword).trans hrun⟩
  | @loop word inWord names inner after key value e hword hnames hin he =>
    refine ⟨(w.map e.emit).openLoop key value, Option.some.inj hopen,
      leaves_of_ne_nil rfl (List.concat_ne_nil _ _), fun into fuel s hs hf => ?_⟩
    obtain ⟨t, ht, hrun⟩ := parseFor_accepts hnames hin he hs hf hswap
    exact ⟨t, ht, (run_parseStatement into hs.shows.1 hword).trans hrun⟩
  | endfor hword =>
    cases hloop : w.loopStack with
    | nil => simp [Writing.opened, hloop, Item.open] at hopen
    | cons start loops =>
      rw [opened_loop hloop] at hopen
      refine ⟨w.closeLoop start loops, Option.some.inj hopen,
        leaves_of_ne_nil rfl (List.concat_ne_nil _ _), fun into fuel s hs hf => ?_⟩
      obtain ⟨t, ht, hrun⟩ := parseEndfor_accepts hs hloop
      exact ⟨t, ht, (run_parseStatement into hs.shows.1 hword).trans hrun⟩

/-- **An item is a round** where the open blocks admit it and its expression has arguments to exchange. -/
theorem item_turns (path : Str) (h : Takes input toks item rest) {o : Opened} (hopen : item.open w.opened = some o)
    (hswap : item.swappable w.bytecodes = true) :
    ∃ w' : Writing J, Turns input path toks rest w w' ∧ w'.opened = o ∧ item.Leaves w w' := by
  cases h with
  | text htok =>
    exact ⟨_, text_turns htok w, Option.some.inj hopen, leaves_of_ne_nil rfl (List.concat_ne_nil _ _)⟩
  | print hopening he hclose =>
    exact ⟨_, print_turns hopening he hclose hswap, Option.some.inj hopen,
      leaves_of_ne_nil rfl (withFunction_ne_nil _ _ _)⟩
  | comment hopening hclose =>
    exact ⟨w, comment_turns hopening hclose w, Option.some.inj hopen, (and_iff_right rfl).symm⟩
  | statement hstatement hwords =>
    obtain ⟨w', ho, hleaves, hrun⟩ := statement_accepted path hwords hopen hswap
    exact ⟨w', statement_turns hstatement fun fuel s hs hf => hrun (parseInto fuel) fuel s hs hf, ho, hleaves⟩

omit [NlohmannJson J] in
theorem expectId_sound {tok : Token} {t : Parsing J} (h : (expectId : ParseM J Token).run s = .ok (tok, t)) :
    s.tok.kind = .id ∧ tok = s.tok ∧ t = s := by
  rw [expectId, run_get_bind] at h
  dsimp only at h
  split at h
  · rename_i hid
    obtain ⟨rfl, rfl⟩ := Prod.mk.inj (Except.ok.inj h)
    exact ⟨hid, rfl, rfl⟩
  · cases h

omit [NlohmannJson J] in
theorem parseForNames_sound (hs : s.Ready input toks) {names : Str × Str}
    (h : (parseForNames : ParseM J (Str × Str)).run (s.write w) = .ok (names, u)) :
    ∃ rest t, LoopNames toks names.1 names.2 rest ∧ s.After rest t ∧ u = t.write w := by
  have hnames : ∃ rest, LoopNames toks names.1 names.2 rest := by
    rw [parseForNames] at h
    obtain ⟨first, v, hfirst, h⟩ := run_bind_eq_ok.mp h
    obtain ⟨hkind, rfl, rfl⟩ := expectId_sound hfirst
    obtain ⟨tok, toks, rfl, hid⟩ := hs.shows.eq_cons hkind (by decide)
    rw [run_nextToken_bind, run_get_bind] at h
    split at h
    · rename_i hcomma
      obtain ⟨comma, toks, rfl, hcomma⟩ := hs.next.shows.eq_cons hcomma (by decide)
      rw [run_nextToken_bind] at h
      obtain ⟨second, v, hsecond, h⟩ := run_bind_eq_ok.mp h
      obtain ⟨hkind', rfl, rfl⟩ := expectId_sound hsecond
      obtain ⟨name, rest, rfl, hname⟩ := hs.next.next.shows.eq_cons hkind' (by decide)
      obtain ⟨rfl, -⟩ := Prod.mk.inj (Except.ok.inj h)
      rw [write_tok, write_tok, hs.shows.1, hs.next.next.shows.1]
      exact ⟨rest, .keyValue hid hcomma hname⟩
    · rename_i hcomma
      rw [write_tok, hs.next.shows.kind] at hcomma
      obtain ⟨rfl, -⟩ := Prod.mk.inj (Except.ok.inj h)
      rw [write_tok, hs.shows.1]
      exact ⟨toks, .value hid hcomma⟩
  obtain ⟨rest, hrest⟩ := hnames
  obtain ⟨t, ht, hrun⟩ := parseForNames_accepts hrest hs
  obtain ⟨-, rfl⟩ := Prod.mk.inj (Except.ok.inj (h.symm.trans (hrun w)))
  exact ⟨rest, t, hrest, ht, rfl⟩

/-- The words are those of a statement that the open blocks admit, with arguments to exchange in its expression. -/
def Admits (input : Str) (w : Writing J) (inner : List Token) : Prop :=
  ∃ (item : Item J) (after : List Token) (o : Opened), Words input inner item after ∧ item.open w.opened = some o ∧
    item.swappable w.bytecodes = true

section Branches

variable {word : Token}

theorem parseEndif_sound (hword : word.isWord "endif") {ok : Bool}
    (h : (parseEndif : ParseM J Bool).run (s.write w) = .ok (ok, u)) : Admits input w (word :: inner) := by
  cases hif : w.ifStack with
  | nil =>
    have hstack : (s.write w).ifStack = [] := hif
    rw [parseEndif, run_get_bind, hstack] at h
    cases h
  | cons branch ifs => exact ⟨_, _, _, .endif hword, by rw [opened_cons hif]; rfl, rfl⟩

theorem parseEndfor_sound (hword : word.isWord "endfor") {ok : Bool}
    (h : (parseEndfor : ParseM J Bool).run (s.write w) = .ok (ok, u)) : Admits input w (word :: inner) := by
  cases hloop : w.loopStack with
  | nil =>
    have hstack : (s.nextToken.write w).loopStack = [] := hloop
    rw [parseEndfor, run_nextToken_bind, run_get_bind, hstack] at h
    cases h
  | cons start loops => exact ⟨_, _, _, .endfor hword, by rw [opened_loop hloop]; rfl, rfl⟩

variable (hs : s.Ready input (word :: inner)) (hf : s.measure < fuel)

include hs hf

theorem parseIf_sound (hword : word.isWord "if") (h : (parseIf fuel).run (s.write w) = .ok (true, u)) :
    Admits input w (word :: inner) := by
  have hlt := hs.shows.measure_lt
  rw [parseIf, run_nextToken_bind] at h
  obtain ⟨v, hrun, -⟩ := run_then h
  obtain ⟨e, after, -, he, hswap, -⟩ := parseExpression_state fuel hs.next (by omega) hrun
  exact ⟨_, _, _, .ifThen hword he, rfl, hswap⟩

theorem parseElse_sound (hword : word.isWord "else") (h : (parseElse fuel).run (s.write w) = .ok (true, u)) :
    Admits input w (word :: inner) := by
  cases hif : w.ifStack with
  | nil =>
    have hstack : (s.write w).ifStack = [] := hif
    rw [parseElse, run_get_bind, hstack] at h
    cases h
  | cons branch ifs =>
    obtain ⟨_ | hole, jumps⟩ := branch
    · -- the conditional has had its `else`
      have hstack : (s.write w).ifStack = ⟨none, jumps⟩ :: ifs := hif
      rw [parseElse, run_get_bind, hstack] at h
      cases h
    · rw [run_parseElse hif, hs.next.shows.isWord] at h
      split at h
      · rename_i hword'
        cases inner with
        | nil => cases hword'
        | cons word' inner =>
          have hlt := hs.shows.measure_lt
          have hlt' := hs.next.shows.measure_lt
          rw [run_nextToken_bind] at h
          obtain ⟨v, hrun, -⟩ := run_then h
          obtain ⟨e, after, he⟩ := parseExpression_sound fuel hs.next.next (by omega) _ v hrun
          exact ⟨_, _, _, .elseIf hword hword' he, by rw [opened_cons hif]; rfl, rfl⟩
      · rename_i hword'
        exact ⟨_, _, _, .else hword (Bool.eq_false_iff.mpr hword'), by rw [opened_cons hif]; rfl, rfl⟩

theorem parseFor_sound (hword : word.isWord "for") (h : (parseFor fuel).run (s.write w) = .ok (true, u)) :
    Admits input w (word :: inner) := by
  have hlt := hs.shows.measure_lt
  rw [parseFor, run_nextToken_bind] at h
  obtain ⟨names, v, hnames, h⟩ := run_bind_eq_ok.mp h
  obtain ⟨rest, t, hnames, ht, rfl⟩ := parseForNames_sound hs.next hnames
  have hle := ht.measure_le
  rw [run_get_bind] at h
  split at h
  · rename_i hin
    obtain ⟨inWord, rest, rfl, hin⟩ := ht.shows.eq_cons_word hin
    have hlt' := ht.shows.measure_lt
    rw [run_nextToken_bind] at h
    obtain ⟨v, hrun, -⟩ := run_then h
    obtain ⟨e, after, -, he, hswap, -⟩ := parseExpression_state fuel (hs.next.of_after ht).next (by omega) hrun
    exact ⟨_, _, _, .loop hword hnames hin he, rfl, hswap⟩
  · cases h

end Branches

/-- **What is accepted is a statement** that the open blocks admit. -/
theorem parseStatement_sound {into : Str → ParseM J Unit} (hs : s.Ready input inner) (hf : s.measure < fuel)
    (hempty : s.includedTemplates = ∅) (h : (parseStatement into fuel path).run (s.write w) = .ok (true, u)) :
    Admits input w inner := by
  rw [parseStatement, run_get_bind] at h
  dsimp only at h
  split at h
  case isTrue hword =>
    obtain ⟨word, inner, rfl, hword⟩ := hs.shows.eq_cons_word hword
    exact parseIf_sound hs hf hword h
  split at h
  case isTrue hword =>
    obtain ⟨word, inner, rfl, hword⟩ := hs.shows.eq_cons_word hword
    exact parseEndif_sound hword h
  split at h
  case isTrue hword =>
    obtain ⟨word, inner, rfl, hword⟩ := hs.shows.eq_cons_word hword
    exact parseElse_sound hs hf hword h
  split at h
  case isTrue hword =>
    obtain ⟨word, inner, rfl, hword⟩ := hs.shows.eq_cons_word hword
    exact parseFor_sound hs hf hword h
  split at h
  case isTrue hword =>
    obtain ⟨word, inner, rfl, hword⟩ := hs.shows.eq_cons_word hword
    exact parseEndfor_sound hword h
  split at h
  case isTrue hword =>
    -- no template has been included, and none can be read
    obtain ⟨e, he⟩ := parseInclude_error into path (s := s.write w) hempty
    rw [he] at h
    cases h
  cases h

/-! ### Rounds -/

/-- **What a round accepts is an item** that the open blocks admit. -/
theorem parseBlock_sound {tok : Token} (hs : s.Ready input (tok :: toks)) (hf : s.measure < fuel)
    (hempty : s.includedTemplates = ∅) (hline : tok.kind ≠ .lineStatementOpen)
    (h : (parseBlock (parseInto fuel) fuel path).run (s.write w) = .ok ((), u)) :
    ∃ (item : Item J) (rest : List Token) (o : Opened), Takes input (tok :: toks) item rest ∧
      item.open w.opened = some o ∧ item.swappable w.bytecodes = true := by
  have htok := hs.shows.1
  have hlt := hs.shows.measure_lt
  rw [parseBlock, run_get_bind] at h
  split at h
  case h_1 hkind =>
    rw [write_tok, htok] at hkind
    exact ⟨_, toks, _, .text hkind, rfl, rfl⟩
  case h_2 hkind =>
    rw [write_tok, htok] at hkind
    rw [run_nextToken_bind] at h
    obtain ⟨ok, v, hrun, h⟩ := run_bind_eq_ok.mp h
    rw [run_get_bind] at h
    cases ok with
    | false => cases h
    | true =>
      have hempty' : s.nextToken.includedTemplates = ∅ := (nextToken_below s).included.trans hempty
      obtain ⟨item, after, o, hwords, hopen, hswap⟩ := parseStatement_sound hs.next (by omega) hempty' hrun
      obtain ⟨w', -, -, haccepts⟩ := statement_accepted path hwords hopen hswap
      obtain ⟨t, ht, hrun'⟩ := haccepts (parseInto fuel) fuel s.nextToken hs.next (by omega)
      obtain ⟨-, rfl⟩ := Prod.mk.inj (Except.ok.inj (hrun.symm.trans hrun'))
      simp only [if_true] at h
      split at h
      · rename_i hclose
        obtain ⟨close, rest, rfl, hclose⟩ := ht.shows.eq_cons hclose (by decide)
        exact ⟨item, rest, o, .statement ⟨tok, rfl, Or.inl ⟨hkind, close, rfl, hclose⟩⟩ hwords, hopen, hswap⟩
      · cases h
  case h_3 hkind =>
    rw [write_tok, htok] at hkind
    exact absurd hkind hline
  case h_4 hkind =>
    rw [write_tok, htok] at hkind
    rw [run_nextToken_bind] at h
    obtain ⟨ok, v, hrun, h⟩ := run_bind_eq_ok.mp h
    cases ok with
    | false => cases h
    | true =>
      obtain ⟨e, after, t, he, hswap, ht, rfl⟩ := parseExpression_state fuel hs.next (by omega) hrun
      simp only [if_true] at h
      rw [appendFunction_eq, run_bytecodes_bind, run_get_bind] at h
      split at h
      · rename_i hclose
        obtain ⟨close, rest, rfl, hclose⟩ := ht.shows.eq_cons hclose (by decide)
        exact ⟨_, rest, _, .print hkind he hclose, rfl, hswap⟩
      · cases h
  case h_5 hkind =>
    rw [write_tok, htok] at hkind
    rw [run_nextToken_bind, run_get_bind] at h
    split at h
    · rename_i hclose
      obtain ⟨close, rest, rfl, hclose⟩ := hs.next.shows.eq_cons hclose (by decide)
      exact ⟨_, rest, _, .comment hkind hclose, rfl, rfl⟩
    · cases h
  case h_6 => cases h

/-- **What the loop accepts has items** that close every block they open, with arguments to exchange in what comes
first; by induction on the counter. -/
theorem parseInto_sound (hs : s.nextToken.Ready input toks) (hf : s.measure < fuel)
    (hline : ∀ tok ∈ toks, tok.kind ≠ .lineStatementOpen) (hempty : s.includedTemplates = ∅)
    (h : (parseInto fuel path).run (s.write w) = .ok ((), u)) :
    ∃ items : List (Item J), Reads input toks items ∧ openAll items w.opened = some ⟨[], 0⟩ ∧
      (w.bytecodes = [] → leads items = true) := by
  induction fuel generalizing s w toks with
  | zero => omega
  | succ fuel ih =>
    rw [parseInto, run_nextToken_bind, run_get_bind] at h
    cases toks with
    | nil =>
      have heof : s.nextToken.tok.kind = .eof := hs.shows.kind
      rw [write_tok, if_pos heof] at h
      split at h
      · cases h
      · rename_i hif
        split at h
        · cases h
        · rename_i hloop
          have hif' : w.ifStack = [] := not_not.mp hif
          have hloop' : w.loopStack = [] := not_not.mp hloop
          exact ⟨[], .nil, by rw [openAll, Writing.opened, hif', hloop']; rfl, fun _ => rfl⟩
    | cons tok toks =>
      have hne : s.nextToken.tok.kind ≠ .eof := by
        rw [hs.shows.1]
        exact hs.shows.2.1
      have hlt : s.nextToken.measure < fuel := by
        have := (nextToken_lt s).resolve_left hne
        omega
      rw [write_tok, if_neg hne] at h
      obtain ⟨⟨⟩, v, hblock, h⟩ := run_bind_eq_ok.mp h
      have hempty' : s.nextToken.includedTemplates = ∅ := (nextToken_below s).included.trans hempty
      obtain ⟨item, rest, o, htakes, hopen, hswap⟩ :=
        parseBlock_sound hs hlt hempty' (hline tok List.mem_cons_self) hblock
      obtain ⟨w', hturns, rfl, hleaves⟩ := item_turns path htakes hopen hswap
      obtain ⟨t, hle, ht, hrun⟩ := hturns fuel s.nextToken hs hlt
      obtain ⟨-, rfl⟩ := Prod.mk.inj (Except.ok.inj (hblock.symm.trans hrun))
      have htame := parseBlock_tame (parseInto fuel) path (s := s.nextToken.write w) hs.peekTok hlt
      have hincluded : t.includedTemplates = ∅ := (wp_ok htame hblock).1.included.trans hempty'
      obtain ⟨items, hreads, hall, hlead⟩ := ih ht (by omega)
        (fun tok htok => hline tok ((takes_suffix htakes).subset htok)) hincluded h
      refine ⟨item :: items, .cons htakes hreads, by rw [openAll, hopen]; exact hall, fun hnil => ?_⟩
      rw [hnil] at hswap
      cases hsilent : item.silent with
      | false => exact (leads_cons item items hsilent).trans hswap
      | true =>
        have hrest : leads items = true := hlead (hleaves.mpr ⟨hsilent, hnil⟩)
        rw [leads, hswap, hrest, Bool.or_true, Bool.and_true]

/-- Items that close every block they open bring the loop to the end of the text. -/
theorem reads_comes {r : Except (Option Stop) (Unit × Parsing J)} {items : List (Item J)}
    (h : Reads input toks items) (hopen : openAll items w.opened = some ⟨[], 0⟩)
    (hlead : w.bytecodes = [] → leads items = true) (hc : Comes input path r toks w) :
    ∃ w' : Writing J, Comes input path r [] w' ∧ w'.opened = ⟨[], 0⟩ := by
  induction h generalizing w with
  | nil => exact ⟨w, hc, Option.some.inj hopen⟩
  | @cons toks rest item items htakes _ ih =>
    obtain ⟨o, hitem, hrest⟩ := Option.bind_eq_some_iff.mp hopen
    have hfirst : w.bytecodes = [] → item.swappable [] = true ∧ (item.silent = true → leads items = true) := by
      intro hnil
      have h := hlead hnil
      simp only [leads, Bool.and_eq_true, Bool.or_eq_true, Bool.not_eq_true'] at h
      exact ⟨h.1, fun hsilent => h.2.resolve_left (by simp [hsilent])⟩
    have hswap : item.swappable w.bytecodes = true := item_swappable_of_nil item fun hnil => (hfirst hnil).1
    obtain ⟨w', hturns, rfl, hleaves⟩ := item_turns path htakes hitem hswap
    obtain ⟨tok, toks, rfl⟩ := List.exists_cons_of_ne_nil htakes.ne_nil
    exact ih hrest (fun hnil => (hfirst (hleaves.mp hnil).2).2 (hleaves.mp hnil).1) (hc.turn hturns)

/-! ### Blocks that nest -/

def Frame.isLoop : Frame → Bool
  | .branch _ => false
  | .loop => true

/-- Whether another branch may come, where the block is a conditional. -/
def Frame.more? : Frame → Option Bool
  | .branch more => some more
  | .loop => none

/-- One stack of blocks as the two stacks of the parser. -/
def openedOf (frames : List Frame) : Opened :=
  ⟨frames.filterMap Frame.more?, (frames.filter Frame.isLoop).length⟩

omit [NlohmannJson J] in
/-- What nests is admitted. -/
theorem open_of_nest {frames frames' : List Frame} (h : item.nest frames = some frames') :
    item.open (openedOf frames) = some (openedOf frames') := by
  cases item with
  | comment => exact Option.some.inj h ▸ rfl
  | text content => exact Option.some.inj h ▸ rfl
  | print value => exact Option.some.inj h ▸ rfl
  | ifThen condition => exact Option.some.inj h ▸ rfl
  | loop key value values => exact Option.some.inj h ▸ rfl
  | elseIf condition =>
    obtain _ | ⟨⟨_ | _⟩ | _, frames⟩ := frames <;> cases h
    rfl
  | «else» =>
    obtain _ | ⟨⟨_ | _⟩ | _, frames⟩ := frames <;> cases h
    rfl
  | endif =>
    obtain _ | ⟨more | _, frames⟩ := frames <;> cases h
    rfl
  | endfor =>
    obtain _ | ⟨more | _, frames⟩ := frames <;> cases h
    rfl

omit [NlohmannJson J] in
/-- What is admitted nests, where it is about the innermost block. -/
theorem nest_of_open {frames : List Frame} {kinds : List Bool} {o : Opened}
    (hkinds : item.nestKinds (frames.map Frame.isLoop) = some kinds) (hopen : item.open (openedOf frames) = some o) :
    ∃ frames', item.nest frames = some frames' ∧ frames'.map Frame.isLoop = kinds ∧ openedOf frames' = o := by
  cases item with
  | comment => exact ⟨frames, rfl, Option.some.inj hkinds, Option.some.inj hopen⟩
  | text content => exact ⟨frames, rfl, Option.some.inj hkinds, Option.some.inj hopen⟩
  | print value => exact ⟨frames, rfl, Option.some.inj hkinds, Option.some.inj hopen⟩
  | ifThen condition => exact ⟨.branch true :: frames, rfl, Option.some.inj hkinds, Option.some.inj hopen⟩
  | loop key value values => exact ⟨.loop :: frames, rfl, Option.some.inj hkinds, Option.some.inj hopen⟩
  | elseIf condition =>
    obtain _ | ⟨⟨_ | _⟩ | _, frames⟩ := frames
    · cases hkinds
    · cases hopen
    · exact ⟨.branch true :: frames, rfl, Option.some.inj hkinds, Option.some.inj hopen⟩
    · cases hkinds
  | «else» =>
    obtain _ | ⟨⟨_ | _⟩ | _, frames⟩ := frames
    · cases hkinds
    · cases hopen
    · exact ⟨.branch false :: frames, rfl, Option.some.inj hkinds, Option.some.inj hopen⟩
    · cases hkinds
  | endif =>
    obtain _ | ⟨more | _, frames⟩ := frames
    · cases hkinds
    · exact ⟨frames, rfl, Option.some.inj hkinds, Option.some.inj hopen⟩
    · cases hkinds
  | endfor =>
    obtain _ | ⟨more | _, frames⟩ := frames
    · cases hkinds
    · cases hkinds
    · exact ⟨frames, rfl, Option.some.inj hkinds, Option.some.inj hopen⟩

omit [NlohmannJson J] in
theorem openAll_of_nestAll {items : List (Item J)} {frames frames' : List Frame}
    (h : nestAll items frames = some frames') : openAll items (openedOf frames) = some (openedOf frames') := by
  induction items generalizing frames with
  | nil => exact Option.some.inj h ▸ rfl
  | cons item items ih =>
    obtain ⟨between, hitem, hrest⟩ := nestAll_cons h
    rw [openAll, open_of_nest hitem]
    exact ih hrest

/-- Items that close every block they open nest, where the tokens do. -/
theorem nestAll_of_openAll {items : List (Item J)} {frames : List Frame} (h : Reads input toks items)
    (hline : ∀ tok ∈ toks, tok.kind ≠ .lineStatementOpen) (hnests : nests (frames.map Frame.isLoop) toks = true)
    (hopen : openAll items (openedOf frames) = some ⟨[], 0⟩) : nestAll items frames = some [] := by
  induction h generalizing frames with
  | nil =>
    have hnil : frames = [] := by simpa [nests] using hnests
    rw [hnil, nestAll]
  | @cons toks rest item items htakes _ ih =>
    obtain ⟨o, hitem, hrest⟩ := Option.bind_eq_some_iff.mp hopen
    rw [takes_nests htakes hline] at hnests
    cases hkinds : item.nestKinds (frames.map Frame.isLoop) with
    | none =>
      rw [hkinds] at hnests
      cases hnests
    | some kinds =>
      obtain ⟨frames', hnest, rfl, rfl⟩ := nest_of_open hkinds hitem
      rw [hkinds] at hnests
      rw [nestAll, hnest]
      exact ih (fun tok htok => hline tok ((takes_suffix htakes).subset htok)) hnests hrest

/-- **The parser accepts exactly the templates** among the texts whose blocks nest, and in which no statement is a line
of its own: those in which a `default` at the beginning has arguments to exchange. -/
theorem parse_accepts_iff {p : Parser J} (hp : p.Idle) (hempty : p.includedTemplates = ∅) {input : Str}
    (hline : ∀ tok ∈ tokens input, tok.kind ≠ .lineStatementOpen) (hnests : nests [] (tokens input) = true) :
    (∃ r, p.parse input = .ok r) ↔ ∃ t : Tree J, IsTemplate input t ∧ t.swappable = true := by
  have hready := begin_ready hp.peekTok input
  have hwrite : (p.begin input).write {} = p.begin input := by
    simp [Parsing.write, Parser.begin, hp.ifStack, hp.loopStack]
  rw [isTemplate_iff_nest]
  constructor
  · intro h
    obtain ⟨⟨tmpl, q⟩, hparse⟩ := h
    obtain ⟨u, hrun, -, -⟩ := parse_run hparse
    rw [← hwrite] at hrun
    obtain ⟨items, hreads, hopen, hlead⟩ := parseInto_sound hready (begin_measure p input) hline hempty hrun
    exact ⟨items, hreads, nestAll_of_openAll hreads hline hnests hopen, hlead rfl⟩
  · intro h
    obtain ⟨items, hreads, hnest, hlead⟩ := h
    have hopen : openAll items (Writing.opened ({} : Writing J)) = some ⟨[], 0⟩ := openAll_of_nestAll hnest
    have hcomes : Comes input "./" ((parseInto (parseFuel input) "./").run (p.begin input)) (tokens input) {} :=
      parse_comes hp input
    obtain ⟨w', hc, hopened⟩ := reads_comes hreads hopen (fun _ => hlead) hcomes
    have hif : w'.ifStack = [] := List.map_eq_nil_iff.mp (congrArg Opened.branches hopened)
    have hloop : w'.loopStack = [] := List.length_eq_zero_iff.mp (congrArg Opened.loops hopened)
    obtain ⟨q, hparse⟩ := parse_eq_written hc hif hloop
    exact ⟨_, hparse⟩

theorem parse_accepts_iff_greeting : ∃ r, ({} : Parser Json).parse greeting = .ok r :=
  (parse_accepts_iff ⟨rfl, rfl, rfl⟩ rfl (by decide +kernel) (by decide +kernel)).mpr
    ⟨greetingTree, greeting_isTemplate, rfl⟩

/-- Blocks that do not nest are accepted, too. -/
example : (({} : Parser Json).parse
    "\x7b% if a %\x7d\x7b% for x in y %\x7d\x7b% endif %\x7d\x7b% endfor %\x7d").isOk = true := by decide +kernel

end EnvoyWasmFilters.Inja
