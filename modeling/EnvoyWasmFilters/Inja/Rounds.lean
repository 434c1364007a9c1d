import EnvoyWasmFilters.Inja.ParserTotal
import Mathlib.Logic.Relation

/-!
# The rounds of a parse

`parse_into` goes through the template block by block.  `Round` is one turn of its loop, `Rounds` any
number of them; the states between the rounds are those the parser passes through.

* `Rounds.below` — none of them reads another text or has other included templates;
* `parse_rounds` — a parse that returns is a sequence of rounds up to the end of the text;
* `parseTemplate_error`, `parseInclude_error` — without included templates an `include` stops the
  parse: the file it names cannot be read, so that nothing is ever inserted.
-/

namespace EnvoyWasmFilters.Inja

open StateExcept

variable {J : Type} [NlohmannJson J]

/-- One round of the loop: the next token is not the end of the text, and the block it begins is parsed
with a counter that suffices. -/
def Round (path : Str) (s t : Parsing J) : Prop :=
  s.nextToken.tok.kind ≠ .eof ∧ ∃ fuel, s.nextToken.measure < fuel ∧
    (parseBlock (parseInto fuel) fuel path).run s.nextToken = .ok ((), t)

/-- Any number of rounds. -/
abbrev Rounds (path : Str) : Parsing J → Parsing J → Prop := Relation.ReflTransGen (Round path)

theorem Round.below {path : Str} {s t : Parsing J} (h : Round path s t) : s.Below t := by
  obtain ⟨-, fuel, hfuel, hrun⟩ := h
  have htame := parseBlock_tame (parseInto fuel) path (nextToken_peekTok s) hfuel
  exact (nextToken_below s).trans (wp_ok htame hrun).1

theorem Rounds.below {path : Str} {s t : Parsing J} (h : Rounds path s t) : s.Below t := by
  induction h with
  | refl => exact Parsing.Below.refl s
  | tail _ hround ih => exact ih.trans hround.below

/-- **The loop is a sequence of rounds**, by induction on the counter. -/
theorem parseInto_rounds {fuel : ℕ} (path : Str) {s : Parsing J} (hf : s.measure < fuel) :
    wp (parseInto fuel path)
      (fun _ u => ∃ t, Rounds path s t ∧ t.nextToken.tok.kind = .eof ∧ t.nextToken = u)
      (fun _ => True) s := by
  induction fuel generalizing s with
  | zero => omega
  | succ fuel ih =>
    rw [parseInto, wp_bind]
    show wp _ _ _ s.nextToken
    rw [wp_bind, wp_get]
    split
    · rename_i hend
      split
      · trivial
      · split
        · trivial
        · exact ⟨s, .refl, hend, rfl⟩
    · rename_i hne
      have hlt : s.nextToken.measure < fuel := by
        have := (nextToken_lt s).resolve_left hne
        omega
      rw [wp_bind]
      refine wp_mono (wp_run _ _) (fun _ t hrun => ?_) fun _ _ => trivial
      have hround : Round path s t := ⟨hne, fuel, hlt, hrun⟩
      have hbelow := wp_ok (parseBlock_tame (parseInto fuel) path (nextToken_peekTok s) hlt) hrun
      have hle := hbelow.1.measure_le
      refine wp_mono (ih (s := t) (by omega)) (fun _ u hu => ?_) fun _ he => he
      obtain ⟨v, hrounds, hv⟩ := hu
      exact ⟨v, hrounds.head hround, hv⟩

/-- **A parse that returns is a sequence of rounds** up to the end of the text. -/
theorem parse_rounds {p q : Parser J} {input : Str} {tmpl : Template J}
    (h : p.parse input = .ok (tmpl, q)) :
    ∃ s, Rounds "./" (p.begin input) s ∧ s.nextToken.tok.kind = .eof ∧
      s.nextToken.tmpl = tmpl ∧ s.nextToken.toParser = q := by
  obtain ⟨u, hrun, htmpl, hq⟩ := parse_run h
  obtain ⟨s, hrounds, hend, rfl⟩ := wp_ok (parseInto_rounds "./" (begin_measure p input)) hrun
  exact ⟨s, hrounds, hend, htmpl, hq⟩

/-! ### Includes -/

omit [NlohmannJson J] in
/-- **No file can be read**: `parse_template` does not return, so that the statement after it is not
reached. -/
theorem parseTemplate_error (into : Str → ParseM J Unit) (filename : Str) (s : Parsing J) :
    ∃ e, (parseTemplate into filename).run s = .error (some e) := ⟨_, rfl⟩

omit [NlohmannJson J] in
/-- The library call in front of `k`. -/
theorem wp_liftJson {α β : Type} {r : Except Stop α} {k : α → ParseM J β} {Q : β → Parsing J → Prop}
    {s : Parsing J} (hk : ∀ a, wp (k a) Q (fun e => e ≠ none) s) :
    wp (liftJson r >>= k) Q (fun e => e ≠ none) s := by
  cases r with
  | ok a => exact hk a
  | error e => exact Option.some_ne_none e

/-- **Without included templates an `include` stops the parse.** -/
theorem parseInclude_error (into : Str → ParseM J Unit) (path : Str) {s : Parsing J}
    (hempty : s.includedTemplates = ∅) : ∃ e, (parseInclude into path).run s = .error (some e) := by
  have hincluded : s.nextToken.includedTemplates = ∅ := (nextToken_below s).included.trans hempty
  have hwp : wp (parseInclude into path) (fun _ _ => False) (fun e => e ≠ none) s := by
    rw [parseInclude, wp_bind]
    show wp _ _ _ s.nextToken
    rw [wp_bind, wp_get]
    dsimp only
    split
    · refine wp_liftJson fun jsonName => wp_liftJson fun name => ?_
      rw [wp_bind, wp_get, hincluded, AList.lookup_empty]
      exact Option.some_ne_none _
    · exact Option.some_ne_none _
  cases hrun : (parseInclude into path).run s with
  | ok r => exact (wp_ok hwp hrun).elim
  | error e =>
    obtain ⟨stop, rfl⟩ := Option.ne_none_iff_exists'.mp (wp_error hwp hrun)
    exact ⟨stop, rfl⟩

end EnvoyWasmFilters.Inja
