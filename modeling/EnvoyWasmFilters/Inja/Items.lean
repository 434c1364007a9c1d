import EnvoyWasmFilters.Inja.TemplateGrammar

/-!
# The items of a template

A template is a list of items: texts, expressions and comments, and the statements that open a block, go on with
another branch, and close a block.  The tree of a template is what its items say where the blocks nest.

* `Reads` — the items of a list of tokens;
* `Item.nest` — what an item does to the open blocks, with one stack for branches and loops;
* `leads` — the first item that appends bytecode can do so with no bytecode before it;
* `parses_nest`, `nest_begins` — the items of a template nest, and nested items are a template;
* `isTemplate_iff_nest` — **a text is a template if and only if its blocks nest**, with what comes first in both.
-/

namespace EnvoyWasmFilters.Inja

/-- A part of a template between two others: the tokens that the parser takes in one round. -/
inductive Item (J : Type) where
  | comment
  | text (content : Str)
  | print (value : Expr J)
  | ifThen (condition : Expr J)
  | elseIf (condition : Expr J)
  | else
  | endif
  | loop (key value : Str) (values : Expr J)
  | endfor

/-- An open block: a branch of a conditional, behind which another one may come or not, or a loop. -/
inductive Frame where
  | branch (more : Bool)
  | loop
deriving DecidableEq

variable {J : Type}

/-- What an item does to the open blocks. -/
def Item.nest : Item J → List Frame → Option (List Frame)
  | .comment, frames | .text _, frames | .print _, frames => some frames
  | .ifThen _, frames => some (.branch true :: frames)
  | .elseIf _, .branch true :: frames => some (.branch true :: frames)
  | .else, .branch true :: frames => some (.branch false :: frames)
  | .endif, .branch _ :: frames => some frames
  | .loop _ _ _, frames => some (.loop :: frames)
  | .endfor, .loop :: frames => some frames
  | _, _ => none

/-- What items do to the open blocks, one after the other. -/
def nestAll : List (Item J) → List Frame → Option (List Frame)
  | [], frames => some frames
  | item :: items, frames => (item.nest frames).bind (nestAll items)

/-- The items that end the parts before them. -/
def Item.ends : Item J → Bool
  | .elseIf _ | .else | .endif | .endfor => true
  | _ => false

/-- No part of a template begins here. -/
def Ends (items : List (Item J)) : Prop := ∀ item ∈ items.head?, item.ends = true

/-- The items that append no bytecode. -/
def Item.silent : Item J → Bool
  | .comment | .endif => true
  | _ => false

variable [NlohmannJson J]

/-- The arguments in the item's expression can be exchanged behind the bytecode `bcs`.  An `else if` has a jump of its
own before the condition. -/
def Item.swappable : Item J → List (Bytecode J) → Bool
  | .print value, bcs => value.swappable bcs
  | .ifThen condition, bcs => condition.swappable bcs
  | .loop _ _ values, bcs => values.swappable bcs
  | _, _ => true

/-- What comes first has arguments to exchange, though there is no bytecode before it. -/
def leads : List (Item J) → Bool
  | [] => true
  | item :: items => item.swappable [] && (!item.silent || leads items)

/-- The same of a template in front of other parts. -/
def Tree.lead (behind : Bool) : Tree J → Bool
  | .nil => behind
  | t => t.swappable

theorem leads_cons (item : Item J) (items : List (Item J)) (h : item.silent = false) :
    leads (item :: items) = item.swappable [] := by
  rw [leads, h, Bool.not_false, Bool.true_or, Bool.and_true]

theorem lead_conditional (behind : Bool) (condition : Expr J) (body : Tree J) (other : Option (Tree J))
    (next : Tree J) : (Tree.conditional condition body other next).lead behind = condition.swappable [] := by
  cases other with
  | none => rfl
  | some other => rfl

theorem lead_true (t : Tree J) : t.lead true = t.swappable := by
  cases t <;> rfl

/-- The words of a statement are the item. -/
inductive Words (input : Str) : List Token → Item J → List Token → Prop
  | ifThen {word : Token} {inner after : List Token} {e : Expr J} (hword : word.isWord "if")
      (he : Derives input .disjunction inner e after) : Words input (word :: inner) (.ifThen e) after
  | elseIf {word word' : Token} {inner after : List Token} {e : Expr J} (hword : word.isWord "else")
      (hword' : word'.isWord "if") (he : Derives input .disjunction inner e after) :
      Words input (word :: word' :: inner) (.elseIf e) after
  | else {word : Token} {after : List Token} (hword : word.isWord "else")
      (hnext : after.head?.any (·.isWord "if") = false) : Words input (word :: after) .else after
  | endif {word : Token} {after : List Token} (hword : word.isWord "endif") : Words input (word :: after) .endif after
  | loop {word inWord : Token} {names inner after : List Token} {key value : Str} {e : Expr J}
      (hword : word.isWord "for") (hnames : LoopNames names key value (inWord :: inner)) (hin : inWord.isWord "in")
      (he : Derives input .disjunction inner e after) : Words input (word :: names) (.loop key value e) after
  | endfor {word : Token} {after : List Token} (hword : word.isWord "endfor") :
      Words input (word :: after) .endfor after

/-- The tokens `toks` begin with the item, and go on with `rest`. -/
inductive Takes (input : Str) : List Token → Item J → List Token → Prop
  | text {tok : Token} {rest : List Token} (htok : tok.kind = .text) : Takes input (tok :: rest) (.text tok.text) rest
  | print {opening close : Token} {toks rest : List Token} {e : Expr J} (hopening : opening.kind = .expressionOpen)
      (he : Derives input .disjunction toks e (close :: rest)) (hclose : close.kind = .expressionClose) :
      Takes input (opening :: toks) (.print e) rest
  | comment {opening close : Token} {rest : List Token} (hopening : opening.kind = .commentOpen)
      (hclose : close.kind = .commentClose) : Takes input (opening :: close :: rest) .comment rest
  | statement {toks inner after rest : List Token} {item : Item J} (hstatement : Statement toks inner after rest)
      (hwords : Words input inner item after) : Takes input toks item rest

/-- **The items of a list of tokens.** -/
inductive Reads (input : Str) : List Token → List (Item J) → Prop
  | nil : Reads input [] []
  | cons {toks rest : List Token} {item : Item J} {items : List (Item J)} (htakes : Takes input toks item rest)
      (hnext : Reads input rest items) : Reads input toks (item :: items)

variable {input : Str} {toks rest : List Token} {items : List (Item J)} {frames : List Frame}

/-- An item is not nothing. -/
theorem Takes.ne_nil {item : Item J} (h : Takes input toks item rest) : toks ≠ [] := by
  cases h with
  | text htok => exact List.cons_ne_nil _ _
  | print hopening he hclose => exact List.cons_ne_nil _ _
  | comment hopening hclose => exact List.cons_ne_nil _ _
  | statement hstatement hwords =>
    obtain ⟨opening, rfl, -⟩ := hstatement
    exact List.cons_ne_nil _ _

/-! ### The items of a template nest -/

/-- The tokens `toks` have items in front of those of `rest`; the parts leave the open blocks as they are, and what
follows the first branch of an `if` closes it. -/
def Part.Nests (input : Str) (toks rest : List Token) : Part J → Prop
  | .blocks t => ∀ items : List (Item J), Reads input rest items →
      ∃ items' : List (Item J), Reads input toks items' ∧ leads items' = t.lead (leads items) ∧
        ∀ frames, nestAll items' frames = nestAll items frames
  | .tail _ => ∀ items : List (Item J), Reads input rest items →
      ∃ items' : List (Item J), Reads input toks items' ∧
        ∀ frames, nestAll items' (.branch true :: frames) = nestAll items frames

/-- **The items of a template nest**, by induction on its derivation. -/
theorem parses_nest {part : Part J} (h : Parses input toks part rest) : part.Nests input toks rest := by
  induction h with
  | nil => exact fun items hitems => ⟨items, hitems, rfl, fun _ => rfl⟩
  | text htok _ ih =>
    intro items hitems
    obtain ⟨items', hreads, -, hnest⟩ := ih items hitems
    exact ⟨_, .cons (.text htok) hreads, rfl, hnest⟩
  | print hopening he hclose _ ih =>
    intro items hitems
    obtain ⟨items', hreads, -, hnest⟩ := ih items hitems
    exact ⟨_, .cons (.print hopening he hclose) hreads, leads_cons _ _ rfl, hnest⟩
  | comment hopening hclose _ ih =>
    intro items hitems
    obtain ⟨items', hreads, hlead, hnest⟩ := ih items hitems
    exact ⟨_, .cons (.comment hopening hclose) hreads, hlead, hnest⟩
  | conditional hstatement hword he _ _ _ ihb iht ihn =>
    intro items hitems
    obtain ⟨next, hnext, -, hnestn⟩ := ihn items hitems
    obtain ⟨tail, htail, hnestt⟩ := iht next hnext
    obtain ⟨body, hbody, -, hnestb⟩ := ihb tail htail
    refine ⟨_, .cons (.statement hstatement (.ifThen hword he)) hbody, ?_, fun frames => ?_⟩
    · rw [lead_conditional]
      exact leads_cons _ _ rfl
    · calc nestAll body (.branch true :: frames) = nestAll tail (.branch true :: frames) := hnestb _
        _ = nestAll next frames := hnestt _
        _ = nestAll items frames := hnestn _
  | loop hstatement hword hnames hin he _ hend hword' _ ihb ihn =>
    intro items hitems
    obtain ⟨next, hnext, -, hnestn⟩ := ihn items hitems
    obtain ⟨body, hbody, -, hnestb⟩ := ihb _ (.cons (.statement hend (.endfor hword')) hnext)
    refine ⟨_, .cons (.statement hstatement (.loop hword hnames hin he)) hbody, leads_cons _ _ rfl, fun frames => ?_⟩
    calc nestAll body (.loop :: frames) = nestAll (.endfor :: next) (.loop :: frames) := hnestb _
      _ = nestAll items frames := hnestn _
  | endif hstatement hword =>
    exact fun items hitems => ⟨_, .cons (.statement hstatement (.endif hword)) hitems, fun _ => rfl⟩
  | «else» hstatement hword _ hend hword' ihb =>
    intro items hitems
    obtain ⟨body, hbody, -, hnestb⟩ := ihb _ (.cons (.statement hend (.endif hword')) hitems)
    exact ⟨_, .cons (.statement hstatement (.else hword (hstatement.not_word "if"))) hbody,
      fun frames => hnestb (.branch false :: frames)⟩
  | elseIf hstatement hword hword' he _ _ ihb iht =>
    intro items hitems
    obtain ⟨tail, htail, hnestt⟩ := iht items hitems
    obtain ⟨body, hbody, -, hnestb⟩ := ihb tail htail
    refine ⟨_, .cons (.statement hstatement (.elseIf hword hword' he)) hbody, fun frames => ?_⟩
    exact (hnestb (.branch true :: frames)).trans (hnestt frames)

/-! ### Nested items are a template -/

omit [NlohmannJson J] in
theorem nestAll_cons {item : Item J} {frames' : List Frame} (h : nestAll (item :: items) frames = some frames') :
    ∃ between, item.nest frames = some between ∧ nestAll items between = some frames' :=
  Option.bind_eq_some_iff.mp h

/-- Where parts end with a block open, there is a statement that ends them. -/
theorem Reads.ending (h : Reads input toks items) (hends : Ends items) {frame : Frame}
    (hnest : nestAll items (frame :: frames) = some []) :
    ∃ (inner after rest : List Token) (item : Item J) (items' : List (Item J)) (between : List Frame),
      Statement toks inner after rest ∧ Words input inner item after ∧ Reads input rest items' ∧
        items = item :: items' ∧ item.ends = true ∧ item.nest (frame :: frames) = some between ∧
        nestAll items' between = some [] := by
  cases h with
  | nil => cases hnest
  | cons htakes hnext =>
    obtain ⟨between, hitem, hinner⟩ := nestAll_cons hnest
    have hend := hends _ rfl
    cases htakes with
    | text htok => exact absurd hend Bool.false_ne_true
    | print hopening he hclose => exact absurd hend Bool.false_ne_true
    | comment hopening hclose => exact absurd hend Bool.false_ne_true
    | statement hstatement hwords =>
      exact ⟨_, _, _, _, _, between, hstatement, hwords, hnext, rfl, hend, hitem, hinner⟩

/-- Where parts end and a loop is the innermost block, the loop ends. -/
theorem Reads.endfor (h : Reads input toks items) (hends : Ends items)
    (hnest : nestAll items (.loop :: frames) = some []) :
    ∃ (word : Token) (after rest : List Token) (items' : List (Item J)), Statement toks (word :: after) after rest ∧
      word.isWord "endfor" = true ∧ Reads input rest items' ∧ items = .endfor :: items' ∧
        nestAll items' frames = some [] := by
  obtain ⟨inner, after, rest, item, items', between, hstatement, hwords, hnext, rfl, hend, hitem, hinner⟩ :=
    h.ending hends hnest
  cases hwords with
  | ifThen hword he => exact absurd hend Bool.false_ne_true
  | elseIf hword hword' he => cases hitem
  | «else» hword hnot => cases hitem
  | endif hword => cases hitem
  | loop hword hnames hin he => exact absurd hend Bool.false_ne_true
  | endfor hword =>
    obtain rfl := Option.some.inj hitem
    exact ⟨_, _, _, items', hstatement, hword, hnext, rfl, hinner⟩

/-- Where parts end behind an `else`, the conditional ends. -/
theorem Reads.endif (h : Reads input toks items) (hends : Ends items)
    (hnest : nestAll items (.branch false :: frames) = some []) :
    ∃ (word : Token) (after rest : List Token) (items' : List (Item J)), Statement toks (word :: after) after rest ∧
      word.isWord "endif" = true ∧ Reads input rest items' ∧ items = .endif :: items' ∧
        nestAll items' frames = some [] := by
  obtain ⟨inner, after, rest, item, items', between, hstatement, hwords, hnext, rfl, hend, hitem, hinner⟩ :=
    h.ending hends hnest
  cases hwords with
  | ifThen hword he => exact absurd hend Bool.false_ne_true
  | elseIf hword hword' he => cases hitem
  | «else» hword hnot => cases hitem
  | endif hword =>
    obtain rfl := Option.some.inj hitem
    exact ⟨_, _, _, items', hstatement, hword, hnext, rfl, hinner⟩
  | loop hword hnames hin he => exact absurd hend Bool.false_ne_true
  | endfor hword => cases hitem

variable (J)

/-- Parts of a template come first, `lead` says what of the very first one; the items behind them end the parts, with
`frames` open. -/
def Begins (input : Str) (frames : List Frame) (bound : ℕ) (lead : Bool) (toks : List Token) : Prop :=
  ∃ (t : Tree J) (rest : List Token) (items : List (Item J)), Parses input toks (.blocks t) rest ∧
    Reads input rest items ∧ items.length ≤ bound ∧ t.lead (leads items) = lead ∧ nestAll items frames = some [] ∧
      Ends items

/-- What follows the first branch of an `if` comes first; behind it `frames` are open. -/
def Closes (input : Str) (frames : List Frame) (bound : ℕ) (toks : List Token) : Prop :=
  ∃ (other : Option (Tree J)) (rest : List Token) (items : List (Item J)), Parses input toks (.tail other) rest ∧
    Reads input rest items ∧ items.length < bound ∧ nestAll items frames = some []

variable {J}

/-- What begins with a template still does with a part in front of it. -/
theorem Begins.part {bound bound' : ℕ} {lead lead' : Bool} {toks' : List Token}
    (h : Begins J input frames bound lead toks') (hle : bound ≤ bound')
    (hpart : ∀ (t : Tree J) rest, Parses input toks' (.blocks t) rest →
      ∃ t' : Tree J, Parses input toks (.blocks t') rest ∧ ∀ behind, t.lead behind = lead → t'.lead behind = lead') :
    Begins J input frames bound' lead' toks := by
  obtain ⟨t, rest, items, ht, hreads, hlen, hlead, hnest, hends⟩ := h
  obtain ⟨t', ht', hlead'⟩ := hpart t rest ht
  exact ⟨t', rest, items, ht', hreads, Nat.le_trans hlen hle, hlead' _ hlead, hnest, hends⟩

/-- No part of a template comes first. -/
theorem begins_nil (hreads : Reads input toks items) (hnest : nestAll items frames = some []) (hends : Ends items) :
    Begins J input frames items.length (leads items) toks :=
  ⟨.nil, toks, items, .nil, hreads, Nat.le_refl _, rfl, hnest, hends⟩

/-- **Nested items are parts of a template**, by induction on how many there are. -/
theorem nest_begins (n : ℕ) :
    (∀ toks (items : List (Item J)) frames, items.length ≤ n → Reads input toks items →
      nestAll items frames = some [] → Begins J input frames items.length (leads items) toks) ∧
    ∀ toks (items : List (Item J)) frames, items.length ≤ n → Reads input toks items → Ends items →
      nestAll items (.branch true :: frames) = some [] → Closes J input frames items.length toks := by
  induction n with
  | zero =>
    refine ⟨fun toks items frames hlen hreads hnest => ?_, fun toks items frames hlen _ _ hnest => ?_⟩
    · obtain rfl := List.eq_nil_of_length_eq_zero (Nat.le_zero.mp hlen)
      exact begins_nil hreads hnest (by simp [Ends])
    · obtain rfl := List.eq_nil_of_length_eq_zero (Nat.le_zero.mp hlen)
      cases hnest
  | succ n ih =>
    obtain ⟨ihb, ihc⟩ := ih
    refine ⟨fun toks items frames hlen hreads hnest => ?_, fun toks items frames hlen hreads hends hnest => ?_⟩
    · cases hreads with
      | nil => exact begins_nil .nil hnest (by simp [Ends])
      | cons htakes hnext =>
        have hall := Reads.cons htakes hnext
        rw [List.length_cons] at hlen
        obtain ⟨between, hitem, hinner⟩ := nestAll_cons hnest
        cases htakes with
        | text htok =>
          obtain rfl := Option.some.inj hitem
          exact (ihb _ _ frames (by omega) hnext hinner).part (Nat.le_succ _)
            fun t rest ht => ⟨_, .text htok ht, fun _ _ => rfl⟩
        | print hopening he hclose =>
          obtain rfl := Option.some.inj hitem
          exact (ihb _ _ frames (by omega) hnext hinner).part (Nat.le_succ _)
            fun t rest ht => ⟨_, .print hopening he hclose ht, fun _ _ => (leads_cons (.print _) _ rfl).symm⟩
        | comment hopening hclose =>
          obtain rfl := Option.some.inj hitem
          exact (ihb _ _ frames (by omega) hnext hinner).part (Nat.le_succ _)
            fun t rest ht => ⟨_, .comment hopening hclose ht, fun _ hlead => hlead⟩
        | statement hstatement hwords =>
          cases hwords with
          | ifThen hword he =>
            obtain rfl := Option.some.inj hitem
            obtain ⟨b, tail, items, hb, hreads, hlenb, -, hnestb, hends⟩ := ihb _ _ _ (by omega) hnext hinner
            obtain ⟨other, next, items', hother, hreads', hlent, hnestt⟩ := ihc _ _ _ (by omega) hreads hends hnestb
            exact (ihb _ _ frames (by omega) hreads' hnestt).part (by rw [List.length_cons]; omega)
              fun t rest ht => ⟨_, .conditional hstatement hword he hb hother ht,
                fun _ _ => (lead_conditional _ _ _ _ _).trans (leads_cons (.ifThen _) _ rfl).symm⟩
          | loop hword hnames hin he =>
            obtain rfl := Option.some.inj hitem
            obtain ⟨b, tail, items, hb, hreads, hlenb, -, hnestb, hends⟩ := ihb _ _ _ (by omega) hnext hinner
            obtain ⟨word', after', next, items', hend, hword', hreads', rfl, hnestt⟩ := hreads.endfor hends hnestb
            rw [List.length_cons] at hlenb
            exact (ihb _ _ frames (by omega) hreads' hnestt).part (by rw [List.length_cons]; omega)
              fun t rest ht => ⟨_, .loop hstatement hword hnames hin he hb hend hword' ht,
                fun _ _ => (leads_cons (.loop _ _ _) _ rfl).symm⟩
          | elseIf hword hword' he => exact begins_nil hall hnest (by simp [Ends, Item.ends])
          | «else» hword hnot => exact begins_nil hall hnest (by simp [Ends, Item.ends])
          | endif hword => exact begins_nil hall hnest (by simp [Ends, Item.ends])
          | endfor hword => exact begins_nil hall hnest (by simp [Ends, Item.ends])
    · obtain ⟨inner, after, rest, item, items, between, hstatement, hwords, hnext, rfl, hend, hitem, hinner⟩ :=
        hreads.ending hends hnest
      rw [List.length_cons] at hlen
      cases hwords with
      | ifThen hword he => exact absurd hend Bool.false_ne_true
      | loop hword hnames hin he => exact absurd hend Bool.false_ne_true
      | endfor hword => cases hitem
      | endif hword =>
        obtain rfl := Option.some.inj hitem
        exact ⟨none, _, _, .endif hstatement hword, hnext, Nat.lt_succ_self _, hinner⟩
      | «else» hword hnot =>
        obtain rfl := Option.some.inj hitem
        obtain ⟨b, tail, items, hb, hreads, hlenb, -, hnestb, hends⟩ := ihb _ _ _ (by omega) hnext hinner
        obtain ⟨word', after', next, items', hend, hword', hreads', rfl, hnestt⟩ := hreads.endif hends hnestb
        rw [List.length_cons] at hlenb
        exact ⟨some b, next, items', .else hstatement hword hb hend hword', hreads',
          by rw [List.length_cons]; omega, hnestt⟩
      | elseIf hword hword' he =>
        obtain rfl := Option.some.inj hitem
        obtain ⟨b, tail, items, hb, hreads, hlenb, -, hnestb, hends⟩ := ihb _ _ _ (by omega) hnext hinner
        obtain ⟨other, next, items', hother, hreads', hlent, hnestt⟩ := ihc _ _ _ (by omega) hreads hends hnestb
        exact ⟨_, next, items', .elseIf hstatement hword hword' he hb hother, hreads',
          by rw [List.length_cons]; omega, hnestt⟩

/-- **A text is a template if and only if its blocks nest**, and what comes first is the same. -/
theorem isTemplate_iff_nest (lead : Bool) :
    (∃ t : Tree J, IsTemplate input t ∧ t.swappable = lead) ↔
      ∃ items : List (Item J), Reads input (tokens input) items ∧ nestAll items [] = some [] ∧ leads items = lead := by
  constructor
  · rintro ⟨t, ht, rfl⟩
    obtain ⟨items, hreads, hlead, hnest⟩ := parses_nest ht [] .nil
    exact ⟨items, hreads, hnest [], hlead.trans (lead_true t)⟩
  · rintro ⟨items, hreads, hnest, rfl⟩
    obtain ⟨t, rest, items', ht, hreads', -, hlead, hnest', hends⟩ :=
      (nest_begins items.length).1 _ _ [] (Nat.le_refl _) hreads hnest
    -- with no block open an item that ends a part would not be there
    have hnil : items' = [] := by
      cases items' with
      | nil => rfl
      | cons item items' =>
        obtain ⟨between, hitem, -⟩ := nestAll_cons hnest'
        have hend := hends item rfl
        cases item with
        | elseIf condition => cases hitem
        | «else» => cases hitem
        | endif => cases hitem
        | endfor => cases hitem
        | _ => exact absurd hend Bool.false_ne_true
    subst hnil
    cases hreads'
    exact ⟨t, ht, (lead_true t).symm.trans hlead⟩

end EnvoyWasmFilters.Inja
