import EnvoyWasmFilters.Common.RequestInfo
import EnvoyWasmFilters.Library.Decimal
import EnvoyWasmFilters.Library.Delimited
import EnvoyWasmFilters.Library.NamedFlags
import Mathlib.Data.List.Induction

/-!
# What a response flag string says

`parseResponseFlag` joins the short names of the flags that are set, and adds the number where a bit is
set that has no name.

* `parseResponseFlag_eq` — the string as a list of items, joined;
* `decodeResponseFlag` — the word of a string, `decodeResponseFlag_parseResponseFlag` that it is;
* `parseResponseFlag_lossless` — **the string determines the word**, and what its items are.
-/

namespace EnvoyWasmFilters.Common

open NamedFlags Delimited

/-! ### Joining -/

/-- `appendString` joins items that are not empty. -/
theorem foldl_appendString {items : List Str} (hitems : [] ∉ items) :
    items.foldl appendString [] = [','].intercalate items := by
  induction items using List.reverseRecOn with
  | nil => rfl
  | append_singleton items item ih =>
    have hrest : [] ∉ items := fun hnil => hitems (List.mem_append_left _ hnil)
    rw [List.foldl_append, ih hrest]
    by_cases hnil : items = []
    · rw [hnil, List.nil_append, List.intercalate_singleton]
      rfl
    · rw [intercalate_concat _ hnil, List.foldl_cons, List.foldl_nil, appendString,
        if_neg (intercalate_ne_nil _ hnil hrest)]
      rfl

/-! ### The items -/

/-- The short names of the known flags that are set. -/
def flagNames (responseFlag : UInt64) : List Str := setNames responseFlags responseFlag

/-- Some bit above the last known flag is set. -/
def BitAbove (responseFlag : UInt64) : Prop := ∃ i, 18 < i ∧ responseFlag.toNat.testBit i = true

/-- The items that are joined. -/
def flagItems (responseFlag : UInt64) : List Str :=
  flagNames responseFlag
    ++ if lastFlag <<< 1 ≤ responseFlag then [stdToString responseFlag.toNat] else []

theorem le_iff_bitAbove (responseFlag : UInt64) :
    lastFlag <<< 1 ≤ responseFlag ↔ BitAbove responseFlag := by
  show 2 ^ 19 ≤ responseFlag.toNat ↔ BitAbove responseFlag
  constructor
  · intro hle
    obtain ⟨i, hi, hbit⟩ := Nat.exists_ge_and_testBit_of_ge_two_pow hle
    exact ⟨i, hi, hbit⟩
  · rintro ⟨i, hi, hbit⟩
    by_contra hlt
    have hpow : responseFlag.toNat < 2 ^ i :=
      lt_of_lt_of_le (not_le.mp hlt) (Nat.pow_le_pow_right Nat.two_pos hi)
    rw [Nat.testBit_lt_two_pow hpow] at hbit
    exact Bool.false_ne_true hbit

/-- A numeral: one digit or more, and nothing else. -/
def isNumeral (item : Str) : Bool := item ≠ [] ∧ item.all Char.isDigit

theorem isNumeral_stdToString (n : ℕ) : isNumeral (stdToString n) = true := by
  rw [isNumeral, decide_eq_true_eq]
  refine ⟨?_, List.all_eq_true.mpr fun c hc => ?_⟩
  · exact Nat.toDigits_ne_nil
  · exact Nat.isDigit_of_mem_toDigits (by decide) (by decide) hc

/-- What the table of names is good for: its flags are single bits, its names differ, and no name is
empty, a numeral, the sign for no flag, or split by a comma. -/
theorem responseFlags_table :
    (∀ flag ∈ responseFlags, IsFlag flag.1) ∧ (responseFlags.map Prod.snd).Nodup ∧
      ∀ flag ∈ responseFlags, flag.2 ≠ [] ∧ ',' ∉ flag.2 ∧ flag.2 ≠ "-" ∧ isNumeral flag.2 = false := by
  decide +kernel

theorem mem_flagNames {responseFlag : UInt64} {name : Str} (h : name ∈ flagNames responseFlag) :
    ∃ flag ∈ responseFlags, flag.2 = name := by
  obtain ⟨flag, hflag, hname⟩ := List.mem_map.mp h
  exact ⟨flag, (List.mem_filter.mp hflag).1, hname⟩

theorem comma_notMem_of_isNumeral {item : Str} (h : isNumeral item = true) : ',' ∉ item := by
  intro hcomma
  obtain ⟨-, hall⟩ := of_decide_eq_true h
  exact absurd (List.all_eq_true.mp hall ',' hcomma) (by decide)

/-- An item is a name or a numeral. -/
theorem mem_flagItems {responseFlag : UInt64} {item : Str} (h : item ∈ flagItems responseFlag) :
    (∃ flag ∈ responseFlags, flag.2 = item) ∨ isNumeral item = true := by
  obtain hname | hnumber := List.mem_append.mp h
  · exact .inl (mem_flagNames hname)
  · split at hnumber
    · rw [List.mem_singleton.mp hnumber]
      exact .inr (isNumeral_stdToString _)
    · exact absurd hnumber List.not_mem_nil

/-- No item is empty, has a comma or is the sign for no flag. -/
theorem flagItem_ne {responseFlag : UInt64} {item : Str} (h : item ∈ flagItems responseFlag) :
    item ≠ [] ∧ ',' ∉ item ∧ item ≠ "-" := by
  obtain ⟨flag, hflag, rfl⟩ | hnumeral := mem_flagItems h
  · obtain ⟨hne, hcomma, hnone, -⟩ := responseFlags_table.2.2 flag hflag
    exact ⟨hne, hcomma, hnone⟩
  · refine ⟨(of_decide_eq_true hnumeral).1, comma_notMem_of_isNumeral hnumeral, ?_⟩
    rintro rfl
    exact absurd hnumeral (by decide)

theorem flagItems_nodup (responseFlag : UInt64) : (flagItems responseFlag).Nodup := by
  obtain ⟨-, hnodup, htable⟩ := responseFlags_table
  apply (setNames_nodup hnodup responseFlag).append
  · split
    · exact List.nodup_singleton _
    · exact List.nodup_nil
  · intro item hname hnumber
    obtain ⟨flag, hflag, rfl⟩ := mem_flagNames hname
    split at hnumber
    · have hnumeral := isNumeral_stdToString responseFlag.toNat
      rw [← List.mem_singleton.mp hnumber, (htable flag hflag).2.2.2] at hnumeral
      exact Bool.false_ne_true hnumeral
    · exact absurd hnumber List.not_mem_nil

/-- **The string is the items, joined.** -/
theorem parseResponseFlag_eq (responseFlag : UInt64) :
    parseResponseFlag responseFlag
      = if flagItems responseFlag = [] then ['-']
        else [','].intercalate (flagItems responseFlag) := by
  have hitems : [] ∉ flagItems responseFlag := fun hnil => (flagItem_ne hnil).1 rfl
  have hfold : (flagItems responseFlag).foldl appendString []
      = if lastFlag <<< 1 ≤ responseFlag then
          appendString ((flagNames responseFlag).foldl appendString []) (stdToString responseFlag.toNat)
        else (flagNames responseFlag).foldl appendString [] := by
    rw [flagItems, List.foldl_append]
    split <;> rfl
  have hnames : (flagNames responseFlag).foldl appendString []
      = responseFlags.foldl (fun result flag =>
          if responseFlag &&& flag.1 ≠ 0 then appendString result flag.2 else result) [] := by
    rw [flagNames, setNames, List.foldl_map, List.foldl_filter]
    simp only [decide_eq_true_eq]
  rw [parseResponseFlag, ← hnames]
  show (if (if lastFlag <<< 1 ≤ responseFlag then _ else _) = [] then _ else _) = _
  rw [← hfold, foldl_appendString hitems]
  by_cases hnil : flagItems responseFlag = []
  · rw [if_pos hnil, hnil]
    rfl
  · rw [if_neg hnil, if_neg (intercalate_ne_nil _ hnil hitems)]

/-- The items of a string that says more than that no flag is set. -/
theorem splitOn_parseResponseFlag {responseFlag : UInt64} (h : flagItems responseFlag ≠ []) :
    (parseResponseFlag responseFlag).splitOn ',' = flagItems responseFlag := by
  rw [parseResponseFlag_eq, if_neg h]
  exact List.splitOn_intercalate ',' (fun _ hitem => (flagItem_ne hitem).2.1) h

/-! ### Decoding -/

/-- The word of a string: the number in it, or else the flags that it names. -/
def decodeResponseFlag (s : Str) : UInt64 :=
  match (s.splitOn ',').find? isNumeral with
  | some numeral => UInt64.ofNat (Decimal.value numeral)
  | none => ofNames responseFlags (s.splitOn ',')

/-- A word without a bit above the known flags is told by its names. -/
theorem ofNames_flagNames {responseFlag : UInt64} (h : ¬ lastFlag <<< 1 ≤ responseFlag) :
    ofNames responseFlags (flagNames responseFlag) = responseFlag := by
  obtain ⟨hflags, hnodup, -⟩ := responseFlags_table
  have hlt : responseFlag.toNat < 2 ^ 19 := not_le.mp h
  rw [flagNames, ofNames_setNames hflags hnodup]
  apply UInt64.toNat.inj
  rw [UInt64.toNat_and]
  exact Nat.and_two_pow_sub_one_of_lt_two_pow hlt

/-- No item is there just for the word without a flag. -/
theorem flagItems_eq_nil_iff (responseFlag : UInt64) :
    flagItems responseFlag = [] ↔ responseFlag = 0 := by
  constructor
  · intro hnil
    obtain ⟨hnames, hnumber⟩ := List.append_eq_nil_iff.mp hnil
    have hlt : ¬ lastFlag <<< 1 ≤ responseFlag := by
      intro hle
      rw [if_pos hle] at hnumber
      exact List.cons_ne_nil _ _ hnumber
    rw [← ofNames_flagNames hlt, hnames]
    rfl
  · rintro rfl
    decide +kernel

/-- **The decoder recovers the word.** -/
theorem decodeResponseFlag_parseResponseFlag (responseFlag : UInt64) :
    decodeResponseFlag (parseResponseFlag responseFlag) = responseFlag := by
  by_cases hnil : flagItems responseFlag = []
  · rw [(flagItems_eq_nil_iff responseFlag).mp hnil]
    decide +kernel
  · have hnames : (flagNames responseFlag).find? isNumeral = none := by
      rw [List.find?_eq_none]
      intro name hname
      obtain ⟨flag, hflag, rfl⟩ := mem_flagNames hname
      rw [(responseFlags_table.2.2 flag hflag).2.2.2]
      exact Bool.false_ne_true
    rw [decodeResponseFlag, splitOn_parseResponseFlag hnil, flagItems, List.find?_append, hnames,
      Option.none_or]
    by_cases hle : lastFlag <<< 1 ≤ responseFlag
    · rw [if_pos hle, List.find?_cons_of_pos (isNumeral_stdToString _)]
      show UInt64.ofNat (Decimal.value (Nat.toDigits 10 _)) = responseFlag
      rw [Decimal.value_toDigits, UInt64.ofNat_toNat]
    · rw [if_neg hle, List.append_nil, List.find?_nil]
      exact ofNames_flagNames hle

/-- **No information is lost.**  A decoder recovers every word.  The string is `-` for the word without a
flag only; for any other it is a list of different items, not empty and free of commas, joined by commas:
the names of the known flags that are set, and after them the number exactly if there is a bit above. -/
theorem parseResponseFlag_lossless :
    (∃ decode : Str → UInt64, ∀ responseFlag, decode (parseResponseFlag responseFlag) = responseFlag) ∧
      ∀ responseFlag : UInt64, (parseResponseFlag responseFlag = "-" ↔ responseFlag = 0) ∧
        (responseFlag ≠ 0 → ∃ items : List Str,
          parseResponseFlag responseFlag = [','].intercalate items ∧
          (∀ item ∈ items, item ≠ [] ∧ ',' ∉ item) ∧ items.Nodup ∧
          (BitAbove responseFlag →
            items = flagNames responseFlag ++ [stdToString responseFlag.toNat]) ∧
          (¬ BitAbove responseFlag → items = flagNames responseFlag)) := by
  refine ⟨⟨decodeResponseFlag, decodeResponseFlag_parseResponseFlag⟩, fun responseFlag => ⟨?_, ?_⟩⟩
  · rw [← flagItems_eq_nil_iff]
    constructor
    · intro hnone
      by_contra hnil
      have hitems := splitOn_parseResponseFlag hnil
      rw [hnone] at hitems
      have hmem : ("-" : Str) ∈ flagItems responseFlag := by
        rw [← hitems]
        decide +kernel
      exact (flagItem_ne hmem).2.2 rfl
    · intro hnil
      rw [parseResponseFlag_eq, if_pos hnil]
      rfl
  · intro hne
    have hnil : flagItems responseFlag ≠ [] := fun h => hne ((flagItems_eq_nil_iff _).mp h)
    refine ⟨flagItems responseFlag, ?_, fun item hitem => ?_, flagItems_nodup responseFlag, ?_, ?_⟩
    · rw [parseResponseFlag_eq, if_neg hnil]
    · exact ⟨(flagItem_ne hitem).1, (flagItem_ne hitem).2.1⟩
    · intro hbit
      rw [flagItems, if_pos ((le_iff_bitAbove _).mpr hbit)]
    · intro hbit
      rw [flagItems, if_neg fun hle => hbit ((le_iff_bitAbove _).mp hle), List.append_nil]

end EnvoyWasmFilters.Common
