import Mathlib.Data.List.Nodup

/-!
# Named flags of a word

A table gives names to single bits of a word.  The names of the bits that are set tell the word, as far
as the table knows its bits.

* `IsFlag` — the words with one bit;
* `setNames table w` — the names of the flags of `w`;
* `ofNames table names` — the word of the flags named;
* `ofNames_setNames` — **the names tell the word**, up to the bits outside the table.
-/

namespace NamedFlags

/-- A word with one bit. -/
def IsFlag (m : UInt64) : Prop := ∃ i < 64, m.toBitVec = BitVec.twoPow 64 i

instance (m : UInt64) : Decidable (IsFlag m) :=
  inferInstanceAs (Decidable (∃ i < 64, m.toBitVec = BitVec.twoPow 64 i))

/-- A flag is in a word or has no bit in common with it. -/
theorem IsFlag.and_eq {m : UInt64} (h : IsFlag m) {w : UInt64} (hw : w &&& m ≠ 0) : w &&& m = m := by
  obtain ⟨i, -, hm⟩ := h
  have hand : (w &&& m).toBitVec = if w.toBitVec.getLsbD i then m.toBitVec else 0#64 := by
    rw [UInt64.toBitVec_and, hm, BitVec.and_twoPow]
  by_cases hi : w.toBitVec.getLsbD i = true
  · rw [if_pos hi] at hand
    exact UInt64.toBitVec_inj.mp hand
  · rw [if_neg hi] at hand
    exact absurd (UInt64.toBitVec_inj.mp hand) hw

theorem and_or_distrib (w m n : UInt64) : w &&& (m ||| n) = w &&& m ||| w &&& n :=
  UInt64.toBitVec_inj.mp BitVec.and_or_distrib_left

variable {β : Type*}

/-- The names of the flags in `w`, in the order of the table. -/
def setNames (table : List (UInt64 × β)) (w : UInt64) : List β :=
  (table.filter fun flag => w &&& flag.1 ≠ 0).map Prod.snd

/-- The bits that the table knows. -/
def mask (table : List (UInt64 × β)) : UInt64 := table.foldr (fun flag m => flag.1 ||| m) 0

theorem mem_setNames {table : List (UInt64 × β)} (htable : (table.map Prod.snd).Nodup)
    {flag : UInt64 × β} (hflag : flag ∈ table) (w : UInt64) :
    flag.2 ∈ setNames table w ↔ w &&& flag.1 ≠ 0 := by
  rw [setNames, List.mem_map]
  constructor
  · rintro ⟨flag', hflag', hname⟩
    obtain ⟨hmem, hset⟩ := List.mem_filter.mp hflag'
    rw [List.inj_on_of_nodup_map htable hflag hmem hname.symm]
    exact of_decide_eq_true hset
  · intro hset
    exact ⟨flag, List.mem_filter.mpr ⟨hflag, decide_eq_true hset⟩, rfl⟩

theorem setNames_nodup {table : List (UInt64 × β)} (htable : (table.map Prod.snd).Nodup)
    (w : UInt64) : (setNames table w).Nodup :=
  (List.filter_sublist.map Prod.snd).nodup htable

variable [DecidableEq β]

/-- The word of the flags whose names are listed. -/
def ofNames (table : List (UInt64 × β)) (names : List β) : UInt64 :=
  table.foldr (fun flag w => if flag.2 ∈ names then flag.1 ||| w else w) 0

/-- A list that names just the flags of `w`. -/
theorem ofNames_eq {table : List (UInt64 × β)} (hflags : ∀ flag ∈ table, IsFlag flag.1)
    {names : List β} {w : UInt64} (h : ∀ flag ∈ table, flag.2 ∈ names ↔ w &&& flag.1 ≠ 0) :
    ofNames table names = w &&& mask table := by
  induction table with
  | nil => exact (UInt64.and_zero).symm
  | cons flag table ih =>
    have hrest := ih (fun flag' hflag' => hflags flag' (List.mem_cons_of_mem flag hflag'))
      (fun flag' hflag' => h flag' (List.mem_cons_of_mem flag hflag'))
    rw [ofNames, List.foldr_cons, mask, List.foldr_cons, and_or_distrib]
    rw [ofNames, mask] at hrest
    by_cases hset : w &&& flag.1 = 0
    · rw [if_neg fun hname => (h flag List.mem_cons_self).mp hname hset, hset, UInt64.zero_or]
      exact hrest
    · rw [if_pos ((h flag List.mem_cons_self).mpr hset), (hflags flag List.mem_cons_self).and_eq hset,
        hrest]

/-- **The names tell the word.** -/
theorem ofNames_setNames {table : List (UInt64 × β)} (hflags : ∀ flag ∈ table, IsFlag flag.1)
    (htable : (table.map Prod.snd).Nodup) (w : UInt64) :
    ofNames table (setNames table w) = w &&& mask table :=
  ofNames_eq hflags fun _ hflag => mem_setNames htable hflag w

end NamedFlags
