import Mathlib.Data.List.Perm.Basic

/-!
# Rewriting a multimap key by key

A multimap is a list of key–value entries in which a key may occur any number of times.  A *write*
`(k, o)` removes every entry of the key `k` and, when `o = some v`, appends the single entry
`(k, v)`; a list of writes is carried out from left to right, one after the other.

* `putAll_eq` — **the normal form**: after the writes `ws` the multimap consists of the old entries
  under keys `ws` does not write, in their old order, followed by `settled ws`, the entries of the
  last write of each key;
* `filter_putAll`, `entriesOf_putAll_of_notMem` — the frame: other keys are untouched;
* `entriesOf_settled_length_le`, `entriesOf_putAll_of_agree`, `entriesOf_putAll_concat` — what a
  written key holds;
* `putAll_perm` — the order of the writes is irrelevant when writes of one key agree;
* `putAll_eq_self_iff` — exactly when a list of writes changes nothing.

Keys and values are arbitrary, keys with decidable equality.
-/

namespace Multimap

variable {K V : Type*}

/-- The entry a write leaves behind, as a list of at most one entry. -/
def written (w : K × Option V) : List (K × V) := (w.2.map (Prod.mk w.1)).toList

/-- The keys a list of writes is about. -/
def keys (ws : List (K × Option V)) : List K := ws.map Prod.fst

@[simp] theorem keys_nil : keys ([] : List (K × Option V)) = [] := rfl

@[simp] theorem keys_cons (w : K × Option V) (ws : List (K × Option V)) :
    keys (w :: ws) = w.1 :: keys ws := rfl

theorem mem_keys {k : K} {ws : List (K × Option V)} : k ∈ keys ws ↔ ∃ w ∈ ws, w.1 = k := by
  simp only [keys, List.mem_map]

theorem written_fst {w : K × Option V} {e : K × V} (he : e ∈ written w) : e.1 = w.1 := by
  obtain ⟨k, o⟩ := w
  cases o with
  | none => simp [written] at he
  | some v =>
    simp only [written, Option.map_some, Option.toList_some, List.mem_singleton] at he
    rw [he]

theorem written_length_le (w : K × Option V) : (written w).length ≤ 1 := by
  obtain ⟨k, o⟩ := w
  cases o <;> simp [written]

variable [DecidableEq K]

/-- `m` without the entries of the key `k`. -/
def removeAll (k : K) (m : List (K × V)) : List (K × V) := m.filter fun e => e.1 ≠ k

/-- The entries of the key `k`, in order. -/
def entriesOf (k : K) (m : List (K × V)) : List (K × V) := m.filter fun e => e.1 = k

/-- One write: drop the key's entries, then append the new one if there is one. -/
def put (m : List (K × V)) (w : K × Option V) : List (K × V) := removeAll w.1 m ++ written w

/-- A list of writes, carried out from left to right. -/
def putAll (m : List (K × V)) (ws : List (K × Option V)) : List (K × V) := ws.foldl put m

/-- The entries that survive a list of writes: those of the last write of each key. -/
def settled : List (K × Option V) → List (K × V)
  | [] => []
  | w :: ws => if w.1 ∈ keys ws then settled ws else written w ++ settled ws

theorem settled_cons (w : K × Option V) (ws : List (K × Option V)) :
    settled (w :: ws) = if w.1 ∈ keys ws then settled ws else written w ++ settled ws := rfl

/-- A surviving entry is what one of the writes leaves behind. -/
theorem mem_settled {ws : List (K × Option V)} {e : K × V} (he : e ∈ settled ws) :
    ∃ w ∈ ws, e ∈ written w := by
  induction ws with
  | nil => simp [settled] at he
  | cons w ws ih =>
    rw [settled_cons] at he
    split at he
    · obtain ⟨v, hv, hev⟩ := ih he
      exact ⟨v, List.mem_cons_of_mem w hv, hev⟩
    · rcases List.mem_append.mp he with h | h
      · exact ⟨w, List.mem_cons_self, h⟩
      · obtain ⟨v, hv, hev⟩ := ih h
        exact ⟨v, List.mem_cons_of_mem w hv, hev⟩

/-- Only written keys occur among the surviving entries. -/
theorem settled_fst {ws : List (K × Option V)} {e : K × V} (he : e ∈ settled ws) :
    e.1 ∈ keys ws := by
  obtain ⟨w, hw, hew⟩ := mem_settled he
  exact mem_keys.mpr ⟨w, hw, (written_fst hew).symm⟩

/-- A list all of whose keys lie outside `ks` is unchanged by keeping the keys outside `ks`. -/
theorem filter_notMem_eq_self {ks : List K} {m : List (K × V)} (h : ∀ e ∈ m, e.1 ∉ ks) :
    m.filter (fun e => e.1 ∉ ks) = m :=
  List.filter_eq_self.mpr fun e he => by simpa using h e he

/-- Nothing is left of a list all of whose keys lie in `ks` by keeping the keys outside `ks`. -/
theorem filter_notMem_eq_nil {ks : List K} {m : List (K × V)} (h : ∀ e ∈ m, e.1 ∈ ks) :
    m.filter (fun e => e.1 ∉ ks) = [] :=
  List.filter_eq_nil_iff.mpr fun e he => by simpa using h e he

/-- **Normal form of a list of writes.** -/
theorem putAll_eq (m : List (K × V)) (ws : List (K × Option V)) :
    putAll m ws = m.filter (fun e => e.1 ∉ keys ws) ++ settled ws := by
  induction ws generalizing m with
  | nil => simp [putAll, settled]
  | cons w ws ih =>
    have hstep : putAll m (w :: ws) = putAll (put m w) ws := rfl
    -- the first write's own entry survives the later writes exactly if they leave its key alone
    have hold : (removeAll w.1 m).filter (fun e => e.1 ∉ keys ws)
        = m.filter (fun e => e.1 ∉ keys (w :: ws)) := by
      rw [removeAll, List.filter_filter]
      apply List.filter_congr
      intro e _
      simp [not_or, Bool.and_comm]
    rw [hstep, ih, put, List.filter_append, hold, List.append_assoc]
    rw [settled_cons]
    by_cases hmem : w.1 ∈ keys ws
    · have hnil : (written w).filter (fun e => e.1 ∉ keys ws) = [] :=
        filter_notMem_eq_nil fun e he => (written_fst he).symm ▸ hmem
      rw [if_pos hmem, hnil, List.nil_append]
    · have hself : (written w).filter (fun e => e.1 ∉ keys ws) = written w :=
        filter_notMem_eq_self fun e he => (written_fst he).symm ▸ hmem
      rw [if_neg hmem, hself]

/-- **Frame.**  The entries under unwritten keys are unchanged, order included. -/
theorem filter_putAll (m : List (K × V)) (ws : List (K × Option V)) :
    (putAll m ws).filter (fun e => e.1 ∉ keys ws) = m.filter (fun e => e.1 ∉ keys ws) := by
  rw [putAll_eq, List.filter_append, filter_notMem_eq_nil fun e he => settled_fst he,
    List.append_nil, List.filter_filter]
  simp only [Bool.and_self]

theorem entriesOf_append (k : K) (m m' : List (K × V)) :
    entriesOf k (m ++ m') = entriesOf k m ++ entriesOf k m' := List.filter_append ..

/-- Entries under another key do not show among the entries of `k`. -/
theorem entriesOf_eq_nil {k : K} {m : List (K × V)} (h : ∀ e ∈ m, e.1 ≠ k) :
    entriesOf k m = [] :=
  List.filter_eq_nil_iff.mpr fun e he => by simpa using h e he

theorem entriesOf_eq_self {k : K} {m : List (K × V)} (h : ∀ e ∈ m, e.1 = k) :
    entriesOf k m = m :=
  List.filter_eq_self.mpr fun e he => by simpa using h e he

theorem entriesOf_putAll_of_notMem {k : K} {ws : List (K × Option V)} (hk : k ∉ keys ws)
    (m : List (K × V)) : entriesOf k (putAll m ws) = entriesOf k m := by
  have hset : entriesOf k (settled ws) = [] :=
    entriesOf_eq_nil fun e he heq => hk (heq ▸ settled_fst he)
  rw [putAll_eq, entriesOf_append, hset, List.append_nil, entriesOf, entriesOf, List.filter_filter]
  apply List.filter_congr
  intro e _
  by_cases he : e.1 = k
  · simp [he, hk]
  · simp [he]

theorem entriesOf_putAll_of_mem {k : K} {ws : List (K × Option V)} (hk : k ∈ keys ws)
    (m : List (K × V)) : entriesOf k (putAll m ws) = entriesOf k (settled ws) := by
  have hold : entriesOf k (m.filter fun e => e.1 ∉ keys ws) = [] := by
    apply entriesOf_eq_nil
    intro e he heq
    have hnot := (List.mem_filter.mp he).2
    simp [heq, hk] at hnot
  rw [putAll_eq, entriesOf_append, hold, List.nil_append]

/-- The entries of a key after a write of that key followed by writes of other keys only. -/
theorem entriesOf_settled_cons (k : K) (w : K × Option V) (ws : List (K × Option V)) :
    entriesOf k (settled (w :: ws))
      = if w.1 = k ∧ k ∉ keys ws then written w else entriesOf k (settled ws) := by
  rw [settled_cons]
  by_cases hmem : w.1 ∈ keys ws
  · rw [if_pos hmem, if_neg]
    rintro ⟨rfl, hnot⟩
    exact hnot hmem
  · rw [if_neg hmem, entriesOf_append]
    by_cases hwk : w.1 = k
    · have hrest : entriesOf k (settled ws) = [] :=
        entriesOf_eq_nil fun e he heq => hmem (hwk ▸ heq ▸ settled_fst he)
      rw [if_pos ⟨hwk, hwk ▸ hmem⟩, hrest, List.append_nil]
      exact entriesOf_eq_self fun e he => (written_fst he).trans hwk
    · rw [if_neg fun h => hwk h.1]
      rw [entriesOf_eq_nil fun e he heq => hwk ((written_fst he).symm.trans heq), List.nil_append]

/-- A written key holds at most one entry afterwards. -/
theorem entriesOf_settled_length_le (k : K) (ws : List (K × Option V)) :
    (entriesOf k (settled ws)).length ≤ 1 := by
  induction ws with
  | nil => simp [settled, entriesOf]
  | cons w ws ih =>
    rw [entriesOf_settled_cons]
    split
    · exact written_length_le w
    · exact ih

/-- If every write of `k` carries `o` and there is one, `k` holds exactly what `o` says. -/
theorem entriesOf_settled_of_agree {k : K} {o : Option V} {ws : List (K × Option V)}
    (hk : k ∈ keys ws) (hagree : ∀ w ∈ ws, w.1 = k → w.2 = o) :
    entriesOf k (settled ws) = written (k, o) := by
  induction ws with
  | nil => simp at hk
  | cons w ws ih =>
    rw [entriesOf_settled_cons]
    split
    · rename_i h
      have hw : w = (k, o) := Prod.ext h.1 (hagree w List.mem_cons_self h.1)
      rw [hw]
    · rename_i h
      have hk' : k ∈ keys ws := by
        rw [keys_cons, List.mem_cons] at hk
        rcases hk with rfl | hk
        · by_contra hnot
          exact h ⟨rfl, hnot⟩
        · exact hk
      exact ih hk' fun w' hw' => hagree w' (List.mem_cons_of_mem w hw')

theorem entriesOf_putAll_of_agree {k : K} {o : Option V} {ws : List (K × Option V)}
    (hk : k ∈ keys ws) (hagree : ∀ w ∈ ws, w.1 = k → w.2 = o) (m : List (K × V)) :
    entriesOf k (putAll m ws) = written (k, o) := by
  rw [entriesOf_putAll_of_mem hk, entriesOf_settled_of_agree hk hagree]

/-- The last write of all decides its key. -/
theorem entriesOf_putAll_concat (m : List (K × V)) (ws : List (K × Option V)) (w : K × Option V) :
    entriesOf w.1 (putAll m (ws ++ [w])) = written w := by
  have hput : putAll m (ws ++ [w]) = put (putAll m ws) w := by
    rw [putAll, List.foldl_append]
    rfl
  have hnone : entriesOf w.1 (removeAll w.1 (putAll m ws)) = [] := by
    apply entriesOf_eq_nil
    intro e he
    simpa using (List.mem_filter.mp he).2
  rw [hput, put, entriesOf_append, hnone, List.nil_append]
  exact entriesOf_eq_self fun e he => written_fst he

/-- **Order independence.**  When writes of one key agree, any order of the writes leaves every key
with the same entries. -/
theorem putAll_perm {ws vs : List (K × Option V)} (hperm : ws.Perm vs)
    (hagree : ∀ w ∈ ws, ∀ w' ∈ ws, w.1 = w'.1 → w.2 = w'.2) (m : List (K × V)) (k : K) :
    entriesOf k (putAll m ws) = entriesOf k (putAll m vs) := by
  by_cases hk : k ∈ keys ws
  · obtain ⟨w, hw, rfl⟩ := mem_keys.mp hk
    have hkv : w.1 ∈ keys vs := mem_keys.mpr ⟨w, hperm.mem_iff.mp hw, rfl⟩
    rw [entriesOf_putAll_of_agree hk fun w' hw' h => hagree w' hw' w hw h,
      entriesOf_putAll_of_agree hkv fun w' hw' h => hagree w' (hperm.mem_iff.mpr hw') w hw h]
  · have hkv : k ∉ keys vs := fun h => by
      obtain ⟨w, hw, rfl⟩ := mem_keys.mp h
      exact hk (mem_keys.mpr ⟨w, hperm.mem_iff.mpr hw, rfl⟩)
    rw [entriesOf_putAll_of_notMem hk, entriesOf_putAll_of_notMem hkv]

/-- **When writes change nothing.**  A list of writes leaves the multimap as it is exactly when the
multimap already ends in the surviving entries and holds no other entry under a written key. -/
theorem putAll_eq_self_iff (m : List (K × V)) (ws : List (K × Option V)) :
    putAll m ws = m ↔ ∃ rest, m = rest ++ settled ws ∧ ∀ e ∈ rest, e.1 ∉ keys ws := by
  constructor
  · intro h
    refine ⟨m.filter fun e => e.1 ∉ keys ws, ?_, fun e he => ?_⟩
    · rw [← putAll_eq, h]
    · simpa using (List.mem_filter.mp he).2
  · rintro ⟨rest, rfl, hrest⟩
    rw [putAll_eq, List.filter_append, filter_notMem_eq_self hrest,
      filter_notMem_eq_nil fun e he => settled_fst he, List.append_nil]

end Multimap
