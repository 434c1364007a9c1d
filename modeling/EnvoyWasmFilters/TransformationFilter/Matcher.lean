import EnvoyWasmFilters.TransformationFilter.Proto

/-!
# Header matchers

`matcher.cc`: the four string matchers, and `MatcherImpl`, which stores one of them for each header
*name* of a rule's match and asks all of them.

The second half says what a match entry asks for (`HeaderMatch.Satisfied`, from the message's own
fields) and proves that a stored matcher asks exactly that (`newMatcher_matches_iff`), and that
`MatcherImpl` asks it of exactly the entries that no later entry of the same name replaces
(`MatcherImpl.matches_iff`).
-/

namespace EnvoyWasmFilters.TransformationFilter

/-- The classes derived from `StringMatcher`. -/
inductive StringMatcher where
  | prefixMatcher (pre : Str)
  | suffixMatcher (suffix : Str)
  | exactMatcher (exact : Str)
  | presentMatcher
deriving DecidableEq

/-- `PrefixMatcher::matches`, `SuffixMatcher::matches`, `ExactMatcher::matches` and
`PresentMatcher::matches`. -/
def StringMatcher.matches : StringMatcher → Str → Bool
  | .prefixMatcher pre, text =>
      pre.isEmpty || (decide (pre.length ≤ text.length) && text.take pre.length == pre)
  | .suffixMatcher suffix, text =>
      suffix.isEmpty || (decide (suffix.length ≤ text.length) &&
        (text.drop (text.length - suffix.length)).take suffix.length == suffix)
  | .exactMatcher exact, text => exact == text
  | .presentMatcher, _ => true

/-- `newMatcher`. -/
def newMatcher (config : HeaderMatch) : StringMatcher :=
  match config.headerMatchSpecifier with
  | some (.exactMatch value) => .exactMatcher value
  | some (.prefixMatch value) => .prefixMatcher value
  | some (.suffixMatch value) => .suffixMatcher value
  | some (.presentMatch _) => .presentMatcher
  | none => .presentMatcher

/-- `class MatcherImpl`: a matcher for each header name. -/
structure MatcherImpl where
  matchers : Dict StringMatcher

/-- The constructor: `matchers_[header_matcher.name()] = newMatcher(header_matcher)` for each entry,
so that an entry replaces the one stored under its name. -/
def MatcherImpl.new (matcher : Matcher) : MatcherImpl where
  matchers := matcher.headerMatchers.foldl (fun m entry => m.insert entry.name (newMatcher entry)) ∅

/-- `MatcherImpl::matches`: every stored matcher accepts the first value of its header. -/
def MatcherImpl.matches (m : MatcherImpl) (headers : HeaderMap) : Bool :=
  m.matchers.entries.all fun pair =>
    match getHeader headers pair.1 with
    | none => false
    | some value => pair.2.matches value

/-! ### What a match entry asks for -/

/-- The condition a specifier puts on the header's value. -/
def HeaderMatchSpecifier.Accepts : HeaderMatchSpecifier → Str → Prop
  | .exactMatch value, text => text = value
  | .prefixMatch value, text => value <+: text
  | .suffixMatch value, text => value <:+ text
  | .presentMatch _, _ => True

/-- The entry's header is present and its first value is as the specifier, if any, asks. -/
def HeaderMatch.Satisfied (headers : HeaderMap) (entry : HeaderMatch) : Prop :=
  ∃ value, getHeader headers entry.name = some value ∧
    ∀ specifier ∈ entry.headerMatchSpecifier, specifier.Accepts value

/-- Every entry of the match is satisfied. -/
def Matcher.Satisfied (headers : HeaderMap) (matcher : Matcher) : Prop :=
  ∀ entry ∈ matcher.headerMatchers, entry.Satisfied headers

/-! ### The stored matchers -/

theorem prefixMatcher_matches_iff (pre text : Str) :
    (StringMatcher.prefixMatcher pre).matches text = true ↔ pre <+: text := by
  simp only [StringMatcher.matches, Bool.or_eq_true, Bool.and_eq_true, decide_eq_true_eq,
    List.isEmpty_iff, beq_iff_eq]
  constructor
  · rintro (rfl | ⟨-, h⟩)
    · exact List.nil_prefix
    · exact List.prefix_iff_eq_take.mpr h.symm
  · intro h
    exact Or.inr ⟨h.length_le, (List.prefix_iff_eq_take.mp h).symm⟩

theorem suffixMatcher_matches_iff (suffix text : Str) :
    (StringMatcher.suffixMatcher suffix).matches text = true ↔ suffix <:+ text := by
  simp only [StringMatcher.matches, Bool.or_eq_true, Bool.and_eq_true, decide_eq_true_eq,
    List.isEmpty_iff, beq_iff_eq]
  -- the compared slice has exactly the length of the suffix, so `take` cuts nothing off
  have hslice : suffix.length ≤ text.length →
      (text.drop (text.length - suffix.length)).take suffix.length
        = text.drop (text.length - suffix.length) := by
    intro hlen
    rw [List.take_of_length_le]
    rw [List.length_drop]
    omega
  constructor
  · rintro (rfl | ⟨hlen, h⟩)
    · exact List.nil_suffix
    · rw [hslice hlen] at h
      exact List.suffix_iff_eq_drop.mpr h.symm
  · intro h
    refine Or.inr ⟨h.length_le, ?_⟩
    rw [hslice h.length_le]
    exact (List.suffix_iff_eq_drop.mp h).symm

/-- A stored matcher accepts a value exactly when the entry's specifier does. -/
theorem newMatcher_matches_iff (entry : HeaderMatch) (value : Str) :
    (newMatcher entry).matches value = true ↔
      ∀ specifier ∈ entry.headerMatchSpecifier, specifier.Accepts value := by
  obtain ⟨name, specifier⟩ := entry
  cases specifier with
  | none => simp [newMatcher, StringMatcher.matches]
  | some specifier =>
    simp only [Option.mem_def, Option.some.injEq, forall_eq']
    cases specifier with
    | exactMatch expected =>
      simp only [newMatcher, StringMatcher.matches, HeaderMatchSpecifier.Accepts, beq_iff_eq]
      exact eq_comm
    | prefixMatch pre => exact prefixMatcher_matches_iff pre value
    | suffixMatch suffix => exact suffixMatcher_matches_iff suffix value
    | presentMatch flag => simp [newMatcher, StringMatcher.matches, HeaderMatchSpecifier.Accepts]

/-- The entries that no later entry of the list replaces. -/
def lastEntries : List HeaderMatch → List HeaderMatch
  | [] => []
  | entry :: entries =>
      if entry.name ∈ entries.map HeaderMatch.name then lastEntries entries
      else entry :: lastEntries entries

theorem lastEntries_nil : lastEntries [] = [] := rfl

theorem lastEntries_cons (entry : HeaderMatch) (entries : List HeaderMatch) :
    lastEntries (entry :: entries) =
      if entry.name ∈ entries.map HeaderMatch.name then lastEntries entries
      else entry :: lastEntries entries := rfl

theorem lastEntries_subset {entry : HeaderMatch} {entries : List HeaderMatch}
    (h : entry ∈ lastEntries entries) : entry ∈ entries := by
  induction entries with
  | nil => exact h
  | cons e es ih =>
    rw [lastEntries_cons] at h
    split at h
    · exact List.mem_cons_of_mem e (ih h)
    · rcases List.mem_cons.mp h with rfl | h
      · exact List.mem_cons_self
      · exact List.mem_cons_of_mem e (ih h)

/-- Each name of a match is that of an entry no later one replaces. -/
theorem exists_mem_lastEntries {entry : HeaderMatch} {entries : List HeaderMatch}
    (h : entry ∈ entries) : ∃ last ∈ lastEntries entries, last.name = entry.name := by
  induction entries generalizing entry with
  | nil => exact absurd h List.not_mem_nil
  | cons e es ih =>
    rw [lastEntries_cons]
    split
    · next hlater =>
      rcases List.mem_cons.mp h with rfl | h
      · obtain ⟨later, hmem, hname⟩ := List.mem_map.mp hlater
        obtain ⟨last, hlast, hname'⟩ := ih hmem
        exact ⟨last, hlast, hname'.trans hname⟩
      · exact ih h
    · rcases List.mem_cons.mp h with rfl | h
      · exact ⟨entry, List.mem_cons_self, rfl⟩
      · obtain ⟨last, hlast, hname⟩ := ih h
        exact ⟨last, List.mem_cons_of_mem e hlast, hname⟩

/-- What the constructor's loop leaves under a name: the matcher of the last entry of that name, or
what was there before. -/
theorem lookup_foldl_insert (entries : List HeaderMatch) (m : Dict StringMatcher) (name : Str)
    (matcher : StringMatcher) :
    (entries.foldl (fun m entry => m.insert entry.name (newMatcher entry)) m).lookup name
        = some matcher ↔
      (∃ entry ∈ lastEntries entries, entry.name = name ∧ newMatcher entry = matcher) ∨
        (name ∉ entries.map HeaderMatch.name ∧ m.lookup name = some matcher) := by
  induction entries generalizing m with
  | nil => simp [lastEntries_nil]
  | cons e es ih =>
    rw [List.foldl_cons, ih, lastEntries_cons]
    by_cases hmem : e.name ∈ es.map HeaderMatch.name
    · -- a later entry takes `e`'s place
      rw [if_pos hmem]
      apply or_congr_right
      rw [List.map_cons, List.mem_cons, not_or]
      constructor
      · rintro ⟨hnot, hlook⟩
        have hne : name ≠ e.name := fun h => hnot (h ▸ hmem)
        exact ⟨⟨hne, hnot⟩, by rwa [AList.lookup_insert_ne hne] at hlook⟩
      · rintro ⟨⟨hne, hnot⟩, hlook⟩
        exact ⟨hnot, by rwa [AList.lookup_insert_ne hne]⟩
    · rw [if_neg hmem, List.map_cons, List.mem_cons, not_or]
      by_cases hname : name = e.name
      · subst hname
        constructor
        · rintro (⟨entry, hentry, hn, hm⟩ | ⟨-, hlook⟩)
          · exact Or.inl ⟨entry, List.mem_cons_of_mem e hentry, hn, hm⟩
          · rw [AList.lookup_insert] at hlook
            exact Or.inl ⟨e, List.mem_cons_self, rfl, Option.some.inj hlook⟩
        · rintro (⟨entry, hentry, hn, hm⟩ | ⟨⟨hne, -⟩, -⟩)
          · rcases List.mem_cons.mp hentry with rfl | hentry
            · exact Or.inr ⟨hmem, by rw [AList.lookup_insert, hm]⟩
            · exact Or.inl ⟨entry, hentry, hn, hm⟩
          · exact absurd rfl hne
      · rw [AList.lookup_insert_ne hname]
        constructor
        · rintro (⟨entry, hentry, hn, hm⟩ | ⟨hnot, hlook⟩)
          · exact Or.inl ⟨entry, List.mem_cons_of_mem e hentry, hn, hm⟩
          · exact Or.inr ⟨⟨hname, hnot⟩, hlook⟩
        · rintro (⟨entry, hentry, hn, hm⟩ | ⟨⟨-, hnot⟩, hlook⟩)
          · rcases List.mem_cons.mp hentry with rfl | hentry
            · exact absurd hn.symm hname
            · exact Or.inl ⟨entry, hentry, hn, hm⟩
          · exact Or.inr ⟨hnot, hlook⟩

/-- The stored pairs are those of the entries that no later entry replaces. -/
theorem mem_matchers_iff (matcher : Matcher) (pair : (_ : Str) × StringMatcher) :
    pair ∈ (MatcherImpl.new matcher).matchers.entries ↔
      ∃ entry ∈ lastEntries matcher.headerMatchers, pair = ⟨entry.name, newMatcher entry⟩ := by
  obtain ⟨name, stored⟩ := pair
  rw [← AList.mem_lookup_iff, Option.mem_def, MatcherImpl.new, lookup_foldl_insert]
  constructor
  · rintro (⟨entry, hentry, rfl, rfl⟩ | ⟨-, h⟩)
    · exact ⟨entry, hentry, rfl⟩
    · simp at h
  · rintro ⟨entry, hentry, heq⟩
    simp only [Sigma.mk.injEq, heq_eq_eq] at heq
    exact Or.inl ⟨entry, hentry, heq.1.symm, heq.2.symm⟩

/-- **`MatcherImpl` on the message's entries.**  The stored matchers accept the headers exactly when
every entry that no later entry of its name replaces is satisfied. -/
theorem MatcherImpl.matches_iff (matcher : Matcher) (headers : HeaderMap) :
    (MatcherImpl.new matcher).matches headers = true ↔
      ∀ entry ∈ lastEntries matcher.headerMatchers, entry.Satisfied headers := by
  have hpair : ∀ entry : HeaderMatch, (match getHeader headers entry.name with
      | none => false
      | some value => (newMatcher entry).matches value) = true ↔ entry.Satisfied headers := by
    intro entry
    simp only [HeaderMatch.Satisfied]
    cases getHeader headers entry.name with
    | none => simp
    | some value => simpa using newMatcher_matches_iff entry value
  rw [MatcherImpl.matches, List.all_eq_true]
  constructor
  · intro h entry hentry
    exact (hpair entry).mp (h _ ((mem_matchers_iff matcher _).mpr ⟨entry, hentry, rfl⟩))
  · intro h pair hmem
    obtain ⟨entry, hentry, rfl⟩ := (mem_matchers_iff matcher pair).mp hmem
    exact (hpair entry).mpr (h entry hentry)

/-- An accepted match names headers of the message. -/
theorem exists_getHeader_of_matches {matcher : Matcher} {headers : HeaderMap}
    (h : (MatcherImpl.new matcher).matches headers = true) {entry : HeaderMatch}
    (hentry : entry ∈ matcher.headerMatchers) :
    ∃ value, getHeader headers entry.name = some value := by
  obtain ⟨last, hlast, hname⟩ := exists_mem_lastEntries hentry
  obtain ⟨value, hvalue, -⟩ := (MatcherImpl.matches_iff matcher headers).mp h last hlast
  exact ⟨value, hname ▸ hvalue⟩

/-- A match all of whose entries are satisfied is accepted. -/
theorem MatcherImpl.matches_of_satisfied {matcher : Matcher} {headers : HeaderMap}
    (h : matcher.Satisfied headers) : (MatcherImpl.new matcher).matches headers = true :=
  (MatcherImpl.matches_iff matcher headers).mpr fun entry hentry =>
    h entry (lastEntries_subset hentry)

end EnvoyWasmFilters.TransformationFilter
