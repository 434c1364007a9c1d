import EnvoyWasmFilters.AwsLambda.Reference
import EnvoyWasmFilters.Library.OrderedSet

/-!
# Which headers are signed

`createHeaderToSign` puts names into a set, and `prepareHeaders` goes through the set.

* `ascending_createHeaderToSign`, `mem_createHeaderToSign` — the set, in order and with its members;
* `prepareHeaders_lists` — **the two texts**: one entry for each name, in the same order;
* `normalised_iff` — **when letter case makes no difference**: `lowercasecompare` compares the names as
  they are.
-/

namespace EnvoyWasmFilters.AwsLambda

open OrderedSet

/-! ### The set -/

theorem lowercasecompare_strictTotal : StrictTotal lowercasecompare where
  irrefl x := decide_eq_false (List.lt_irrefl x)
  trans hxy hyz := decide_eq_true (List.lt_trans (of_decide_eq_true hxy) (of_decide_eq_true hyz))
  connected hxy hyx := by
    have hle := List.not_lt.mp (of_decide_eq_false hxy)
    have hge := List.not_lt.mp (of_decide_eq_false hyx)
    exact List.le_antisymm hge hle

theorem insertHeader_eq (header : Str) (set : HeaderList) :
    insertHeader header set = OrderedSet.insert lowercasecompare header set := by
  induction set with
  | nil => rfl
  | cons first rest ih => rw [insertHeader, OrderedSet.insert, ih]

theorem foldl_insertHeader (headers : List Str) {set : HeaderList}
    (hset : Ascending lowercasecompare set) :
    Ascending lowercasecompare (headers.foldl (fun set header => insertHeader header set) set) ∧
      ∀ name, name ∈ headers.foldl (fun set header => insertHeader header set) set
        ↔ name ∈ set ∨ name ∈ headers := by
  induction headers generalizing set with
  | nil => exact ⟨hset, fun name => (or_iff_left List.not_mem_nil).symm⟩
  | cons header headers ih =>
    have hinsert := ascending_insert lowercasecompare_strictTotal header hset
    rw [← insertHeader_eq] at hinsert
    obtain ⟨hascending, hmem⟩ := ih hinsert
    refine ⟨hascending, fun name => ?_⟩
    rw [List.foldl_cons, hmem, insertHeader_eq, mem_insert lowercasecompare_strictTotal,
      List.mem_cons, or_assoc, or_left_comm]

/-- The elements of the set ascend. -/
theorem ascending_createHeaderToSign (headers : List Str) :
    Ascending lowercasecompare (createHeaderToSign headers) := by
  rw [createHeaderToSign, insertHeader_eq]
  exact ascending_insert lowercasecompare_strictTotal dateHeader
    (foldl_insertHeader headers List.Pairwise.nil).1

/-- They are the names given, and the date. -/
theorem mem_createHeaderToSign {headers : List Str} {name : Str} :
    name ∈ createHeaderToSign headers ↔ name = dateHeader ∨ name ∈ headers := by
  rw [createHeaderToSign, insertHeader_eq, mem_insert lowercasecompare_strictTotal,
    (foldl_insertHeader headers List.Pairwise.nil).2, or_iff_right List.not_mem_nil]

theorem createHeaderToSign_ne_nil (headers : List Str) : createHeaderToSign headers ≠ [] :=
  List.ne_nil_of_mem (mem_createHeaderToSign.mpr (.inl rfl))

/-! ### The two texts -/

/-- The names that are signed, joined. -/
theorem signedNames_eq (headers : HeaderList) : signedNames headers = [';'].intercalate headers := by
  induction headers with
  | nil => rfl
  | cons header rest ih =>
    cases rest with
    | nil => exact List.intercalate_singleton.symm
    | cons next rest =>
      rw [List.intercalate_cons_cons, ← ih]
      rfl

section

variable [Platform]

/-- **What is signed of a list of names**: the `;`-separated names ascend strictly and are the names given
and `x-amz-date`; the canonical headers are one line for each of them, in the same order, with the
request's first value of the header, or nothing. -/
theorem prepareHeaders_lists (w : WasmHost) (headers : List Str)
    (hnames : ∀ name ∈ headers, ';' ∉ name) :
    let prepared := (prepareHeaders w (createHeaderToSign headers)).1
    let signed := prepared.2.splitOn ';'
    signed.Pairwise (fun name name' => name < name') ∧
      (∀ name, name ∈ signed ↔ name ∈ headers ∨ name = dateHeader) ∧
      prepared.1 = signed.flatMap fun name =>
        (name ++ ":" ++ (getHeader w.requestHeaders name).getD [] ++ "\n" : Str) := by
  intro prepared signed
  have hsigned : signed = createHeaderToSign headers := by
    show (prepareHeaders w (createHeaderToSign headers)).1.2.splitOn ';' = _
    rw [prepareHeaders_eq]
    dsimp only
    rw [signedNames_eq]
    apply List.splitOn_intercalate ';' _ (createHeaderToSign_ne_nil headers)
    intro name hname
    obtain rfl | hgiven := mem_createHeaderToSign.mp hname
    · decide
    · exact hnames name hgiven
  rw [hsigned]
  refine ⟨?_, fun name => ?_, ?_⟩
  · exact (ascending_createHeaderToSign headers).imp of_decide_eq_true
  · rw [mem_createHeaderToSign, or_comm]
  · show (prepareHeaders w (createHeaderToSign headers)).1.1 = _
    rw [prepareHeaders_eq]
    dsimp only
    rw [lines_eq_flatMap, List.flatMap_map]
    rfl

end

/-- A list with a repetition and with the date in it. -/
theorem prepareHeaders_lists_repeated :
    let prepared := (prepareHeaders { requestHeaders := [("host", "h")] }
      (createHeaderToSign ["x-amz-date", "host", "accept", "host"])).1
    (prepared.2.splitOn ';').Pairwise (fun name name' => name < name') ∧
      prepared.2 = "accept;host;x-amz-date" ∧ prepared.1 = "accept:\nhost:h\nx-amz-date:\n" := by
  refine ⟨(prepareHeaders_lists { requestHeaders := [("host", "h")] }
    ["x-amz-date", "host", "accept", "host"] (by decide +kernel)).1, ?_, ?_⟩
  · decide +kernel
  · decide +kernel

/-! ### Letter case -/

/-- A name in lower case. -/
def lowerCase (name : Str) : Str := name.map Char.toLower

/-- Two lists contain the same names, up to order, repetition and letter case. -/
def SameHeaders (xs ys : List Str) : Prop :=
  ∀ name, name ∈ xs.map lowerCase ↔ name ∈ ys.map lowerCase

/-- **Normalised**: both lists give one set, of names in lower case that differ otherwise as well. -/
structure Normalised (xs ys : List Str) : Prop where
  same : createHeaderToSign xs = createHeaderToSign ys
  lower : ∀ name ∈ createHeaderToSign xs, lowerCase name = name
  distinct : (createHeaderToSign xs).Pairwise fun name name' => lowerCase name ≠ lowerCase name'

/-- **When letter case makes no difference**: exactly if no name of the two lists has an upper-case
letter. -/
theorem normalised_iff {xs ys : List Str} (h : SameHeaders xs ys) :
    Normalised xs ys ↔ ∀ name ∈ xs ++ ys, lowerCase name = name := by
  constructor
  · rintro ⟨hsame, hlower, -⟩ name hname
    apply hlower
    obtain hx | hy := List.mem_append.mp hname
    · exact mem_createHeaderToSign.mpr (.inr hx)
    · rw [hsame]
      exact mem_createHeaderToSign.mpr (.inr hy)
  · intro hlower
    have hx : xs.map lowerCase = xs :=
      (List.map_congr_left fun name hname => hlower name (List.mem_append_left ys hname)).trans
        (List.map_id xs)
    have hy : ys.map lowerCase = ys :=
      (List.map_congr_left fun name hname => hlower name (List.mem_append_right xs hname)).trans
        (List.map_id ys)
    rw [SameHeaders, hx, hy] at h
    have hset : ∀ name ∈ createHeaderToSign xs, lowerCase name = name := by
      intro name hname
      obtain rfl | hgiven := mem_createHeaderToSign.mp hname
      · decide
      · exact hlower name (List.mem_append_left ys hgiven)
    have hascending := ascending_createHeaderToSign xs
    refine ⟨?_, hset, ?_⟩
    · apply ascending_ext lowercasecompare_strictTotal hascending (ascending_createHeaderToSign ys)
      intro name
      rw [mem_createHeaderToSign, mem_createHeaderToSign, h name]
    · apply hascending.imp_of_mem
      intro name name' hname hname' hless heq
      rw [hset name hname, hset name' hname'] at heq
      rw [heq, lowercasecompare_strictTotal.irrefl] at hless
      exact Bool.false_ne_true hless

/-- Lists in lower case, in two orders and with a repetition. -/
theorem lowerCase_normalised :
    SameHeaders ["host", "accept"] ["accept", "host", "accept"] ∧
      Normalised ["host", "accept"] ["accept", "host", "accept"] := by
  have hsame : SameHeaders ["host", "accept"] ["accept", "host", "accept"] := by
    intro name
    rw [List.map_cons, List.map_cons, List.map_nil, List.map_cons, List.map_cons, List.map_cons,
      List.map_nil]
    simp only [List.mem_cons, List.not_mem_nil, or_false]
    tauto
  exact ⟨hsame, (normalised_iff hsame).mpr (by decide +kernel)⟩

/-- `Host` and `host` are two names, whether in two lists or in one. -/
theorem host_not_normalised :
    (¬ ∀ xs ys, SameHeaders xs ys → Normalised xs ys) ∧
      createHeaderToSign ["Host", "host"] = ["Host", "host", "x-amz-date"] := by
  refine ⟨fun h => ?_, by decide +kernel⟩
  have hsame : SameHeaders ["Host"] ["host"] := by
    have hmap : (["Host"] : List Str).map lowerCase = (["host"] : List Str).map lowerCase := by
      decide +kernel
    intro name
    rw [hmap]
  exact absurd (h _ _ hsame).same (by decide +kernel)

end EnvoyWasmFilters.AwsLambda
