import EnvoyWasmFilters.AwsLambda.PathViews
import EnvoyWasmFilters.Library.QueryString
import Mathlib.Data.Char

/-!
# The split of the path

`fetchUrl` takes the path apart by trimming two views of one buffer, by amounts that depend on each
other's lengths.

* `View.removePrefix?`, `View.removeSuffix?` — a trimming of a view that is long enough;
* `fetchedViews?_eq` — all trimmings of `fetchUrl` are of that kind;
* `fetchUrl_lossless` — **the split loses nothing**, but for a lone question mark at the end.
-/

namespace EnvoyWasmFilters.AwsLambda

/-! ### Trimming -/

/-- `remove_prefix`, undefined where it exceeds the view. -/
def View.removePrefix? (v : View) (n : ℕ) : Option View :=
  if n ≤ v.length then some (v.removePrefix n) else none

/-- `remove_suffix`, undefined where it exceeds the view. -/
def View.removeSuffix? (v : View) (n : ℕ) : Option View :=
  if n ≤ v.length then some (v.removeSuffix n) else none

section

variable [Platform]

/-- `findQueryStringStart` with its trimming checked. -/
def findQueryStringStart? (w : WasmHost) (path : View) : Option View :=
  path.removePrefix? ((w.read path).takeWhile (· ≠ '?')).length

/-- The views that `fetchUrl` assigns to `url_base_` and `query_string_`, each trimming checked. -/
def fetchedViews? (w : WasmHost) : Option (View × View) :=
  let path := w.getRequestHeader ":path"
  (findQueryStringStart? path.2 path.1).bind fun queryString =>
    if queryString.length ≠ 0 then
      (path.1.removeSuffix? queryString.length).bind fun urlBase =>
        (queryString.removePrefix? 1).map fun queryString => (urlBase, queryString)
    else some (path.1, queryString)

/-- **No trimming exceeds its view.** -/
theorem fetchedViews?_eq (auth : AwsAuthenticator) (w : WasmHost) :
    fetchedViews? w = some ((auth.fetchUrl w).1.urlBase, (auth.fetchUrl w).1.queryString) := by
  have hle : (((w.getRequestHeader ":path").2.read (w.getRequestHeader ":path").1).takeWhile
      (· ≠ '?')).length ≤ (w.getRequestHeader ":path").1.length := by
    rw [WasmHost.getRequestHeader, read_newData]
    exact (List.takeWhile_prefix _).length_le
  have hstart : findQueryStringStart? (w.getRequestHeader ":path").2 (w.getRequestHeader ":path").1
      = some (findQueryStringStart (w.getRequestHeader ":path").2 (w.getRequestHeader ":path").1) :=
    if_pos hle
  have hshorter : (findQueryStringStart (w.getRequestHeader ":path").2
      (w.getRequestHeader ":path").1).length ≤ (w.getRequestHeader ":path").1.length :=
    Nat.sub_le _ _
  simp only [fetchedViews?, AwsAuthenticator.fetchUrl]
  rw [hstart, Option.bind_some]
  generalize findQueryStringStart (w.getRequestHeader ":path").2 (w.getRequestHeader ":path").1
    = queryString at hshorter ⊢
  split
  · next hlength =>
    rw [View.removeSuffix?, if_pos hshorter, Option.bind_some, View.removePrefix?,
      if_pos (Nat.one_le_iff_ne_zero.mpr hlength)]
    rfl
  · rfl

end

/-! ### The two parts -/

open QueryString Delimited

/-- The path is taken apart at the mark as a parameter is. -/
theorem mark_notMem_beforeQuery (path : Str) : '?' ∉ beforeQuery path := name_free path

/-- A path without a question mark is all before the query. -/
theorem beforeQuery_of_notMem {path : Str} (h : '?' ∉ path) :
    beforeQuery path = path ∧ afterQuery path = [] := by
  have hall : ∀ c ∈ path, decide (c ≠ '?') = true := by
    intro c hc
    rw [decide_eq_true_eq]
    rintro rfl
    exact h hc
  have hnone : (path ++ []).dropWhile (· ≠ '?') = [].dropWhile _ := List.dropWhile_append_of_pos hall
  rw [List.append_nil, List.dropWhile_nil] at hnone
  constructor
  · have hsplit : beforeQuery path ++ path.dropWhile (· ≠ '?') = path :=
      List.takeWhile_append_dropWhile
    rwa [hnone, List.append_nil] at hsplit
  · rw [afterQuery, hnone, List.drop_nil]

/-- A path with one is put together from its parts, later question marks in the second. -/
theorem beforeQuery_append_afterQuery {path : Str} (h : '?' ∈ path) :
    beforeQuery path ++ '?' :: afterQuery path = path := pair_param h

/-- What the two parts say of the path: all but whether there is a lone question mark at its end. -/
theorem path_of_parts (path : Str) :
    path = beforeQuery path ++ '?' :: afterQuery path ∨ path = beforeQuery path ∧ afterQuery path = [] := by
  by_cases h : '?' ∈ path
  · exact .inl (beforeQuery_append_afterQuery h).symm
  · obtain ⟨hbefore, hafter⟩ := beforeQuery_of_notMem h
    exact .inr ⟨hbefore.symm, hafter⟩

/-- `path'` is `path`, in which there is no question mark, with a lone one at its end. -/
def LoneMark (path path' : Str) : Prop := '?' ∉ path ∧ path' = path ++ ['?']

/-- Two paths with the same parts. -/
theorem eq_or_loneMark {path path' : Str} (hbefore : beforeQuery path = beforeQuery path')
    (hafter : afterQuery path = afterQuery path') :
    path = path' ∨ LoneMark path path' ∨ LoneMark path' path := by
  have hfree := mark_notMem_beforeQuery path
  obtain hpath | ⟨hpath, hnil⟩ := path_of_parts path
  · obtain hpath' | ⟨hpath', hnil'⟩ := path_of_parts path'
    · rw [hbefore, hafter, ← hpath'] at hpath
      exact .inl hpath
    · rw [hbefore, hafter, hnil', ← hpath'] at hpath
      rw [hbefore, ← hpath'] at hfree
      exact .inr (.inr ⟨hfree, hpath⟩)
  · rw [← hpath] at hfree hbefore
    obtain hpath' | ⟨hpath', -⟩ := path_of_parts path'
    · rw [← hbefore, ← hafter, hnil] at hpath'
      exact .inr (.inl ⟨hfree, hpath'⟩)
    · exact .inl (hbefore.trans hpath'.symm)

/-! ### What `fetchUrl` leaves -/

section

variable [Platform]

/-- The value of `:path`. -/
def pathOf (w : WasmHost) : Str := (getHeader w.requestHeaders ":path").getD []

/-- The texts of `url_base_` and `query_string_`, while the buffer of the path is owned. -/
def fetchedTexts (auth : AwsAuthenticator) (w : WasmHost) : Option Str × Option Str :=
  ((w.getRequestHeader ":path").2.read? (auth.fetchUrl w).1.urlBase,
    (w.getRequestHeader ":path").2.read? (auth.fetchUrl w).1.queryString)

theorem fetchedTexts_eq (auth : AwsAuthenticator) (w : WasmHost) :
    fetchedTexts auth w = (some (beforeQuery (pathOf w)), some (afterQuery (pathOf w))) := by
  obtain ⟨hurl, hquery⟩ := fetchUrl_read? auth w
  exact Prod.ext hurl hquery

/-- **The split loses nothing.**  No trimming exceeds its view.  The URL has no question mark; the path is
the URL, or the URL, a question mark and the query where there is one.  Two paths that leave the same URL
and query are equal but for a lone question mark at the end of one. -/
theorem fetchUrl_lossless (auth : AwsAuthenticator) (w : WasmHost) :
    fetchedViews? w = some ((auth.fetchUrl w).1.urlBase, (auth.fetchUrl w).1.queryString) ∧
      (∃ urlBase queryString, fetchedTexts auth w = (some urlBase, some queryString) ∧
        '?' ∉ urlBase ∧ ('?' ∉ pathOf w → pathOf w = urlBase) ∧
        ('?' ∈ pathOf w → pathOf w = urlBase ++ '?' :: queryString)) ∧
      ∀ (auth' : AwsAuthenticator) (w' : WasmHost), fetchedTexts auth w = fetchedTexts auth' w' →
        pathOf w = pathOf w' ∨ LoneMark (pathOf w) (pathOf w') ∨ LoneMark (pathOf w') (pathOf w) := by
  refine ⟨fetchedViews?_eq auth w, ⟨_, _, fetchedTexts_eq auth w, mark_notMem_beforeQuery _, ?_, ?_⟩,
    fun auth' w' hsame => ?_⟩
  · intro hnone
    exact (beforeQuery_of_notMem hnone).1.symm
  · intro hmark
    exact (beforeQuery_append_afterQuery hmark).symm
  · rw [fetchedTexts_eq, fetchedTexts_eq, Prod.mk.injEq, Option.some_inj, Option.some_inj] at hsame
    exact eq_or_loneMark hsame.1 hsame.2

end

end EnvoyWasmFilters.AwsLambda
