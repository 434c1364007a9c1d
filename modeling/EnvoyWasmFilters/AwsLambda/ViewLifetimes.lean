import EnvoyWasmFilters.AwsLambda.Reference

/-!
# How long the views are valid

Each view that is read while a canonical request is made points into the buffer of a `WasmData`, which is
owned until the `WasmDataPtr` of `getRequestHeader` goes out of scope.

* `headerReads_eq` — the views of `prepareHeaders` are read while their buffers are owned;
* `fetchUrl_views`, `read?_released` — the two views that `fetchUrl` leaves, and what is read through them;
* `readsOwned_iff` — **when every view is read while its buffer is owned**.
-/

namespace EnvoyWasmFilters.AwsLambda

/-! ### Reads of a buffer -/

/-- Nothing is read through a view into data that has been released, unless the view is empty. -/
theorem read?_released (w : WasmHost) (data : Str) {v : View} (hv : v.buffer = w.buffers.length) :
    ((w.newData data).2.release (w.newData data).1).read? v
      = if v.length = 0 then some [] else none := by
  simp only [WasmHost.newData, WasmHost.release, WasmHost.read?]
  rw [hv, List.getElem?_set_self (by rw [List.length_append]; exact Nat.lt_succ_self _)]
  rfl

/-! ### Headers -/

/-- The reads of the loop of `prepareHeaders`, `none` where the buffer is not owned. -/
def headerReads (w : WasmHost) : HeaderList → List (Option Str)
  | [] => []
  | header :: rest =>
      let headerData := w.getRequestHeader header
      headerData.2.read? headerData.1 :: headerReads (headerData.2.release headerData.1) rest

/-- Each of them finds the value of the header. -/
theorem headerReads_eq (w : WasmHost) (headers : HeaderList) :
    headerReads w headers = headers.map fun header => some (signedPair w.requestHeaders header).2 := by
  induction headers generalizing w with
  | nil => rfl
  | cons header rest ih =>
    rw [headerReads, List.map_cons, ih, WasmHost.getRequestHeader, read?_newData]
    rfl

/-! ### The path -/

section

variable [Platform]

/-- The views that `fetchUrl` leaves, both into the buffer of the path. -/
theorem fetchUrl_views (auth : AwsAuthenticator) (w : WasmHost) {path : Str}
    (hpath : (getHeader w.requestHeaders ":path").getD [] = path) :
    (auth.fetchUrl w).1.urlBase.buffer = w.buffers.length ∧
      (auth.fetchUrl w).1.urlBase.length = (beforeQuery path).length ∧
      (auth.fetchUrl w).1.queryString.buffer = w.buffers.length ∧
      (auth.fetchUrl w).1.queryString.length = (afterQuery path).length := by
  have hfound : w.getRequestHeader ":path" = w.newData path := by
    rw [WasmHost.getRequestHeader, hpath]
  have hle : (beforeQuery path).length ≤ path.length := (List.takeWhile_prefix _).length_le
  have hafter : (afterQuery path).length = path.length - (beforeQuery path).length - 1 := by
    rw [afterQuery, ← drop_beforeQuery, List.length_drop, List.length_drop]
  simp only [AwsAuthenticator.fetchUrl]
  rw [hfound, findQueryStringStart_newData]
  split
  · refine ⟨rfl, ?_, rfl, hafter.symm⟩
    show path.length - (path.length - (beforeQuery path).length) = _
    exact Nat.sub_sub_self hle
  · next hquery =>
    have hempty : path.length - (beforeQuery path).length = 0 := not_not.mp hquery
    refine ⟨rfl, ?_, rfl, ?_⟩
    · show path.length = _
      omega
    · show path.length - (beforeQuery path).length = _
      rw [hafter, hempty]

omit [Platform] in
/-- There is nothing before the first question mark and nothing behind it. -/
theorem parts_eq_nil_iff (path : Str) :
    beforeQuery path = [] ∧ afterQuery path = [] ↔ path = [] ∨ path = ['?'] := by
  cases path with
  | nil => exact iff_of_true ⟨rfl, rfl⟩ (.inl rfl)
  | cons c path =>
    rw [or_iff_right (List.cons_ne_nil c path), beforeQuery, afterQuery, List.takeWhile_cons,
      List.dropWhile_cons]
    by_cases hc : c = '?'
    · rw [hc, if_neg (by decide), if_neg (by decide)]
      show _ = [] ∧ path = [] ↔ '?' :: path = ['?']
      rw [List.cons_inj_right, and_iff_right rfl]
    · rw [if_pos (decide_eq_true hc)]
      apply iff_of_false
      · rintro ⟨hnil, -⟩
        exact List.cons_ne_nil _ _ hnil
      · intro heq
        exact hc (List.cons.inj heq).1

variable [Sha2]

/-- **Views are read while their buffers are owned**: those of the headers, and the two of the path, which
read as the parts of the path. -/
structure SignCall.ReadsOwned (c : SignCall) : Prop where
  headers : ∀ read ∈ headerReads (addDate c.host c.now).2 c.headersToSign, read ≠ none
  urlBase : c.signing.host.read? c.signing.auth.urlBase = some (beforeQuery c.path)
  queryString : c.signing.host.read? c.signing.auth.queryString = some (afterQuery c.path)

omit [Sha2] in
/-- `addDate` leaves the path alone. -/
theorem path_eq (c : SignCall) : c.path = (getHeader c.host.requestHeaders ":path").getD [] := by
  have hdate : getHeader [(dateHeader, (addDate c.host c.now).1)] (":path" : Str) = none :=
    if_neg (show dateHeader ≠ ":path" by decide)
  show (getHeader (c.host.requestHeaders ++ [(dateHeader, (addDate c.host c.now).1)]) _).getD [] = _
  rw [getHeader_append, hdate, Option.or_none]

/-- What a view of the path reads as once the canonical request is hashed. -/
theorem signing_read? (c : SignCall) :
    c.signing.host.read? c.signing.auth.urlBase
        = (if (beforeQuery c.path).length = 0 then some [] else none) ∧
      c.signing.host.read? c.signing.auth.queryString
        = (if (afterQuery c.path).length = 0 then some [] else none) := by
  have hheaders : (prepareHeaders (addDate c.host c.now).2 c.headersToSign).2.requestHeaders
      = (addDate c.host c.now).2.requestHeaders := prepareHeaders_requestHeaders _ _
  have hpath : (getHeader (prepareHeaders (addDate c.host c.now).2
      c.headersToSign).2.requestHeaders ":path").getD [] = c.path := by
    rw [hheaders]
    rfl
  obtain ⟨hurl, hurlLength, hquery, hqueryLength⟩ := fetchUrl_views
    ({ c.auth with requestHeaders := c.requestHeaders }.getBodyHexSha).2 _ hpath
  have hreleased : ∀ v : View,
      v.buffer = (prepareHeaders (addDate c.host c.now).2 c.headersToSign).2.buffers.length →
      c.signing.host.read? v = if v.length = 0 then some [] else none := fun v hv =>
    read?_released _ _ hv
  rw [← hurlLength, ← hqueryLength]
  exact ⟨hreleased _ hurl, hreleased _ hquery⟩

omit [Platform] [Sha2] in
/-- Only an empty text is read once its buffer is released. -/
theorem eq_nil_of_read {text : Str} (h : (if text.length = 0 then some [] else none) = some text) :
    text = [] := by
  split at h
  · next hlength => exact List.eq_nil_of_length_eq_zero hlength
  · cases h

/-- **When every view is read in time**: exactly if the path, if there is one, is empty or a lone question
mark, so that there is nothing to read. -/
theorem readsOwned_iff (c : SignCall) :
    c.ReadsOwned ↔ (getHeader c.host.requestHeaders ":path").getD [] ∈ [[], ['?']] := by
  obtain ⟨hurl, hquery⟩ := signing_read? c
  rw [List.mem_cons, List.mem_singleton, ← path_eq, ← parts_eq_nil_iff]
  constructor
  · rintro ⟨-, hurlRead, hqueryRead⟩
    exact ⟨eq_nil_of_read (hurl.symm.trans hurlRead), eq_nil_of_read (hquery.symm.trans hqueryRead)⟩
  · rintro ⟨hbefore, hafter⟩
    rw [hbefore] at hurl
    rw [hafter] at hquery
    refine ⟨fun read hread => ?_, hbefore ▸ hurl, hafter ▸ hquery⟩
    rw [headerReads_eq] at hread
    obtain ⟨header, -, rfl⟩ := List.mem_map.mp hread
    exact Option.some_ne_none _

end

/-- A call for `/f?x=1` reads both parts of the path when their buffer has been released. -/
theorem smallCall_not_readsOwned :
    (¬ ∀ c : SignCall, c.ReadsOwned) ∧
      smallCall.signing.host.read? smallCall.signing.auth.urlBase = none ∧
      smallCall.signing.host.read? smallCall.signing.auth.queryString = none := by
  have hurl : smallCall.signing.host.read? smallCall.signing.auth.urlBase = none := by decide +kernel
  refine ⟨fun h => ?_, hurl, by decide +kernel⟩
  have howned := (h smallCall).urlBase
  rw [hurl] at howned
  exact Option.some_ne_none _ howned.symm

end EnvoyWasmFilters.AwsLambda
