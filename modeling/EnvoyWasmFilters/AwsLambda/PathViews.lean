import EnvoyWasmFilters.AwsLambda.Authenticator

/-!
# What the views of the path point at

`fetchUrl` leaves two views into the buffer of `:path`.  While the buffer is owned they read as the
part before the first question mark, and as the part after it.
-/

namespace EnvoyWasmFilters.AwsLambda

variable [Platform]

omit [Platform] in
/-- A view into new data. -/
theorem read?_newData_view (w : WasmHost) (data : Str) (offset length : ℕ) :
    (w.newData data).2.read? { buffer := w.buffers.length, offset := offset, length := length }
      = some ((data.drop offset).take length) := by
  simp only [WasmHost.read?, WasmHost.newData]
  split
  · next hlength =>
    rw [hlength]
    rfl
  · rw [List.getElem?_concat_length]
    rfl

/-- What `findQueryStringStart` cuts off. -/
def beforeQuery (path : Str) : Str := path.takeWhile (· ≠ '?')

/-- What is behind the first question mark. -/
def afterQuery (path : Str) : Str := (path.dropWhile (· ≠ '?')).drop 1

omit [Platform] in
theorem take_beforeQuery (path : Str) : path.take (beforeQuery path).length = beforeQuery path := by
  have hsplit : beforeQuery path ++ path.dropWhile (· ≠ '?') = path := List.takeWhile_append_dropWhile
  have htake : (beforeQuery path ++ path.dropWhile (· ≠ '?')).take (beforeQuery path).length
      = beforeQuery path := List.take_left
  rwa [hsplit] at htake

omit [Platform] in
theorem drop_beforeQuery (path : Str) :
    path.drop (beforeQuery path).length = path.dropWhile (· ≠ '?') := by
  have hsplit : beforeQuery path ++ path.dropWhile (· ≠ '?') = path := List.takeWhile_append_dropWhile
  have hdrop : (beforeQuery path ++ path.dropWhile (· ≠ '?')).drop (beforeQuery path).length
      = path.dropWhile (· ≠ '?') := List.drop_left
  rwa [hsplit] at hdrop

/-- The view from the first question mark on. -/
theorem findQueryStringStart_newData (w : WasmHost) (path : Str) :
    findQueryStringStart (w.newData path).2 (w.newData path).1
      = { buffer := w.buffers.length, offset := (beforeQuery path).length
          length := path.length - (beforeQuery path).length } := by
  rw [findQueryStringStart, read_newData]
  show View.removePrefix { buffer := w.buffers.length, offset := 0, length := path.length }
    (beforeQuery path).length = _
  rw [View.removePrefix, Nat.zero_add]

/-- **The two views**, read while the buffer is owned. -/
theorem fetchUrl_read? (auth : AwsAuthenticator) (w : WasmHost) :
    (w.getRequestHeader ":path").2.read? (auth.fetchUrl w).1.urlBase
        = some (beforeQuery ((getHeader w.requestHeaders ":path").getD [])) ∧
      (w.getRequestHeader ":path").2.read? (auth.fetchUrl w).1.queryString
        = some (afterQuery ((getHeader w.requestHeaders ":path").getD [])) := by
  generalize hpath : (getHeader w.requestHeaders ":path").getD [] = path
  have hfound : w.getRequestHeader ":path" = w.newData path := by
    rw [WasmHost.getRequestHeader, hpath]
  have hle : (beforeQuery path).length ≤ path.length := (List.takeWhile_prefix _).length_le
  simp only [AwsAuthenticator.fetchUrl]
  rw [hfound, findQueryStringStart_newData]
  split
  · constructor
    · show (w.newData path).2.read?
        ⟨w.buffers.length, 0, path.length - (path.length - (beforeQuery path).length)⟩ = _
      rw [read?_newData_view, Nat.sub_sub_self hle, List.drop_zero, take_beforeQuery]
    · show (w.newData path).2.read? ⟨w.buffers.length, (beforeQuery path).length + 1,
        path.length - (beforeQuery path).length - 1⟩ = _
      have hlength : (afterQuery path).length = path.length - (beforeQuery path).length - 1 := by
        rw [afterQuery, ← drop_beforeQuery, List.length_drop, List.length_drop]
      rw [read?_newData_view, ← List.drop_drop, drop_beforeQuery, ← hlength]
      exact congrArg some List.take_length
  · next hquery =>
    -- there is no question mark, so all of the path is before it
    have hempty : path.length - (beforeQuery path).length = 0 := not_not.mp hquery
    have hall : path.length = (beforeQuery path).length := by omega
    constructor
    · show (w.newData path).2.read? (w.newData path).1 = _
      rw [read?_newData, ← take_beforeQuery, ← hall, List.take_length]
    · show (w.newData path).2.read? ⟨w.buffers.length, (beforeQuery path).length,
        path.length - (beforeQuery path).length⟩ = _
      rw [read?_newData_view, hempty, afterQuery, ← drop_beforeQuery, ← hall, List.drop_length]
      rfl

/-- The same, as the characters read. -/
theorem fetchUrl_reads (auth : AwsAuthenticator) (w : WasmHost) :
    (w.getRequestHeader ":path").2.read (auth.fetchUrl w).1.urlBase
        = beforeQuery ((getHeader w.requestHeaders ":path").getD []) ∧
      (w.getRequestHeader ":path").2.read (auth.fetchUrl w).1.queryString
        = afterQuery ((getHeader w.requestHeaders ":path").getD []) := by
  obtain ⟨hurl, hquery⟩ := fetchUrl_read? auth w
  rw [WasmHost.read, WasmHost.read, hurl, hquery]
  exact ⟨rfl, rfl⟩

end EnvoyWasmFilters.AwsLambda
