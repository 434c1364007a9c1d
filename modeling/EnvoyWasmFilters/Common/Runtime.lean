import EnvoyWasmFilters.Library.Multimap
import Mathlib.Data.List.AList

/-!
# Strings, maps, exceptions and headers

The vocabulary every filter shares.

* `Str` — `std::string` and `std::string_view`: a list with one `Char` for each `char`, the byte `b`
  being the character of code `b`.  `Char.isAlpha`, `Char.toLower` and their relatives look at ASCII
  letters only, as the functions of `<cctype>` do in the C locale.
* `Dict V` — `std::unordered_map<std::string, V>`, `std::map<std::string, V>` and the protobuf
  `map<string, V>`: entries with pairwise different keys.  The list order of the entries is the order
  in which an iteration visits them, which the source leaves unspecified.
* `Stop` — how a C++ function ends when it does not return.
* `FilterHeadersStatus`, `FilterDataStatus`, `FilterTrailersStatus` — what a callback tells the host.
* `HeaderMap` — the header map of one message at the host, with the host calls that change it.
-/

namespace EnvoyWasmFilters

/-- A string of `char`s. -/
abbrev Str := List Char

instance : Coe String Str := ⟨String.toList⟩

/-- A map keyed by strings. -/
abbrev Dict (V : Type) := AList fun _ : Str => V

/-- The ways a function of the source ends without returning: an exception with its `what()`, or a
step whose behaviour C++ leaves undefined. -/
inductive Stop where
  | regexError (what : Str)
  | logicError (what : Str)
  | runtimeError (what : Str)
  | jsonException (what : Str)
  | undefinedBehaviour
deriving DecidableEq

/-- `what()` of an exception. -/
def Stop.what : Stop → Str
  | .regexError what => what
  | .logicError what => what
  | .runtimeError what => what
  | .jsonException what => what
  | .undefinedBehaviour => []

/-- Whether `catch (std::exception&)` catches it. -/
def Stop.isException : Stop → Bool
  | .undefinedBehaviour => false
  | _ => true

/-- `FilterHeadersStatus` of the host interface. -/
inductive FilterHeadersStatus where
  | continue | stopIteration
deriving DecidableEq

/-- `FilterDataStatus` of the host interface. -/
inductive FilterDataStatus where
  | continue | stopIterationAndBuffer | stopIterationNoBuffer
deriving DecidableEq

/-- `FilterTrailersStatus` of the host interface. -/
inductive FilterTrailersStatus where
  | continue | stopIteration
deriving DecidableEq

/-- The pairs of `getRequestHeaderPairs` and the host's own header map: names may repeat. -/
abbrev HeaderMap := List (Str × Str)

/-- `getHeader`: the value of the first header called `key`. -/
def getHeader : HeaderMap → Str → Option Str
  | [], _ => none
  | header :: headers, key => if header.1 = key then some header.2 else getHeader headers key

/-- The value looked up is that of the name's first entry. -/
theorem getHeader_eq_head? (h : HeaderMap) (key : Str) :
    getHeader h key = (Multimap.entriesOf key h).head?.map Prod.snd := by
  induction h with
  | nil => rfl
  | cons header headers ih =>
    rw [getHeader, Multimap.entriesOf, List.filter_cons]
    split
    · next hkey =>
      rw [if_pos (decide_eq_true hkey)]
      rfl
    · next hkey =>
      rw [if_neg fun h => hkey (of_decide_eq_true h)]
      exact ih

/-- Entries at the end are found where there are none before. -/
theorem getHeader_append (h k : HeaderMap) (key : Str) :
    getHeader (h ++ k) key = (getHeader h key).or (getHeader k key) := by
  induction h with
  | nil => rfl
  | cons header headers ih =>
    rw [List.cons_append, getHeader, getHeader]
    split
    · rfl
    · exact ih

/-- A call that changes the header map: `addRequestHeader` / `addResponseHeader`, or
`removeRequestHeader` / `removeResponseHeader`. -/
inductive HeaderCall where
  | add (name value : Str)
  | del (name : Str)
deriving DecidableEq

/-- What the host does on a header call: `add` appends one entry, `del` removes every entry of the
name. -/
def HeaderCall.exec (h : HeaderMap) : HeaderCall → HeaderMap
  | .add name value => h ++ [(name, value)]
  | .del name => h.filter fun e => e.1 ≠ name

/-- The host's header map after a sequence of header calls. -/
def execCalls (h : HeaderMap) (calls : List HeaderCall) : HeaderMap := calls.foldl HeaderCall.exec h

theorem execCalls_append (h : HeaderMap) (cs ds : List HeaderCall) :
    execCalls h (cs ++ ds) = execCalls (execCalls h cs) ds := by
  rw [execCalls, List.foldl_append]
  rfl

end EnvoyWasmFilters
