import EnvoyWasmFilters.AwsLambda.Reference
import EnvoyWasmFilters.Library.QueryString
import Mathlib.Data.Char

/-!
# The URL and the query that are signed

The service signs the path in a canonical form.  The authenticator signs it as it comes, split at the
first question mark.

* `canonicalUrl`, `canonicalQuery` — the two lines in canonical form;
* `canonicalQuery_perm` — the order in which a client writes its parameters does not matter to it;
* `canonicalLines_iff` — **when the lines that are hashed are canonical**.
-/

namespace EnvoyWasmFilters.AwsLambda

open QueryString

/-- The URL line: the part of the path before its query, `/` where there is none. -/
def canonicalUrl (path : Str) : Str := if beforeQuery path = [] then ['/'] else beforeQuery path

/-- The query line: the parameters, each with its `=`, sorted by name and then by value. -/
def canonicalQuery (path : Str) : Str := canonical '&' '=' (afterQuery path)

/-- Paths whose queries have the same parameters in another order have one query line. -/
theorem canonicalQuery_perm {path path' : Str}
    (h : (params '&' '=' (afterQuery path)).Perm (params '&' '=' (afterQuery path'))) :
    canonicalQuery path = canonicalQuery path' :=
  canonical_perm h

section

variable [Platform] [Sha2]

/-- **Canonical lines**: the URL and the query are hashed in their canonical form. -/
structure SignCall.CanonicalLines (c : SignCall) : Prop where
  urlBase : c.urlBase = canonicalUrl c.path
  queryString : c.queryString = canonicalQuery c.path

/-- Where the two views still read as the path, the lines are canonical exactly if the path is. -/
theorem canonicalLines_of_viewsValid {c : SignCall} (hviews : c.ViewsValid) :
    c.CanonicalLines ↔ beforeQuery c.path ≠ [] ∧ InForm '&' '=' (afterQuery c.path) := by
  obtain ⟨hurl, hquery⟩ := views_eq hviews
  have hform := canonical_eq_self_iff (show '&' ≠ '=' by decide) (afterQuery c.path)
  constructor
  · rintro ⟨hurlLine, hqueryLine⟩
    rw [hurl, canonicalUrl] at hurlLine
    rw [hquery] at hqueryLine
    refine ⟨fun hnil => ?_, hform.mp hqueryLine.symm⟩
    rw [if_pos hnil, hnil] at hurlLine
    exact List.cons_ne_nil _ _ hurlLine.symm
  · rintro ⟨hne, hin⟩
    constructor
    · rw [hurl, canonicalUrl, if_neg hne]
    · rw [hquery]
      exact (hform.mpr hin).symm

/-- **When the lines are canonical**: if the two views, taken of a path that is freed before it is signed, still
read as the path, there is something before the query, and the query is written canonically, every parameter
with its `=` and sorted.  Where the views still read as the path, nothing of the rest can be left out. -/
theorem canonicalLines_iff (c : SignCall) :
    (c.ViewsValid ∧ beforeQuery c.path ≠ [] ∧ InForm '&' '=' (afterQuery c.path) → c.CanonicalLines) ∧
      (c.ViewsValid →
        (c.CanonicalLines ↔ beforeQuery c.path ≠ [] ∧ InForm '&' '=' (afterQuery c.path))) :=
  ⟨fun h => (canonicalLines_of_viewsValid h.1).mpr h.2, canonicalLines_of_viewsValid⟩

end

/-- A call for a path. -/
def signedPath (path : Str) : SignCall where
  auth := initialised "k" "s" []
  host := { requestHeaders := [(":path", path)] }
  requestHeaders := none
  headersToSign := []
  region := "us-east-1"
  now := 0

/-- The query of `/f?a=1&b=2` is written canonically. -/
theorem sortedQuery_canonical :
    @SignCall.ViewsValid (keeping "/f?a=1&b=2") _ (signedPath "/f?a=1&b=2") ∧
      @SignCall.CanonicalLines (keeping "/f?a=1&b=2") _ (signedPath "/f?a=1&b=2") := by
  let : Platform := keeping "/f?a=1&b=2"
  have hviews : (signedPath "/f?a=1&b=2").ViewsValid := ⟨by decide +kernel, by decide +kernel⟩
  refine ⟨hviews, (canonicalLines_iff _).1 ⟨hviews, by decide +kernel, .inr ⟨?_, ?_⟩⟩⟩
  · decide +kernel
  · decide +kernel

/-- The same parameters in another order are not signed in their canonical form, and neither is a path
without anything before its query. -/
theorem unsortedQuery_not_canonical :
    (@SignCall.ViewsValid (keeping "/f?b=2&a=1") _ (signedPath "/f?b=2&a=1") ∧
        ¬ @SignCall.CanonicalLines (keeping "/f?b=2&a=1") _ (signedPath "/f?b=2&a=1")) ∧
      canonicalQuery "/f?b=2&a=1" = "a=1&b=2" ∧ canonicalQuery "/f?a=1&b=2" = "a=1&b=2" ∧
      ¬ (signedPath "").CanonicalLines := by
  refine ⟨⟨⟨by decide +kernel, by decide +kernel⟩, fun h => ?_⟩, by decide +kernel,
    by decide +kernel, fun h => ?_⟩
  · let : Platform := keeping "/f?b=2&a=1"
    exact absurd h.queryString (by decide +kernel)
  · exact absurd h.urlBase (by decide +kernel)

end EnvoyWasmFilters.AwsLambda
