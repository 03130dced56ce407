import LinkedApi.Query
import LinkedApi.Route

/-!
# Names from routes

Writing a declared path in the syntax of the router only touches characters that are no letters:
backslashes are dropped, and the braces around a name become a colon. The name of a query is made of
letters, so that it can be read off the route instead of the declared path.
-/

namespace LinkedApi

open Text

namespace Route

/-- The letters stay as they are, whatever braces stand among them. -/
@[simp]
theorem letters_convertParameters (cs : List Char) (opened : Option (List Char)) :
    (convertParameters opened cs).filter isLetter =
      (opened.getD []).reverse.filter isLetter ++ cs.filter isLetter := by
  have hbrace : isLetter '{' = false := by decide
  have hclosed : isLetter '}' = false := by decide
  have hcolon : isLetter ':' = false := by decide
  induction cs generalizing opened with
  | nil => cases opened <;> simp [convertParameters, hbrace]
  | cons c rest ih =>
    cases opened with
    | none =>
      rw [convertParameters]
      split
      · next hc => simp [ih, hc, hbrace]
      · simp [List.filter_cons, ih]
    | some name =>
      rw [convertParameters]
      split
      · next hc => simp [ih, hc.1, hclosed, hcolon]
      · split
        · next hc => simp [ih, hc, hbrace]
        · split
          · simp [List.filter_cons, ih, hbrace]
          · rw [ih]
            cases hc : isLetter c <;> simp [hc]

@[simp]
theorem letters_unescape (cs : List Char) :
    (unescape cs).filter isLetter = cs.filter isLetter := by
  rw [unescape, List.filter_filter]
  refine List.filter_congr fun c _ => ?_
  by_cases hc : c = '\\'
  · subst hc
    decide
  · simp [hc]

def queryName (r : Route) : String := Query.nameOf r.method r.path

/-- The name of the query of a route is that of the operation that declares it. -/
@[simp]
theorem queryName_routerPath (method : Method) (path : String) :
    queryName ⟨method, routerPath path⟩ = Query.nameOf method path := by
  rw [queryName, Query.nameOf, Query.nameOf, routerPath, String.toList_ofList,
    letters_convertParameters, letters_unescape]
  rfl

end Route

end LinkedApi
