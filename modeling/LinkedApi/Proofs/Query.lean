import LinkedApi.Proofs.Validation
import Mathlib.Data.List.Infix

/-!
# Names of queries

The name of a query is the name of its method followed by the ASCII letters of its path. No method
is the beginning of another, so that a name tells the method and the letters. The only reserved word
that begins with a method is `delete`, so that only the name of a `delete` operation whose path has
no letters is refused.
-/

namespace LinkedApi

open Outcome Text

namespace Method

/-- No method has a name that begins with the name of another. -/
theorem eq_of_name_prefix {one other : Method} (h : one.name.toList <+: other.name.toList) :
    one = other := by
  revert h
  cases one <;> cases other <;> decide

theorem ofName?_eq_some {name : String} {method : Method} :
    ofName? name = some method ↔ name = method.name := by
  constructor
  · intro h
    have hname := List.find?_some h
    exact (eq_of_beq hname).symm
  · rintro rfl
    cases method <;> rfl

/-- The only reserved word that a method begins is the name of a method. -/
theorem eq_delete_of_prefix_reserved (method : Method) {word : String}
    (hword : word ∈ reservedWords) (h : method.name.toList <+: word.toList) :
    method = .delete ∧ word = "delete" := by
  have hall : ∀ word ∈ reservedWords, ∀ method ∈ Method.all,
      method.name.toList <+: word.toList → method = .delete ∧ word = "delete" := by
    decide +kernel
  exact hall word hword method (by cases method <;> decide) h

theorem name_letters (method : Method) :
    method.name.toList ≠ [] ∧ ∀ c ∈ method.name.toList, isLetter c = true := by
  rw [← List.all_eq_true]
  cases method <;> decide

end Method

namespace Query

def letters (path : String) : List Char := path.toList.filter isLetter

/-- The name of a query is its method, followed by the letters of the path. -/
@[simp]
theorem toList_nameOf (method : Method) (path : String) :
    (nameOf method path).toList = method.name.toList ++ letters path := by
  rw [nameOf, String.toList_ofList, letters]

/-- Two names are equal exactly when the methods and the letters of the paths are. -/
theorem nameOf_eq_nameOf_iff {m₁ m₂ : Method} {p₁ p₂ : String} :
    nameOf m₁ p₁ = nameOf m₂ p₂ ↔ m₁ = m₂ ∧ letters p₁ = letters p₂ := by
  rw [← String.toList_inj, toList_nameOf, toList_nameOf]
  constructor
  · intro h
    have hone : m₁.name.toList <+: m₂.name.toList ++ letters p₂ := ⟨_, h⟩
    have hsame : m₁ = m₂ := by
      rcases List.prefix_or_prefix_of_prefix hone (List.prefix_append _ _) with hle | hle
      · exact Method.eq_of_name_prefix hle
      · exact (Method.eq_of_name_prefix hle).symm
    subst hsame
    exact ⟨rfl, List.append_cancel_left h⟩
  · rintro ⟨rfl, hletters⟩
    rw [hletters]

theorem hasIdentifierForm_of_letters {cs : List Char} (hne : cs ≠ [])
    (h : ∀ c ∈ cs, isLetter c = true) : hasIdentifierForm cs = true := by
  cases cs with
  | nil => exact absurd rfl hne
  | cons c rest =>
    rw [List.forall_mem_cons] at h
    have hrest : rest.all isIdentifierChar = true := by
      refine List.all_eq_true.mpr fun c hc => ?_
      simp [isIdentifierChar, isIdentifierStart, h.2 c hc]
    simp [hasIdentifierForm, isIdentifierStart, h.1, hrest]

theorem nameOf_delete {path : String} (h : letters path = []) : nameOf .delete path = "delete" := by
  rw [← String.toList_inj, toList_nameOf, h, List.append_nil]
  rfl

/-- Only one name that a query can have is reserved. -/
theorem nameOf_mem_reservedWords_iff {method : Method} {path : String} :
    nameOf method path ∈ reservedWords ↔ method = .delete ∧ letters path = [] := by
  constructor
  · intro h
    have hbegins : method.name.toList <+: (nameOf method path).toList :=
      ⟨letters path, (toList_nameOf method path).symm⟩
    obtain ⟨rfl, hname⟩ := method.eq_delete_of_prefix_reserved h hbegins
    have hlist := toList_nameOf .delete path
    rw [hname] at hlist
    exact ⟨rfl, List.self_eq_append_right.mp hlist⟩
  · rintro ⟨rfl, hletters⟩
    rw [nameOf_delete hletters]
    decide

/-- Only the name of a `delete` operation without letters in its path is no identifier. -/
theorem isIdentifier_nameOf_eq_false_iff {method : Method} {path : String} :
    isIdentifier (nameOf method path) = false ↔ method = .delete ∧ letters path = [] := by
  have hform : hasIdentifierForm (nameOf method path).toList = true := by
    rw [toList_nameOf]
    refine hasIdentifierForm_of_letters (by simp [method.name_letters.1]) fun c hc => ?_
    rcases List.mem_append.mp hc with hc | hc
    · exact method.name_letters.2 c hc
    · exact (List.mem_filter.mp hc).2
  rw [← nameOf_mem_reservedWords_iff, isIdentifier, hform]
  simp

end Query

namespace Operation

variable {op : Operation} {name method path : String}

/-- The parts of a query other than its name can be read. -/
def HasQueryParts (op : Operation) : Prop :=
  ∃ block text context, op.node.get? "query" = some (.map block) ∧
    op.queryText block = .ok text ∧ op.queryContext block = .ok context

theorem queryText_ne_invalidIdentifier (block : List (Yaml × Yaml)) :
    op.queryText block ≠ .error (.invalidIdentifier name method path) := by
  unfold queryText malformed
  split <;> nofun

theorem queryContext_ne_invalidIdentifier (block : List (Yaml × Yaml)) :
    op.queryContext block ≠ .error (.invalidIdentifier name method path) := by
  unfold queryContext Operation.invalidContext
  split
  · nofun
  · nofun
  · split <;> nofun
  · split <;> nofun
  · nofun

/-- Once a query has all its parts, only its name can be refused. -/
theorem query_of_parts {verb : Method} (hverb : op.method = verb.name) (h : op.HasQueryParts) :
    ∃ text context, op.query =
      if isIdentifier (Query.nameOf verb op.path) then
        .ok ⟨Query.nameOf verb op.path, text, context⟩
      else .error (.invalidIdentifier (Query.nameOf verb op.path) op.method op.path) := by
  obtain ⟨block, text, context, hblock, htext, hcontext⟩ := h
  have hroute : op.route = .ok ⟨verb, Route.routerPath op.path⟩ := by
    rw [Operation.route, Method.ofName?_eq_some.mpr hverb]
  refine ⟨String.ofList (singleLine text.toList), context, ?_⟩
  rw [Operation.query, hroute, hblock]
  change (op.queryText block >>= _) = _
  rw [htext]
  change (op.queryContext block >>= _) = _
  rw [hcontext]
  rfl

/-- A name is refused after everything else has been read. -/
theorem parts_of_invalidIdentifier
    (h : op.query = .error (.invalidIdentifier name method path)) :
    op.HasQueryParts ∧ ∃ verb : Method, op.method = verb.name := by
  unfold Operation.query at h
  rcases bind_eq_error.mp h with h | ⟨route, hroute, h⟩
  · unfold Operation.route at h
    split at h <;> cases h
  obtain ⟨verb, hverb, -⟩ := route_ok hroute
  dsimp only at h
  split at h
  · next block hblock =>
    rcases bind_eq_error.mp h with h | ⟨_, hsame, h⟩
    · cases h
    cases pure_eq_ok.mp hsame
    rcases bind_eq_error.mp h with h | ⟨text, htext, h⟩
    · exact absurd h (queryText_ne_invalidIdentifier _)
    rcases bind_eq_error.mp h with h | ⟨context, hcontext, -⟩
    · exact absurd h (queryContext_ne_invalidIdentifier _)
    exact ⟨⟨block, text, context, hblock, htext, hcontext⟩, verb, Method.ofName?_eq_some.mp hverb⟩
  · cases h
  · cases h

theorem query_invalidIdentifier_iff :
    op.query = .error (.invalidIdentifier name method path) ↔
      op.HasQueryParts ∧ op.method = "delete" ∧ Query.letters op.path = [] ∧
        name = "delete" ∧ method = op.method ∧ path = op.path := by
  constructor
  · intro h
    obtain ⟨hparts, verb, hverb⟩ := parts_of_invalidIdentifier h
    obtain ⟨text, context, hquery⟩ := query_of_parts hverb hparts
    rw [hquery] at h
    split at h
    · cases h
    · next hname =>
      cases h
      obtain ⟨rfl, hletters⟩ :=
        Query.isIdentifier_nameOf_eq_false_iff.mp (Bool.eq_false_iff.mpr hname)
      refine ⟨hparts, hverb, hletters, ?_, rfl, rfl⟩
      rw [Query.nameOf_delete hletters]
  · rintro ⟨hparts, hverb, hletters, rfl, rfl, rfl⟩
    obtain ⟨text, context, hquery⟩ := @query_of_parts op .delete hverb hparts
    have hname := Query.isIdentifier_nameOf_eq_false_iff.mpr ⟨rfl, hletters⟩
    rw [hquery, hname, if_neg Bool.false_ne_true, Query.nameOf_delete hletters]

end Operation

/-- Two operations have one query name exactly when they have one method and their paths the same
letters. A name is an identifier unless the method is `delete` and the path has no letters, and this
is the only reason for which the name of a query is refused. -/
theorem Query.names_collide_or_refused :
    (∀ (m₁ m₂ : Method) (p₁ p₂ : String),
      nameOf m₁ p₁ = nameOf m₂ p₂ ↔ m₁ = m₂ ∧ letters p₁ = letters p₂) ∧
    (∀ (m : Method) (p : String),
      isIdentifier (nameOf m p) = false ↔ m = .delete ∧ letters p = []) ∧
    ∀ (op : Operation) (name method path : String),
      op.query = .error (.invalidIdentifier name method path) ↔
        op.HasQueryParts ∧ op.method = "delete" ∧ letters op.path = [] ∧
          name = "delete" ∧ method = op.method ∧ path = op.path :=
  ⟨fun _ _ _ _ => nameOf_eq_nameOf_iff, fun _ _ => isIdentifier_nameOf_eq_false_iff,
    fun _ _ _ _ => Operation.query_invalidIdentifier_iff⟩

end LinkedApi
