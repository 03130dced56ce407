import LinkedApi.Registry
import Mathlib.Data.List.Basic

/-!
# Names of the registry

The names of a kind, and which names are registered, once more names have been added.
-/

namespace LinkedApi.Registry

variable {α : Type}

@[simp]
theorem contains_iff {r : Registry} {kind : NameKind} {name : String} :
    r.contains kind name = true ↔ name ∈ r.names kind := by
  simp [contains, names]

theorem contains_append (r : Registry) (kind kind' : NameKind) (name name' : String) :
    contains ⟨r.entries ++ [(kind', name')]⟩ kind name = true ↔
      r.contains kind name = true ∨ kind = kind' ∧ name = name' := by
  simp [Registry.contains]

@[simp]
theorem names_append (entries more : List (NameKind × String)) (kind : NameKind) :
    names ⟨entries ++ more⟩ kind = names ⟨entries⟩ kind ++ names ⟨more⟩ kind := by
  simp [names]

/-- A name that is registered is listed for its own kind only. -/
@[simp]
theorem names_concat (r : Registry) (kind other : NameKind) (name : String) :
    names ⟨r.entries ++ [(kind, name)]⟩ other =
      r.names other ++ if kind = other then [name] else [] := by
  rw [names_append]
  by_cases hkind : kind = other <;> simp [names, hkind]

@[simp]
theorem names_map_self (kind : NameKind) (xs : List α) (f : α → String) :
    names ⟨xs.map fun x => (kind, f x)⟩ kind = xs.map f := by
  simp [names, List.filter_map, Function.comp_def]

theorem names_map_of_ne {kind kind' : NameKind} (h : kind' ≠ kind) (xs : List α)
    (f : α → String) : names ⟨xs.map fun x => (kind', f x)⟩ kind = [] := by
  simp [names, List.filter_map, Function.comp_def, h]

end LinkedApi.Registry
