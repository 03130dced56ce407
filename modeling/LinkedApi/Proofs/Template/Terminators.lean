import LinkedApi.Proofs.Json.Printer
import LinkedApi.Proofs.Template
import LinkedApi.Route

/-!
# Line terminators in slots

What is declared goes into the generated code as a string literal or as JSON. A literal holds no
line terminator. JSON holds no line break, but the Unicode line separators of its strings stand in
it as they are, so that it ends no line exactly when its strings have none.
-/

namespace LinkedApi

open Text

namespace Slot

/-- A text adds no line terminator to the code. A value adds the line separators of its strings, in
their order, and nothing else. -/
theorem terminators_of_declared (text : String) (value : Json) :
    (∃ written, (Slot.str text).write = .ok written ∧
      ∀ c ∈ written, isLineTerminator c = false) ∧
    ∃ written, (Slot.json value).write = .ok written ∧
      '\n' ∉ written ∧ '\r' ∉ written ∧
      written.filter isLineTerminator = value.strings.flatMap Json.lineSeparators ∧
      ((∀ c ∈ written, isLineTerminator c = false) ↔
        ∀ text ∈ value.strings, ∀ c ∈ text.toList, isLineSeparator c = false) := by
  refine ⟨⟨_, rfl, isLineTerminator_literal text.toList⟩, _, write_json value,
    Json.newline_not_mem_compress value, fun hreturn => ?_, Json.filter_compress value, ?_⟩
  · exact absurd (Json.isLineSeparator_of_mem_compress hreturn rfl) (by decide)
  · have hfilter (cs : List Char) (p : Char → Bool) :
        cs.filter p = [] ↔ ∀ c ∈ cs, p c = false := by
      simp [List.filter_eq_nil_iff]
    rw [← hfilter, Json.filter_compress, List.flatMap_eq_nil_iff]
    exact forall₂_congr fun text _ => hfilter text.toList isLineSeparator

/-- A path with a line separator ends no line where the route is handled, but it ends one in the
list of the exported routes. -/
theorem terminator_in_exported_path :
    let path := "/\u2028"
    (∃ written, (Slot.str path).write = .ok written ∧
      ∀ c ∈ written, isLineTerminator c = false) ∧
    ∃ written, (Slot.json (.arr [Route.toJson ⟨.get, path⟩])).write = .ok written ∧
      ¬∀ c ∈ written, isLineTerminator c = false := by
  refine ⟨⟨_, rfl, isLineTerminator_of_any (by decide +kernel)⟩, _, rfl, fun hplain => ?_⟩
  exact absurd (hplain '\u2028' (by decide +kernel)) (by decide)

end Slot

end LinkedApi
