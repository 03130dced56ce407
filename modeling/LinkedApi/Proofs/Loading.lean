import LinkedApi.Proofs.Emission.Run
import LinkedApi.Proofs.Text.Trim

/-!
# Loading from a fixed content

When a transport always finds the same at a location, a chain is loaded exactly when all its
locations have texts, and its code is these texts without the blank space around them.
-/

namespace LinkedApi

open Outcome

variable {ω : Type} {fetch : String → Fetched}

def PipeReference.loadedFrom (fetch : String → Fetched) (r : PipeReference) : PipeModule :=
  match fetch r.source with
  | .ok body => r.withCode (String.ofList (Text.trim body.toList))
  | .error _ => r.withCode ""

/-- The chain can be loaded. -/
def Loads (fetch : String → Fetched) (refs : List PipeReference) : Prop :=
  ∀ r ∈ refs, ∃ body, fetch r.source = .ok body

/-- The code is the text at the source without the white space around it. -/
theorem PipeReference.trimmed_loadedFrom {r : PipeReference} {body : String}
    (h : fetch r.source = .ok body) :
    Text.Trimmed body.toList (r.loadedFrom fetch).code.toList := by
  have hcode : (r.loadedFrom fetch).code = String.ofList (Text.trim body.toList) := by
    rw [loadedFrom, h]
    rfl
  rw [hcode, String.toList_ofList]
  exact Text.trimmed_trim body.toList

@[simp]
theorem PipeReference.reference_loadedFrom (r : PipeReference) :
    (r.loadedFrom fetch).reference = r := by
  unfold loadedFrom
  split <;> rfl

@[simp]
theorem PipeReference.name_loadedFrom (r : PipeReference) : (r.loadedFrom fetch).name = r.name :=
  congrArg PipeReference.name r.reference_loadedFrom

theorem map_name_loadedFrom (refs : List PipeReference) :
    (refs.map (·.loadedFrom fetch)).map (·.name) = refs.map (·.name) := by
  rw [List.map_map]
  exact List.map_congr_left fun r _ => r.name_loadedFrom

theorem map_reference_loadedFrom (refs : List PipeReference) :
    (refs.map (·.loadedFrom fetch)).map PipeModule.reference = refs := by
  rw [List.map_map]
  have hid : PipeModule.reference ∘ (·.loadedFrom fetch) = id :=
    funext PipeReference.reference_loadedFrom
  rw [hid, List.map_id]

namespace Loading

/-- Steps are assembled where every fetch succeeds, and each has the code that stands at its source.
-/
theorem assemble_ok {refs : List PipeReference} {chain : List PipeModule}
    (h : assemble (refs.map fun r => (r, fetch r.source)) = .ok chain) :
    Loads fetch refs ∧ chain = refs.map (·.loadedFrom fetch) := by
  induction refs generalizing chain with
  | nil =>
    cases Except.ok.inj h
    exact ⟨by simp [Loads], rfl⟩
  | cons r rest ih =>
    rw [List.map_cons] at h
    cases hfetch : fetch r.source with
    | error cause =>
      rw [hfetch] at h
      cases h
    | ok body =>
      rw [hfetch] at h
      obtain ⟨more, hmore, h⟩ := bind_eq_ok.mp h
      cases pure_eq_ok.mp h
      obtain ⟨hloads, rfl⟩ := ih hmore
      refine ⟨List.forall_mem_cons.mpr ⟨⟨body, hfetch⟩, hloads⟩, ?_⟩
      rw [List.map_cons, PipeReference.loadedFrom, hfetch]

/-- A chain that is not assembled has a fetch that failed. -/
theorem assemble_error {refs : List PipeReference} {cause : LoadingError}
    (h : assemble (refs.map fun r => (r, fetch r.source)) = .error cause) :
    fetch cause.pipe.source = .error cause.cause := by
  induction refs with
  | nil => cases h
  | cons r rest ih =>
    rw [List.map_cons] at h
    cases hfetch : fetch r.source with
    | error why =>
      rw [hfetch] at h
      cases h
      exact hfetch
    | ok body =>
      rw [hfetch] at h
      cases hrest : assemble (rest.map fun r => (r, fetch r.source)) with
      | error why =>
        rw [assemble, hrest] at h
        cases h
        exact ih hrest
      | ok more =>
        rw [assemble, hrest] at h
        cases h

/-- To fetch one location after the other from a fixed content changes nothing. -/
theorem load_each (name : String) (refs : List PipeReference) (v : ω) :
    load (Transport.each name fun location => (pure (fetch location) : StateM ω Fetched)) refs v =
      (assemble (refs.map fun r => (r, fetch r.source)), v) := by
  cases refs with
  | nil => rfl
  | cons r rest =>
    have houtcomes : (r :: rest).zip (((r :: rest).map (·.source)).map fetch) =
        (r :: rest).map fun r => (r, fetch r.source) := by
      rw [List.map_map, ← List.map_prod_left_eq_zip]
      rfl
    unfold load Transport.each
    simp only [List.mapM_pure, List.isEmpty_cons, Bool.false_eq_true, if_false, pure_bind,
      houtcomes]
    rfl

end Loading

/-- A transport that finds fixed texts leaves the world as it is. -/
theorem Transport.each_tracks (fetch : String → Fetched) (name : String) (held : Texts → ω → Prop) :
    (Transport.each name fun location => (pure (fetch location) : StateM ω Fetched)).Tracks held
      (fun refs chain => Loads fetch refs ∧ chain = refs.map (·.loadedFrom fetch))
      (fun cause => fetch cause.pipe.source = .error cause.cause) := by
  constructor
  intro texts v refs hheld
  rw [Loading.load_each]
  cases hassembled : Loading.assemble (refs.map fun r => (r, fetch r.source)) with
  | error cause => exact Loading.assemble_error hassembled
  | ok chain => exact ⟨Loading.assemble_ok hassembled, hheld⟩

end LinkedApi
