import LinkedApi.Compilation
import LinkedApi.Proofs.Emission.Run

/-!
# Outcomes of compilation

A specification that is not valid is refused before anything is done. One that is valid is
written as a whole, or the compilation fails for a reason outside or for a repetition in a chain.
-/

namespace LinkedApi

/-- Once all artifacts are created, each is held to be empty. Only what `refused` says may be the
reason why one is not created. -/
def Sink.Creates {ω : Type} (sink : Sink (StateM ω)) (held : Texts → ω → Prop)
    (refused : FileError → Prop) : Prop :=
  ∀ v, match sink.createAll Artifact.all v with
    | (.ok (), v') => held (fun _ => "") v'
    | (.error cause, _) => refused cause

namespace Compilation

open Outcome Steps

variable {ω : Type}

/-- A compilation reads the data sources and validates the operations, then creates the artifacts,
and only then emits. -/
theorem compileSpecification_apply (sink : Sink (StateM ω)) (transport : Transport (StateM ω))
    (spec : Specification) (v : ω) :
    compileSpecification sink transport spec v =
      match checkedSources spec with
      | .error cause => (.error cause, v)
      | .ok sources =>
        match sink.createAll Artifact.all v with
        | (.error cause, v') => (.error (.creation cause), v')
        | (.ok (), v') =>
          ((Emission.run sink transport spec (.idle sources) v').1.1,
            (Emission.run sink transport spec (.idle sources) v').2) := by
  unfold compileSpecification
  cases checkedSources spec with
  | error cause => rfl
  | ok sources =>
    change (sink.createAll Artifact.all >>= _) v = _
    simp only [bind, StateT.bind]
    rcases sink.createAll Artifact.all v with ⟨_ | ⟨⟩, v'⟩ <;> rfl

/-- A specification that is found valid declares what its operations are made of, and the
declarations go together. -/
theorem checkedSources_ok {spec : Specification} {sources : List DataSource}
    (h : checkedSources spec = .ok sources) :
    Specification.sourcesOf spec.dataSources = .ok sources ∧
      ∃ ds, List.Forall₂ (fun op d => op.declaration = .ok d) spec.operations ds ∧
        Coherent ds := by
  obtain ⟨summary, hsummary, h⟩ := bind_eq_ok.mp h
  exact ⟨mapError_eq_ok.mp h, Specification.validate_ok (mapError_eq_ok.mp hsummary)⟩

variable {sink : Sink (StateM ω)} {transport : Transport (StateM ω)} {held : Texts → ω → Prop}
  {refused : FileError → Prop} {loads : List PipeReference → List PipeModule → Prop}
  {unloaded : LoadingError → Prop}

/-- What a compilation has led to, once the specification has been found valid. -/
inductive Concluded (held : Texts → ω → Prop) (refused : FileError → Prop)
    (loads : List PipeReference → List PipeModule → Prop) (unloaded : LoadingError → Prop)
    (sources : List DataSource) (ds : List Declaration) : Except CompileError Report × ω → Prop where
  | written (report : Report) (v : ω) (es : List Emitted) (hdeclared : es.map (·.declaration) = ds)
    (hsound : ∀ e ∈ es, e.Sound loads) (hheld : held (Emitted.artifacts sources es) v) :
    Concluded held refused loads unloaded sources ds (.ok report, v)
  | notCreated (cause : FileError) (v : ω) (hrefused : refused cause) :
    Concluded held refused loads unloaded sources ds (.error (.creation cause), v)
  | excused (e : CompileError) (v : ω)
    (h : Emission.Excused held refused unloaded ds e v) :
    Concluded held refused loads unloaded sources ds (.error e, v)

theorem compileSpecification_spec (hsink : sink.Tracks held refused)
    (htransport : transport.Tracks held loads unloaded)
    (hcreate : sink.Creates held refused)
    {spec : Specification} {sources : List DataSource} {ds : List Declaration}
    (hsources : checkedSources spec = .ok sources)
    (hops : List.Forall₂ (fun op d => op.declaration = .ok d) spec.operations ds)
    (hcoherent : Coherent ds) (v : ω) :
    Concluded held refused loads unloaded sources ds
      (compileSpecification sink transport spec v) := by
  rw [compileSpecification_apply, hsources]
  dsimp only
  have hcreated := hcreate v
  cases hcreation : sink.createAll Artifact.all v with
  | mk outcome v' =>
    rw [hcreation] at hcreated
    cases outcome with
    | error cause => exact .notCreated cause v' hcreated
    | ok _ =>
      have hrun := Emission.run_spec hsink htransport hops hcoherent (.idle sources) v'
        ⟨rfl, hcreated⟩
      dsimp only
      revert hrun
      rcases Emission.run sink transport spec (.idle sources) v' with ⟨⟨e | report, _⟩, v''⟩
      · exact fun h => .excused e v'' h
      · exact fun ⟨es, hdeclared, hsound, hheld⟩ => .written report v'' es hdeclared hsound hheld

/-- A compilation that succeeds has written the artifacts of what its operations declare, and
reports how much this is. -/
theorem emitted_of_success (hsink : sink.Tracks held refused)
    (htransport : transport.Tracks held loads unloaded) {spec : Specification} {v v' : ω}
    {report : Report}
    (hcreated : ∀ v₀, sink.createAll Artifact.all v = (.ok (), v₀) → held (fun _ => "") v₀)
    (h : compileSpecification sink transport spec v = (.ok report, v')) :
    ∃ sources es, checkedSources spec = .ok sources ∧
      List.Forall₂ (fun op d => op.declaration = .ok d) spec.operations
        (es.map Emitted.declaration) ∧
      Coherent (es.map (·.declaration)) ∧ (∀ e ∈ es, e.Sound loads) ∧
      report = Emitted.report es ∧ held (Emitted.artifacts sources es) v' := by
  rw [compileSpecification_apply] at h
  cases hchecked : checkedSources spec with
  | error cause =>
    rw [hchecked] at h
    cases h
  | ok sources =>
    obtain ⟨-, ds, hops, hcoherent⟩ := checkedSources_ok hchecked
    rw [hchecked] at h
    dsimp only at h
    rcases hcreation : sink.createAll Artifact.all v with ⟨cause | ⟨⟩, v₀⟩ <;> rw [hcreation] at h
    · cases h
    · dsimp only at h
      have hrun := Emission.run_reports hsink htransport hops hcoherent (.idle sources) v₀
        ⟨rfl, hcreated v₀ hcreation⟩
      rcases hended : Emission.run sink transport spec (.idle sources) v₀ with
        ⟨⟨cause | report', e⟩, ended⟩ <;> rw [hended] at h hrun
      · cases h
      · cases h
        obtain ⟨es, rfl, hsound, hreport, hheld⟩ := hrun
        exact ⟨sources, es, rfl, hops, hcoherent, hsound, hreport, hheld⟩

end Compilation

end LinkedApi
