import LinkedApi.Proofs.Compilation.Conclusion
import LinkedApi.Proofs.Loading
import Mathlib.Data.Option.Basic

/-!
# Completeness of validation

Validation is to find every fault of a specification before anything is written. It misses one: a
chain that is given as a mapping may name a pipe module twice, once with a tag and once without,
and this is only noticed when the chain is written. It finds all faults of exactly those
specifications that have no such chain.
-/

namespace LinkedApi

open Compilation Outcome Steps

variable {ω : Type}

/-- Whether a failure comes from the sink or from the transport. -/
def CompileError.fromOutside : CompileError → Bool
  | .loading _ => true
  | .creation _ => true
  | .generation (.file _) => true
  | _ => false

/-- A compilation that fails for any other reason leaves the world as it was, so that neither the
sink nor the transport has been asked for anything. -/
def Compilation.Complete (spec : Specification) : Prop :=
  ∀ (ω : Type) (sink : Sink (StateM ω)) (transport : Transport (StateM ω)) (v v' : ω)
    (e : CompileError), compileSpecification sink transport spec v = (.error e, v') →
      e.fromOutside ∨ v' = v

namespace Operation

variable {op : Operation}

/-- In a chain that is a mapping, names are distinct when their tags are left out. -/
def NamesApart (op : Operation) : Prop :=
  ∀ entries, op.node.get? "postprocessing" = some (.map entries) →
    (entries.map (·.1.text?)).Nodup

/-- In a chain that can be read, names are apart exactly when each stands there once; only a mapping
can repeat one. -/
theorem namesApart_iff {refs : List PipeReference} (h : op.pipes = .ok refs) :
    op.NamesApart ↔ (refs.map (·.name)).Nodup := by
  obtain ⟨hread, -⟩ := pipes_ok h
  have hunread (hnode : ∀ entries, op.node.get? "postprocessing" ≠ some (.map entries)) :
      op.NamesApart := fun entries hmap => absurd hmap (hnode entries)
  unfold readPipes at hread
  -- Only in a mapping may a name stand twice, since a sequence is searched for it.
  split at hread
  · next hnode =>
    cases Except.ok.inj hread
    exact iff_of_true (hunread (by simp [hnode])) List.nodup_nil
  · next hnode =>
    cases Except.ok.inj hread
    exact iff_of_true (hunread (by simp [hnode])) List.nodup_nil
  · next entries hnode =>
    have hnames : entries.map (·.1.text?) = (refs.map (·.name)).map some := by
      rw [List.map_map]
      refine List.forall₂_eq_eq_eq ▸ ?_
      rw [List.forall₂_map_left_iff, List.forall₂_map_right_iff]
      exact (pipesOfMapping_ok hread).imp fun _ _ h => h.1
    have hnodup := List.nodup_map_iff (l := refs.map (·.name)) (Option.some_injective String)
    rw [← hnames] at hnodup
    rw [← hnodup]
    constructor
    · exact fun h => h entries hnode
    · intro h entries' hmap
      rw [hnode] at hmap
      cases hmap
      exact h
  · next items hnode =>
    obtain ⟨hnodup, -⟩ := pipesOfSequence_ok hread List.nodup_nil
    exact iff_of_true (hunread (by simp [hnode])) hnodup
  · cases hread

end Operation

/-! ## Specifications without repetitions -/

namespace Compilation

open Emission

variable {spec : Specification} {held : Texts → ω → Prop} {refused : FileError → Prop}
  {unloaded : LoadingError → Prop}

/-- Where the names in each chain are apart, only the sink and the transport are left as reasons for
a failure. -/
theorem isOutside_of_namesApart {ds : List Declaration} {e : CompileError} {v : ω}
    (hops : List.Forall₂ (fun op d => op.declaration = .ok d) spec.operations ds)
    (h : ∀ op ∈ spec.operations, op.NamesApart) (hexcused : Excused held refused unloaded ds e v) :
    e.IsOutside refused unloaded := by
  rcases hexcused with houtside | ⟨-, ⟨d, hd, hrepeated⟩, -⟩
  · exact houtside
  · obtain ⟨op, hop, hdeclared⟩ := Specification.exists_operation hops hd
    have hpipes := (Operation.declares_of_ok hdeclared).pipes
    exact absurd ((Operation.namesApart_iff hpipes).mp (h op hop)) hrepeated

/-- Without names that differ by a tag alone, every fault is found in time. -/
theorem complete_of_namesApart (h : ∀ op ∈ spec.operations, op.NamesApart) : Complete spec := by
  intro ω sink transport v v' e hfailed
  cases hchecked : checkedSources spec with
  | error cause =>
    rw [compileSpecification_apply, hchecked] at hfailed
    exact .inr (congrArg Prod.snd hfailed).symm
  | ok sources =>
    obtain ⟨-, ds, hops, hcoherent⟩ := checkedSources_ok hchecked
    have hsink : sink.Tracks (fun _ _ => True) (fun _ => True) := by
      constructor
      intro texts u artifact more _
      rcases sink.append artifact more u with ⟨_ | _, _⟩ <;> trivial
    have htransport : transport.Tracks (fun _ _ => True) (fun _ _ => True) (fun _ => True) := by
      constructor
      intro texts u refs _
      rcases Loading.load transport refs u with ⟨_ | _, _⟩ <;> simp
    have hcreate : sink.Creates (fun _ _ => True) (fun _ => True) := by
      intro u
      rcases sink.createAll Artifact.all u with ⟨_ | _, _⟩ <;> trivial
    have hconcluded := compileSpecification_spec hsink htransport hcreate hchecked hops hcoherent v
    rw [hfailed] at hconcluded
    cases hconcluded with
    | notCreated cause => exact .inl rfl
    | excused _ _ hexcused =>
      rcases isOutside_of_namesApart hops h hexcused with ⟨cause, rfl, -⟩ | ⟨cause, rfl, -⟩
      · exact .inl rfl
      · exact .inl rfl

/-- Nothing can fail once such a specification is valid, unless the sink or the transport fails. -/
theorem succeeds_of_namesApart {sink : Sink (StateM ω)} {transport : Transport (StateM ω)}
    {loads : List PipeReference → List PipeModule → Prop} {sources : List DataSource}
    (hsink : sink.Tracks held refused) (htransport : transport.Tracks held loads unloaded)
    (hcreate : sink.Creates held refused)
    (hrefused : ∀ cause, ¬refused cause) (hunloaded : ∀ cause, ¬unloaded cause)
    (hchecked : checkedSources spec = .ok sources) (h : ∀ op ∈ spec.operations, op.NamesApart)
    (v : ω) : ∃ report v', compileSpecification sink transport spec v = (.ok report, v') := by
  obtain ⟨-, ds, hops, hcoherent⟩ := checkedSources_ok hchecked
  have hconcluded := compileSpecification_spec hsink htransport hcreate hchecked hops hcoherent v
  generalize compileSpecification sink transport spec v = ended at hconcluded ⊢
  cases hconcluded with
  | written report v' => exact ⟨report, v', rfl⟩
  | notCreated cause _ hcause => exact absurd hcause (hrefused cause)
  | excused _ _ hexcused =>
    rcases isOutside_of_namesApart hops h hexcused with ⟨cause, -, hcause⟩ | ⟨cause, -, hcause⟩
    · exact absurd hcause (hrefused cause)
    · exact absurd hcause (hunloaded cause)

/-! ## Specifications with repetitions -/

def notingSink : Sink (StateM Bool) where
  create _ := fun _ => (.ok (), true)
  append _ _ := fun noted => (.ok (), noted)

def emptyTransport : Transport (StateM Bool) :=
  .each "empty" fun _ => pure (.ok "")

/-- When the sink and the transport have no failures, a failure that leaves the world changed can
only be that of a repetition. -/
theorem namesApart_of_complete {sources : List DataSource}
    (hchecked : checkedSources spec = .ok sources) (h : Complete spec) :
    ∀ op ∈ spec.operations, op.NamesApart := by
  intro op hop
  obtain ⟨-, ds, hops, hcoherent⟩ := checkedSources_ok hchecked
  obtain ⟨d, hd, hdeclared⟩ := Specification.exists_declaration hops hop
  rw [Operation.namesApart_iff (Operation.declares_of_ok hdeclared).pipes]
  have hsink : notingSink.Tracks (fun _ noted => noted = true) (fun _ => False) := by
    constructor
    intro texts noted artifact more hnoted
    exact hnoted
  have htransport : emptyTransport.Tracks (fun _ noted => noted = true) _ _ :=
    Transport.each_tracks (fun _ => .ok "") "empty" _
  have hconcluded := compileSpecification_spec hsink htransport (fun _ => rfl) hchecked hops
    hcoherent false
  generalize hended : compileSpecification notingSink emptyTransport spec false = ended
  rw [hended] at hconcluded
  cases hconcluded with
  | written report noted es hes hsound _ =>
    rw [← hes] at hd
    obtain ⟨emitted, hemitted, rfl⟩ := List.mem_map.mp hd
    obtain ⟨-, hchain⟩ := (hsound emitted hemitted).loads
    have hnodup := (hsound emitted hemitted).nodup
    rw [hchain] at hnodup
    rw [← map_reference_loadedFrom emitted.declaration.pipes, List.map_map]
    exact hnodup
  | notCreated cause noted hrefused => exact hrefused.elim
  | excused e noted hexcused =>
    rcases hexcused with houtside | ⟨⟨cause, rfl, name, rfl⟩, -, _, rfl⟩
    · rcases houtside with ⟨cause, -, hrefused⟩ | ⟨cause, -, hunloaded⟩
      · exact hrefused.elim
      · cases hunloaded
    · rcases h Bool notingSink emptyTransport false true _ hended with hcause | hkept
      · cases hcause
      · cases hkept

/-- Validation is complete for exactly those specifications that it refuses, or that have no chain
with names that differ by a tag alone. -/
theorem complete_iff (spec : Specification) :
    Complete spec ↔ ∀ sources, checkedSources spec = .ok sources →
      ∀ op ∈ spec.operations, op.NamesApart := by
  constructor
  · intro h sources hchecked
    exact namesApart_of_complete hchecked h
  · intro h
    cases hchecked : checkedSources spec with
    | error cause =>
      intro ω sink transport v v' e hfailed
      rw [compileSpecification_apply, hchecked] at hfailed
      exact .inr (congrArg Prod.snd hfailed).symm
    | ok sources => exact complete_of_namesApart (h sources hchecked)

/-- An operation with a chain that names one pipe module twice, the second time under a tag. -/
def repeating : Operation where
  path := "/x"
  method := "get"
  node := .map [
    (.str "query", .map [(.str "graphql-query", .str "\x7b id \x7d")]),
    (.str "postprocessing", .map [
      (.str "a", .str "http://x/a.js"),
      (.tagged "!t" (.str "a"), .str "http://x/a.js")])]

theorem not_complete_of_repeating : ¬Complete ⟨.null, [repeating]⟩ := by
  intro h
  have hchecked : checkedSources ⟨.null, [repeating]⟩ = .ok [] := by rfl
  have happart := namesApart_of_complete hchecked h repeating List.mem_cons_self _ rfl
  revert happart
  decide

end Compilation

end LinkedApi
