import LinkedApi.Proofs.Compilation.Names
import LinkedApi.Proofs.Generation.Handlers

/-!
# Counts

Validation counts what a specification declares, and an emission counts what it writes. The counts
come about in different ways: validation keeps the pipe modules that it has seen, and the writers
list the names that they have registered. Both count each operation and each name of a pipe module
once, so that they agree, and they agree with what stands in the artifacts.
-/

namespace LinkedApi

open Generated Outcome Steps Text

variable {ω : Type}

/-! ## Chains that are loaded -/

/-- A transport that gives one outcome for each location. -/
def Transport.Complete (transport : Transport (StateM ω)) : Prop :=
  ∀ locations v, (transport.fetchAll locations v).1.length = locations.length

theorem Transport.each_complete (name : String) (fetch : String → StateM ω Fetched) :
    (Transport.each name fetch).Complete := by
  intro locations
  induction locations with
  | nil => exact fun _ => rfl
  | cons location rest ih =>
    intro v
    change ((location :: rest).mapM fetch v).1.length = _
    rw [List.mapM_cons]
    exact congrArg Nat.succ (ih (fetch location v).2)

namespace Loading

theorem assemble_length {steps : List (PipeReference × Fetched)} {chain : List PipeModule}
    (h : assemble steps = .ok chain) : chain.length = steps.length := by
  induction steps generalizing chain with
  | nil =>
    cases Except.ok.inj h
    rfl
  | cons step rest ih =>
    obtain ⟨r, _ | body⟩ := step
    · cases h
    · obtain ⟨more, hmore, h⟩ := bind_eq_ok.mp h
      cases pure_eq_ok.mp h
      exact congrArg Nat.succ (ih hmore)

/-- Where there is an outcome for each location, the whole chain is loaded. -/
theorem load_whole {transport : Transport (StateM ω)} (hcomplete : transport.Complete)
    {refs : List PipeReference} {v v' : ω} {chain : List PipeModule}
    (h : load transport refs v = (.ok chain, v')) : chain.map PipeModule.reference = refs := by
  have hprefix := load_prefix transport h
  refine hprefix.eq_of_length ?_
  rw [List.length_map]
  unfold load at h
  split at h
  · next hempty =>
    cases h
    rw [List.isEmpty_iff.mp hempty]
    rfl
  · have hlength := assemble_length (congrArg Prod.fst h)
    rw [hlength, List.length_zip, hcomplete, List.length_map, Nat.min_self]

end Loading

namespace Compilation

open Emission

variable {es : List Emitted} {transport : Transport (StateM ω)}

/-- Where there is an outcome for each location, each chain is written as it is declared. -/
theorem references_eq (hcomplete : transport.Complete)
    (hsound : ∀ e ∈ es, e.Sound transport.Loaded) :
    ∀ e ∈ es, e.chain.map PipeModule.reference = e.declaration.pipes := by
  intro e he
  obtain ⟨v, hv⟩ := (hsound e he).loads
  exact Loading.load_whole hcomplete (Prod.ext hv rfl)

/-- The names of the pipe modules that are written are those that are declared. -/
theorem mem_names_modules (hcomplete : transport.Complete)
    (hsound : ∀ e ∈ es, e.Sound transport.Loaded) (name : String) :
    name ∈ (Emitted.modules es).map (·.name) ↔
      name ∈ ((es.map (·.declaration)).flatMap (·.pipes)).map (·.name) := by
  have hchain : ∀ e ∈ es, e.declaration.pipes.map (·.name) = e.chain.map (·.name) := by
    intro e he
    rw [← references_eq hcomplete hsound e he, List.map_map]
    rfl
  rw [Emitted.modules, PipeModule.mem_names_firsts, List.map_flatMap, List.map_flatMap,
    List.flatMap_map, List.flatMap_congr hchain]

/-- The names that a handler refers to are identifiers. -/
theorem isIdentifier_of_mem_bindings (hsound : ∀ e ∈ es, e.Sound transport.Loaded) :
    ∀ binding ∈ es.map Emitted.binding,
      isIdentifier binding.query ∧ ∀ name ∈ binding.pipes, isIdentifier name := by
  refine List.forall_mem_map.mpr fun e he => ⟨(hsound e he).query, ?_⟩
  exact List.forall_mem_map.mpr fun pipe hpipe =>
    Emitted.isIdentifier_of_mem_chain (hsound e he).references (hsound e he).pipes hpipe

/-- Once a compilation has succeeded, it reports as many routes and queries as validation counts
operations, and as many pipe modules as validation counts. These are the numbers of the handlers, of
the definitions of queries and of the definitions of pipe modules that have been written; the
latter are those of the modules that the operations name, with the code that is loaded for them. -/
theorem counts_agree (sink : Sink (StateM ω)) (transport : Transport (StateM ω))
    (hcomplete : transport.Complete) {spec : Specification} {v v' : ω} {journal : Journal}
    {report : Report} (h : compileSpecification sink.journaled transport.journaled spec (v, []) =
      (.ok report, (v', journal))) :
    ∃ (summary : Summary) (es : List Emitted),
      spec.validate = .ok summary ∧
      report.routes = summary.operations ∧ report.queries = summary.operations ∧
      report.pipeModules = summary.pipeModules ∧
      List.Forall₂ (fun op e => op.declaration = .ok e.declaration) spec.operations es ∧
      (∀ e ∈ es, e.chain.map PipeModule.reference = e.declaration.pipes ∧
        transport.Loaded e.declaration.pipes e.chain) ∧
      (registrations (journal.text .routes)).length = report.routes ∧
      declaredNames (journal.text .query) = headerNames ++ es.map (·.declaration.query.name) ∧
      es.length = report.queries ∧
      journal.text .pipeModules = Writers.PipeModules.header ++
        String.join ((Emitted.modules es).map pipeDefinition) ++
          pipeExports ((Emitted.modules es).map (·.name)) ∧
      (Emitted.modules es).length = report.pipeModules := by
  obtain ⟨sources, es, hchecked, hops, -, hsound, rfl, htext⟩ := reported_of_success h
  obtain ⟨summary, hsummary, -⟩ := bind_eq_ok.mp hchecked
  have hvalid := mapError_eq_ok.mp hsummary
  obtain ⟨hoperations, names, hnodup, hnames, hmodules⟩ :=
    Specification.validate_counts hvalid hops
  have hsame : ((Emitted.modules es).map (·.name)).Perm names := by
    refine (List.perm_ext_iff_of_nodup (PipeModule.nodup_names_firsts _) hnodup).mpr fun name => ?_
    exact (mem_names_modules hcomplete hsound name).trans (hnames name).symm
  have hpipes : (Emitted.modules es).length = summary.pipeModules := by
    rw [hmodules, ← hsame.length_eq, List.length_map]
  rw [List.length_map] at hoperations
  refine ⟨summary, es, hvalid, hoperations.symm, hoperations.symm, hpipes, forall₂_emitted hops,
    fun e he => ⟨references_eq hcomplete hsound e he, (hsound e he).loads⟩, ?_, ?_, rfl, ?_, rfl⟩
  · rw [htext, Emitted.artifacts, finalLayout, layout,
      registrations_routes (isIdentifier_of_mem_bindings hsound), List.length_map, List.length_map]
    rfl
  · rw [htext, declaredNames_artifacts sources hsound]
  · rw [htext]
    rfl

/-- Two operations with three steps, two of which are of one module. -/
theorem counts_agree_of_sharing :
    let transport : Transport (StateM Unit) := .each "" fun _ => pure (.ok " (d) => d\n")
    let spec : Specification :=
      ⟨.map [(.str "sparql", .seq [.str "http://x/sparql"])], Specification.pairs sharing⟩
    transport.Complete ∧ ∃ report journal, ∃ es : List Emitted,
      compileSpecification Sink.accepting.journaled transport.journaled spec ((), []) =
        (.ok report, ((), journal)) ∧
      report = ⟨2, 2, 2⟩ ∧ (registrations (journal.text .routes)).length = 2 ∧
      List.Forall₂ (fun op e => op.declaration = .ok e.declaration) spec.operations es ∧
      (Emitted.modules es).length = 2 := by
  intro transport spec
  have hcomplete : transport.Complete := Transport.each_complete _ _
  have hvalid : spec.validate = .ok ⟨1, 2, 2⟩ := by rfl
  obtain ⟨report, journal, h⟩ := sharing_journaled
  obtain ⟨summary, es, hsummary, hroutes, hqueries, hpipes, hdeclares, -, hregistered, -, -, -,
    hmodules⟩ := counts_agree .accepting transport hcomplete h
  rw [hvalid] at hsummary
  cases hsummary
  refine ⟨hcomplete, report, journal, es, h, ?_, hregistered.trans hroutes, hdeclares,
    hmodules.trans hpipes⟩
  obtain ⟨routes, queries, pipeModules⟩ := report
  cases hroutes
  cases hqueries
  cases hpipes
  rfl

end Compilation

end LinkedApi
