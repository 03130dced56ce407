import LinkedApi.Proofs.Compilation.ClosedForm
import LinkedApi.Proofs.Emission.Journaled
import LinkedApi.Proofs.Generation.Bindings

/-!
# Names of the generated modules

Nothing compares the names of queries with those that the header of their module declares. They are
apart because the name of a query begins with a method. Pipe modules are apart from the wrapper's
names because these are refused when a chain is read, and each is defined where its name first
occurs.
-/

namespace LinkedApi

open Generated Outcome Steps Text

variable {ω : Type}

/-! ## Queries -/

theorem Method.head?_name (method : Method) :
    method.name.toList.head? ∈ [some 'g', some 'p', some 'd', some 'h'] := by
  cases method <;> decide

/-- The name of a query is neither the wrapper's nor the header's. -/
theorem Query.nameOf_not_mem (method : Method) (path : String) :
    Query.nameOf method path ∉ wrapperBindings ++ headerNames := by
  have hfixed : ∀ name ∈ wrapperBindings ++ headerNames,
      name.toList.head? ∉ [some 'g', some 'p', some 'd', some 'h'] := by decide
  intro hmem
  have hhead : (Query.nameOf method path).toList.head? = method.name.toList.head? := by
    rw [Query.nameOf, String.toList_ofList]
    cases method <;> rfl
  have hfirst := hfixed _ hmem
  rw [hhead] at hfirst
  exact hfirst method.head?_name

/-! ## Pipe modules -/

theorem PipeModule.nodup_names_firsts (pipes : List PipeModule) :
    ((firsts pipes).map (·.name)).Nodup := by
  induction pipes with
  | nil => exact List.nodup_nil
  | cons pipe rest ih =>
    rw [firsts, List.map_cons, List.nodup_cons]
    constructor
    · intro hmem
      obtain ⟨other, hother, hname⟩ := List.mem_map.mp hmem
      exact of_decide_eq_true (List.mem_filter.mp hother).2 hname
    · exact ih.sublist (List.filter_sublist.map _)

/-! ## Compilations that succeed -/

namespace Compilation

open Emission

variable {sink : Sink (StateM ω)} {transport : Transport (StateM ω)} {spec : Specification}

/-- A compilation that succeeds has appended the artifacts of what its operations declare, and
reports how much this is. -/
theorem reported_of_success {v v' : ω} {journal : Journal} {report : Report}
    (h : compileSpecification sink.journaled transport.journaled spec (v, []) =
      (.ok report, (v', journal))) :
    ∃ sources es, checkedSources spec = .ok sources ∧
      List.Forall₂ (fun op d => op.declaration = .ok d) spec.operations
        (es.map Emitted.declaration) ∧
      Coherent (es.map (·.declaration)) ∧ (∀ e ∈ es, e.Sound transport.Loaded) ∧
      report = Emitted.report es ∧ journal.text = Emitted.artifacts sources es := by
  refine emitted_of_success sink.journaled_tracks transport.journaled_tracks ?_ h
  intro v₀ hcreated
  rw [Sink.createAll_journaled] at hcreated
  obtain ⟨-, rfl⟩ := Prod.mk.inj hcreated
  rfl

/-- A compilation that succeeds has appended the artifacts of what its operations declare. -/
theorem appended_of_success {v v' : ω} {journal : Journal} {report : Report}
    (h : compileSpecification sink.journaled transport.journaled spec (v, []) =
      (.ok report, (v', journal))) :
    ∃ sources es,
      List.Forall₂ (fun op d => op.declaration = .ok d) spec.operations
        (es.map Emitted.declaration) ∧
      Coherent (es.map (·.declaration)) ∧ (∀ e ∈ es, e.Sound transport.Loaded) ∧
      journal.text = Emitted.artifacts sources es := by
  obtain ⟨sources, es, -, hops, hcoherent, hsound, -, htext⟩ := reported_of_success h
  exact ⟨sources, es, hops, hcoherent, hsound, htext⟩

section Declared

variable {ops : List Operation} {ds : List Declaration}

/-- What the module of the queries binds has different names: the wrapper, the header and the
queries. -/
theorem nodup_queries (hops : List.Forall₂ (fun op d => op.declaration = .ok d) ops ds)
    (hcoherent : Coherent ds) :
    (wrapperBindings ++ (headerNames ++ ds.map (·.query.name))).Nodup := by
  have hfixed : (wrapperBindings ++ headerNames).Nodup := by decide
  rw [← List.append_assoc, List.nodup_append]
  refine ⟨hfixed, hcoherent.queries, ?_⟩
  rintro fixed hmem _ hquery rfl
  obtain ⟨d, hd, rfl⟩ := List.mem_map.mp hquery
  obtain ⟨op, -, hdeclared⟩ := Specification.exists_operation hops hd
  obtain ⟨method, -, -, hname⟩ := (Operation.declares_of_ok hdeclared).route
  rw [hname] at hmem
  exact Query.nameOf_not_mem method op.path hmem

theorem nodup_pipes {es : List Emitted} {loads : List PipeReference → List PipeModule → Prop}
    (hops : List.Forall₂ (fun op d => op.declaration = .ok d) ops (es.map Emitted.declaration))
    (hsound : ∀ e ∈ es, e.Sound loads) :
    (wrapperBindings ++ (Emitted.modules es).map (·.name)).Nodup := by
  have hfixed : wrapperBindings.Nodup := by decide
  rw [List.nodup_append]
  refine ⟨hfixed, PipeModule.nodup_names_firsts _, ?_⟩
  rintro fixed hmem _ hname rfl
  obtain ⟨pipe, hpipe, rfl⟩ := List.mem_map.mp hname
  obtain ⟨e, he, hchain⟩ := Emitted.exists_of_mem_modules hpipe
  obtain ⟨op, -, hdeclared⟩ := Specification.exists_operation hops (List.mem_map_of_mem he)
  have hreference := Emitted.mem_references (hsound e he).references hchain
  have haccepted : Operation.isPipeName pipe.name :=
    (Operation.declares_of_ok hdeclared).pipe_names pipe.reference hreference
  rw [Operation.isPipeName, Bool.and_eq_true, Bool.not_eq_true', isWrapperBinding,
    List.contains_eq_mem, decide_eq_false_iff_not] at haccepted
  exact haccepted.2 hmem

end Declared

section Written

variable {es : List Emitted} {loads : List PipeReference → List PipeModule → Prop}

theorem forall₂_emitted {ops : List Operation}
    (hops : List.Forall₂ (fun op d => op.declaration = .ok d) ops (es.map Emitted.declaration)) :
    List.Forall₂ (fun op e => op.declaration = .ok (Emitted.declaration e)) ops es := by
  rwa [List.forall₂_map_right_iff] at hops

theorem isIdentifier_of_mem_queries (hsound : ∀ e ∈ es, e.Sound loads) :
    ∀ query ∈ es.map (·.declaration.query), isIdentifier query.name :=
  List.forall_mem_map.mpr fun e he => (hsound e he).query

/-- The module of the queries declares the names of the header and those of the queries. -/
theorem declaredNames_artifacts (sources : List DataSource) (hsound : ∀ e ∈ es, e.Sound loads) :
    declaredNames (Emitted.artifacts sources es .query) =
      headerNames ++ es.map (·.declaration.query.name) := by
  rw [Emitted.artifacts, finalLayout, layout,
    declaredNames_queries sources (isIdentifier_of_mem_queries hsound), List.map_map]
  rfl

/-- The module of the queries exports the function that runs them and the queries. -/
theorem exportedNames_artifacts (sources : List DataSource) (hsound : ∀ e ∈ es, e.Sound loads) :
    exportedNames (Emitted.artifacts sources es .query) =
      "executeQuery" :: es.map (·.declaration.query.name) := by
  rw [Emitted.artifacts, finalLayout, layout,
    exportedNames_queries sources (isIdentifier_of_mem_queries hsound), List.map_map]
  rfl

end Written

/-- Once a compilation has succeeded, the names that the module of the queries declares at its top
level are distinct and none is the wrapper's. The module of the pipe modules consists of the
definitions of the modules that the operations name, with the code that is loaded for them, and the
names that these definitions declare are distinct and none is the wrapper's. Each module exports
each of its names once. -/
theorem nodup_bindings (sink : Sink (StateM ω)) (transport : Transport (StateM ω))
    (spec : Specification) (v v' : ω) (journal : Journal) (report : Report)
    (h : compileSpecification sink.journaled transport.journaled spec (v, []) =
      (.ok report, (v', journal))) :
    ∃ es : List Emitted,
      List.Forall₂ (fun op e => op.declaration = .ok e.declaration) spec.operations es ∧
      (∀ e ∈ es, e.chain.map PipeModule.reference <+: e.declaration.pipes ∧
        transport.Loaded e.declaration.pipes e.chain) ∧
      declaredNames (journal.text .query) = headerNames ++ es.map (·.declaration.query.name) ∧
      (wrapperBindings ++ declaredNames (journal.text .query)).Nodup ∧
      exportedNames (journal.text .query) =
        "executeQuery" :: es.map (·.declaration.query.name) ∧
      (exportedNames (journal.text .query)).Nodup ∧
      journal.text .pipeModules = Writers.PipeModules.header ++
        String.join ((Emitted.modules es).map pipeDefinition) ++
          pipeExports ((Emitted.modules es).map (·.name)) ∧
      (wrapperBindings ++ (Emitted.modules es).map (·.name)).Nodup ∧
      exportedNames (journal.text .pipeModules) = (Emitted.modules es).map (·.name) := by
  obtain ⟨sources, es, hops, hcoherent, hsound, htext⟩ := appended_of_success h
  have hpipes : ∀ pipe ∈ Emitted.modules es, isIdentifier pipe.name :=
    fun pipe => Emitted.isIdentifier_of_mem_modules hsound
  have hnodup := nodup_queries hops hcoherent
  rw [List.map_map] at hnodup
  refine ⟨es, forall₂_emitted hops,
    fun e he => ⟨(hsound e he).references, (hsound e he).loads⟩, ?_⟩
  rw [htext, declaredNames_artifacts sources hsound, exportedNames_artifacts sources hsound]
  refine ⟨rfl, hnodup, rfl, ?_, rfl, nodup_pipes hops hsound, exportedNames_pipes hpipes⟩
  -- the entry point is the last of the header's names
  refine hnodup.sublist (List.sublist_append_of_sublist_right ?_)
  exact List.sublist_append_right ["Client", "QueryEngineComunica", "comunicaConfig"] _

theorem sharing_journaled : ∃ report journal,
    compileSpecification Sink.accepting.journaled
      (Transport.journaled (.each "" fun _ => pure (.ok " (d) => d\n")))
      ⟨.map [(.str "sparql", .seq [.str "http://x/sparql"])], Specification.pairs sharing⟩
      ((), []) = (.ok report, ((), journal)) := by
  have hchecked : checkedSources
      ⟨.map [(.str "sparql", .seq [.str "http://x/sparql"])], Specification.pairs sharing⟩ =
        .ok [⟨"sparql", "http://x/sparql"⟩] := by
    rfl
  have htransport := (Transport.each_tracks (fun _ => .ok " (d) => d\n") ""
    fun _ (_ : Unit) => True).journaled
  obtain ⟨report, ⟨⟨⟩, journal⟩, h⟩ := succeeds_of_namesApart Sink.accepting_tracks htransport
    (fun _ => trivial) (fun _ => id) nofun hchecked sharing_namesApart ((), [])
  exact ⟨report, journal, h⟩

/-- Two operations share a step, which is defined once. -/
theorem nodup_bindings_of_sharing :
    let transport : Transport (StateM Unit) := .each "" fun _ => pure (.ok " (d) => d\n")
    let spec : Specification :=
      ⟨.map [(.str "sparql", .seq [.str "http://x/sparql"])], Specification.pairs sharing⟩
    ∃ report journal, ∃ es : List Emitted,
      compileSpecification Sink.accepting.journaled transport.journaled spec ((), []) =
        (.ok report, ((), journal)) ∧
      List.Forall₂ (fun op e => op.declaration = .ok e.declaration) spec.operations es ∧
      (wrapperBindings ++ declaredNames (journal.text .query)).Nodup ∧
      (wrapperBindings ++ (Emitted.modules es).map (·.name)).Nodup := by
  intro transport spec
  obtain ⟨report, journal, h⟩ := sharing_journaled
  obtain ⟨es, hops, -, -, hqueries, -, -, -, hpipes, -⟩ :=
    nodup_bindings .accepting transport spec () () journal report h
  exact ⟨report, journal, es, h, hops, hqueries, hpipes⟩

end Compilation

end LinkedApi
