import LinkedApi.Proofs.Compilation.Names
import LinkedApi.Proofs.Emission.Routes

/-!
# Routes of the generated modules

Validation compares only the names of queries. These are made of the method and of the letters of
the path, which are the same before and after it is written for the router, so that operations with
distinct query names have distinct routes.
-/

namespace LinkedApi

open Generated Outcome Steps

variable {ω : Type}

def Operation.place (op : Operation) : Option Method × String :=
  (Method.ofName? op.method, Route.routerPath op.path)

theorem Declares.place {op : Operation} {d : Declaration} (h : Declares op d) :
    op.place = (some d.route.method, d.route.path) := by
  obtain ⟨method, hmethod, hroute, -⟩ := h.route
  rw [Operation.place, hmethod, hroute]

/-- What is declared coherently has distinct routes. -/
theorem Coherent.nodup_routes {ops : List Operation} {ds : List Declaration}
    (hops : List.Forall₂ (fun op d => op.declaration = .ok d) ops ds) (h : Coherent ds) :
    (ds.map (·.route)).Nodup := by
  have hnames : ds.map (·.query.name) = (ds.map (·.route)).map Route.queryName := by
    rw [List.map_map]
    refine List.map_congr_left fun d hd => ?_
    obtain ⟨op, -, hdeclared⟩ := Specification.exists_operation hops hd
    exact (Operation.declares_of_ok hdeclared).queryName
  exact List.Nodup.of_map _ (hnames ▸ h.queries)

/-- What is read off the operations in their order is what is read off their declarations. -/
theorem Specification.map_declared {α : Type} {ops : List Operation} {ds : List Declaration}
    (hops : List.Forall₂ (fun op d => op.declaration = .ok d) ops ds) {f : Operation → α}
    {g : Declaration → α} (h : ∀ op d, Declares op d → f op = g d) : ops.map f = ds.map g := by
  induction hops with
  | nil => rfl
  | cons hd _ ih => rw [List.map_cons, List.map_cons, h _ _ (Operation.declares_of_ok hd), ih]

/-- No two operations of a valid specification have the same method and the same path in the
router. -/
theorem Specification.nodup_places {spec : Specification} {summary : Summary}
    (h : spec.validate = .ok summary) : (spec.operations.map Operation.place).Nodup := by
  obtain ⟨ds, hops, hcoherent⟩ := validate_ok h
  have hroutes := hcoherent.nodup_routes hops
  have hplaces : spec.operations.map Operation.place =
      (ds.map (·.route)).map fun r => (some r.method, r.path) := by
    rw [List.map_map]
    exact map_declared hops fun op d hd => hd.place
  rw [hplaces]
  refine hroutes.map ?_
  rintro ⟨method, path⟩ ⟨method', path'⟩ hsame
  cases hsame
  rfl

namespace Compilation

open Emission

/-- No two operations of a valid specification have the same method and the same path in the
router, and at every moment of its compilation, whether it succeeds or fails, the handlers that are
read from the module of the routes are those of distinct routes, and these are the routes of the one
list that it exports, if it exports any. -/
theorem routes_apart (sink : Sink (StateM ω)) (transport : Transport (StateM ω))
    {spec : Specification} {summary : Summary} (hvalid : spec.validate = .ok summary) (v : ω)
    (moment : Nat) :
    let ended := compileSpecification sink.journaled transport.journaled spec (v, [])
    (spec.operations.map fun op => (Method.ofName? op.method, Route.routerPath op.path)).Nodup ∧
      ∃ routes : List Route, routes.Nodup ∧
        registeredRoutes? (Journal.text (ended.2.2.take moment) .routes) = some routes ∧
        (routeLists (Journal.text (ended.2.2.take moment) .routes) = [] ∨
          routeLists (Journal.text (ended.2.2.take moment) .routes) = [some routes]) := by
  intro ended
  refine ⟨Specification.nodup_places hvalid, ?_⟩
  have halways : ended.2.2.Always Texts.RoutesApart := by
    change (compileSpecification sink.journaled transport.journaled spec (v, [])).2.2.Always _
    rw [compileSpecification_apply]
    cases checkedSources spec with
    | error cause => exact Journal.always_routesApart_nil
    | ok sources =>
      dsimp only
      rw [Sink.createAll_journaled]
      rcases sink.createAll Artifact.all v with ⟨cause | ⟨⟩, v₀⟩
      · exact Journal.always_routesApart_nil
      · exact run_apart sink transport spec sources v₀
  exact halways moment

/-- A specification with two operations, and what stands after twelve texts have been appended. -/
theorem routes_apart_of_sharing :
    let spec : Specification :=
      ⟨.map [(.str "sparql", .seq [.str "http://x/sparql"])], Specification.pairs sharing⟩
    spec.validate = .ok ⟨1, 2, 2⟩ ∧
      ∃ text : String,
        text = Journal.text (List.take 12 (compileSpecification Sink.accepting.journaled
          (Transport.journaled (.each "" fun _ => pure (.ok " (d) => d\n"))) spec
          ((), [])).2.2) .routes ∧
        ∃ routes : List Route, routes.Nodup ∧ registeredRoutes? text = some routes ∧
          (routeLists text = [] ∨ routeLists text = [some routes]) := by
  intro spec
  have hvalid : spec.validate = .ok ⟨1, 2, 2⟩ := by rfl
  exact ⟨hvalid, _, rfl, (routes_apart Sink.accepting _ hvalid () 12).2⟩

end Compilation

end LinkedApi
