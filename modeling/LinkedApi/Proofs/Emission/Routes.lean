import LinkedApi.Proofs.Emission.LifeCycle
import LinkedApi.Proofs.Generation.Routes
import LinkedApi.Proofs.Route
import LinkedApi.Proofs.Validation

/-!
# Routes are written once

Nothing compares routes. The name of a query follows from the route, though, and it is registered
before the route is written. A name is registered once, so that no route is written a second time:
at every moment of a run the handlers that are read from the artifact are those of distinct routes,
and these are the routes that it exports.
-/

namespace LinkedApi

open Generated Steps

variable {ω : Type}

/-- The query of an operation is named after its route. -/
theorem Declares.queryName {op : Operation} {d : Declaration} (h : Declares op d) :
    d.query.name = d.route.queryName := by
  obtain ⟨method, -, hroute, hname⟩ := h.route
  rw [hroute, hname, Route.queryName_routerPath]

/-- The handlers that are read from the module of the routes are those of distinct routes, and it
exports no other routes, nor any twice. -/
def Texts.RoutesApart (texts : Texts) : Prop :=
  ∃ routes : List Route, routes.Nodup ∧ registeredRoutes? (texts .routes) = some routes ∧
    (routeLists (texts .routes) = [] ∨ routeLists (texts .routes) = [some routes])

theorem Texts.routesApart_of_empty {texts : Texts} (h : texts .routes = "") :
    texts.RoutesApart := by
  refine ⟨[], List.nodup_nil, ?_, .inl ?_⟩
  · rw [h]
    rfl
  · rw [h]
    rfl

theorem Journal.always_routesApart_nil : Journal.Always Texts.RoutesApart [] := by
  intro n
  rw [List.take_nil]
  exact Texts.routesApart_of_empty rfl

/-- Any pipe modules and queries, and handlers whose names are identifiers. -/
def Supply.identified : Supply
  | .routes, binding => Text.isIdentifier binding.query ∧
      ∀ name ∈ binding.pipes, Text.isIdentifier name
  | _, _ => True

/-- The routes have been distinct at every moment, and the names of their queries are registered,
each once. -/
structure RoutesKept (w : Writers) (v : ω × Journal) : Prop where
  always : v.2.Always Texts.RoutesApart
  queries : (w.registry.names .query).Nodup
  routes : List.Sublist (w.routes.map Route.queryName) (w.registry.names .query)

variable {sources : List DataSource} {standing : Artifact → Standing} {w w' : Writers}
  {v v' : ω × Journal}

theorem RoutesKept.nodup_routes (h : RoutesKept w v) : w.routes.Nodup :=
  List.Nodup.of_map _ (h.queries.sublist h.routes)

/-- Before the artifact of the routes is left, its handlers are those of the routes that are
listed. -/
theorem Standings.routesApart (h : Standings sources .identified standing w v)
    (hstanding : standing .routes ≠ .left) (hroutes : w.routes.Nodup) :
    v.2.text.RoutesApart := by
  have hof := h.each .routes
  cases hstands : standing .routes with
  | untouched =>
    rw [hstands] at hof
    exact Texts.routesApart_of_empty hof.1
  | begun =>
    rw [hstands] at hof
    obtain ⟨written, waiting, hwritten, -, hlists, hsupplied⟩ := hof
    have hlisted : w.routes = (written ++ waiting).map (·.route) := hlists
    have hnames := (List.forall_mem_append.mp hsupplied).1
    have htext : v.2.text .routes = Writers.Routes.header ++ String.join (written.map handler) :=
      hwritten
    rw [hlisted, List.map_append] at hroutes
    refine ⟨written.map (·.route), hroutes.of_append_left, ?_, .inl ?_⟩
    · rw [htext, registeredRoutes?_layout hnames]
    · rw [htext, routeLists_layout hnames]
  | left => exact absurd hstands hstanding

/-! ## Steps that append at most once -/

/-- A step leaves the routes and the names of the queries as they are, and notes at most one text,
and none if it fails. -/
def Aside (w : Writers) (v : ω × Journal) {α : Type} :
    (Except GenerationError α × Writers) × (ω × Journal) → Prop :=
  After
    (fun _ w' v' => w'.routes = w.routes ∧ w'.registry.names .query = w.registry.names .query ∧
      (v'.2 = v.2 ∨ ∃ artifact more, v'.2 = v.2 ++ [(artifact, more)]))
    (fun _ w' v' => w'.routes = w.routes ∧ w'.registry.names .query = w.registry.names .query ∧
      v'.2 = v.2)

/-- A text that is delivered is noted once, unless the sink refuses it. -/
theorem Writers.deliver_noted (sink : Sink (StateM ω)) (artifact : Artifact) (more : String)
    (phase : Phase) (w : Writers) (v : ω × Journal) :
    After
      (fun _ w' v' => (∃ b, w' = w.setBuffer artifact b) ∧
        (v'.2 = v.2 ∨ ∃ artifact more, v'.2 = v.2 ++ [(artifact, more)]))
      (fun _ w' v' => (∃ b, w' = w.setBuffer artifact b) ∧ v'.2 = v.2)
      (deliver sink.journaled artifact more phase w v) := by
  obtain ⟨v, journal⟩ := v
  simp only [deliver, Sink.offer]
  by_cases hmore : more = ""
  · rw [if_pos hmore]
    exact ⟨⟨_, rfl⟩, .inl rfl⟩
  · rw [if_neg hmore]
    simp only [Sink.journaled]
    rcases sink.append artifact more v with ⟨cause | _, v'⟩
    · exact ⟨⟨_, rfl⟩, rfl⟩
    · exact ⟨⟨_, rfl⟩, .inr ⟨artifact, more, rfl⟩⟩

/-- After a text has been noted the routes are distinct if they are listed without repetition. -/
theorem Journal.Always.noted (h : v.2.Always Texts.RoutesApart)
    (hnoted : v'.2 = v.2 ∨ ∃ artifact more, v'.2 = v.2 ++ [(artifact, more)])
    (hnow : v'.2.text.RoutesApart) : v'.2.Always Texts.RoutesApart := by
  rcases hnoted with hsame | ⟨artifact, more, hmore⟩
  · exact h.of_eq hsame
  · rw [hmore] at hnow ⊢
    exact h.append hnow

/-- The artifacts have come so far, and the routes are distinct. -/
def StandApart (sources : List DataSource) (standing : Artifact → Standing) (w : Writers)
    (v : ω × Journal) : Prop := Standings sources .identified standing w v ∧ RoutesKept w v

/-- A step that leaves the routes aside keeps them distinct. -/
theorem Steps.Triple.aside {α : Type} {standing' : Artifact → Standing}
    {x : Writing (StateM (ω × Journal)) α} {Q : GenerationError → Writers → ω × Journal → Prop}
    (hx : Triple (Standings sources .identified standing) x
      (fun _ => Standings sources .identified standing') Q)
    (haside : ∀ w v, Aside w v (x w v)) (hstanding : standing' .routes ≠ .left) :
    Triple (StandApart sources standing) x (fun _ => StandApart sources standing')
      (fun _ _ v => v.2.Always Texts.RoutesApart) := by
  rintro w v ⟨hstands, h⟩
  refine ((hx w v hstands).and (haside w v)).imp ?_ ?_
  · rintro _ w' v' ⟨hstands', hroutes, hnames, hnoted⟩
    have hnow := Standings.routesApart hstands' hstanding (hroutes ▸ h.nodup_routes)
    refine ⟨hstands', h.always.noted hnoted hnow, hnames ▸ h.queries, ?_⟩
    rw [hroutes, hnames]
    exact h.routes
  · rintro _ w' v' ⟨-, -, -, hsame⟩
    exact h.always.of_eq hsame

variable (sink : Sink (StateM ω))

theorem deliver_aside {artifact : Artifact} {more : String} {phase : Phase}
    (hroutes : w'.routes = w.routes)
    (hnames : w'.registry.names .query = w.registry.names .query) (v : ω × Journal) :
    Aside w v (Writers.deliver sink.journaled artifact more phase w' v) := by
  apply (Writers.deliver_noted sink artifact more phase w' v).imp
  · rintro _ w'' v' ⟨⟨b, rfl⟩, hnoted⟩
    exact ⟨hroutes, hnames, hnoted⟩
  · rintro _ w'' v' ⟨⟨b, rfl⟩, hsame⟩
    exact ⟨hroutes, hnames, hsame⟩

theorem writeHeader_aside (artifact : Artifact) (header : String) (w : Writers)
    (v : ω × Journal) : Aside w v (Writers.writeHeader sink.journaled artifact header w v) :=
  Writers.writeHeader_after (fun _ _ => ⟨rfl, rfl, rfl⟩) fun _ => deliver_aside sink rfl rfl v

theorem beginQueries_aside (w : Writers) (v : ω × Journal) :
    Aside w v (Writers.beginQueries sink.journaled w v) :=
  Writers.beginQueries_after (fun _ _ => ⟨rfl, rfl, rfl⟩) fun _ => deliver_aside sink rfl rfl v

/-- Pipe modules that are defined are not among the queries. -/
theorem definedBy_aside (pipes : List PipeModule) (w : Writers) :
    (Writers.definedBy pipes w).2.routes = w.routes ∧
      (Writers.definedBy pipes w).2.registry.names .query = w.registry.names .query := by
  induction pipes generalizing w with
  | nil => exact ⟨rfl, rfl⟩
  | cons pipe rest ih =>
    rw [Writers.definedBy]
    split
    · exact ⟨rfl, rfl⟩
    · split
      · exact ⟨rfl, rfl⟩
      · obtain ⟨hroutes, hnames⟩ := ih (w.withPipe pipe)
        refine ⟨hroutes, hnames.trans ?_⟩
        simp

/-- A chain leaves the routes as they are. -/
theorem emitPipes_aside (chain : List PipeModule) (w : Writers) (v : ω × Journal) :
    Aside w v (Writers.emitPipes sink.journaled chain w v) := by
  have hdefines (fresh : List PipeModule) := definedBy_aside fresh { w with chain := [] }
  refine Writers.emitPipes_after (fun _ _ => ⟨rfl, rfl, rfl⟩)
    (fun _ fresh _ _ => ⟨(hdefines fresh).1, (hdefines fresh).2, rfl⟩) fun fresh w' _ hdefined _ => ?_
  obtain ⟨hroutes, hnames⟩ := hdefines fresh
  rw [hdefined] at hroutes hnames
  let w'' : Writers := { w' with chain := chain.map (·.name) }
  have hroutes'' : w''.routes = w.routes := hroutes
  have hnames'' : w''.registry.names .query = w.registry.names .query := hnames
  exact deliver_aside sink hroutes'' hnames'' v

theorem closePipes_aside (w : Writers) (v : ω × Journal) :
    Aside w v (Writers.closePipes sink.journaled w v) :=
  Writers.closePipes_after (fun _ _ => ⟨rfl, rfl, rfl⟩) fun _ _ => deliver_aside sink rfl rfl v

theorem closeQueries_aside (w : Writers) (v : ω × Journal) :
    Aside w v (Writers.closeQueries sink.journaled w v) :=
  Writers.closeQueries_after (fun _ _ => ⟨rfl, rfl, rfl⟩) fun _ _ => deliver_aside sink rfl rfl v

/-! ## Queries and routes -/

/-- The name of a query has been registered, and no route is listed for it yet. -/
structure QueryKept (name : String) (w : Writers) (v : ω × Journal) : Prop where
  always : v.2.Always Texts.RoutesApart
  queries : (w.registry.names .query).Nodup
  routes : ∃ names, w.registry.names .query = names ++ [name] ∧
    List.Sublist (w.routes.map Route.queryName) names

/-- A query that is written has a new name, which is registered. -/
theorem emitQuery_noted (query : Query) (w : Writers) (v : ω × Journal) :
    After
      (fun _ w' v' => query.name ∉ w.registry.names .query ∧
        w'.registry.names .query = w.registry.names .query ++ [query.name] ∧
        w'.routes = w.routes ∧ (v'.2 = v.2 ∨ ∃ artifact more, v'.2 = v.2 ++ [(artifact, more)]))
      (fun _ _ v' => v'.2 = v.2) (Writers.emitQuery sink.journaled query w v) := by
  refine Writers.emitQuery_after (fun _ _ => rfl) fun _ _ hnew => ?_
  refine (Writers.deliver_noted sink .query _ .opened _ v).imp ?_ fun _ _ _ => And.right
  rintro _ _ v' ⟨⟨b, rfl⟩, hnoted⟩
  refine ⟨mt Registry.contains_iff.mpr hnew, ?_, rfl, hnoted⟩
  simp

/-- A route that is written is listed, and no name is registered for it. -/
theorem emitRoute_noted (binding : RouteBinding) (w : Writers) (v : ω × Journal) :
    After
      (fun _ w' v' => w'.registry = w.registry ∧ w'.routes = w.routes ++ [binding.route] ∧
        (v'.2 = v.2 ∨ ∃ artifact more, v'.2 = v.2 ++ [(artifact, more)]))
      (fun _ _ v' => v'.2 = v.2) (Writers.emitRoute sink.journaled binding w v) := by
  refine Writers.emitRoute_after (fun _ _ => rfl) fun _ _ _ => ?_
  refine (Writers.deliver_noted sink .routes _ .opened _ v).imp ?_ fun _ _ _ => And.right
  rintro _ _ v' ⟨⟨b, rfl⟩, hnoted⟩
  exact ⟨rfl, rfl, hnoted⟩

/-- A query is registered under a name that no route has used yet. -/
theorem emitQuery_kept_apart (query : Query) :
    Triple (StandApart sources fun _ => .begun) (Writers.emitQuery sink.journaled query)
      (fun _ w v => Standings sources .identified (fun _ => .begun) w v ∧ QueryKept query.name w v)
      (fun _ _ v => v.2.Always Texts.RoutesApart) := by
  rintro w v ⟨hstands, h⟩
  refine ((emitQuery_standings sink rfl trivial w v hstands).and
    (emitQuery_noted sink query w v)).imp ?_ ?_
  · rintro _ w' v' ⟨hstands', hnew, hnames, hroutes, hnoted⟩
    have hnow := hstands'.routesApart (by decide) (hroutes ▸ h.nodup_routes)
    refine ⟨hstands', h.always.noted hnoted hnow, ?_, _, hnames, hroutes ▸ h.routes⟩
    rw [hnames]
    simpa using h.queries.concat hnew
  · rintro _ w' v' ⟨-, hsame⟩
    exact h.always.of_eq hsame

/-- A route is distinct from the routes before it, as the name of its query is new. -/
theorem emitRoute_kept_apart (binding : RouteBinding) :
    Triple (fun w v => Standings sources .identified (fun _ => .begun) w v ∧
        QueryKept binding.route.queryName w v)
      (Writers.emitRoute sink.journaled binding) (fun _ => StandApart sources fun _ => .begun)
      (fun _ _ v => v.2.Always Texts.RoutesApart) := by
  rintro w v ⟨hstands, h⟩
  have hidentified (h : ∀ name ∈ binding.pipes ++ [binding.query], Text.isIdentifier name) :
      Supply.identified .routes binding := by
    rw [List.forall_mem_append, List.forall_mem_singleton] at h
    exact h.symm
  refine ((emitRoute_standings sink rfl hidentified w v hstands).and
    (emitRoute_noted sink binding w v)).imp ?_ ?_
  · rintro _ w' v' ⟨hstands', hregistry, hlisted, hnoted⟩
    obtain ⟨names, hnames, hroutes⟩ := h.routes
    have hsub : List.Sublist (w'.routes.map Route.queryName) (w.registry.names .query) := by
      rw [hlisted, hnames, List.map_append]
      exact hroutes.append (List.Sublist.refl _)
    have hnodup : w'.routes.Nodup := List.Nodup.of_map _ (h.queries.sublist hsub)
    have hnow := hstands'.routesApart (by decide) hnodup
    exact ⟨hstands', h.always.noted hnoted hnow, hregistry ▸ h.queries, hregistry ▸ hsub⟩
  · rintro _ w' v' ⟨-, hsame⟩
    exact h.always.of_eq hsame

/-- The entities of a declaration are written, or what stands is left as it was. -/
theorem emitAll_kept_apart {declaration : Declaration}
    (hname : declaration.query.name = declaration.route.queryName) (chain : List PipeModule) :
    Triple (StandApart sources fun _ => .begun) (Writers.emitAll sink.journaled declaration chain)
      (fun _ => StandApart sources fun _ => .begun)
      (fun _ _ v => v.2.Always Texts.RoutesApart) := by
  apply ((emitPipes_standings sink rfl fun _ _ => trivial).aside (emitPipes_aside sink chain)
    (by decide)).bind
  intro _
  apply (emitQuery_kept_apart sink declaration.query).bind
  intro _
  rw [hname]
  exact emitRoute_kept_apart sink (Writers.bindingOf declaration chain)

/-! ## Headers and export sections -/

theorem beginAll_kept_apart :
    Triple (StandApart sources fun _ => .untouched) (Writers.beginAll sink.journaled)
      (fun _ => StandApart sources fun _ => .begun)
      (fun _ _ v => v.2.Always Texts.RoutesApart) := by
  have hall : Function.update (Function.update (Function.update (fun _ => Standing.untouched)
      Artifact.pipeModules .begun) .query .begun) .routes .begun = fun _ => .begun := by
    funext artifact
    cases artifact <;> rfl
  apply ((writeHeader_standings sink .pipeModules rfl).aside
    (writeHeader_aside sink .pipeModules _) (by decide)).bind
  intro _
  apply ((beginQueries_standings sink rfl).aside (beginQueries_aside sink) (by decide)).bind
  intro _
  rw [← hall]
  exact (writeHeader_standings sink .routes rfl).aside (writeHeader_aside sink .routes _) (by decide)

/-- The routes that are exported are those that are listed. -/
theorem closeRoutes_kept_apart (hbegun : standing .routes = .begun) :
    Triple (StandApart sources standing) (Writers.closeRoutes sink.journaled)
      (fun _ _ v => v.2.Always Texts.RoutesApart)
      (fun _ _ v => v.2.Always Texts.RoutesApart) := by
  rintro w v ⟨hstands, h⟩
  refine Writers.closeRoutes_after (fun _ _ => h.always) fun _ => ?_
  have hof := hstands.each .routes
  rw [hbegun] at hof
  obtain ⟨written, waiting, hwritten, hwaiting, hlists, hnames⟩ := hof
  have hlisted : w.routes = (written ++ waiting).map (·.route) := hlists
  apply (Writers.deliver_journaled sink .routes _ .sealed w v).imp
  · rintro _ w' v' ⟨-, htext, halways⟩
    have hbody : String.join ((written ++ waiting).map handler) =
        Artifact.body .routes written ++ Artifact.body .routes waiting :=
      Artifact.body_append .routes written waiting
    have hclosed : v'.2.text .routes = Writers.Routes.header ++
        String.join ((written ++ waiting).map handler) ++ routeExports w.routes := by
      rw [htext, Texts.extend, if_pos rfl, hwritten, hwaiting, hbody]
      simp only [String.append_assoc]
      rfl
    refine halways _ h.always ⟨w.routes, h.nodup_routes, ?_, .inr ?_⟩
    · rw [hclosed, registeredRoutes?_routes hnames, hlisted]
    · rw [hclosed, routeLists_routes hnames]
  · rintro _ w' v' ⟨-, hsame⟩
    exact h.always.of_eq hsame

theorem closeAll_kept_apart :
    Triple (StandApart sources fun _ => .begun) (Writers.closeAll sink.journaled)
      (fun _ _ v => v.2.Always Texts.RoutesApart)
      (fun _ _ v => v.2.Always Texts.RoutesApart) := by
  apply ((closePipes_standings sink rfl).aside (closePipes_aside sink) (by decide)).bind
  intro _
  apply ((closeQueries_standings sink rfl).aside (closeQueries_aside sink) (by decide)).bind
  intro _
  exact closeRoutes_kept_apart sink rfl

/-! ## Runs -/

namespace Emission

variable {sink} {transport : Transport (StateM ω)}

/-- Operations are being emitted, and the routes are distinct. -/
structure RoutesEmitted (sources : List DataSource) (e : Emission) (v : ω × Journal) : Prop where
  stage : e.stage = .emitting
  apart : StandApart sources (fun _ => .begun) e.writers v

theorem begin_apart (sources : List DataSource) :
    Triple (fun e v => e = idle sources ∧ v.2 = []) (begin sink.journaled)
      (fun _ => RoutesEmitted sources) (fun _ _ v => v.2.Always Texts.RoutesApart) := by
  rintro _ ⟨v, _⟩ ⟨rfl, rfl⟩
  have hstands := standings_fresh sources .identified v
  have hkept : RoutesKept (.fresh sources) (v, []) :=
    ⟨Journal.always_routesApart_nil, List.nodup_nil, List.Sublist.refl _⟩
  refine begin_after (fun hidle => absurd rfl hidle) fun _ => ?_
  exact (beginAll_kept_apart sink _ _ ⟨hstands, hkept⟩).imp (fun _ _ _ hw => ⟨rfl, hw⟩)
    fun _ _ _ => id

theorem emit_apart (op : Operation) :
    Triple (RoutesEmitted sources) (emit sink.journaled transport.journaled op)
      (fun _ => RoutesEmitted sources) (fun _ _ v => v.2.Always Texts.RoutesApart) := by
  rintro e v ⟨hstage, hstands, hkept⟩
  have hjournal := gathered_journal transport op v
  refine emit_after (fun _ => hkept.always) (fun _ v' _ hgathered => ?_)
    fun declaration chain v' _ hgathered => ?_
  · rw [hgathered] at hjournal
    exact hkept.always.of_eq hjournal
  · rw [hgathered] at hjournal
    have hname := (Operation.declares_of_ok (gathered_ok hgathered).1).queryName
    have hapart : StandApart sources (fun _ => .begun) e.writers v' :=
      ⟨standings_of_journal hstands hjournal, hjournal ▸ hkept.always, hkept.queries, hkept.routes⟩
    exact (emitAll_kept_apart sink hname chain e.writers v' hapart).imp
      (fun _ _ _ hw => ⟨hstage, hw⟩) fun _ _ _ => id

/-- Routes stay distinct while operations are emitted. -/
theorem emitAll_apart (ops : List Operation) :
    Triple (RoutesEmitted sources) (emitAll sink.journaled transport.journaled ops)
      (fun _ => RoutesEmitted sources) (fun _ _ v => v.2.Always Texts.RoutesApart) := by
  induction ops with
  | nil => exact fun _ _ => id
  | cons op rest ih => exact (emit_apart op).bind fun _ => ih

theorem finish_apart :
    Triple (RoutesEmitted sources) (finish sink.journaled)
      (fun _ _ v => v.2.Always Texts.RoutesApart)
      (fun _ _ v => v.2.Always Texts.RoutesApart) := by
  rintro e v ⟨-, hapart⟩
  exact finish_after (fun _ => hapart.2.always) fun _ => closeAll_kept_apart sink e.writers v hapart

/-- At every moment of a run, whether it succeeds or fails, the routes that have been written are
distinct. -/
theorem run_apart (sink : Sink (StateM ω)) (transport : Transport (StateM ω))
    (spec : Specification) (sources : List DataSource) (v : ω) :
    (run sink.journaled transport.journaled spec (idle sources) (v, [])).2.2.Always
      Texts.RoutesApart := by
  have hrun : Triple (fun e v => e = idle sources ∧ v.2 = [])
      (run sink.journaled transport.journaled spec)
      (fun _ _ v => v.2.Always Texts.RoutesApart)
      (fun _ _ v => v.2.Always Texts.RoutesApart) := by
    apply (begin_apart sources).bind
    intro _
    exact (emitAll_apart spec.operations).bind fun _ => finish_apart
  exact after_state.mp (hrun (idle sources) (v, []) ⟨rfl, rfl⟩)

end Emission

end LinkedApi
