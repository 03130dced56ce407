import LinkedApi.Proofs.Emission.Journal
import LinkedApi.Proofs.Registry

/-!
# The composition of the artifacts

An artifact is composed of whole pieces: a header, a piece for each entity, and the export section
of these entities. The entities are among those that the emitted operations supply, so that no piece
can hide another one in it. What has been appended and what is pending are both made of whole
pieces, so that the artifact stays composed whether an append succeeds or fails. Nothing is known
any more of what is pending for an artifact that has been closed or given up, since it is never
appended.
-/

namespace LinkedApi

open Generated Steps

variable {ω : Type}

abbrev Entity : Artifact → Type
  | .pipeModules => PipeModule
  | .query => Query
  | .routes => RouteBinding

namespace Artifact

def header (sources : List DataSource) : Artifact → String
  | .pipeModules => Writers.PipeModules.header
  | .query => queryHeader sources
  | .routes => Writers.Routes.header

def piece : (artifact : Artifact) → Entity artifact → String
  | .pipeModules, pipe => pipeDefinition pipe
  | .query, q => queryDefinition q
  | .routes, binding => handler binding

def exportsOf : (artifact : Artifact) → List (Entity artifact) → String
  | .pipeModules, pipes => pipeExports (pipes.map (·.name))
  | .query, queries => queryExports (queries.map (·.name))
  | .routes, bindings => routeExports (bindings.map (·.route))

def body (artifact : Artifact) (entities : List (Entity artifact)) : String :=
  String.join (entities.map artifact.piece)

@[simp]
theorem body_nil (artifact : Artifact) : artifact.body [] = "" := rfl

@[simp]
theorem body_append (artifact : Artifact) (xs ys : List (Entity artifact)) :
    artifact.body (xs ++ ys) = artifact.body xs ++ artifact.body ys := by
  rw [body, List.map_append, String.join_append]
  rfl

@[simp]
theorem body_singleton (artifact : Artifact) (entity : Entity artifact) :
    artifact.body [entity] = artifact.piece entity := by
  simp [body]

/-- What is written to an artifact for a declaration whose chain is loaded. -/
def entitiesOf (declaration : Declaration) (chain : List PipeModule) :
    (artifact : Artifact) → List (Entity artifact)
  | .pipeModules => chain
  | .query => [declaration.query]
  | .routes => [Writers.bindingOf declaration chain]

end Artifact

/-- The entities that may be written to each artifact. -/
abbrev Supply := (artifact : Artifact) → Entity artifact → Prop

/-- What some operations supply: the entities of what they declare, with the chains as they are
loaded. -/
def Emission.supplied (transport : Transport (StateM ω)) (ops : List Operation) : Supply :=
  fun artifact entity => ∃ declaration chain, Gathers transport ops declaration chain ∧
    entity ∈ artifact.entitiesOf declaration chain

/-- A text is made of whole pieces of an artifact in their order, each for an entity that is
supplied. -/
inductive Composed (sources : List DataSource) (supply : Supply) (artifact : Artifact) :
    String → Prop where
  | nothing : Composed sources supply artifact ""
  | opened (entities : List (Entity artifact)) (h : ∀ entity ∈ entities, supply artifact entity) :
      Composed sources supply artifact (artifact.header sources ++ artifact.body entities)
  | closed (entities : List (Entity artifact)) (h : ∀ entity ∈ entities, supply artifact entity) :
      Composed sources supply artifact
        (artifact.header sources ++ artifact.body entities ++ artifact.exportsOf entities)

def Texts.Composed (sources : List DataSource) (supply : Supply) (texts : Texts) : Prop :=
  ∀ artifact, LinkedApi.Composed sources supply artifact (texts artifact)

/-- The writers would name these entities in the export section of an artifact. -/
def Writers.Lists (w : Writers) : (artifact : Artifact) → List (Entity artifact) → Prop
  | .pipeModules, pipes => w.registry.names .pipeModule = pipes.map (·.name)
  | .query, queries => w.registry.names .query = queries.map (·.name)
  | .routes, bindings => w.routes = bindings.map (·.route)

/-- How far an artifact has come. -/
inductive Standing where
  | untouched
  /-- The header has been appended, and entities may follow. -/
  | begun
  /-- Nothing will be appended any more. -/
  | left
  deriving DecidableEq

/-- What is known of the text and of the buffer of an artifact that has come so far. -/
def Standing.Of (sources : List DataSource) (supply : Supply) (texts : Texts) (w : Writers)
    (artifact : Artifact) : Standing → Prop
  | .untouched => texts artifact = "" ∧ w.pending artifact = "" ∧ w.Lists artifact []
  | .begun => ∃ written waiting : List (Entity artifact),
      texts artifact = artifact.header sources ++ artifact.body written ∧
      w.pending artifact = artifact.body waiting ∧ w.Lists artifact (written ++ waiting) ∧
      ∀ entity ∈ written ++ waiting, supply artifact entity
  | .left => True

/-- The artifacts have been composed at every moment, and have come so far. -/
structure Standings (sources : List DataSource) (supply : Supply) (standing : Artifact → Standing)
    (w : Writers) (v : ω × Journal) : Prop where
  always : v.2.Always (Texts.Composed sources supply)
  declared : w.dataSources = sources
  each : ∀ artifact, (standing artifact).Of sources supply v.2.text w artifact

variable {sources : List DataSource} {supply : Supply} {standing : Artifact → Standing}
  {w w' : Writers} {v : ω × Journal} {artifact : Artifact}

theorem standings_fresh (sources : List DataSource) (supply : Supply) (v : ω) :
    Standings sources supply (fun _ => .untouched) (.fresh sources) (v, []) where
  always n := by
    intro artifact
    rw [List.take_nil]
    exact .nothing
  declared := rfl
  each artifact := by
    refine ⟨rfl, rfl, ?_⟩
    cases artifact <;> rfl

/-- What is known of an artifact depends on its text, on what is pending and on what is listed. -/
theorem Standing.Of.congr {s : Standing} {texts texts' : Texts}
    (h : s.Of sources supply texts w artifact) (htext : texts' artifact = texts artifact)
    (hpending : w'.pending artifact = w.pending artifact)
    (hlists : ∀ entities, w.Lists artifact entities → w'.Lists artifact entities) :
    s.Of sources supply texts' w' artifact := by
  cases s with
  | untouched => exact ⟨htext.trans h.1, hpending.trans h.2.1, hlists _ h.2.2⟩
  | begun =>
    obtain ⟨written, waiting, hwritten, hwaiting, hlisted, hsupplied⟩ := h
    exact ⟨written, waiting, htext.trans hwritten, hpending.trans hwaiting, hlists _ hlisted,
      hsupplied⟩
  | left => trivial

/-- An entity waits to be appended. -/
theorem Standings.wait (h : Standings sources supply standing w v)
    (hbegun : standing artifact = .begun) {entity : Entity artifact}
    (hentity : supply artifact entity) (hsources : w'.dataSources = w.dataSources)
    (hpending : w'.pending artifact = w.pending artifact ++ artifact.piece entity)
    (hlists : ∀ entities, w.Lists artifact entities → w'.Lists artifact (entities ++ [entity]))
    (hothers : ∀ other, other ≠ artifact → w'.pending other = w.pending other ∧
      ∀ entities, w.Lists other entities → w'.Lists other entities) :
    Standings sources supply standing w' v := by
  refine ⟨h.always, hsources.trans h.declared, fun other => ?_⟩
  by_cases hother : other = artifact
  · subst hother
    have hbefore := h.each other
    rw [hbegun] at hbefore ⊢
    obtain ⟨written, waiting, hwritten, hwaiting, hlisted, hsupplied⟩ := hbefore
    refine ⟨written, waiting ++ [entity], hwritten, ?_, ?_⟩
    · rw [hpending, hwaiting, Artifact.body_append, Artifact.body_singleton]
    · rw [← List.append_assoc, List.forall_mem_append, List.forall_mem_singleton]
      exact ⟨hlists _ hlisted, hsupplied, hentity⟩
  · exact (h.each other).congr rfl (hothers other hother).1 (hothers other hother).2

@[simp]
theorem Writers.deliver_setBuffer (sink : Sink (StateM ω)) (artifact : Artifact) (more : String)
    (phase : Phase) (w : Writers) (b : Buffer) (v : ω) :
    deliver sink artifact more phase (w.setBuffer artifact b) v =
      deliver sink artifact more phase w v := by
  simp only [deliver, setBuffer_setBuffer]

variable (sink : Sink (StateM ω))

/-- A text that is delivered leads to where it leaves its artifact. -/
theorem Standings.deliver (h : Standings sources supply standing w v) {more : String} {phase : Phase}
    (next : Standing) (hcomposed : Composed sources supply artifact (v.2.text artifact ++ more))
    (hnext : next.Of sources supply (v.2.text.extend artifact more) (w.setBuffer artifact ⟨phase, ""⟩)
      artifact) :
    After (fun _ => Standings sources supply (Function.update standing artifact next))
      (fun _ w' v' => w' = w.setBuffer artifact ⟨.opened, more⟩ ∧ v'.2 = v.2)
      (Writers.deliver sink.journaled artifact more phase w v) := by
  apply (Writers.deliver_journaled sink artifact more phase w v).imp _ fun _ _ _ => id
  rintro _ w' v' ⟨rfl, htext, halways⟩
  refine ⟨halways _ h.always fun other => ?_, h.declared, fun other => ?_⟩
  · rw [htext, Texts.extend]
    split
    · next hother => rw [hother]; exact hcomposed
    · exact h.always.now other
  · rw [htext]
    by_cases hother : other = artifact
    · subst hother
      rw [Function.update_self]
      exact hnext
    · rw [Function.update_of_ne hother]
      refine (h.each other).congr ?_ ?_ fun entities => ?_
      · rw [Texts.extend, if_neg hother]
      · simp [hother]
      · cases other <;> exact id

/-- The header of an artifact that is untouched begins it. -/
theorem Standings.deliver_header (h : Standings sources supply standing w v)
    (huntouched : standing artifact = .untouched) :
    After (fun _ => Standings sources supply (Function.update standing artifact .begun))
      (fun _ _ v' => v'.2.Always (Texts.Composed sources supply))
      (Writers.deliver sink.journaled artifact (w.pending artifact ++ artifact.header sources)
        .opened w v) := by
  have hbefore := h.each artifact
  rw [huntouched] at hbefore
  obtain ⟨htext, hpending, hlists⟩ := hbefore
  have hheader : v.2.text artifact ++ (w.pending artifact ++ artifact.header sources) =
      artifact.header sources ++ artifact.body [] := by
    rw [htext, hpending, String.empty_append, String.empty_append]
    exact (String.append_empty).symm
  refine (h.deliver sink .begun (hheader ▸ .opened [] (by simp)) ⟨[], [], ?_, ?_, ?_, by simp⟩).imp
    (fun _ _ _ => id) ?_
  · rw [Texts.extend, if_pos rfl, hheader]
  · simp
  · cases artifact <;> exact hlists
  · rintro _ w' v' ⟨-, hv⟩
    rw [hv]
    exact h.always

/-- What waits is appended, or goes on waiting. -/
theorem Standings.deliver_waiting {more : String}
    (h : Standings sources supply standing (w.setBuffer artifact ⟨.opened, more⟩) v)
    (hbegun : standing artifact = .begun) :
    After (fun _ => Standings sources supply standing) (fun _ => Standings sources supply standing)
      (Writers.deliver sink.journaled artifact more .opened w v) := by
  have hbefore := h.each artifact
  rw [hbegun] at hbefore
  obtain ⟨written, waiting, hwritten, hwaiting, hlists, hsupplied⟩ := hbefore
  have hmore : more = artifact.body waiting := by
    simpa using hwaiting
  have htext : v.2.text artifact ++ more =
      artifact.header sources ++ artifact.body (written ++ waiting) := by
    rw [hwritten, hmore, Artifact.body_append, String.append_assoc]
  have hsame : Function.update standing artifact .begun = standing := by
    rw [← hbegun, Function.update_eq_self]
  -- the step does not read the buffer, so it may be run from where the text is pending already
  rw [← Writers.deliver_setBuffer sink.journaled artifact more .opened w ⟨.opened, more⟩ v]
  refine (h.deliver sink .begun (htext ▸ .opened _ hsupplied)
    ⟨written ++ waiting, [], ?_, ?_, ?_⟩).imp ?_ ?_
  · rw [Texts.extend, if_pos rfl, htext]
  · simp
  · rw [List.append_nil]
    refine ⟨?_, hsupplied⟩
    cases artifact <;> exact hlists
  · rw [hsame]
    exact fun _ _ _ => id
  · rintro _ w' v' ⟨rfl, hv⟩
    rw [Writers.setBuffer_setBuffer]
    exact ⟨hv ▸ h.always, h.declared, fun other => hv ▸ h.each other⟩

/-- The export section of an artifact closes it. -/
theorem Standings.deliver_exports (h : Standings sources supply standing w v) (artifact : Artifact)
    (hbegun : standing artifact = .begun) {exports : String}
    (hexports : ∀ entities, w.Lists artifact entities → exports = artifact.exportsOf entities) :
    After (fun _ => Standings sources supply (Function.update standing artifact .left))
      (fun _ _ v' => v'.2.Always (Texts.Composed sources supply))
      (Writers.deliver sink.journaled artifact (w.pending artifact ++ exports) .sealed w v) := by
  have hbefore := h.each artifact
  rw [hbegun] at hbefore
  obtain ⟨written, waiting, hwritten, hwaiting, hlists, hsupplied⟩ := hbefore
  have htext : v.2.text artifact ++ (w.pending artifact ++ exports) =
      artifact.header sources ++ artifact.body (written ++ waiting) ++
        artifact.exportsOf (written ++ waiting) := by
    rw [hwritten, hwaiting, hexports _ hlists, Artifact.body_append]
    simp only [String.append_assoc]
  refine (h.deliver sink .left (htext ▸ .closed _ hsupplied) trivial).imp (fun _ _ _ => id) ?_
  rintro _ w' v' ⟨-, hv⟩
  rw [hv]
  exact h.always

/-! ## Headers and export sections -/

/-- The header begins an artifact; where it is refused, everything that was appended is still
composed. -/
theorem writeHeader_standings (artifact : Artifact) (huntouched : standing artifact = .untouched) :
    Triple (Standings sources supply standing)
      (Writers.writeHeader sink.journaled artifact (artifact.header sources))
      (fun _ => Standings sources supply (Function.update standing artifact .begun))
      (fun _ _ v => v.2.Always (Texts.Composed sources supply)) := by
  intro w v h
  exact Writers.writeHeader_after (fun _ _ => h.always) fun _ => h.deliver_header sink huntouched

theorem beginQueries_standings (huntouched : standing .query = .untouched) :
    Triple (Standings sources supply standing)
      (Writers.beginQueries sink.journaled)
      (fun _ => Standings sources supply (Function.update standing .query .begun))
      (fun _ _ v => v.2.Always (Texts.Composed sources supply)) := by
  intro w v h
  refine Writers.beginQueries_after (fun _ _ => h.always) fun _ => ?_
  rw [h.declared]
  exact h.deliver_header sink huntouched

/-- Artifacts that are untouched are begun, one after the other. -/
theorem beginAll_standings :
    Triple (Standings sources supply fun _ => .untouched) (Writers.beginAll sink.journaled)
      (fun _ => Standings sources supply fun _ => .begun)
      (fun _ _ v => v.2.Always (Texts.Composed sources supply)) := by
  have hall : Function.update (Function.update (Function.update (fun _ => Standing.untouched)
      Artifact.pipeModules .begun) .query .begun) .routes .begun = fun _ => .begun := by
    funext artifact
    cases artifact <;> rfl
  apply (writeHeader_standings sink .pipeModules rfl).bind
  intro _
  apply (beginQueries_standings sink rfl).bind
  intro _
  rw [← hall]
  exact writeHeader_standings sink .routes rfl

theorem closePipes_standings (hbegun : standing .pipeModules = .begun) :
    Triple (Standings sources supply standing) (Writers.closePipes sink.journaled)
      (fun _ => Standings sources supply (Function.update standing .pipeModules .left))
      (fun _ _ v => v.2.Always (Texts.Composed sources supply)) := by
  intro w v h
  refine Writers.closePipes_after (fun _ _ => h.always) fun _ _ => ?_
  exact h.deliver_exports sink .pipeModules hbegun fun _ hlists => congrArg pipeExports hlists

theorem closeQueries_standings (hbegun : standing .query = .begun) :
    Triple (Standings sources supply standing) (Writers.closeQueries sink.journaled)
      (fun _ => Standings sources supply (Function.update standing .query .left))
      (fun _ _ v => v.2.Always (Texts.Composed sources supply)) := by
  intro w v h
  refine Writers.closeQueries_after (fun _ _ => h.always) fun _ _ => ?_
  exact h.deliver_exports sink .query hbegun fun _ hlists => congrArg queryExports hlists

theorem closeRoutes_standings (hbegun : standing .routes = .begun) :
    Triple (Standings sources supply standing) (Writers.closeRoutes sink.journaled)
      (fun _ => Standings sources supply (Function.update standing .routes .left))
      (fun _ _ v => v.2.Always (Texts.Composed sources supply)) := by
  intro w v h
  refine Writers.closeRoutes_after (fun _ _ => h.always) fun _ => ?_
  exact h.deliver_exports sink .routes hbegun fun _ hlists => congrArg routeExports hlists

/-- Every artifact that has begun is closed, or given up. -/
theorem closeAll_standings :
    Triple (Standings sources supply fun _ => .begun) (Writers.closeAll sink.journaled)
      (fun _ _ v => v.2.Always (Texts.Composed sources supply))
      (fun _ _ v => v.2.Always (Texts.Composed sources supply)) := by
  apply (closePipes_standings sink rfl).bind
  intro _
  apply (closeQueries_standings sink rfl).bind
  intro _
  exact (closeRoutes_standings sink rfl).weaken (fun _ _ => id) (fun _ _ _ h => h.always)
    fun _ _ _ => id

/-! ## Entities -/

/-- What else the writers keep does not matter. -/
theorem Standings.congr (h : Standings sources supply standing w v)
    (hsources : w'.dataSources = w.dataSources)
    (hpending : ∀ artifact, w'.pending artifact = w.pending artifact)
    (hlists : ∀ artifact entities, w.Lists artifact entities → w'.Lists artifact entities) :
    Standings sources supply standing w' v :=
  ⟨h.always, hsources.trans h.declared,
    fun artifact => (h.each artifact).congr rfl (hpending artifact) (hlists artifact)⟩

theorem Standings.withPipe (h : Standings sources supply standing w v)
    (hbegun : standing .pipeModules = .begun) {pipe : PipeModule}
    (hpipe : supply .pipeModules pipe) : Standings sources supply standing (w.withPipe pipe) v := by
  refine h.wait hbegun hpipe rfl rfl ?_ ?_
  · intro pipes hlists
    rw [Writers.Lists] at hlists ⊢
    simp [hlists]
  · intro other hother
    refine ⟨by simp [hother], fun entities hlists => ?_⟩
    cases other with
    | pipeModules => exact absurd rfl hother
    | query => simpa [Writers.Lists] using hlists
    | routes => exact hlists

theorem Standings.definedBy (h : Standings sources supply standing w v)
    (hbegun : standing .pipeModules = .begun) {pipes : List PipeModule}
    (hpipes : ∀ pipe ∈ pipes, supply .pipeModules pipe) :
    Standings sources supply standing (Writers.definedBy pipes w).2 v := by
  induction pipes generalizing w with
  | nil => exact h
  | cons pipe rest ih =>
    rw [List.forall_mem_cons] at hpipes
    rw [Writers.definedBy]
    split
    · exact h
    · split
      · exact h
      · exact ih (h.withPipe hbegun hpipes.1) hpipes.2

/-- A chain goes on with the pipe modules, also where it is refused half-way. -/
theorem emitPipes_standings (hbegun : standing .pipeModules = .begun) {chain : List PipeModule}
    (hchain : ∀ pipe ∈ chain, supply .pipeModules pipe) :
    Triple (Standings sources supply standing) (Writers.emitPipes sink.journaled chain)
      (fun _ => Standings sources supply standing) (fun _ => Standings sources supply standing) := by
  intro w v h
  -- the last chain is forgotten before anything else can fail
  have hnone : Standings sources supply standing { w with chain := [] } v :=
    h.congr rfl (fun _ => rfl) fun artifact _ hlists => by cases artifact <;> exact hlists
  have hdefines {fresh : List PipeModule} (hfresh : fresh ⊆ chain) :
      Standings sources supply standing (Writers.definedBy fresh { w with chain := [] }).2 v :=
    hnone.definedBy hbegun fun pipe hpipe => hchain pipe (hfresh hpipe)
  refine Writers.emitPipes_after (fun _ _ => h) (fun _ _ _ => hdefines)
    fun fresh w' hfresh hdefined hopen => ?_
  have hstands := hdefines (Writers.undefinedOf_subset hfresh)
  rw [hdefined] at hstands
  let w'' : Writers := { w' with chain := chain.map (·.name) }
  have hnoted : Standings sources supply standing w'' v :=
    hstands.congr rfl (fun _ => rfl) fun artifact _ hlists => by cases artifact <;> exact hlists
  have hopen'' : w''.phase .pipeModules = .opened := hopen
  rw [← Writers.setBuffer_pending hopen''] at hnoted
  exact hnoted.deliver_waiting sink hbegun

/-- A query goes on with the queries. -/
theorem emitQuery_standings (hbegun : standing .query = .begun) {query : Query}
    (hquery : supply .query query) :
    Triple (Standings sources supply standing) (Writers.emitQuery sink.journaled query)
      (fun _ => Standings sources supply standing) (fun _ => Standings sources supply standing) := by
  intro w v h
  have hwaiting : Standings sources supply standing ((w.withQuery query.name).setBuffer .query
      ⟨.opened, w.pending .query ++ queryDefinition query⟩) v := by
    refine h.wait hbegun hquery rfl rfl ?_ ?_
    · intro queries hlists
      rw [Writers.Lists] at hlists ⊢
      simp [hlists]
    · intro other hother
      refine ⟨by simp [hother], fun entities hlists => ?_⟩
      cases other with
      | pipeModules => simpa [Writers.Lists] using hlists
      | query => exact absurd rfl hother
      | routes => exact hlists
  exact Writers.emitQuery_after (fun _ _ => h) fun _ _ _ => hwaiting.deliver_waiting sink hbegun

/-- Only a handler whose names are identifiers is written. -/
theorem emitRoute_standings (hbegun : standing .routes = .begun) {binding : RouteBinding}
    (hbinding : (∀ name ∈ binding.pipes ++ [binding.query], Text.isIdentifier name) →
      supply .routes binding) :
    Triple (Standings sources supply standing) (Writers.emitRoute sink.journaled binding)
      (fun _ => Standings sources supply standing) (fun _ => Standings sources supply standing) := by
  intro w v h
  refine Writers.emitRoute_after (fun _ _ => h) fun _ _ hnames => ?_
  have hwaiting : Standings sources supply standing ((w.withRoute binding.route).setBuffer .routes
      ⟨.opened, w.pending .routes ++ handler binding⟩) v := by
    refine h.wait hbegun (hbinding hnames) rfl rfl ?_ ?_
    · intro bindings hlists
      rw [Writers.Lists] at hlists ⊢
      simp [hlists]
    · intro other hother
      refine ⟨by simp [hother], fun entities hlists => ?_⟩
      cases other with
      | pipeModules => exact hlists
      | query => exact hlists
      | routes => exact absurd rfl hother
  exact hwaiting.deliver_waiting sink hbegun

/-- The entities of a declaration are appended, or go on waiting. -/
theorem emitAll_standings {declaration : Declaration} {chain : List PipeModule}
    (h : ∀ artifact, ∀ entity ∈ artifact.entitiesOf declaration chain, supply artifact entity) :
    Triple (Standings sources supply fun _ => .begun)
      (Writers.emitAll sink.journaled declaration chain)
      (fun _ => Standings sources supply fun _ => .begun)
      (fun _ => Standings sources supply fun _ => .begun) := by
  apply (emitPipes_standings sink rfl (h .pipeModules)).bind
  intro _
  apply (emitQuery_standings sink rfl (h .query _ List.mem_cons_self)).bind
  intro _
  exact emitRoute_standings sink rfl fun _ => h .routes _ List.mem_cons_self

end LinkedApi
