import LinkedApi.Proofs.Generation.Chains
import LinkedApi.Proofs.Generation.Writing

/-!
# What a step of the writers comes to

A step of the writers refuses, or it delivers a text. One that refuses leaves the writers as they
were, except that a chain is forgotten and that its modules before the refused one are defined.
What holds after a step thus follows from what holds after one delivery: the checks of each step are
gone through here, and a property of the writers is shown for what is delivered.
-/

namespace LinkedApi

/-- A failure that the writers find themselves, and not the sink. -/
abbrev GenerationError.OfWriters (e : GenerationError) : Prop := ∀ cause, e ≠ .file cause

namespace Writers

open Steps

variable {ω : Type} {sink : Sink (StateM ω)} {w : Writers} {v : ω}
  {Q : Unit → Writers → ω → Prop} {R : GenerationError → Writers → ω → Prop}

/-- The buffer of an artifact that is open is what is pending. -/
theorem setBuffer_pending {artifact : Artifact} (hopen : w.phase artifact = .opened) :
    w.setBuffer artifact ⟨.opened, w.pending artifact⟩ = w := by
  rw [← hopen]
  exact setBuffer_self w artifact

/-- A text that is taken leaves all but the buffer of its artifact as it was. -/
theorem deliver_of_ok (artifact : Artifact) (text : String) (phase : Phase) (w : Writers) (v : ω) :
    After (fun _ w' _ => w' = w.setBuffer artifact ⟨phase, ""⟩) (fun _ _ _ => True)
      (deliver sink artifact text phase w v) := by
  rw [deliver]
  rcases sink.offer artifact text v with ⟨_ | _, v'⟩
  · trivial
  · rfl

theorem definedBy_ofWriters {pipes : List PipeModule} {w' : Writers} {e : GenerationError}
    (h : definedBy pipes w = (.error e, w')) : e.OfWriters := by
  induction pipes generalizing w with
  | nil => cases h
  | cons pipe rest ih =>
    rw [definedBy] at h
    split_ifs at h
    · cases h
      exact fun _ h => by cases h
    · cases h
      exact fun _ h => by cases h
    · exact ih h

theorem find?_invalid_eq_none {names : List String} :
    (names.find? fun name => !Text.isIdentifier name) = none ↔
      ∀ name ∈ names, Text.isIdentifier name := by
  simp

theorem writeHeader_after {artifact : Artifact} {header : String}
    (hrefused : ∀ e : GenerationError, e.OfWriters → R e w v)
    (hdelivered : w.phase artifact = .fresh →
      After Q R (deliver sink artifact (w.pending artifact ++ header) .opened w v)) :
    After Q R (writeHeader sink artifact header w v) := by
  rw [writeHeader_apply]
  split
  · next hfresh => exact hdelivered hfresh
  · exact hrefused _ fun _ h => by cases h

theorem beginQueries_after (hrefused : ∀ e : GenerationError, e.OfWriters → R e w v)
    (hdelivered : w.phase .query = .fresh →
      After Q R (deliver sink .query (w.pending .query ++ Generated.queryHeader w.dataSources)
        .opened w v)) :
    After Q R (beginQueries sink w v) := by
  rw [beginQueries_apply]
  split
  · next hfresh => exact hdelivered hfresh
  · exact hrefused _ fun _ h => by cases h

/-- A chain is refused at once, or after some of its modules are defined, or comes to the delivery
of what is new. -/
theorem emitPipes_after {chain : List PipeModule}
    (hclosed : ∀ e : GenerationError, e.OfWriters → R e w v)
    (hrefused : ∀ (e : GenerationError) fresh, e.OfWriters → fresh ⊆ chain →
      R e (definedBy fresh { w with chain := [] }).2 v)
    (hdelivered : ∀ fresh w', PipeModules.undefinedOf w.defined [] chain = .ok fresh →
      definedBy fresh { w with chain := [] } = (.ok (), w') → w'.phase .pipeModules = .opened →
      After Q R (deliver sink .pipeModules (w'.pending .pipeModules) .opened
        { w' with chain := chain.map (·.name) } v)) :
    After Q R (emitPipes sink chain w v) := by
  rw [emitPipes_apply]
  split
  · exact hclosed _ fun _ h => by cases h
  next hopen =>
  split
  · exact hrefused _ [] (fun _ h => by cases h) (List.nil_subset chain)
  next fresh hfresh =>
  split
  · next e w' hdefined =>
    have hleft := hrefused e fresh (definedBy_ofWriters hdefined) (undefinedOf_subset hfresh)
    rwa [hdefined] at hleft
  · next w' hdefined =>
    have hphase := phase_definedBy fresh { w with chain := [] } .pipeModules
    rw [hdefined] at hphase
    exact hdelivered fresh w' hfresh hdefined (hphase.trans (not_not.mp hopen))

theorem emitQuery_after {query : Query}
    (hrefused : ∀ e : GenerationError, e.OfWriters → R e w v)
    (hdelivered : w.phase .query = .opened → Text.isIdentifier query.name →
      ¬w.registry.contains .query query.name →
      After Q R (deliver sink .query (w.pending .query ++ Generated.queryDefinition query) .opened
        (w.withQuery query.name) v)) :
    After Q R (emitQuery sink query w v) := by
  rw [emitQuery_apply]
  split
  · exact hrefused _ fun _ h => by cases h
  next hopen =>
  split
  · exact hrefused _ fun _ h => by cases h
  next hname =>
  split
  · exact hrefused _ fun _ h => by cases h
  next hnew => exact hdelivered (not_not.mp hopen) (Bool.of_not_eq_false hname) hnew

theorem emitRoute_after {binding : RouteBinding}
    (hrefused : ∀ e : GenerationError, e.OfWriters → R e w v)
    (hdelivered : w.phase .routes = .opened → Routes.dangling? w.registry binding = none →
      (∀ name ∈ binding.pipes ++ [binding.query], Text.isIdentifier name) →
      After Q R (deliver sink .routes (w.pending .routes ++ Generated.handler binding) .opened
        (w.withRoute binding.route) v)) :
    After Q R (emitRoute sink binding w v) := by
  rw [emitRoute_apply]
  split
  · exact hrefused _ fun _ h => by cases h
  next hopen =>
  split
  · exact hrefused _ fun _ h => by cases h
  · exact hrefused _ fun _ h => by cases h
  · next hresolved hnames =>
    exact hdelivered (not_not.mp hopen) hresolved (find?_invalid_eq_none.mp hnames)

theorem closePipes_after (hrefused : ∀ e : GenerationError, e.OfWriters → R e w v)
    (hdelivered : w.phase .pipeModules = .opened →
      (∀ name ∈ w.registry.names .pipeModule, Text.isIdentifier name) →
      After Q R (deliver sink .pipeModules
        (w.pending .pipeModules ++ Generated.pipeExports (w.registry.names .pipeModule))
        .sealed w v)) :
    After Q R (closePipes sink w v) := by
  rw [closePipes_apply]
  split
  · exact hrefused _ fun _ h => by cases h
  next hopen =>
  split
  · exact hrefused _ fun _ h => by cases h
  next hnames => exact hdelivered (not_not.mp hopen) (find?_invalid_eq_none.mp hnames)

theorem closeQueries_after (hrefused : ∀ e : GenerationError, e.OfWriters → R e w v)
    (hdelivered : w.phase .query = .opened →
      (∀ name ∈ w.registry.names .query, Text.isIdentifier name) →
      After Q R (deliver sink .query
        (w.pending .query ++ Generated.queryExports (w.registry.names .query)) .sealed w v)) :
    After Q R (closeQueries sink w v) := by
  rw [closeQueries_apply]
  split
  · exact hrefused _ fun _ h => by cases h
  next hopen =>
  split
  · exact hrefused _ fun _ h => by cases h
  next hnames => exact hdelivered (not_not.mp hopen) (find?_invalid_eq_none.mp hnames)

theorem closeRoutes_after (hrefused : ∀ e : GenerationError, e.OfWriters → R e w v)
    (hdelivered : w.phase .routes = .opened →
      After Q R (deliver sink .routes (w.pending .routes ++ Generated.routeExports w.routes)
        .sealed w v)) :
    After Q R (closeRoutes sink w v) := by
  rw [closeRoutes_apply]
  split
  · exact hrefused _ fun _ h => by cases h
  next hopen => exact hdelivered (not_not.mp hopen)

end Writers

end LinkedApi
