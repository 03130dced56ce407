import LinkedApi.Proofs.Emission.Journal
import LinkedApi.Proofs.Generation.Lines
import LinkedApi.Proofs.Registry

/-!
# Referential integrity

A journal notes what has been appended to the artifacts. At every moment of every run of an
emission, also of one that goes on after failures, the handlers that have been appended refer to
definitions that have been appended before.

A name is registered before its definition is appended, so that the registry alone does not tell
what stands in an artifact. The invariant is about the text that has been appended together with
the text that is pending: it holds the definitions of all registered names, and its handlers refer
to definitions that have been appended already.
-/

namespace LinkedApi

open Generated Steps Text

variable {ω : Type}

/-! ## Texts with integrity -/

def Holds (text piece : String) : Prop :=
  ∃ before after, text = before ++ piece ++ after ∧ AtLineStart before

def DefinesQuery (text name : String) : Prop :=
  ∃ query : Query, query.name = name ∧ Holds text (queryDefinition query)

def DefinesPipe (text name : String) : Prop :=
  ∃ pipe : PipeModule, pipe.name = name ∧ Holds text (pipeDefinition pipe)

/-- A handler stands anywhere in a text. The names in a handler are identifiers. -/
structure HasHandler (text : String) (binding : RouteBinding) : Prop where
  query : isIdentifier binding.query
  pipes : ∀ name ∈ binding.pipes, isIdentifier name
  stands : ∃ before after, text = before ++ handler binding ++ after

/-- Every handler refers to definitions that stand in the other artifacts. -/
structure Integrity (texts : Texts) : Prop where
  query : ∀ binding, HasHandler (texts .routes) binding →
    DefinesQuery (texts .query) binding.query
  pipes : ∀ binding, HasHandler (texts .routes) binding →
    ∀ name ∈ binding.pipes, DefinesPipe (texts .pipeModules) name

theorem Holds.append {text piece : String} (h : Holds text piece) (more : String) :
    Holds (text ++ more) piece := by
  obtain ⟨before, after, rfl, hstart⟩ := h
  exact ⟨before, after ++ more, by simp only [String.append_assoc], hstart⟩

theorem holds_append {text : String} (h : AtLineStart text) (piece : String) :
    Holds (text ++ piece) piece :=
  ⟨text, "", by rw [String.append_empty], h⟩

theorem DefinesQuery.append {text name : String} (h : DefinesQuery text name) (more : String) :
    DefinesQuery (text ++ more) name := by
  obtain ⟨query, hname, hholds⟩ := h
  exact ⟨query, hname, hholds.append more⟩

theorem DefinesPipe.append {text name : String} (h : DefinesPipe text name) (more : String) :
    DefinesPipe (text ++ more) name := by
  obtain ⟨pipe, hname, hholds⟩ := h
  exact ⟨pipe, hname, hholds.append more⟩

/-- What a line of the routes refers to is defined. -/
structure Resolved (texts : Texts) (line : String) : Prop where
  query : ∀ name, line = queryLine name → DefinesQuery (texts .query) name
  pipe : ∀ name, line = callLine name → DefinesPipe (texts .pipeModules) name

theorem resolved_of_plain {line : String} (h : IsPlainLine line) (texts : Texts) :
    Resolved texts line :=
  ⟨fun name hline => absurd hline (h name).1, fun name hline => absurd hline (h name).2⟩

/-- A handler contains the lines that refer to its query and to its pipe modules. -/
theorem HasHandler.mem_lines {text : String} {binding : RouteBinding}
    (h : HasHandler text binding) :
    queryLine binding.query ∈ lines text ∧ ∀ name ∈ binding.pipes, callLine name ∈ lines text := by
  obtain ⟨before, after, rfl⟩ := h.stands
  rw [handler_eq_unlines]
  constructor
  · exact mem_lines_of_unlines (by simp) (newline_not_mem_queryLine h.query) _ _
  · intro name hname
    exact mem_lines_of_unlines (by simp [List.mem_map_of_mem hname])
      (newline_not_mem_callLine (h.pipes name hname)) _ _

/-- Texts have integrity if each line of the routes refers to nothing but what is defined. -/
theorem integrity_of_resolved {texts : Texts}
    (h : ∀ line ∈ lines (texts .routes), Resolved texts line) : Integrity texts where
  query _ hhandler := (h _ hhandler.mem_lines.1).query _ rfl
  pipes _ hhandler name hname := (h _ (hhandler.mem_lines.2 name hname)).pipe _ rfl

/-- A route is not refused only if its query and all its pipe modules are registered. -/
theorem Writers.registered_of_dangling?_eq_none {registry : Registry} {binding : RouteBinding}
    (h : Routes.dangling? registry binding = none) :
    registry.contains .query binding.query ∧
      ∀ name ∈ binding.pipes, registry.contains .pipeModule name := by
  simpa [Routes.dangling?] using h

/-! ## The invariant -/

namespace Journal

def AlwaysIntegral (journal : Journal) : Prop := ∀ n, Integrity (text (journal.take n))

end Journal

open Journal

/-- What is defined stays defined when an artifact grows. -/
theorem Resolved.extend {texts : Texts} {line : String} (h : Resolved texts line)
    (artifact : Artifact) (more : String) : Resolved (texts.extend artifact more) line where
  query name hline := by
    have hdefines := h.query name hline
    unfold Texts.extend
    split
    · exact hdefines.append more
    · exact hdefines
  pipe name hline := by
    have hdefines := h.pipe name hline
    unfold Texts.extend
    split
    · exact hdefines.append more
    · exact hdefines

def Writers.laid (w : Writers) (texts : Texts) (artifact : Artifact) : String :=
  texts artifact ++ w.pending artifact

theorem Writers.laid_push (w : Writers) (texts : Texts) (artifact : Artifact)
    (more : String) (phase : Phase) (other : Artifact) :
    (w.setBuffer artifact ⟨phase, w.pending artifact ++ more⟩).laid texts other =
      w.laid texts other ++ if other = artifact then more else "" := by
  simp only [laid, pending, buffers_setBuffer]
  by_cases hother : other = artifact
  · simp [hother, String.append_assoc]
  · simp [hother]

/-- What writers know is laid down, and the routes rest on what has been appended. -/
structure Grounded (texts : Texts) (w : Writers) : Prop where
  appended : ∀ artifact, AtLineStart (texts artifact)
  laid : ∀ artifact, AtLineStart (w.laid texts artifact)
  query : ∀ name, w.registry.contains .query name → DefinesQuery (w.laid texts .query) name
  pipe : ∀ name, w.registry.contains .pipeModule name → DefinesPipe (w.laid texts .pipeModules) name
  routes : ∀ line ∈ lines (w.laid texts .routes), Resolved texts line

/-- The routes refer to what has been appended, so the texts have integrity. -/
theorem Grounded.integrity {texts : Texts} {w : Writers} (h : Grounded texts w) :
    Integrity texts := by
  apply integrity_of_resolved
  intro line hline
  apply h.routes
  rw [Writers.laid, lines_append (h.appended .routes)]
  exact List.mem_append_left _ hline

theorem grounded_fresh (sources : List DataSource) : Grounded (text []) (.fresh sources) where
  appended _ := .inl rfl
  laid _ := .inl rfl
  query name hname := absurd hname (by simp [Writers.fresh, Registry.empty, Registry.contains])
  pipe name hname := absurd hname (by simp [Writers.fresh, Registry.empty, Registry.contains])
  routes line hline := absurd hline (by
    have hempty : (Writers.fresh sources).laid (text []) .routes = "" := rfl
    rw [hempty, lines_empty]
    simp)

/-- Text that is pushed to a buffer may hold any definitions, and handlers that are resolved. -/
theorem Grounded.push {texts : Texts} {w : Writers} (h : Grounded texts w)
    {artifact : Artifact} {more : String} (hmore : EndsLine more)
    (hroutes : artifact = .routes → ∀ line ∈ lines more, Resolved texts line) (phase : Phase) :
    Grounded texts (w.setBuffer artifact ⟨phase, w.pending artifact ++ more⟩) := by
  have hlaid := w.laid_push texts artifact more phase
  refine ⟨h.appended, ?_, ?_, ?_, ?_⟩
  · intro other
    rw [hlaid]
    apply (h.laid other).append
    split
    · exact .inr hmore
    · exact .inl rfl
  · intro name hname
    rw [hlaid]
    exact (h.query name hname).append _
  · intro name hname
    rw [hlaid]
    exact (h.pipe name hname).append _
  · intro line hline
    rw [hlaid, lines_append (h.laid .routes), List.mem_append] at hline
    rcases hline with hline | hline
    · exact h.routes line hline
    · split at hline
      · next hartifact => exact hroutes hartifact.symm line hline
      · rw [lines_empty] at hline
        cases hline

/-- Pending text that is appended stays laid down. -/
theorem Grounded.delivered {texts : Texts} {w : Writers} {artifact : Artifact}
    {more : String} {phase : Phase} (h : Grounded texts (w.setBuffer artifact ⟨phase, more⟩))
    (phase' : Phase) :
    Grounded (texts.extend artifact more) (w.setBuffer artifact ⟨phase', ""⟩) := by
  have hlaid (other : Artifact) :
      (w.setBuffer artifact ⟨phase', ""⟩).laid (texts.extend artifact more) other =
        (w.setBuffer artifact ⟨phase, more⟩).laid texts other := by
    simp only [Writers.laid, Writers.pending, Writers.buffers_setBuffer, Texts.extend]
    by_cases hother : other = artifact <;> simp [hother]
  refine ⟨?_, ?_, ?_, ?_, ?_⟩
  · intro other
    have hstart := h.laid other
    rw [Writers.laid, Writers.pending, Writers.buffers_setBuffer] at hstart
    unfold Texts.extend
    split
    · next hother => rwa [if_pos hother] at hstart
    · exact h.appended other
  · intro other
    rw [hlaid]
    exact h.laid other
  · intro name hname
    rw [hlaid]
    exact h.query name hname
  · intro name hname
    rw [hlaid]
    exact h.pipe name hname
  · intro line hline
    rw [hlaid] at hline
    exact (h.routes line hline).extend artifact more

/-- Names may be registered once their definitions are laid down; what else writers keep does not
matter. -/
theorem Grounded.register {texts : Texts} {w w' : Writers} (h : Grounded texts w)
    (hpending : ∀ artifact, w'.pending artifact = w.pending artifact)
    (hquery : ∀ name, w'.registry.contains .query name →
      w.registry.contains .query name ∨ DefinesQuery (w.laid texts .query) name)
    (hpipe : ∀ name, w'.registry.contains .pipeModule name →
      w.registry.contains .pipeModule name ∨ DefinesPipe (w.laid texts .pipeModules) name) :
    Grounded texts w' := by
  have hlaid (artifact : Artifact) : w'.laid texts artifact = w.laid texts artifact := by
    rw [Writers.laid, Writers.laid, hpending]
  refine ⟨h.appended, ?_, ?_, ?_, ?_⟩
  · intro artifact
    rw [hlaid]
    exact h.laid artifact
  · intro name hname
    rw [hlaid]
    exact (hquery name hname).elim (h.query name) id
  · intro name hname
    rw [hlaid]
    exact (hpipe name hname).elim (h.pipe name) id
  · intro line hline
    rw [hlaid] at hline
    exact h.routes line hline

theorem Grounded.withQuery {texts : Texts} {w : Writers} (h : Grounded texts w)
    (query : Query) (phase : Phase) :
    Grounded texts ((w.withQuery query.name).setBuffer .query
      ⟨phase, w.pending .query ++ queryDefinition query⟩) := by
  have hpush : Grounded texts
      (w.setBuffer .query ⟨phase, w.pending .query ++ queryDefinition query⟩) :=
    h.push (endsLine_queryDefinition query) (by rintro ⟨⟩) phase
  refine hpush.register (fun _ => rfl) ?_ ?_
  · intro name hname
    rcases (Registry.contains_append ..).mp hname with hold | ⟨-, rfl⟩
    · exact .inl hold
    · refine .inr ⟨query, rfl, ?_⟩
      rw [Writers.laid_push, if_pos rfl]
      exact holds_append (h.laid .query) _
  · intro name hname
    rcases (Registry.contains_append ..).mp hname with hold | ⟨hkind, -⟩
    · exact .inl hold
    · cases hkind

/-- A pipe module may be defined at any time: its definition waits before a route can refer to it.
-/
theorem Grounded.withPipe {texts : Texts} {w : Writers} (h : Grounded texts w)
    (pipe : PipeModule) : Grounded texts (w.withPipe pipe) := by
  have hpush : Grounded texts (w.setBuffer .pipeModules
      ⟨w.phase .pipeModules, w.pending .pipeModules ++ pipeDefinition pipe⟩) :=
    h.push (endsLine_pipeDefinition pipe) (by rintro ⟨⟩) _
  refine hpush.register ?_ ?_ ?_
  · intro artifact
    simp
  · intro name hname
    rcases (Registry.contains_append ..).mp hname with hold | ⟨hkind, -⟩
    · exact .inl hold
    · cases hkind
  · intro name hname
    rcases (Registry.contains_append ..).mp hname with hold | ⟨-, rfl⟩
    · exact .inl hold
    · refine .inr ⟨pipe, rfl, ?_⟩
      rw [Writers.laid_push, if_pos rfl]
      exact holds_append (h.laid .pipeModules) _

theorem Grounded.definedBy {texts : Texts} (pipes : List PipeModule) {w : Writers}
    (h : Grounded texts w) : Grounded texts (Writers.definedBy pipes w).2 := by
  induction pipes generalizing w with
  | nil => exact h
  | cons pipe rest ih =>
    rw [Writers.definedBy]
    split
    · exact h
    · split
      · exact h
      · exact ih (h.withPipe pipe)

/-- A handler whose names are registered is resolved once everything pending is appended. -/
theorem Grounded.withRoute {texts : Texts} {w : Writers} (h : Grounded texts w)
    {binding : RouteBinding} (hquery : w.registry.contains .query binding.query)
    (hpipes : ∀ name ∈ binding.pipes, w.registry.contains .pipeModule name)
    (hidentifiers : isIdentifier binding.query ∧ ∀ name ∈ binding.pipes, isIdentifier name)
    (hpending : w.pending .query = "" ∧ w.pending .pipeModules = "") (phase : Phase) :
    Grounded texts ((w.withRoute binding.route).setBuffer .routes
      ⟨phase, w.pending .routes ++ handler binding⟩) := by
  have hdefinesQuery := h.query _ hquery
  rw [Writers.laid, hpending.1, String.append_empty] at hdefinesQuery
  have hresolved : ∀ line ∈ lines (handler binding), Resolved texts line := by
    intro line hline
    rw [lines_handler hidentifiers.1 hidentifiers.2] at hline
    rcases mem_handlerLines hline with hplain | rfl | ⟨name, hname, rfl⟩
    · exact resolved_of_plain hplain texts
    · refine ⟨fun other hother => ?_, fun other hother => ?_⟩
      · rwa [← queryLine_inj hother]
      · exact absurd hother (queryLine_ne_callLine _ _)
    · have hdefinesPipe := h.pipe _ (hpipes name hname)
      rw [Writers.laid, hpending.2, String.append_empty] at hdefinesPipe
      refine ⟨fun other hother => ?_, fun other hother => ?_⟩
      · exact absurd hother.symm (queryLine_ne_callLine _ _)
      · rwa [← callLine_inj hother]
  have hpush : Grounded texts
      (w.setBuffer .routes ⟨phase, w.pending .routes ++ handler binding⟩) :=
    h.push (endsLine_handler binding) (fun _ => hresolved) phase
  exact hpush.register (fun _ => rfl) (fun _ => .inl) (fun _ => .inl)

/-! ## The invariant is kept -/

/-- The invariant of writers beside a journal. -/
structure Kept (w : Writers) (v : ω × Journal) : Prop where
  grounded : Grounded v.2.text w
  always : v.2.AlwaysIntegral

theorem Kept.register {w w' : Writers} {v : ω × Journal} (h : Kept w v)
    (hpending : ∀ artifact, w'.pending artifact = w.pending artifact)
    (hregistry : w'.registry = w.registry) : Kept w' v :=
  ⟨h.grounded.register hpending (by rw [hregistry]; exact fun _ => .inl)
    (by rw [hregistry]; exact fun _ => .inl), h.always⟩

variable (sink : Sink (StateM ω))

/-- `F` is anything that the buffer of the artifact does not matter for. -/
theorem deliver_kept (artifact : Artifact) (more : String) (phase : Phase) {F : Writers → Prop}
    (hF : ∀ w b, F w → F (w.setBuffer artifact b)) :
    Triple (fun w v => Kept (w.setBuffer artifact ⟨.opened, more⟩) v ∧ F w)
      (Writers.deliver sink.journaled artifact more phase)
      (fun _ w v => Kept w v ∧ F w ∧ w.pending artifact = "") (fun _ => Kept) := by
  rintro w v ⟨hkept, hframe⟩
  apply (Writers.deliver_journaled sink artifact more phase w v).imp
  · rintro _ w' v' ⟨rfl, htext, halways⟩
    have hdelivered := hkept.grounded.delivered phase
    rw [← htext] at hdelivered
    refine ⟨⟨hdelivered, halways _ hkept.always hdelivered.integrity⟩, hF w _ hframe, ?_⟩
    simp
  · rintro _ w' v' ⟨rfl, hsame⟩
    exact ⟨hsame ▸ hkept.grounded, hsame ▸ hkept.always⟩

/-- A step that delivers what it has pushed. -/
theorem push_kept {artifact : Artifact} {more : String} (phase : Phase) {w : Writers}
    {v : ω × Journal} (h : Kept (w.setBuffer artifact ⟨.opened, more⟩) v) :
    After (fun _ => Kept) (fun _ => Kept)
      (Writers.deliver sink.journaled artifact more phase w v) :=
  (deliver_kept sink artifact more phase (F := fun _ => True) (fun _ _ => id) w v
    ⟨h, trivial⟩).imp (fun _ _ _ => And.left) fun _ _ _ => id

theorem writeHeader_kept {artifact : Artifact} {header : String} (hends : EndsLine header)
    (hplain : artifact = .routes → ∀ line ∈ lines header, IsPlainLine line) :
    Triple Kept (Writers.writeHeader sink.journaled artifact header) (fun _ => Kept)
      (fun _ => Kept) := by
  intro w v hkept
  refine Writers.writeHeader_after (fun _ _ => hkept) fun _ => push_kept sink .opened ?_
  exact ⟨hkept.grounded.push hends
    (fun hartifact line hline => resolved_of_plain (hplain hartifact line hline) _) .opened,
    hkept.always⟩

theorem beginQueries_kept :
    Triple Kept (Writers.beginQueries sink.journaled) (fun _ => Kept) (fun _ => Kept) := by
  intro w v hkept
  refine Writers.beginQueries_after (fun _ _ => hkept) fun _ => push_kept sink .opened ?_
  exact ⟨hkept.grounded.push (endsLine_queryHeader _) (by rintro ⟨⟩) .opened, hkept.always⟩

theorem beginAll_kept :
    Triple Kept (Writers.beginAll sink.journaled) (fun _ => Kept) (fun _ => Kept) := by
  apply (writeHeader_kept sink endsLine_pipeHeader (by rintro ⟨⟩)).bind
  intro _
  apply (beginQueries_kept sink).bind
  intro _
  exact writeHeader_kept sink endsLine_routesHeader fun _ => isPlainLine_routesHeader

/-- After a chain nothing waits, so that a route may refer to it. -/
theorem emitPipes_kept (chain : List PipeModule) :
    Triple Kept (Writers.emitPipes sink.journaled chain)
      (fun _ w v => Kept w v ∧ w.pending .pipeModules = "") (fun _ => Kept) := by
  intro w v hkept
  -- the last chain is forgotten before anything else can fail
  have hnone : Kept { w with chain := [] } v := hkept.register (fun _ => rfl) rfl
  refine Writers.emitPipes_after (fun _ _ => hkept)
    (fun _ fresh _ _ => ⟨hnone.grounded.definedBy fresh, hkept.always⟩)
    fun fresh w' _ hdefined hopen => ?_
  have hgrounded := hnone.grounded.definedBy fresh
  rw [hdefined] at hgrounded
  let w'' : Writers := { w' with chain := chain.map (·.name) }
  have hchain : Kept w'' v := Kept.register ⟨hgrounded, hkept.always⟩ (fun _ => rfl) rfl
  have hopen'' : w''.phase .pipeModules = .opened := hopen
  rw [← Writers.setBuffer_pending hopen''] at hchain
  exact (deliver_kept sink .pipeModules _ .opened (F := fun _ => True) (fun _ _ => id) w'' v
    ⟨hchain, trivial⟩).imp (fun _ _ _ h => ⟨h.1, h.2.2⟩) fun _ _ _ => id

theorem emitQuery_kept (query : Query) :
    Triple (fun w v => Kept w v ∧ w.pending .pipeModules = "")
      (Writers.emitQuery sink.journaled query)
      (fun _ w v => Kept w v ∧ w.pending .query = "" ∧ w.pending .pipeModules = "")
      (fun _ => Kept) := by
  rintro w v ⟨hkept, hpipes⟩
  refine Writers.emitQuery_after (fun _ _ => hkept) fun _ _ _ => ?_
  have hpush : Kept ((w.withQuery query.name).setBuffer .query
      ⟨.opened, w.pending .query ++ queryDefinition query⟩) v :=
    ⟨hkept.grounded.withQuery query .opened, hkept.always⟩
  have hframe (w : Writers) (b : Buffer) (h : w.pending .pipeModules = "") :
      (w.setBuffer .query b).pending .pipeModules = "" := h
  exact (deliver_kept sink .query _ .opened hframe _ v ⟨hpush, hpipes⟩).imp
    (fun _ _ _ h => ⟨h.1, h.2.2, h.2.1⟩) fun _ _ _ => id

/-- A route is written where its query and its pipe modules have been appended. -/
theorem emitRoute_kept (binding : RouteBinding) :
    Triple (fun w v => Kept w v ∧ w.pending .query = "" ∧ w.pending .pipeModules = "")
      (Writers.emitRoute sink.journaled binding) (fun _ => Kept) (fun _ => Kept) := by
  rintro w v ⟨hkept, hpending⟩
  refine Writers.emitRoute_after (fun _ _ => hkept) fun _ hresolved hnames =>
    push_kept sink .opened ?_
  have hregistered := Writers.registered_of_dangling?_eq_none hresolved
  obtain ⟨hpipes, hquery⟩ := List.forall_mem_append.mp hnames
  exact ⟨hkept.grounded.withRoute hregistered.1 hregistered.2
    ⟨hquery _ List.mem_cons_self, hpipes⟩ hpending .opened, hkept.always⟩

/-- What is written for a declaration comes in the order in which it is referred to. -/
theorem emitAll_kept (declaration : Declaration) (chain : List PipeModule) :
    Triple Kept (Writers.emitAll sink.journaled declaration chain) (fun _ => Kept)
      (fun _ => Kept) := by
  apply (emitPipes_kept sink chain).bind
  intro _
  apply (emitQuery_kept sink declaration.query).bind
  intro _
  exact emitRoute_kept sink _

theorem closePipes_kept :
    Triple Kept (Writers.closePipes sink.journaled) (fun _ => Kept) (fun _ => Kept) := by
  intro w v hkept
  refine Writers.closePipes_after (fun _ _ => hkept) fun _ _ => push_kept sink .sealed ?_
  exact ⟨hkept.grounded.push (endsLine_pipeExports _) (by rintro ⟨⟩) .opened, hkept.always⟩

theorem closeQueries_kept :
    Triple Kept (Writers.closeQueries sink.journaled) (fun _ => Kept) (fun _ => Kept) := by
  intro w v hkept
  refine Writers.closeQueries_after (fun _ _ => hkept) fun _ _ => push_kept sink .sealed ?_
  exact ⟨hkept.grounded.push (endsLine_queryExports _) (by rintro ⟨⟩) .opened, hkept.always⟩

theorem closeRoutes_kept :
    Triple Kept (Writers.closeRoutes sink.journaled) (fun _ => Kept) (fun _ => Kept) := by
  intro w v hkept
  refine Writers.closeRoutes_after (fun _ _ => hkept) fun _ => push_kept sink .sealed ?_
  refine ⟨hkept.grounded.push (endsLine_routeExports _) (fun _ line hline => ?_) .opened,
    hkept.always⟩
  exact resolved_of_plain (isPlainLine_routeExports _ line hline) _

theorem closeAll_kept :
    Triple Kept (Writers.closeAll sink.journaled) (fun _ => Kept) (fun _ => Kept) := by
  apply (closePipes_kept sink).bind
  intro _
  apply (closeQueries_kept sink).bind
  intro _
  exact closeRoutes_kept sink

/-! ## Every run -/

namespace Emission

variable (transport : Transport (StateM ω))

theorem kept_of_journal {w : Writers} {v v' : ω × Journal} (h : Kept w v) (hjournal : v'.2 = v.2) :
    Kept w v' := ⟨hjournal ▸ h.grounded, hjournal ▸ h.always⟩

/-- Every part of a call keeps the invariant, in whatever stage. -/
theorem kept_invariant (ops : List Operation) :
    Invariant sink.journaled transport.journaled ops fun _ : Stage => Kept where
  begin := beginAll_kept sink
  gather op _ v h := kept_of_journal h (gathered_journal transport op v)
  emit declaration chain _ := emitAll_kept sink declaration chain
  finish := closeAll_kept sink

/-- Whatever is called, the routes never refer to what is not there. -/
theorem performAll_kept (calls : List Call) {e : Emission} {v : ω × Journal}
    (h : Kept e.writers v) :
    Kept (performAll sink.journaled transport.journaled calls (e, v)).1.writers
      (performAll sink.journaled transport.journaled calls (e, v)).2 :=
  Invariant.performAll (kept_invariant sink transport _) (List.Subset.refl _) h

/-- Whatever is called, and whatever fails: whenever something has been appended, each handler
among the routes refers to a query and to pipe modules whose definitions have been appended. -/
theorem integrity_at_every_moment (sources : List DataSource) (calls : List Call) (v : ω)
    (n : Nat) :
    Integrity (Journal.text
      ((performAll sink.journaled transport.journaled calls (idle sources, (v, []))).2.2.take n)) := by
  have hidle : Kept (idle sources).writers ((v, []) : ω × Journal) := by
    have hgrounded := grounded_fresh sources
    refine ⟨hgrounded, fun n => ?_⟩
    rw [List.take_nil]
    exact hgrounded.integrity
  exact (performAll_kept sink transport calls hidle).always n

end Emission

end LinkedApi
