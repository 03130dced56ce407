import LinkedApi.Proofs.Generation.Pieces
import LinkedApi.Proofs.Registry
import LinkedApi.Proofs.Steps

/-!
# What the steps of the writers do

Each step checks what it must and then either only refuses, which leaves the writers as they were,
or adds a text to one buffer and appends what the buffer holds. Every step has one equation that
says which of these happens.
-/

namespace LinkedApi

open Steps

variable {ω : Type}

/-- Appends a text to an artifact unless there is nothing to append. -/
def Sink.offer (sink : Sink (StateM ω)) (artifact : Artifact) (text : String) (v : ω) :
    Except FileError Unit × ω :=
  if text = "" then (.ok (), v) else sink.append artifact text v

abbrev Texts := Artifact → String

def Texts.extend (texts : Texts) (artifact : Artifact) (more : String) : Texts := fun other =>
  if other = artifact then texts other ++ more else texts other

@[simp]
theorem Texts.extend_empty (texts : Texts) (artifact : Artifact) :
    texts.extend artifact "" = texts := by
  funext other
  simp [extend]

namespace Buffer

@[simp]
theorem require_apply (artifact : Artifact) (step : WritingStep) (expected : Phase) (b : Buffer)
    (v : ω) :
    (require artifact step expected : Buffering (StateM ω) Unit) b v =
      if b.phase = expected then ((.ok (), b), v)
      else ((.error (.outOfPhase step artifact b.phase), b), v) := by
  simp only [require, bind_apply, get_apply]
  split <;> rfl

@[simp]
theorem start_apply (artifact : Artifact) (b : Buffer) (v : ω) :
    (start artifact : Buffering (StateM ω) Unit) b v =
      if b.phase = .fresh then ((.ok (), { b with phase := .opened }), v)
      else ((.error (.outOfPhase .header artifact b.phase), b), v) := by
  rw [start, bind_apply, require_apply]
  by_cases hphase : b.phase = .fresh
  · rw [if_pos hphase, if_pos hphase]
    rfl
  · rw [if_neg hphase, if_neg hphase]

@[simp]
theorem push_apply (text : String) (b : Buffer) (v : ω) :
    (push text : Buffering (StateM ω) Unit) b v =
      ((.ok (), { b with pending := b.pending ++ text }), v) := rfl

theorem flush_apply (sink : Sink (StateM ω)) (artifact : Artifact) (b : Buffer) (v : ω) :
    (flush sink artifact : Buffering (StateM ω) Unit) b v =
      match sink.offer artifact b.pending v with
      | (.ok (), v') => ((.ok (), { b with pending := "" }), v')
      | (.error cause, v') => ((.error (.file cause), b), v') := by
  simp only [flush, bind_apply, get_apply, Sink.offer, String.isEmpty_iff]
  split
  · next hempty => rw [← hempty]; rfl
  · simp only [bind_apply, liftM_apply]
    rcases sink.append artifact b.pending v with ⟨_ | _, v'⟩ <;> rfl

end Buffer

namespace Writers

@[simp]
theorem setBuffer_self (w : Writers) (artifact : Artifact) :
    w.setBuffer artifact (w.buffers artifact) = w := by
  have hbuffers : (fun other => if other = artifact then w.buffers artifact else w.buffers other) =
      w.buffers := by
    funext other
    split <;> simp [*]
  simp only [setBuffer, hbuffers]

@[simp]
theorem buffers_setBuffer (w : Writers) (artifact other : Artifact) (b : Buffer) :
    (w.setBuffer artifact b).buffers other = if other = artifact then b else w.buffers other := rfl

@[simp]
theorem registry_setBuffer (w : Writers) (artifact : Artifact) (b : Buffer) :
    (w.setBuffer artifact b).registry = w.registry := rfl

@[simp]
theorem defined_setBuffer (w : Writers) (artifact : Artifact) (b : Buffer) :
    (w.setBuffer artifact b).defined = w.defined := rfl

@[simp]
theorem dataSources_setBuffer (w : Writers) (artifact : Artifact) (b : Buffer) :
    (w.setBuffer artifact b).dataSources = w.dataSources := rfl

@[simp]
theorem routes_setBuffer (w : Writers) (artifact : Artifact) (b : Buffer) :
    (w.setBuffer artifact b).routes = w.routes := rfl

@[simp]
theorem setBuffer_setBuffer (w : Writers) (artifact : Artifact) (b b' : Buffer) :
    (w.setBuffer artifact b).setBuffer artifact b' = w.setBuffer artifact b' := by
  simp only [setBuffer]
  congr 1
  funext other
  split <;> rfl

def pending (w : Writers) (artifact : Artifact) : String := (w.buffers artifact).pending

@[simp]
theorem pending_setBuffer (w : Writers) (artifact other : Artifact) (b : Buffer) :
    (w.setBuffer artifact b).pending other =
      if other = artifact then b.pending else w.pending other := by
  simp only [pending, buffers_setBuffer]
  split <;> rfl

/-- Offers a text to the sink; it stays in the buffer if it is refused. -/
def deliver (sink : Sink (StateM ω)) (artifact : Artifact) (text : String) (phase : Phase) :
    Writing (StateM ω) Unit := fun w v =>
  match sink.offer artifact text v with
  | (.ok (), v') => ((.ok (), w.setBuffer artifact ⟨phase, ""⟩), v')
  | (.error cause, v') => ((.error (.file cause), w.setBuffer artifact ⟨.opened, text⟩), v')

/-- Steps on the buffer of an artifact leave everything else of the writers as it is. -/
@[simp]
theorem onBuffer_apply {α : Type} (artifact : Artifact) (steps : Buffering (StateM ω) α)
    (w : Writers) (v : ω) :
    onBuffer artifact steps w v =
      (((steps (w.buffers artifact) v).1.1,
        w.setBuffer artifact (steps (w.buffers artifact) v).1.2),
        (steps (w.buffers artifact) v).2) := rfl

@[simp]
theorem requireOpen_apply (artifact : Artifact) (step : WritingStep) (w : Writers) (v : ω) :
    (requireOpen artifact step : Writing (StateM ω) Unit) w v =
      if w.phase artifact = .opened then ((.ok (), w), v)
      else ((.error (.outOfPhase step artifact (w.phase artifact)), w), v) := by
  rw [requireOpen, onBuffer_apply, Buffer.require_apply, phase]
  by_cases hopen : (w.buffers artifact).phase = .opened
  · rw [if_pos hopen, if_pos hopen, setBuffer_self]
  · rw [if_neg hopen, if_neg hopen, setBuffer_self]

/-- A text is pushed to the buffer of an artifact that is open, and the buffer is flushed. -/
theorem push_flush_apply (sink : Sink (StateM ω)) {artifact : Artifact} (text : String)
    {w : Writers} (hopen : w.phase artifact = .opened) (v : ω) :
    onBuffer artifact (do Buffer.push text; Buffer.flush sink artifact) w v =
      deliver sink artifact (w.pending artifact ++ text) .opened w v := by
  rw [phase] at hopen
  rw [onBuffer_apply, bind_apply, Buffer.push_apply]
  simp only [Buffer.flush_apply, deliver, pending, hopen]
  rcases sink.offer artifact _ v with ⟨_ | _, v'⟩ <;> rfl

theorem flush_open_apply (sink : Sink (StateM ω)) {artifact : Artifact} {w : Writers}
    (hopen : w.phase artifact = .opened) (v : ω) :
    onBuffer artifact (Buffer.flush sink artifact) w v =
      deliver sink artifact (w.pending artifact) .opened w v := by
  rw [phase] at hopen
  rw [onBuffer_apply]
  simp only [Buffer.flush_apply, deliver, pending, ← hopen]
  rcases sink.offer artifact _ v with ⟨_ | _, v'⟩ <;> rfl

theorem filled_ok {template : Template} {slots : List Slot} {text : String}
    (h : template.render slots = .ok text) (w : Writers) (v : ω) :
    (filled template slots : Writing (StateM ω) String) w v = ((.ok text, w), v) := by
  simp only [filled, h, pure_apply]

theorem filled_error {template : Template} {slots : List Slot} {cause : TemplateError}
    (h : template.render slots = .error cause) (w : Writers) (v : ω) :
    (filled template slots : Writing (StateM ω) String) w v =
      ((.error (.template cause), w), v) := by
  simp only [filled, h, throw_apply]

/-! ## Headers -/

theorem writeHeader_apply (sink : Sink (StateM ω)) (artifact : Artifact) (header : String)
    (w : Writers) (v : ω) :
    writeHeader sink artifact header w v =
      if w.phase artifact = .fresh then
        deliver sink artifact (w.pending artifact ++ header) .opened w v
      else ((.error (.outOfPhase .header artifact (w.phase artifact)), w), v) := by
  rw [writeHeader, onBuffer_apply, bind_apply, Buffer.start_apply, phase]
  by_cases hfresh : (w.buffers artifact).phase = .fresh
  · rw [if_pos hfresh, if_pos hfresh]
    simp only [bind_apply, Buffer.push_apply, Buffer.flush_apply, deliver, pending]
    rcases sink.offer artifact _ v with ⟨_ | _, v'⟩ <;> rfl
  · rw [if_neg hfresh, if_neg hfresh, setBuffer_self]

theorem beginQueries_apply (sink : Sink (StateM ω)) (w : Writers) (v : ω) :
    beginQueries sink w v =
      if w.phase .query = .fresh then
        deliver sink .query (w.pending .query ++ Generated.queryHeader w.dataSources) .opened w v
      else ((.error (.outOfPhase .header .query (w.phase .query)), w), v) := by
  rw [beginQueries, bind_apply, onBuffer_apply, Buffer.start_apply, phase]
  by_cases hfresh : (w.buffers .query).phase = .fresh
  · rw [if_pos hfresh, if_pos hfresh]
    dsimp only
    rw [bind_apply, get_apply]
    dsimp only
    rw [dataSources_setBuffer, bind_of_ok (filled_ok (render_queryHeader _) _ _), push_flush_apply]
    · simp only [deliver, pending, buffers_setBuffer, if_true, setBuffer_setBuffer]
    · rw [phase, buffers_setBuffer, if_pos rfl]
  · rw [if_neg hfresh, if_neg hfresh, setBuffer_self]

/-! ## Entities -/

@[simp]
theorem commit_apply (kind : NameKind) (name : String) (w : Writers) (v : ω) :
    (commit kind name : Writing (StateM ω) Unit) w v =
      if w.registry.contains kind name then ((.error (.duplicateName ⟨kind, name, none⟩), w), v)
      else ((.ok (), { w with registry := ⟨w.registry.entries ++ [(kind, name)]⟩ }), v) := by
  simp only [commit, bind_apply, get_apply, Registry.register]
  cases w.registry.contains kind name <;> rfl

def withPipe (w : Writers) (pipe : PipeModule) : Writers where
  registry := ⟨w.registry.entries ++ [(.pipeModule, pipe.name)]⟩
  buffers := fun other =>
    if other = .pipeModules then
      { w.buffers .pipeModules with
        pending := w.pending .pipeModules ++ Generated.pipeDefinition pipe }
    else w.buffers other
  defined := w.defined ++ [(pipe.name, pipe.source)]
  chain := w.chain
  dataSources := w.dataSources
  lastQuery := w.lastQuery
  routes := w.routes

@[simp]
theorem names_withPipe (w : Writers) (pipe : PipeModule) (kind : NameKind) :
    (w.withPipe pipe).registry.names kind =
      w.registry.names kind ++ if .pipeModule = kind then [pipe.name] else [] :=
  Registry.names_concat w.registry .pipeModule kind pipe.name

@[simp]
theorem pending_withPipe (w : Writers) (pipe : PipeModule) (artifact : Artifact) :
    (w.withPipe pipe).pending artifact =
      if artifact = .pipeModules then w.pending .pipeModules ++ Generated.pipeDefinition pipe
      else w.pending artifact := by
  simp only [pending, withPipe]
  split <;> rfl

@[simp]
theorem routes_withPipe (w : Writers) (pipe : PipeModule) : (w.withPipe pipe).routes = w.routes :=
  rfl

/-- A pipe module is refused for its name, or because the name is taken, before its definition
waits. -/
theorem definePipe_apply (pipe : PipeModule) (w : Writers) (v : ω) :
    (definePipe pipe : Writing (StateM ω) Unit) w v =
      if Text.isIdentifier pipe.name = false then
        ((.error (.template (.invalidIdentifier pipe.name)), w), v)
      else if w.registry.contains .pipeModule pipe.name then
        ((.error (.duplicateName ⟨.pipeModule, pipe.name, none⟩), w), v)
      else ((.ok (), w.withPipe pipe), v) := by
  have hrender := render_pipeDefinition pipe
  rw [definePipe]
  cases hname : Text.isIdentifier pipe.name with
  | true =>
    rw [hname, if_pos rfl] at hrender
    rw [bind_of_ok (filled_ok hrender w v), bind_apply, commit_apply, if_neg Bool.false_ne_true.symm]
    cases w.registry.contains .pipeModule pipe.name <;> rfl
  | false =>
    rw [hname, if_neg Bool.false_ne_true] at hrender
    rw [bind_of_error (filled_error hrender w v), if_pos rfl]

/-- Defines pipe modules until one cannot be defined. -/
def definedBy : List PipeModule → Writers → Except GenerationError Unit × Writers
  | [], w => (.ok (), w)
  | pipe :: rest, w =>
    if Text.isIdentifier pipe.name = false then
      (.error (.template (.invalidIdentifier pipe.name)), w)
    else if w.registry.contains .pipeModule pipe.name then
      (.error (.duplicateName ⟨.pipeModule, pipe.name, none⟩), w)
    else definedBy rest (w.withPipe pipe)

theorem definePipes_apply (pipes : List PipeModule) (w : Writers) (v : ω) :
    (definePipes pipes : Writing (StateM ω) Unit) w v = (definedBy pipes w, v) := by
  induction pipes generalizing w with
  | nil => rfl
  | cons pipe rest ih =>
    rw [definePipes, bind_apply, definePipe_apply, definedBy]
    by_cases hname : Text.isIdentifier pipe.name = false
    · rw [if_pos hname, if_pos hname]
    · rw [if_neg hname, if_neg hname]
      by_cases hknown : w.registry.contains .pipeModule pipe.name = true
      · rw [if_pos hknown, if_pos hknown]
      · rw [if_neg hknown, if_neg hknown]
        exact ih (w.withPipe pipe)

@[simp]
theorem phase_definedBy (pipes : List PipeModule) (w : Writers) (artifact : Artifact) :
    (definedBy pipes w).2.phase artifact = w.phase artifact := by
  induction pipes generalizing w with
  | nil => rfl
  | cons pipe rest ih =>
    have hstep : (w.withPipe pipe).phase artifact = w.phase artifact := by
      simp only [phase, withPipe]
      split
      · next hpipes => rw [hpipes]
      · rfl
    rw [definedBy]
    split
    · rfl
    · split
      · rfl
      · rw [ih, hstep]

/-- A chain is delivered once all its new modules are defined. -/
theorem emitPipes_apply (sink : Sink (StateM ω)) (chain : List PipeModule) (w : Writers) (v : ω) :
    emitPipes sink chain w v =
      if w.phase .pipeModules ≠ .opened then
        ((.error (.outOfPhase .entity .pipeModules (w.phase .pipeModules)), w), v)
      else
        match PipeModules.undefinedOf w.defined [] chain with
        | .error what => ((.error (.duplicateName what), { w with chain := [] }), v)
        | .ok fresh =>
          match definedBy fresh { w with chain := [] } with
          | (.error cause, w') => ((.error cause, w'), v)
          | (.ok (), w') =>
            deliver sink .pipeModules (w'.pending .pipeModules) .opened
              { w' with chain := chain.map (·.name) } v := by
  rw [emitPipes, bind_apply, requireOpen_apply]
  by_cases hopen : w.phase .pipeModules = .opened
  · rw [if_pos hopen, if_neg (not_not_intro hopen)]
    simp only [bind_apply, get_apply, modify_apply]
    cases PipeModules.undefinedOf w.defined [] chain with
    | error what => rfl
    | ok fresh =>
      simp only [bind_apply, definePipes_apply]
      have hstill := phase_definedBy fresh { w with chain := [] } .pipeModules
      revert hstill
      rcases definedBy fresh { w with chain := [] } with ⟨_ | _, w'⟩ <;> intro hstill
      · rfl
      · have hopen' : ({ w' with chain := chain.map (·.name) } : Writers).phase .pipeModules =
            .opened := hstill.trans hopen
        exact flush_open_apply sink hopen' v
  · rw [if_neg hopen, if_pos hopen]

def withQuery (w : Writers) (name : String) : Writers where
  registry := ⟨w.registry.entries ++ [(.query, name)]⟩
  buffers := w.buffers
  defined := w.defined
  chain := w.chain
  dataSources := w.dataSources
  lastQuery := some name
  routes := w.routes

@[simp]
theorem names_withQuery (w : Writers) (name : String) (kind : NameKind) :
    (w.withQuery name).registry.names kind =
      w.registry.names kind ++ if .query = kind then [name] else [] :=
  Registry.names_concat w.registry .query kind name

@[simp]
theorem pending_withQuery (w : Writers) (name : String) (artifact : Artifact) :
    (w.withQuery name).pending artifact = w.pending artifact := rfl

theorem emitQuery_apply (sink : Sink (StateM ω)) (query : Query) (w : Writers) (v : ω) :
    emitQuery sink query w v =
      if w.phase .query ≠ .opened then
        ((.error (.outOfPhase .entity .query (w.phase .query)), w), v)
      else if Text.isIdentifier query.name = false then
        ((.error (.template (.invalidIdentifier query.name)), w), v)
      else if w.registry.contains .query query.name then
        ((.error (.duplicateName ⟨.query, query.name, none⟩), w), v)
      else
        deliver sink .query (w.pending .query ++ Generated.queryDefinition query) .opened
          (w.withQuery query.name) v := by
  have hrender := render_queryDefinition query
  rw [emitQuery, bind_apply, requireOpen_apply]
  by_cases hopen : w.phase .query = .opened
  · rw [if_pos hopen, if_neg (not_not_intro hopen)]
    dsimp only
    cases hname : Text.isIdentifier query.name with
    | true =>
      rw [hname, if_pos rfl] at hrender
      rw [bind_of_ok (filled_ok hrender w v), bind_apply, commit_apply, if_neg Bool.false_ne_true.symm]
      cases w.registry.contains .query query.name with
      | true => rfl
      | false =>
        have hstill : (w.withQuery query.name).phase .query = .opened := hopen
        exact push_flush_apply sink _ hstill v
    | false =>
      rw [hname, if_neg Bool.false_ne_true] at hrender
      rw [bind_of_error (filled_error hrender w v), if_pos rfl]
  · rw [if_neg hopen, if_pos hopen]

theorem pipeCalls_apply (names : List String) (w : Writers) (v : ω) :
    (pipeCalls names : Writing (StateM ω) String) w v =
      match names.find? fun name => !Text.isIdentifier name with
      | some name => ((.error (.template (.invalidIdentifier name)), w), v)
      | none => ((.ok (String.join (names.map Generated.pipeCall)), w), v) := by
  induction names with
  | nil => rfl
  | cons name rest ih =>
    have hrender := render_pipeCall name
    rw [pipeCalls, List.find?_cons]
    cases hname : Text.isIdentifier name with
    | true =>
      rw [hname, if_pos rfl] at hrender
      rw [bind_of_ok (filled_ok hrender w v), bind_apply, ih]
      cases rest.find? fun name => !Text.isIdentifier name with
      | some other => rfl
      | none => simp only [pure_apply, Bool.not_true, List.map_cons, String.join_cons]
    | false =>
      rw [hname, if_neg Bool.false_ne_true] at hrender
      rw [bind_of_error (filled_error hrender w v)]
      rfl

def withRoute (w : Writers) (route : Route) : Writers := { w with routes := w.routes ++ [route] }

@[simp]
theorem routes_withRoute (w : Writers) (route : Route) :
    (w.withRoute route).routes = w.routes ++ [route] := rfl

@[simp]
theorem pending_withRoute (w : Writers) (route : Route) (artifact : Artifact) :
    (w.withRoute route).pending artifact = w.pending artifact := rfl

/-- A route is checked against the registry before any of its text is rendered. -/
theorem emitRoute_apply (sink : Sink (StateM ω)) (binding : RouteBinding) (w : Writers) (v : ω) :
    emitRoute sink binding w v =
      if w.phase .routes ≠ .opened then
        ((.error (.outOfPhase .entity .routes (w.phase .routes)), w), v)
      else
        match Routes.dangling? w.registry binding,
          (binding.pipes ++ [binding.query]).find? fun name => !Text.isIdentifier name with
        | some (kind, name), _ => ((.error (.danglingReference binding.route kind name), w), v)
        | none, some name => ((.error (.template (.invalidIdentifier name)), w), v)
        | none, none =>
          deliver sink .routes (w.pending .routes ++ Generated.handler binding) .opened
            (w.withRoute binding.route) v := by
  have hrender := render_handler binding
  rw [emitRoute, bind_apply, requireOpen_apply]
  by_cases hopen : w.phase .routes = .opened
  · rw [if_pos hopen, if_neg (not_not_intro hopen)]
    dsimp only
    rw [bind_apply, get_apply]
    dsimp only
    rcases Routes.dangling? w.registry binding with _ | ⟨kind, name⟩
    · dsimp only
      rw [bind_apply, pipeCalls_apply, List.find?_append]
      cases binding.pipes.find? fun name => !Text.isIdentifier name with
      | some name => rfl
      | none =>
        dsimp only
        cases hname : Text.isIdentifier binding.query with
        | true =>
          have hstill : (w.withRoute binding.route).phase .routes = .opened := hopen
          rw [hname, if_pos rfl] at hrender
          rw [bind_of_ok (filled_ok hrender w v), bind_apply, modify_apply, List.find?_cons, hname]
          exact push_flush_apply sink _ hstill v
        | false =>
          rw [hname, if_neg Bool.false_ne_true] at hrender
          rw [bind_of_error (filled_error hrender w v), List.find?_cons, hname]
          rfl
    · rfl
  · rw [if_neg hopen, if_pos hopen]

/-! ## Export sections -/

theorem writeExports_apply (sink : Sink (StateM ω)) {artifact : Artifact} (text : String)
    {w : Writers} (hopen : w.phase artifact = .opened) (v : ω) :
    writeExports sink artifact text w v =
      deliver sink artifact (w.pending artifact ++ text) .sealed w v := by
  rw [phase] at hopen
  rw [writeExports, onBuffer_apply, bind_apply, Buffer.push_apply]
  simp only [Buffer.close, bind_apply, Buffer.require_apply, hopen, if_true, Buffer.flush_apply,
    deliver, pending]
  rcases sink.offer artifact _ v with ⟨_ | _, v'⟩ <;> rfl

theorem exportList_apply (names : List String) (w : Writers) (v : ω) :
    (exportList names : Writing (StateM ω) String) w v =
      match names.find? fun name => !Text.isIdentifier name with
      | some name => ((.error (.template (.invalidIdentifier name)), w), v)
      | none => ((.ok (", ".intercalate names), w), v) := by
  rw [exportList]
  cases names.find? fun name => !Text.isIdentifier name <;> rfl

theorem closePipes_apply (sink : Sink (StateM ω)) (w : Writers) (v : ω) :
    closePipes sink w v =
      if w.phase .pipeModules ≠ .opened then
        ((.error (.outOfPhase .exports .pipeModules (w.phase .pipeModules)), w), v)
      else
        match (w.registry.names .pipeModule).find? fun name => !Text.isIdentifier name with
        | some name => ((.error (.template (.invalidIdentifier name)), w), v)
        | none =>
          deliver sink .pipeModules
            (w.pending .pipeModules ++ Generated.pipeExports (w.registry.names .pipeModule))
            .sealed w v := by
  rw [closePipes, bind_apply, requireOpen_apply]
  by_cases hopen : w.phase .pipeModules = .opened
  · rw [if_pos hopen, if_neg (not_not_intro hopen)]
    dsimp only
    rw [bind_apply, get_apply]
    dsimp only
    by_cases hnone : w.registry.names .pipeModule = []
    · rw [hnone]
      exact writeExports_apply sink _ hopen v
    · rw [if_neg (by simpa using hnone), bind_apply, exportList_apply]
      have hrender := render_pipeExports hnone
      generalize w.registry.names .pipeModule = names at hrender ⊢
      cases names.find? fun name => !Text.isIdentifier name with
      | some name => rfl
      | none =>
        dsimp only
        rw [bind_of_ok (filled_ok hrender w v)]
        exact writeExports_apply sink _ hopen v
  · rw [if_neg hopen, if_pos hopen]

theorem closeQueries_apply (sink : Sink (StateM ω)) (w : Writers) (v : ω) :
    closeQueries sink w v =
      if w.phase .query ≠ .opened then
        ((.error (.outOfPhase .exports .query (w.phase .query)), w), v)
      else
        match (w.registry.names .query).find? fun name => !Text.isIdentifier name with
        | some name => ((.error (.template (.invalidIdentifier name)), w), v)
        | none =>
          deliver sink .query
            (w.pending .query ++ Generated.queryExports (w.registry.names .query)) .sealed w v := by
  rw [closeQueries, bind_apply, requireOpen_apply]
  by_cases hopen : w.phase .query = .opened
  · rw [if_pos hopen, if_neg (not_not_intro hopen)]
    dsimp only
    rw [bind_apply, get_apply]
    dsimp only
    rw [bind_apply, exportList_apply, List.find?_cons]
    have hrender := render_queryExports (w.registry.names .query)
    have hentry : Text.isIdentifier Queries.entryPoint = true := by decide
    rw [hentry, Bool.not_true]
    generalize w.registry.names .query = names at hrender ⊢
    cases names.find? fun name => !Text.isIdentifier name with
    | some name => rfl
    | none =>
      dsimp only
      rw [bind_of_ok (filled_ok hrender w v)]
      exact writeExports_apply sink _ hopen v
  · rw [if_neg hopen, if_pos hopen]

theorem closeRoutes_apply (sink : Sink (StateM ω)) (w : Writers) (v : ω) :
    closeRoutes sink w v =
      if w.phase .routes ≠ .opened then
        ((.error (.outOfPhase .exports .routes (w.phase .routes)), w), v)
      else
        deliver sink .routes (w.pending .routes ++ Generated.routeExports w.routes) .sealed w v := by
  rw [closeRoutes, bind_apply, requireOpen_apply]
  by_cases hopen : w.phase .routes = .opened
  · rw [if_pos hopen, if_neg (not_not_intro hopen)]
    dsimp only
    rw [bind_apply, get_apply]
    dsimp only
    rw [bind_of_ok (filled_ok (render_routeExports w.routes) w v)]
    exact writeExports_apply sink _ hopen v
  · rw [if_neg hopen, if_pos hopen]

end Writers

end LinkedApi
