import LinkedApi.Proofs.Emission.Composition
import LinkedApi.Proofs.Emission.Integrity
import LinkedApi.Proofs.Emission.Refusals

/-!
# Calls of the writers

The writers are called in any order, each for its header, for one entity after the other and for its
export section. A call that is accepted notes what it has to, adds one text to its artifact and
offers the sink what is pending. A call that is not accepted asks nothing of the sink.
-/

namespace LinkedApi

open Generated Steps Text

variable {ω : Type}

/-- The sink refuses a text in one world and leaves another. -/
def Sink.Refuses (sink : Sink (StateM ω)) (before later : ω) : Prop :=
  ∃ artifact text cause, sink.append artifact text before = (.error cause, later)

namespace Writers

inductive Call where
  | begin (artifact : Artifact)
  | pipes (chain : List PipeModule)
  | query (query : Query)
  | route (binding : RouteBinding)
  | close (artifact : Artifact)

def perform (sink : Sink (StateM ω)) : Call → Writing (StateM ω) Unit
  | .begin .pipeModules => beginPipes sink
  | .begin .query => beginQueries sink
  | .begin .routes => beginRoutes sink
  | .pipes chain => emitPipes sink chain
  | .query q => emitQuery sink q
  | .route binding => emitRoute sink binding
  | .close .pipeModules => closePipes sink
  | .close .query => closeQueries sink
  | .close .routes => closeRoutes sink

def performAll (sink : Sink (StateM ω)) : List Call → Writing (StateM ω) Unit
  | [] => pure ()
  | call :: rest => do
    perform sink call
    performAll sink rest

/-! ## What a call does -/

def exported (w : Writers) : Artifact → List String
  | .pipeModules => w.registry.names .pipeModule
  | .query => w.registry.names .query
  | .routes => []

def exports (w : Writers) : Artifact → String
  | .pipeModules => pipeExports (w.registry.names .pipeModule)
  | .query => queryExports (w.registry.names .query)
  | .routes => routeExports w.routes

/-- The modules of a chain that are not defined yet, if the chain as a whole is not refused. -/
def undefined (w : Writers) (chain : List PipeModule) : List PipeModule :=
  match PipeModules.undefinedOf w.defined [] chain with
  | .ok fresh => fresh
  | .error _ => []

/-- Whether a call is accepted, whatever the sink does with its text. -/
def Accepts (w : Writers) : Call → Prop
  | .begin artifact => w.phase artifact = .fresh
  | .pipes chain => w.phase .pipeModules = .opened ∧
      PipeModules.undefinedOf w.defined [] chain = .ok (w.undefined chain) ∧
      ∀ pipe ∈ w.undefined chain, w.accepts pipe
  | .query q => w.phase .query = .opened ∧ isIdentifier q.name ∧
      ¬w.registry.contains .query q.name
  | .route binding => w.phase .routes = .opened ∧ Routes.dangling? w.registry binding = none ∧
      ∀ name ∈ binding.pipes ++ [binding.query], isIdentifier name
  | .close artifact => w.phase artifact = .opened ∧ ∀ name ∈ w.exported artifact, isIdentifier name

namespace Call

def artifact : Call → Artifact
  | .begin artifact => artifact
  | .pipes _ => .pipeModules
  | .query _ => .query
  | .route _ => .routes
  | .close artifact => artifact

def piece (w : Writers) : Call → String
  | .begin artifact => artifact.header w.dataSources
  | .pipes chain => String.join ((w.undefined chain).map pipeDefinition)
  | .query q => queryDefinition q
  | .route binding => handler binding
  | .close artifact => w.exports artifact

/-- The writers with what a call notes, before its text is added. -/
def noted (w : Writers) : Call → Writers
  | .begin _ => w
  | .pipes chain => { w with
      registry := ⟨w.registry.entries ++
        (w.undefined chain).map fun pipe => (.pipeModule, pipe.name)⟩
      defined := w.defined ++ (w.undefined chain).map fun pipe => (pipe.name, pipe.source)
      chain := chain.map (·.name) }
  | .query q => w.withQuery q.name
  | .route binding => w.withRoute binding.route
  | .close _ => w

def phaseAfter : Call → Phase
  | .close _ => .sealed
  | _ => .opened

/-- The writers once the text of a call is appended. -/
def after (w : Writers) (call : Call) : Writers :=
  (call.noted w).setBuffer call.artifact ⟨call.phaseAfter, ""⟩

/-- The writers when the sink has refused the text of a call. -/
def waiting (w : Writers) (call : Call) : Writers :=
  (call.noted w).setBuffer call.artifact ⟨.opened, w.pending call.artifact ++ call.piece w⟩

end Call

@[simp]
theorem buffers_noted (w : Writers) (call : Call) : (call.noted w).buffers = w.buffers := by
  cases call <;> rfl

/-! ## Accepted and refused calls -/

section Perform

variable (sink : Sink (StateM ω)) {w w' : Writers} {call : Call}

theorem perform_begin (artifact : Artifact) (w : Writers) (v : ω) :
    perform sink (.begin artifact) w v =
      if w.phase artifact = .fresh then
        deliver sink artifact (w.pending artifact ++ artifact.header w.dataSources) .opened w v
      else ((.error (.outOfPhase .header artifact (w.phase artifact)), w), v) := by
  cases artifact with
  | pipeModules => exact writeHeader_apply sink .pipeModules _ w v
  | query => exact beginQueries_apply sink w v
  | routes => exact writeHeader_apply sink .routes _ w v

theorem perform_close (artifact : Artifact) (w : Writers) (v : ω) :
    perform sink (.close artifact) w v =
      if w.phase artifact ≠ .opened then
        ((.error (.outOfPhase .exports artifact (w.phase artifact)), w), v)
      else
        match (w.exported artifact).find? fun name => !isIdentifier name with
        | some name => ((.error (.template (.invalidIdentifier name)), w), v)
        | none => deliver sink artifact (w.pending artifact ++ w.exports artifact) .sealed w v := by
  cases artifact with
  | pipeModules => exact closePipes_apply sink w v
  | query => exact closeQueries_apply sink w v
  | routes => exact closeRoutes_apply sink w v

/-- Modules with distinct names are defined when each of them may be. -/
theorem definedBy_of_accepts {fresh : List PipeModule} (hnodup : (fresh.map (·.name)).Nodup)
    (h : ∀ pipe ∈ fresh, w.accepts pipe) : definedBy fresh w = (.ok (), w.withPipes fresh) := by
  simp only [accepts, Bool.and_eq_true, Bool.not_eq_true'] at h
  refine definedBy_eq (fun pipe hpipe => (h pipe hpipe).1) hnodup fun pipe hpipe hmem => ?_
  rw [← Registry.contains_iff, (h pipe hpipe).2] at hmem
  cases hmem

/-- Otherwise one of them is refused. -/
theorem definedBy_of_not_accepts {fresh : List PipeModule} (hnodup : (fresh.map (·.name)).Nodup)
    (h : ¬∀ pipe ∈ fresh, w.accepts pipe) (w' : Writers) : definedBy fresh w ≠ (.ok (), w') := by
  induction fresh generalizing w with
  | nil => exact absurd (List.forall_mem_nil _) h
  | cons pipe rest ih =>
    rw [List.map_cons, List.nodup_cons] at hnodup
    rw [definedBy]
    split_ifs with hname hnew
    · exact fun h => by cases h
    · exact fun h => by cases h
    · refine ih hnodup.2 fun hrest => h (List.forall_mem_cons.mpr ⟨?_, ?_⟩)
      · simp [accepts, hname, hnew]
      · intro other hother
        have hne : other.name ≠ pipe.name := fun hsame =>
          hnodup.1 (hsame ▸ List.mem_map_of_mem hother)
        rw [← accepts_withPipe hne]
        exact hrest other hother

/-- A chain that is accepted is offered to the sink as the definitions that are missing. -/
theorem perform_pipes {chain : List PipeModule} (h : w.Accepts (.pipes chain)) (v : ω) :
    perform sink (.pipes chain) w v =
      deliver sink .pipeModules (w.pending .pipeModules ++ Call.piece w (.pipes chain)) .opened
        (Call.noted w (.pipes chain)) v := by
  obtain ⟨hopen, hfresh, haccepts⟩ := h
  have hdefined : definedBy (w.undefined chain) { w with chain := [] } =
      (.ok (), { w with chain := [] }.withPipes (w.undefined chain)) :=
    definedBy_of_accepts (nodup_undefinedOf hfresh) haccepts
  rw [perform, emitPipes_apply, if_neg (not_not_intro hopen), hfresh]
  dsimp only
  rw [hdefined]
  -- the definitions wait in the buffer, which the delivery replaces
  exact deliver_setBuffer sink .pipeModules _ .opened (Call.noted w (.pipes chain)) _ v

/-- An accepted call offers the sink what is pending with the text of the call. -/
theorem perform_of_accepts (h : w.Accepts call) (v : ω) :
    perform sink call w v =
      deliver sink call.artifact (w.pending call.artifact ++ call.piece w) call.phaseAfter
        (call.noted w) v := by
  cases call with
  | begin artifact =>
    have hfresh : w.phase artifact = .fresh := h
    rw [perform_begin, if_pos hfresh]
    rfl
  | pipes chain => exact perform_pipes sink h v
  | query q =>
    obtain ⟨hopen, hname, hnew⟩ := h
    rw [perform, emitQuery_apply, if_neg (not_not_intro hopen), if_neg (by simp [hname]),
      if_neg hnew]
    rfl
  | route binding =>
    obtain ⟨hopen, hdangling, hnames⟩ := h
    rw [perform, emitRoute_apply, if_neg (not_not_intro hopen), hdangling,
      find?_invalid_eq_none.mpr hnames]
    rfl
  | close artifact =>
    obtain ⟨hopen, hnames⟩ := h
    rw [perform_close, if_neg (not_not_intro hopen), find?_invalid_eq_none.mpr hnames]
    rfl

/-- What is not accepted fails in the same way on every sink, and not for an append. -/
theorem perform_of_not_accepts (h : ¬w.Accepts call) (v : ω) :
    ∃ e w', perform sink call w v = ((.error e, w'), v) ∧ ∀ cause, e ≠ .file cause := by
  have hrun : After (fun _ _ _ => False) (fun e _ v' => v' = v ∧ e.OfWriters)
      (perform sink call w v) := by
    cases call with
    | begin artifact =>
      have hbegun : ¬w.phase artifact = .fresh := h
      rw [perform_begin, if_neg hbegun]
      exact ⟨rfl, fun _ h => by cases h⟩
    | pipes chain =>
      refine emitPipes_after (fun _ he => ⟨rfl, he⟩) (fun _ _ he _ => ⟨rfl, he⟩)
        fun fresh w' hundefined hdefined hopen => absurd hdefined ?_
      have hfresh : w.undefined chain = fresh := by rw [undefined, hundefined]
      have hopen' : w.phase .pipeModules = .opened := by
        have hphase := phase_definedBy fresh { w with chain := [] } .pipeModules
        rw [hdefined] at hphase
        exact hphase.symm.trans hopen
      have hrefused : ¬∀ pipe ∈ fresh, { w with chain := [] }.accepts pipe := fun haccepts =>
        h ⟨hopen', hfresh ▸ hundefined, hfresh ▸ haccepts⟩
      exact definedBy_of_not_accepts (nodup_undefinedOf hundefined) hrefused w'
    | query q =>
      exact emitQuery_after (fun _ he => ⟨rfl, he⟩) fun hopen hname hnew =>
        absurd ⟨hopen, hname, hnew⟩ h
    | route binding =>
      exact emitRoute_after (fun _ he => ⟨rfl, he⟩) fun hopen hresolved hnames =>
        absurd ⟨hopen, hresolved, hnames⟩ h
    | close artifact =>
      rw [perform_close]
      split
      · exact ⟨rfl, fun _ h => by cases h⟩
      next hopen =>
      split
      · exact ⟨rfl, fun _ h => by cases h⟩
      · next hnames => exact absurd ⟨not_not.mp hopen, find?_invalid_eq_none.mp hnames⟩ h
  rcases hperform : perform sink call w v with ⟨⟨e | ⟨⟩, w'⟩, v'⟩ <;> rw [hperform] at hrun
  · obtain ⟨rfl, he⟩ := hrun
    exact ⟨e, w', rfl, he⟩
  · exact hrun.elim

end Perform

/-! ## What calls lay down -/

section Ledger

variable {w : Writers} {call : Call}

/-- The writers without the texts that are pending. -/
def bare (w : Writers) : Writers := { w with buffers := fun artifact => ⟨w.phase artifact, ""⟩ }

/-- The writers beside the texts, both with what is pending among the texts. -/
def ledger (w : Writers) (texts : Texts) : Writers × Texts := (w.bare, w.laid texts)

namespace Call

/-- The ledger once the text of a call is laid down. -/
def lay (call : Call) (s : Writers × Texts) : Writers × Texts :=
  (call.after s.1, s.2.extend call.artifact (call.piece s.1))

/-- The ledger when the sink has refused the text of a call: its artifact stays open. -/
def left (call : Call) (s : Writers × Texts) : Writers × Texts :=
  ((call.noted s.1).setBuffer call.artifact ⟨.opened, ""⟩,
    s.2.extend call.artifact (call.piece s.1))

/-- The ledger once calls are laid down one after the other. -/
def layAll (calls : List Call) (s : Writers × Texts) : Writers × Texts :=
  calls.foldl (fun s call => call.lay s) s

@[simp]
theorem layAll_append (xs ys : List Call) (s : Writers × Texts) :
    layAll (xs ++ ys) s = layAll ys (layAll xs s) := List.foldl_append

/-- A refused text and a taken one leave the same, except that an export section that is taken
closes its artifact. -/
theorem left_eq_lay (h : call.phaseAfter = .opened) (s : Writers × Texts) :
    call.left s = call.lay s := by
  rw [left, lay, after, h]

end Call

def AcceptsAll : List Call → Writers → Prop
  | [], _ => True
  | call :: rest, w => w.Accepts call ∧ AcceptsAll rest (call.after w)

@[simp]
theorem bare_setBuffer (w : Writers) (artifact : Artifact) (phase : Phase) (text : String) :
    (w.setBuffer artifact ⟨phase, text⟩).bare = w.bare.setBuffer artifact ⟨phase, ""⟩ := by
  have hbuffers : (fun other => (⟨(w.setBuffer artifact ⟨phase, text⟩).phase other, ""⟩ : Buffer)) =
      fun other => if other = artifact then ⟨phase, ""⟩ else ⟨w.phase other, ""⟩ := by
    funext other
    simp only [Writers.phase, buffers_setBuffer]
    split <;> rfl
  rw [bare, hbuffers]
  rfl

theorem pending_of_bare (h : w.bare = w) (artifact : Artifact) : w.pending artifact = "" := by
  rw [← h]
  rfl

/-- What waits plays no role in whether a call is accepted. -/
@[simp]
theorem accepts_bare : w.bare.Accepts call ↔ w.Accepts call := by
  cases call <;> exact Iff.rfl

@[simp]
theorem piece_bare (w : Writers) (call : Call) : call.piece w.bare = call.piece w := by
  cases call with
  | close artifact => cases artifact <;> rfl
  | _ => rfl

@[simp]
theorem noted_bare (w : Writers) (call : Call) : (call.noted w).bare = call.noted w.bare := by
  cases call <;> rfl

@[simp]
theorem bare_after (w : Writers) (call : Call) : (call.after w).bare = call.after w.bare := by
  rw [Call.after, bare_setBuffer, noted_bare]
  rfl

@[simp]
theorem pending_noted (w : Writers) (call : Call) (artifact : Artifact) :
    (call.noted w).pending artifact = w.pending artifact := by
  rw [pending, buffers_noted, pending]

/-- What is pending is laid down whether it is appended or not. -/
theorem ledger_after (w : Writers) (call : Call) (texts : Texts) :
    (call.after w).ledger
      (texts.extend call.artifact (w.pending call.artifact ++ call.piece w)) =
      call.lay (w.ledger texts) := by
  refine Prod.ext (bare_after w call) (funext fun other => ?_)
  simp only [ledger, Call.lay, Call.after, pending_setBuffer, piece_bare, pending_noted,
    Texts.extend, laid]
  split
  · next hother => rw [hother, String.append_empty, String.append_assoc]
  · rfl

/-- A refused text is laid down with what waits. -/
theorem ledger_waiting (w : Writers) (call : Call) (texts : Texts) :
    (call.waiting w).ledger texts = call.left (w.ledger texts) := by
  refine Prod.ext ?_ (funext fun other => ?_)
  · rw [ledger, Call.waiting, bare_setBuffer, noted_bare]
    rfl
  · simp only [ledger, Call.left, Call.waiting, pending_setBuffer, piece_bare, pending_noted,
      Texts.extend, laid]
    split
    · next hother => rw [hother, String.append_assoc]
    · rfl

theorem ledger_of_bare (h : w.bare = w) (texts : Texts) : w.ledger texts = (w, texts) := by
  refine Prod.ext h (funext fun artifact => ?_)
  simp only [ledger, laid, pending_of_bare h, String.append_empty]

end Ledger

/-! ## Calls on a sink -/

/-- A call that is accepted returns, or its text is refused and waits. -/
theorem perform_journaled (sink : Sink (StateM ω)) {w : Writers} {call : Call}
    (h : w.Accepts call) (v : ω) (journal : Journal) :
    (∃ v' journal', perform sink.journaled call w (v, journal) =
        ((.ok (), call.after w), (v', journal')) ∧
      journal'.text =
        journal.text.extend call.artifact (w.pending call.artifact ++ call.piece w)) ∨
    ∃ cause v', perform sink.journaled call w (v, journal) =
        ((.error (.file cause), call.waiting w), (v', journal)) ∧ sink.Refuses v v' := by
  rw [perform_of_accepts sink.journaled h, deliver, Sink.offer]
  by_cases hmore : w.pending call.artifact ++ call.piece w = ""
  · rw [if_pos hmore]
    exact .inl ⟨v, journal, rfl, by rw [hmore, Texts.extend_empty]⟩
  · rw [if_neg hmore]
    simp only [Sink.journaled]
    rcases happend : sink.append call.artifact (w.pending call.artifact ++ call.piece w) v
      with ⟨cause | _, v'⟩
    · exact .inr ⟨cause, v', rfl, _, _, _, happend⟩
    · exact .inl ⟨v', _, rfl, Journal.text_append journal _ _⟩

/-! ## Calls on a sink that takes every text -/

/-- Where the sink takes every text, an accepted call returns. -/
theorem perform_accepting {w : Writers} {call : Call} (h : w.Accepts call) (journal : Journal) :
    ∃ journal', perform Sink.accepting.journaled call w ((), journal) =
        ((.ok (), call.after w), ((), journal')) ∧
      journal'.text =
        journal.text.extend call.artifact (w.pending call.artifact ++ call.piece w) := by
  rcases perform_journaled Sink.accepting h () journal with
    ⟨⟨⟩, journal', hperform, htext⟩ | ⟨_, _, _, _, _, _, hrefused⟩
  · exact ⟨journal', hperform, htext⟩
  · cases hrefused

/-- Calls return when each is accepted, and leave what they lay down. -/
theorem performAll_accepting {calls : List Call} {w : Writers} (h : AcceptsAll calls w)
    (hbare : w.bare = w) (journal : Journal) :
    ∃ journal', performAll Sink.accepting.journaled calls w ((), journal) =
        ((.ok (), (Call.layAll calls (w, journal.text)).1), ((), journal')) ∧
      journal'.text = (Call.layAll calls (w, journal.text)).2 := by
  induction calls generalizing w journal with
  | nil => exact ⟨journal, rfl, rfl⟩
  | cons call rest ih =>
    obtain ⟨hcall, hrest⟩ := h
    obtain ⟨journal₁, hperform, htext⟩ := perform_accepting hcall journal
    rw [pending_of_bare hbare, String.empty_append] at htext
    have hlay : call.lay (w, journal.text) = (call.after w, journal₁.text) := by rw [htext]; rfl
    rw [performAll, bind_of_ok hperform, Call.layAll, List.foldl_cons, hlay]
    exact ih hrest ((bare_after w call).trans (by rw [hbare])) journal₁

theorem acceptsAll_of_performAll {calls : List Call} {w w' : Writers} {journal : Journal}
    {v : Unit × Journal}
    (h : performAll Sink.accepting.journaled calls w ((), journal) = ((.ok (), w'), v)) :
    AcceptsAll calls w := by
  induction calls generalizing w journal with
  | nil => trivial
  | cons call rest ih =>
    rw [performAll] at h
    by_cases hcall : w.Accepts call
    · obtain ⟨journal₁, hperform, -⟩ := perform_accepting hcall journal
      rw [bind_of_ok hperform] at h
      exact ⟨hcall, ih h⟩
    · obtain ⟨e, w₁, hperform, -⟩ :=
        perform_of_not_accepts Sink.accepting.journaled hcall ((), journal)
      rw [bind_of_error hperform] at h
      cases h

end Writers

end LinkedApi
