import LinkedApi.Proofs.Emission.WriterCalls

/-!
# Calls that are made again

A call whose text the sink refuses is made again until it ends otherwise. What it has noted by then
stays noted, and its text stays pending. A chain that is made again finds its modules defined and
adds nothing. A header or a query is refused from then on, for the artifact is open and the name is
registered. A handler or an export section is written once more for each refusal.
-/

namespace LinkedApi

open Generated Steps Text

variable {ω : Type}

@[simp]
theorem Texts.extend_extend (texts : Texts) (artifact : Artifact) (x y : String) :
    (texts.extend artifact x).extend artifact y = texts.extend artifact (x ++ y) := by
  funext other
  simp only [extend]
  split
  · rw [String.append_assoc]
  · rfl

namespace Writers

/-- A call is made until it ends otherwise than by a refused text: the number of refusals, and how
it ends. -/
inductive Retried (sink : Sink (StateM ω)) (call : Call) :
    Writers → ω → Nat → Except GenerationError Unit → Writers → ω → Prop where
  | ended {w w' : Writers} {v v' : ω} {outcome : Except GenerationError Unit} :
      perform sink call w v = ((outcome, w'), v') → (∀ cause, outcome ≠ .error (.file cause)) →
      Retried sink call w v 0 outcome w' v'
  | again {w w₁ w' : Writers} {v v₁ v' : ω} {n : Nat} {cause : FileError}
      {outcome : Except GenerationError Unit} :
      perform sink call w v = ((.error (.file cause), w₁), v₁) →
      Retried sink call w₁ v₁ n outcome w' v' → Retried sink call w v (n + 1) outcome w' v'

/-- Calls are made one after the other, each until it ends otherwise than by a refused text. -/
inductive RetriedAll (sink : Sink (StateM ω)) :
    List (Call × Nat) → Writers → ω → List (Except GenerationError Unit) → Writers → ω → Prop where
  | nil {w : Writers} {v : ω} : RetriedAll sink [] w v [] w v
  | cons {call : Call} {n : Nat} {rest : List (Call × Nat)} {w w₁ w' : Writers} {v v₁ v' : ω}
      {outcome : Except GenerationError Unit} {outcomes : List (Except GenerationError Unit)} :
      Retried sink call w v n outcome w₁ v₁ → RetriedAll sink rest w₁ v₁ outcomes w' v' →
      RetriedAll sink ((call, n) :: rest) w v (outcome :: outcomes) w' v'

namespace Call

def outcome : Call → Nat → Except GenerationError Unit
  | .begin artifact, _ + 1 => .error (.outOfPhase .header artifact .opened)
  | .query q, _ + 1 => .error (.duplicateName ⟨.query, q.name, none⟩)
  | _, _ => .ok ()

/-- The calls that lay down the same: a route is written once more for each refusal. -/
def repeated : Call → Nat → List Call
  | .route binding, n => List.replicate (n + 1) (.route binding)
  | call, _ => [call]

def extraExports : Call → Nat → Artifact → Nat
  | .close artifact, n => fun other => if other = artifact then n else 0
  | _, _ => fun _ => 0

end Call

def exportAgain (extra : Artifact → Nat) (s : Writers × Texts) : Writers × Texts :=
  (s.1, fun artifact =>
    s.2 artifact ++ String.join (List.replicate (extra artifact) (s.1.exports artifact)))

/-- The calls that lay down the same as calls with their refusals. -/
def repeatedAll (tries : List (Call × Nat)) : List Call :=
  tries.flatMap fun tried => tried.1.repeated tried.2

/-- How many export sections calls with their refusals leave beyond one for each artifact. -/
def extraExportsAll (tries : List (Call × Nat)) (artifact : Artifact) : Nat :=
  (tries.map fun tried => tried.1.extraExports tried.2 artifact).sum

/-! ## One call -/

section Single

variable {sink : Sink (StateM ω)} {call : Call} {w w' : Writers} {n : Nat}
  {outcome : Except GenerationError Unit}

@[simp]
theorem phase_waiting (w : Writers) (call : Call) :
    (call.waiting w).phase call.artifact = .opened := by
  rw [phase, Call.waiting, buffers_setBuffer, if_pos rfl]

/-- A call that is refused for another reason than its text ends there. -/
theorem Retried.of_refused {v v' : ω} {e : GenerationError}
    (hperform : perform sink call w v = ((.error e, w), v)) (he : ∀ cause, e ≠ .file cause)
    (h : Retried sink call w v n outcome w' v') : n = 0 ∧ outcome = .error e ∧ w' = w ∧ v' = v := by
  cases h with
  | ended hended hcause =>
    rw [hperform] at hended
    cases hended
    exact ⟨rfl, rfl, rfl, rfl⟩
  | again hagain hrest =>
    rw [hperform] at hagain
    cases hagain
    exact absurd rfl (he _)

variable {v : ω} {journal : Journal} {x' : ω × Journal}

/-- A call that is accepted and not refused returns. -/
theorem Retried.end_of_accepts (haccepts : w.Accepts call)
    (h : Retried sink.journaled call w (v, journal) 0 outcome w' x') :
    outcome = .ok () ∧ w' = call.after w ∧
      w'.ledger x'.2.text = call.lay (w.ledger journal.text) := by
  cases h with
  | ended hended hcause =>
    rcases perform_journaled sink haccepts v journal with
      ⟨v', journal', hperform, htext⟩ | ⟨cause, v₁, hperform, -⟩
    · rw [hperform] at hended
      cases hended
      refine ⟨rfl, rfl, ?_⟩
      rw [htext]
      exact ledger_after w call journal.text
    · rw [hperform] at hended
      cases hended
      exact absurd rfl (hcause cause)

/-- A call that is accepted and refused is made again with its text waiting. -/
theorem Retried.again_of_accepts (haccepts : w.Accepts call)
    (h : Retried sink.journaled call w (v, journal) (n + 1) outcome w' x') :
    ∃ v₁, Retried sink.journaled call (call.waiting w) (v₁, journal) n outcome w' x' := by
  cases h with
  | again hagain hrest =>
    rcases perform_journaled sink haccepts v journal with
      ⟨v', journal', hperform, -⟩ | ⟨cause, v₁, hperform, -⟩
    · rw [hperform] at hagain
      cases hagain
    · rw [hperform] at hagain
      cases hagain
      exact ⟨v₁, hrest⟩

/-- A call that is not accepted while its text waits leaves what it has laid down. -/
theorem Retried.of_blocked (hopen : call.phaseAfter = .opened) (haccepts : w.Accepts call)
    {e : GenerationError} (he : ∀ cause, e ≠ .file cause)
    (hblocked : ∀ x, perform sink.journaled call (call.waiting w) x =
      ((.error e, call.waiting w), x))
    (h : Retried sink.journaled call w (v, journal) n outcome w' x') :
    outcome = (if n = 0 then .ok () else .error e) ∧
      w'.ledger x'.2.text = call.lay (w.ledger journal.text) := by
  cases n with
  | zero =>
    obtain ⟨hok, -, hledger⟩ := h.end_of_accepts haccepts
    exact ⟨hok, hledger⟩
  | succ n =>
    obtain ⟨v₁, hagain⟩ := h.again_of_accepts haccepts
    obtain ⟨rfl, rfl, rfl, rfl⟩ := hagain.of_refused (hblocked _) he
    exact ⟨rfl, (ledger_waiting w call journal.text).trans (Call.left_eq_lay hopen _)⟩

/-- A call that is accepted again after each refusal returns, and lays down its text after what the
refusals have left. -/
theorem Retried.of_accepts_again
    (haccepts : ∀ m, (call.left^[m] (w.ledger journal.text)).1.Accepts call)
    (h : Retried sink.journaled call w (v, journal) n outcome w' x') :
    outcome = .ok () ∧
      w'.ledger x'.2.text = call.lay (call.left^[n] (w.ledger journal.text)) := by
  have hfirst : w.Accepts call := accepts_bare.mp (haccepts 0)
  induction n generalizing w v with
  | zero =>
    obtain ⟨hok, -, hledger⟩ := h.end_of_accepts hfirst
    exact ⟨hok, hledger⟩
  | succ n ih =>
    obtain ⟨v₁, hagain⟩ := h.again_of_accepts hfirst
    have hleft (m : Nat) : call.left^[m] ((call.waiting w).ledger journal.text) =
        call.left^[m + 1] (w.ledger journal.text) := by
      rw [ledger_waiting, Function.iterate_succ_apply]
    have haccepts' (m : Nat) :
        (call.left^[m] ((call.waiting w).ledger journal.text)).1.Accepts call := by
      rw [hleft]
      exact haccepts (m + 1)
    obtain ⟨hok, hledger⟩ := ih haccepts' hagain (accepts_bare.mp (haccepts' 0))
    exact ⟨hok, hledger.trans (congrArg call.lay (hleft n))⟩

/-! ### Headers and queries -/

/-- An artifact whose header waits is open. -/
theorem Retried.begin {artifact : Artifact} (haccepts : w.Accepts (.begin artifact))
    (h : Retried sink.journaled (.begin artifact) w (v, journal) n outcome w' x') :
    outcome = Call.outcome (.begin artifact) n ∧
      w'.ledger x'.2.text = Call.lay (.begin artifact) (w.ledger journal.text) := by
  have hopen : (Call.waiting w (.begin artifact)).phase artifact = .opened :=
    phase_waiting w (.begin artifact)
  have hblocked (x : ω × Journal) :
      perform sink.journaled (.begin artifact) (Call.waiting w (.begin artifact)) x =
        ((.error (.outOfPhase .header artifact .opened), Call.waiting w (.begin artifact)), x) := by
    rw [perform_begin, hopen, if_neg nofun]
  obtain ⟨houtcome, hledger⟩ := h.of_blocked rfl haccepts (fun _ h => by cases h) hblocked
  exact ⟨houtcome.trans (by cases n <;> rfl), hledger⟩

/-- The name of a query whose definition waits is registered. -/
theorem Retried.query {q : Query} (haccepts : w.Accepts (.query q))
    (h : Retried sink.journaled (.query q) w (v, journal) n outcome w' x') :
    outcome = Call.outcome (.query q) n ∧
      w'.ledger x'.2.text = Call.lay (.query q) (w.ledger journal.text) := by
  have hopen : (Call.waiting w (.query q)).phase .query = .opened := phase_waiting w (.query q)
  have hknown : (Call.waiting w (.query q)).registry.contains .query q.name = true :=
    (Registry.contains_append ..).mpr (.inr ⟨rfl, rfl⟩)
  have hname : ¬isIdentifier q.name = false := by simp [haccepts.2.1]
  have hblocked (x : ω × Journal) :
      perform sink.journaled (.query q) (Call.waiting w (.query q)) x =
        ((.error (.duplicateName ⟨.query, q.name, none⟩), Call.waiting w (.query q)), x) := by
    rw [perform, emitQuery_apply, if_neg (not_not_intro hopen), if_neg hname, if_pos hknown]
  obtain ⟨houtcome, hledger⟩ := h.of_blocked rfl haccepts (fun _ h => by cases h) hblocked
  exact ⟨houtcome.trans (by cases n <;> rfl), hledger⟩

/-! ### Chains -/

/-- What is to be defined has no definition. -/
theorem undefinedOf_unknown {defined : List (String × String)} {seen : List String}
    {chain fresh : List PipeModule} (h : PipeModules.undefinedOf defined seen chain = .ok fresh) :
    ∀ pipe ∈ fresh, defined.find? (·.1 == pipe.name) = none := by
  obtain ⟨-, -, rfl⟩ := undefinedOf_eq_ok_iff.mp h
  intro pipe hpipe
  exact Option.isNone_iff_eq_none.mp (List.mem_filter.mp hpipe).2

/-- A chain whose modules are all defined adds none. -/
theorem undefinedOf_known {defined known : List (String × String)} {seen : List String}
    {chain fresh : List PipeModule}
    (hkept : ∀ name found, defined.find? (·.1 == name) = some found →
      known.find? (·.1 == name) = some found)
    (hadded : ∀ pipe ∈ fresh, known.find? (·.1 == pipe.name) = some (pipe.name, pipe.source))
    (h : PipeModules.undefinedOf defined seen chain = .ok fresh) :
    PipeModules.undefinedOf known seen chain = .ok [] := by
  obtain ⟨hdistinct, hagree, rfl⟩ := undefinedOf_eq_ok_iff.mp h
  have hknown : ∀ pipe ∈ chain, ∃ found, known.find? (·.1 == pipe.name) = some found ∧
      found.2 = pipe.source := by
    intro pipe hpipe
    cases hfound : defined.find? (·.1 == pipe.name) with
    | some found => exact ⟨found, hkept _ _ hfound, hagree pipe hpipe found hfound⟩
    | none =>
      have hsource := hadded pipe
        (List.mem_filter.mpr ⟨hpipe, Option.isNone_iff_eq_none.mpr hfound⟩)
      exact ⟨_, hsource, rfl⟩
  refine undefinedOf_eq_ok_iff.mpr ⟨hdistinct, ?_, List.filter_eq_nil_iff.mpr ?_⟩
  · intro pipe hpipe found hfound
    obtain ⟨found', hfound', hsource⟩ := hknown pipe hpipe
    rwa [Option.some_inj.mp (hfound.symm.trans hfound')]
  · intro pipe hpipe
    obtain ⟨found, hfound, -⟩ := hknown pipe hpipe
    simp [hfound]

theorem find?_defined {fresh : List PipeModule} (hnodup : (fresh.map (·.name)).Nodup)
    {pipe : PipeModule} (hpipe : pipe ∈ fresh) :
    (fresh.map fun pipe => (pipe.name, pipe.source)).find? (·.1 == pipe.name) =
      some (pipe.name, pipe.source) := by
  induction fresh with
  | nil => cases hpipe
  | cons other rest ih =>
    rw [List.map_cons, List.nodup_cons] at hnodup
    rw [List.map_cons, List.find?_cons]
    rcases List.mem_cons.mp hpipe with rfl | hrest
    · rw [beq_self_eq_true]
    · have hne : other.name ≠ pipe.name := fun hsame =>
        hnodup.1 (hsame ▸ List.mem_map_of_mem hrest)
      rw [beq_false_of_ne hne]
      exact ih hnodup.2 hrest

/-- A chain may be written again, and adds nothing. -/
theorem accepts_pipes_again {chain : List PipeModule} (h : w.Accepts (.pipes chain)) :
    (Call.after w (.pipes chain)).Accepts (.pipes chain) ∧
      (Call.after w (.pipes chain)).undefined chain = [] := by
  obtain ⟨-, hfresh, -⟩ := h
  have hagain :
      PipeModules.undefinedOf (Call.after w (.pipes chain)).defined [] chain = .ok [] := by
    refine undefinedOf_known ?_ ?_ hfresh
    · intro name found hfound
      exact List.find?_append.trans (by rw [hfound, Option.some_or])
    · intro pipe hpipe
      refine List.find?_append.trans ?_
      rw [undefinedOf_unknown hfresh pipe hpipe, Option.none_or]
      exact find?_defined (nodup_undefinedOf hfresh) hpipe
  have hnone : (Call.after w (.pipes chain)).undefined chain = [] := by rw [undefined, hagain]
  exact ⟨⟨rfl, hnone.symm ▸ hagain, hnone.symm ▸ List.forall_mem_nil _⟩, hnone⟩

/-- A chain may be written again while its definitions wait. -/
theorem accepts_pipes_waiting {chain : List PipeModule} (h : w.Accepts (.pipes chain)) :
    (Call.waiting w (.pipes chain)).Accepts (.pipes chain) :=
  ⟨phase_waiting w (.pipes chain), (accepts_pipes_again h).1.2⟩

/-- A chain that is laid down twice is laid down once. -/
theorem lay_pipes_again {chain : List PipeModule} {s : Writers × Texts}
    (h : s.1.Accepts (.pipes chain)) :
    Call.lay (.pipes chain) (Call.lay (.pipes chain) s) = Call.lay (.pipes chain) s := by
  have hnone := (accepts_pipes_again h).2
  have hnoted : Call.noted (Call.after s.1 (.pipes chain)) (.pipes chain) =
      Call.after s.1 (.pipes chain) := by
    rw [Call.noted, hnone, List.map_nil, List.map_nil, List.append_nil, List.append_nil]
    rfl
  have hafter : Call.after (Call.after s.1 (.pipes chain)) (.pipes chain) =
      Call.after s.1 (.pipes chain) := by
    rw [Call.after, hnoted, Call.after, setBuffer_setBuffer]
  have hpiece : Call.piece (Call.after s.1 (.pipes chain)) (.pipes chain) = "" := by
    rw [Call.piece, hnone]
    rfl
  exact Prod.ext hafter ((congrArg (Texts.extend _ _) hpiece).trans (Texts.extend_empty _ _))

/-- A chain is written once, however often it is refused. -/
theorem Retried.pipes {chain : List PipeModule} (haccepts : w.Accepts (.pipes chain))
    (h : Retried sink.journaled (.pipes chain) w (v, journal) n outcome w' x') :
    outcome = .ok () ∧
      w'.ledger x'.2.text = Call.lay (.pipes chain) (w.ledger journal.text) := by
  have hbare : w.bare.Accepts (.pipes chain) := accepts_bare.mpr haccepts
  have hagain : Call.lay (.pipes chain) (Call.lay (.pipes chain) (w.ledger journal.text)) =
      Call.lay (.pipes chain) (w.ledger journal.text) := lay_pipes_again hbare
  have hleft : Call.left (.pipes chain) = Call.lay (.pipes chain) := funext (Call.left_eq_lay rfl)
  -- after the first refusal nothing changes any more
  have hstays (m : Nat) : (Call.left (.pipes chain))^[m + 1] (w.ledger journal.text) =
      Call.lay (.pipes chain) (w.ledger journal.text) := by
    rw [hleft, Function.iterate_succ_apply]
    exact Function.iterate_fixed hagain m
  have hall (m : Nat) : ((Call.left (.pipes chain))^[m] (w.ledger journal.text)).1.Accepts
      (.pipes chain) := by
    cases m with
    | zero => exact hbare
    | succ m =>
      rw [hstays]
      exact (accepts_pipes_again hbare).1
  obtain ⟨hok, hledger⟩ := h.of_accepts_again hall
  refine ⟨hok, hledger.trans ?_⟩
  cases n with
  | zero => rfl
  | succ n => rw [hstays, hagain]

/-! ### Routes -/

theorem accepts_route_again {binding : RouteBinding} (h : w.Accepts (.route binding)) :
    (Call.after w (.route binding)).Accepts (.route binding) := ⟨rfl, h.2⟩

theorem accepts_iterate_lay_route {binding : RouteBinding} {s : Writers × Texts}
    (h : s.1.Accepts (.route binding)) (n : Nat) :
    ((Call.lay (.route binding))^[n] s).1.Accepts (.route binding) := by
  induction n with
  | zero => exact h
  | succ n ih =>
    rw [Function.iterate_succ_apply']
    exact accepts_route_again ih

theorem layAll_replicate (call : Call) (n : Nat) (s : Writers × Texts) :
    Call.layAll (List.replicate n call) s = call.lay^[n] s := by
  induction n generalizing s with
  | zero => rfl
  | succ n ih => exact ih (call.lay s)

/-- A handler is written once more for each refusal. -/
theorem Retried.route {binding : RouteBinding} (haccepts : w.Accepts (.route binding))
    (h : Retried sink.journaled (.route binding) w (v, journal) n outcome w' x') :
    outcome = .ok () ∧ w'.ledger x'.2.text =
      Call.layAll (List.replicate (n + 1) (.route binding)) (w.ledger journal.text) := by
  have hbare : w.bare.Accepts (.route binding) := accepts_bare.mpr haccepts
  have hleft : Call.left (.route binding) = Call.lay (.route binding) :=
    funext (Call.left_eq_lay rfl)
  obtain ⟨hok, hledger⟩ := h.of_accepts_again fun m => by
    rw [hleft]
    exact accepts_iterate_lay_route hbare m
  refine ⟨hok, hledger.trans ?_⟩
  rw [hleft, layAll_replicate, Function.iterate_succ_apply']

/-! ### Export sections -/

theorem join_replicate_succ (n : Nat) (text : String) :
    String.join (List.replicate (n + 1) text) = String.join (List.replicate n text) ++ text := by
  rw [List.replicate_succ', String.join_append, String.join_cons, String.join_nil,
    String.append_empty]

theorem join_replicate_append (n : Nat) (text : String) :
    String.join (List.replicate n text) ++ text = text ++ String.join (List.replicate n text) := by
  rw [← join_replicate_succ, List.replicate_succ, String.join_cons]

/-- An export section whose text is refused leaves its text and nothing else. -/
theorem iterate_left_close {artifact : Artifact} (haccepts : w.Accepts (.close artifact))
    (texts : Texts) (n : Nat) :
    (Call.left (.close artifact))^[n] (w.ledger texts) =
      (w.bare, Texts.extend (w.laid texts) artifact
        (String.join (List.replicate n (w.bare.exports artifact)))) := by
  have hbuffer : w.bare.buffers artifact = ⟨.opened, ""⟩ := congrArg (Buffer.mk · "") haccepts.1
  have hsame : w.bare.setBuffer artifact ⟨.opened, ""⟩ = w.bare := by
    rw [← hbuffer, setBuffer_self]
  induction n with
  | zero => exact Prod.ext rfl (Texts.extend_empty _ _).symm
  | succ n ih =>
    rw [Function.iterate_succ_apply', ih, Call.left]
    refine Prod.ext hsame ((Texts.extend_extend _ _ _ _).trans ?_)
    rw [join_replicate_succ]
    rfl

/-- An export section is written once more for each refusal. -/
theorem Retried.close {artifact : Artifact} (haccepts : w.Accepts (.close artifact))
    (h : Retried sink.journaled (.close artifact) w (v, journal) n outcome w' x') :
    outcome = .ok () ∧ w'.ledger x'.2.text = exportAgain (Call.extraExports (.close artifact) n)
      (Call.lay (.close artifact) (w.ledger journal.text)) := by
  obtain ⟨hok, hledger⟩ := h.of_accepts_again fun m => by
    rw [iterate_left_close haccepts]
    exact accepts_bare.mpr haccepts
  refine ⟨hok, hledger.trans ?_⟩
  rw [iterate_left_close haccepts]
  have hexports : (Call.after w.bare (.close artifact)).exports artifact =
      w.bare.exports artifact := by
    cases artifact <;> rfl
  refine Prod.ext rfl (funext fun other => ?_)
  simp only [exportAgain, Call.lay, Call.extraExports, Call.artifact, Call.piece, Texts.extend,
    ledger]
  split
  · next hother =>
    -- the section that was written first stands before the refused ones
    rw [hother, hexports, String.append_assoc, String.append_assoc, join_replicate_append]
  · rw [List.replicate_zero, String.join_nil, String.append_empty]

@[simp]
theorem exportAgain_zero (s : Writers × Texts) : exportAgain (fun _ => 0) s = s := by
  simp [exportAgain]

/-- What a call that is accepted leaves after so many refusals. -/
theorem Retried.ledger_eq (haccepts : w.Accepts call)
    (h : Retried sink.journaled call w (v, journal) n outcome w' x') :
    outcome = call.outcome n ∧ w'.ledger x'.2.text = exportAgain (call.extraExports n)
      (Call.layAll (call.repeated n) (w.ledger journal.text)) := by
  cases call with
  | begin artifact => exact (h.begin haccepts).imp_right (·.trans (exportAgain_zero _).symm)
  | pipes chain => exact (h.pipes haccepts).imp_right (·.trans (exportAgain_zero _).symm)
  | query q => exact (h.query haccepts).imp_right (·.trans (exportAgain_zero _).symm)
  | route binding => exact (h.route haccepts).imp_right (·.trans (exportAgain_zero _).symm)
  | close artifact => exact h.close haccepts

end Single

/-! ## Calls one after the other -/

section Several

variable {sink : Sink (StateM ω)} {call : Call} {w w' : Writers}
  {outcomes : List (Except GenerationError Unit)}

@[simp]
theorem phase_after (w : Writers) (call : Call) (artifact : Artifact) :
    (call.after w).phase artifact =
      if artifact = call.artifact then call.phaseAfter else w.phase artifact := by
  simp only [phase, Call.after, buffers_setBuffer, buffers_noted]
  split <;> rfl

/-- The export section of an artifact is made of what is written to it. -/
theorem exports_after {artifact : Artifact} (h : artifact ≠ call.artifact) :
    (call.after w).exports artifact = w.exports artifact := by
  cases call with
  | begin _ => cases artifact <;> rfl
  | close _ => cases artifact <;> rfl
  | pipes chain =>
    have hnames : (Call.after w (.pipes chain)).registry.names .query =
        w.registry.names .query := by
      simp [Call.after, Call.noted, Registry.names_append, Registry.names_map_of_ne]
    cases artifact with
    | pipeModules => exact absurd rfl h
    | query => exact congrArg queryExports hnames
    | routes => rfl
  | query q =>
    have hnames : (Call.after w (.query q)).registry.names .pipeModule =
        w.registry.names .pipeModule :=
      (Registry.names_append w.registry.entries [(.query, q.name)] .pipeModule).trans
        (List.append_nil _)
    cases artifact with
    | pipeModules => exact congrArg pipeExports hnames
    | query => exact absurd rfl h
    | routes => rfl
  | route binding =>
    cases artifact with
    | routes => exact absurd rfl h
    | _ => rfl

theorem mem_repeated {other : Call} {n : Nat} (h : other ∈ call.repeated n) : other = call := by
  cases call with
  | route binding => exact List.eq_of_mem_replicate h
  | _ => exact List.mem_singleton.mp h

/-- More export sections of an artifact stay behind what is written to the others. -/
theorem lay_exportAgain {extra : Artifact → Nat} (h : extra call.artifact = 0)
    (s : Writers × Texts) :
    call.lay (exportAgain extra s) = exportAgain extra (call.lay s) := by
  refine Prod.ext rfl (funext fun artifact => ?_)
  simp only [exportAgain, Call.lay, Texts.extend]
  split
  · next hartifact =>
    rw [hartifact, h, List.replicate_zero, List.replicate_zero, String.join_nil,
      String.append_empty, String.append_empty]
  · next hartifact => rw [exports_after hartifact]

theorem layAll_exportAgain {calls : List Call} {extra : Artifact → Nat}
    (h : ∀ call ∈ calls, extra call.artifact = 0) (s : Writers × Texts) :
    Call.layAll calls (exportAgain extra s) = exportAgain extra (Call.layAll calls s) := by
  induction calls generalizing s with
  | nil => rfl
  | cons call rest ih =>
    obtain ⟨hcall, hrest⟩ := List.forall_mem_cons.mp h
    rw [Call.layAll, List.foldl_cons, lay_exportAgain hcall]
    exact ih hrest (call.lay s)

theorem exportAgain_exportAgain (extra more : Artifact → Nat) (s : Writers × Texts) :
    exportAgain more (exportAgain extra s) = exportAgain (fun a => extra a + more a) s := by
  refine Prod.ext rfl (funext fun artifact => ?_)
  simp only [exportAgain]
  rw [List.replicate_add, String.join_append, String.append_assoc]

theorem phase_layAll {calls : List Call} {artifact : Artifact}
    (h : ∀ call ∈ calls, artifact ≠ call.artifact) (s : Writers × Texts) :
    (Call.layAll calls s).1.phase artifact = s.1.phase artifact := by
  induction calls generalizing s with
  | nil => rfl
  | cons call rest ih =>
    obtain ⟨hcall, hrest⟩ := List.forall_mem_cons.mp h
    have hlay : (call.lay s).1.phase artifact = s.1.phase artifact :=
      (phase_after s.1 call artifact).trans (if_neg hcall)
    exact (ih hrest (call.lay s)).trans hlay

theorem acceptsAll_append {xs ys : List Call} {s : Writers × Texts} :
    AcceptsAll (xs ++ ys) s.1 ↔ AcceptsAll xs s.1 ∧ AcceptsAll ys (Call.layAll xs s).1 := by
  induction xs generalizing s with
  | nil => exact ⟨fun h => ⟨trivial, h⟩, And.right⟩
  | cons call rest ih => exact (and_congr_right' (@ih (call.lay s))).trans and_assoc.symm

theorem Accepts.phase_ne (h : w.Accepts call) : w.phase call.artifact ≠ .sealed := by
  intro hsealed
  cases call with
  | begin _ => cases hsealed.symm.trans h
  | _ => cases hsealed.symm.trans h.1

/-- Where a call leaves more export sections, its artifact is closed. -/
theorem phase_of_extraExports {n : Nat} {artifact : Artifact} (h : call.extraExports n artifact ≠ 0)
    (s : Writers × Texts) : (Call.layAll (call.repeated n) s).1.phase artifact = .sealed := by
  cases call with
  | close other =>
    have hother : artifact = other := by
      by_contra hne
      exact h (if_neg hne)
    exact (phase_after s.1 (.close other) artifact).trans (if_pos hother)
  | _ => exact absurd rfl h

/-- What calls leave that are made again until they end otherwise. Artifacts that have more than
their own export section are closed, so that nothing else follows there. -/
theorem RetriedAll.ledger_eq {tries : List (Call × Nat)} {x x' : ω × Journal}
    {extra : Artifact → Nat} {s : Writers × Texts} (haccepts : AcceptsAll (repeatedAll tries) s.1)
    (hledger : w.ledger x.2.text = exportAgain extra s)
    (hsealed : ∀ artifact, extra artifact ≠ 0 → s.1.phase artifact = .sealed)
    (h : RetriedAll sink.journaled tries w x outcomes w' x') :
    outcomes = tries.map (fun tried => tried.1.outcome tried.2) ∧
      w'.ledger x'.2.text = exportAgain (fun a => extra a + extraExportsAll tries a)
        (Call.layAll (repeatedAll tries) s) := by
  induction tries generalizing w x extra s outcomes with
  | nil =>
    cases h
    exact ⟨rfl, hledger⟩
  | cons tried rest ih =>
    cases h with
    | @cons call n _ _ w₁ _ _ x₁ _ outcome outcomes hcall hrest =>
    rw [repeatedAll, List.flatMap_cons, acceptsAll_append] at haccepts
    have hbare : w.bare = s.1 := congrArg Prod.fst hledger
    have hfirst : s.1.Accepts call := by
      have hhead := haccepts.1
      cases call <;> exact hhead.1
    have hnone : extra call.artifact = 0 := by
      by_contra hne
      exact hfirst.phase_ne (hsealed _ hne)
    obtain ⟨houtcome, hafter⟩ := hcall.ledger_eq (accepts_bare.mp (hbare ▸ hfirst))
    rw [hledger, layAll_exportAgain (fun other hother => mem_repeated hother ▸ hnone),
      exportAgain_exportAgain] at hafter
    have hsealed' : ∀ artifact, extra artifact + call.extraExports n artifact ≠ 0 →
        (Call.layAll (call.repeated n) s).1.phase artifact = .sealed := by
      intro artifact hne
      by_cases hextra : extra artifact = 0
      · exact phase_of_extraExports (by omega) s
      · have hother : artifact ≠ call.artifact := fun hsame => hextra (hsame ▸ hnone)
        rw [phase_layAll fun other hmem => mem_repeated hmem ▸ hother]
        exact hsealed artifact hextra
    obtain ⟨houtcomes, hlast⟩ := ih haccepts.2 hafter hsealed' hrest
    refine ⟨by rw [houtcome, houtcomes]; rfl, hlast.trans ?_⟩
    simp only [extraExportsAll, repeatedAll, List.map_cons, List.sum_cons, List.flatMap_cons,
      Nat.add_assoc, Call.layAll_append]

/-- Only a call that is accepted returns. -/
theorem Retried.accepts_of_ok {n : Nat} {x x' : ω × Journal}
    (h : Retried sink.journaled call w x n (.ok ()) w' x') : w.Accepts call := by
  by_contra hrefused
  obtain ⟨e, w₁, hperform, he⟩ := perform_of_not_accepts sink.journaled hrefused x
  cases h with
  | ended hended _ =>
    rw [hperform] at hended
    cases hended
  | again hagain _ =>
    rw [hperform] at hagain
    cases hagain
    exact he _ rfl

/-- Nothing waits for an artifact after a call that returns. -/
theorem Retried.pending_of_ok {n : Nat} {x x' : ω × Journal}
    (hothers : ∀ artifact, artifact ≠ call.artifact → w.pending artifact = "")
    (h : Retried sink.journaled call w x n (.ok ()) w' x') (artifact : Artifact) :
    w'.pending artifact = "" := by
  induction n generalizing w x with
  | zero =>
    obtain ⟨-, hafter, -⟩ := h.end_of_accepts h.accepts_of_ok
    rw [hafter, Call.after, pending_setBuffer, pending_noted]
    split
    · rfl
    · next hother => exact hothers artifact hother
  | succ n ih =>
    obtain ⟨v₁, hagain⟩ := h.again_of_accepts h.accepts_of_ok
    refine ih (fun other hother => ?_) hagain
    rw [Call.waiting, pending_setBuffer, if_neg hother, pending_noted]
    exact hothers other hother

/-- Nothing waits at the end if each call returned in the end. -/
theorem RetriedAll.pending_of_ok {tries : List (Call × Nat)} {x x' : ω × Journal}
    (hpending : ∀ artifact, w.pending artifact = "") (hok : ∀ outcome ∈ outcomes, outcome = .ok ())
    (h : RetriedAll sink.journaled tries w x outcomes w' x') (artifact : Artifact) :
    w'.pending artifact = "" := by
  induction tries generalizing w x outcomes with
  | nil =>
    cases h
    exact hpending artifact
  | cons tried rest ih =>
    cases h with
    | cons hcall hrest =>
    obtain ⟨rfl, hoks⟩ := List.forall_mem_cons.mp hok
    exact ih (hcall.pending_of_ok fun other _ => hpending other) hoks hrest

/-- Calls end that are made again on a sink that does not refuse for ever. -/
theorem exists_retried (hsink : WellFounded fun later before => sink.Refuses before later)
    (call : Call) (w : Writers) (v : ω) (journal : Journal) :
    ∃ n outcome w' x', Retried sink.journaled call w (v, journal) n outcome w' x' := by
  induction v using hsink.induction generalizing w with
  | _ v ih =>
  by_cases haccepts : w.Accepts call
  · rcases perform_journaled sink haccepts v journal with
      ⟨v', journal', hperform, -⟩ | ⟨cause, v₁, hperform, hrefuses⟩
    · exact ⟨0, _, _, _, .ended hperform nofun⟩
    · obtain ⟨n, outcome, w', x', hagain⟩ := ih v₁ hrefuses (call.waiting w)
      exact ⟨n + 1, outcome, w', x', .again hperform hagain⟩
  · obtain ⟨e, w₁, hperform, he⟩ :=
      perform_of_not_accepts sink.journaled haccepts (v, journal)
    exact ⟨0, _, _, _, .ended hperform fun cause hcause => he cause (Except.error.inj hcause)⟩

theorem exists_retriedAll (hsink : WellFounded fun later before => sink.Refuses before later)
    (calls : List Call) (w : Writers) (x : ω × Journal) :
    ∃ tries outcomes w' x', tries.map Prod.fst = calls ∧
      RetriedAll sink.journaled tries w x outcomes w' x' := by
  induction calls generalizing w x with
  | nil => exact ⟨[], [], w, x, rfl, .nil⟩
  | cons call rest ih =>
    obtain ⟨n, outcome, w₁, x₁, hcall⟩ := exists_retried hsink call w x.1 x.2
    obtain ⟨tries, outcomes, w', x', hcalls, hrest⟩ := ih w₁ x₁
    exact ⟨(call, n) :: tries, outcome :: outcomes, w', x', by rw [List.map_cons, hcalls],
      .cons hcall hrest⟩

end Several

end Writers

end LinkedApi
