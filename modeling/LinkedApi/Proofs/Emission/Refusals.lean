import LinkedApi.Proofs.Emission.Journaled
import LinkedApi.Proofs.Emission.Layout

/-!
# Refused entities

The writers of queries and routes check an entity before they note anything of it, so that nothing
is left of one that they refuse. The writer of the pipe modules checks a chain as a whole and then
each module by itself. What stands in the chain before a module that it refuses stays defined.
-/

namespace LinkedApi

open Steps Text

variable {ω : Type} {sink : Sink (StateM ω)} {w w' : Writers} {v v' : ω} {e : GenerationError}

namespace Writers

/-- Only the sink can refuse a text that is delivered. -/
theorem deliver_ne (he : ∀ cause, e ≠ .file cause) (artifact : Artifact) (text : String)
    (phase : Phase) : deliver sink artifact text phase w v ≠ ((.error e, w'), v') := by
  intro h
  unfold deliver at h
  split at h
  · cases h
  · cases h
    exact he _ rfl

/-- A query that the writer refuses leaves everything as it was. -/
theorem emitQuery_refused (he : ∀ cause, e ≠ .file cause) {query : Query}
    (h : emitQuery sink query w v = ((.error e, w'), v')) : w' = w ∧ v' = v := by
  rw [emitQuery_apply] at h
  split_ifs at h
  · cases h
    exact ⟨rfl, rfl⟩
  · cases h
    exact ⟨rfl, rfl⟩
  · cases h
    exact ⟨rfl, rfl⟩
  · exact absurd h (deliver_ne he _ _ _)

/-- A route that the writer refuses leaves everything as it was. -/
theorem emitRoute_refused (he : ∀ cause, e ≠ .file cause) {binding : RouteBinding}
    (h : emitRoute sink binding w v = ((.error e, w'), v')) : w' = w ∧ v' = v := by
  rw [emitRoute_apply] at h
  split at h
  · cases h
    exact ⟨rfl, rfl⟩
  split at h
  · cases h
    exact ⟨rfl, rfl⟩
  · cases h
    exact ⟨rfl, rfl⟩
  · exact absurd h (deliver_ne he _ _ _)

/-! ## Chains -/

/-- Whether a pipe module that is not defined may be. -/
def accepts (w : Writers) (pipe : PipeModule) : Bool :=
  isIdentifier pipe.name && !w.registry.contains .pipeModule pipe.name

/-- The pipe modules of a chain that are defined before one is refused. None is where the writer is
not open or the chain as a whole is refused. -/
def definedBefore (w : Writers) (chain : List PipeModule) : List PipeModule :=
  if w.phase .pipeModules = .opened then
    match PipeModules.undefinedOf w.defined [] chain with
    | .ok fresh => fresh.takeWhile w.accepts
    | .error _ => []
  else []

theorem accepts_withPipe {pipe other : PipeModule} (h : other.name ≠ pipe.name) :
    (w.withPipe pipe).accepts other = w.accepts other := by
  have hregistered : (w.withPipe pipe).registry.contains .pipeModule other.name =
      w.registry.contains .pipeModule other.name := by
    apply Bool.eq_iff_iff.mpr
    exact (Registry.contains_append _ _ _ _ _).trans (or_iff_left fun hsame => h hsame.2)
  rw [accepts, accepts, hregistered]

/-- Whether a pipe module is accepted does not depend on others that were defined before it. -/
theorem takeWhile_accepts_withPipe {pipe : PipeModule} {rest : List PipeModule}
    (h : pipe.name ∉ rest.map (·.name)) :
    rest.takeWhile (w.withPipe pipe).accepts = rest.takeWhile w.accepts := by
  induction rest with
  | nil => rfl
  | cons other rest ih =>
    rw [List.map_cons, List.mem_cons, not_or] at h
    rw [List.takeWhile_cons, List.takeWhile_cons, accepts_withPipe (Ne.symm h.1), ih h.2]

/-- Of modules with distinct names those up to the first that is refused are defined. -/
theorem definedBy_error {fresh : List PipeModule} (hnodup : (fresh.map (·.name)).Nodup)
    (h : definedBy fresh w = (.error e, w')) : w' = w.withPipes (fresh.takeWhile w.accepts) := by
  induction fresh generalizing w with
  | nil => cases h
  | cons pipe rest ih =>
    rw [List.map_cons, List.nodup_cons] at hnodup
    rw [definedBy] at h
    split at h
    · next hname =>
      cases h
      rw [List.takeWhile_cons_of_neg (by simp [accepts, hname]), withPipes_nil]
    split at h
    · next hknown =>
      cases h
      rw [List.takeWhile_cons_of_neg (by simp [accepts, hknown]), withPipes_nil]
    · next hname hnew =>
      have haccepts : w.accepts pipe = true := by
        simp only [accepts, Bool.and_eq_true, Bool.not_eq_true']
        exact ⟨Bool.eq_true_of_not_eq_false hname, Bool.eq_false_of_not_eq_true hnew⟩
      rw [List.takeWhile_cons_of_pos haccepts, withPipes_cons, ih hnodup.2 h,
        takeWhile_accepts_withPipe hnodup.1]

/-- A chain that is refused leaves the modules before the refused one, and no others. -/
theorem emitPipes_refused (he : ∀ cause, e ≠ .file cause) {chain : List PipeModule}
    (h : emitPipes sink chain w v = ((.error e, w'), v')) :
    v' = v ∧ { w' with chain := w.chain } = w.withPipes (w.definedBefore chain) := by
  rw [emitPipes_apply] at h
  split at h
  · next hopen =>
    cases h
    rw [definedBefore, if_neg hopen, withPipes_nil]
    exact ⟨rfl, rfl⟩
  next hopen =>
  -- from here on the last chain is forgotten, also where this one is refused
  rw [definedBefore, if_pos (not_not.mp hopen)]
  split at h
  · next hrefused =>
    cases h
    rw [hrefused]
    exact ⟨rfl, (withPipes_nil w).symm⟩
  · next fresh hfresh =>
    rw [hfresh]
    split at h
    · next hdefined =>
      cases h
      rw [definedBy_error (nodup_undefinedOf hfresh) hdefined]
      exact ⟨rfl, rfl⟩
    · exact absurd h (deliver_ne he _ _ _)

/-- Every module that is defined leaves its name in the registry. -/
@[simp]
theorem withPipes_eq_self_iff {pipes : List PipeModule} :
    w.withPipes pipes = w ↔ pipes = [] := by
  refine ⟨fun h => ?_, fun h => h ▸ withPipes_nil w⟩
  have hentries := congrArg (·.registry.entries) h
  exact List.map_eq_nil_iff.mp (List.append_right_eq_self.mp hentries)

/-- A query or a route that is refused for anything but an append leaves the writers and the world
as they were. A chain that is refused leaves the world as it was. Of the writers, apart from the
names of the chain that was written last, exactly the modules before the refused one are defined, so
that there is no trace of the chain exactly when none stands there. -/
theorem refused_entities (sink : Sink (StateM ω)) (w w' : Writers) (v v' : ω) (e : GenerationError)
    (he : ∀ cause, e ≠ .file cause) :
    (∀ query, emitQuery sink query w v = ((.error e, w'), v') → w' = w ∧ v' = v) ∧
    (∀ binding, emitRoute sink binding w v = ((.error e, w'), v') → w' = w ∧ v' = v) ∧
    ∀ chain, emitPipes sink chain w v = ((.error e, w'), v') →
      v' = v ∧ { w' with chain := w.chain } = w.withPipes (w.definedBefore chain) ∧
      ({ w' with chain := w.chain } = w ↔ w.definedBefore chain = []) := by
  refine ⟨fun _ => emitQuery_refused he, fun _ => emitRoute_refused he, ?_⟩
  intro chain h
  obtain ⟨hworld, hwriters⟩ := emitPipes_refused he h
  refine ⟨hworld, hwriters, ?_⟩
  rw [hwriters]
  exact withPipes_eq_self_iff

def begun : Writers := (fresh []).setBuffer .pipeModules ⟨.opened, ""⟩

@[simp]
theorem phase_begun : begun.phase .pipeModules = .opened := rfl

theorem beginPipes_begun : beginPipes Sink.accepting (fresh []) () = ((.ok (), begun), ()) := by
  have hfresh : (fresh []).phase .pipeModules = .fresh := rfl
  have hheader : (fresh []).pending .pipeModules ++ PipeModules.header ≠ "" := by decide
  rw [beginPipes, writeHeader_apply, if_pos hfresh, deliver, Sink.offer, if_neg hheader]
  rfl

theorem emitPipes_begun {chain : List PipeModule} {what : GenerationError}
    (hfresh : PipeModules.undefinedOf [] [] chain = .ok chain)
    (h : definedBy chain begun = (.error what, w')) :
    emitPipes Sink.accepting chain begun () = ((.error what, w'), ()) := by
  have hundefined : PipeModules.undefinedOf begun.defined [] chain = .ok chain := hfresh
  have hdefined : definedBy chain { begun with chain := [] } = (.error what, w') := h
  rw [emitPipes_apply, if_neg (not_not_intro phase_begun), hundefined]
  dsimp only
  rw [hdefined]

/-- The first module of a chain stays defined when the second is refused for its name. -/
theorem refused_chain_leaves_first :
    let chain : List PipeModule :=
      [⟨"a", "http://x/a.js", "(d) => d"⟩, ⟨"not-valid", "http://x/b.js", "(d) => d"⟩]
    beginPipes Sink.accepting (fresh []) () = ((.ok (), begun), ()) ∧
      ∃ w', emitPipes Sink.accepting chain begun () =
          ((.error (.template (.invalidIdentifier "not-valid")), w'), ()) ∧
        begun.registry.names .pipeModule = [] ∧ w'.registry.names .pipeModule = ["a"] := by
  intro chain
  have hfirst : ¬isIdentifier "a" = false := by decide +kernel
  have hsecond : isIdentifier "not-valid" = false := by decide +kernel
  have hnew : ¬begun.registry.contains .pipeModule "a" = true := by decide
  have hdefined : definedBy chain begun =
      (.error (.template (.invalidIdentifier "not-valid")),
        begun.withPipe ⟨"a", "http://x/a.js", "(d) => d"⟩) := by
    rw [definedBy, if_neg hfirst, if_neg hnew, definedBy, if_pos hsecond]
  exact ⟨beginPipes_begun, _, emitPipes_begun rfl hdefined, rfl, rfl⟩

/-- Nothing is left of the same chain the other way round. -/
theorem refused_entities_of_first :
    let chain : List PipeModule :=
      [⟨"not-valid", "http://x/b.js", "(d) => d"⟩, ⟨"a", "http://x/a.js", "(d) => d"⟩]
    ∃ w', emitPipes Sink.accepting chain begun () =
        ((.error (.template (.invalidIdentifier "not-valid")), w'), ()) ∧
      { w' with chain := begun.chain } = begun := by
  intro chain
  have hfirst : isIdentifier "not-valid" = false := by decide +kernel
  have hdefined : definedBy chain begun =
      (.error (.template (.invalidIdentifier "not-valid")), begun) := by
    rw [definedBy, if_pos hfirst]
  have hemit := emitPipes_begun rfl hdefined
  have hundefined : PipeModules.undefinedOf begun.defined [] chain = .ok chain := by rfl
  have hnone : begun.definedBefore chain = [] := by
    rw [definedBefore, if_pos phase_begun, hundefined]
    exact List.takeWhile_cons_of_neg (by simp [accepts, hfirst])
  have hcause : ∀ cause, GenerationError.template (.invalidIdentifier "not-valid") ≠ .file cause := by
    intro cause h
    cases h
  refine ⟨begun, hemit, ?_⟩
  exact ((refused_entities .accepting begun begun () () _ hcause).2.2 chain hemit).2.2.mpr hnone

end Writers

end LinkedApi
