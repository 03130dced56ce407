import LinkedApi.Proofs.Compilation.Completeness
import LinkedApi.Proofs.Emission.Journaled
import LinkedApi.Proofs.Emission.World

/-!
# Fetches that fail

When the code of a chain cannot be fetched, nothing has been written for its operation. What has
been appended by then is the layout of the operations before it, without export sections, which is
also how the run begins in which this fetch succeeds. The emission is as it was before the call, so
that the call may be repeated.
-/

namespace LinkedApi

open Steps

variable {ω : Type}

/-! ## What has been noted -/

theorem Sink.journaled_keeps (sink : Sink (StateM ω)) (journal : Journal) :
    sink.journaled.Keeps fun v => journal <+: v.2 := by
  rintro artifact text ⟨v, now⟩ h
  simp only [Sink.journaled]
  rcases sink.append artifact text v with ⟨cause | _, v'⟩
  · exact h
  · exact h.trans (List.prefix_append now _)

theorem Transport.journaled_keeps (transport : Transport (StateM ω)) (journal : Journal) :
    transport.journaled.Keeps fun v => journal <+: v.2 := fun _ _ => id

/-! ## Transports that fetch more -/

/-- Whatever one transport loads, the other loads as well, and with the same effect. -/
def Transport.Recovers (transport recovered : Transport (StateM ω)) : Prop :=
  ∀ refs v chain v', Loading.load transport refs v = (.ok chain, v') →
    Loading.load recovered refs v = (.ok chain, v')

theorem Transport.Recovers.journaled {transport recovered : Transport (StateM ω)}
    (h : transport.Recovers recovered) : transport.journaled.Recovers recovered.journaled := by
  rintro refs ⟨v, journal⟩ chain v' hload
  rw [Loading.load_journaled] at hload ⊢
  obtain ⟨hloaded, rfl⟩ := Prod.mk.inj hload
  rw [h refs v chain _ (Prod.ext hloaded rfl)]

/-- A chain that is assembled is assembled alike from fetches of which more succeed. -/
theorem Loading.assemble_recovered {fetch fetch' : String → Fetched}
    (h : ∀ location body, fetch location = .ok body → fetch' location = .ok body)
    {refs : List PipeReference} {chain : List PipeModule}
    (hchain : assemble (refs.map fun r => (r, fetch r.source)) = .ok chain) :
    assemble (refs.map fun r => (r, fetch' r.source)) = .ok chain := by
  have hloads := (assemble_ok hchain).1
  have hsame : (refs.map fun r => (r, fetch' r.source)) =
      refs.map fun r => (r, fetch r.source) := by
    refine List.map_congr_left fun r hr => ?_
    obtain ⟨body, hbody⟩ := hloads r hr
    rw [hbody, h _ _ hbody]
  rwa [hsame]

/-- A transport recovers another when it finds at least the same texts. -/
theorem Transport.each_recovers {fetch fetch' : String → Fetched}
    (h : ∀ location body, fetch location = .ok body → fetch' location = .ok body)
    (name name' : String) :
    (Transport.each name fun location => (pure (fetch location) : StateM ω Fetched)).Recovers
      (Transport.each name' fun location => pure (fetch' location)) := by
  intro refs v chain v' hload
  rw [Loading.load_each] at hload ⊢
  obtain ⟨hchain, rfl⟩ := Prod.mk.inj hload
  rw [Loading.assemble_recovered h hchain]

namespace Emission

variable {sink : Sink (StateM ω)} {transport recovered : Transport (StateM ω)}

theorem gathered_recovered (h : transport.Recovers recovered) {op : Operation} {v v' : ω}
    {found : Declaration × List PipeModule}
    (hgathered : gathered transport op v = (.ok found, v')) :
    gathered recovered op v = (.ok found, v') := by
  unfold gathered at hgathered ⊢
  cases hd : op.declaration with
  | error cause =>
    rw [hd] at hgathered
    cases hgathered
  | ok declaration =>
    rw [hd] at hgathered
    dsimp only at hgathered ⊢
    rcases hload : Loading.load transport declaration.pipes v with ⟨cause | chain, v₁⟩
    · rw [hload] at hgathered
      cases hgathered
    · rw [hload] at hgathered
      rw [h _ _ _ _ hload]
      exact hgathered

/-- An operation that is emitted is emitted alike when more can be loaded. -/
theorem emit_recovered (h : transport.Recovers recovered) {op : Operation} {e e' : Emission}
    {v v' : ω} (hemit : emit sink transport op e v = ((.ok (), e'), v')) :
    emit sink recovered op e v = ((.ok (), e'), v') := by
  rw [emit_apply] at hemit ⊢
  by_cases hstage : e.stage = .emitting
  · rw [if_pos hstage] at hemit ⊢
    rcases hgathered : gathered transport op v with ⟨cause | found, v₁⟩
    · rw [hgathered] at hemit
      cases hemit
    · rw [hgathered] at hemit
      rw [gathered_recovered h hgathered]
      exact hemit
  · rw [if_neg hstage] at hemit
    cases hemit

theorem emitAll_recovered (h : transport.Recovers recovered) {ops : List Operation}
    {e e' : Emission} {v v' : ω} (hemit : emitAll sink transport ops e v = ((.ok (), e'), v')) :
    emitAll sink recovered ops e v = ((.ok (), e'), v') := by
  induction ops generalizing e v with
  | nil => exact hemit
  | cons op rest ih =>
    rw [emitAll, bind_apply] at hemit ⊢
    rcases hfirst : emit sink transport op e v with ⟨⟨cause | ⟨⟩, e₁⟩, v₁⟩
    · rw [hfirst] at hemit
      cases hemit
    · rw [hfirst] at hemit
      rw [emit_recovered h hfirst]
      exact ih hemit

/-! ## Where a run stops -/

/-- Operations may be emitted in two goes. -/
theorem emitAll_append {before : List Operation} {e e₁ : Emission} {v v₁ : ω}
    (h : emitAll sink transport before e v = ((.ok (), e₁), v₁)) (after : List Operation) :
    emitAll sink transport (before ++ after) e v = emitAll sink transport after e₁ v₁ := by
  induction before generalizing e v with
  | nil =>
    cases h
    rfl
  | cons op rest ih =>
    rw [emitAll, bind_apply] at h
    rw [List.cons_append, emitAll, bind_apply]
    rcases hfirst : emit sink transport op e v with ⟨⟨cause | ⟨⟩, e'⟩, v'⟩
    · rw [hfirst] at h
      cases h
    · rw [hfirst] at h
      exact ih h

/-- Operations fail at one of them, and those before it have been emitted. -/
theorem emitAll_error {ops : List Operation} {e e' : Emission} {v v' : ω} {cause : CompileError}
    (h : emitAll sink transport ops e v = ((.error cause, e'), v')) :
    ∃ before op after e₁ v₁, ops = before ++ op :: after ∧
      emitAll sink transport before e v = ((.ok (), e₁), v₁) ∧
      emit sink transport op e₁ v₁ = ((.error cause, e'), v') := by
  induction ops generalizing e v with
  | nil => cases h
  | cons op rest ih =>
    rw [emitAll, bind_apply] at h
    rcases hfirst : emit sink transport op e v with ⟨⟨cause' | ⟨⟩, e₂⟩, v₂⟩
    · rw [hfirst] at h
      cases h
      exact ⟨[], op, rest, e, v, rfl, rfl, hfirst⟩
    · rw [hfirst] at h
      obtain ⟨before, op', after, e₁, v₁, rfl, hbefore, hfails⟩ := ih h
      refine ⟨op :: before, op', after, e₁, v₁, rfl, ?_, hfails⟩
      rw [emitAll, bind_apply, hfirst]
      exact hbefore

end Emission

/-- A failure of what comes before anything is written for an operation. -/
def CompileError.IsBeforeWriting (e : CompileError) : Prop :=
  (∃ cause, e = .extraction cause) ∨ ∃ cause, e = .loading cause

namespace Emission

variable {sink : Sink (StateM ω)} {transport recovered : Transport (StateM ω)}

/-- An operation that fails before anything is written for it leaves the emission as it was, and the
world as it is once the operation has been looked at and its chain has been asked for. -/
theorem emit_error {op : Operation} {e e' : Emission} {v v' : ω} {cause : CompileError}
    (h : emit sink transport op e v = ((.error cause, e'), v')) (hcause : cause.IsBeforeWriting) :
    e' = e ∧ e.stage = .emitting ∧ gathered transport op v = (.error cause, v') := by
  rw [emit_apply] at h
  by_cases hstage : e.stage = .emitting
  · rw [if_pos hstage] at h
    rcases hgathered : gathered transport op v with ⟨cause' | ⟨declaration, chain⟩, v₁⟩
    · rw [hgathered] at h
      cases h
      exact ⟨rfl, hstage, rfl⟩
    · -- a failure of the writers is one of generation
      rw [hgathered] at h
      dsimp only at h
      rw [write_apply] at h
      have hwriting := congrArg (·.1.1) h
      dsimp only at hwriting
      rcases hrun : (Writers.emitAll sink declaration chain e.writers v₁).1.1 with reason | ⟨⟩
      · rw [hrun] at hwriting
        cases hwriting
        rcases hcause with ⟨_, hcause⟩ | ⟨_, hcause⟩ <;> cases hcause
      · rw [hrun] at hwriting
        cases hwriting
  · rw [if_neg hstage] at h
    cases h
    rcases hcause with ⟨_, hcause⟩ | ⟨_, hcause⟩ <;> cases hcause

theorem begin_ne_loading (e : Emission) (v : ω) (cause : LoadingError) :
    (begin sink e v).1.1 ≠ .error (.loading cause) := by
  rw [begin_apply]
  split
  · rcases Writers.beginAll sink e.writers v with ⟨⟨_ | ⟨⟩, w⟩, v'⟩ <;> nofun
  · nofun

theorem finish_ne_loading (e : Emission) (v : ω) (cause : LoadingError) :
    (finish sink e v).1.1 ≠ .error (.loading cause) := by
  rw [finish_apply]
  split
  · rcases Writers.closeAll sink e.writers v with ⟨⟨_ | ⟨⟩, w⟩, v'⟩ <;> nofun
  · nofun

/-- A run that cannot load a chain has written its headers and emitted the operations before the one
that declares the chain. -/
theorem run_error {spec : Specification} {e e' : Emission} {v v' : ω} {cause : LoadingError}
    (h : run sink transport spec e v = ((.error (.loading cause), e'), v')) :
    ∃ before op after e₀ v₀ v₁, spec.operations = before ++ op :: after ∧
      begin sink e v = ((.ok (), e₀), v₀) ∧
      emitAll sink transport before e₀ v₀ = ((.ok (), e'), v₁) ∧ e'.stage = .emitting ∧
      gathered transport op v₁ = (.error (.loading cause), v') := by
  rw [run, bind_apply] at h
  rcases hbegin : begin sink e v with ⟨⟨reason | ⟨⟩, e₀⟩, v₀⟩
  · rw [hbegin] at h
    cases h
    exact absurd (congrArg (·.1.1) hbegin) (begin_ne_loading e v cause)
  · rw [hbegin] at h
    dsimp only at h
    rw [bind_apply] at h
    rcases hall : emitAll sink transport spec.operations e₀ v₀ with ⟨⟨reason | ⟨⟩, e₂⟩, v₂⟩
    · rw [hall] at h
      cases h
      obtain ⟨before, op, after, e₁, v₁, hsplit, hbefore, hfails⟩ := emitAll_error hall
      obtain ⟨rfl, hstage, hgathered⟩ := emit_error hfails (.inr ⟨cause, rfl⟩)
      exact ⟨before, op, after, e₀, v₀, v₁, hsplit, rfl, hbefore, hstage, hgathered⟩
    · rw [hall] at h
      exact absurd (congrArg (·.1.1) h) (finish_ne_loading e₂ v₂ cause)

end Emission

/-! ## What has been written -/

namespace Emission

variable (sink : Sink (StateM ω)) (transport : Transport (StateM ω)) {spec : Specification}
  {sources : List DataSource} {ops : List Operation} {e e' : Emission} {v v' : ω × Journal}

/-- Once operations with coherent declarations are emitted after the headers, their layout has been
appended and nothing else. -/
theorem emitted_layout {ds : List Declaration}
    (hops : List.Forall₂ (fun op d => op.declaration = .ok d) ops ds) (hcoherent : Coherent ds)
    (hnone : v.2 = []) (hbegin : begin sink.journaled (idle sources) v = ((.ok (), e), v'))
    {v'' : ω × Journal}
    (hemit : emitAll sink.journaled transport.journaled ops e v' = ((.ok (), e'), v'')) :
    ∃ es : List Emitted, es.map (·.declaration) = ds ∧ (∀ e ∈ es, e.Sound transport.Loaded) ∧
      Reached (fun texts v => v.2.text = texts) sources es e' v'' := by
  have hempty : v.2.text = fun _ => "" := by
    rw [hnone]
    rfl
  have hfirst : After (fun _ => Reached (fun texts v => v.2.text = texts) sources [])
      (fun cause _ => Excused (fun texts v => v.2.text = texts) (fun _ => True) (fun _ => True) ds
        cause) (begin sink.journaled (idle sources) v) :=
    begin_reached sink.journaled_tracks (idle sources) v ⟨rfl, hempty⟩
  rw [hbegin] at hfirst
  have hcoherent' : Coherent (([] : List Emitted).map (·.declaration) ++ ds) := hcoherent
  have hemitted := emitAll_reached sink.journaled_tracks transport.journaled_tracks hops (by simp)
    hcoherent' (fun _ => id) e v' hfirst
  rw [hemit] at hemitted
  exact hemitted

/-- Once headers and some operations are written, what has been noted stays whatever comes next. -/
theorem run_journal {before after : List Operation} (hsplit : spec.operations = before ++ after)
    (hbegin : begin sink.journaled e v = ((.ok (), e'), v'))
    {e₁ : Emission} {v₁ : ω × Journal}
    (hbefore : emitAll sink.journaled transport.journaled before e' v' = ((.ok (), e₁), v₁)) :
    v₁.2 <+: (run sink.journaled transport.journaled spec e v).2.2 := by
  have hrun : run sink.journaled transport.journaled spec e v =
      (do emitAll sink.journaled transport.journaled after; finish sink.journaled) e₁ v₁ := by
    rw [run, bind_of_ok hbegin, bind_apply, bind_apply, hsplit, emitAll_append hbefore]
  have hsink := sink.journaled_keeps v₁.2
  have hafter := (emitAll_keeps hsink (transport.journaled_keeps v₁.2) after).bind
    fun _ => finish_keeps hsink
  rw [hrun]
  exact hafter e₁ v₁ List.prefix_rfl

/-- When a chain cannot be loaded, the layout of the operations before it has been appended and
nothing else, and a run in which all that was loaded is loaded again, and perhaps more, begins by
appending the same. An operation that fails before anything is written for it leaves the emission
and the artifacts as they were, so that it may be repeated. -/
theorem failed_load_leaves_layout :
    (∀ (spec : Specification) (sources : List DataSource) (v v' : ω) (e' : Emission)
      (cause : LoadingError) (journal : Journal), Compilation.checkedSources spec = .ok sources →
      run sink.journaled transport.journaled spec (idle sources) (v, []) =
        ((.error (.loading cause), e'), (v', journal)) →
      (∃ before op after es v₁, spec.operations = before ++ op :: after ∧
        List.Forall₂ (fun op e => op.declaration = .ok (Emitted.declaration e)) before es ∧
        (∀ e ∈ es, e.Sound transport.Loaded) ∧
        gathered transport op v₁ = (.error (.loading cause), v') ∧ e'.stage = .emitting ∧
        Written (Emitted.modules es) (es.map (·.declaration.query)) (es.map Emitted.binding)
          e'.writers ∧
        journal.text = layout sources (Emitted.modules es) (es.map (·.declaration.query))
          (es.map Emitted.binding)) ∧
      ∀ recovered, transport.Recovers recovered → ∃ more : Journal,
        (run sink.journaled recovered.journaled spec (idle sources) (v, [])).2.2 =
          journal ++ more ∧
        ∀ artifact, (journal ++ more).text artifact =
          journal.text artifact ++ more.text artifact) ∧
    ∀ (op : Operation) (e : Emission) (v : ω) (journal : Journal) (cause : CompileError),
      (emit sink.journaled transport.journaled op e (v, journal)).1.1 = .error cause →
      cause.IsBeforeWriting →
      perform sink.journaled transport.journaled (.emit op) (e, (v, journal)) =
        (e, ((gathered transport op v).2, journal)) ∧
      ∀ (recovered : Transport (StateM ω)) (calls : List Call),
        (gathered transport op v).2 = v →
        performAll sink.journaled recovered.journaled calls
          (perform sink.journaled transport.journaled (.emit op) (e, (v, journal))) =
        performAll sink.journaled recovered.journaled calls (e, (v, journal)) := by
  constructor
  · intro spec sources v v' e' cause journal hsources h
    obtain ⟨-, ds, hops, hcoherent⟩ := Compilation.checkedSources_ok hsources
    obtain ⟨before, op, after, e₀, v₀, ⟨v₁, journal₁⟩, hsplit, hbegin, hbefore, hstage,
      hgathered⟩ := run_error h
    rw [gathered_journaled] at hgathered
    obtain ⟨hcause, hworld⟩ := Prod.mk.inj hgathered
    obtain ⟨rfl, rfl⟩ := Prod.mk.inj hworld
    constructor
    · rw [hsplit] at hops
      obtain ⟨ds₁, ds₂, rfl, hops₁, -⟩ := forall₂_append_left hops
      obtain ⟨es, rfl, hsound, hreached⟩ :=
        emitted_layout sink transport hops₁ hcoherent.of_append rfl hbegin hbefore
      rw [List.forall₂_map_right_iff] at hops₁
      exact ⟨before, op, after, es, v₁, hsplit, hops₁, hsound, Prod.ext hcause rfl, hstage,
        hreached.layout.written, hreached.layout.held⟩
    · intro recovered hrecovers
      have hagain := emitAll_recovered hrecovers.journaled hbefore
      obtain ⟨more, hmore⟩ := run_journal sink recovered hsplit hbegin hagain
      exact ⟨more, hmore.symm, Journal.text_concat journal₁ more⟩
  · intro op e v journal cause hfails hcause
    have hperform : perform sink.journaled transport.journaled (.emit op) (e, (v, journal)) =
        (e, ((gathered transport op v).2, journal)) := by
      rcases hemit : emit sink.journaled transport.journaled op e (v, journal) with
        ⟨⟨outcome, e'⟩, v'⟩
      rw [hemit] at hfails
      cases hfails
      obtain ⟨rfl, -, hgathered⟩ := emit_error hemit hcause
      rw [gathered_journaled] at hgathered
      rw [perform, hemit]
      exact Prod.ext rfl (congrArg Prod.snd hgathered).symm
    refine ⟨hperform, fun recovered calls hworld => ?_⟩
    rw [hperform, hworld]

def withGap (location : String) : Fetched :=
  if location = "http://x/sorted.js" then .error (.status location 404) else .ok "(d) => d"

def withStep (path name : String) : Operation where
  path := path
  method := "get"
  node := .map [(.str "query", .map [(.str "graphql-query", .str "\x7b film \x7d")]),
    (.str "postprocessing", .map [(.str name, .str ("http://x/" ++ name ++ ".js"))])]

/-- The second of two chains cannot be loaded; with its code there, the run goes on from what was
appended, and the operation can be emitted again. -/
theorem failed_load_leaves_layout_of_gap :
    let gap : Transport (StateM Unit) := .each "" fun location => pure (withGap location)
    let filled : Transport (StateM Unit) := .each "" fun _ => pure (.ok "(d) => d")
    let actors := withStep "/actors" "sorted"
    let spec : Specification := ⟨.map [(.str "sparql", .seq [.str "http://x/sparql"])],
      [withStep "/films" "first", actors]⟩
    let sources : List DataSource := [⟨"sparql", "http://x/sparql"⟩]
    let emitting : Emission := ⟨.emitting, .fresh []⟩
    (∃ cause e' journal more,
      run Sink.accepting.journaled gap.journaled spec (idle sources) ((), []) =
        ((.error (.loading cause), e'), ((), journal)) ∧
      (run Sink.accepting.journaled filled.journaled spec (idle sources) ((), [])).2.2 =
        journal ++ more) ∧
    performAll Sink.accepting.journaled filled.journaled [.emit actors]
        (perform Sink.accepting.journaled gap.journaled (.emit actors) (emitting, ((), []))) =
      performAll Sink.accepting.journaled filled.journaled [.emit actors] (emitting, ((), [])) := by
  intro gap filled actors spec sources emitting
  have hrecovers : gap.Recovers filled := by
    refine Transport.each_recovers (fun location body hbody => ?_) "" ""
    unfold withGap at hbody
    split at hbody
    · cases hbody
    · exact hbody
  constructor
  · have hsources : Compilation.checkedSources spec = .ok sources := by decide +kernel
    obtain ⟨-, ds, hops, hcoherent⟩ := Compilation.checkedSources_ok hsources
    have happart : ∀ op ∈ spec.operations, op.NamesApart := by
      refine List.forall_mem_cons.mpr ⟨?_, List.forall_mem_cons.mpr ⟨?_, nofun⟩⟩ <;>
        · intro entries hmap
          cases hmap
          decide
    have htransport := (Transport.each_tracks withGap "" fun _ (_ : Unit) => True).journaled
    have hended := run_spec Sink.accepting_tracks htransport hops hcoherent (idle sources)
      ((), []) ⟨rfl, trivial⟩
    rcases hrun : run Sink.accepting.journaled gap.journaled spec (idle sources) ((), []) with
      ⟨⟨cause | report, e'⟩, ⟨⟨⟩, journal⟩⟩ <;> rw [hrun] at hended
    · have hexcused : Excused (fun _ _ => True) (fun _ => False) _ ds cause ((), journal) := hended
      rcases Compilation.isOutside_of_namesApart hops happart hexcused with
        ⟨_, -, hfalse⟩ | ⟨cause, rfl, -⟩
      · exact hfalse.elim
      · obtain ⟨more, hmore, -⟩ := ((failed_load_leaves_layout .accepting gap).1 spec sources
          () () e' cause journal hsources hrun).2 filled hrecovers
        exact ⟨cause, e', journal, more, rfl, hmore⟩
    · obtain ⟨es, rfl, hsound, -⟩ := hended
      have hactors : actors ∈ spec.operations := .tail _ (.head _)
      obtain ⟨d, hd, hdeclared⟩ := Specification.exists_declaration hops hactors
      obtain ⟨e, he, rfl⟩ := List.mem_map.mp hd
      have hpipes : actors.pipes = .ok [⟨"sorted", "http://x/sorted.js"⟩] := by decide +kernel
      rw [(Operation.declares_of_ok hdeclared).pipes] at hpipes
      have hloads := (hsound e he).loads.1
      rw [Except.ok.inj hpipes] at hloads
      obtain ⟨body, hbody⟩ := hloads _ List.mem_cons_self
      cases hbody
  · have hfails : (emit Sink.accepting.journaled gap.journaled actors emitting ((), [])).1.1 =
        .error (.loading ⟨⟨"sorted", "http://x/sorted.js"⟩, .status "http://x/sorted.js" 404⟩) := by
      decide +kernel
    exact ((failed_load_leaves_layout .accepting gap).2 actors emitting () [] _ hfails
      (.inr ⟨_, rfl⟩)).2 filled [.emit actors] (Subsingleton.elim _ _)

end Emission

end LinkedApi
