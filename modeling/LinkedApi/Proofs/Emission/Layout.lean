import LinkedApi.Proofs.Emission.Steps
import LinkedApi.Proofs.Registry
import LinkedApi.Proofs.Validation

/-!
# The layout of the artifacts

While operations are emitted, each artifact is its header and then one piece for each entity. The
writers know which entities these are. A step adds its entities to the layout unless the sink
refuses an append, or the chain of an operation names a pipe module twice.
-/

namespace LinkedApi

open Generated Steps Text

variable {α ω : Type}

/-! ## First occurrences -/

namespace PipeModule

def reference (pipe : PipeModule) : PipeReference := ⟨pipe.name, pipe.source⟩

def firsts : List PipeModule → List PipeModule
  | [] => []
  | pipe :: rest => pipe :: (firsts rest).filter (·.name ≠ pipe.name)

def newOf (known chain : List PipeModule) : List PipeModule :=
  chain.filter fun pipe => pipe.name ∉ known.map (·.name)

theorem firsts_sublist (pipes : List PipeModule) : (firsts pipes).Sublist pipes := by
  induction pipes with
  | nil => exact .refl []
  | cons pipe rest ih => exact (List.filter_sublist.trans ih).cons_cons pipe

/-- No name is lost when only the first pipe module of each name is kept. -/
theorem mem_names_firsts {pipes : List PipeModule} {name : String} :
    name ∈ (firsts pipes).map (·.name) ↔ name ∈ pipes.map (·.name) := by
  induction pipes with
  | nil => rfl
  | cons pipe rest ih =>
    by_cases hname : name = pipe.name
    · simp [firsts, hname]
    · simp only [List.mem_map] at ih
      simp only [firsts, List.map_cons, List.mem_cons, hname, false_or, List.mem_map,
        List.mem_filter, decide_eq_true_eq]
      rw [← ih]
      constructor
      · rintro ⟨other, ⟨hmem, -⟩, hother⟩
        exact ⟨other, hmem, hother⟩
      · rintro ⟨other, hmem, hother⟩
        exact ⟨other, ⟨hmem, by rwa [hother]⟩, hother⟩

theorem firsts_of_nodup {pipes : List PipeModule} (h : (pipes.map (·.name)).Nodup) :
    firsts pipes = pipes := by
  induction pipes with
  | nil => rfl
  | cons pipe rest ih =>
    rw [List.map_cons, List.nodup_cons] at h
    rw [firsts, ih h.2]
    congr 1
    rw [List.filter_eq_self]
    intro other hother
    have hne : other.name ≠ pipe.name := fun hname =>
      h.1 (hname ▸ List.mem_map_of_mem hother)
    simpa using hne

/-- Of two lists one after the other, the second adds only what has a new name. -/
theorem firsts_append (xs ys : List PipeModule) :
    firsts (xs ++ ys) = firsts xs ++ newOf xs (firsts ys) := by
  induction xs with
  | nil => simp [firsts, newOf]
  | cons x xs ih =>
    rw [List.cons_append, firsts, firsts, ih, List.filter_append, List.cons_append, newOf, newOf,
      List.filter_filter]
    congr 2
    apply List.filter_congr
    intro y _
    simp

/-- A chain without repetitions adds those of its modules that are new. -/
theorem firsts_append_of_nodup (xs : List PipeModule) {ys : List PipeModule}
    (h : (ys.map (·.name)).Nodup) :
    firsts (xs ++ ys) = firsts xs ++ newOf (firsts xs) ys := by
  rw [firsts_append, firsts_of_nodup h, newOf, newOf]
  congr 1
  apply List.filter_congr
  intro y _
  exact decide_eq_decide.mpr (not_congr mem_names_firsts.symm)

end PipeModule

/-! ## The world -/

/-- What is held of the texts stays true when something is appended. Only what `refused` says may
be the reason why an append fails. -/
structure Sink.Tracks (sink : Sink (StateM ω)) (held : Texts → ω → Prop)
    (refused : FileError → Prop) : Prop where
  append : ∀ (texts : Texts) (v : ω) (artifact : Artifact) (more : String), held texts v →
    match sink.append artifact more v with
    | (.ok (), v') => held (texts.extend artifact more) v'
    | (.error cause, _) => refused cause

def GenerationError.IsRefusal (refused : FileError → Prop) (e : GenerationError) : Prop :=
  ∃ cause, e = .file cause ∧ refused cause

def GenerationError.IsRepetition (e : GenerationError) : Prop :=
  ∃ name, e = .duplicateName (Writers.repeatedInChain name)

variable {sink : Sink (StateM ω)} {held : Texts → ω → Prop} {refused : FileError → Prop}

/-- A delivery extends the texts and empties the buffer, or is refused. -/
theorem Sink.Tracks.deliver (h : sink.Tracks held refused) {texts : Texts} {v : ω}
    (hheld : held texts v) (artifact : Artifact) (more : String) (phase : Phase) (w : Writers) :
    After (fun _ w' v' => w' = w.setBuffer artifact ⟨phase, ""⟩ ∧
        held (texts.extend artifact more) v')
      (fun cause _ _ => cause.IsRefusal refused)
      (Writers.deliver sink artifact more phase w v) := by
  simp only [Writers.deliver, Sink.offer]
  by_cases hmore : more = ""
  · rw [if_pos hmore, hmore, Texts.extend_empty]
    exact ⟨rfl, hheld⟩
  · rw [if_neg hmore]
    have happend := h.append texts v artifact more hheld
    revert happend
    rcases sink.append artifact more v with ⟨cause | _, v'⟩
    · exact fun hrefused => ⟨cause, rfl, hrefused⟩
    · exact fun hheld => ⟨rfl, hheld⟩

/-! ## What writers know -/

/-- The artifacts while entities are written. -/
def layout (sources : List DataSource) (pipes : List PipeModule) (queries : List Query)
    (bindings : List RouteBinding) : Texts
  | .pipeModules => Writers.PipeModules.header ++ String.join (pipes.map pipeDefinition)
  | .query => queryHeader sources ++ String.join (queries.map queryDefinition)
  | .routes => Writers.Routes.header ++ String.join (bindings.map handler)

def finalLayout (sources : List DataSource) (pipes : List PipeModule) (queries : List Query)
    (bindings : List RouteBinding) : Texts := fun artifact =>
  layout sources pipes queries bindings artifact ++
    match artifact with
    | .pipeModules => pipeExports (pipes.map (·.name))
    | .query => queryExports (queries.map (·.name))
    | .routes => routeExports (bindings.map (·.route))

/-- Writers that have written these pipe modules, queries and routes, with nothing pending. -/
structure Written (ps : List PipeModule) (qs : List Query) (bs : List RouteBinding)
    (w : Writers) : Prop where
  buffers : ∀ artifact, w.buffers artifact = ⟨.opened, ""⟩
  pipes : w.registry.names .pipeModule = ps.map (·.name)
  defined : w.defined = ps.map fun pipe => (pipe.name, pipe.source)
  queries : w.registry.names .query = qs.map (·.name)
  routes : w.routes = bs.map (·.route)

/-- Writers that list these entities, whatever is pending. -/
structure Listed (ps : List PipeModule) (qs : List Query) (bs : List RouteBinding)
    (w : Writers) : Prop where
  pipes : w.registry.names .pipeModule = ps.map (·.name)
  queries : w.registry.names .query = qs.map (·.name)
  routes : w.routes = bs.map (·.route)

/-- The writers have written these entities, and what they have written is held of the world. -/
structure AtLayout (held : Texts → ω → Prop) (sources : List DataSource) (ps : List PipeModule)
    (qs : List Query) (bs : List RouteBinding) (w : Writers) (v : ω) : Prop where
  written : Written ps qs bs w
  held : held (layout sources ps qs bs) v

@[simp]
theorem layout_extend_pipes (sources : List DataSource) (ps new : List PipeModule)
    (qs : List Query) (bs : List RouteBinding) :
    (layout sources ps qs bs).extend .pipeModules (String.join (new.map pipeDefinition)) =
      layout sources (ps ++ new) qs bs := by
  funext artifact
  cases artifact <;>
    simp [Texts.extend, layout, String.join_append, String.append_assoc]

@[simp]
theorem layout_extend_query (sources : List DataSource) (ps : List PipeModule) (qs : List Query)
    (query : Query) (bs : List RouteBinding) :
    (layout sources ps qs bs).extend .query (queryDefinition query) =
      layout sources ps (qs ++ [query]) bs := by
  funext artifact
  cases artifact <;>
    simp [Texts.extend, layout, String.join_append, String.append_assoc]

@[simp]
theorem layout_extend_route (sources : List DataSource) (ps : List PipeModule) (qs : List Query)
    (bs : List RouteBinding) (binding : RouteBinding) :
    (layout sources ps qs bs).extend .routes (handler binding) =
      layout sources ps qs (bs ++ [binding]) := by
  funext artifact
  cases artifact <;>
    simp [Texts.extend, layout, String.join_append, String.append_assoc]

/-! ## Pipe modules -/

namespace Writers

def withPipes (w : Writers) (pipes : List PipeModule) : Writers where
  registry := ⟨w.registry.entries ++ pipes.map fun pipe => (.pipeModule, pipe.name)⟩
  buffers := fun other =>
    if other = .pipeModules then
      { w.buffers .pipeModules with
        pending := w.pending .pipeModules ++ String.join (pipes.map pipeDefinition) }
    else w.buffers other
  defined := w.defined ++ pipes.map fun pipe => (pipe.name, pipe.source)
  chain := w.chain
  dataSources := w.dataSources
  lastQuery := w.lastQuery
  routes := w.routes

@[simp]
theorem names_withPipes (w : Writers) (pipes : List PipeModule) (kind : NameKind) :
    (w.withPipes pipes).registry.names kind =
      w.registry.names kind ++ if .pipeModule = kind then pipes.map (·.name) else [] := by
  rw [withPipes, Registry.names_append]
  by_cases hkind : .pipeModule = kind
  · rw [if_pos hkind, ← hkind, Registry.names_map_self]
  · rw [if_neg hkind, Registry.names_map_of_ne hkind]

@[simp]
theorem pending_withPipes (w : Writers) (pipes : List PipeModule) :
    (w.withPipes pipes).pending .pipeModules =
      w.pending .pipeModules ++ String.join (pipes.map pipeDefinition) := rfl

@[simp]
theorem withPipes_nil (w : Writers) : w.withPipes [] = w := by
  have hbuffers : (w.withPipes []).buffers = w.buffers := by
    funext other
    by_cases hother : other = .pipeModules <;> simp [withPipes, pending, hother]
  have hregistry : (w.withPipes []).registry = w.registry := by
    simp [withPipes]
  have hdefined : (w.withPipes []).defined = w.defined := by
    simp [withPipes]
  rw [withPipes] at hbuffers hregistry hdefined ⊢
  simp only at hbuffers hregistry hdefined
  rw [hbuffers, hregistry, hdefined]

theorem withPipes_cons (w : Writers) (pipe : PipeModule) (rest : List PipeModule) :
    w.withPipes (pipe :: rest) = (w.withPipe pipe).withPipes rest := by
  simp only [withPipes, withPipe, pending, List.map_cons, String.join_cons, List.append_assoc,
    List.singleton_append, if_true, String.append_assoc]
  congr 1
  funext other
  split <;> rfl

/-- Pipe modules with new names that are identifiers can all be defined. -/
theorem definedBy_eq {pipes : List PipeModule} {w : Writers}
    (hnames : ∀ pipe ∈ pipes, isIdentifier pipe.name) (hnodup : (pipes.map (·.name)).Nodup)
    (hnew : ∀ pipe ∈ pipes, pipe.name ∉ w.registry.names .pipeModule) :
    definedBy pipes w = (.ok (), w.withPipes pipes) := by
  induction pipes generalizing w with
  | nil => rw [definedBy, withPipes_nil]
  | cons pipe rest ih =>
    rw [List.forall_mem_cons] at hnames hnew
    rw [List.map_cons, List.nodup_cons] at hnodup
    have hunknown : ¬w.registry.contains .pipeModule pipe.name = true := by
      rw [Registry.contains_iff]
      exact hnew.1
    rw [definedBy, if_neg (by simp [hnames.1]), if_neg hunknown, withPipes_cons]
    apply ih hnames.2 hnodup.2
    intro other hother
    have hne : other.name ≠ pipe.name := fun hname =>
      hnodup.1 (hname ▸ List.mem_map_of_mem hother)
    simpa using ⟨hnew.2 other hother, hne⟩

/-- Where the sources agree with those of the modules that are known, only the names decide. -/
theorem undefinedOf_spec {ps chain : List PipeModule} (seen : List String)
    (hsources : ∀ pipe ∈ chain, ∀ p ∈ ps, p.name = pipe.name → p.source = pipe.source) :
    match PipeModules.undefinedOf (ps.map fun p => (p.name, p.source)) seen chain with
    | .ok fresh =>
      fresh = PipeModule.newOf ps chain ∧ (chain.map (·.name)).Nodup ∧
        ∀ pipe ∈ chain, pipe.name ∉ seen
    | .error what =>
      ¬((chain.map (·.name)).Nodup ∧ ∀ pipe ∈ chain, pipe.name ∉ seen) ∧
        ∃ name, what = repeatedInChain name := by
  have hagree : ∀ pipe ∈ chain, Agrees (ps.map fun p => (p.name, p.source)) pipe := by
    intro pipe hpipe found hfound
    obtain ⟨p, hp, rfl⟩ := List.mem_map.mp (List.mem_of_find?_eq_some hfound)
    exact hsources pipe hpipe p hp (by simpa using List.find?_some hfound)
  cases hresult : PipeModules.undefinedOf (ps.map fun p => (p.name, p.source)) seen chain with
  | ok fresh =>
    obtain ⟨⟨hnodup, hnot⟩, -, rfl⟩ := undefinedOf_eq_ok_iff.mp hresult
    refine ⟨List.filter_congr fun pipe _ => ?_, hnodup, hnot⟩
    rw [Bool.eq_iff_iff]
    simp
  | error what =>
    refine ⟨fun hfree => ?_, undefinedOf_error hagree hresult⟩
    rw [undefinedOf_eq_ok_iff.mpr ⟨hfree, hagree, rfl⟩] at hresult
    cases hresult

end Writers

section Steps

variable {ps : List PipeModule} {qs : List Query} {bs : List RouteBinding}
  {sources : List DataSource}

/-- A chain adds its new pipe modules to the layout. It fails where the sink refuses the
definitions, or where the chain repeats a name. -/
theorem emitPipes_written (hsink : sink.Tracks held refused) {chain : List PipeModule}
    (hnames : ∀ pipe ∈ chain, isIdentifier pipe.name)
    (hsources : ∀ pipe ∈ chain, ∀ p ∈ ps, p.name = pipe.name → p.source = pipe.source) :
    Triple (AtLayout held sources ps qs bs)
      (Writers.emitPipes sink chain)
      (fun _ w v => (chain.map (·.name)).Nodup ∧
        AtLayout held sources (ps ++ PipeModule.newOf ps chain) qs bs w v)
      (fun cause _ v => cause.IsRefusal refused ∨
        ¬(chain.map (·.name)).Nodup ∧ cause.IsRepetition ∧ ∃ texts, held texts v) := by
  rintro w v ⟨hw, hheld⟩
  have hopen : w.phase .pipeModules = .opened := by rw [Writers.phase, hw.buffers]
  have hspec := Writers.undefinedOf_spec [] hsources
  rw [← hw.defined] at hspec
  rw [Writers.emitPipes_apply, if_neg (not_not_intro hopen)]
  revert hspec
  rcases Writers.PipeModules.undefinedOf _ [] chain with what | fresh
  · rintro ⟨hrepeated, name, rfl⟩
    exact .inr ⟨fun hnodup => hrepeated ⟨hnodup, by simp⟩, ⟨name, rfl⟩, _, hheld⟩
  · rintro ⟨rfl, hnodup, -⟩
    have hsub : (PipeModule.newOf ps chain).Sublist chain := List.filter_sublist
    have hdefined := Writers.definedBy_eq (w := { w with chain := [] })
      (fun pipe hpipe => hnames pipe (hsub.subset hpipe)) (hnodup.sublist (hsub.map _))
      (fun pipe hpipe => by
        have hnew : pipe.name ∉ ps.map (·.name) := by
          simpa using (List.mem_filter.mp hpipe).2
        rwa [← hw.pipes] at hnew)
    simp only [hdefined]
    refine (hsink.deliver hheld .pipeModules _ .opened _).imp ?_ fun _ _ _ h => .inl h
    rintro _ w' v' ⟨rfl, hheld⟩
    have hpending : ({ w with chain := [] } : Writers).pending .pipeModules = "" := by
      rw [Writers.pending, hw.buffers]
    refine ⟨hnodup, ⟨?_, ?_, ?_, ?_, hw.routes⟩, ?_⟩
    · intro artifact
      rw [Writers.buffers_setBuffer]
      by_cases hartifact : artifact = .pipeModules
      · rw [if_pos hartifact]
      · rw [if_neg hartifact]
        simpa [Writers.withPipes, hartifact] using hw.buffers artifact
    · simp [hw.pipes]
    · simp [Writers.withPipes, hw.defined]
    · simp [hw.queries]
    · have hmore : (({ w with chain := [] } : Writers).withPipes
          (PipeModule.newOf ps chain)).pending .pipeModules =
            String.join ((PipeModule.newOf ps chain).map pipeDefinition) := by
        rw [Writers.pending_withPipes, hpending, String.empty_append]
      rwa [hmore, layout_extend_pipes] at hheld

/-- A query of a new name is added to the layout. -/
theorem emitQuery_written (hsink : sink.Tracks held refused) {query : Query}
    (hname : isIdentifier query.name) (hnew : query.name ∉ qs.map (·.name)) :
    Triple (AtLayout held sources ps qs bs)
      (Writers.emitQuery sink query)
      (fun _ => AtLayout held sources ps (qs ++ [query]) bs)
      (fun cause _ _ => cause.IsRefusal refused) := by
  rintro w v ⟨hw, hheld⟩
  have hopen : w.phase .query = .opened := by rw [Writers.phase, hw.buffers]
  have hpending : w.pending .query = "" := by rw [Writers.pending, hw.buffers]
  have hunknown : ¬w.registry.contains .query query.name = true := by
    rwa [Registry.contains_iff, hw.queries]
  rw [Writers.emitQuery_apply, if_neg (not_not_intro hopen), if_neg (by simp [hname]),
    if_neg hunknown, hpending, String.empty_append]
  refine (hsink.deliver hheld .query _ .opened _).imp ?_ fun _ _ _ => id
  rintro _ w' v' ⟨rfl, hheld⟩
  rw [layout_extend_query] at hheld
  refine ⟨⟨?_, ?_, hw.defined, ?_, hw.routes⟩, hheld⟩
  · intro artifact
    rw [Writers.buffers_setBuffer]
    split
    · rfl
    · exact hw.buffers artifact
  · simp [hw.pipes]
  · simp [hw.queries]

theorem emitRoute_written (hsink : sink.Tracks held refused) {binding : RouteBinding}
    (hquery : binding.query ∈ qs.map (·.name))
    (hpipes : ∀ name ∈ binding.pipes, name ∈ ps.map (·.name))
    (hidentifiers : isIdentifier binding.query ∧ ∀ name ∈ binding.pipes, isIdentifier name) :
    Triple (AtLayout held sources ps qs bs)
      (Writers.emitRoute sink binding)
      (fun _ => AtLayout held sources ps qs (bs ++ [binding]))
      (fun cause _ _ => cause.IsRefusal refused) := by
  rintro w v ⟨hw, hheld⟩
  have hopen : w.phase .routes = .opened := by rw [Writers.phase, hw.buffers]
  have hpending : w.pending .routes = "" := by rw [Writers.pending, hw.buffers]
  have hresolved : Writers.Routes.dangling? w.registry binding = none := by
    rw [← hw.queries] at hquery
    rw [← hw.pipes] at hpipes
    simpa [Writers.Routes.dangling?, Registry.contains_iff] using And.intro hquery hpipes
  have hvalid : ((binding.pipes ++ [binding.query]).find? fun name => !isIdentifier name) =
      none := by
    simpa using hidentifiers.symm
  rw [Writers.emitRoute_apply, if_neg (not_not_intro hopen), hresolved, hvalid, hpending,
    String.empty_append]
  refine (hsink.deliver hheld .routes _ .opened _).imp ?_ fun _ _ _ => id
  rintro _ w' v' ⟨rfl, hheld⟩
  rw [layout_extend_route] at hheld
  refine ⟨⟨?_, hw.pipes, hw.defined, hw.queries, ?_⟩, hheld⟩
  · intro artifact
    rw [Writers.buffers_setBuffer]
    split
    · rfl
    · exact hw.buffers artifact
  · simp [hw.routes]

/-- One declaration adds the new modules of its chain, its query and its handler. -/
theorem emitAll_written (hsink : sink.Tracks held refused) {declaration : Declaration}
    {chain : List PipeModule} (hquery : isIdentifier declaration.query.name)
    (hnew : declaration.query.name ∉ qs.map (·.name))
    (hnames : ∀ pipe ∈ chain, isIdentifier pipe.name)
    (hsources : ∀ pipe ∈ chain, ∀ p ∈ ps, p.name = pipe.name → p.source = pipe.source) :
    Triple (AtLayout held sources ps qs bs)
      (Writers.emitAll sink declaration chain)
      (fun _ w v => (chain.map (·.name)).Nodup ∧
        AtLayout held sources (ps ++ PipeModule.newOf ps chain) (qs ++ [declaration.query])
          (bs ++ [Writers.bindingOf declaration chain]) w v)
      (fun cause _ v => cause.IsRefusal refused ∨
        ¬(chain.map (·.name)).Nodup ∧ cause.IsRepetition ∧ ∃ texts, held texts v) := by
  apply (emitPipes_written hsink hnames hsources).bind
  intro _ w v ⟨hnodup, hw⟩
  have hpipes : ∀ name ∈ chain.map (·.name),
      name ∈ (ps ++ PipeModule.newOf ps chain).map (·.name) := by
    intro name hname
    obtain ⟨pipe, hpipe, rfl⟩ := List.mem_map.mp hname
    by_cases hknown : pipe.name ∈ ps.map (·.name)
    · rw [List.map_append]
      exact List.mem_append_left _ hknown
    · exact List.mem_map_of_mem (List.mem_append_right _
        (List.mem_filter.mpr ⟨hpipe, by simpa using hknown⟩))
  have hidentifiers : ∀ name ∈ chain.map (·.name), isIdentifier name := by
    intro name hname
    obtain ⟨pipe, hpipe, rfl⟩ := List.mem_map.mp hname
    exact hnames pipe hpipe
  have hqueries : declaration.query.name ∈ (qs ++ [declaration.query]).map (·.name) := by simp
  have hroute : Triple
      (AtLayout held sources (ps ++ PipeModule.newOf ps chain) (qs ++ [declaration.query]) bs)
      (Writers.emitRoute sink (Writers.bindingOf declaration chain))
      (fun _ => AtLayout held sources (ps ++ PipeModule.newOf ps chain) (qs ++ [declaration.query])
        (bs ++ [Writers.bindingOf declaration chain]))
      (fun cause _ _ => cause.IsRefusal refused) :=
    emitRoute_written hsink hqueries hpipes ⟨hquery, hidentifiers⟩
  apply ((emitQuery_written hsink hquery hnew).bind (fun _ => hroute) w v hw).imp
  · intro _ _ _ hlayout
    exact ⟨hnodup, hlayout⟩
  · intro _ _ _ hrefusal
    exact .inl hrefusal

/-- The header of a fresh buffer is delivered. -/
theorem writeHeader_delivers (hsink : sink.Tracks held refused) {artifact : Artifact} {w : Writers}
    (hfresh : w.buffers artifact = .fresh) (texts : Texts) (header : String) :
    Triple (fun w' v => w' = w ∧ held texts v) (Writers.writeHeader sink artifact header)
      (fun _ w' v => w' = w.setBuffer artifact ⟨.opened, ""⟩ ∧ held (texts.extend artifact header) v)
      (fun cause _ _ => cause.IsRefusal refused) := by
  rintro w' v ⟨rfl, hheld⟩
  have hphase : w'.phase artifact = .fresh := by rw [Writers.phase, hfresh]; rfl
  have hpending : w'.pending artifact = "" := by rw [Writers.pending, hfresh]; rfl
  rw [Writers.writeHeader_apply, if_pos hphase, hpending, String.empty_append]
  exact hsink.deliver hheld artifact header .opened w'

theorem beginQueries_delivers (hsink : sink.Tracks held refused) {w : Writers}
    (hfresh : w.buffers .query = .fresh) (texts : Texts) :
    Triple (fun w' v => w' = w ∧ held texts v) (Writers.beginQueries sink)
      (fun _ w' v => w' = w.setBuffer .query ⟨.opened, ""⟩ ∧
        held (texts.extend .query (queryHeader w.dataSources)) v)
      (fun cause _ _ => cause.IsRefusal refused) := by
  rintro w' v ⟨rfl, hheld⟩
  have hphase : w'.phase .query = .fresh := by rw [Writers.phase, hfresh]; rfl
  have hpending : w'.pending .query = "" := by rw [Writers.pending, hfresh]; rfl
  rw [Writers.beginQueries_apply, if_pos hphase, hpending, String.empty_append]
  exact hsink.deliver hheld .query _ .opened w'

/-- Fresh writers write all headers. -/
theorem beginAll_written (hsink : sink.Tracks held refused) (sources : List DataSource) :
    Triple (fun w v => w = .fresh sources ∧ held (fun _ => "") v) (Writers.beginAll sink)
      (fun _ => AtLayout held sources [] [] []) (fun cause _ _ => cause.IsRefusal refused) := by
  apply (writeHeader_delivers hsink rfl _ _).bind
  intro _
  apply (beginQueries_delivers hsink rfl _).bind
  intro _
  apply (writeHeader_delivers hsink rfl _ _).weaken (fun _ _ h => h) _ (fun _ _ _ h => h)
  rintro _ w v ⟨rfl, hheld⟩
  refine ⟨⟨?_, rfl, rfl, rfl, rfl⟩, ?_⟩
  · intro artifact
    cases artifact <;> rfl
  · convert hheld using 1
    funext artifact
    cases artifact <;> simp [Texts.extend, layout, Writers.fresh]

theorem closePipes_delivers (hsink : sink.Tracks held refused) {w : Writers}
    (hbuffer : w.buffers .pipeModules = ⟨.opened, ""⟩)
    (hnames : ∀ name ∈ w.registry.names .pipeModule, isIdentifier name) (texts : Texts) :
    Triple (fun w' v => w' = w ∧ held texts v) (Writers.closePipes sink)
      (fun _ w' v => w' = w.setBuffer .pipeModules ⟨.sealed, ""⟩ ∧
        held (texts.extend .pipeModules (pipeExports (w.registry.names .pipeModule))) v)
      (fun cause _ _ => cause.IsRefusal refused) := by
  rintro w' v ⟨rfl, hheld⟩
  have hopen : w'.phase .pipeModules = .opened := by rw [Writers.phase, hbuffer]
  have hpending : w'.pending .pipeModules = "" := by rw [Writers.pending, hbuffer]
  have hvalid := Writers.find?_invalid_eq_none.mpr hnames
  rw [Writers.closePipes_apply, if_neg (not_not_intro hopen), hvalid, hpending,
    String.empty_append]
  exact hsink.deliver hheld .pipeModules _ .sealed w'

theorem closeQueries_delivers (hsink : sink.Tracks held refused) {w : Writers}
    (hbuffer : w.buffers .query = ⟨.opened, ""⟩)
    (hnames : ∀ name ∈ w.registry.names .query, isIdentifier name) (texts : Texts) :
    Triple (fun w' v => w' = w ∧ held texts v) (Writers.closeQueries sink)
      (fun _ w' v => w' = w.setBuffer .query ⟨.sealed, ""⟩ ∧
        held (texts.extend .query (queryExports (w.registry.names .query))) v)
      (fun cause _ _ => cause.IsRefusal refused) := by
  rintro w' v ⟨rfl, hheld⟩
  have hopen : w'.phase .query = .opened := by rw [Writers.phase, hbuffer]
  have hpending : w'.pending .query = "" := by rw [Writers.pending, hbuffer]
  have hvalid := Writers.find?_invalid_eq_none.mpr hnames
  rw [Writers.closeQueries_apply, if_neg (not_not_intro hopen), hvalid, hpending,
    String.empty_append]
  exact hsink.deliver hheld .query _ .sealed w'

theorem closeRoutes_delivers (hsink : sink.Tracks held refused) {w : Writers}
    (hbuffer : w.buffers .routes = ⟨.opened, ""⟩) (texts : Texts) :
    Triple (fun w' v => w' = w ∧ held texts v) (Writers.closeRoutes sink)
      (fun _ w' v => w' = w.setBuffer .routes ⟨.sealed, ""⟩ ∧
        held (texts.extend .routes (routeExports w.routes)) v)
      (fun cause _ _ => cause.IsRefusal refused) := by
  rintro w' v ⟨rfl, hheld⟩
  have hopen : w'.phase .routes = .opened := by rw [Writers.phase, hbuffer]
  have hpending : w'.pending .routes = "" := by rw [Writers.pending, hbuffer]
  rw [Writers.closeRoutes_apply, if_neg (not_not_intro hopen), hpending, String.empty_append]
  exact hsink.deliver hheld .routes _ .sealed w'

/-- Export sections complete the layout, and what is listed stays. -/
theorem closeAll_written (hsink : sink.Tracks held refused)
    (hpipes : ∀ pipe ∈ ps, isIdentifier pipe.name) (hqueries : ∀ query ∈ qs, isIdentifier query.name) :
    Triple (AtLayout held sources ps qs bs) (Writers.closeAll sink)
      (fun _ w v => Listed ps qs bs w ∧ held (finalLayout sources ps qs bs) v)
      (fun cause _ _ => cause.IsRefusal refused) := by
  intro w v ⟨hw, hheld⟩
  have hpipeNames : ∀ name ∈ w.registry.names .pipeModule, isIdentifier name := by
    rw [hw.pipes]
    simpa using hpipes
  have hqueryNames : ∀ name ∈ w.registry.names .query, isIdentifier name := by
    rw [hw.queries]
    simpa using hqueries
  have hquery : (w.setBuffer .pipeModules ⟨.sealed, ""⟩).buffers .query = ⟨.opened, ""⟩ :=
    hw.buffers .query
  have hroutes : ((w.setBuffer .pipeModules ⟨.sealed, ""⟩).setBuffer .query ⟨.sealed, ""⟩).buffers
      .routes = ⟨.opened, ""⟩ := hw.buffers .routes
  have hrun := (closePipes_delivers hsink (hw.buffers .pipeModules) hpipeNames
      (layout sources ps qs bs)).bind fun _ =>
    (closeQueries_delivers hsink hquery hqueryNames _).bind fun _ =>
      closeRoutes_delivers hsink hroutes _
  refine (hrun w v ⟨rfl, hheld⟩).imp ?_ fun _ _ _ => id
  rintro _ w' v' ⟨rfl, hheld⟩
  refine ⟨⟨hw.pipes, hw.queries, hw.routes⟩, ?_⟩
  convert hheld using 1
  funext artifact
  cases artifact <;> simp [Texts.extend, finalLayout, hw.pipes, hw.queries, hw.routes]

end Steps

end LinkedApi
