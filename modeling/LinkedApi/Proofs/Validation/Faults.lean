import LinkedApi.Proofs.Validation

/-!
# What validation decides

Validation goes through the operations once, with two tables of what it has seen. It succeeds
exactly when every operation can be extracted and all of them together are coherent. Otherwise it
stops at the first operation that is at fault with those before it, and says what the fault is.
-/

namespace LinkedApi

open Outcome

/-! ## Errors of one operation -/

namespace ExtractError

/-- An error that says which operation it is found in. -/
def Names (op : Operation) : ExtractError → Prop
  | .invalidMethod method path => method = op.method ∧ path = op.path
  | .malformedOperation method path _ => method = op.method ∧ path = op.path
  | .malformedSources _ => False
  | .invalidContext method path _ => method = op.method ∧ path = op.path
  | .invalidIdentifier _ method path => method = op.method ∧ path = op.path
  | .duplicateName what => what.context = some s!"declared twice by {op.label}"

end ExtractError

namespace Operation

variable {op : Operation} {e : ExtractError}

theorem route_error (h : op.route = .error e) : e.Names op := by
  unfold Operation.route at h
  split at h
  · cases h
  · cases h
    exact ⟨rfl, rfl⟩

theorem queryText_error {block : List (Yaml × Yaml)} (h : op.queryText block = .error e) :
    e.Names op := by
  unfold queryText at h
  split at h
  · cases h
  · cases h
    exact ⟨rfl, rfl⟩
  · cases h
    exact ⟨rfl, rfl⟩

theorem queryContext_error {block : List (Yaml × Yaml)} (h : op.queryContext block = .error e) :
    e.Names op := by
  unfold queryContext at h
  split at h
  · cases h
  · cases h
  · split at h
    · cases h
    · cases h
      exact ⟨rfl, rfl⟩
  · split at h
    · cases h
    · cases h
      exact ⟨rfl, rfl⟩
  · cases h
    exact ⟨rfl, rfl⟩

theorem query_error (h : op.query = .error e) : e.Names op := by
  unfold Operation.query at h
  rcases bind_eq_error.mp h with h | ⟨route, -, h⟩
  · exact route_error h
  dsimp only at h
  split at h
  · rcases bind_eq_error.mp h with h | ⟨block, -, h⟩
    · cases h
    rcases bind_eq_error.mp h with h | ⟨text, -, h⟩
    · exact queryText_error h
    rcases bind_eq_error.mp h with h | ⟨context, -, h⟩
    · exact queryContext_error h
    split at h
    · cases h
    · cases h
      exact ⟨rfl, rfl⟩
  · cases h
    exact ⟨rfl, rfl⟩
  · cases h
    exact ⟨rfl, rfl⟩

theorem pipeField_error {entry : Yaml} {field pipe : String}
    (h : op.pipeField entry field pipe = .error e) : e.Names op := by
  unfold pipeField at h
  split at h
  · cases h
  · cases h
    exact ⟨rfl, rfl⟩
  · cases h
    exact ⟨rfl, rfl⟩

theorem pipeSource_error {name : String} {entry : Yaml}
    (h : op.pipeSource name entry = .error e) : e.Names op := by
  unfold pipeSource at h
  split at h
  · cases h
  · exact pipeField_error h

theorem pipesOfMapping_error {entries : List (Yaml × Yaml)}
    (h : op.pipesOfMapping entries = .error e) : e.Names op := by
  induction entries with
  | nil => cases h
  | cons entry rest ih =>
    rw [pipesOfMapping_cons] at h
    split at h
    · cases h
      exact ⟨rfl, rfl⟩
    rcases bind_eq_error.mp h with h | ⟨source, -, h⟩
    · exact pipeSource_error h
    rcases bind_eq_error.mp h with h | ⟨more, -, h⟩
    · exact ih h
    · cases h

theorem pipesOfSequence_error {items : List Yaml} {known : List PipeReference}
    (h : op.pipesOfSequence known items = .error e) : e.Names op := by
  induction items generalizing known with
  | nil => cases h
  | cons entry rest ih =>
    rcases bind_eq_error.mp h with h | ⟨name, -, h⟩
    · exact pipeField_error h
    rcases bind_eq_error.mp h with h | ⟨source, -, h⟩
    · exact pipeField_error h
    dsimp only at h
    split at h
    · cases h
      rfl
    · exact ih h

theorem readPipes_error (h : op.readPipes = .error e) : e.Names op := by
  unfold readPipes at h
  split at h
  · cases h
  · cases h
  · exact pipesOfMapping_error h
  · exact pipesOfSequence_error h
  · cases h
    exact ⟨rfl, rfl⟩

/-- A fault of the chain names its operation. -/
theorem pipes_error (h : op.pipes = .error e) : e.Names op := by
  rw [pipes_eq] at h
  rcases bind_eq_error.mp h with h | ⟨read, -, h⟩
  · exact readPipes_error h
  split at h
  · cases h
    exact ⟨rfl, rfl⟩
  · cases h

/-- Whatever is wrong with an operation, the error says which operation it is. -/
theorem declaration_error (h : op.declaration = .error e) : e.Names op := by
  unfold declaration at h
  rcases bind_eq_error.mp h with h | ⟨route, -, h⟩
  · exact route_error h
  rcases bind_eq_error.mp h with h | ⟨query, -, h⟩
  · exact query_error h
  rcases bind_eq_error.mp h with h | ⟨pipes, -, h⟩
  · exact pipes_error h
  · cases h

def HasQuery (op : Operation) (name : String) : Prop :=
  ∃ d, op.declaration = .ok d ∧ d.query.name = name

def HasStep (op : Operation) (r : PipeReference) : Prop :=
  ∃ d, op.declaration = .ok d ∧ r ∈ d.pipes

theorem HasQuery.name_eq {name : String} {d : Declaration} (h : op.HasQuery name)
    (hd : op.declaration = .ok d) : d.query.name = name := by
  obtain ⟨d', hd', hname⟩ := h
  cases hd'.symm.trans hd
  exact hname

theorem HasStep.mem_pipes {r : PipeReference} {d : Declaration} (h : op.HasStep r)
    (hd : op.declaration = .ok d) : r ∈ d.pipes := by
  obtain ⟨d', hd', hmem⟩ := h
  cases hd'.symm.trans hd
  exact hmem

theorem HasStep.mem_steps {ops : List Operation} {ds : List Declaration}
    (hops : List.Forall₂ (fun op d => op.declaration = .ok d) ops ds)
    (hop : op ∈ ops) {r : PipeReference} (h : op.HasStep r) : r ∈ ds.flatMap (·.pipes) := by
  obtain ⟨d, hd, hdeclared⟩ := Specification.exists_declaration hops hop
  exact List.mem_flatMap.mpr ⟨d, hd, h.mem_pipes hdeclared⟩

theorem HasQuery.mem_names {ops : List Operation} {ds : List Declaration}
    (hops : List.Forall₂ (fun op d => op.declaration = .ok d) ops ds)
    (hop : op ∈ ops) {name : String} (h : op.HasQuery name) : name ∈ ds.map (·.query.name) := by
  obtain ⟨d, hd, hdeclared⟩ := Specification.exists_declaration hops hop
  rw [← h.name_eq hdeclared]
  exact List.mem_map_of_mem hd

end Operation

namespace Validation

/-! ## Faults -/

/-- Operations that may stand together in a specification: each of them declares what it should,
no two queries have the same name, and no two steps of one name have different sources. -/
def Sound (ops : List Operation) : Prop :=
  ∃ ds, List.Forall₂ (fun op d => op.declaration = .ok d) ops ds ∧ Coherent ds

/-- What is wrong with an operation that comes after some others. -/
inductive Fault (before : List Operation) (op : Operation) : ExtractError → Prop
  | declaration {e : ExtractError} (h : op.declaration = .error e) (hnames : e.Names op) :
    Fault before op e
  /-- The message names both operations. -/
  | query {name : String} {previous : Operation} (h : op.HasQuery name)
    (hmem : previous ∈ before) (hprevious : previous.HasQuery name) :
    Fault before op (.duplicateName ⟨.query, name, some s!"{previous.label} and {op.label}"⟩)
  /-- The message names both sources; the first may be in the same chain. -/
  | step {d : Declaration} {earlier later : List PipeReference} {r : PipeReference}
    {source : String} (h : op.declaration = .ok d) (hchain : d.pipes = earlier ++ r :: later)
    (hearlier : ⟨r.name, source⟩ ∈ earlier ∨
      ∃ previous ∈ before, previous.HasStep ⟨r.name, source⟩) (hother : source ≠ r.source) :
    Fault before op
      (.duplicateName ⟨.pipeModule, r.name, some s!"sources {source} and {r.source}"⟩)

theorem Sound.of_append {ops more : List Operation} (h : Sound (ops ++ more)) : Sound ops := by
  obtain ⟨ds, hops, hcoherent⟩ := h
  obtain ⟨ds₁, ds₂, rfl, hops₁, -⟩ := forall₂_append_left hops
  exact ⟨ds₁, hops₁, hcoherent.of_append⟩

/-- An operation at fault does not stand together with those before it. -/
theorem Fault.not_sound {before : List Operation} {op : Operation} {e : ExtractError}
    (h : Fault before op e) : ¬Sound (before ++ [op]) := by
  rintro ⟨ds, hops, hcoherent⟩
  have hlast : op ∈ before ++ [op] := List.mem_append_right _ List.mem_cons_self
  cases h with
  | declaration h =>
    obtain ⟨d, -, hdeclared⟩ := Specification.exists_declaration hops hlast
    rw [h] at hdeclared
    cases hdeclared
  | query h hmem hprevious =>
    -- equal names contradict `Nodup` only in two places, so the last operation is split off
    obtain ⟨ds₁, ds₂, rfl, hbefore, hop⟩ := forall₂_append_left hops
    have hqueries := hcoherent.queries
    rw [List.map_append, List.nodup_append] at hqueries
    exact hqueries.2.2 _ (hprevious.mem_names hbefore hmem) _ (h.mem_names hop List.mem_cons_self) rfl
  | @step d earlier later r source h hchain hearlier hother =>
    have hstep : op.HasStep r :=
      ⟨d, h, hchain ▸ List.mem_append_right _ List.mem_cons_self⟩
    have hfirst : ⟨r.name, source⟩ ∈ ds.flatMap (·.pipes) := by
      rcases hearlier with hmem | ⟨previous, hmem, hprevious⟩
      · have hearlier : op.HasStep ⟨r.name, source⟩ :=
          ⟨d, h, hchain ▸ List.mem_append_left _ hmem⟩
        exact hearlier.mem_steps hops hlast
      · exact hprevious.mem_steps hops (List.mem_append_left _ hmem)
    exact hother (hcoherent.sources _ hfirst r (hstep.mem_steps hops hlast) rfl)

/-! ## Tables -/

theorem known?_concat {pairs : List (String × String)} {name value last last' : String}
    (h : known? (pairs ++ [(last, last')]) name = some value) :
    known? pairs name = some value ∨ (last = name ∧ last' = value) := by
  unfold known? at h ⊢
  rw [List.find?_append] at h
  cases hfound : pairs.find? (·.1 == name) with
  | some entry =>
    rw [hfound] at h
    exact .inl h
  | none =>
    rw [hfound, Option.none_or, List.find?_singleton] at h
    split at h
    · next hname => exact .inr ⟨beq_iff_eq.mp hname, Option.some.inj h⟩
    · cases h

theorem addPipe_known {pipes pipes' : List (String × String)} {r : PipeReference}
    (h : addPipe pipes r = .ok pipes') {name source : String}
    (hknown : known? pipes' name = some source) :
    known? pipes name = some source ∨ r = ⟨name, source⟩ := by
  unfold addPipe at h
  split at h
  · cases Except.ok.inj h
    refine (known?_concat hknown).imp_right ?_
    rintro ⟨rfl, rfl⟩
    rfl
  · split at h
    · cases Except.ok.inj h
      exact .inl hknown
    · cases h

theorem addPipes_known {refs : List PipeReference} {pipes pipes' : List (String × String)}
    (h : refs.foldlM addPipe pipes = .ok pipes') {name source : String}
    (hknown : known? pipes' name = some source) :
    known? pipes name = some source ∨ ⟨name, source⟩ ∈ refs := by
  induction refs generalizing pipes with
  | nil =>
    cases Except.ok.inj h
    exact .inl hknown
  | cons r rest ih =>
    rw [List.foldlM_cons] at h
    obtain ⟨next, hnext, h⟩ := bind_eq_ok.mp h
    rcases ih h with hbefore | hmem
    · rcases addPipe_known hnext hbefore with hold | rfl
      · exact .inl hold
      · exact .inr List.mem_cons_self
    · exact .inr (List.mem_cons_of_mem r hmem)

/-- A pipe module is refused only if its name is known with another source, and both are named. -/
theorem addPipe_error {pipes : List (String × String)} {r : PipeReference} {e : ExtractError}
    (h : addPipe pipes r = .error e) :
    ∃ source, known? pipes r.name = some source ∧ source ≠ r.source ∧
      e = .duplicateName ⟨.pipeModule, r.name, some s!"sources {source} and {r.source}"⟩ := by
  unfold addPipe at h
  split at h
  · cases h
  · next source hsource =>
    split at h
    · cases h
    · next hother => exact ⟨source, hsource, hother, (Except.error.inj h).symm⟩

/-- What the tables hold comes from the operations that have been added. -/
structure Noted (ops : List Operation) (seen : Seen) : Prop where
  queries : ∀ {name label}, known? seen.queries name = some label →
    ∃ op ∈ ops, op.HasQuery name ∧ op.label = label
  pipes : ∀ {name source}, known? seen.pipes name = some source →
    ∃ op ∈ ops, op.HasStep ⟨name, source⟩

theorem addOperation_noted {ops : List Operation} {op : Operation} {seen seen' : Seen}
    (hnoted : Noted ops seen) (h : addOperation seen op = .ok seen') :
    Noted (ops ++ [op]) seen' := by
  have hlast : op ∈ ops ++ [op] := List.mem_append_right _ List.mem_cons_self
  unfold addOperation at h
  obtain ⟨d, hd, h⟩ := bind_eq_ok.mp h
  dsimp only at h
  split at h
  · cases h
  obtain ⟨pipes, hpipes, h⟩ := bind_eq_ok.mp h
  cases pure_eq_ok.mp h
  constructor
  · intro name label hknown
    rcases known?_concat hknown with hold | ⟨hname, hlabel⟩
    · obtain ⟨previous, hmem, hprevious⟩ := hnoted.queries hold
      exact ⟨previous, List.mem_append_left _ hmem, hprevious⟩
    · exact ⟨op, hlast, ⟨d, hd, hname⟩, hlabel⟩
  · intro name source hknown
    rcases addPipes_known hpipes hknown with hold | hmem
    · obtain ⟨previous, hprevious, hstep⟩ := hnoted.pipes hold
      exact ⟨previous, List.mem_append_left _ hprevious, hstep⟩
    · exact ⟨op, hlast, d, hd, hmem⟩

theorem addOperations_noted {before ops : List Operation} {seen seen' : Seen}
    (hnoted : Noted before seen) (h : ops.foldlM addOperation seen = .ok seen') :
    Noted (before ++ ops) seen' := by
  induction ops generalizing before seen with
  | nil =>
    cases Except.ok.inj h
    rwa [List.append_nil]
  | cons op rest ih =>
    rw [List.foldlM_cons] at h
    obtain ⟨next, hnext, h⟩ := bind_eq_ok.mp h
    have hall := ih (addOperation_noted hnoted hnext) h
    rwa [List.append_assoc] at hall

/-- An operation is refused for a fault of its own. -/
theorem addOperation_error {before : List Operation} {op : Operation} {seen : Seen}
    {e : ExtractError} (hnoted : Noted before seen) (h : addOperation seen op = .error e) :
    Fault before op e := by
  unfold addOperation at h
  rcases bind_eq_error.mp h with h | ⟨d, hd, h⟩
  · exact .declaration h (Operation.declaration_error h)
  dsimp only at h
  split at h
  · next label hlabel =>
    obtain ⟨previous, hmem, hprevious, rfl⟩ := hnoted.queries hlabel
    cases h
    exact .query ⟨d, hd, rfl⟩ hmem hprevious
  rcases bind_eq_error.mp h with h | ⟨pipes, -, h⟩
  · obtain ⟨earlier, r, later, pipes, hchain, hearlier, hr⟩ := foldlM_eq_error h
    obtain ⟨source, hsource, hother, rfl⟩ := addPipe_error hr
    exact .step hd hchain ((addPipes_known hearlier hsource).symm.imp_right hnoted.pipes) hother
  · cases h

/-- Operations are refused for a fault of the first one that does not stand together with those
before it. -/
theorem addOperations_error {ops : List Operation} {e : ExtractError}
    (h : ops.foldlM addOperation ⟨[], []⟩ = .error e) :
    ∃ before op after, ops = before ++ op :: after ∧ Sound before ∧ Fault before op e := by
  obtain ⟨before, op, after, seen, hsplit, hbefore, hop⟩ := foldlM_eq_error h
  have hnothing : Records ⟨[], []⟩ [] := ⟨rfl, List.nodup_nil, by simp⟩
  obtain ⟨ds, hds, hrecords⟩ := addOperations_ok hnothing hbefore
  have hnone : Noted [] ⟨[], []⟩ := ⟨fun h => (nomatch h), fun h => (nomatch h)⟩
  have hnoted : Noted before seen := addOperations_noted hnone hbefore
  rw [List.nil_append] at hrecords
  exact ⟨before, op, after, hsplit, ⟨ds, hds, hrecords.coherent⟩, addOperation_error hnoted hop⟩

end Validation

namespace Specification

open Validation

variable {spec : Specification}

/-- What validates is sound. -/
theorem validate_sound {summary : Summary} (h : spec.validate = .ok summary) :
    (∃ sources, sourcesOf spec.dataSources = .ok sources) ∧ Sound spec.operations := by
  obtain ⟨sources, hsources, -⟩ := bind_eq_ok.mp h
  exact ⟨⟨sources, hsources⟩, validate_ok h⟩

/-- Where validation fails, the fault is of the first operation that cannot be added. -/
theorem validate_error {sources : List DataSource} {e : ExtractError}
    (hsources : sourcesOf spec.dataSources = .ok sources) (h : spec.validate = .error e) :
    ∃ before op after, spec.operations = before ++ op :: after ∧ Sound before ∧
      Fault before op e := by
  unfold validate at h
  rw [hsources] at h
  rcases bind_eq_error.mp h with h | ⟨_, -, h⟩
  · cases h
  rcases bind_eq_error.mp h with h | ⟨seen, -, h⟩
  · exact addOperations_error h
  · cases h

/-- A specification is valid exactly when its data sources are well formed and its operations are
sound. When only the operations are not, the error is the fault of the first operation that is not
sound with those before it. -/
theorem validate_decides (spec : Specification) :
    ((∃ summary, spec.validate = .ok summary) ↔
      (∃ sources, sourcesOf spec.dataSources = .ok sources) ∧ Sound spec.operations) ∧
    ∀ sources e, sourcesOf spec.dataSources = .ok sources → spec.validate = .error e →
      ∃ before op after, spec.operations = before ++ op :: after ∧
        Sound before ∧ ¬Sound (before ++ [op]) ∧ Fault before op e := by
  refine ⟨⟨fun ⟨_, h⟩ => validate_sound h, ?_⟩, ?_⟩
  · rintro ⟨⟨sources, hsources⟩, hsound⟩
    cases hvalid : spec.validate with
    | ok summary => exact ⟨summary, rfl⟩
    | error e =>
      obtain ⟨before, op, after, hsplit, -, hfault⟩ := validate_error hsources hvalid
      rw [hsplit, List.append_cons] at hsound
      exact absurd hsound.of_append hfault.not_sound
  · intro sources e hsources h
    obtain ⟨before, op, after, hsplit, hsound, hfault⟩ := validate_error hsources h
    exact ⟨before, op, after, hsplit, hsound, hfault.not_sound, hfault⟩

def colliding : Specification where
  dataSources := .null
  operations :=
    [⟨"/movies/\x7bactor\x7d", "get", .map [(.str "query", .map [(.str "graphql-query", .str "a")])]⟩,
      ⟨"/movies-actor", "get", .map [(.str "query", .map [(.str "graphql-query", .str "b")])]⟩]

theorem validate_decides_of_colliding :
    let e : ExtractError := .duplicateName
      ⟨.query, "getmoviesactor", some "get /movies/\x7bactor\x7d and get /movies-actor"⟩
    sourcesOf colliding.dataSources = .ok [] ∧ colliding.validate = .error e ∧
      ∃ before op after, colliding.operations = before ++ op :: after ∧
        Sound before ∧ ¬Sound (before ++ [op]) ∧ Fault before op e := by
  intro e
  have hsources : sourcesOf colliding.dataSources = .ok [] := by rfl
  have hvalid : colliding.validate = .error e := by rfl
  exact ⟨hsources, hvalid, (validate_decides colliding).2 [] e hsources hvalid⟩

end Specification

end LinkedApi
