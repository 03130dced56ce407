import LinkedApi.Proofs.Compilation.Completeness
import LinkedApi.Proofs.Specification
import LinkedApi.Sink.Memory

/-!
# The closed form of the artifacts

The artifacts of a successful compilation are given by one expression over what the specification
declares. Nothing of the order in which they are written is left in it.
-/

namespace LinkedApi

open Compilation Generated Steps

/-- The artifacts of some declarations, where the code of pipe modules is fetched from a fixed
content. A pipe module that several chains name is defined once, where it is first named. -/
def closedForm (fetch : String → Fetched) (sources : List DataSource) (ds : List Declaration) :
    Texts
  | .pipeModules =>
    let pipes := PipeModule.firsts ((ds.flatMap (·.pipes)).map (·.loadedFrom fetch))
    Writers.PipeModules.header ++ String.join (pipes.map pipeDefinition) ++
      pipeExports (pipes.map (·.name))
  | .query =>
    queryHeader sources ++ String.join (ds.map fun d => queryDefinition d.query) ++
      queryExports (ds.map (·.query.name))
  | .routes =>
    Writers.Routes.header ++
      String.join (ds.map fun d => handler ⟨d.route, d.query.name, d.pipes.map (·.name)⟩) ++
      routeExports (ds.map (·.route))

namespace Emitted

variable {fetch : String → Fetched}

/-- What is emitted for some declarations when their chains are as they are fetched. -/
theorem artifacts_eq (sources : List DataSource) {es : List Emitted}
    (h : ∀ e ∈ es, e.chain = e.declaration.pipes.map (·.loadedFrom fetch)) :
    artifacts sources es = closedForm fetch sources (es.map (·.declaration)) := by
  have hmodules : modules es =
      PipeModule.firsts (((es.map (·.declaration)).flatMap (·.pipes)).map (·.loadedFrom fetch)) := by
    rw [modules, List.map_flatMap, List.flatMap_map]
    congr 1
    exact List.flatMap_congr h
  have hbindings : es.map binding = (es.map (·.declaration)).map
      fun d => ⟨d.route, d.query.name, d.pipes.map (·.name)⟩ := by
    rw [List.map_map]
    apply List.map_congr_left
    intro e he
    have hnames : e.chain.map (·.name) = e.declaration.pipes.map (·.name) := by
      rw [h e he, map_name_loadedFrom]
    rw [binding, Writers.bindingOf, hnames]
    rfl
  funext artifact
  cases artifact with
  | pipeModules => simp only [artifacts, finalLayout, layout, hmodules, closedForm]
  | query => simp only [artifacts, finalLayout, layout, closedForm, List.map_map, Function.comp_def]
  | routes =>
    simp only [artifacts, finalLayout, layout, hbindings, closedForm, List.map_map,
      Function.comp_def]

end Emitted

/-! ## The world of a sink in memory -/

namespace Recordings

/-- All artifacts have been created and hold these texts. -/
def Holds (texts : Texts) (r : Recordings) : Prop :=
  ∀ artifact, (r artifact).map (·.text) = some (texts artifact)

theorem memory_append {r : Recordings} {artifact : Artifact} {recording : Recording}
    (h : r artifact = some recording) (more : String) :
    Sink.memory.append artifact more r =
      (.ok (), r.set artifact ⟨recording.text ++ more, recording.appends + 1⟩) := by
  have happend : r.append artifact more =
      .ok (r.set artifact ⟨recording.text ++ more, recording.appends + 1⟩) := by
    rw [append, h]
  simp only [Sink.memory, bind, StateT.bind, get, getThe, MonadStateOf.get, StateT.get, pure]
  rw [happend]
  rfl

/-- In memory each artifact holds what has been appended to it, and no append fails. -/
theorem memory_tracks : Sink.memory.Tracks Holds (fun _ => False) := by
  constructor
  intro texts r artifact more hheld
  obtain ⟨recording, hrecording, htext⟩ := Option.map_eq_some_iff.mp (hheld artifact)
  rw [memory_append hrecording]
  intro other
  by_cases hother : other = artifact
  · subst hother
    simp [set, Texts.extend, htext]
  · simp [set, Texts.extend, hother, hheld other]

theorem memory_creates : Sink.memory.Creates Holds (fun _ => False) := by
  intro r artifact
  cases artifact <;> rfl

end Recordings

namespace Compilation

abbrev fetching (ω : Type) (name : String) (fetch : String → Fetched) : Transport (StateM ω) :=
  .each name fun location => pure (fetch location)

/-- Whatever was in memory before, no operation is lost, repeated or moved, and the code of a pipe
module is the text at its source without the white space around it. -/
theorem closedForm_of_success {tree : Yaml} {spec : Specification} {name : String}
    {fetch : String → Fetched} {before after : Recordings} {report : Report}
    (htree : Specification.ofTree tree = .ok spec)
    (h : compileSpecification Sink.memory (fetching Recordings name fetch) spec before =
      (.ok report, after)) :
    ∃ ds, List.Forall₂ Declares (Specification.pairs tree) ds ∧
      (∀ d ∈ ds, ∀ r ∈ d.pipes, ∃ body, fetch r.source = .ok body ∧
        Text.Trimmed body.toList (r.loadedFrom fetch).code.toList) ∧
      ∀ artifact, (after artifact).map (·.text) =
        some (closedForm fetch (Specification.declaredSources tree) ds artifact) := by
  obtain ⟨hpairs, hnode⟩ := Specification.ofTree_ok htree
  cases hchecked : checkedSources spec with
  | error cause =>
    rw [compileSpecification_apply, hchecked] at h
    cases h
  | ok sources =>
    obtain ⟨hsources, ds, hops, hcoherent⟩ := checkedSources_ok hchecked
    have hconcluded := compileSpecification_spec Recordings.memory_tracks
      (Transport.each_tracks fetch name _) Recordings.memory_creates hchecked hops hcoherent before
    rw [h] at hconcluded
    cases hconcluded with
    | written _ _ es hes hsound hheld =>
      have hchains : ∀ e ∈ es, e.chain = e.declaration.pipes.map (·.loadedFrom fetch) :=
        fun e he => (hsound e he).loads.2
      rw [Emitted.artifacts_eq sources hchains, hes] at hheld
      refine ⟨ds, ?_, ?_, ?_⟩
      · rw [← hpairs]
        exact hops.imp fun _ _ => Operation.declares_of_ok
      · intro d hd r hr
        rw [← hes] at hd
        obtain ⟨e, he, rfl⟩ := List.mem_map.mp hd
        obtain ⟨body, hbody⟩ := (hsound e he).loads.1 r hr
        exact ⟨body, hbody, PipeReference.trimmed_loadedFrom hbody⟩
      · rw [Specification.declaredSources, ← hnode, ← Specification.sourcesOf_ok hsources]
        exact hheld

/-- A document with two operations that share a step, which the second declares in a sequence. -/
def sharing : Yaml :=
  .map [(.str "datasources", .map [(.str "sparql", .seq [.str "http://x/sparql"])]),
    (.str "paths", .map [
      (.str "/films/\x7bid\x7d", .map [
        (.str "get", .map [
          (.str "query", .map [(.str "graphql-query", .str "\x7b film \x7d")]),
          (.str "postprocessing", .map [(.str "first", .str "http://x/first.js")])])]),
      (.str "/actors", .map [
        (.str "get", .map [
          (.str "query", .map [(.str "graphql-query", .str "\x7b actor \x7d")]),
          (.str "postprocessing", .seq [
            .map [(.str "name", .str "sorted"), (.str "source", .str "http://x/sorted.js")],
            .map [(.str "name", .str "first"), (.str "source", .str "http://x/first.js")]])])])])]

/-- Its only chain that is a mapping has one step. -/
theorem sharing_namesApart : ∀ op ∈ Specification.pairs sharing, op.NamesApart := by
  refine List.forall_mem_cons.mpr ⟨?_, List.forall_mem_cons.mpr ⟨?_, nofun⟩⟩
  · intro entries hmap
    cases hmap
    decide
  · intro entries hmap
    cases hmap

theorem closedForm_of_sharing : ∃ spec report after,
    Specification.ofTree sharing = .ok spec ∧
      compileSpecification Sink.memory (fetching Recordings "" fun _ => .ok " (d) => d\n") spec
        Recordings.none = (.ok report, after) ∧
      ∃ ds, List.Forall₂ Declares (Specification.pairs sharing) ds ∧
        (∀ d ∈ ds, ∀ r ∈ d.pipes, ∃ body, (.ok " (d) => d\n" : Fetched) = .ok body ∧
          Text.Trimmed body.toList (r.loadedFrom fun _ => .ok " (d) => d\n").code.toList) ∧
        ∀ artifact, (after artifact).map (·.text) =
          some (closedForm (fun _ => .ok " (d) => d\n") (Specification.declaredSources sharing) ds
            artifact) := by
  have htree : Specification.ofTree sharing =
      .ok ⟨.map [(.str "sparql", .seq [.str "http://x/sparql"])], Specification.pairs sharing⟩ := by
    rfl
  have hchecked : checkedSources
      ⟨.map [(.str "sparql", .seq [.str "http://x/sparql"])], Specification.pairs sharing⟩ =
        .ok [⟨"sparql", "http://x/sparql"⟩] := by
    rfl
  obtain ⟨report, after, h⟩ := succeeds_of_namesApart Recordings.memory_tracks
    (Transport.each_tracks (fun _ => .ok " (d) => d\n") "" _) Recordings.memory_creates
    (fun _ => id) nofun hchecked sharing_namesApart Recordings.none
  exact ⟨_, report, after, htree, h, closedForm_of_success htree h⟩

end Compilation

end LinkedApi
