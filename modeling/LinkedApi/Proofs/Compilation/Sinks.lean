import LinkedApi.Proofs.Sink.Calls

/-!
# The same artifacts in every sink

What a compilation writes is given by the specification and by what is fetched. So a compilation
that succeeds in files succeeds in memory, with the same artifacts, whatever was there before.
-/

namespace LinkedApi

open Compilation

variable {ω : Type} {fetch : String → Fetched}

/-- What is emitted for a declaration when its chain is fetched from a fixed content. -/
def Emitted.fetched (fetch : String → Fetched) (d : Declaration) : Emitted :=
  ⟨d, d.pipes.map (·.loadedFrom fetch)⟩

/-- What is emitted is known from the declarations, where their chains are fetched from a fixed
content. -/
theorem Emitted.eq_fetched {es : List Emitted}
    (h : ∀ e ∈ es, e.chain = e.declaration.pipes.map (·.loadedFrom fetch)) :
    es = (es.map (·.declaration)).map (fetched fetch) := by
  rw [List.map_map]
  refine (List.map_id es).symm.trans (List.map_congr_left fun e he => ?_)
  obtain ⟨d, chain⟩ := e
  exact congrArg (Emitted.mk d) (h ⟨d, chain⟩ he)

/-! ## Contents without gaps -/

def filled (fetch : String → Fetched) : String → Fetched := fun source =>
  .ok ((fetch source).toOption.getD "")

/-- Where a chain loads, nothing is missing in its content that has to be filled. -/
theorem filled_eq {refs : List PipeReference} (h : Loads fetch refs) {r : PipeReference}
    (hr : r ∈ refs) : filled fetch r.source = fetch r.source := by
  obtain ⟨body, hbody⟩ := h r hr
  rw [filled, hbody]
  rfl

theorem fetched_filled {d : Declaration} (h : Loads fetch d.pipes) :
    Emitted.fetched (filled fetch) d = Emitted.fetched fetch d := by
  have hchain : d.pipes.map (·.loadedFrom (filled fetch)) = d.pipes.map (·.loadedFrom fetch) := by
    refine List.map_congr_left fun r hr => ?_
    rw [PipeReference.loadedFrom, PipeReference.loadedFrom, filled_eq h hr]
  rw [Emitted.fetched, hchain]
  rfl

theorem gathered_filled {op : Operation} {d : Declaration} (hd : op.declaration = .ok d)
    (h : Loads fetch d.pipes) (name : String) (v : ω) :
    Emission.gathered (fetching ω name fetch) op v =
      Emission.gathered (fetching ω name (filled fetch)) op v := by
  have houtcomes : d.pipes.map (fun r => (r, filled fetch r.source)) =
      d.pipes.map fun r => (r, fetch r.source) :=
    List.map_congr_left fun r hr => by rw [filled_eq h hr]
  rw [Emission.gathered, Emission.gathered, hd]
  dsimp only
  rw [Loading.load_each, Loading.load_each, houtcomes]

namespace Compilation

variable {sink : Sink (StateM ω)} {held : Texts → ω → Prop} {spec : Specification}
  {sources : List DataSource} {ds : List Declaration}

/-- No chain that has been written has names that differ by a tag alone. -/
theorem namesApart_of_sound {es : List Emitted}
    (hops : List.Forall₂ (fun op d => op.declaration = .ok d) spec.operations
      (es.map Emitted.declaration))
    (hsound : ∀ e ∈ es,
      e.Sound fun refs chain => Loads fetch refs ∧ chain = refs.map (·.loadedFrom fetch)) :
    ∀ op ∈ spec.operations, op.NamesApart := by
  intro op hop
  obtain ⟨d, hd, hdeclared⟩ := Specification.exists_declaration hops hop
  obtain ⟨e, he, rfl⟩ := List.mem_map.mp hd
  have hnodup := (hsound e he).nodup
  rw [(hsound e he).loads.2, map_name_loadedFrom] at hnodup
  exact (Operation.namesApart_iff (Operation.declares_of_ok hdeclared).pipes).mpr hnodup

/-- A valid specification is written as a whole when all its chains can be loaded, no chain has
names that differ by a tag alone and the sink refuses nothing. -/
theorem succeeds_of_loads (hsink : sink.Tracks held fun _ => False)
    (hchecked : checkedSources spec = .ok sources)
    (hops : List.Forall₂ (fun op d => op.declaration = .ok d) spec.operations ds)
    (hcoherent : Coherent ds) (hnames : ∀ op ∈ spec.operations, op.NamesApart)
    (hloads : ∀ d ∈ ds, Loads fetch d.pipes) {v v₀ : ω}
    (hcreated : sink.createAll Artifact.all v = (.ok (), v₀)) (hheld : held (fun _ => "") v₀)
    (name : String) :
    ∃ v', compileSpecification sink (fetching ω name fetch) spec v =
        (.ok (Emitted.report (ds.map (Emitted.fetched fetch))), v') ∧
      held (Emitted.artifacts sources (ds.map (Emitted.fetched fetch))) v' := by
  have hfilled : ds.map (Emitted.fetched (filled fetch)) = ds.map (Emitted.fetched fetch) :=
    List.map_congr_left fun d hd => fetched_filled (hloads d hd)
  have hsame : Emission.run sink (fetching ω name fetch) spec =
      Emission.run sink (fetching ω name (filled fetch)) spec := by
    refine Emission.run_congr fun op hop v => ?_
    obtain ⟨d, hd, hdeclared⟩ := Specification.exists_declaration hops hop
    exact gathered_filled hdeclared (hloads d hd) name v
  have hrun := Emission.run_reports hsink (Transport.each_tracks (filled fetch) name held) hops
    hcoherent (.idle sources) v₀ ⟨rfl, hheld⟩
  rw [compileSpecification_apply, hchecked]
  dsimp only
  rw [hcreated]
  dsimp only
  rw [hsame]
  revert hrun
  rcases Emission.run sink (fetching ω name (filled fetch)) spec (.idle sources) v₀ with
    ⟨⟨cause | report, e⟩, v'⟩
  · intro hexcused
    rcases isOutside_of_namesApart hops hnames hexcused with ⟨_, _, hrefused⟩ | ⟨_, _, hunloaded⟩
    · exact hrefused.elim
    · cases hunloaded
  · rintro ⟨es, rfl, hsound, rfl, hheld⟩
    have hes := Emitted.eq_fetched fun e he => (hsound e he).loads.2
    rw [hfilled] at hes
    rw [← hes]
    exact ⟨v', rfl, hheld⟩

/-- The output depends neither on the kind of sink nor on what was there before. When a compilation
into the files of a directory succeeds, whatever was in them, so does the same compilation into
memory, whatever was there, with the same report; the files are byte for byte what is in memory, and
no file changes but theirs. And when the directory can be made and none of the artifacts is in it,
the two sinks accept and refuse the same calls, however many have been made, and after each they
hold the same texts. -/
theorem sinks_agree (directory : String) :
    (∀ (name : String) (fetch : String → Fetched) (spec : Specification) (fs fs' : FileSystem)
      (report : Report) (before : Recordings),
      compileSpecification (Sink.files .ofState directory) (fetching FileSystem name fetch) spec fs =
        (.ok report, fs') →
      ∃ after, compileSpecification Sink.memory (fetching Recordings name fetch) spec before =
          (.ok report, after) ∧
        (∀ artifact, ∃ recording, after artifact = some recording ∧
          fs'.readBytes (Sink.filePath directory artifact) = .ok recording.text.toUTF8) ∧
        ∀ place, (∀ artifact bytes,
            fs'.target (Sink.filePath directory artifact) ≠ .ok (.entry place (.file bytes))) →
          ∀ bytes, fs'.entry? place = some (.file bytes) ↔ fs.entry? place = some (.file bytes)) ∧
    ∀ (fs : FileSystem) (calls : List Sink.Call), Sink.Ready directory fs →
      ((Sink.files .ofState directory).acceptsEach calls fs).1 =
          (Sink.memory.acceptsEach calls Recordings.none).1 ∧
        Sink.Mirrors directory ((Sink.files .ofState directory).acceptsEach calls fs).2
          (Sink.memory.acceptsEach calls Recordings.none).2 := by
  constructor
  · intro name fetch spec fs fs' report before h
    obtain ⟨sources, es, hchecked, hops, hcoherent, hsound, rfl, hstored⟩ := emitted_of_success
      (Sink.files_tracks directory fs) (Transport.each_tracks fetch name _)
      (fun _ => Sink.stored_of_createAll) h
    have hes := Emitted.eq_fetched fun e he => (hsound e he).loads.2
    have hloads : ∀ d ∈ es.map (·.declaration), Loads fetch d.pipes :=
      List.forall_mem_map.mpr fun e he => (hsound e he).loads.1
    have hempty := Recordings.memory_creates before
    obtain ⟨after, hafter, hholds⟩ := succeeds_of_loads Recordings.memory_tracks hchecked hops
      hcoherent (namesApart_of_sound hops hsound) hloads rfl hempty name
    rw [← hes] at hafter hholds
    refine ⟨after, hafter, fun artifact => ?_, hstored.others⟩
    obtain ⟨recording, hrecording, htext⟩ := Option.map_eq_some_iff.mp (hholds artifact)
    obtain ⟨place, hfile⟩ := hstored.file artifact
    refine ⟨recording, hrecording, ?_⟩
    rw [htext]
    exact FileSystem.readBytes_of_target (Sink.namesDirectory_filePath directory artifact) hfile
  · intro fs calls hready
    obtain ⟨hsame, halike⟩ := Sink.acceptsEach_alike (.untouched hready) calls
    exact ⟨hsame, halike.mirrors⟩

def stale : FileSystem where
  entries := [(["out"], .directory), (["out", "routes.js"], .file "left behind".toUTF8),
    (["out", "notes.txt"], .file "kept".toUTF8)]
  workingDirectory := []

theorem stale_succeeds : ∃ report fs,
    compileSpecification (Sink.files .ofState "out")
      (fetching FileSystem "" fun _ => .ok " (d) => d\n")
      ⟨.map [(.str "sparql", .seq [.str "http://x/sparql"])], Specification.pairs sharing⟩ stale =
        (.ok report, fs) := by
  have hchecked : checkedSources
      ⟨.map [(.str "sparql", .seq [.str "http://x/sparql"])], Specification.pairs sharing⟩ =
        .ok [⟨"sparql", "http://x/sparql"⟩] := by
    rfl
  obtain ⟨-, ds, hops, hcoherent⟩ := checkedSources_ok hchecked
  have hloads : ∀ d ∈ ds, Loads (fun _ => .ok " (d) => d\n") d.pipes := fun _ _ _ _ => ⟨_, rfl⟩
  have hcreated : ((Sink.files .ofState "out").createAll Artifact.all stale).1 = .ok () := by
    decide +kernel
  have hstored := Sink.stored_of_createAll (Prod.ext hcreated rfl)
  obtain ⟨fs, hsuccess, -⟩ := succeeds_of_loads (Sink.files_tracks "out" stale) hchecked hops
    hcoherent sharing_namesApart hloads (Prod.ext hcreated rfl) hstored ""
  exact ⟨_, fs, hsuccess⟩

/-- Where nothing is, a directory can be made for artifacts. -/
theorem ready_of_nothing : Sink.Ready "out" ⟨[], []⟩ := by
  have hvacant : FileSystem.target ⟨[], []⟩ "out" = .ok (.vacant ["out"]) := by decide +kernel
  have hmade : FileSystem.makeDirectories ⟨[], []⟩ "out" = .ok ⟨[(["out"], .directory)], []⟩ := by
    rw [FileSystem.makeDirectories, if_neg (by decide), FileSystem.makeDirectory, hvacant]
    rfl
  refine ⟨_, hmade, fun artifact => ?_⟩
  have htarget : FileSystem.target ⟨[(["out"], .directory)], []⟩ (Sink.filePath "out" artifact) =
      .ok (.holding ["out", artifact.fileName] none) := by
    cases artifact <;> decide +kernel
  have hpath := Sink.namesDirectory_filePath "out" artifact
  exact ⟨FileSystem.exists?_of_target hpath htarget, _,
    FileSystem.writeText_of_target hpath htarget ""⟩

/-- Two operations are compiled over an artifact that was left behind. In a directory that has to be
made, an append comes too early, is refused, and comes again. -/
theorem sinks_agree_of_stale :
    let fetch : String → Fetched := fun _ => .ok " (d) => d\n"
    let spec : Specification :=
      ⟨.map [(.str "sparql", .seq [.str "http://x/sparql"])], Specification.pairs sharing⟩
    let calls : List Sink.Call := [.append .routes "a", .create .routes, .append .routes "b"]
    (∃ report fs after,
      compileSpecification (Sink.files .ofState "out") (fetching FileSystem "" fetch) spec stale =
        (.ok report, fs) ∧
      compileSpecification Sink.memory (fetching Recordings "" fetch) spec Recordings.none =
        (.ok report, after) ∧
      (∀ artifact, ∃ recording, after artifact = some recording ∧
        fs.readBytes (Sink.filePath "out" artifact) = .ok recording.text.toUTF8) ∧
      fs.entry? ["out", "notes.txt"] = some (.file "kept".toUTF8)) ∧
    Sink.Ready "out" ⟨[], []⟩ ∧
    ((Sink.files .ofState "out").acceptsEach calls ⟨[], []⟩).1 = [false, true, true] := by
  intro fetch spec calls
  obtain ⟨hcompiled, hcalled⟩ := sinks_agree "out"
  refine ⟨?_, ready_of_nothing, ?_⟩
  · obtain ⟨report, fs, hsuccess⟩ := stale_succeeds
    obtain ⟨after, hafter, hsame, hothers⟩ := hcompiled "" fetch spec stale fs report
      Recordings.none hsuccess
    refine ⟨report, fs, after, hsuccess, hafter, hsame, ?_⟩
    have hkept : stale.entry? ["out", "notes.txt"] = some (.file "kept".toUTF8) := by rfl
    refine (hothers ["out", "notes.txt"] ?_ _).mpr hkept
    intro artifact bytes htarget
    have hfile : Sink.FileAt "out" fs artifact ["out", "notes.txt"] (some bytes) := htarget
    have hlast := hfile.getLast?
    revert hlast
    cases artifact <;> decide
  · obtain ⟨haccepted, -⟩ := hcalled ⟨[], []⟩ calls ready_of_nothing
    exact haccepted.trans rfl

end Compilation

end LinkedApi
