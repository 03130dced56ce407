import LinkedApi.Proofs.Compilation.Counts
import LinkedApi.Proofs.Generation.Literals

/-!
# Texts that are read back

The generated code holds paths, queries and sources as literals. Each is read back as it was
written, so that what the operations declare can be told from the artifacts of a compilation.
-/

namespace LinkedApi

open Generated Text

variable {ω : Type}

namespace Compilation

open Emission

section Declared

variable {es : List Emitted} {transport : Transport (StateM ω)}

/-- A pipe module that is written is one of those that are declared. -/
theorem exists_declaration_of_mem_modules (hsound : ∀ e ∈ es, e.Sound transport.Loaded)
    {pipe : PipeModule} (h : pipe ∈ Emitted.modules es) :
    ∃ d ∈ es.map (·.declaration), pipe.reference ∈ d.pipes := by
  obtain ⟨e, he, hchain⟩ := Emitted.exists_of_mem_modules h
  exact ⟨e.declaration, List.mem_map_of_mem he,
    Emitted.mem_references (hsound e he).references hchain⟩

/-- Where whole chains are loaded, each pipe module that is declared is written. -/
theorem mem_references_modules (hcomplete : transport.Complete)
    (hsound : ∀ e ∈ es, e.Sound transport.Loaded) (hcoherent : Coherent (es.map (·.declaration)))
    {d : Declaration} (hd : d ∈ es.map (·.declaration)) {r : PipeReference} (hr : r ∈ d.pipes) :
    ∃ pipe ∈ Emitted.modules es, pipe.reference = r := by
  have hdeclared : r ∈ (es.map (·.declaration)).flatMap (·.pipes) :=
    List.mem_flatMap.mpr ⟨d, hd, hr⟩
  have hname := (mem_names_modules hcomplete hsound r.name).mpr (List.mem_map_of_mem hdeclared)
  obtain ⟨pipe, hpipe, hsame⟩ := List.mem_map.mp hname
  obtain ⟨d', hd', hreference⟩ := exists_declaration_of_mem_modules hsound hpipe
  have hsource := hcoherent.sources pipe.reference (List.mem_flatMap.mpr ⟨d', hd', hreference⟩) r
    hdeclared hsame
  refine ⟨pipe, hpipe, ?_⟩
  cases r
  exact congrArg₂ PipeReference.mk hsame hsource

end Declared

/-- A literal is read up to its own last quote, whatever its text is and whatever follows, and no
character of it ends a line. The first line of a definition of a pipe module is thus the comment
with its source. Once a compilation has succeeded, the paths, the texts of the queries and the
sources are read from its artifacts as the operations declare them. -/
theorem literals_read_back :
    (∀ text rest, readLiteral? (literal text ++ rest) = some (text, rest)) ∧
    (∀ text, ∀ c ∈ literal text, isLineTerminator c = false) ∧
    Function.Injective literal ∧
    (∀ (pipe : PipeModule) (after : String),
      firstLine (pipeDefinition pipe ++ after) = sourceLine pipe.source ∧
      firstLiteral? (pipeDefinition pipe ++ after) = some pipe.source) ∧
    ∀ (sink : Sink (StateM ω)) (transport : Transport (StateM ω)) (spec : Specification) (v v' : ω)
      (journal : Journal) (report : Report),
      compileSpecification sink.journaled transport.journaled spec (v, []) =
        (.ok report, (v', journal)) →
      ∃ (ds : List Declaration) (pipes : List PipeModule),
        List.Forall₂ (fun op d => op.declaration = .ok d) spec.operations ds ∧
        routePaths (journal.text .routes) = ds.map (·.route.path) ∧
        queryTexts (journal.text .query) = ds.map (·.query.text) ∧
        (∀ before pipe after, pipes = before ++ pipe :: after →
          ∃ rest, journal.text .pipeModules =
              Writers.PipeModules.header ++ String.join (before.map pipeDefinition) ++ rest ∧
            firstLiteral? rest = some pipe.source) ∧
        (∀ pipe ∈ pipes, ∃ d ∈ ds, pipe.reference ∈ d.pipes) ∧
        (transport.Complete → ∀ d ∈ ds, ∀ r ∈ d.pipes, ∃ pipe ∈ pipes, pipe.reference = r) := by
  refine ⟨readLiteral?_literal, isLineTerminator_literal, literal_injective, ?_, ?_⟩
  · exact fun pipe after =>
      ⟨firstLine_pipeDefinition pipe after, firstLiteral?_pipeDefinition pipe after⟩
  · intro sink transport spec v v' journal report h
    obtain ⟨sources, es, hops, hcoherent, hsound, htext⟩ := appended_of_success h
    refine ⟨es.map (·.declaration), Emitted.modules es, hops, ?_, ?_, ?_, ?_, ?_⟩
    · rw [htext, Emitted.artifacts, finalLayout, layout,
        routePaths_routes (isIdentifier_of_mem_bindings hsound), List.map_map, List.map_map]
      rfl
    · rw [htext, Emitted.artifacts, finalLayout, layout,
        queryTexts_queries sources (isIdentifier_of_mem_queries hsound), List.map_map, List.map_map]
      rfl
    · intro before pipe after hpipes
      rw [htext, Emitted.artifacts, finalLayout, layout, hpipes]
      exact exists_source_of_pipes before pipe after _
    · exact fun pipe => exists_declaration_of_mem_modules hsound
    · exact fun hcomplete d hd r => mem_references_modules hcomplete hsound hcoherent hd

/-- Two operations, read from the artifacts that their compilation has written. -/
theorem literals_read_back_of_sharing :
    let transport : Transport (StateM Unit) := .each "" fun _ => pure (.ok " (d) => d\n")
    let spec : Specification :=
      ⟨.map [(.str "sparql", .seq [.str "http://x/sparql"])], Specification.pairs sharing⟩
    ∃ report journal,
      compileSpecification Sink.accepting.journaled transport.journaled spec ((), []) =
        (.ok report, ((), journal)) ∧
      routePaths (journal.text .routes) = ["/films/:id", "/actors"] ∧
      queryTexts (journal.text .query) = ["\x7b film \x7d", "\x7b actor \x7d"] := by
  intro transport spec
  obtain ⟨report, journal, h⟩ := sharing_journaled
  obtain ⟨ds, -, hops, hpaths, hqueries, -⟩ :=
    literals_read_back.2.2.2.2 .accepting transport spec () () journal report h
  have hok : Function.Injective (Except.ok : String × String → Except ExtractError _) :=
    fun _ _ => Except.ok.inj
  have hdeclared : (spec.operations.map Operation.declaration).map
      (·.map fun d => (d.route.path, d.query.text)) =
        [("/films/:id", "\x7b film \x7d"), ("/actors", "\x7b actor \x7d")].map .ok := by
    rfl
  rw [Specification.map_declaration hops, List.map_map] at hdeclared
  have hread : ds.map (fun d => (d.route.path, d.query.text)) =
      [("/films/:id", "\x7b film \x7d"), ("/actors", "\x7b actor \x7d")] := by
    apply List.map_injective_iff.mpr hok
    rwa [List.map_map]
  refine ⟨report, journal, h, ?_, ?_⟩
  · rw [hpaths]
    exact Eq.trans (by rw [List.map_map]; rfl) (congrArg (List.map Prod.fst) hread)
  · rw [hqueries]
    exact Eq.trans (by rw [List.map_map]; rfl) (congrArg (List.map Prod.snd) hread)

end Compilation

end LinkedApi
