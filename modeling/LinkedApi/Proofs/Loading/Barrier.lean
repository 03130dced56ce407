import LinkedApi.Loading
import LinkedApi.Proofs.Outcomes
import LinkedApi.Proofs.Text.Trim
import LinkedApi.Proofs.Transport.Course

/-!
# The barrier of loading

The code of a chain is fetched at once, and the fetches may settle in any order. What is loaded
depends only on the outcome of each position: the declared steps with their own code, or the
failure of the first of them whose fetch failed. Nothing is given before every fetch has settled.
-/

namespace LinkedApi

open Flight (Course)

variable {answer : Nat → Fetched}

/-- A transport that makes all fetches at once and waits for all of them, whatever course they
take. It keeps the flights. -/
def Transport.joined (course : (locations : List String) → Course locations answer) :
    Transport (StateM (List Flight)) where
  name := "joined"
  fetchAll locations := fun flights =>
    ((course locations).flight.outcomes?.getD [], flights ++ [(course locations).flight])

/-- The flights of one fetch for each location, in order, all of which have settled. -/
structure Flight.Complete (flights : List Flight) (locations : List String) : Prop where
  requested : flights.flatMap (·.requested) = locations
  settled : ∀ flight ∈ flights, flight.pending = 0

namespace Loading

/-- Every fetch of a chain brought a text, and each declared step has its own as code, without the
white space around it. -/
structure LoadsAll (answer : Nat → Fetched) (chain : List PipeReference)
    (modules : List PipeModule) : Prop where
  length_eq : modules.length = chain.length
  module : ∀ position pipe, chain[position]? = some pipe →
    ∃ body code, answer position = .ok body ∧ Text.Trimmed body.toList code.toList ∧
      modules[position]? = some (pipe.withCode code)

/-- The failure is that of the first declared step whose fetch failed. -/
def FailsFirst (answer : Nat → Fetched) (chain : List PipeReference) (e : LoadingError) : Prop :=
  ∃ position, chain[position]? = some e.pipe ∧ answer position = .error e.cause ∧
    ∀ earlier < position, ∃ body, answer earlier = .ok body

/-- What a chain comes to, given the outcome of each position. -/
def ComesTo (answer : Nat → Fetched) (chain : List PipeReference) :
    Except LoadingError (List PipeModule) → Prop
  | .ok modules => LoadsAll answer chain modules
  | .error e => FailsFirst answer chain e

/-- What a chain comes to is known from the outcomes of its positions. -/
theorem assemble_comesTo (answer : Nat → Fetched) (chain : List PipeReference) :
    ComesTo answer chain (assemble (chain.zip (chain.mapIdx fun position _ => answer position))) := by
  induction chain generalizing answer with
  | nil => exact ⟨rfl, fun position pipe h => by cases h⟩
  | cons pipe rest ih =>
    have hrest := ih fun position => answer (position + 1)
    rw [List.mapIdx_cons, List.zip_cons_cons]
    cases hfirst : answer 0 with
    | error cause => exact ⟨0, rfl, hfirst, fun earlier h => absurd h (Nat.not_lt_zero _)⟩
    | ok body =>
      rw [assemble]
      revert hrest
      rcases assemble (rest.zip (rest.mapIdx fun position _ => answer (position + 1))) with e | modules
      · rintro ⟨position, hpipe, hcause, hearlier⟩
        refine ⟨position + 1, hpipe, hcause, fun earlier hlt => ?_⟩
        cases earlier with
        | zero => exact ⟨body, hfirst⟩
        | succ earlier => exact hearlier earlier (Nat.lt_of_succ_lt_succ hlt)
      · rintro ⟨hlength, hmodule⟩
        refine ⟨congrArg Nat.succ hlength, fun position other hother => ?_⟩
        cases position with
        | zero =>
          cases hother
          refine ⟨body, _, hfirst, ?_, rfl⟩
          rw [String.toList_ofList]
          exact Text.trimmed_trim body.toList
        | succ position => exact hmodule position other hother

/-- However a course went, each position has its outcome in the end. -/
theorem outcomes_course (chain : List PipeReference)
    (course : Course (chain.map (·.source)) answer) :
    course.flight.outcomes?.getD [] = chain.mapIdx fun position _ => answer position := by
  rw [Course.flight_eq, Flight.outcomes?_settled, Option.getD_some]
  apply List.ext_getElem?
  intro position
  rw [List.getElem?_mapIdx, List.getElem?_mapIdx, List.getElem?_map]
  cases chain[position]? <;> rfl

/-- From a table a chain is loaded as the table answers, however long the fetches take. -/
theorem load_table (t : TableTransport) (chain : List PipeReference) :
    ComesTo (t.answerAt (chain.map (·.source))) chain (load .table chain t).1 ∧
      (load .table chain t).2.requests = t.requests ++ chain.map (·.source) := by
  cases chain with
  | nil => exact ⟨⟨rfl, fun position pipe h => by cases h⟩, (List.append_nil _).symm⟩
  | cons pipe rest =>
    obtain ⟨course, houtcomes, hrequests⟩ := t.exists_course ((pipe :: rest).map (·.source))
    refine ⟨?_, hrequests⟩
    have hloaded : (load .table (pipe :: rest) t).1 = assemble ((pipe :: rest).zip
        ((pipe :: rest).mapIdx fun position _ =>
          t.answerAt ((pipe :: rest).map (·.source)) position)) := by
      rw [← outcomes_course (pipe :: rest) course, ← houtcomes]
      rfl
    rw [hloaded]
    exact assemble_comesTo _ _

/-! ## Every course -/

/-- A chain is assembled once the flight of all its fetches has settled. -/
theorem load_joined_cons (course : (locations : List String) → Course locations answer)
    (pipe : PipeReference) (rest : List PipeReference) (flights : List Flight) :
    load (.joined course) (pipe :: rest) flights =
      (assemble ((pipe :: rest).zip ((pipe :: rest).mapIdx fun position _ => answer position)),
        flights ++ [.settled ((pipe :: rest).map (·.source)) answer]) := by
  rw [← outcomes_course _ (course _), ← Course.flight_eq (course ((pipe :: rest).map (·.source)))]
  rfl

/-- Whatever course the fetches take: the whole chain is loaded, each step with the text that was
fetched for it, or the first failure in the declared order is given; each source has been asked
for once, in order, and every fetch has settled; and any other course gives the same. -/
theorem load_barrier (course other : (locations : List String) → Course locations answer)
    (chain : List PipeReference) (flights : List Flight) :
    ComesTo answer chain (load (.joined course) chain flights).1 ∧
      (∃ made, (load (.joined course) chain flights).2 = flights ++ made ∧
        Flight.Complete made (chain.map (·.source))) ∧
      load (.joined other) chain flights = load (.joined course) chain flights := by
  cases chain with
  | nil =>
    refine ⟨⟨rfl, fun position pipe h => by cases h⟩, ⟨[], ?_, rfl, nofun⟩, rfl⟩
    exact (List.append_nil flights).symm
  | cons pipe rest =>
    rw [load_joined_cons course, load_joined_cons other]
    refine ⟨assemble_comesTo answer _, ⟨_, rfl, ?_, ?_⟩, rfl⟩
    · rw [List.flatMap_singleton, Flight.requested_settled]
    · intro flight hflight
      rw [List.mem_singleton.mp hflight, Flight.pending_settled]

/-- Two steps with one source, whose fetches brought different texts. -/
theorem load_barrier_of_blank :
    let answer : Nat → Fetched := fun position =>
      if position = 0 then .ok "\n (d) => d\u3000\n" else .ok "\t(e) =>\n  e"
    let course := fun locations => (Flight.nonempty_course locations answer).some
    (load (.joined course) [⟨"first", "http://x/a.js"⟩, ⟨"second", "http://x/a.js"⟩] []).1 =
      .ok [⟨"first", "http://x/a.js", "(d) => d"⟩, ⟨"second", "http://x/a.js", "(e) =>\n  e"⟩] := by
  intro answer course
  have hcomes := (load_barrier course course
    [⟨"first", "http://x/a.js"⟩, ⟨"second", "http://x/a.js"⟩] []).1
  have hcode {body code : String} (h : Text.Trimmed body.toList code.toList) :
      code = String.ofList (Text.trim body.toList) := by
    rw [← h.eq_trim, String.ofList_toList]
  cases hloaded : (load (.joined course)
      [⟨"first", "http://x/a.js"⟩, ⟨"second", "http://x/a.js"⟩] []).1 with
  | error e =>
    rw [hloaded] at hcomes
    obtain ⟨position, -, hcause, -⟩ := hcomes
    simp only [answer] at hcause
    split at hcause <;> cases hcause
  | ok modules =>
    rw [hloaded] at hcomes
    obtain ⟨hlength, hmodule⟩ := hcomes
    obtain ⟨_, first, hbody, hfirst, hmodules⟩ := hmodule 0 _ rfl
    obtain ⟨_, second, hbody', hsecond, hmodules'⟩ := hmodule 1 _ rfl
    obtain rfl := Except.ok.inj hbody
    obtain rfl := Except.ok.inj hbody'
    obtain rfl : first = "(d) => d" := (hcode hfirst).trans (by decide)
    obtain rfl : second = "(e) =>\n  e" := (hcode hsecond).trans (by decide)
    refine congrArg Except.ok (List.ext_getElem? fun position => ?_)
    match position with
    | 0 => exact hmodules
    | 1 => exact hmodules'
    | position + 2 =>
      exact List.getElem?_eq_none (hlength.trans_le (Nat.le_add_left 2 position))

end Loading

end LinkedApi
