import LinkedApi.Transport.Memory
import Mathlib.Data.List.Basic
import Mathlib.Logic.Relation

/-!
# Courses of fetches

While fetches are under way, the next location may be asked for, or a fetch that has been asked for
may settle. The locations are asked for in order; which fetch settles next is open. When nothing
more can happen, the flight is the same whatever came first: each location has been asked for once,
in order, and each fetch has settled with the outcome of its position.
-/

namespace LinkedApi

namespace Flight

variable {locations : List String} {answer : Nat → Fetched} {f f' : Flight}

/-- The fetch at a position has been asked for and has not settled. -/
def IsPending (f : Flight) (position : Nat) : Prop :=
  ∃ location, f.fetches[position]? = some (location, Option.none)

/-- One thing that happens in a flight. A fetch settles with the answer of its position. -/
inductive Step (locations : List String) (answer : Nat → Fetched) (f : Flight) : Flight → Prop where
  | request {location : String} (hnext : locations[f.fetches.length]? = some location) :
      Step locations answer f (f.request location)
  | settle {position : Nat} (hpending : f.IsPending position) :
      Step locations answer f (f.settle position (answer position))

/-- Nothing more can happen. -/
def Finished (locations : List String) (answer : Nat → Fetched) (f : Flight) : Prop :=
  ∀ f', ¬Step locations answer f f'

def settled (locations : List String) (answer : Nat → Fetched) : Flight :=
  ⟨locations.mapIdx fun position location => (location, some (answer position))⟩

/-- What has been asked for is the beginning of the locations, and what has settled has the answer
of its position. -/
def Keeps (locations : List String) (answer : Nat → Fetched) (f : Flight) : Prop :=
  ∀ position location outcome, f.fetches[position]? = some (location, outcome) →
    locations[position]? = some location ∧ ∀ fetched, outcome = some fetched →
      fetched = answer position

/-! ## Every order -/

theorem keeps_none : Keeps locations answer none := by
  intro position location outcome h
  cases h

/-- What happens in a flight keeps the order of the locations and the answer of each. -/
theorem Step.keeps (h : Step locations answer f f') (hf : Keeps locations answer f) :
    Keeps locations answer f' := by
  intro position location outcome hentry
  cases h with
  | @request asked hnext =>
    rw [Flight.request, List.getElem?_append] at hentry
    split at hentry
    · exact hf position location outcome hentry
    · next hlength =>
      rw [List.getElem?_singleton] at hentry
      split at hentry
      · next hlast =>
        cases hentry
        have hposition : position = f.fetches.length := by omega
        exact ⟨hposition ▸ hnext, nofun⟩
      · cases hentry
  | @settle place hpending =>
    obtain ⟨asked, hpending⟩ := hpending
    rw [Flight.settle, List.getElem?_modify] at hentry
    obtain ⟨⟨location', known⟩, hknown, hentry⟩ := Option.map_eq_some_iff.mp hentry
    obtain ⟨hlocation, houtcome⟩ := hf position location' known hknown
    split at hentry
    · next hplace =>
      cases hplace
      cases hpending.symm.trans hknown
      cases hentry
      exact ⟨hlocation, fun fetched hfetched => (Option.some.inj hfetched).symm⟩
    · cases hentry
      exact ⟨hlocation, houtcome⟩

theorem keeps_of_run (h : Relation.ReflTransGen (Step locations answer) none f) :
    Keeps locations answer f := by
  induction h with
  | refl => exact keeps_none
  | tail _ hstep ih => exact hstep.keeps ih

/-- A flight in which nothing more can happen has settled as a whole. -/
theorem Keeps.eq_settled (hf : Keeps locations answer f) (hfinished : Finished locations answer f) :
    f = settled locations answer := by
  have hfetches : f.fetches = (settled locations answer).fetches := by
    apply List.ext_getElem?
    intro position
    rw [settled, List.getElem?_mapIdx]
    cases hentry : f.fetches[position]? with
    | none =>
      cases hlocation : locations[position]? with
      | none => rfl
      | some location =>
        -- some location has not been asked for yet
        have hlength : f.fetches.length < locations.length :=
          Nat.lt_of_le_of_lt (List.getElem?_eq_none_iff.mp hentry)
            (List.getElem?_eq_some_iff.mp hlocation).1
        exact absurd (Step.request (List.getElem?_eq_getElem hlength)) (hfinished _)
    | some entry =>
      obtain ⟨location, outcome⟩ := entry
      obtain ⟨hlocation, houtcome⟩ := hf position location outcome hentry
      cases outcome with
      | none => exact absurd (Step.settle ⟨location, hentry⟩) (hfinished _)
      | some fetched => rw [hlocation, houtcome fetched rfl]; rfl
  cases f
  exact congrArg Flight.mk hfetches

/-- Whatever came first, the fetches end in the same flight. -/
theorem eq_settled_of_run (h : Relation.ReflTransGen (Step locations answer) none f)
    (hfinished : Finished locations answer f) : f = settled locations answer :=
  (keeps_of_run h).eq_settled hfinished

theorem requested_settled (locations : List String) (answer : Nat → Fetched) :
    (settled locations answer).requested = locations := by
  rw [requested, settled, List.mapIdx_eq_zipIdx_map, List.map_map]
  exact List.zipIdx_map_fst 0 locations

theorem pending_settled (locations : List String) (answer : Nat → Fetched) :
    (settled locations answer).pending = 0 := by
  rw [pending, List.countP_eq_zero]
  intro entry hentry
  obtain ⟨position, hposition, rfl⟩ := List.mem_mapIdx.mp hentry
  simp

theorem outcomes?_settled (locations : List String) (answer : Nat → Fetched) :
    (settled locations answer).outcomes? = some (locations.mapIdx fun position _ => answer position) := by
  rw [outcomes?, settled, List.mapIdx_eq_zipIdx_map, List.mapIdx_eq_zipIdx_map, List.mapM_map]
  exact List.mapM_pure

/-! ## Every course ends -/

def remaining (locations : List String) (f : Flight) : Nat :=
  2 * (locations.length - f.fetches.length) + f.pending

@[simp]
theorem length_settle (f : Flight) (position : Nat) (outcome : Fetched) :
    (f.settle position outcome).fetches.length = f.fetches.length :=
  List.length_modify _ _ _

@[simp]
theorem pending_request (f : Flight) (location : String) :
    (f.request location).pending = f.pending + 1 := by
  simp [pending, request]

theorem pending_settle {position : Nat} (h : f.IsPending position) (outcome : Fetched) :
    (f.settle position outcome).pending + 1 = f.pending := by
  obtain ⟨location, h⟩ := h
  obtain ⟨hposition, hentry⟩ := List.getElem?_eq_some_iff.mp h
  have hsome : 0 < f.pending :=
    List.countP_pos_iff.mpr ⟨_, List.mem_of_getElem? h, rfl⟩
  rw [pending] at hsome
  rw [pending, pending, settle, List.modify_eq_set_getElem?, h]
  dsimp only [Option.map_eq_map, Option.map_some, Option.getD_some]
  rw [List.countP_set hposition, hentry]
  simp only [Option.none_or, Option.isNone_none, Option.isNone_some, if_true, Bool.false_eq_true,
    if_false]
  omega

/-- With each thing that happens, less can still happen. -/
theorem Step.remaining_lt (h : Step locations answer f f') :
    f'.remaining locations < f.remaining locations := by
  cases h with
  | request hnext =>
    have hlength := (List.getElem?_eq_some_iff.mp hnext).1
    rw [remaining, remaining, pending_request, Flight.request, List.length_append]
    simp only [List.length_singleton]
    omega
  | @settle position hpending =>
    have hone := pending_settle hpending (answer position)
    rw [remaining, remaining, length_settle]
    omega

/-- A flight can always go on until nothing more can happen. -/
theorem exists_finished (locations : List String) (answer : Nat → Fetched) (f : Flight) :
    ∃ f', Relation.ReflTransGen (Step locations answer) f f' ∧ Finished locations answer f' := by
  by_cases hfinished : Finished locations answer f
  · exact ⟨f, .refl, hfinished⟩
  · obtain ⟨next, hnext⟩ : ∃ next, Step locations answer f next := by
      simpa [Finished] using hfinished
    obtain ⟨f', hrun, hend⟩ := exists_finished locations answer next
    exact ⟨f', hrun.head hnext, hend⟩
termination_by f.remaining locations
decreasing_by exact hnext.remaining_lt

/-- The fetches of some locations from the first thing that happens to the last, if the fetch at
each position settles with its answer. -/
structure Course (locations : List String) (answer : Nat → Fetched) where
  flight : Flight
  run : Relation.ReflTransGen (Step locations answer) none flight
  finished : Finished locations answer flight

/-- All courses end in the same flight. -/
theorem Course.flight_eq (course : Course locations answer) :
    course.flight = settled locations answer :=
  eq_settled_of_run course.run course.finished

/-- What has begun in any way can take its course. -/
theorem exists_course_of_run (h : Relation.ReflTransGen (Step locations answer) none f) :
    ∃ course : Course locations answer,
      Relation.ReflTransGen (Step locations answer) f course.flight := by
  obtain ⟨f', hrun, hfinished⟩ := exists_finished locations answer f
  exact ⟨⟨f', h.trans hrun, hfinished⟩, hrun⟩

theorem nonempty_course (locations : List String) (answer : Nat → Fetched) :
    Nonempty (Course locations answer) := by
  have hnone : Relation.ReflTransGen (Step locations answer) none none := .refl
  obtain ⟨course, -⟩ := exists_course_of_run hnone
  exact ⟨course⟩

/-! ## Settling -/

@[simp]
theorem requested_settle (f : Flight) (position : Nat) (outcome : Fetched) :
    (f.settle position outcome).requested = f.requested := by
  apply List.ext_getElem?
  intro other
  rw [requested, requested, List.getElem?_map, List.getElem?_map, settle, List.getElem?_modify]
  cases f.fetches[other]? with
  | none => rfl
  | some entry =>
    by_cases hother : position = other <;> simp [hother]

theorem IsPending.of_settle {position other : Nat} {outcome : Fetched}
    (h : (f.settle position outcome).IsPending other) : f.IsPending other ∧ other ≠ position := by
  obtain ⟨location, hentry⟩ := h
  rw [settle, List.getElem?_modify] at hentry
  obtain ⟨⟨location', known⟩, hknown, hentry⟩ := Option.map_eq_some_iff.mp hentry
  split at hentry
  · cases known <;> cases hentry
  · next hother =>
    cases hentry
    exact ⟨⟨_, hknown⟩, fun h => hother h.symm⟩

/-- A fetch that has settled stays as it is. -/
theorem settle_of_not_pending {position : Nat} (h : ¬f.IsPending position) (outcome : Fetched) :
    f.settle position outcome = f := by
  have hfetches : (f.settle position outcome).fetches = f.fetches := by
    apply List.ext_getElem?
    intro other
    rw [settle, List.getElem?_modify]
    cases hentry : f.fetches[other]? with
    | none => rfl
    | some entry =>
      obtain ⟨location, known⟩ := entry
      by_cases hother : position = other
      · cases hother
        cases known with
        | none => exact absurd ⟨location, hentry⟩ h
        | some fetched => simp
      · simp [hother]
  cases f
  exact congrArg Flight.mk hfetches

end Flight

/-! ## Answers from a table -/

namespace TableTransport

open Flight hiding none
open Relation

variable {locations : List String}

def answerAt (t : TableTransport) (locations : List String) (position : Nat) : Fetched :=
  t.answer (locations[position]?.getD "")

theorem answerAt_eq (t : TableTransport) {position : Nat} {location : String}
    (h : locations[position]? = some location) :
    t.answerAt locations position = t.answer location := by
  rw [answerAt, h, Option.getD_some]

theorem start_eq (t : TableTransport) (f : Flight) (location : String) :
    t.start f location =
      match t.entry? location with
      | none => ({ t with requests := t.requests ++ [location] },
          (f.request location).settle f.fetches.length (unlisted location))
      | some entry => ({ t with
            requests := t.requests ++ [location]
            peak := max t.peak (f.request location).pending },
          if entry.delay = 0 then (f.request location).settle f.fetches.length entry.answer
          else f.request location) := by
  have hentry : entry? { t with requests := t.requests ++ [location] } location =
      t.entry? location := rfl
  rw [start]
  dsimp only
  rw [hentry]
  cases t.entry? location with
  | none => rfl
  | some entry =>
    dsimp only
    split <;> rfl

/-- A fetch that is pending may settle with the answer of the table. -/
theorem step_settle (t : TableTransport) {f : Flight} {position : Nat} {location : String}
    (hlocation : locations[position]? = some location) (hpending : f.IsPending position) :
    Step locations (t.answerAt locations) f (f.settle position (t.answer location)) := by
  rw [← t.answerAt_eq hlocation]
  exact .settle hpending

theorem start_run (t : TableTransport) (f : Flight) {location : String}
    (hnext : locations[f.fetches.length]? = some location) :
    ReflTransGen (Step locations (t.answerAt locations)) f (t.start f location).2 := by
  have hasked : Step locations (t.answerAt locations) f (f.request location) := .request hnext
  have hpending : (f.request location).IsPending f.fetches.length :=
    ⟨location, by rw [Flight.request, List.getElem?_append_right (Nat.le_refl _)]; simp⟩
  have hsettled := t.step_settle hnext hpending
  rw [answer] at hsettled
  rw [start_eq]
  cases hentry : t.entry? location with
  | none =>
    rw [hentry] at hsettled
    exact (ReflTransGen.single hasked).tail hsettled
  | some entry =>
    rw [hentry] at hsettled
    dsimp only
    split
    · exact (ReflTransGen.single hasked).tail hsettled
    · exact .single hasked

/-- What starting a fetch notes. -/
theorem start_notes (t : TableTransport) (f : Flight) (location : String) :
    (t.start f location).2.requested = f.requested ++ [location] ∧
      (t.start f location).1.table = t.table ∧
      (t.start f location).1.requests = t.requests ++ [location] := by
  have hrequest : (f.request location).requested = f.requested ++ [location] := by
    simp [requested, Flight.request]
  rw [start_eq]
  cases t.entry? location with
  | none => exact ⟨(requested_settle _ _ _).trans hrequest, rfl, rfl⟩
  | some entry =>
    refine ⟨?_, rfl, rfl⟩
    dsimp only
    split
    · exact (requested_settle _ _ _).trans hrequest
    · exact hrequest

/-- All fetches are asked for before any is waited for. -/
theorem startAll_run (t : TableTransport) (f : Flight) {rest : List String}
    (h : f.requested ++ rest = locations) :
    ReflTransGen (Step locations (t.answerAt locations)) f (t.startAll f rest).2 ∧
      (t.startAll f rest).2.requested = locations ∧
      (t.startAll f rest).1.table = t.table ∧
      (t.startAll f rest).1.requests = t.requests ++ rest := by
  induction rest generalizing t f with
  | nil => exact ⟨.refl, by rwa [List.append_nil] at h, rfl, (List.append_nil _).symm⟩
  | cons location rest ih =>
    have hlength : f.fetches.length = f.requested.length := by simp [requested]
    have hnext : locations[f.fetches.length]? = some location := by
      rw [← h, hlength, List.getElem?_append_right (Nat.le_refl _)]
      simp
    obtain ⟨hrequested, htable, hrequests⟩ := t.start_notes f location
    obtain ⟨hrun, hall, htables, hnoted⟩ :=
      ih (t.start f location).1 (t.start f location).2 (by rw [hrequested]; simpa using h)
    have hsame : (t.start f location).1.answerAt locations = t.answerAt locations := by
      funext position
      simp only [answerAt, answer, entry?, htable]
    rw [hsame] at hrun
    refine ⟨(t.start_run f hnext).trans hrun, hall, htables.trans htable, ?_⟩
    exact hnoted.trans (by rw [hrequests]; simp)

theorem settleAll_run (t : TableTransport) {f : Flight} (hrequested : f.requested = locations)
    (positions : List Nat) :
    ReflTransGen (Step locations (t.answerAt locations)) f (t.settleAll f positions) ∧
      (t.settleAll f positions).requested = locations ∧
      ∀ other, (t.settleAll f positions).IsPending other → f.IsPending other ∧ other ∉ positions := by
  induction positions generalizing f with
  | nil => exact ⟨.refl, hrequested, fun other h => ⟨h, List.not_mem_nil⟩⟩
  | cons position rest ih =>
    have hnext : ReflTransGen (Step locations (t.answerAt locations)) f (t.settleAll f [position]) ∧
        (t.settleAll f [position]).requested = locations ∧
        ∀ other, (t.settleAll f [position]).IsPending other → f.IsPending other ∧ other ≠ position := by
      rw [settleAll, List.foldl_cons, List.foldl_nil, hrequested]
      cases hlocation : locations[position]? with
      | none =>
        refine ⟨.refl, hrequested, fun other h => ⟨h, ?_⟩⟩
        rintro rfl
        obtain ⟨location, hentry⟩ := h
        rw [← hrequested, requested, List.getElem?_map, hentry] at hlocation
        cases hlocation
      | some location =>
        refine ⟨?_, (requested_settle _ _ _).trans hrequested, fun other => IsPending.of_settle⟩
        by_cases hpending : f.IsPending position
        · exact .single (t.step_settle hlocation hpending)
        · dsimp only
          rw [settle_of_not_pending hpending]
    obtain ⟨hone, hasked, hless⟩ := hnext
    obtain ⟨hmore, hend, hnone⟩ := ih hasked
    refine ⟨hone.trans hmore, hend, fun other h => ?_⟩
    obtain ⟨hpending, hrest⟩ := hnone other h
    obtain ⟨hbefore, hne⟩ := hless other hpending
    exact ⟨hbefore, fun hmem => (List.mem_cons.mp hmem).elim hne hrest⟩

theorem mem_endings (t : TableTransport) {position : Nat} (h : position < locations.length) :
    position ∈ t.endings locations := by
  rw [endings, ((List.mergeSort_perm _ _).map _).mem_iff, List.zipIdx_map_snd, List.mem_range']
  exact ⟨position, by simpa using h, by simp⟩

/-- The fetches from a table take some course, in which each settles with what stands in the
table. -/
theorem exists_course (t : TableTransport) (locations : List String) :
    ∃ course : Course locations (t.answerAt locations),
      (t.fetchAll locations).1 = course.flight.outcomes?.getD [] ∧
      (t.fetchAll locations).2.requests = t.requests ++ locations := by
  obtain ⟨hstarted, hasked, htable, hrequests⟩ := t.startAll_run .none (List.nil_append locations)
  obtain ⟨hsettled, hall, hnone⟩ := (t.startAll .none locations).1.settleAll_run hasked
    ((t.startAll .none locations).1.endings locations)
  have hsame : (t.startAll .none locations).1.answerAt locations = t.answerAt locations := by
    funext position
    simp only [answerAt, answer, entry?, htable]
  rw [hsame] at hsettled
  refine ⟨⟨_, hstarted.trans hsettled, ?_⟩, rfl, hrequests⟩
  intro f' hstep
  cases hstep with
  | request hnext =>
    have hlength := (List.getElem?_eq_some_iff.mp hnext).1
    have hsame := congrArg List.length hall
    rw [requested, List.length_map] at hsame
    omega
  | @settle position hpending =>
    obtain ⟨hbefore, hrest⟩ := hnone position hpending
    obtain ⟨location, hentry⟩ := hbefore
    have hlength := (List.getElem?_eq_some_iff.mp hentry).1
    refine hrest (mem_endings _ ?_)
    rw [← hasked, requested, List.length_map]
    exact hlength

end TableTransport

end LinkedApi
