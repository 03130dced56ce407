import LinkedApi.Proofs.Emission.Retries
import Mathlib.Algebra.Order.BigOperators.Group.List

/-!
# Which calls may be made again

Where the sink refuses nothing but definitions of pipe modules, calls that are made again end as
they do on a sink that takes every text, and leave the same texts. Every other refusal shows. A
header and a query that are made again fail, and a handler and an export section that are made again
leave more lines than they should, which is how the texts are told apart here.
-/

namespace LinkedApi

open Generated Steps Text

variable {ω : Type}

/-! ## Lines of a text -/

def lineBreaks (text : String) : Nat := text.toList.count '\n'

@[simp]
theorem lineBreaks_append (x y : String) : lineBreaks (x ++ y) = lineBreaks x + lineBreaks y := by
  rw [lineBreaks, String.toList_append, List.count_append]
  rfl

theorem lineBreaks_pos {text : String} (h : EndsLine text) : 0 < lineBreaks text := by
  obtain ⟨before, rfl⟩ := h
  rw [lineBreaks_append]
  exact Nat.lt_of_lt_of_le Nat.zero_lt_one (Nat.le_add_left _ _)

@[simp]
theorem lineBreaks_join_replicate (n : Nat) (text : String) :
    lineBreaks (String.join (List.replicate n text)) = n * lineBreaks text := by
  induction n with
  | zero => rw [List.replicate_zero, String.join_nil, Nat.zero_mul]; rfl
  | succ n ih =>
    rw [Writers.join_replicate_succ, lineBreaks_append, ih, Nat.succ_mul]

/-- However many routes there are, their export section has as many lines. -/
theorem lineBreaks_routeExports (routes routes' : List Route) :
    lineBreaks (routeExports routes) = lineBreaks (routeExports routes') := by
  have hnone (json : Json) : lineBreaks json.compress = 0 :=
    List.count_eq_zero.mpr (Json.newline_not_mem_compress json)
  delta routeExports
  simp only [lineBreaks_append, hnone]

namespace Writers

theorem lineBreaks_exports_pos (w : Writers) (artifact : Artifact) :
    0 < lineBreaks (w.exports artifact) := by
  cases artifact with
  | pipeModules => exact lineBreaks_pos (endsLine_pipeExports _)
  | query => exact lineBreaks_pos (endsLine_queryExports _)
  | routes => exact lineBreaks_pos (endsLine_routeExports _)

/-! ## Handlers that are written again -/

section Repeated

variable {call : Call} {w u : Writers}

/-- The writers without the routes that are noted, on which no later call depends but the export
section of the routes. -/
def unrouted (w : Writers) : Writers := { w with routes := [] }

@[simp]
theorem accepts_unrouted : w.unrouted.Accepts call ↔ w.Accepts call := by
  cases call with
  | close artifact => cases artifact <;> exact Iff.rfl
  | _ => exact Iff.rfl

@[simp]
theorem lineBreaks_piece_unrouted (w : Writers) (call : Call) :
    lineBreaks (call.piece w.unrouted) = lineBreaks (call.piece w) := by
  cases call with
  | close artifact =>
    cases artifact with
    | routes => exact lineBreaks_routeExports [] w.routes
    | _ => rfl
  | _ => rfl

theorem unrouted_after (h : u.unrouted = w.unrouted) (call : Call) :
    (call.after u).unrouted = (call.after w).unrouted := by
  have hafter (w : Writers) : (call.after w.unrouted).unrouted = (call.after w).unrouted := by
    cases call <;> rfl
  rw [← hafter u, h, hafter]

theorem accepts_of_unrouted (h : u.unrouted = w.unrouted) : u.Accepts call ↔ w.Accepts call := by
  rw [← accepts_unrouted, h, accepts_unrouted]

/-- How many handlers a call leaves beyond the one that belongs to a route. -/
def Call.extraHandlers : Call → Nat → Artifact → Nat
  | .route _, n => fun other => if other = .routes then n else 0
  | _, _ => fun _ => 0

/-- How many handlers calls with their refusals leave beyond one for each route. -/
def extraHandlersAll (tries : List (Call × Nat)) (artifact : Artifact) : Nat :=
  (tries.map fun tried => tried.1.extraHandlers tried.2 artifact).sum

/-- A text with enough lines has enough lines after the same call. -/
theorem lineBreaks_lay (hsame : u.unrouted = w.unrouted) {texts texts' : Texts}
    {more : Artifact → Nat}
    (h : ∀ artifact, lineBreaks (texts artifact) + more artifact ≤ lineBreaks (texts' artifact))
    (artifact : Artifact) :
    lineBreaks ((call.lay (w, texts)).2 artifact) + more artifact ≤
      lineBreaks ((call.lay (u, texts')).2 artifact) := by
  have hpiece : lineBreaks (call.piece u) = lineBreaks (call.piece w) := by
    rw [← lineBreaks_piece_unrouted u, hsame, lineBreaks_piece_unrouted]
  have hbefore := h artifact
  simp only [Call.lay, Texts.extend]
  split
  · rw [lineBreaks_append, lineBreaks_append]
    omega
  · exact hbefore

theorem acceptsAll_replicate_route {binding : RouteBinding} (h : w.Accepts (.route binding))
    (n : Nat) : AcceptsAll (List.replicate n (.route binding)) w := by
  induction n generalizing w with
  | zero => trivial
  | succ n ih => exact ⟨h, ih (accepts_route_again h)⟩

/-- A route that is written again is noted, and nothing else changes. -/
theorem unrouted_layAll_route (binding : RouteBinding) (s : Writers × Texts) (n : Nat) :
    (Call.layAll (List.replicate (n + 1) (.route binding)) s).1.unrouted =
      (Call.after s.1 (.route binding)).unrouted := by
  induction n generalizing s with
  | zero => rfl
  | succ n ih =>
    have hbuffer : (Call.after (Call.after s.1 (.route binding)) (.route binding)).unrouted =
        ((Call.after s.1 (.route binding)).setBuffer .routes ⟨.opened, ""⟩).unrouted := rfl
    refine (ih (Call.lay (.route binding) s)).trans (hbuffer.trans ?_)
    exact congrArg unrouted (setBuffer_setBuffer _ .routes _ _)

/-- Each time a route is laid down, the lines of its handler are added to the routes. -/
theorem lineBreaks_layAll_route (binding : RouteBinding) (s : Writers × Texts) (n : Nat)
    (artifact : Artifact) :
    lineBreaks ((Call.layAll (List.replicate n (.route binding)) s).2 artifact) =
      lineBreaks (s.2 artifact) +
        if artifact = .routes then n * lineBreaks (handler binding) else 0 := by
  induction n generalizing s with
  | zero => simp [Call.layAll]
  | succ n ih =>
    refine (ih (Call.lay (.route binding) s)).trans ?_
    simp only [Call.lay, Texts.extend, Call.artifact, Call.piece]
    split
    · rw [lineBreaks_append, Nat.succ_mul]
      omega
    · rfl

/-- A call that is accepted is so as often as it is repeated, and leaves at least its lines. -/
theorem call_repeated (hsame : u.unrouted = w.unrouted) (haccepts : w.Accepts call) (n : Nat)
    {texts texts' : Texts} {more : Artifact → Nat}
    (h : ∀ artifact, lineBreaks (texts artifact) + more artifact ≤ lineBreaks (texts' artifact)) :
    let s := Call.layAll (call.repeated n) (u, texts')
    AcceptsAll (call.repeated n) u ∧ s.1.unrouted = (call.after w).unrouted ∧
      ∀ artifact, lineBreaks ((call.lay (w, texts)).2 artifact) +
        (more artifact + call.extraHandlers n artifact) ≤ lineBreaks (s.2 artifact) := by
  have hfirst : u.Accepts call := (accepts_of_unrouted hsame).mpr haccepts
  cases call with
  | route binding =>
    have hone : 0 < lineBreaks (handler binding) := lineBreaks_pos (endsLine_handler binding)
    refine ⟨acceptsAll_replicate_route hfirst (n + 1), ?_, fun artifact => ?_⟩
    · exact (unrouted_layAll_route binding (u, texts') n).trans (unrouted_after hsame _)
    · have hbefore := h artifact
      have hmany := Nat.le_mul_of_pos_right n hone
      rw [Call.repeated, lineBreaks_layAll_route]
      simp only [Call.lay, Texts.extend, Call.artifact, Call.piece, Call.extraHandlers]
      split
      · rw [lineBreaks_append, Nat.succ_mul]
        omega
      · omega
  | _ => exact ⟨⟨hfirst, trivial⟩, unrouted_after hsame _, lineBreaks_lay hsame h⟩

/-- Calls that are accepted are so as often as they are repeated, and every handler that is repeated
shows in the lines of the text. -/
theorem calls_repeated {tries : List (Call × Nat)}
    (haccepts : AcceptsAll (tries.map Prod.fst) w) (hsame : u.unrouted = w.unrouted)
    {texts texts' : Texts} {more : Artifact → Nat}
    (h : ∀ artifact, lineBreaks (texts artifact) + more artifact ≤ lineBreaks (texts' artifact)) :
    AcceptsAll (repeatedAll tries) u ∧ ∀ artifact,
      lineBreaks ((Call.layAll (tries.map Prod.fst) (w, texts)).2 artifact) +
          (more artifact + extraHandlersAll tries artifact) ≤
        lineBreaks ((Call.layAll (repeatedAll tries) (u, texts')).2 artifact) := by
  induction tries generalizing w u texts texts' more with
  | nil => exact ⟨trivial, h⟩
  | cons tried rest ih =>
    obtain ⟨call, n⟩ := tried
    obtain ⟨hfirst, hrest⟩ := haccepts
    obtain ⟨hcall, hafter, hlines⟩ := call_repeated hsame hfirst n h
    obtain ⟨hall, hlast⟩ := ih hrest hafter hlines
    rw [repeatedAll, List.flatMap_cons]
    refine ⟨(@acceptsAll_append _ _ (u, texts')).mpr ⟨hcall, hall⟩, fun artifact => ?_⟩
    have hsum := hlast artifact
    rw [Nat.add_assoc] at hsum
    rw [Call.layAll_append]
    exact hsum

end Repeated

/-! ## Every run -/

section Transparent

variable {tries : List (Call × Nat)}

/-- A call that is refused without a trace is a chain. -/
theorem chain_of_transparent {call : Call} {n : Nat} (hn : n ≠ 0)
    (houtcome : call.outcome n = .ok ()) (hhandlers : ∀ artifact, call.extraHandlers n artifact = 0)
    (hexports : ∀ artifact, call.extraExports n artifact = 0) : ∃ chain, call = .pipes chain := by
  obtain ⟨n, rfl⟩ := Nat.exists_eq_succ_of_ne_zero hn
  cases call with
  | begin artifact => cases houtcome
  | pipes chain => exact ⟨chain, rfl⟩
  | query q => cases houtcome
  | route binding => cases hhandlers .routes
  | close artifact => cases (if_pos rfl).symm.trans (hexports artifact)

/-- A call that is not refused, or is a chain, is refused without a trace. -/
theorem transparent_of_chain {call : Call} {n : Nat} (h : n ≠ 0 → ∃ chain, call = .pipes chain) :
    call.outcome n = .ok () ∧ call.repeated n = [call] ∧
      ∀ artifact, call.extraExports n artifact = 0 := by
  by_cases hn : n = 0
  · subst hn
    cases call with
    | close artifact => exact ⟨rfl, rfl, fun other => ite_self 0⟩
    | _ => exact ⟨rfl, rfl, fun _ => rfl⟩
  · obtain ⟨chain, rfl⟩ := h hn
    exact ⟨rfl, rfl, fun _ => rfl⟩

/-- If only chains were refused, the calls lay down what they would have laid down at once. -/
theorem transparentAll_of_chains
    (h : ∀ tried ∈ tries, tried.2 ≠ 0 → ∃ chain, tried.1 = .pipes chain) :
    repeatedAll tries = tries.map Prod.fst ∧ ∀ artifact, extraExportsAll tries artifact = 0 := by
  induction tries with
  | nil => exact ⟨rfl, fun _ => rfl⟩
  | cons tried rest ih =>
    obtain ⟨hfirst, hrest⟩ := List.forall_mem_cons.mp h
    obtain ⟨-, hrepeated, hexports⟩ := transparent_of_chain hfirst
    obtain ⟨hall, hnone⟩ := ih hrest
    refine ⟨?_, fun artifact => ?_⟩
    · rw [repeatedAll] at hall ⊢
      rw [List.flatMap_cons, hrepeated, hall]
      rfl
    · have hsum := hnone artifact
      rw [extraExportsAll] at hsum ⊢
      rw [List.map_cons, List.sum_cons, hexports, hsum]

/-- Refusals that show neither in an outcome nor in a text are of chains. -/
theorem chains_of_transparent {s : Writers × Texts} (haccepts : AcceptsAll (tries.map Prod.fst) s.1)
    (houtcomes : ∀ tried ∈ tries, tried.1.outcome tried.2 = .ok ())
    (hsame : exportAgain (extraExportsAll tries) (Call.layAll (repeatedAll tries) s) =
      ((Call.layAll (repeatedAll tries) s).1, (Call.layAll (tries.map Prod.fst) s).2)) :
    ∀ tried ∈ tries, tried.2 ≠ 0 → ∃ chain, tried.1 = .pipes chain := by
  have hlines : ∀ artifact, lineBreaks ((Call.layAll (tries.map Prod.fst) s).2 artifact) +
        (0 + extraHandlersAll tries artifact) ≤
      lineBreaks ((Call.layAll (repeatedAll tries) s).2 artifact) :=
    (calls_repeated haccepts rfl fun _ => le_rfl).2
  -- a text of as many lines has no room for more handlers or export sections
  have hroom (artifact : Artifact) :
      extraHandlersAll tries artifact = 0 ∧ extraExportsAll tries artifact = 0 := by
    have htext := congrArg lineBreaks (congrFun (congrArg Prod.snd hsame) artifact)
    have hpos := lineBreaks_exports_pos (Call.layAll (repeatedAll tries) s).1 artifact
    have hmore := hlines artifact
    simp only [exportAgain, lineBreaks_append, lineBreaks_join_replicate] at htext
    have hleast := Nat.le_mul_of_pos_right (extraExportsAll tries artifact) hpos
    omega
  intro tried htried hrefused
  refine chain_of_transparent hrefused (houtcomes tried htried) (fun artifact => ?_)
    fun artifact => ?_
  · exact List.sum_eq_zero_iff.mp (hroom artifact).1 _ (List.mem_map_of_mem htried)
  · exact List.sum_eq_zero_iff.mp (hroom artifact).2 _ (List.mem_map_of_mem htried)

/-- What calls leave that are made again from the start. -/
theorem RetriedAll.of_fresh {sink : Sink (StateM ω)} {sources : List DataSource} {v : ω}
    {outcomes : List (Except GenerationError Unit)} {w' : Writers} {x' : ω × Journal}
    (haccepts : AcceptsAll (repeatedAll tries) (fresh sources))
    (h : RetriedAll sink.journaled tries (fresh sources) (v, []) outcomes w' x') :
    outcomes = tries.map (fun tried => tried.1.outcome tried.2) ∧
      w'.laid x'.2.text = (exportAgain (extraExportsAll tries)
        (Call.layAll (repeatedAll tries) (fresh sources, Journal.text []))).2 := by
  have hbefore : (fresh sources).ledger (Journal.text []) =
      exportAgain (fun _ => 0) (fresh sources, Journal.text []) :=
    (ledger_of_bare rfl _).trans (exportAgain_zero _).symm
  obtain ⟨houtcomes, hledger⟩ := h.ledger_eq haccepts hbefore fun _ hne => absurd rfl hne
  simp only [Nat.zero_add] at hledger
  exact ⟨houtcomes, congrArg Prod.snd hledger⟩

end Transparent

/-- Let every one of the calls return on a sink that takes every text. On any sink that does not
refuse for ever each of them ends, made again until it ends otherwise than by a refused text. A
header or a query that was refused then fails, and every other call returns. What is laid down is
what the calls lay down with each handler repeated for every refusal, and then more export sections,
one for every refusal; nothing of it is pending if all calls return. Thus all calls return and leave
the texts that they leave without refusals exactly when nothing was refused but chains. -/
theorem retries_transparent_iff (sources : List DataSource) (calls : List Call) (w : Writers)
    (journal : Journal)
    (hworks : performAll Sink.accepting.journaled calls (.fresh sources) ((), []) =
      ((.ok (), w), ((), journal)))
    (sink : Sink (StateM ω)) (v : ω) :
    ((WellFounded fun later before => sink.Refuses before later) →
      ∃ tries outcomes w' x', tries.map Prod.fst = calls ∧
        RetriedAll sink.journaled tries (.fresh sources) (v, []) outcomes w' x') ∧
    ∀ tries outcomes w' x', tries.map Prod.fst = calls →
      RetriedAll sink.journaled tries (.fresh sources) (v, []) outcomes w' x' →
      outcomes = tries.map (fun tried => tried.1.outcome tried.2) ∧
      (∃ w₁ journal₁,
        performAll Sink.accepting.journaled (repeatedAll tries) (.fresh sources) ((), []) =
          ((.ok (), w₁), ((), journal₁)) ∧
        ∀ artifact, w'.laid x'.2.text artifact = journal₁.text artifact ++
          String.join (List.replicate (extraExportsAll tries artifact) (w₁.exports artifact))) ∧
      ((∀ outcome ∈ outcomes, outcome = .ok ()) → ∀ artifact, w'.pending artifact = "") ∧
      ((∀ outcome ∈ outcomes, outcome = .ok ()) ∧ x'.2.text = journal.text ↔
        ∀ tried ∈ tries, tried.2 ≠ 0 → ∃ chain, tried.1 = .pipes chain) := by
  refine ⟨fun hsink => exists_retriedAll hsink calls _ _, ?_⟩
  rintro tries outcomes w' x' rfl h
  have haccepts := acceptsAll_of_performAll hworks
  have htext : journal.text =
      (Call.layAll (tries.map Prod.fst) (fresh sources, Journal.text [])).2 := by
    obtain ⟨journal₀, hperform, htext₀⟩ := performAll_accepting haccepts rfl []
    cases hworks.symm.trans hperform
    exact htext₀
  have hrepeated : AcceptsAll (repeatedAll tries) (fresh sources) :=
    (@calls_repeated _ _ _ haccepts rfl (Journal.text []) _ (fun _ => 0) fun _ => le_rfl).1
  obtain ⟨journal₁, hperform₁, htext₁⟩ := performAll_accepting hrepeated rfl []
  obtain ⟨houtcomes, hlaid⟩ := h.of_fresh hrepeated
  have hpending (hok : ∀ outcome ∈ outcomes, outcome = .ok ()) : w'.laid x'.2.text = x'.2.text :=
    funext fun artifact => by
      rw [laid, h.pending_of_ok (fun _ => rfl) hok artifact, String.append_empty]
  refine ⟨houtcomes, ⟨_, journal₁, hperform₁, fun artifact => ?_⟩,
    h.pending_of_ok fun _ => rfl, ?_, fun hchains => ?_⟩
  · rw [hlaid, htext₁]
    rfl
  · rintro ⟨hok, hsame⟩
    refine chains_of_transparent (s := (fresh sources, Journal.text [])) haccepts ?_ ?_
    · exact fun tried htried => hok _ (houtcomes ▸ List.mem_map_of_mem htried)
    · rw [← htext, ← hsame, ← hpending hok, hlaid]
      rfl
  · obtain ⟨hrepeats, hexports⟩ := transparentAll_of_chains hchains
    have hok : ∀ outcome ∈ outcomes, outcome = .ok () := by
      intro outcome houtcome
      obtain ⟨tried, htried, rfl⟩ := List.mem_map.mp (houtcomes ▸ houtcome)
      exact (transparent_of_chain (hchains tried htried)).1
    refine ⟨hok, ?_⟩
    have hnone : extraExportsAll tries = fun _ => 0 := funext hexports
    rw [← hpending hok, hlaid, htext, hrepeats, hnone, exportAgain_zero]

def scripted : Sink (StateM (List Bool)) where
  create _ := pure (.ok ())
  append _ _ := fun script => match script with
    | [] => (.ok (), [])
    | false :: rest => (.ok (), rest)
    | true :: rest => (.error (.other "no space left"), rest)

section Scripted

variable {call : Call} {w : Writers}

theorem perform_scripted_refused (haccepts : w.Accepts call)
    (hmore : w.pending call.artifact ++ call.piece w ≠ "") (rest : List Bool) (journal : Journal) :
    perform scripted.journaled call w (true :: rest, journal) =
      ((.error (.file (.other "no space left")), call.waiting w), (rest, journal)) := by
  rw [perform_of_accepts _ haccepts, deliver, Sink.offer, if_neg hmore]
  rfl

theorem perform_scripted_taken (haccepts : w.Accepts call)
    (hmore : w.pending call.artifact ++ call.piece w ≠ "") (rest : List Bool) (journal : Journal) :
    perform scripted.journaled call w (false :: rest, journal) =
      ((.ok (), call.after w),
        (rest, journal ++ [(call.artifact, w.pending call.artifact ++ call.piece w)])) := by
  rw [perform_of_accepts _ haccepts, deliver, Sink.offer, if_neg hmore]
  rfl

end Scripted

/-- A chain that is refused once is written as if it had not been. -/
theorem retries_transparent_iff_of_chain :
    let chain : List PipeModule := [⟨"a", "http://x/a.js", "(d) => d"⟩]
    ∃ w journal outcomes w' x',
      performAll Sink.accepting.journaled [.begin .pipeModules, .pipes chain] (.fresh []) ((), []) =
        ((.ok (), w), ((), journal)) ∧
      RetriedAll scripted.journaled [(.begin .pipeModules, 0), (.pipes chain, 1)] (.fresh [])
        ([false, true, false], []) outcomes w' x' ∧
      (∀ outcome ∈ outcomes, outcome = .ok ()) ∧ x'.2.text = journal.text := by
  intro chain
  have hbegin : (fresh []).Accepts (.begin .pipeModules) := rfl
  have hchain : (Call.after (fresh []) (.begin .pipeModules)).Accepts (.pipes chain) :=
    ⟨rfl, rfl, List.forall_mem_singleton.mpr (by decide +kernel)⟩
  have haccepts : AcceptsAll [.begin .pipeModules, .pipes chain] (fresh []) :=
    ⟨hbegin, hchain, trivial⟩
  obtain ⟨journal, hworks, -⟩ := performAll_accepting haccepts rfl []
  have hrun : RetriedAll scripted.journaled [(.begin .pipeModules, 0), (.pipes chain, 1)]
      (.fresh []) ([false, true, false], []) _ _ _ :=
    .cons (.ended (perform_scripted_taken hbegin (by decide +kernel) _ _) nofun)
      (.cons (.again (perform_scripted_refused hchain (by decide +kernel) _ _)
        (.ended (perform_scripted_taken (accepts_pipes_waiting hchain) (by decide +kernel) _ _)
          nofun)) .nil)
  refine ⟨_, journal, _, _, _, hworks, hrun, ?_⟩
  have hexact := (retries_transparent_iff [] _ _ journal hworks scripted _).2 _ _ _ _ rfl hrun
  refine hexact.2.2.2.mpr ?_
  rintro tried htried hrefused
  rcases List.mem_pair.mp htried with rfl | rfl
  · exact absurd rfl hrefused
  · exact ⟨chain, rfl⟩

/-- A header that is refused once cannot be written any more, though a sink that takes every text
takes it. -/
theorem header_refused_once :
    (∃ w journal, performAll Sink.accepting.journaled [.begin .routes] (.fresh []) ((), []) =
        ((.ok (), w), ((), journal)) ∧ journal.text .routes = Artifact.header [] .routes) ∧
      ∃ w' x', RetriedAll scripted.journaled [(.begin .routes, 1)] (.fresh []) ([true], [])
        [.error (.outOfPhase .header .routes .opened)] w' x' ∧ x'.2.text .routes = "" := by
  have hbegin : (fresh []).Accepts (.begin .routes) := rfl
  have haccepts : AcceptsAll [.begin .routes] (fresh []) := ⟨hbegin, trivial⟩
  refine ⟨?_, _, _, .cons (.again (perform_scripted_refused hbegin (by decide +kernel) _ _)
    (.ended (perform_begin _ _ _ _) nofun)) .nil, rfl⟩
  obtain ⟨journal, hworks, htext⟩ := performAll_accepting haccepts rfl []
  refine ⟨_, journal, hworks, ?_⟩
  have hlaid : (Call.layAll [.begin .routes] (fresh [], Journal.text [])).2 .routes =
      "" ++ Artifact.header [] .routes := rfl
  rw [htext, hlaid, String.empty_append]

end Writers

end LinkedApi
