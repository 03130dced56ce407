import LinkedApi.Proofs.Generation.Writing
import LinkedApi.Proofs.Registry
import Mathlib.Data.List.Nodup

/-!
# Histories of the registry

Callers that share a registry come to it in turns. What they do together is one sequence of calls,
in which the calls of each caller keep their order. After any sequence of calls the names of a kind
are those that were given under it, each where it was given first, and these are the names that are
refused from then on.
-/

namespace LinkedApi.Registry

abbrev Call := NameKind × String

/-- Makes a call. One that is refused leaves the registry as it is. -/
def submit (r : Registry) (call : Call) : Registry :=
  match r.register call.1 call.2 with
  | .ok r' => r'
  | .error _ => r

def afterCalls (calls : List Call) : Registry := calls.foldl submit empty

def given (kind : NameKind) (calls : List Call) : List String :=
  calls.filterMap fun call => if call.1 = kind then some call.2 else none

/-- The calls of several callers in an order in which they may come to the registry. -/
inductive Interleaves : List (List Call) → List Call → Prop where
  | done {callers : List (List Call)} (h : ∀ calls ∈ callers, calls = []) : Interleaves callers []
  | turn {before after : List (List Call)} {call : Call} {rest calls : List Call}
      (h : Interleaves (before ++ rest :: after) calls) :
      Interleaves (before ++ (call :: rest) :: after) (call :: calls)

/-! ## First occurrences -/

theorem eraseDups_concat (names : List String) (name : String) :
    (names ++ [name]).eraseDups =
      if name ∈ names then names.eraseDups else names.eraseDups ++ [name] := by
  rw [List.eraseDups_append, List.removeAll]
  by_cases h : name ∈ names <;> simp [h, List.eraseDups_cons]

theorem nodup_eraseDups (names : List String) : names.eraseDups.Nodup := by
  induction names using List.reverseRecOn with
  | nil => exact List.nodup_nil
  | append_singleton names name ih =>
    rw [eraseDups_concat]
    split
    · exact ih
    · next h => simpa using List.Nodup.concat (mt List.mem_eraseDups.mp h) ih

theorem eraseDups_prefix (names more : List String) :
    names.eraseDups <+: (names ++ more).eraseDups := by
  rw [List.eraseDups_append]
  exact List.prefix_append _ _

/-! ## One call -/

/-- A name is refused when it is there already. -/
theorem register_eq (r : Registry) (kind : NameKind) (name : String) :
    r.register kind name =
      if name ∈ r.names kind then .error ⟨kind, name, none⟩
      else .ok ⟨r.entries ++ [(kind, name)]⟩ := by
  simp only [register, contains_iff]

theorem submit_of_mem {r : Registry} {kind : NameKind} {name : String} (h : name ∈ r.names kind) :
    r.submit (kind, name) = r := by
  rw [submit, register_eq, if_pos h]

/-- A new name is registered after all others. -/
theorem submit_of_not_mem {r : Registry} {kind : NameKind} {name : String}
    (h : name ∉ r.names kind) : r.submit (kind, name) = ⟨r.entries ++ [(kind, name)]⟩ := by
  rw [submit, register_eq, if_neg h]

/-- A call adds its name to the names of its kind, unless it is there, and leaves the other kind. -/
theorem names_submit (r : Registry) (call : Call) (kind : NameKind) :
    (r.submit call).names kind =
      if call.1 = kind ∧ call.2 ∉ r.names kind then r.names kind ++ [call.2] else r.names kind := by
  obtain ⟨kind', name⟩ := call
  by_cases hmem : name ∈ r.names kind'
  · rw [submit_of_mem hmem, if_neg]
    rintro ⟨rfl, hnew⟩
    exact hnew hmem
  · rw [submit_of_not_mem hmem, names_append]
    by_cases hkind : kind' = kind
    · subst hkind
      rw [if_pos ⟨rfl, hmem⟩]
      simp [names]
    · rw [if_neg fun h => hkind h.1]
      simp [names, hkind]

/-! ## Sequences of calls -/

@[simp]
theorem given_concat (kind : NameKind) (calls : List Call) (call : Call) :
    given kind (calls ++ [call]) =
      given kind calls ++ if call.1 = kind then [call.2] else [] := by
  rw [given, List.filterMap_append]
  by_cases h : call.1 = kind <;> simp [given, h]

theorem afterCalls_concat (calls : List Call) (call : Call) :
    afterCalls (calls ++ [call]) = (afterCalls calls).submit call := by
  rw [afterCalls, List.foldl_append]
  rfl

/-- The roster of a kind is what was given under it, each name once and where it first came. -/
@[simp]
theorem names_afterCalls (kind : NameKind) (calls : List Call) :
    (afterCalls calls).names kind = (given kind calls).eraseDups := by
  -- From the right, since a call works on what all calls before have left.
  induction calls using List.reverseRecOn with
  | nil => rfl
  | append_singleton calls call ih =>
    rw [afterCalls_concat, names_submit, given_concat, ih]
    by_cases hkind : call.1 = kind
    · simp only [hkind, true_and, List.mem_eraseDups, if_true, eraseDups_concat, ite_not]
    · simp only [hkind, false_and, if_false, List.append_nil]

theorem mem_names_afterCalls {kind : NameKind} {name : String} {calls : List Call} :
    name ∈ (afterCalls calls).names kind ↔ name ∈ given kind calls := by
  rw [names_afterCalls, List.mem_eraseDups]

/-- The names that have been given are refused, and no others. -/
theorem register_afterCalls (kind : NameKind) (name : String) (calls : List Call) :
    (afterCalls calls).register kind name =
      if name ∈ given kind calls then .error ⟨kind, name, none⟩
      else .ok (afterCalls (calls ++ [(kind, name)])) := by
  rw [register_eq, afterCalls_concat]
  simp only [mem_names_afterCalls]
  split
  · rfl
  · next h => rw [submit_of_not_mem (mt mem_names_afterCalls.mp h)]

/-- Writers that share the registry stay as they are when they commit a name that is refused. -/
theorem commit_afterCalls {ω : Type} {w : Writers} {calls : List Call}
    (hw : w.registry = afterCalls calls) (kind : NameKind) (name : String) (v : ω) :
    (Writers.commit kind name : Writing (StateM ω) Unit) w v =
      if name ∈ given kind calls then ((.error (.duplicateName ⟨kind, name, none⟩), w), v)
      else ((.ok (), { w with registry := afterCalls (calls ++ [(kind, name)]) }), v) := by
  simp only [Writers.commit, Steps.bind_apply, Steps.get_apply, hw, register_afterCalls]
  split <;> rfl

theorem names_prefix (kind : NameKind) (calls more : List Call) :
    (afterCalls calls).names kind <+: (afterCalls (calls ++ more)).names kind := by
  rw [names_afterCalls, names_afterCalls, given, given, List.filterMap_append]
  exact eraseDups_prefix _ _

/-! ## Callers that take turns -/

theorem Interleaves.perm {callers : List (List Call)} {calls : List Call}
    (h : Interleaves callers calls) : calls.Perm callers.flatten := by
  induction h with
  | done hdone => rw [List.flatten_eq_nil_iff.mpr hdone]
  | @turn before after call rest calls _ ih =>
    rw [List.flatten_append, List.flatten_cons, List.cons_append]
    rw [List.flatten_append, List.flatten_cons] at ih
    exact (ih.cons call).trans List.perm_middle.symm

/-- Whichever turns the callers take, they register the same names. -/
theorem names_perm_of_interleaves {callers : List (List Call)} {calls calls' : List Call}
    (h : Interleaves callers calls) (h' : Interleaves callers calls') (kind : NameKind) :
    ((afterCalls calls).names kind).Perm ((afterCalls calls').names kind) := by
  have hgiven : (given kind calls).Perm (given kind calls') :=
    (h.perm.trans h'.perm.symm).filterMap _
  rw [names_afterCalls, names_afterCalls,
    List.perm_ext_iff_of_nodup (nodup_eraseDups _) (nodup_eraseDups _)]
  intro name
  rw [List.mem_eraseDups, List.mem_eraseDups, hgiven.mem_iff]

/-- After any calls the names of a kind are the first occurrences of those that were given under it.
A call fails exactly when its name was given under its kind before, and then the registry stays as
it is, and so do the writers that share it. What was given under one kind counts for nothing under
the other, no name is lost or moved later on, all questions about a kind are answered from its
names, and callers register the same names whichever turns they take. -/
theorem write_once_roster (calls : List Call) :
    (∀ kind, (afterCalls calls).names kind = (given kind calls).eraseDups) ∧
    (∀ kind name, (afterCalls calls).register kind name =
      if name ∈ given kind calls then .error ⟨kind, name, none⟩
      else .ok (afterCalls (calls ++ [(kind, name)]))) ∧
    (∀ {ω : Type} (w : Writers) (v : ω), w.registry = afterCalls calls → ∀ kind name,
      (Writers.commit kind name : Writing (StateM ω) Unit) w v =
        if name ∈ given kind calls then ((.error (.duplicateName ⟨kind, name, none⟩), w), v)
        else ((.ok (), { w with registry := afterCalls (calls ++ [(kind, name)]) }), v)) ∧
    (∀ kind name, name ∈ given kind calls →
      afterCalls (calls ++ [(kind, name)]) = afterCalls calls) ∧
    (∀ kind calls', given kind calls = given kind calls' →
      (afterCalls calls).names kind = (afterCalls calls').names kind ∧
      ∀ name, ((afterCalls calls).register kind name).isOk =
        ((afterCalls calls').register kind name).isOk) ∧
    (∀ kind more, (afterCalls calls).names kind <+: (afterCalls (calls ++ more)).names kind) ∧
    (∀ kind, (∀ name, (afterCalls calls).contains kind name = true ↔
        name ∈ (afterCalls calls).names kind) ∧
      (afterCalls calls).last? kind = ((afterCalls calls).names kind).getLast? ∧
      (afterCalls calls).count kind = ((afterCalls calls).names kind).length) ∧
    (∀ callers, Interleaves callers calls → ∀ calls', Interleaves callers calls' →
      ∀ kind, ((afterCalls calls).names kind).Perm ((afterCalls calls').names kind)) := by
  refine ⟨fun kind => names_afterCalls kind calls,
    fun kind name => register_afterCalls kind name calls,
    fun w v hw kind name => commit_afterCalls hw kind name v, fun kind name hgiven => ?_,
    fun kind calls' hsame => ⟨?_, fun name => ?_⟩, fun kind more => names_prefix kind calls more,
    fun kind => ⟨fun name => contains_iff, rfl, rfl⟩,
    fun callers h calls' h' kind => names_perm_of_interleaves h h' kind⟩
  · rw [afterCalls_concat, submit_of_mem (mem_names_afterCalls.mpr hgiven)]
  · rw [names_afterCalls, names_afterCalls, hsame]
  · rw [register_afterCalls, register_afterCalls, hsame]
    split <;> rfl

/-- Two callers give one name under the same kind, and one of them gives it under the other kind. -/
theorem write_once_roster_of_sharing :
    let first : List Call := [(.query, "a"), (.pipeModule, "a")]
    let second : List Call := [(.query, "b"), (.query, "a")]
    let calls : List Call := [(.query, "a"), (.query, "b"), (.query, "a"), (.pipeModule, "a")]
    Interleaves [first, second] calls ∧
      (afterCalls calls).names .query = ["a", "b"] ∧
      (afterCalls calls).names .pipeModule = ["a"] ∧
      afterCalls (calls ++ [(.query, "b")]) = afterCalls calls ∧
      (Writers.commit .query "b" : Writing (StateM Unit) Unit)
          { Writers.fresh [] with registry := afterCalls calls } () =
        ((.error (.duplicateName ⟨.query, "b", none⟩),
          { Writers.fresh [] with registry := afterCalls calls }), ()) ∧
      (["a", "b"] : List String).Perm ((afterCalls (second ++ first)).names .query) := by
  intro first second calls
  have hcalls : Interleaves [first, second] calls :=
    @Interleaves.turn [] _ _ _ _ (@Interleaves.turn [_] _ _ _ _ (@Interleaves.turn [_] _ _ _ _
      (@Interleaves.turn [] _ _ _ _ (.done (by simp)))))
  have hother : Interleaves [first, second] (second ++ first) :=
    @Interleaves.turn [_] _ _ _ _ (@Interleaves.turn [_] _ _ _ _ (@Interleaves.turn [] _ _ _ _
      (@Interleaves.turn [] _ _ _ _ (.done (by simp)))))
  obtain ⟨hnames, -, hcommit, hagain, -, -, -, hturns⟩ := write_once_roster calls
  have hquery : (afterCalls calls).names .query = ["a", "b"] := (hnames .query).trans (by decide)
  have hb : "b" ∈ given .query calls := by decide
  refine ⟨hcalls, hquery, (hnames .pipeModule).trans (by decide), hagain .query "b" hb,
    (hcommit _ () rfl .query "b").trans (if_pos hb), ?_⟩
  rw [← hquery]
  exact hturns _ hcalls _ hother .query

end LinkedApi.Registry
