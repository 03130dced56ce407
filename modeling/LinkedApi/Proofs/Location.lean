import LinkedApi.Location
import LinkedApi.Proofs.Text.Split

/-!
# Locations and their texts

The locations that documents and references give are told apart by their texts. A file and a URL
have different texts, since only a URL has an empty step. Unless the first text has a number sign,
none of them has, so that one may stand between a location and a pointer.
-/

namespace LinkedApi

open Text

namespace Path

def AllSteps (P : String → Prop) (p : Path) : Prop := ∀ step ∈ p.steps, P step

/-- Steps are not empty and have no slashes. -/
def Proper (p : Path) : Prop := p.AllSteps fun step => step ≠ "" ∧ '/' ∉ step.toList

def Clean (p : Path) : Prop :=
  p.AllSteps fun step => step ≠ "" ∧ '/' ∉ step.toList ∧ '#' ∉ step.toList

theorem Clean.proper {p : Path} (h : p.Clean) : p.Proper :=
  fun step hstep => ⟨(h step hstep).1, (h step hstep).2.1⟩

theorem mem_steps_ofText {text step : String} (h : step ∈ (ofText text).steps) :
    step ≠ "" ∧ '/' ∉ step.toList ∧ ∀ c ∈ step.toList, c ∈ text.toList := by
  obtain ⟨hmem, hkept⟩ := List.mem_filter.mp h
  obtain ⟨piece, hpiece, rfl⟩ := List.mem_map.mp hmem
  obtain ⟨hslash, hsub⟩ := mem_of_mem_splitAt hpiece
  rw [String.toList_ofList]
  exact ⟨(of_decide_eq_true hkept).1, hslash, hsub⟩

/-- A text is split at its slashes, so no step has any. -/
theorem proper_ofText (text : String) : (ofText text).Proper := fun _ hstep =>
  ⟨(mem_steps_ofText hstep).1, (mem_steps_ofText hstep).2.1⟩

theorem clean_ofText {text : String} (h : '#' ∉ text.toList) : (ofText text).Clean := by
  intro step hstep
  obtain ⟨hempty, hslash, hsub⟩ := mem_steps_ofText hstep
  exact ⟨hempty, hslash, fun hmem => h (hsub _ hmem)⟩

theorem mem_foldl_normalStep {steps taken : List String} {step : String}
    (h : step ∈ steps.foldl normalStep taken) : step ∈ taken ∨ step ∈ steps ∨ step = up := by
  induction steps generalizing taken with
  | nil => exact .inl h
  | cons first rest ih =>
    rcases ih h with hnext | hrest | hup
    · unfold normalStep at hnext
      split at hnext
      · split at hnext
        · exact .inr (.inr (List.mem_singleton.mp hnext))
        · exact .inl (List.mem_of_mem_drop hnext)
      · rcases List.mem_cons.mp hnext with rfl | hnext
        · exact .inr (.inl List.mem_cons_self)
        · exact .inl hnext
    · exact .inr (.inl (List.mem_cons_of_mem first hrest))
    · exact .inr (.inr hup)

theorem mem_steps_normalize {p : Path} {step : String} (h : step ∈ p.normalize.steps) :
    step ∈ p.steps ∨ step = up := by
  rcases mem_foldl_normalStep (List.mem_reverse.mp h) with hnone | hstep | hup
  · cases hnone
  · exact .inl hstep
  · exact .inr hup

theorem steps_parent_subset (p : Path) : p.parent.steps ⊆ p.steps := by
  unfold Path.parent
  split
  · exact List.nil_subset _
  · exact List.dropLast_subset _

theorem mem_steps_join {p q : Path} {step : String} (h : step ∈ (p.join q).steps) :
    step ∈ p.steps ∨ step ∈ q.steps := by
  unfold Path.join at h
  split at h
  · exact .inr h
  · exact List.mem_append.mp h

/-! ### What all steps have -/

namespace AllSteps

variable {P : String → Prop} {p q : Path}

theorem parent (h : p.AllSteps P) : p.parent.AllSteps P :=
  fun step hstep => h step (steps_parent_subset p hstep)

theorem join (hp : p.AllSteps P) (hq : q.AllSteps P) : (p.join q).AllSteps P :=
  fun step hstep => (mem_steps_join hstep).elim (hp step) (hq step)

/-- The only step that a normal form may have beside those of its path is a step up. -/
theorem normalize (h : p.AllSteps P) (hup : P up) : p.normalize.AllSteps P := by
  intro step hstep
  rcases mem_steps_normalize hstep with hstep | rfl
  · exact h step hstep
  · exact hup

end AllSteps

theorem allSteps_ne_iff {p : Path} {name : String} :
    p.AllSteps (· ≠ name) ↔ name ∉ p.steps :=
  ⟨fun h hmem => h name hmem rfl, fun h _ hstep => ne_of_mem_of_not_mem hstep h⟩

/-- The pieces of the text of a path are its steps, after an empty one when it is absolute. -/
theorem splitAt_toChars {p : Path} (h : p.Proper) :
    splitAt '/' p.toChars =
      (if p.absolute then [[]] else []) ++
        (if p.steps.isEmpty then [[]] else p.steps.map String.toList) := by
  have hsteps : splitAt '/' (joinWith '/' (p.steps.map String.toList)) =
      if p.steps.isEmpty then [[]] else p.steps.map String.toList := by
    cases hlist : p.steps with
    | nil => rfl
    | cons step rest =>
      rw [← hlist]
      refine (splitAt_joinWith (by simp [hlist]) ?_).trans (by simp [hlist])
      intro piece hpiece
      obtain ⟨step, hstep, rfl⟩ := List.mem_map.mp hpiece
      exact (h step hstep).2
  cases habsolute : p.absolute with
  | true =>
    rw [toChars, habsolute, if_pos rfl, List.singleton_append, splitAt, if_pos rfl, hsteps]
    rfl
  | false =>
    rw [toChars, habsolute, if_neg (by simp), List.nil_append, hsteps]
    rfl

theorem filter_splitAt_toChars {p : Path} (h : p.Proper) :
    (splitAt '/' p.toChars).filter (· ≠ []) = p.steps.map String.toList := by
  have hkept : (p.steps.map String.toList).filter (· ≠ []) = p.steps.map String.toList := by
    rw [List.filter_eq_self]
    intro piece hpiece
    obtain ⟨step, hstep, rfl⟩ := List.mem_map.mp hpiece
    simpa using (h step hstep).1
  rw [splitAt_toChars h, List.filter_append]
  have hfirst : (if p.absolute then [([] : List Char)] else []).filter (· ≠ []) = [] := by
    split <;> rfl
  rw [hfirst, List.nil_append]
  split
  · next hempty => rw [List.isEmpty_iff.mp hempty]; rfl
  · exact hkept

/-- Texts tell proper paths apart. -/
theorem toString_injective {p q : Path} (hp : p.Proper) (hq : q.Proper)
    (h : p.toString = q.toString) : p = q := by
  have hchars : p.toChars = q.toChars := String.ofList_injective h
  have hpieces : p.steps.map String.toList = q.steps.map String.toList := by
    rw [← filter_splitAt_toChars hp, hchars, filter_splitAt_toChars hq]
  have hsteps : p.steps = q.steps :=
    List.map_injective_iff.mpr (fun _ _ => String.toList_inj.mp) hpieces
  have habsolute : p.absolute = q.absolute := by
    rw [toChars, toChars, hsteps] at hchars
    have hlength := congrArg List.length hchars
    cases hone : p.absolute <;> cases hother : q.absolute <;> simp_all
  cases p
  cases q
  cases hsteps
  cases habsolute
  rfl

/-- The text of a path does not look like a URL, since a path has no empty steps. -/
theorem Proper.scheme_not_prefix {p : Path} (h : p.Proper) {scheme : List Char}
    (hscheme : scheme ≠ []) (hslash : '/' ∉ scheme) :
    ¬scheme ++ ['/', '/'] <+: p.toString.toList := by
  rintro ⟨rest, hrest⟩
  have hpieces : splitAt '/' p.toString.toList = scheme :: [] :: splitAt '/' rest := by
    rw [← hrest, List.append_assoc, List.cons_append, splitAt_append, splitAt_of_not_mem hslash]
    rfl
  rw [toString, String.toList_ofList, splitAt_toChars h] at hpieces
  split at hpieces
  · exact hscheme (List.cons.inj hpieces).1.symm
  · split at hpieces
    · cases hpieces
    · -- the second step would be empty
      have hempty : [] ∈ p.steps.map String.toList := by
        rw [List.nil_append] at hpieces
        rw [hpieces]
        simp
      obtain ⟨step, hstep, hnil⟩ := List.mem_map.mp hempty
      exact (h step hstep).1 (String.toList_eq_nil_iff.mp hnil)

theorem number_sign_not_mem_toString {p : Path} (h : p.Clean) : '#' ∉ p.toString.toList := by
  intro hmem
  rw [toString, String.toList_ofList, toChars, List.mem_append] at hmem
  rcases hmem with hmem | hmem
  · split at hmem
    · simp at hmem
    · cases hmem
  · rcases mem_joinWith hmem with hslash | ⟨piece, hpiece, hmem⟩
    · simp at hslash
    · obtain ⟨step, hstep, rfl⟩ := List.mem_map.mp hpiece
      exact (h step hstep).2.2 hmem

end Path

namespace Location

/-- What documents and references can give as a location. -/
def Proper : Location → Prop
  | .file path => path.Proper
  | .url text => isRemote text

/-- What documents and references without number signs can give as a location. -/
def Canonical : Location → Prop
  | .file path => path.Clean
  | .url text => isRemote text ∧ '#' ∉ text.toList

theorem Canonical.proper {location : Location} (h : location.Canonical) : location.Proper := by
  cases location with
  | file path => exact Path.Clean.proper h
  | url text => exact h.1

/-- A text is taken for a URL exactly when it begins with one of the two schemes. -/
theorem isRemote_iff {text : String} :
    isRemote text ↔ ∃ scheme ∈ ["http:".toList, "https:".toList],
      scheme ++ ['/', '/'] <+: text.toList := by
  simp [isRemote]

theorem number_sign_not_mem_toString {location : Location} (h : location.Canonical) :
    '#' ∉ location.toString.toList := by
  cases location with
  | file path => exact Path.number_sign_not_mem_toString h
  | url text => exact h.2

theorem isRemote_toString {path : Path} (h : path.Proper) : isRemote path.toString = false := by
  rw [Bool.eq_false_iff, ne_eq, isRemote_iff]
  rintro ⟨scheme, hscheme, hprefix⟩
  have hkind : scheme ≠ [] ∧ '/' ∉ scheme := by
    rcases List.mem_pair.mp hscheme with rfl | rfl <;> decide
  exact h.scheme_not_prefix hkind.1 hkind.2 hprefix

theorem toString_file_ne_url {path : Path} (hpath : path.Proper) {text : String}
    (htext : isRemote text) : path.toString ≠ text := by
  rintro rfl
  rw [isRemote_toString hpath] at htext
  exact Bool.false_ne_true htext

/-- Texts tell proper locations apart. -/
theorem toString_injective {one other : Location} (hone : one.Proper) (hother : other.Proper)
    (h : one.toString = other.toString) : one = other := by
  cases one with
  | file path =>
    cases other with
    | file path' => exact congrArg file (Path.toString_injective hone hother h)
    | url text => exact absurd h (toString_file_ne_url hone hother)
  | url text =>
    cases other with
    | file path => exact absurd h.symm (toString_file_ne_url hother hone)
    | url text' => exact congrArg url h

theorem proper_ofText (text : String) : (ofText text).Proper := by
  unfold ofText
  split
  · next hremote => exact hremote
  · exact (Path.proper_ofText _).normalize (by decide)

theorem canonical_ofText {text : String} (h : '#' ∉ text.toList) : (ofText text).Canonical := by
  unfold ofText
  split
  · next hremote => exact ⟨hremote, h⟩
  · refine (Path.clean_ofText ?_).normalize (by decide)
    unfold filePath
    split
    · rw [String.Slice.toString_eq, String.toList_copy_drop]
      exact fun hmem => h (List.mem_of_mem_drop hmem)
    · exact h

theorem isRemote_joinUrl {base : String} (h : isRemote base) (target : List Char) :
    isRemote (String.ofList (joinUrl base.toList target)) := by
  obtain ⟨scheme, hscheme, rest, hrest⟩ := isRemote_iff.mp h
  have hstart : afterScheme 0 base.toList = some (scheme ++ ['/', '/']).length := by
    rw [← hrest]
    rcases List.mem_pair.mp hscheme with rfl | rfl <;> rfl
  rw [isRemote_iff]
  refine ⟨scheme, hscheme, ?_⟩
  rw [String.toList_ofList, joinUrl]
  refine List.IsPrefix.trans ?_ (List.prefix_append _ _)
  rw [hstart]
  dsimp only [Option.getD_some]
  rw [List.prefix_take_iff]
  exact ⟨⟨rest, hrest⟩, Nat.le_add_right _ _⟩

theorem Proper.join {base : Location} (h : base.Proper) (target : String) :
    (base.join target).Proper := by
  unfold Location.join
  split
  · next hremote => exact hremote
  · split
    · exact proper_ofText target
    · cases base with
      | file path =>
        exact ((Path.AllSteps.parent h).join (Path.proper_ofText target)).normalize (by decide)
      | url text => exact isRemote_joinUrl h target.toList

theorem mem_foldl_urlStep {segments taken : List (List Char)} {segment : List Char}
    (h : segment ∈ segments.foldl urlStep taken) : segment ∈ taken ∨ segment ∈ segments := by
  induction segments generalizing taken with
  | nil => exact .inl h
  | cons first rest ih =>
    rcases ih h with hnext | hrest
    · unfold urlStep at hnext
      split at hnext
      · exact .inl hnext
      · split at hnext
        · exact .inl (List.mem_of_mem_drop hnext)
        · rcases List.mem_cons.mp hnext with rfl | hnext
          · exact .inr List.mem_cons_self
          · exact .inl hnext
    · exact .inr (List.mem_cons_of_mem first hrest)

theorem number_sign_not_mem_normalizeUrlPath {path : List Char} (h : '#' ∉ path) :
    '#' ∉ normalizeUrlPath path := by
  intro hmem
  rcases List.mem_cons.mp hmem with hslash | hmem
  · cases hslash
  · rcases mem_joinWith hmem with hslash | ⟨segment, hsegment, hmem⟩
    · cases hslash
    · rcases mem_foldl_urlStep (List.mem_reverse.mp hsegment) with hnone | hsegment
      · cases hnone
      · exact h ((mem_of_mem_splitAt (List.mem_of_mem_drop hsegment)).2 _ hmem)

theorem number_sign_not_mem_joinUrl {base target : List Char} (hbase : '#' ∉ base)
    (htarget : '#' ∉ target) : '#' ∉ joinUrl base target := by
  have hpath : '#' ∉ (splitOrigin base).2 := by
    rw [splitOrigin]
    dsimp only
    split
    · simp
    · exact fun hmem => hbase (List.mem_of_mem_drop hmem)
  have hjoined : '#' ∉ if target.head? = some '/' then target
      else directoryOf (splitOrigin base).2 ++ target := by
    split
    · exact htarget
    · intro hmem
      rcases List.mem_append.mp hmem with hmem | hmem
      · rw [directoryOf, List.mem_reverse] at hmem
        exact hpath (List.mem_reverse.mp ((List.dropWhile_sublist _).subset hmem))
      · exact htarget hmem
  intro hmem
  rw [joinUrl] at hmem
  rcases List.mem_append.mp hmem with hmem | hmem
  · exact hbase (List.mem_of_mem_take hmem)
  · exact number_sign_not_mem_normalizeUrlPath hjoined hmem

theorem Canonical.join {base : Location} (h : base.Canonical) {target : String}
    (htarget : '#' ∉ target.toList) : (base.join target).Canonical := by
  unfold Location.join
  split
  · next hremote => exact ⟨hremote, htarget⟩
  · split
    · exact canonical_ofText htarget
    · cases base with
      | file path =>
        exact ((Path.AllSteps.parent h).join (Path.clean_ofText htarget)).normalize (by decide)
      | url text =>
        refine ⟨isRemote_joinUrl h.1 target.toList, ?_⟩
        rw [String.toList_ofList]
        exact number_sign_not_mem_joinUrl h.2 htarget

end Location

end LinkedApi
