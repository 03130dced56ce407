import LinkedApi.Proofs.Path

/-!
# Texts that stand for locations

A path in normal form goes up at most one directory and then down through names. It is its own
normal form, and it is what its text spells. A location that documents and references give is a
URL or such a path, so that it is read back from its text, and locations are told apart by their
texts.
-/

namespace LinkedApi

open Text

namespace Path

variable {p : Path} {names : List String}

/-! ## Normal forms -/

/-- A path that goes up at most one directory and then down through names. -/
def IsNormal (p : Path) : Prop :=
  ∃ n ≤ 1, ∃ names, p.steps = List.replicate n up ++ names ∧
    ∀ name ∈ names, name ≠ "." ∧ name ≠ up

theorem climb_names (h : ∀ name ∈ names, name ≠ "." ∧ name ≠ up) : climb names = 0 := by
  induction names with
  | nil => rfl
  | cons name rest ih =>
    rw [List.forall_mem_cons] at h
    rw [climb, if_neg h.1.1, if_neg h.1.2, ih h.2]

@[simp]
theorem climb_replicate_up_append (n : Nat) (steps : List String) :
    climb (List.replicate n up ++ steps) = n + climb steps := by
  induction n with
  | zero => simp
  | succ n ih =>
    rw [List.replicate_succ, List.cons_append, climb, if_neg (by decide), if_pos rfl, ih]
    omega

/-- From the root there is no way up. -/
@[simp]
theorem follow_replicate_up_append (n : Nat) (steps : List String) :
    follow [] (List.replicate n up ++ steps) = follow [] steps := by
  rw [follow_append, follow_replicate_up, List.rdrop_nil]

/-- The normal form of a path is in normal form. -/
theorem isNormal_normalize (h : "." ∉ p.steps) : p.normalize.IsNormal :=
  ⟨climb p.steps % 2, by omega, follow [] p.steps, steps_normalize h, fun _ => isName_of_mem_follow⟩

namespace IsNormal

theorem here_not_mem (h : p.IsNormal) : "." ∉ p.steps := by
  obtain ⟨n, -, names, hsteps, hnames⟩ := h
  intro hmem
  rw [hsteps, List.mem_append] at hmem
  rcases hmem with hmem | hmem
  · exact absurd (List.eq_of_mem_replicate hmem) (by decide)
  · exact (hnames _ hmem).1 rfl

/-- No step up follows a name. -/
theorem ups_first (h : p.IsNormal) :
    p.steps.Pairwise fun earlier later => later = up → earlier = up := by
  obtain ⟨n, -, names, hsteps, hnames⟩ := h
  rw [hsteps, List.pairwise_append]
  refine ⟨List.pairwise_replicate.mpr (.inr id), ?_, ?_⟩
  · exact List.pairwise_of_forall_mem_list fun _ _ name hname hup =>
      absurd hup (hnames name hname).2
  · exact fun step hstep _ _ _ => List.eq_of_mem_replicate hstep

theorem normalize_eq (h : p.IsNormal) : p.normalize = p := by
  have hhere := h.here_not_mem
  obtain ⟨n, hn, names, hsteps, hnames⟩ := h
  have hsame : p.normalize.steps = p.steps := by
    rw [steps_normalize hhere, hsteps, climb_replicate_up_append, climb_names hnames,
      follow_replicate_up_append, follow_names [] hnames, List.nil_append, Nat.add_zero,
      Nat.mod_eq_of_lt (by omega)]
  calc p.normalize
    _ = { p with steps := p.normalize.steps } := rfl
    _ = p := by rw [hsame]

end IsNormal

/-! ## Reading back -/

theorem steps_toString (h : p.Proper) : FileSystem.steps p.toString = p.steps := by
  have hkept : (fun piece => decide (piece ≠ "")) ∘ String.ofList =
      fun cs : List Char => decide (cs ≠ []) := by
    funext cs
    simp
  rw [FileSystem.steps, toString, String.toList_ofList, List.filter_map, hkept,
    filter_splitAt_toChars h, List.map_map]
  simp

/-- Only the text of an absolute path begins with a slash. -/
theorem head?_toChars (h : p.Proper) : p.toChars.head? = some '/' ↔ p.absolute := by
  constructor
  · intro hhead
    by_contra habsolute
    obtain ⟨rest, hrest⟩ := List.head?_eq_some_iff.mp hhead
    have hpieces := splitAt_toChars h
    rw [if_neg habsolute, List.nil_append, hrest, splitAt, if_pos rfl] at hpieces
    cases hsteps : p.steps with
    | nil => simp [toChars, habsolute, hsteps, joinWith] at hrest
    | cons step more =>
      -- the first step would be empty
      rw [hsteps] at hpieces
      have hempty : [] = step.toList := (List.cons.inj hpieces).1
      exact (h step (by simp [hsteps])).1 (String.toList_eq_nil_iff.mp hempty.symm)
  · intro habsolute
    rw [toChars, if_pos habsolute]
    rfl

/-- A path is read back from its text. -/
theorem ofText_toString (hproper : p.Proper) (hhere : "." ∉ p.steps) : ofText p.toString = p := by
  have hsteps : (ofText p.toString).steps = p.steps := by
    rw [steps_ofText, steps_toString hproper, List.filter_eq_self]
    exact fun step hstep => decide_eq_true fun hdot => hhere (hdot ▸ hstep)
  have habsolute : (ofText p.toString).absolute = p.absolute := by
    rw [Bool.eq_iff_iff, ← head?_toChars hproper, ofText, ofChars, toString, String.toList_ofList]
    exact decide_eq_true_iff
  calc ofText p.toString
    _ = ⟨(ofText p.toString).absolute, (ofText p.toString).steps⟩ := rfl
    _ = p := by rw [habsolute, hsteps]

end Path

namespace Location

open FileSystem LinkedApi.Path

/-! ## Locations -/

/-- A URL, or the path of a file in normal form. -/
def IsNormal : Location → Prop
  | .file path => path.Proper ∧ path.IsNormal
  | .url text => isRemote text

theorem IsNormal.proper {location : Location} (h : location.IsNormal) : location.Proper := by
  cases location with
  | file path => exact h.1
  | url text => exact h

theorem isNormal_file {path : Path} (hproper : path.Proper) (hhere : "." ∉ path.steps) :
    (file path.normalize).IsNormal :=
  ⟨AllSteps.normalize hproper (by decide), isNormal_normalize hhere⟩

theorem isNormal_ofText (text : String) : (ofText text).IsNormal := by
  unfold ofText
  split
  · next hremote => exact hremote
  · exact isNormal_file (Path.proper_ofText _) (here_not_mem_ofText _)

/-- Joining a target gives a location in normal form again. -/
theorem IsNormal.join {base : Location} (h : base.IsNormal) (target : String) :
    (base.join target).IsNormal := by
  unfold Location.join
  split
  · next hremote => exact hremote
  · split
    · exact isNormal_ofText target
    · cases base with
      | file path =>
        obtain ⟨hproper, hnormal⟩ := h
        have hhere := (allSteps_ne_iff.mpr hnormal.here_not_mem).parent.join
          (allSteps_ne_iff.mpr (here_not_mem_ofText target))
        exact isNormal_file (AllSteps.join (AllSteps.parent hproper) (Path.proper_ofText target))
          (allSteps_ne_iff.mp hhere)
      | url text => exact isRemote_joinUrl h target.toList

theorem isNormal_reached (text : String) (targets : List String) :
    (reached text targets).IsNormal :=
  reached_induction isNormal_ofText (fun _ hbase => hbase.join) text targets

/-- The text of a path is taken as it is, since it has no scheme that would be cut off. -/
theorem filePath_toString {path : Path} (h : path.Proper) :
    filePath path.toString = path.toString := by
  have hscheme : ¬"file:".toList ++ ['/', '/'] <+: path.toString.toList :=
    h.scheme_not_prefix (by decide) (by decide)
  rw [filePath, if_neg]
  simpa using hscheme

theorem IsNormal.ofText_toString {location : Location} (h : location.IsNormal) :
    ofText location.toString = location := by
  cases location with
  | file path =>
    obtain ⟨hproper, hnormal⟩ := h
    rw [toString, ofText, isRemote_toString hproper, filePath_toString hproper,
      Path.ofText_toString hproper hnormal.here_not_mem, hnormal.normalize_eq]
    rfl
  | url text => exact if_pos h

/-- The normal form of a path is read back from its text and is its own normal form. No step in its
text stays where it is, no step up follows a name, and from the root it leads where the path leads.
A location to which targets lead is read back from its text as well, so that two of them have the
same text only if they are the same, and none is a file with the text of a URL. -/
theorem texts_canonical :
    (∀ text : String,
      let normal := (Path.ofText text).normalize
      Path.ofText normal.toString = normal ∧ normal.normalize = normal ∧
      "." ∉ FileSystem.steps normal.toString ∧
      (FileSystem.steps normal.toString).Pairwise
        (fun earlier later => later = up → earlier = up) ∧
      normal.placeFrom [] = placeOf text []) ∧
    ∀ (first : String) (targets : List String),
      (∀ target, ofText ((reached first targets).join target).toString =
        (reached first targets).join target) ∧
      ∀ (other : String) (others : List String),
        ((reached first targets).toString = (reached other others).toString ↔
          reached first targets = reached other others) ∧
        ∀ path url, reached first targets = .file path → reached other others = .url url →
          path.toString ≠ url := by
  refine ⟨?_, fun first targets => ⟨?_, fun other others => ⟨⟨?_, ?_⟩, ?_⟩⟩⟩
  · intro text normal
    have hhere : "." ∉ (Path.ofText text).steps := here_not_mem_ofText text
    have hproper : normal.Proper := (Path.proper_ofText text).normalize (by decide)
    have hnormal : normal.IsNormal := isNormal_normalize hhere
    rw [steps_toString hproper, placeOf_eq]
    refine ⟨Path.ofText_toString hproper hnormal.here_not_mem, hnormal.normalize_eq,
      hnormal.here_not_mem, hnormal.ups_first, (follow_normalize_iff hhere []).mpr ?_⟩
    exact .inr (.inr (Nat.zero_le _))
  · exact fun target => ((isNormal_reached first targets).join target).ofText_toString
  · exact toString_injective (isNormal_reached first targets).proper
      (isNormal_reached other others).proper
  · exact congrArg toString
  · intro path url hfile hurl
    have hpath := (isNormal_reached first targets).proper
    have htext := (isNormal_reached other others).proper
    rw [hfile] at hpath
    rw [hurl] at htext
    exact toString_file_ne_url hpath htext

/-- A file whose path is spelled like a URL, and that URL. -/
theorem texts_canonical_of_lookalikes :
    reached "file://http://host/x.yaml" ["./a.yaml"] = .file ⟨false, ["http:", "host", "a.yaml"]⟩ ∧
      reached "http://host/v1/x.yaml" ["../a.yaml"] = .url "http://host/a.yaml" ∧
      Path.toString ⟨false, ["http:", "host", "a.yaml"]⟩ ≠ "http://host/a.yaml" := by
  have hfile : reached "file://http://host/x.yaml" ["./a.yaml"] =
      .file ⟨false, ["http:", "host", "a.yaml"]⟩ := by
    decide +kernel
  have hurl : reached "http://host/v1/x.yaml" ["../a.yaml"] = .url "http://host/a.yaml" := by
    decide +kernel
  obtain ⟨-, hlocations⟩ := texts_canonical
  obtain ⟨-, hothers⟩ := hlocations "file://http://host/x.yaml" ["./a.yaml"]
  obtain ⟨-, happart⟩ := hothers "http://host/v1/x.yaml" ["../a.yaml"]
  exact ⟨hfile, hurl, happart _ _ hfile hurl⟩

end Location

end LinkedApi
