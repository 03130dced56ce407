import LinkedApi.Proofs.Location

/-!
# Origins of URLs

A relative target stays on the host of the document that refers to it. However many targets follow
each other and whatever stands in them, the origin of the URL stays as it is, and the path after it
has no dot segments left.
-/

namespace LinkedApi.Location

open Text

/-- A URL is its origin, which ends before the first slash after the first `://`, and a rest. -/
inductive Parted : List Char → List Char → List Char → Prop where
  | intro {scheme host rest : List Char} (hscheme : ':' ∉ scheme) (hhost : '/' ∉ host)
      (hrest : ∀ c ∈ rest.head?, c = '/') :
      Parted (scheme ++ ':' :: '/' :: '/' :: host ++ rest)
        (scheme ++ ':' :: '/' :: '/' :: host) rest

def dotSegments : List (List Char) := [['.'], ['.', '.']]

theorem afterScheme_append {scheme : List Char} (h : ':' ∉ scheme) (passed : Nat)
    (rest : List Char) :
    afterScheme passed (scheme ++ ':' :: '/' :: '/' :: rest) =
      some (passed + scheme.length + 3) := by
  induction scheme generalizing passed with
  | nil => rfl
  | cons c more ih =>
    obtain ⟨hc, hmore⟩ := List.ne_and_not_mem_of_not_mem_cons h
    rw [List.cons_append, afterScheme, ih hmore, List.length_cons]
    · congr 1
      omega
    · rintro rest' rfl -
      exact hc rfl

theorem takeWhile_host {host rest : List Char} (hhost : '/' ∉ host)
    (hrest : ∀ c ∈ rest.head?, c = '/') : (host ++ rest).takeWhile (· ≠ '/') = host := by
  have hkept : ∀ c ∈ host, decide (c ≠ '/') = true := fun c hc =>
    decide_eq_true fun hslash => hhost (hslash ▸ hc)
  rw [List.takeWhile_append_of_pos hkept]
  cases rest with
  | nil => simp
  | cons c more =>
    rw [hrest c rfl]
    simp

/-- The search for the end of the host finds the origin. -/
theorem splitOrigin_of_parted {url origin rest : List Char} (h : Parted url origin rest) :
    splitOrigin url = (origin, if rest.isEmpty then ['/'] else rest) := by
  obtain @⟨scheme, host, rest, hscheme, hhost, hrest⟩ := h
  have hurl : scheme ++ ':' :: '/' :: '/' :: host ++ rest =
      (scheme ++ [':', '/', '/']) ++ (host ++ rest) := by
    simp
  have hstart : afterScheme 0 (scheme ++ ':' :: '/' :: '/' :: host ++ rest) =
      some (scheme ++ [':', '/', '/']).length := by
    have hfound := afterScheme_append hscheme 0 (host ++ rest)
    simpa using hfound
  have hafter : (scheme ++ ':' :: '/' :: '/' :: host ++ rest).drop
      (scheme ++ [':', '/', '/']).length = host ++ rest := by
    rw [hurl, List.drop_left]
  have hend : (scheme ++ [':', '/', '/']).length + host.length =
      (scheme ++ ':' :: '/' :: '/' :: host).length := by
    simp only [List.length_append, List.length_cons, List.length_nil]
    omega
  simp only [splitOrigin, hstart, Option.getD_some, hafter, takeWhile_host hhost hrest, hend,
    List.take_left, List.drop_left]

/-- Every URL has an origin and a rest. -/
theorem parted_of_isRemote {text : String} (h : isRemote text) :
    ∃ origin rest, Parted text.toList origin rest := by
  obtain ⟨scheme, hscheme, after, hafter⟩ := isRemote_iff.mp h
  have hname : ∃ name, scheme = name ++ [':'] ∧ ':' ∉ name := by
    rcases List.mem_pair.mp hscheme with rfl | rfl
    · exact ⟨"http".toList, rfl, by decide⟩
    · exact ⟨"https".toList, rfl, by decide⟩
  obtain ⟨name, rfl, hname⟩ := hname
  have hsplit := splitFirst?_spec '/' after
  rw [← hafter]
  cases hfound : splitFirst? '/' after with
  | none =>
    rw [hfound] at hsplit
    have hrest : ∀ c ∈ ([] : List Char).head?, c = '/' := nofun
    have hparted := Parted.intro hname hsplit hrest
    exact ⟨_, _, by simpa using hparted⟩
  | some pair =>
    rw [hfound] at hsplit
    obtain ⟨rfl, hhost⟩ := hsplit
    have hrest : ∀ c ∈ ('/' :: pair.2).head?, c = '/' := by simp
    have hparted := Parted.intro hname hhost hrest
    exact ⟨_, _, by simpa using hparted⟩

theorem Parted.with_path {url origin rest : List Char} (h : Parted url origin rest)
    (path : List Char) : Parted (origin ++ '/' :: path) origin ('/' :: path) := by
  obtain ⟨hscheme, hhost, -⟩ := h
  exact .intro hscheme hhost (by simp)

/-! ## Paths without dot segments -/

theorem urlStep_plain {taken : List (List Char)} (h : ∀ segment ∈ taken, segment ∉ dotSegments)
    (next : List Char) : ∀ segment ∈ urlStep taken next, segment ∉ dotSegments := by
  intro segment hmem
  unfold urlStep at hmem
  split at hmem
  · exact h segment hmem
  · next hdot =>
    split at hmem
    · exact h segment (List.mem_of_mem_drop hmem)
    · next hup =>
      rcases List.mem_cons.mp hmem with rfl | hmem
      · exact fun hdots => (List.mem_pair.mp hdots).elim hdot hup
      · exact h segment hmem

theorem foldl_urlStep_plain (segments : List (List Char)) {taken : List (List Char)}
    (h : ∀ segment ∈ taken, segment ∉ dotSegments) :
    ∀ segment ∈ segments.foldl urlStep taken, segment ∉ dotSegments := by
  induction segments generalizing taken with
  | nil => exact h
  | cons next rest ih => exact ih (urlStep_plain h next)

/-- A text that begins with a slash and has no dot segments. -/
def IsPlainPath (path : List Char) : Prop :=
  ∃ segments, path = '/' :: joinWith '/' segments ∧
    ∀ segment ∈ segments, '/' ∉ segment ∧ segment ∉ dotSegments

/-- A path in normal form has no dot segments. -/
theorem isPlainPath_normalizeUrlPath (path : List Char) :
    IsPlainPath (normalizeUrlPath path) := by
  have hnone : ∀ segment ∈ ([] : List (List Char)), segment ∉ dotSegments := by simp
  refine ⟨_, rfl, fun segment hsegment => ?_⟩
  rw [List.mem_reverse] at hsegment
  refine ⟨?_, foldl_urlStep_plain _ hnone segment hsegment⟩
  rcases mem_foldl_urlStep hsegment with hnone | hsegment
  · cases hnone
  · exact (mem_of_mem_splitAt (List.mem_of_mem_drop hsegment)).1

/-! ## Joining -/

/-- A target that is seen from the document that refers to it. -/
def IsRelative (target : String) : Prop := ¬isRemote target ∧ ¬target.startsWith "file://"

/-- A target is joined below the origin, which stays as it is. -/
theorem joinUrl_parted {url origin rest : List Char} (h : Parted url origin rest)
    (target : List Char) :
    ∃ path, Parted (joinUrl url target) origin path ∧ IsPlainPath path := by
  rw [joinUrl, splitOrigin_of_parted h]
  exact ⟨_, h.with_path _, isPlainPath_normalizeUrlPath _⟩

theorem join_of_isRelative {target : String} (h : IsRelative target) (url : String) :
    join (.url url) target = .url (String.ofList (joinUrl url.toList target.toList)) := by
  rw [join, if_neg h.1, if_neg h.2]

/-- One target after the other keeps the origin. -/
theorem foldl_join_parted {targets : List String} (hne : targets ≠ [])
    (hrelative : ∀ target ∈ targets, IsRelative target) {base : String} {origin rest : List Char}
    (h : Parted base.toList origin rest) :
    ∃ url path, targets.foldl join (.url base) = .url url ∧ Parted url.toList origin path ∧
      IsPlainPath path := by
  induction targets generalizing base rest with
  | nil => exact absurd rfl hne
  | cons target more ih =>
    rw [List.forall_mem_cons] at hrelative
    obtain ⟨path, hparted, hplain⟩ := joinUrl_parted h target.toList
    rw [← String.toList_ofList (l := joinUrl _ _)] at hparted
    rw [List.foldl_cons, join_of_isRelative hrelative.1]
    cases more with
    | nil => exact ⟨_, path, rfl, hparted, hplain⟩
    | cons next others => exact ih (by simp) hrelative.2 hparted

/-- Relative targets that follow each other lead from a URL to a URL with the same origin, and with
a path that begins with a slash and has no dot segments. -/
theorem relative_targets_stay {base : String} (hbase : isRemote base) {targets : List String}
    (hne : targets ≠ []) (hrelative : ∀ target ∈ targets, IsRelative target) :
    ∃ origin rest url path, Parted base.toList origin rest ∧
      targets.foldl join (ofText base) = .url url ∧ Parted url.toList origin path ∧
      IsPlainPath path := by
  obtain ⟨origin, rest, hparted⟩ := parted_of_isRemote hbase
  obtain ⟨url, path, hjoined, hurl, hplain⟩ := foldl_join_parted hne hrelative hparted
  refine ⟨origin, rest, url, path, hparted, ?_, hurl, hplain⟩
  rw [ofText, if_pos hbase, hjoined]

/-- More steps up than there are directories, and then a target that looks like a host and a URL. -/
theorem relative_targets_stay_of_climbing :
    let targets := ["../../../b.yaml", "//other/./c?d://e"]
    isRemote "https://host/v1/a.yaml" ∧ ∃ origin rest url path,
      Parted "https://host/v1/a.yaml".toList origin rest ∧
      targets.foldl join (ofText "https://host/v1/a.yaml") = .url url ∧
      Parted url.toList origin path ∧ IsPlainPath path := by
  intro targets
  have hbase : isRemote "https://host/v1/a.yaml" := by decide +kernel
  have hrelative : ∀ target ∈ targets, IsRelative target := by
    unfold IsRelative
    decide +kernel
  exact ⟨hbase, relative_targets_stay hbase (by simp [targets]) hrelative⟩

end LinkedApi.Location
