import LinkedApi.Proofs.Location
import Mathlib.Data.List.Induction

/-!
# The document beside another

A document may have another one beside it, in the same directory or under the same URL. A pointer
into the other one is written as the text of its location, a number sign, a slash and a token. Such
a text is never the text of the first location with a number sign, even if this location has number
signs in it: cut at the slashes, both have the same steps before the name of the other document.
-/

namespace LinkedApi

open Text

namespace Location

/-- Where the parts of a document are moved to. -/
def beside (location : Location) : Location := location.join "frag.yaml"

/-- Steps that are taken one after the other do not come to the steps without their last one, if
this one is simply taken. -/
theorem ne_foldl_append {α : Type} {step : List α → α → List α} {last : α}
    (hlast : ∀ taken, step taken last = last :: taken) (steps : List α) :
    steps ≠ (steps.foldl step []).reverse ++ [last] := by
  induction steps using List.reverseRecOn with
  | nil => simp
  | append_singleton steps next ih =>
    intro h
    obtain ⟨hsteps, hnext⟩ := List.append_inj' h rfl
    rw [List.foldl_append, (List.cons.inj hnext).1, List.foldl_cons, List.foldl_nil, hlast,
      List.reverse_cons] at hsteps
    exact ih hsteps

@[simp]
theorem beside_file (path : Path) :
    (file path).beside = .file (path.parent.join ⟨false, ["frag.yaml"]⟩).normalize := by
  have hlocal : isRemote "frag.yaml" = false := by decide +kernel
  have hplain : "frag.yaml".startsWith "file://" = false := by decide +kernel
  rw [beside, Location.join, hlocal, hplain]
  rfl

@[simp]
theorem beside_url (text : String) :
    (url text).beside = .url (String.ofList (joinUrl text.toList "frag.yaml".toList)) := by
  have hlocal : isRemote "frag.yaml" = false := by decide +kernel
  have hplain : "frag.yaml".startsWith "file://" = false := by decide +kernel
  rw [beside, Location.join, hlocal, hplain]
  rfl

/-- The pieces of a text that goes on with a number sign and a token are those of the text, where
the number sign belongs to the last one, and the token. -/
theorem splitAt_joinWith_token {pieces : List (List Char)} {last token : List Char}
    (h : ∀ piece ∈ pieces ++ [last], '/' ∉ piece) (htoken : '/' ∉ token) :
    splitAt '/' (joinWith '/' (pieces ++ [last]) ++ '#' :: '/' :: token) =
      pieces ++ [last ++ ['#']] ++ [token] := by
  have hsign : '/' ∉ ['#'] := by decide
  rw [List.append_cons, splitAt_append, splitAt_joinWith_append h hsign, splitAt_of_not_mem htoken]

theorem slash_not_mem_pieces {path : Path} (h : path.Proper) :
    ∀ piece ∈ path.steps.map String.toList, '/' ∉ piece := by
  intro piece hpiece
  obtain ⟨step, hstep, rfl⟩ := List.mem_map.mp hpiece
  exact (h step hstep).2

/-- A pointer into the document beside a file is no text of the file with a number sign. -/
theorem beside_ne_file {path : Path} (h : path.Proper) {token : List Char} (htoken : '/' ∉ token) :
    (file path).beside.toString.toList ++ '#' :: '/' :: token ≠
      (file path).toString.toList ++ ['#'] := by
  have hproper : (file path).Proper := h
  have hbeside : (file path).beside.Proper := hproper.join "frag.yaml"
  rw [beside_file] at hbeside ⊢
  intro hsame
  rw [toString, toString, Path.toString, Path.toString, String.toList_ofList,
    String.toList_ofList] at hsame
  obtain ⟨absolute, steps⟩ := path
  rcases List.eq_nil_or_concat steps with rfl | ⟨before, last, rfl⟩
  · cases absolute <;> cases hsame
  · rw [List.concat_eq_append] at hsame hbeside h
    let taken := (before.foldl Path.normalStep []).reverse
    have hnormal : ((Path.mk absolute (before ++ [last])).parent.join
        ⟨false, ["frag.yaml"]⟩).normalize = ⟨absolute, taken ++ ["frag.yaml"]⟩ := by
      have hsteps : (before ++ [last]).isEmpty = false := by simp
      rw [Path.parent, hsteps]
      simp [Path.join, Path.normalize, Path.normalStep, Path.up, taken]
    rw [hnormal] at hsame hbeside
    have hpieces := slash_not_mem_pieces h
    have hpieces' := slash_not_mem_pieces hbeside
    rw [Path.toChars, Path.toChars, List.append_assoc, List.append_assoc] at hsame
    replace hsame := List.append_cancel_left hsame
    rw [List.map_append, List.map_singleton] at hsame hpieces hpieces'
    rw [List.map_append, List.map_singleton] at hsame
    -- cut at the slashes, both texts have the same pieces
    have hcut := congrArg (splitAt '/') hsame
    rw [splitAt_joinWith_token hpieces' htoken, splitAt_joinWith_append hpieces (by decide)] at hcut
    have hbefore := (List.append_inj' hcut rfl).1
    have hsteps : before = taken ++ ["frag.yaml#"] := by
      refine List.map_injective_iff.mpr (fun _ _ => String.toList_inj.mp) ?_
      rw [← hbefore, List.map_append]
      rfl
    exact ne_foldl_append (fun taken => rfl) before hsteps

/-- A URL is made of its origin and its path, which may be missing. -/
theorem origin_append (url : List Char) :
    ∃ rest, url = (splitOrigin url).1 ++ rest ∧
      (rest = (splitOrigin url).2 ∨ rest = []) := by
  rw [splitOrigin]
  dsimp only
  refine ⟨_, (List.take_append_drop _ url).symm, ?_⟩
  split
  · next hempty => exact .inr (List.isEmpty_iff.mp hempty)
  · exact .inl rfl

theorem directoryOf_append {before last : List Char} (hlast : '/' ∉ last) :
    directoryOf (before ++ '/' :: last) = before ++ ['/'] := by
  have hskip : ∀ c ∈ last.reverse, decide (c ≠ '/') = true := by
    intro c hc
    refine decide_eq_true ?_
    rintro rfl
    exact hlast (List.mem_reverse.mp hc)
  rw [directoryOf, List.reverse_append, List.reverse_cons, List.append_assoc,
    List.dropWhile_append_of_pos hskip]
  simp

theorem joinUrl_of_relative (base : List Char) {target : List Char}
    (h : target.head? ≠ some '/') :
    joinUrl base target = (splitOrigin base).1 ++
      normalizeUrlPath (directoryOf (splitOrigin base).2 ++ target) := by
  rw [joinUrl]
  dsimp only
  rw [if_neg h]

/-- A last segment that is no dot segment and is not split is kept. -/
theorem normalizeUrlPath_append {before name : List Char} (hname : '/' ∉ name)
    (hsimple : ∀ taken, urlStep taken name = name :: taken) :
    normalizeUrlPath (before ++ '/' :: name) =
      '/' :: joinWith '/' ((((splitAt '/' before).drop 1).foldl urlStep []).reverse ++ [name]) := by
  have hdrop : ((splitAt '/' before) ++ [name]).drop 1 = (splitAt '/' before).drop 1 ++ [name] :=
    List.drop_append_of_le_length (List.length_pos_of_ne_nil (splitAt_ne_nil '/' before))
  rw [normalizeUrlPath, splitAt_append, splitAt_of_not_mem hname, hdrop, List.foldl_append,
    List.foldl_cons, List.foldl_nil, hsimple, List.reverse_cons]

theorem exists_last_slash {path : List Char} (h : '/' ∈ path) :
    ∃ before last, path = before ++ '/' :: last ∧ '/' ∉ last := by
  obtain ⟨last, before, hreverse, hlast⟩ :=
    List.eq_append_cons_of_mem (List.mem_reverse.mpr h)
  refine ⟨before.reverse, last.reverse, ?_, fun hmem => hlast (List.mem_reverse.mp hmem)⟩
  rw [← List.reverse_reverse path, hreverse, List.reverse_append, List.reverse_cons,
    List.append_assoc]
  rfl

theorem slash_not_mem_taken {segments : List (List Char)} (h : ∀ piece ∈ segments, '/' ∉ piece) :
    ∀ piece ∈ (segments.foldl urlStep []).reverse, '/' ∉ piece := by
  intro piece hpiece
  rcases mem_foldl_urlStep (List.mem_reverse.mp hpiece) with hnone | hpiece
  · cases hnone
  · exact h piece hpiece

theorem splitAt_last_sign (before : List Char) {last : List Char} (hlast : '/' ∉ last) :
    splitAt '/' (before ++ '/' :: last ++ ['#']) = splitAt '/' before ++ [last ++ ['#']] := by
  have hend : '/' ∉ last ++ ['#'] := fun hmem =>
    (List.mem_append.mp hmem).elim hlast (by decide)
  rw [List.append_assoc, List.cons_append, splitAt_append, splitAt_of_not_mem hend]

/-- A pointer into the document beside a path is no text of the path with a number sign. -/
theorem normalizeUrlPath_beside_ne (before : List Char) {last token : List Char}
    (hlast : '/' ∉ last) (htoken : '/' ∉ token) :
    normalizeUrlPath (before ++ '/' :: "frag.yaml".toList) ++ '#' :: '/' :: token ≠
      before ++ '/' :: last ++ ['#'] := by
  intro hsame
  have hname : '/' ∉ "frag.yaml".toList := by decide
  have hsimple (taken : List (List Char)) :
      urlStep taken "frag.yaml".toList = "frag.yaml".toList :: taken := rfl
  rw [normalizeUrlPath_append hname hsimple] at hsame
  let segments := (splitAt '/' before).drop 1
  let taken := (segments.foldl urlStep []).reverse
  have htaken : ∀ piece ∈ taken, '/' ∉ piece :=
    slash_not_mem_taken fun _ hpiece => (mem_of_mem_splitAt (List.mem_of_mem_drop hpiece)).1
  have hpieces : ∀ piece ∈ taken ++ ["frag.yaml".toList], '/' ∉ piece :=
    List.forall_mem_append.mpr ⟨htaken, List.forall_mem_singleton.mpr hname⟩
  -- cut at the slashes, both texts have the same pieces
  have hcut := congrArg (splitAt '/') hsame
  rw [splitAt_last_sign before hlast, List.cons_append, splitAt, if_pos rfl,
    splitAt_joinWith_token hpieces htoken, ← List.cons_append] at hcut
  have hbefore := (List.append_inj' hcut rfl).1
  have hsegments : segments = taken ++ ["frag.yaml#".toList] :=
    congrArg (List.drop 1) hbefore.symm
  exact ne_foldl_append (fun taken => rfl) segments hsegments

/-- A pointer into the document beside a URL is no text of the URL with a number sign. -/
theorem beside_ne_url (text : String) {token : List Char} (htoken : '/' ∉ token) :
    (url text).beside.toString.toList ++ '#' :: '/' :: token ≠
      (url text).toString.toList ++ ['#'] := by
  rw [beside_url]
  intro hsame
  rw [toString, toString, String.toList_ofList, joinUrl_of_relative _ (by decide)] at hsame
  obtain ⟨rest, hrest, hpath⟩ := origin_append text.toList
  generalize splitOrigin text.toList = split at hsame hrest hpath
  obtain ⟨origin, path⟩ := split
  rw [hrest, List.append_assoc, List.append_assoc] at hsame
  replace hsame := List.append_cancel_left hsame
  rcases hpath with rfl | rfl
  · -- the path has a slash, since the other text begins with one
    have hslash : '/' ∈ rest := by
      have hmem : '/' ∈ rest ++ ['#'] := hsame ▸ List.mem_cons_self
      exact (List.mem_append.mp hmem).resolve_right (by decide)
    obtain ⟨before, last, rfl, hlast⟩ := exists_last_slash hslash
    dsimp only at hsame
    rw [directoryOf_append hlast, List.append_assoc, List.singleton_append] at hsame
    exact normalizeUrlPath_beside_ne before hlast htoken hsame
  · cases hsame

/-- A pointer into the document beside another is no text of the other with a number sign. -/
theorem beside_ne {location : Location} (h : location.Proper) {token : List Char}
    (htoken : '/' ∉ token) :
    location.beside.toString.toList ++ '#' :: '/' :: token ≠
      location.toString.toList ++ ['#'] := by
  cases location with
  | file path => exact beside_ne_file h htoken
  | url text => exact beside_ne_url text htoken

end Location

end LinkedApi
