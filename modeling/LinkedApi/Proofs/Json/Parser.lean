import LinkedApi.Proofs.Json.Spelling

/-!
# Reading spellings

Each spelling of a value is read as this value, whatever follows it in an array or an object, as
long as arrays and objects do not stand too deep in each other. No key is repeated in the values
considered, so that what is read is the value itself.
-/

namespace LinkedApi.Json

open Text

/-! ## Blanks -/

theorem skipBlanks_append {before : List Char} (h : AreBlank before) (cs : List Char) :
    skipBlanks (before ++ cs) = skipBlanks cs := List.dropWhile_append_of_pos h

theorem skipBlanks_cons {c : Char} (h : isBlank c = false) (cs : List Char) :
    skipBlanks (c :: cs) = c :: cs := List.dropWhile_cons_of_neg (by simp [h])

/-- Blanks before a value are passed over. -/
theorem value?_append {before : List Char} (h : AreBlank before) (fuel depth : Nat)
    (cs : List Char) : value? fuel depth (before ++ cs) = value? fuel depth cs := by
  cases fuel with
  | zero => rfl
  | succ fuel => rw [value?, value?, skipBlanks_append h]

/-- Whether a value is at an end: nothing follows it, or the next item, or the end of what it stands
in. -/
def EndsValue (rest : List Char) : Prop := ∀ c ∈ rest.head?, c = ',' ∨ c = ']' ∨ c = '}'

theorem EndsValue.endsNumeral {rest : List Char} (h : EndsValue rest) : EndsNumeral rest := by
  intro c hc
  rcases h c hc with rfl | rfl | rfl <;> decide

theorem endsValue_cons {c : Char} (h : c = ',' ∨ c = ']' ∨ c = '}') (rest : List Char) :
    EndsValue (c :: rest) := by
  intro c' hc'
  obtain rfl : c = c' := Option.some.inj hc'
  exact h

theorem isDigit_of_isBlank {c : Char} (h : isBlank c = true) :
    isDigit c = false ∧ c ≠ '.' ∧ c ≠ 'e' ∧ c ≠ 'E' := by
  simp only [isBlank, Bool.or_eq_true, decide_eq_true_eq] at h
  rcases h with ((rfl | rfl) | rfl) | rfl <;> decide

theorem EndsNumeral.of_blank {after rest : List Char} (hafter : AreBlank after)
    (hrest : EndsNumeral rest) : EndsNumeral (after ++ rest) := by
  cases after with
  | nil => exact hrest
  | cons c after =>
    rintro c' hc'
    obtain rfl : c = c' := Option.some.inj hc'
    exact isDigit_of_isBlank (hafter c List.mem_cons_self)

/-! ## One value -/

section

variable {fuel depth : Nat} {rest : List Char}

theorem value?_numeral {c : Char} {cs : List Char} {numeral : Numeral} {value : Json}
    (hc : isDigit c = true ∨ c = '-') (hparse : Numeral.parse? (c :: cs) = some (numeral, rest))
    (hvalue : numeral.value? = some value) :
    value? (fuel + 1) depth (c :: cs) = some (value, rest) := by
  have hblank : isBlank c = false := by
    refine Bool.eq_false_iff.mpr fun hblank => ?_
    rcases hc with hc | rfl
    · rw [(isDigit_of_isBlank hblank).1] at hc
      cases hc
    · cases hblank
  have hne {other : Char} (hdigit : isDigit other = false) (hminus : other ≠ '-') : c ≠ other := by
    rintro rfl
    rcases hc with hc | hc
    · rw [hdigit] at hc
      cases hc
    · exact hminus hc
  rw [value?, skipBlanks_cons hblank]
  split
  case h_1 heq => cases heq
  case h_8 heq =>
    obtain ⟨rfl, rfl⟩ := List.cons.inj heq
    simp [hparse, hvalue]
  -- no other value begins as a numeral does
  all_goals next heq => exact absurd (List.cons.inj heq).1 (hne (by decide) (by decide))

theorem exists_decimalInt (n : Int) :
    ∃ c cs, decimalInt n = c :: cs ∧ (isDigit c = true ∨ c = '-') := by
  unfold decimalInt
  split
  · exact ⟨_, _, rfl, .inr rfl⟩
  · obtain ⟨d, digits, hdigits, hd⟩ := exists_decimal n.natAbs
    exact ⟨d, digits, hdigits, .inl hd⟩

/-- An integer is read back as it is, up to where the value ends. -/
theorem value?_decimalInt {n : Int} (h : (Json.int n).IsExact) (hrest : EndsNumeral rest) :
    value? (fuel + 1) depth (decimalInt n ++ rest) = some (.int n, rest) := by
  obtain ⟨numeral, hparse, hvalue⟩ := numeral_decimalInt h.1 h.2 hrest
  obtain ⟨c, cs, hdecimal, hc⟩ := exists_decimalInt n
  rw [hdecimal] at hparse ⊢
  exact value?_numeral hc hparse hvalue

/-- A string is read however it is spelled. -/
theorem value?_string {s : String} {text : List Char} (h : SpellsString s text) :
    value? (fuel + 1) depth (text ++ rest) = some (.str s, rest) := by
  obtain ⟨body, rfl, hbody⟩ := h
  have hread : value? (fuel + 1) depth ('"' :: (body ++ '"' :: rest)) =
      (stringBody? (body ++ '"' :: rest)).bind fun read =>
        some (.str (String.ofList read.1), read.2) := rfl
  have hvalue : String.ofList s.toList = s := String.ofList_toList
  rw [List.cons_append, List.append_assoc, List.singleton_append, hread,
    stringBody?_spellsChars hbody, Option.bind_some]
  exact congrArg (fun s => some (Json.str s, rest)) hvalue

/-- Where an array ends there is no value. -/
theorem value?_closed {cs : List Char} (h : skipBlanks cs = ']' :: rest) :
    value? fuel depth cs = none := by
  cases fuel with
  | zero => rfl
  | succ fuel =>
    rw [value?, h]
    rfl

end

/-! ## Arrays and objects -/

section

variable {fuel depth : Nat} {cs rest : List Char}

theorem items?_closed (h : skipBlanks cs = ']' :: rest) : items? fuel depth cs = none := by
  cases fuel with
  | zero => rfl
  | succ fuel => rw [items?, value?_closed h]

theorem fields?_closed (h : skipBlanks cs = '}' :: rest) : fields? fuel depth cs = none := by
  cases fuel with
  | zero => rfl
  | succ fuel =>
    rw [fields?, h]
    rfl

theorem value?_empty_array {inner : List Char} (hdepth : 1 < depth) (h : AreBlank inner) :
    value? (fuel + 1) depth ('[' :: (inner ++ ']' :: rest)) = some (.arr [], rest) := by
  have hopen : skipBlanks ('[' :: (inner ++ ']' :: rest)) = '[' :: (inner ++ ']' :: rest) := rfl
  rw [value?, hopen]
  simp only [if_neg (Nat.not_le.mpr hdepth), skipBlanks_append h]
  rfl

theorem value?_array {items : List Json} (hdepth : 1 < depth)
    (h : items? fuel (depth - 1) cs = some (items, rest)) :
    value? (fuel + 1) depth ('[' :: cs) = some (.arr items, rest) := by
  have hopen : skipBlanks ('[' :: cs) = '[' :: cs := rfl
  rw [value?, hopen]
  simp only [if_neg (Nat.not_le.mpr hdepth)]
  split
  · next hclosed =>
    rw [items?_closed hclosed] at h
    cases h
  · rw [h]
    rfl

theorem value?_empty_object {inner : List Char} (hdepth : 1 < depth) (h : AreBlank inner) :
    value? (fuel + 1) depth ('{' :: (inner ++ '}' :: rest)) = some (.obj [], rest) := by
  have hopen : skipBlanks ('{' :: (inner ++ '}' :: rest)) = '{' :: (inner ++ '}' :: rest) := rfl
  rw [value?, hopen]
  simp only [if_neg (Nat.not_le.mpr hdepth), skipBlanks_append h]
  rfl

theorem value?_object {fields : List (String × Json)} (hdepth : 1 < depth)
    (h : fields? fuel (depth - 1) cs = some (fields, rest)) :
    value? (fuel + 1) depth ('{' :: cs) = some (.obj fields, rest) := by
  have hopen : skipBlanks ('{' :: cs) = '{' :: cs := rfl
  rw [value?, hopen]
  simp only [if_neg (Nat.not_le.mpr hdepth)]
  split
  · next hclosed =>
    rw [fields?_closed hclosed] at h
    cases h
  · rw [h]
    rfl

end

/-! ## Spellings -/

section

variable {fuel depth : Nat} {text rest : List Char}

/-- The value is read from what stands between the blanks, and the blanks after it are left. -/
theorem value?_padded {kind : List Char → Prop} {j : Json} (h : Padded kind text)
    (hfuel : 2 * text.length + 1 ≤ fuel) (hrest : EndsValue rest)
    (hread : ∀ inner tail more, kind inner → 2 * inner.length ≤ more → EndsNumeral tail →
      value? (more + 1) depth (inner ++ tail) = some (j, tail)) :
    ∃ after, AreBlank after ∧ value? fuel depth (text ++ rest) = some (j, after ++ rest) := by
  obtain ⟨before, inner, after, rfl, hbefore, hinner, hafter⟩ := h
  obtain ⟨more, rfl⟩ := Nat.exists_eq_add_of_le' (Nat.le_trans (Nat.le_add_left 1 _) hfuel)
  simp only [List.length_append] at hfuel
  refine ⟨after, hafter, ?_⟩
  rw [List.append_assoc, List.append_assoc, value?_append hbefore]
  exact hread inner (after ++ rest) more hinner (by omega) (hrest.endsNumeral.of_blank hafter)

theorem items?_last {item : Json} {after : List Char} (hafter : AreBlank after)
    (h : value? fuel depth text = some (item, after ++ ']' :: rest)) :
    items? (fuel + 1) depth text = some ([item], rest) := by
  rw [items?, h]
  simp only [skipBlanks_append hafter]
  rfl

theorem items?_more {item : Json} {items : List Json} {after more : List Char}
    (hafter : AreBlank after) (h : value? fuel depth text = some (item, after ++ ',' :: more))
    (hmore : items? fuel depth more = some (items, rest)) :
    items? (fuel + 1) depth text = some (item :: items, rest) := by
  have hcomma : skipBlanks (',' :: more) = ',' :: more := rfl
  rw [items?, h]
  simp only [skipBlanks_append hafter, hcomma, hmore]
  rfl

/-- The fields of an object, once the first key and what is read as its value are known. -/
def fieldsFrom (fuel depth : Nat) (key : String) (read : Option (Json × List Char)) :
    Option (List (String × Json) × List Char) :=
  match read with
  | none => none
  | some (value, rest) =>
    match skipBlanks rest with
    | ',' :: rest =>
      (fields? fuel depth rest).map fun (fields, rest) => ((key, value) :: fields, rest)
    | '}' :: rest => some ([(key, value)], rest)
    | _ => none

/-- The key of a field is read, and its value is read after the colon. -/
theorem fields?_key {key : String} {name first : List Char} (h : Padded (SpellsString key) name) :
    fields? (fuel + 1) depth (name ++ ':' :: first) =
      fieldsFrom fuel depth key (value? fuel depth first) := by
  obtain ⟨before, _, after, rfl, hbefore, ⟨body, rfl, hbody⟩, hafter⟩ := h
  have hname : skipBlanks (before ++ ('"' :: (body ++ ['"']) ++ after) ++ ':' :: first) =
      '"' :: (body ++ '"' :: (after ++ ':' :: first)) := by
    rw [List.append_assoc, skipBlanks_append hbefore]
    simp only [List.cons_append, List.append_assoc, List.nil_append]
    rfl
  have hcolon : skipBlanks (':' :: first) = ':' :: first := rfl
  rw [fields?, hname]
  simp only [stringBody?_spellsChars hbody, skipBlanks_append hafter, hcolon,
    String.ofList_toList]
  rfl

theorem fields?_last {key : String} {value : Json} {name first after : List Char}
    (hkey : Padded (SpellsString key) name) (hafter : AreBlank after)
    (h : value? fuel depth first = some (value, after ++ '}' :: rest)) :
    fields? (fuel + 1) depth (name ++ ':' :: first) = some ([(key, value)], rest) := by
  rw [fields?_key hkey, h, fieldsFrom]
  simp only [skipBlanks_append hafter]
  rfl

theorem fields?_more {key : String} {value : Json} {fields : List (String × Json)}
    {name first after more : List Char} (hkey : Padded (SpellsString key) name)
    (hafter : AreBlank after) (h : value? fuel depth first = some (value, after ++ ',' :: more))
    (hmore : fields? fuel depth more = some (fields, rest)) :
    fields? (fuel + 1) depth (name ++ ':' :: first) = some ((key, value) :: fields, rest) := by
  have hcomma : skipBlanks (',' :: more) = ',' :: more := rfl
  rw [fields?_key hkey, h, fieldsFrom]
  simp only [skipBlanks_append hafter, hcomma, hmore]
  rfl

end

mutual

/-- A value is read from its spelling when there is fuel for two steps at each character, and for
one more. -/
theorem value?_spells : ∀ (j : Json) {text rest : List Char} {fuel depth : Nat}, j.IsExact →
    j.Spells text → j.levels < depth → 2 * text.length + 1 ≤ fuel → EndsValue rest →
      ∃ after, AreBlank after ∧ value? fuel depth (text ++ rest) = some (j, after ++ rest)
  | .null, _, _, _, _, _, h, _, hfuel, hrest =>
    value?_padded h hfuel hrest fun _ _ _ hinner _ _ => hinner ▸ rfl
  | .bool true, _, _, _, _, _, h, _, hfuel, hrest =>
    value?_padded h hfuel hrest fun _ _ _ hinner _ _ => hinner ▸ rfl
  | .bool false, _, _, _, _, _, h, _, hfuel, hrest =>
    value?_padded h hfuel hrest fun _ _ _ hinner _ _ => hinner ▸ rfl
  | .int _, _, _, _, _, hexact, h, _, hfuel, hrest =>
    value?_padded h hfuel hrest fun _ _ _ hinner _ htail => hinner ▸ value?_decimalInt hexact htail
  | .float _, _, _, _, _, hexact, _, _, _, _ => hexact.elim
  | .str _, _, _, _, _, _, h, _, hfuel, hrest =>
    value?_padded h hfuel hrest fun _ _ _ hinner _ _ => value?_string hinner
  | .arr [], _, _, _, _, _, h, hdepth, hfuel, hrest => by
    refine value?_padded h hfuel hrest fun _ tail more hinner _ _ => ?_
    obtain ⟨inner, rfl, hblank⟩ := hinner
    rw [levels, levelsOfItems] at hdepth
    rw [List.cons_append, List.append_assoc, List.singleton_append]
    exact value?_empty_array (by omega) hblank
  | .arr (item :: items), _, _, _, _, hexact, h, hdepth, hfuel, hrest => by
    refine value?_padded h hfuel hrest fun _ tail more hinner henough _ => ?_
    obtain ⟨inner, rfl, hitems⟩ := hinner
    simp only [List.length_cons, List.length_append, List.length_nil] at henough
    rw [levels] at hdepth
    rw [List.cons_append, List.append_assoc, List.singleton_append]
    exact value?_array (by omega)
      (items?_spells (item :: items) (List.cons_ne_nil _ _) hexact hitems (by omega) (by omega))
  | .obj [], _, _, _, _, _, h, hdepth, hfuel, hrest => by
    refine value?_padded h hfuel hrest fun _ tail more hinner _ _ => ?_
    obtain ⟨inner, rfl, hblank⟩ := hinner
    rw [levels, levelsOfFields] at hdepth
    rw [List.cons_append, List.append_assoc, List.singleton_append]
    exact value?_empty_object (by omega) hblank
  | .obj (field :: fields), _, _, _, _, hexact, h, hdepth, hfuel, hrest => by
    refine value?_padded h hfuel hrest fun _ tail more hinner henough _ => ?_
    obtain ⟨inner, rfl, hfields⟩ := hinner
    simp only [List.length_cons, List.length_append, List.length_nil] at henough
    rw [levels] at hdepth
    rw [List.cons_append, List.append_assoc, List.singleton_append]
    exact value?_object (by omega)
      (fields?_spells (field :: fields) (List.cons_ne_nil _ _) hexact.2 hfields (by omega)
        (by omega))

/-- The items of an array are read however they are spelled. -/
theorem items?_spells : ∀ (items : List Json) {text rest : List Char} {fuel depth : Nat},
    items ≠ [] → AreExact items → SpellsItems items text → levelsOfItems items < depth →
      2 * text.length + 2 ≤ fuel →
        items? fuel depth (text ++ ']' :: rest) = some (items, rest)
  | [], _, _, _, _, hne, _, _, _, _ => absurd rfl hne
  | [item], text, rest, fuel, depth, _, hexact, h, hdepth, hfuel => by
    obtain ⟨fuel, rfl⟩ := Nat.exists_eq_add_of_le' (Nat.le_trans (Nat.le_add_left 1 _) hfuel)
    rw [levelsOfItems, levelsOfItems] at hdepth
    obtain ⟨after, hafter, hread⟩ := @value?_spells item text (']' :: rest) fuel depth hexact.1 h
      (by omega) (by omega) (endsValue_cons (.inr (.inl rfl)) rest)
    exact items?_last hafter hread
  | item :: next :: items, text, rest, fuel, depth, _, hexact, h, hdepth, hfuel => by
    obtain ⟨first, more, rfl, hfirst, hmore⟩ := h
    rw [List.length_append, List.length_cons] at hfuel
    obtain ⟨fuel, rfl⟩ := Nat.exists_eq_add_of_le' (Nat.le_trans (Nat.le_add_left 1 _) hfuel)
    rw [levelsOfItems] at hdepth
    obtain ⟨after, hafter, hread⟩ := @value?_spells item first (',' :: (more ++ ']' :: rest)) fuel
      depth hexact.1 hfirst (by omega) (by omega) (endsValue_cons (.inl rfl) _)
    rw [List.append_assoc, List.cons_append]
    exact items?_more hafter hread
      (items?_spells (next :: items) (List.cons_ne_nil _ _) hexact.2 hmore (by omega) (by omega))

/-- The fields of an object are read however they are spelled. -/
theorem fields?_spells : ∀ (fields : List (String × Json)) {text rest : List Char}
    {fuel depth : Nat}, fields ≠ [] → HasExactFields fields → SpellsFields fields text →
      levelsOfFields fields < depth → 2 * text.length + 2 ≤ fuel →
        fields? fuel depth (text ++ '}' :: rest) = some (fields, rest)
  | [], _, _, _, _, hne, _, _, _, _ => absurd rfl hne
  | [(key, value)], text, rest, fuel, depth, _, hexact, h, hdepth, hfuel => by
    obtain ⟨name, first, rfl, hname, hfirst⟩ := h
    rw [List.length_append, List.length_cons] at hfuel
    obtain ⟨fuel, rfl⟩ := Nat.exists_eq_add_of_le' (Nat.le_trans (Nat.le_add_left 1 _) hfuel)
    rw [levelsOfFields, levelsOfFields] at hdepth
    obtain ⟨after, hafter, hread⟩ := @value?_spells value first ('}' :: rest) fuel depth hexact.1
      hfirst (by omega) (by omega) (endsValue_cons (.inr (.inr rfl)) rest)
    rw [List.append_assoc, List.cons_append]
    exact fields?_last hname hafter hread
  | (key, value) :: next :: fields, text, rest, fuel, depth, _, hexact, h, hdepth, hfuel => by
    obtain ⟨name, first, more, rfl, hname, hfirst, hmore⟩ := h
    simp only [List.length_append, List.length_cons] at hfuel
    obtain ⟨fuel, rfl⟩ := Nat.exists_eq_add_of_le' (Nat.le_trans (Nat.le_add_left 1 _) hfuel)
    rw [levelsOfFields] at hdepth
    obtain ⟨after, hafter, hread⟩ := @value?_spells value first (',' :: (more ++ '}' :: rest)) fuel
      depth hexact.1 hfirst (by omega) (by omega) (endsValue_cons (.inl rfl) _)
    rw [List.append_assoc, List.cons_append, List.append_assoc, List.cons_append]
    exact fields?_more hname hafter hread
      (fields?_spells (next :: fields) (List.cons_ne_nil _ _) hexact.2 hmore (by omega) (by omega))

end

/-! ## Whole texts -/

theorem setField_of_not_mem {known : List (String × Json)} {key : String}
    (h : key ∉ known.map Prod.fst) (value : Json) :
    setField known key value = known ++ [(key, value)] := by
  induction known with
  | nil => rfl
  | cons field rest ih =>
    obtain ⟨hne, hrest⟩ := List.ne_and_not_mem_of_not_mem_cons h
    rw [setField, if_neg hne.symm, ih hrest]
    rfl

/-- Fields with distinct keys stay as they are. -/
theorem setFields_of_nodup {fields : List (String × Json)} (h : (fields.map Prod.fst).Nodup) :
    setFields fields = fields := by
  have hfold (known rest : List (String × Json)) (h : ((known ++ rest).map Prod.fst).Nodup) :
      rest.foldl (fun known field => setField known field.1 field.2) known = known ++ rest := by
    induction rest generalizing known with
    | nil => simp
    | cons field rest ih =>
      have hnew : field.1 ∉ known.map Prod.fst := by
        rw [List.map_append, List.map_cons, List.nodup_append] at h
        exact fun hmem => h.2.2 _ hmem _ List.mem_cons_self rfl
      rw [List.foldl_cons, setField_of_not_mem hnew, ih _ (by simpa using h)]
      simp
  exact hfold [] fields h

mutual

/-- An exact value is in normal form. -/
theorem normal_of_isExact : ∀ {j : Json}, j.IsExact → j.normal = j
  | .null, _ => rfl
  | .bool _, _ => rfl
  | .int _, _ => rfl
  | .float _, _ => rfl
  | .str _, _ => rfl
  | .arr items, h => by rw [normal, normalItems_of_areExact h]
  | .obj fields, h => by rw [normal, normalFields_of_hasExactFields h.2, setFields_of_nodup h.1]

theorem normalItems_of_areExact : ∀ {items : List Json}, AreExact items → normalItems items = items
  | [], _ => rfl
  | item :: items, h => by
    rw [normalItems, normal_of_isExact h.1, normalItems_of_areExact h.2]

theorem normalFields_of_hasExactFields :
    ∀ {fields : List (String × Json)}, HasExactFields fields → normalFields fields = fields
  | [], _ => rfl
  | (key, value) :: fields, h => by
    rw [normalFields, normal_of_isExact h.1, normalFields_of_hasExactFields h.2]

end

/-- Every spelling of a value that is not nested too deep is read as this value. -/
theorem parse?_of_spells {j : Json} {text : String} (hexact : j.IsExact)
    (h : j.Spells text.toList) (hlevels : j.levels < depthLimit) : parse? text = some j := by
  obtain ⟨after, hafter, hread⟩ :=
    @value?_spells j text.toList [] _ _ hexact h hlevels
      (Nat.le_succ _) (by simp [EndsValue])
  have hend : skipBlanks after = [] := by simpa [skipBlanks] using skipBlanks_append hafter []
  have hwritten : written? text = some j := by
    rw [List.append_nil, List.append_nil] at hread
    rw [written?, hread]
    simp [hend]
  rw [parse?, hwritten, Option.map_some, normal_of_isExact hexact]

end LinkedApi.Json
