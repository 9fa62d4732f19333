import MemoryLedger.Config.Format
import MemoryLedger.Proofs.Json.Value

/-!
# Reading configurations

What a configuration text means does not depend on how it is written. The members of an object are
known by their keys, so neither their order nor the foreign ones among them matter; an array gives
the same values by position.
-/

namespace MemoryLedger.Config

open Json

variable {text text' : String} {members members' spelled : List (List Char × Json)}
  {items : List Json} {key : List Char} {v : Json} {word : UInt64} {limit : Option UInt64}
  {c : Config}

/-! ### Single values -/

/-- Only the numeral of a word is read as a word. -/
lemma word?_eq_some_iff (hv : v.WellFormed) : word? v = some word ↔ v = .ofNat word.toNat := by
  rw [word?, Option.bind_eq_bind, Option.bind_eq_some_iff]
  constructor
  · rintro ⟨n, hn, hword⟩
    obtain ⟨hlt, hword⟩ := Option.ite_none_right_eq_some.mp hword
    have hvalue : word.toNat = n := by
      rw [← Option.some.inj hword]
      exact UInt64.toNat_ofNat_of_lt hlt
    rw [hvalue, ← nat?_eq_some_iff hv, hn]
  · rintro rfl
    refine ⟨word.toNat, (nat?_eq_some_iff hv).mpr rfl, ?_⟩
    rw [if_pos word.toNat_lt, UInt64.ofNat_toNat]

/-- Only null and the numeral of a word are read as a limit. -/
lemma limit?_eq_some_iff (hv : v.WellFormed) :
    limit? v = some limit ↔ v = limitToJson limit := by
  by_cases hnull : v = .null
  · subst hnull
    cases limit <;> simp [limit?, limitToJson, ofNat]
  · have hread : limit? v = some <$> word? v := by
      cases v with
      | null => exact absurd rfl hnull
      | _ => rfl
    rw [hread, Option.map_eq_map, Option.map_eq_some_iff]
    cases limit with
    | none => simpa [limitToJson] using hnull
    | some word => simp [limitToJson, word?_eq_some_iff hv]

lemma wellFormed_limitToJson (limit : Option UInt64) : (limitToJson limit).WellFormed := by
  cases limit with
  | none => exact wellFormed_null
  | some word => exact wellFormed_ofNat word.toNat

lemma limit?_limitToJson (limit : Option UInt64) : limit? (limitToJson limit) = some limit :=
  (limit?_eq_some_iff (wellFormed_limitToJson limit)).mpr rfl

lemma word?_ofNat (word : UInt64) : word? (.ofNat word.toNat) = some word :=
  (word?_eq_some_iff (wellFormed_ofNat _)).mpr rfl

/-! ### The values under a key -/

/-- The values that members have under a key. -/
def valuesAt (members : List (List Char × Json)) (key : List Char) : List Json :=
  (members.filter fun m => m.1 = key).map Prod.snd

lemma mem_valuesAt : v ∈ valuesAt members key ↔ (key, v) ∈ members := by
  simp [valuesAt]

lemma length_valuesAt : (valuesAt members key).length = (members.map Prod.fst).count key := by
  rw [valuesAt, List.length_map, List.count, List.countP_map, ← List.countP_eq_length_filter]
  exact List.countP_congr fun m _ => by simp

section

variable {α : Type} {default a : α} {read : Json → Option α} {write : α → Json}

lemma member?_eq (members : List (List Char × Json)) (key : List Char) (default : α)
    (read : Json → Option α) :
    member? members key default read =
      match valuesAt members key with
      | [] => some default
      | [v] => read v
      | _ => none := by
  rw [member?, valuesAt]
  generalize members.filter (fun m => m.1 = key) = held
  match held with
  | [] => rfl
  | [m] => rfl
  | _ :: _ :: _ => rfl

lemma member?_of_two_le (h : 2 ≤ (members.map Prod.fst).count key) :
    member? members key default read = none := by
  rw [member?_eq]
  rw [← length_valuesAt] at h
  match hvalues : valuesAt members key with
  | [] => simp [hvalues] at h
  | [v] => simp [hvalues] at h
  | _ :: _ :: _ => rfl

/-- What is read under a key does not depend on the order of the members. -/
lemma member?_perm (h : (valuesAt members' key).Perm (valuesAt members key)) :
    member? members' key default read = member? members key default read := by
  have hlength := h.length_eq
  rw [length_valuesAt, length_valuesAt] at hlength
  match hvalues : valuesAt members key with
  | [] =>
    rw [hvalues] at h
    rw [member?_eq, member?_eq, hvalues, h.eq_nil]
  | [v] =>
    rw [hvalues] at h
    rw [member?_eq, member?_eq, hvalues, List.perm_singleton.mp h]
  | v :: w :: rest =>
    have htwo : 2 ≤ (members.map Prod.fst).count key := by
      rw [← length_valuesAt, hvalues]
      simp
    rw [member?_of_two_le htwo, member?_of_two_le (hlength ▸ htwo)]

/-- Nothing is read under a key if it occurs twice or if its value stands for nothing. -/
lemma member?_eq_none_iff
    (hread : ∀ v ∈ valuesAt members key, ∀ a, read v = some a ↔ v = write a) :
    member? members key default read = none ↔
      2 ≤ (members.map Prod.fst).count key ∨ ∃ v, (key, v) ∈ members ∧ ∀ a, v ≠ write a := by
  simp only [← mem_valuesAt, ← length_valuesAt]
  rw [member?_eq]
  match hvalues : valuesAt members key with
  | [] => simp
  | [v] =>
    simp only [hvalues, List.mem_singleton, forall_eq] at hread
    simp [Option.eq_none_iff_forall_ne_some, hread]
  | _ :: _ :: _ => simp

/-- What is read under a key is what its value stands for, or the default if there is none. -/
lemma member?_eq_some
    (hread : ∀ v ∈ valuesAt members key, ∀ a, read v = some a ↔ v = write a)
    (h : member? members key default read = some a) :
    (∀ v, (key, v) ∈ members → v = write a) ∧ (key ∉ members.map Prod.fst → a = default) := by
  rw [member?_eq] at h
  simp only [← mem_valuesAt, ← List.count_eq_zero, ← length_valuesAt]
  match hvalues : valuesAt members key with
  | [] =>
    rw [hvalues] at h
    simpa [eq_comm] using h
  | [v] =>
    simp only [hvalues, List.mem_singleton, forall_eq] at hread h
    simpa using (hread a).mp h
  | _ :: _ :: _ =>
    rw [hvalues] at h
    cases h

end

/-! ### Objects -/

/-- The text writes an object with these members; their keys may be spelled in any way. -/
def WritesMembers (text : String) (members : List (List Char × Json)) : Prop :=
  ∃ spelled, Json.Writes text (.object spelled) ∧
    List.Forall₂ (fun m' m => Json.Spells m'.1 m.1 ∧ m'.2 = m.2) spelled members

lemma mapM_unescapeKey?
    (h : List.Forall₂ (fun m' m => Json.Spells m'.1 m.1 ∧ m'.2 = m.2) spelled members) :
    spelled.mapM unescapeKey? = some members := by
  induction h with
  | nil => rfl
  | @cons m' m _ _ hm _ ih =>
    have hkey : unescapeKey? m' = some m := by
      rw [unescapeKey?, hm.1.unescape?, hm.2]
      rfl
    rw [List.mapM_cons, hkey, ih]
    rfl

/-- A text that writes members is read as these members. -/
lemma WritesMembers.parse? (h : WritesMembers text members) :
    parse? text = ofMembers? members := by
  obtain ⟨spelled, htext, hspelled⟩ := h
  rw [Config.parse?, htext.parse?, Option.bind_eq_bind, Option.bind_some, ofJson?,
    mapM_unescapeKey? hspelled, Option.bind_eq_bind, Option.bind_some]

lemma WritesMembers.wellFormed (h : WritesMembers text members) :
    ∀ m ∈ members, m.2.WellFormed := by
  obtain ⟨spelled, htext, hspelled⟩ := h
  have hvalues : members.map Prod.snd = spelled.map Prod.snd := by
    rw [← List.forall₂_eq_eq_eq, List.forall₂_map_left_iff, List.forall₂_map_right_iff]
    exact hspelled.flip.imp fun _ _ hm => hm.2.symm
  intro m hm
  have hmem : m.2 ∈ spelled.map Prod.snd := hvalues ▸ List.mem_map_of_mem hm
  obtain ⟨m', hm', heq⟩ := List.mem_map.mp hmem
  rw [← heq]
  exact (wellFormed_object.mp htext.wellFormed m' hm').2

/-- One letter of the key as an escape by number. -/
lemma spells_limitKey_escaped : Json.Spells "\\u006Cimit_mb".toList limitKey := by
  have hdigits : HexDigits ['0', '0', '6', 'C'] (0 * 16 ^ 3 + 0 * 16 ^ 2 + 6 * 16 + 12) :=
    .four ⟨by decide, .inl rfl⟩ ⟨by decide, .inl rfl⟩ ⟨by decide, .inl rfl⟩ ⟨by decide, .inr rfl⟩
  have hunit : 'l'.toNat < 0x10000 := by decide
  have hrest : Json.Spells "imit_mb".toList "imit_mb".toList := Json.spells_self rfl
  exact .unit hunit hdigits hrest

/-- An escaped key with blanks around it, between two members of one foreign key. -/
lemma writesMembers_escaped :
    WritesMembers "\x7b\"x\":[-1.5,\x7b\x7d],\t\"\\u006Cimit_mb\" : 64,\"x\":null\x7d"
      [(['x'], .array [.number ['-', '1', '.', '5'], .object []]), (limitKey, .ofNat 64),
        (['x'], .null)] := by
  have hx : Json.Spells ['x'] ['x'] := Json.spells_self rfl
  have hwhole : Whole ['1'] := .digits rfl (by decide) (by simp)
  have hfraction : Fraction ['.', '5'] := .some (isDigits_iff.mp rfl)
  have hnumber : (Json.number ['-', '1', '.', '5']).WellFormed :=
    List.forall_mem_singleton.mpr (Number.parts (.inr rfl) hwhole hfraction .none)
  have hempty : (Json.object []).WellFormed := wellFormed_object.mpr (by simp)
  have harray : (Json.array [.number ['-', '1', '.', '5'], .object []]).WellFormed :=
    wellFormed_array.mpr (by simp [hnumber, hempty])
  have hobject : (Json.object
      [(['x'], .array [.number ['-', '1', '.', '5'], .object []]),
        ("\\u006Cimit_mb".toList, .ofNat 64), (['x'], .null)]).WellFormed := by
    rw [wellFormed_object]
    simp only [List.forall_mem_cons]
    exact ⟨⟨hx.isBody, harray⟩, ⟨spells_limitKey_escaped.isBody, wellFormed_ofNat 64⟩,
      ⟨hx.isBody, wellFormed_null⟩, by simp⟩
  refine ⟨_, ⟨hobject, ?_⟩,
    .cons ⟨hx, rfl⟩ (.cons ⟨spells_limitKey_escaped, rfl⟩ (.cons ⟨hx, rfl⟩ .nil))⟩
  exact .token (.token (.token (.token (.token (.token (.token (.token (.token (.token
    (.blank (.inr (.inl rfl)) (.token (.blank (.inl rfl) (.token (.blank (.inl rfl)
    (.token (.token (.token (.token (.token (.token .done))))))))))))))))))))

/-- The members that a configuration has to do with. -/
def known (members : List (List Char × Json)) : List (List Char × Json) :=
  members.filter fun m => m.1 = limitKey ∨ m.1 = maxBlocksKey

lemma valuesAt_known (members : List (List Char × Json))
    (hkey : key = limitKey ∨ key = maxBlocksKey) :
    valuesAt (known members) key = valuesAt members key := by
  have hsame : ∀ m : List Char × Json,
      (decide (m.1 = key) && decide (m.1 = limitKey ∨ m.1 = maxBlocksKey)) =
        decide (m.1 = key) := fun m => by
    by_cases hm : m.1 = key <;> simp [hm, hkey]
  rw [valuesAt, valuesAt, known, List.filter_filter, funext hsame]

/-- The configuration has what the members give, and the defaults elsewhere. -/
structure Given (c : Config) (members : List (List Char × Json)) : Prop where
  limit : ∀ v, (limitKey, v) ∈ members → v = limitToJson c.limitMb
  no_limit : limitKey ∉ members.map Prod.fst → c.limitMb = none
  max : ∀ v, (maxBlocksKey, v) ∈ members → v = .ofNat c.maxBlocks.toNat
  no_max : maxBlocksKey ∉ members.map Prod.fst → c.maxBlocks = 2147483647

lemma limit_read (h : ∀ m ∈ members, m.2.WellFormed) :
    ∀ v ∈ valuesAt members key, ∀ a, limit? v = some a ↔ v = limitToJson a :=
  fun v hv _ => limit?_eq_some_iff (h (key, v) (mem_valuesAt.mp hv))

lemma word_read (h : ∀ m ∈ members, m.2.WellFormed) :
    ∀ v ∈ valuesAt members key, ∀ a, word? v = some a ↔ v = .ofNat a.toNat :=
  fun v hv _ => word?_eq_some_iff (h (key, v) (mem_valuesAt.mp hv))

/-- A value that is the numeral of no word. -/
lemma forall_ne_word : (∀ a : UInt64, v ≠ .ofNat a.toNat) ↔ ∀ n < 2 ^ 64, v ≠ .ofNat n := by
  constructor
  · intro h n hn
    have hvalue : (UInt64.ofNat n).toNat = n := UInt64.toNat_ofNat_of_lt hn
    rw [← hvalue]
    exact h _
  · intro h a
    exact h a.toNat a.toNat_lt

lemma forall_ne_limit : (∀ a, v ≠ limitToJson a) ↔ v ≠ .null ∧ ∀ n < 2 ^ 64, v ≠ .ofNat n := by
  rw [← forall_ne_word, Option.forall]
  rfl

lemma ofMembers?_eq_none_iff : ofMembers? members = none ↔
    member? members limitKey none limit? = none ∨
      member? members maxBlocksKey defaultMaxBlocks word? = none := by
  rw [ofMembers?]
  cases member? members limitKey none limit? with
  | none => simp
  | some limitMb => cases member? members maxBlocksKey defaultMaxBlocks word? <;> simp

lemma ofMembers?_eq_some (h : ofMembers? members = some c) :
    member? members limitKey none limit? = some c.limitMb ∧
      member? members maxBlocksKey defaultMaxBlocks word? = some c.maxBlocks := by
  obtain ⟨limitMb, hlimit, h⟩ := Option.bind_eq_some_iff.mp h
  obtain ⟨maxBlocks, hmax, h⟩ := Option.bind_eq_some_iff.mp h
  cases h
  exact ⟨hlimit, hmax⟩

/-- An object is read by its keys. -/
theorem parse?_of_members (h : WritesMembers text members) :
    (parse? text = none ↔
      (∃ key ∈ [limitKey, maxBlocksKey], 2 ≤ (members.map Prod.fst).count key) ∨
      (∃ v, (limitKey, v) ∈ members ∧ v ≠ .null ∧ ∀ n < 2 ^ 64, v ≠ .ofNat n) ∨
      ∃ v, (maxBlocksKey, v) ∈ members ∧ ∀ n < 2 ^ 64, v ≠ .ofNat n) ∧
    (∀ c, parse? text = some c → c.Given members) ∧
    ∀ text' members', WritesMembers text' members' → (known members').Perm (known members) →
      parse? text' = parse? text := by
  refine ⟨?_, ?_, ?_⟩
  · rw [h.parse?, ofMembers?_eq_none_iff, member?_eq_none_iff (limit_read h.wellFormed),
      member?_eq_none_iff (word_read h.wellFormed)]
    simp only [forall_ne_word, forall_ne_limit, List.exists_mem_cons_iff, List.not_mem_nil,
      false_and, exists_false, or_false]
    exact or_or_or_comm
  · intro c hc
    rw [h.parse?] at hc
    obtain ⟨hlimit, hmax⟩ := ofMembers?_eq_some hc
    obtain ⟨hgiven, hmissing⟩ := member?_eq_some (limit_read h.wellFormed) hlimit
    obtain ⟨hgiven', hmissing'⟩ := member?_eq_some (word_read h.wellFormed) hmax
    exact ⟨hgiven, hmissing, hgiven', hmissing'⟩
  · intro text' members' h' hperm
    have hvalues : ∀ {key}, key = limitKey ∨ key = maxBlocksKey →
        (valuesAt members' key).Perm (valuesAt members key) := fun hkey => by
      rw [← valuesAt_known members hkey, ← valuesAt_known members' hkey]
      exact (hperm.filter _).map _
    rw [h.parse?, h'.parse?, ofMembers?, ofMembers?, member?_perm (hvalues (.inl rfl)),
      member?_perm (hvalues (.inr rfl))]

/-- The escaped key is found, and the missing one has its default. -/
theorem parse?_of_members_escaped :
    parse? "\x7b\"x\":[-1.5,\x7b\x7d],\t\"\\u006Cimit_mb\" : 64,\"x\":null\x7d" =
      some ⟨some 64, 2147483647⟩ := by
  obtain ⟨hnone, hgiven, -⟩ := parse?_of_members writesMembers_escaped
  have hlimit : limitKey ≠ ['x'] := by decide
  have hmax : maxBlocksKey ≠ ['x'] ∧ maxBlocksKey ≠ limitKey := by decide
  have hread : parse? "\x7b\"x\":[-1.5,\x7b\x7d],\t\"\\u006Cimit_mb\" : 64,\"x\":null\x7d" ≠
      none := by
    rw [Ne, hnone]
    rintro (⟨key, hkey, htwo⟩ | ⟨v, hv, -, hnat⟩ | ⟨v, hv, -⟩)
    · simp only [List.mem_cons, List.not_mem_nil, or_false] at hkey
      rcases hkey with rfl | rfl <;> exact absurd htwo (by decide)
    · simp only [List.mem_cons, Prod.mk.injEq, hlimit, List.not_mem_nil, false_and, false_or,
        true_and, or_false] at hv
      exact hnat 64 (by decide) hv
    · simp [hmax] at hv
  obtain ⟨c, hc⟩ := Option.ne_none_iff_exists'.mp hread
  obtain ⟨limitMb, maxBlocks⟩ := c
  have hc' := hgiven _ hc
  have hvalue : some limitMb = some (some 64) := by
    rw [← limit?_limitToJson limitMb, ← hc'.limit (.ofNat 64) (by simp), ← limit?_limitToJson]
    rfl
  have hdefault : maxBlocks = 2147483647 := hc'.no_max (by simp [hmax])
  rw [hc, hdefault, Option.some.inj hvalue]

/-! ### Arrays -/

lemma ofItems?_of_three_le (h : 3 ≤ items.length) : ofItems? items = none := by
  match items, h with
  | _ :: _ :: _ :: _, _ => rfl

lemma parse?_of_array (h : Json.Writes text (.array items)) : parse? text = ofItems? items := by
  rw [Config.parse?, h.parse?]
  rfl

/-! ### Round trips -/

/-- Both keys are spelled by themselves. -/
lemma spells_key : ∀ key ∈ [limitKey, maxBlocksKey], Json.Spells key key := by
  have hplain : ∀ key ∈ [limitKey, maxBlocksKey], key.all fun c => Json.IsPlain c := by decide
  exact fun key hkey => Json.spells_self (hplain key hkey)

/-- An object under the keys of a configuration is written without blanks by its text. -/
lemma writesMembers_render (hkeys : ∀ m ∈ members, m.1 ∈ [limitKey, maxBlocksKey])
    (h : ∀ m ∈ members, m.2.WellFormed) : WritesMembers (Json.object members).render members := by
  refine ⟨members, writes_render (wellFormed_object.mpr fun m hm => ⟨?_, h m hm⟩), ?_⟩
  · exact (spells_key m.1 (hkeys m hm)).isBody
  · exact List.forall₂_same.mpr fun m hm => ⟨spells_key m.1 (hkeys m hm), rfl⟩

/-- A configuration is read back from its own text, and from an array of its values. A shorter array
is read as an object without the last keys would be, and a longer one is not read. -/
theorem parse?_roundTrip (c : Config) :
    parse? c.toJson.render = some c ∧
    (∀ text, Json.Writes text (.array [limitToJson c.limitMb, .ofNat c.maxBlocks.toNat]) →
      parse? text = some c) ∧
    (∀ text text', Json.Writes text (.array [limitToJson c.limitMb]) →
      WritesMembers text' [(limitKey, limitToJson c.limitMb)] →
      parse? text = some ⟨c.limitMb, 2147483647⟩ ∧ parse? text' = parse? text) ∧
    (∀ text text', Json.Writes text (.array []) → WritesMembers text' [] →
      parse? text = some ⟨none, 2147483647⟩ ∧ parse? text' = parse? text) ∧
    ∀ items text, 3 ≤ items.length → Json.Writes text (.array items) → parse? text = none := by
  have hboth : ofItems? [limitToJson c.limitMb, .ofNat c.maxBlocks.toNat] = some c := by
    rw [ofItems?, limit?_limitToJson, word?_ofNat]
    rfl
  refine ⟨?_, ?_, ?_, ?_, ?_⟩
  · have htext : WritesMembers c.toJson.render
        [(limitKey, limitToJson c.limitMb), (maxBlocksKey, .ofNat c.maxBlocks.toNat)] := by
      refine writesMembers_render ?_ ?_
      · simp
      · simp [wellFormed_limitToJson, wellFormed_ofNat]
    rw [htext.parse?]
    exact hboth
  · intro text htext
    rw [parse?_of_array htext, hboth]
  · intro text text' htext htext'
    have hfirst : ofItems? [limitToJson c.limitMb] = some ⟨c.limitMb, 2147483647⟩ := by
      rw [ofItems?, limit?_limitToJson]
      rfl
    rw [parse?_of_array htext, htext'.parse?, hfirst]
    exact ⟨rfl, hfirst⟩
  · intro text text' htext htext'
    rw [parse?_of_array htext, htext'.parse?]
    exact ⟨rfl, rfl⟩
  · intro items text hitems htext
    rw [parse?_of_array htext, ofItems?_of_three_le hitems]

/-- The largest limit comes back, with blanks in the array or without the second value, and three
values are too many. -/
theorem parse?_roundTrip_largest :
    parse? (toJson ⟨some 18446744073709551615, 7⟩).render = some ⟨some 18446744073709551615, 7⟩ ∧
      parse? "[ 18446744073709551615,7\n]" = some ⟨some 18446744073709551615, 7⟩ ∧
      parse? "[18446744073709551615]" = some ⟨some 18446744073709551615, 2147483647⟩ ∧
      parse? "\t[]" = some ⟨none, 2147483647⟩ ∧ parse? "[null,7,null]" = none := by
  have hlimit := wellFormed_ofNat 18446744073709551615
  have hmax := wellFormed_ofNat 7
  have hpair : Json.Writes "[ 18446744073709551615,7\n]"
      (.array [.ofNat 18446744073709551615, .ofNat 7]) :=
    ⟨wellFormed_array.mpr (by simp [hlimit, hmax]), .token (.blank (.inl rfl)
      (.token (.token (.token (.blank (.inr (.inr (.inl rfl))) (.token .done))))))⟩
  have hsingle : Json.Writes "[18446744073709551615]" (.array [.ofNat 18446744073709551615]) :=
    ⟨wellFormed_array.mpr (by simp [hlimit]), .token (.token (.token .done))⟩
  have hempty : Json.Writes "\t[]" (.array []) :=
    ⟨wellFormed_array.mpr (by simp), .blank (.inr (.inl rfl)) (.token (.token .done))⟩
  have htriple : Json.Writes "[null,7,null]" (.array [.null, .ofNat 7, .null]) :=
    ⟨wellFormed_array.mpr (by simp [wellFormed_null, hmax]),
      .token (.token (.token (.token (.token (.token (.token .done))))))⟩
  obtain ⟨hobject, harray, hfirst, hnone, hmany⟩ :=
    parse?_roundTrip ⟨some 18446744073709551615, 7⟩
  have hkey : WritesMembers _ [(limitKey, .ofNat 18446744073709551615)] :=
    writesMembers_render (by simp) (by simpa using hlimit)
  have hnokey : WritesMembers _ [] := writesMembers_render (by simp) (by simp)
  exact ⟨hobject, harray _ hpair, (hfirst _ _ hsingle hkey).1, (hnone _ _ hempty hnokey).1,
    hmany _ _ (by decide) htriple⟩

end MemoryLedger.Config
