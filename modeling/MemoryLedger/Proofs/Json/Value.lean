import MemoryLedger.Json.Value
import MemoryLedger.Proofs.Json.Token

/-!
# Reading values

`Json.Writes text v` says that the text is a way to write the value: it spells the tokens of the
value, with blanks wherever they may stand. Each such text is read as the value that it writes,
however deep the value is, for a reading that comes to a value with some containers open comes out
of it with the same containers open and the value complete.
-/

namespace MemoryLedger.Json

open Token

variable {text : String} {v : Json} {t : Token} {ts us : List Token} {items : List Json}
  {members : List (List Char × Json)} {n : Nat}

/-- The numbers and strings in a value are ones that the grammar has. -/
def WellFormed (v : Json) : Prop := ∀ t ∈ v.tokens, t.WellFormed

/-- The text writes the value. -/
structure Writes (text : String) (v : Json) : Prop where
  wellFormed : v.WellFormed
  spaced : Spaced v.tokens text.toList

/-! ### Parts of values -/

lemma forall_mem_laterItems : (∀ t ∈ laterItems items, t.WellFormed) ↔
    ∀ v ∈ items, v.WellFormed := by
  induction items with
  | nil => simp [laterItems, Token.WellFormed]
  | cons v items ih =>
    rw [laterItems, List.forall_mem_append, List.forall_mem_cons, ih, List.forall_mem_cons]
    exact and_congr_left' (and_iff_right trivial)

lemma wellFormed_array : (array items).WellFormed ↔ ∀ v ∈ items, v.WellFormed := by
  cases items with
  | nil => simp [WellFormed, tokens, Token.WellFormed]
  | cons v items =>
    rw [WellFormed, tokens, List.forall_mem_append, List.forall_mem_cons, forall_mem_laterItems,
      List.forall_mem_cons]
    exact and_congr_left' (and_iff_right trivial)

/-- A key and its colon, and then the value. -/
lemma forall_mem_member {key : List Char} :
    (∀ t ∈ Token.string key :: .colon :: v.tokens, t.WellFormed) ↔ IsBody key ∧ v.WellFormed := by
  rw [List.forall_mem_cons, List.forall_mem_cons]
  exact and_congr_right' (and_iff_right trivial)

lemma forall_mem_laterMembers : (∀ t ∈ laterMembers members, t.WellFormed) ↔
    ∀ m ∈ members, IsBody m.1 ∧ m.2.WellFormed := by
  induction members with
  | nil => simp [laterMembers, Token.WellFormed]
  | cons m members ih =>
    obtain ⟨key, v⟩ := m
    rw [laterMembers, List.forall_mem_append, List.forall_mem_cons, forall_mem_member, ih,
      List.forall_mem_cons]
    exact and_congr_left' (and_iff_right trivial)

lemma wellFormed_object : (object members).WellFormed ↔
    ∀ m ∈ members, IsBody m.1 ∧ m.2.WellFormed := by
  cases members with
  | nil => simp [WellFormed, tokens, Token.WellFormed]
  | cons m members =>
    obtain ⟨key, v⟩ := m
    rw [WellFormed, tokens, List.forall_mem_append, List.forall_mem_cons, forall_mem_member,
      forall_mem_laterMembers, List.forall_mem_cons]
    exact and_congr_left' (and_iff_right trivial)

lemma wellFormed_null : null.WellFormed := by
  simp [WellFormed, tokens, Token.WellFormed]

/-! ### No two words meet -/

lemma isChain_cons_mark (ht : ¬ t.IsWord) (hts : ts.IsChain Apart) : (t :: ts).IsChain Apart :=
  List.isChain_cons.mpr ⟨fun _ _ hword => absurd hword ht, hts⟩

lemma isChain_append_mark (hts : ts.IsChain Apart) (hus : us.IsChain Apart)
    (hmark : ∀ u ∈ us.head?, ¬ u.IsWord) : (ts ++ us).IsChain Apart :=
  List.isChain_append.mpr ⟨hts, hus, fun _ _ u hu _ => hmark u hu⟩

/-- After an item comes a mark. -/
lemma laterItems_mark (items : List Json) : ∀ u ∈ (laterItems items).head?, ¬ u.IsWord := by
  cases items <;> simp [laterItems, IsWord]

/-- After a member comes a mark. -/
lemma laterMembers_mark (members : List (List Char × Json)) :
    ∀ u ∈ (laterMembers members).head?, ¬ u.IsWord := by
  cases members <;> simp [laterMembers, IsWord]

mutual

/-- In a value, words are kept apart by marks. -/
lemma isChain_tokens (v : Json) : v.tokens.IsChain Apart := by
  match v with
  | null => simp [tokens]
  | bool b => simp [tokens]
  | number lexeme => simp [tokens]
  | string raw => simp [tokens]
  | array [] => simp [tokens, Apart, IsWord]
  | array (v :: items) =>
    rw [tokens]
    exact isChain_append_mark (isChain_cons_mark id (isChain_tokens v)) (isChain_laterItems items)
      (laterItems_mark items)
  | object [] => simp [tokens, Apart, IsWord]
  | object ((key, v) :: members) =>
    rw [tokens]
    exact isChain_append_mark
      (isChain_cons_mark id (isChain_cons_mark id (isChain_cons_mark id (isChain_tokens v))))
      (isChain_laterMembers members) (laterMembers_mark members)

lemma isChain_laterItems (items : List Json) : (laterItems items).IsChain Apart := by
  match items with
  | [] => simp [laterItems]
  | v :: items =>
    rw [laterItems]
    exact isChain_append_mark (isChain_cons_mark id (isChain_tokens v)) (isChain_laterItems items)
      (laterItems_mark items)

lemma isChain_laterMembers (members : List (List Char × Json)) :
    (laterMembers members).IsChain Apart := by
  match members with
  | [] => simp [laterMembers]
  | (key, v) :: members =>
    rw [laterMembers]
    exact isChain_append_mark
      (isChain_cons_mark id (isChain_cons_mark id (isChain_cons_mark id (isChain_tokens v))))
      (isChain_laterMembers members) (laterMembers_mark members)

end

/-! ### A value is read from its tokens -/

/-- No value begins as an array ends. -/
lemma tokens_eq_cons (v : Json) : ∃ t ts, v.tokens = t :: ts ∧ t ≠ .closeBracket := by
  match v with
  | null => exact ⟨_, _, rfl, by simp⟩
  | bool b => exact ⟨_, _, rfl, by simp⟩
  | number lexeme => exact ⟨_, _, rfl, by simp⟩
  | string raw => exact ⟨_, _, rfl, by simp⟩
  | array [] => exact ⟨_, _, rfl, by simp⟩
  | array (v :: items) => exact ⟨_, _, by rw [tokens, List.cons_append], by simp⟩
  | object [] => exact ⟨_, _, rfl, by simp⟩
  | object ((key, v) :: members) => exact ⟨_, _, by rw [tokens, List.cons_append], by simp⟩

/-- So the first item of an array is read like any value. -/
lemma foldlM_firstItem (v : Json) (outer : List Frame) :
    v.tokens.foldlM Reading.step (.firstItem outer) =
      v.tokens.foldlM Reading.step (.value (.array [] :: outer)) := by
  obtain ⟨t, ts, htokens, ht⟩ := tokens_eq_cons v
  have hstep : Reading.step (.firstItem outer) t =
      Reading.step (.value (.array [] :: outer)) t := by
    cases t with
    | closeBracket => exact absurd rfl ht
    | _ => rfl
  rw [htokens, List.foldlM_cons, List.foldlM_cons, hstep]

mutual

/-- Where a value must follow, its tokens complete it. -/
theorem foldlM_tokens (v : Json) (outer : List Frame) :
    v.tokens.foldlM Reading.step (.value outer) = some (.complete v outer) := by
  match v with
  | null => rfl
  | bool b => rfl
  | number lexeme => rfl
  | string raw => rfl
  | array [] => rfl
  | array (v :: items) =>
    have hopen : Reading.step (.value outer) .openBracket = some (.firstItem outer) := rfl
    simp only [tokens, List.cons_append, List.foldlM_cons, List.foldlM_append, hopen,
      foldlM_firstItem, foldlM_tokens v, foldlM_laterItems items, Option.bind_eq_bind,
      Option.bind_some]
    rfl
  | object [] => rfl
  | object ((key, v) :: members) =>
    have hopen : Reading.step (.value outer) .openBrace = some (.firstKey outer) := rfl
    have hkey : Reading.step (.firstKey outer) (.string key) = some (.afterKey [] key outer) := rfl
    have hcolon : Reading.step (.afterKey [] key outer) .colon =
        some (.value (.object [] key :: outer)) := rfl
    simp only [tokens, List.cons_append, List.foldlM_cons, List.foldlM_append, hopen, hkey, hcolon,
      foldlM_tokens v, foldlM_laterMembers members, Option.bind_eq_bind, Option.bind_some]
    rfl

/-- After an item, the tokens of the others complete the array. -/
theorem foldlM_laterItems (items : List Json) (v : Json) (sofar : List Json)
    (outer : List Frame) :
    (laterItems items).foldlM Reading.step (.complete v (.array sofar :: outer)) =
      some (.complete (.array ((v :: sofar).reverse ++ items)) outer) := by
  match items with
  | [] =>
    rw [List.append_nil]
    rfl
  | w :: items =>
    have hcomma : Reading.step (.complete v (.array sofar :: outer)) .comma =
        some (.value (.array (v :: sofar) :: outer)) := rfl
    simp only [laterItems, List.cons_append, List.foldlM_cons, List.foldlM_append, hcomma,
      foldlM_tokens w, foldlM_laterItems items, Option.bind_eq_bind, Option.bind_some]
    simp

/-- After a member, the tokens of the others complete the object. -/
theorem foldlM_laterMembers (members : List (List Char × Json)) (v : Json) (key : List Char)
    (sofar : List (List Char × Json)) (outer : List Frame) :
    (laterMembers members).foldlM Reading.step (.complete v (.object sofar key :: outer)) =
      some (.complete (.object (((key, v) :: sofar).reverse ++ members)) outer) := by
  match members with
  | [] =>
    rw [List.append_nil]
    rfl
  | (key', w) :: members =>
    have hcomma : Reading.step (.complete v (.object sofar key :: outer)) .comma =
        some (.nextKey ((key, v) :: sofar) outer) := rfl
    have hkey : Reading.step (.nextKey ((key, v) :: sofar) outer) (.string key') =
        some (.afterKey ((key, v) :: sofar) key' outer) := rfl
    have hcolon : Reading.step (.afterKey ((key, v) :: sofar) key' outer) .colon =
        some (.value (.object ((key, v) :: sofar) key' :: outer)) := rfl
    simp only [laterMembers, List.cons_append, List.foldlM_cons, List.foldlM_append, hcomma, hkey,
      hcolon, foldlM_tokens w, foldlM_laterMembers members, Option.bind_eq_bind, Option.bind_some]
    simp

end

/-- A value is read from its own tokens. -/
theorem ofTokens?_tokens (v : Json) : ofTokens? v.tokens = some v := by
  rw [ofTokens?, foldlM_tokens]
  rfl

/-- A text is read as the value that it writes. -/
theorem Writes.parse? (h : Writes text v) : Json.parse? text = some v := by
  rw [Json.parse?, h.spaced.scan? h.wellFormed (isChain_tokens v), Option.bind_eq_bind,
    Option.bind_some, ofTokens?_tokens]

/-! ### Numerals -/

lemma wellFormed_ofNat (n : Nat) : (ofNat n).WellFormed := by
  rw [WellFormed, ofNat, tokens, List.forall_mem_singleton]
  exact number_toDigits n

/-- Digits alone spell a number in one way only. -/
theorem nat?_eq_some_iff (hv : v.WellFormed) : v.nat? = some n ↔ v = ofNat n := by
  constructor
  · intro hn
    cases v with
    | number lexeme =>
      have hnumber : Number lexeme := hv (.number lexeme) (by simp [tokens])
      obtain ⟨hdigits, hvalue⟩ := Option.ite_none_right_eq_some.mp hn
      rw [ofNat, ← Option.some.inj hvalue, hnumber.eq_toDigits (isDigits_iff.mp hdigits)]
    | _ => cases hn
  · rintro rfl
    rw [ofNat, nat?, if_pos (isDigits_iff.mpr (whole_toDigits n).digits_whole),
      Nat.ofDigitChars_ten_toDigits]

/-- Without blanks, a value is written by its text. -/
lemma writes_render (h : v.WellFormed) : Writes v.render v where
  wellFormed := h
  spaced := by
    rw [render, String.toList_ofList]
    exact spaced_flatMap v.tokens

end MemoryLedger.Json
