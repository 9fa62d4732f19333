import Mathlib.Data.List.Chain
import MemoryLedger.Proofs.Json.Number
import MemoryLedger.Proofs.Json.Text

/-!
# Reading tokens

`Token.Spaced ts text` says that the text consists of the spellings of these tokens and blanks
between them. A scan of the text gives the tokens back, no matter where the blanks are, as long as
no two words meet: a word ends only where something else begins, so a scan may still be inside the
last word when all of its characters have been read. What such a scan would give if the text ended
there, `Scan.finish?`, is what the induction is about.
-/

namespace MemoryLedger.Json.Token

variable {s : Scan} {t : Token} {ts done : List Token} {c : Char}
  {cs raw text sofar : List Char}

/-! ### Texts and their tokens -/

/-- The spelling of a token is one that the grammar of numbers or strings has. -/
def WellFormed : Token → Prop
  | number lexeme => Number lexeme
  | string raw => IsBody raw
  | _ => True

/-- A token that ends only where something else begins. -/
def IsWord : Token → Prop
  | null => True
  | bool _ => True
  | number _ => True
  | _ => False

/-- Not both of two tokens are words, so that nothing need stand between them. -/
def Apart (t u : Token) : Prop := t.IsWord → ¬ u.IsWord

/-- The text spells the tokens, with any blanks before, between and after them. -/
inductive Spaced : List Token → List Char → Prop where
  | done : Spaced [] []
  | blank {c : Char} {ts : List Token} {text : List Char}
      (hc : c = ' ' ∨ c = '\t' ∨ c = '\n' ∨ c = '\r') (hrest : Spaced ts text) :
      Spaced ts (c :: text)
  | token {t : Token} {ts : List Token} {text : List Char} (hrest : Spaced ts text) :
      Spaced (t :: ts) (t.spell ++ text)

/-- The spellings of tokens, one after the other. -/
lemma spaced_flatMap (ts : List Token) : Spaced ts (ts.flatMap spell) := by
  induction ts with
  | nil => exact .done
  | cons t ts ih => exact .token ih

/-! ### Between tokens and inside them -/

/-- What continues no word ends the last one. -/
lemma Scan.step_of_finish (hs : s.finish? = some done) (hc : ¬ isWordChar c = true) :
    s.step c = Scan.start done.reverse c := by
  obtain ⟨mode, tokens⟩ := s
  cases mode with
  | between =>
    cases hs
    simp [Scan.step]
  | word sofar =>
    obtain ⟨t, ht, heq⟩ := Option.bind_eq_some_iff.mp hs
    cases heq
    simp [Scan.step, hc, ht]
  | string _ => cases hs
  | escape _ => cases hs
  | hex _ _ => cases hs

lemma isBlank_iff : isBlank c = true ↔ c = ' ' ∨ c = '\t' ∨ c = '\n' ∨ c = '\r' := by
  simp only [isBlank, Bool.or_eq_true, decide_eq_true_eq]
  tauto

lemma Scan.step_blank (hs : s.finish? = some done)
    (hc : c = ' ' ∨ c = '\t' ∨ c = '\n' ∨ c = '\r') :
    s.step c = some ⟨.between, done.reverse⟩ := by
  have hword : ¬ isWordChar c = true := by
    rcases hc with rfl | rfl | rfl | rfl <;> decide
  rw [step_of_finish hs hword, start, if_pos (isBlank_iff.mpr hc)]

/-- The characters of a word are taken up one by one. -/
lemma Scan.foldlM_word (hcs : ∀ c ∈ cs, isWordChar c = true) (sofar : List Char)
    (tokens : List Token) :
    cs.foldlM Scan.step ⟨.word sofar, tokens⟩ =
      some (⟨.word (cs.reverse ++ sofar), tokens⟩ : Scan) := by
  induction cs generalizing sofar with
  | nil => rfl
  | cons c cs ih =>
    obtain ⟨hc, hcs⟩ := List.forall_mem_cons.mp hcs
    have hstep : Scan.step ⟨.word sofar, tokens⟩ c = some ⟨.word (c :: sofar), tokens⟩ := by
      simp [Scan.step, hc]
    rw [List.foldlM_cons, hstep, Option.bind_eq_bind, Option.bind_some, ih hcs]
    simp

/-- A word that begins between tokens is the last token if the text ends after it. -/
lemma Scan.foldlM_first (hne : cs ≠ []) (hcs : ∀ c ∈ cs, isWordChar c = true)
    (tokens : List Token) :
    cs.foldlM Scan.step ⟨.between, tokens⟩ = some (⟨.word cs.reverse, tokens⟩ : Scan) := by
  obtain ⟨c, cs, rfl⟩ := List.exists_cons_of_ne_nil hne
  obtain ⟨hc, hcs⟩ := List.forall_mem_cons.mp hcs
  have hblank : ¬ isBlank c = true := fun hblank => by
    rcases isBlank_iff.mp hblank with rfl | rfl | rfl | rfl <;> exact absurd hc (by decide)
  have hquote : c ≠ '"' := by
    rintro rfl
    exact absurd hc (by decide)
  have hstep : Scan.step ⟨.between, tokens⟩ c = some ⟨.word [c], tokens⟩ := by
    simp [Scan.step, Scan.start, hc, hblank, hquote]
  rw [List.foldlM_cons, hstep, Option.bind_eq_bind, Option.bind_some, foldlM_word hcs,
    List.reverse_cons]

lemma isSome_hexDigit? {n : Nat} (h : IsHexDigit c n) : (hexDigit? c).isSome = true := by
  rw [hexDigit?_of_isHexDigit h]
  rfl

/-- An escape by number is taken up with its four digits. -/
lemma Scan.foldlM_hex {digits : List Char} {n : Nat} (h : HexDigits digits n) (sofar : List Char)
    (tokens : List Token) :
    ('\\' :: 'u' :: digits).foldlM Scan.step ⟨.string sofar, tokens⟩ =
      some (⟨.string (('\\' :: 'u' :: digits).reverse ++ sofar), tokens⟩ : Scan) := by
  cases h with
  | four h₃ h₂ h₁ h₀ =>
    simp [Scan.step, isSome_hexDigit? h₃, isSome_hexDigit? h₂, isSome_hexDigit? h₁,
      isSome_hexDigit? h₀]

/-- The body of a string is taken up to its end. -/
lemma Scan.foldlM_body (hraw : IsBody raw) (sofar : List Char) (tokens : List Token) :
    raw.foldlM Scan.step ⟨.string sofar, tokens⟩ =
      some (⟨.string (raw.reverse ++ sofar), tokens⟩ : Scan) := by
  induction hraw generalizing sofar with
  | nil => rfl
  | @plain c raw hc _ ih =>
    have hstep : Scan.step ⟨.string sofar, tokens⟩ c = some ⟨.string (c :: sofar), tokens⟩ := by
      simp [Scan.step, hc.ne_quote, hc.ne_backslash, hc.not_control]
    rw [List.foldlM_cons, hstep, Option.bind_eq_bind, Option.bind_some, ih]
    simp
  | @short e c raw he _ ih =>
    have hescape : (simpleEscape? e).isSome = true := by rw [simpleEscape?_of_mem he]; rfl
    have hstart : Scan.step ⟨.string sofar, tokens⟩ '\\' =
        some ⟨.escape ('\\' :: sofar), tokens⟩ := rfl
    have hstep : Scan.step ⟨.escape ('\\' :: sofar), tokens⟩ e =
        some ⟨.string (e :: '\\' :: sofar), tokens⟩ := by
      simp [Scan.step, ne_u_of_mem he, hescape]
    simp only [List.foldlM_cons, hstart, hstep, Option.bind_eq_bind, Option.bind_some, ih]
    simp
  | @hex digits raw n hdigits _ ih =>
    rw [List.foldlM_append, foldlM_hex hdigits, Option.bind_eq_bind, Option.bind_some, ih]
    simp

/-! ### Whole tokens -/

/-- A string adds itself to the tokens when its closing quote is read. -/
lemma Scan.foldlM_string (hraw : IsBody raw) (tokens : List Token) :
    (raw ++ ['"']).foldlM Scan.step ⟨.string [], tokens⟩ =
      some (⟨.between, .string raw :: tokens⟩ : Scan) := by
  have hquote : Scan.step ⟨.string raw.reverse, tokens⟩ '"' =
      some ⟨.between, .string raw :: tokens⟩ := by
    simp [Scan.step]
  rw [List.foldlM_append, foldlM_body hraw, List.append_nil, Option.bind_eq_bind,
    Option.bind_some, List.foldlM_cons, hquote]
  rfl

lemma ofWord?_of_number (h : Number cs) : ofWord? cs = some (.number cs) := by
  have hnumber := h.isNumber
  have hne : ∀ t : Token, isNumber t.spell = false → cs ≠ t.spell := fun t ht heq => by
    rw [← heq, hnumber] at ht
    cases ht
  rw [ofWord?, if_neg (hne null rfl), if_neg (hne (bool true) rfl), if_neg (hne (bool false) rfl),
    if_pos hnumber]

/-- Words are spelled by word characters, from which they are known. -/
lemma IsWord.spelled (hword : t.IsWord) (ht : t.WellFormed) :
    t.spell ≠ [] ∧ (∀ c ∈ t.spell, isWordChar c = true) ∧ ofWord? t.spell = some t := by
  cases t with
  | null => exact ⟨by simp [spell], List.all_eq_true.mp rfl, rfl⟩
  | bool b => cases b <;> exact ⟨by simp [spell], List.all_eq_true.mp rfl, rfl⟩
  | number lexeme =>
    have hnumber : Number lexeme := ht
    exact ⟨hnumber.ne_nil, hnumber.isWordChar, ofWord?_of_number hnumber⟩
  | _ => cases hword

/-- A mark is a token by itself. -/
lemma Scan.foldlM_mark (hs : s.finish? = some done) (hspell : t.spell = [c])
    (hc : ¬ isWordChar c = true)
    (hstart : Scan.start done.reverse c = some ⟨.between, t :: done.reverse⟩) :
    t.spell.foldlM Scan.step s = some (⟨.between, (done ++ [t]).reverse⟩ : Scan) := by
  rw [hspell, List.foldlM_cons, step_of_finish hs hc, hstart]
  simp

/-- After one more token, a scan has this token as well, and is inside of it only if it is a
word. -/
lemma Scan.foldlM_spell (hs : s.finish? = some done) (ht : t.WellFormed)
    (hbetween : t.IsWord → s.mode = .between) :
    ∃ s', t.spell.foldlM Scan.step s = some s' ∧ s'.finish? = some (done ++ [t]) ∧
      (s'.mode ≠ .between → t.IsWord) := by
  have hfinish : (⟨.between, (done ++ [t]).reverse⟩ : Scan).finish? = some (done ++ [t]) := by
    simp [Scan.finish?]
  have hmark : ∀ {c}, t.spell = [c] → ¬ isWordChar c = true →
      Scan.start done.reverse c = some ⟨.between, t :: done.reverse⟩ →
      ∃ s', t.spell.foldlM Scan.step s = some s' ∧ s'.finish? = some (done ++ [t]) ∧
        (s'.mode ≠ .between → t.IsWord) := fun hspell hc hstart =>
    ⟨_, foldlM_mark hs hspell hc hstart, hfinish, fun hne => absurd rfl hne⟩
  by_cases hword : t.IsWord
  · -- a word is known only when it ends
    obtain ⟨hne, hcs, hof⟩ := hword.spelled ht
    obtain ⟨mode, tokens⟩ := s
    obtain rfl : mode = .between := hbetween hword
    obtain rfl : tokens.reverse = done := Option.some.inj hs
    refine ⟨_, foldlM_first hne hcs tokens, ?_, fun _ => hword⟩
    simp [Scan.finish?, hof]
  · cases t with
    | openBrace => exact hmark rfl (by decide) rfl
    | closeBrace => exact hmark rfl (by decide) rfl
    | openBracket => exact hmark rfl (by decide) rfl
    | closeBracket => exact hmark rfl (by decide) rfl
    | colon => exact hmark rfl (by decide) rfl
    | comma => exact hmark rfl (by decide) rfl
    | string raw =>
      have hquote : s.step '"' = some ⟨.string [], done.reverse⟩ :=
        step_of_finish hs (by decide)
      have hstring : (Token.string raw).spell.foldlM Scan.step s =
          some (⟨.between, .string raw :: done.reverse⟩ : Scan) := by
        rw [spell, List.cons_append, List.foldlM_cons, hquote, Option.bind_eq_bind,
          Option.bind_some, foldlM_string ht]
      rw [List.reverse_append] at hfinish
      exact ⟨_, hstring, hfinish, fun hne => absurd rfl hne⟩
    | null => exact absurd trivial hword
    | bool _ => exact absurd trivial hword
    | number _ => exact absurd trivial hword

/-- A scan that has read some tokens goes on to read the others, if no two words meet. -/
lemma Spaced.foldlM_step (h : Spaced ts text) (ht : ∀ t ∈ ts, t.WellFormed)
    (hwords : ts.IsChain Apart) (hs : s.finish? = some done)
    (hbetween : ∀ t ∈ ts.head?, t.IsWord → s.mode = .between) :
    (text.foldlM Scan.step s >>= Scan.finish?) = some (done ++ ts) := by
  induction h generalizing s done with
  | done =>
    rw [List.append_nil]
    exact hs
  | blank hc _ ih =>
    have hfinish : (⟨.between, done.reverse⟩ : Scan).finish? = some done := by
      simp [Scan.finish?]
    simp only [List.foldlM_cons, Scan.step_blank hs hc, Option.bind_eq_bind, Option.bind_some]
    exact ih ht hwords hfinish fun _ _ _ => rfl
  | @token t ts text _ ih =>
    obtain ⟨ht, hts⟩ := List.forall_mem_cons.mp ht
    obtain ⟨s', hspell, hs', hmode⟩ := Scan.foldlM_spell hs ht (hbetween t rfl)
    simp only [List.foldlM_append, hspell, Option.bind_eq_bind, Option.bind_some]
    have hrest := ih hts hwords.tail hs' fun u hu hword => ?_
    · rw [List.append_assoc] at hrest
      exact hrest
    · -- the next token is a word, so this one was none
      by_contra hne
      exact (List.isChain_cons.mp hwords).1 u hu (hmode hne) hword

/-- A scan of a text gives its tokens if no two words meet. -/
theorem Spaced.scan? (h : Spaced ts text) (ht : ∀ t ∈ ts, t.WellFormed)
    (hwords : ts.IsChain Apart) : scan? text = some ts := by
  have hstart : ({} : Scan).finish? = some [] := rfl
  rw [Token.scan?, h.foldlM_step ht hwords hstart fun _ _ _ => rfl, List.nil_append]

end MemoryLedger.Json.Token
