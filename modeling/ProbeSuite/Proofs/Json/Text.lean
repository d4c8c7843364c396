import Mathlib.Tactic.SplitIfs
import ProbeSuite.Json.Text
import ProbeSuite.Proofs.Except

/-!
# Strings in JSON texts

* `StringText t` : `t` may stand between the quotes of a string;
* `StringOf t s` : it stands for the characters `s`; some texts, with half a surrogate pair, stand for none;
* `StringOf.stringBody`, `StringText.skipString` : what is read, and what is passed over;
* `stringBody_ok`, `skipString_ok` : whatever is read or passed over is such a text;
* `stringOf_quoted` : what `quote` writes between its quotes stands for the text that was quoted.
-/

namespace ProbeSuite.Json

open Text (hexDigit?)

/-- The escapes of one character, and what they stand for. -/
def shortEscapes : List (Char × Char) :=
  [('\x22', '\x22'), ('\\', '\\'), ('/', '/'), ('b', '\x08'), ('f', '\x0c'), ('n', '\n'), ('r', '\r'), ('t', '\t')]

/-- The UTF-16 unit of four hexadecimal digits. -/
def unit? (a b c d : Char) : Option Nat := do
  some ((((← hexDigit? a) * 16 + (← hexDigit? b)) * 16 + (← hexDigit? c)) * 16 + (← hexDigit? d))

/-- The character of a surrogate pair. -/
def paired (high low : Nat) : Char := Char.ofNat (0x10000 + (high - 0xD800) * 0x400 + (low - 0xDC00))

def IsHigh (n : Nat) : Prop := 0xD800 ≤ n ∧ n ≤ 0xDBFF

def IsLow (n : Nat) : Prop := 0xDC00 ≤ n ∧ n ≤ 0xDFFF

instance (n : Nat) : Decidable (IsHigh n) := inferInstanceAs (Decidable (_ ∧ _))

instance (n : Nat) : Decidable (IsLow n) := inferInstanceAs (Decidable (_ ∧ _))

inductive StringText : List Char → Prop where
  | nil : StringText []
  | plain {c : Char} {t : List Char} : c ≠ '\x22' → c ≠ '\\' → ¬c.toNat < 0x20 → StringText t → StringText (c :: t)
  | escape {e d : Char} {t : List Char} : (e, d) ∈ shortEscapes → StringText t → StringText ('\\' :: e :: t)
  | unit {a b c d : Char} {n : Nat} {t : List Char} :
      unit? a b c d = some n → StringText t → StringText ('\\' :: 'u' :: a :: b :: c :: d :: t)

inductive StringOf : List Char → List Char → Prop where
  | nil : StringOf [] []
  | plain {c : Char} {t s : List Char} :
      c ≠ '\x22' → c ≠ '\\' → ¬c.toNat < 0x20 → StringOf t s → StringOf (c :: t) (c :: s)
  | escape {e d : Char} {t s : List Char} :
      (e, d) ∈ shortEscapes → StringOf t s → StringOf ('\\' :: e :: t) (d :: s)
  | unit {a b c d : Char} {n : Nat} {t s : List Char} :
      unit? a b c d = some n → ¬IsHigh n → ¬IsLow n → StringOf t s →
        StringOf ('\\' :: 'u' :: a :: b :: c :: d :: t) (Char.ofNat n :: s)
  | pair {a b c d a' b' c' d' : Char} {high low : Nat} {t s : List Char} :
      unit? a b c d = some high → IsHigh high → unit? a' b' c' d' = some low → IsLow low → StringOf t s →
        StringOf ('\\' :: 'u' :: a :: b :: c :: d :: '\\' :: 'u' :: a' :: b' :: c' :: d' :: t)
          (paired high low :: s)

/-! ## Steps of the readers -/

/-- A character that is not escaped stands for itself. -/
theorem stringBodyFrom_plain (b : Char) (bound : List Char) {c : Char} (rest : List Char) (hquote : c ≠ '\x22')
    (hslash : c ≠ '\\') (hcontrol : ¬c.toNat < 0x20) :
    stringBodyFrom (b :: bound) (c :: rest) =
      stringBodyFrom bound rest >>= fun r => .ok (c :: r.1, r.2) := by
  simp only [stringBodyFrom, hquote, hslash, hcontrol, if_false]

theorem stringBodyFrom_escape (b : Char) (bound : List Char) (cs : List Char) {d : Char} {rest : List Char}
    (h : unescape cs = .ok (d, rest)) :
    stringBodyFrom (b :: bound) ('\\' :: cs) =
      stringBodyFrom bound rest >>= fun r => .ok (d :: r.1, r.2) := by
  simp only [stringBodyFrom, show ('\\' : Char) ≠ '\x22' by decide, if_false, if_true, h]
  rfl

theorem hexUnit_of_unit? {a b c d : Char} {n : Nat} (h : unit? a b c d = some n) (rest : List Char) :
    hexUnit (a :: b :: c :: d :: rest) = .ok (n, rest) := by
  simp only [unit?, Option.bind_eq_bind, Option.bind_eq_some_iff] at h
  obtain ⟨a', ha, b', hb, c', hc, d', hd, hn⟩ := h
  cases hn
  simp only [hexUnit, ha, hb, hc, hd]

theorem unescape_short {e d : Char} (h : (e, d) ∈ shortEscapes) (rest : List Char) :
    unescape (e :: rest) = .ok (d, rest) := by
  simp only [shortEscapes, List.mem_cons, Prod.mk.injEq, List.not_mem_nil, or_false] at h
  rcases h with ⟨rfl, rfl⟩ | ⟨rfl, rfl⟩ | ⟨rfl, rfl⟩ | ⟨rfl, rfl⟩ | ⟨rfl, rfl⟩ | ⟨rfl, rfl⟩ | ⟨rfl, rfl⟩ |
    ⟨rfl, rfl⟩ <;> rfl

theorem unescape_unit {a b c d : Char} {n : Nat} (h : unit? a b c d = some n) (rest : List Char) :
    unescape ('u' :: a :: b :: c :: d :: rest) =
      if IsLow n then .error (.at .loneSurrogate rest) else if IsHigh n then lowSurrogate n rest
      else .ok (Char.ofNat n, rest) := by
  rw [unescape, hexUnit_of_unit? h]
  rfl

theorem lowSurrogate_unit (high : Nat) {a b c d : Char} {low : Nat} (h : unit? a b c d = some low)
    (rest : List Char) :
    lowSurrogate high ('\\' :: 'u' :: a :: b :: c :: d :: rest) =
      if IsLow low then .ok (paired high low, rest)
      else .error (.at .loneSurrogate rest) := by
  rw [lowSurrogate, hexUnit_of_unit? h]
  rfl

theorem skipStringFrom_plain (b : Char) (bound : List Char) {c : Char} (rest : List Char) (hquote : c ≠ '\x22')
    (hslash : c ≠ '\\') (hcontrol : ¬c.toNat < 0x20) :
    skipStringFrom (b :: bound) (c :: rest) = skipStringFrom bound rest := by
  conv =>
    lhs
    unfold skipStringFrom
  rw [if_neg hquote, if_neg hslash, if_neg hcontrol]

theorem skipStringFrom_escape (b : Char) (bound : List Char) {e d : Char} (h : (e, d) ∈ shortEscapes)
    (rest : List Char) : skipStringFrom (b :: bound) ('\\' :: e :: rest) = skipStringFrom bound rest := by
  simp only [shortEscapes, List.mem_cons, Prod.mk.injEq, List.not_mem_nil, or_false] at h
  rcases h with ⟨rfl, rfl⟩ | ⟨rfl, rfl⟩ | ⟨rfl, rfl⟩ | ⟨rfl, rfl⟩ | ⟨rfl, rfl⟩ | ⟨rfl, rfl⟩ | ⟨rfl, rfl⟩ |
    ⟨rfl, rfl⟩ <;> rfl

theorem skipStringFrom_unit (x : Char) (bound : List Char) {a b c d : Char} {n : Nat}
    (h : unit? a b c d = some n) (rest : List Char) :
    skipStringFrom (x :: bound) ('\\' :: 'u' :: a :: b :: c :: d :: rest) = skipStringFrom bound rest := by
  show (hexUnit (a :: b :: c :: d :: rest) >>= fun r => skipStringFrom bound r.2) = _
  rw [hexUnit_of_unit? h]
  rfl

theorem not_isLow_of_isHigh {n : Nat} (h : IsHigh n) : ¬IsLow n := by
  unfold IsHigh at h
  unfold IsLow
  omega

/-! ## Reading -/

theorem StringOf.text {t s : List Char} (h : StringOf t s) : StringText t := by
  induction h with
  | nil => exact .nil
  | plain hquote hslash hcontrol _ ih => exact .plain hquote hslash hcontrol ih
  | escape he _ ih => exact .escape he ih
  | unit hn _ _ _ ih => exact .unit hn ih
  | pair hhigh _ hlow _ _ ih => exact .unit hhigh (.unit hlow ih)

theorem StringOf.stringBodyFrom {t s : List Char} (h : StringOf t s) (rest : List Char) :
    ∀ bound : List Char, t.length < bound.length →
      Json.stringBodyFrom bound (t ++ '\x22' :: rest) = .ok (s, rest) := by
  induction h with
  | nil =>
    intro bound hbound
    obtain ⟨x, bound, rfl⟩ := List.exists_cons_of_length_pos hbound
    simp [Json.stringBodyFrom]
  | plain hquote hslash hcontrol _ ih =>
    intro bound hbound
    obtain ⟨x, bound, rfl⟩ := List.exists_cons_of_length_pos (Nat.zero_lt_of_lt hbound)
    rw [List.cons_append, stringBodyFrom_plain x bound _ hquote hslash hcontrol, ih bound (by simpa using hbound)]
    rfl
  | escape he _ ih =>
    intro bound hbound
    obtain ⟨x, bound, rfl⟩ := List.exists_cons_of_length_pos (Nat.zero_lt_of_lt hbound)
    simp only [List.length_cons] at hbound
    rw [List.cons_append, List.cons_append, stringBodyFrom_escape x bound _ (unescape_short he _),
      ih bound (by omega)]
    rfl
  | unit hn hhigh hlow _ ih =>
    intro bound hbound
    obtain ⟨x, bound, rfl⟩ := List.exists_cons_of_length_pos (Nat.zero_lt_of_lt hbound)
    simp only [List.length_cons] at hbound
    simp only [List.cons_append]
    rw [stringBodyFrom_escape x bound _ (by rw [unescape_unit hn, if_neg hlow, if_neg hhigh]), ih bound (by omega)]
    rfl
  | pair hhigh hisHigh hlow hisLow _ ih =>
    intro bound hbound
    obtain ⟨x, bound, rfl⟩ := List.exists_cons_of_length_pos (Nat.zero_lt_of_lt hbound)
    simp only [List.length_cons] at hbound
    simp only [List.cons_append]
    rw [stringBodyFrom_escape x bound _ (by
        rw [unescape_unit hhigh, if_neg (not_isLow_of_isHigh hisHigh), if_pos hisHigh, lowSurrogate_unit _ hlow,
          if_pos hisLow]), ih bound (by omega)]
    rfl

/-- A text is read, to its closing quote, for what it stands for. -/
theorem StringOf.stringBody {t s : List Char} (h : StringOf t s) (rest : List Char) :
    Json.stringBody (t ++ '\x22' :: rest) = .ok (s, rest) :=
  h.stringBodyFrom rest _ (by rw [List.length_append, List.length_cons]; omega)

theorem StringOf.unique {t s s' : List Char} (h : StringOf t s) (h' : StringOf t s') : s = s' :=
  congrArg Prod.fst (Except.ok.inj ((h.stringBody []).symm.trans (h'.stringBody [])))

/-! ## Passing over -/

theorem StringText.skipStringFrom {t : List Char} (h : StringText t) (rest : List Char) :
    ∀ bound : List Char, t.length < bound.length → Json.skipStringFrom bound (t ++ '\x22' :: rest) = .ok rest := by
  induction h with
  | nil =>
    intro bound hbound
    obtain ⟨x, bound, rfl⟩ := List.exists_cons_of_length_pos hbound
    simp [Json.skipStringFrom]
  | plain hquote hslash hcontrol _ ih =>
    intro bound hbound
    obtain ⟨x, bound, rfl⟩ := List.exists_cons_of_length_pos (Nat.zero_lt_of_lt hbound)
    rw [List.cons_append, skipStringFrom_plain x bound _ hquote hslash hcontrol]
    exact ih bound (by simpa using hbound)
  | escape he _ ih =>
    intro bound hbound
    obtain ⟨x, bound, rfl⟩ := List.exists_cons_of_length_pos (Nat.zero_lt_of_lt hbound)
    simp only [List.length_cons] at hbound
    rw [List.cons_append, List.cons_append, skipStringFrom_escape x bound he]
    exact ih bound (by omega)
  | unit hn _ ih =>
    intro bound hbound
    obtain ⟨x, bound, rfl⟩ := List.exists_cons_of_length_pos (Nat.zero_lt_of_lt hbound)
    simp only [List.length_cons] at hbound
    simp only [List.cons_append]
    rw [skipStringFrom_unit x bound hn]
    exact ih bound (by omega)

theorem StringText.skipString {t : List Char} (h : StringText t) (rest : List Char) :
    Json.skipString (t ++ '\x22' :: rest) = .ok rest :=
  h.skipStringFrom rest _ (by rw [List.length_append, List.length_cons]; omega)

/-! ## Whatever is read -/

theorem hexUnit_ok {cs rest : List Char} {n : Nat} (h : hexUnit cs = .ok (n, rest)) :
    ∃ a b c d, unit? a b c d = some n ∧ cs = a :: b :: c :: d :: rest := by
  unfold hexUnit at h
  split at h
  · next a b c d after =>
    split at h
    · next a' b' c' d' ha hb hc hd =>
      obtain ⟨rfl, rfl⟩ := Prod.mk.inj (Except.ok.inj h)
      refine ⟨a, b, c, d, ?_, rfl⟩
      simp only [unit?, ha, hb, hc, hd, Option.bind_eq_bind, Option.bind_some]
    · cases h
  · split at h <;> cases h

/-- The second half of a surrogate pair is a second escape. -/
theorem lowSurrogate_ok {high : Nat} {cs rest : List Char} {e : Char} (h : lowSurrogate high cs = .ok (e, rest)) :
    ∃ a b c d low, unit? a b c d = some low ∧ IsLow low ∧ e = paired high low ∧
      cs = '\\' :: 'u' :: a :: b :: c :: d :: rest := by
  unfold lowSurrogate at h
  split at h
  · cases h
  · cases h
  · obtain ⟨⟨low, after⟩, hunit, hlow⟩ := exists_ok_of_bind h
    obtain ⟨a, b, c, d, hn, rfl⟩ := hexUnit_ok hunit
    dsimp only at hlow
    split at hlow
    · next hisLow =>
      obtain ⟨rfl, rfl⟩ := Prod.mk.inj (Except.ok.inj hlow)
      exact ⟨a, b, c, d, low, hn, hisLow, rfl, rfl⟩
    · cases hlow
  · cases h
  · cases h

/-- An escape that is read adds one character to what a text stands for. -/
theorem unescape_ok {cs rest : List Char} {e : Char} (h : unescape cs = .ok (e, rest)) :
    ∃ p, cs = p ++ rest ∧ ∀ {t s : List Char}, StringOf t s → StringOf ('\\' :: (p ++ t)) (e :: s) := by
  have hshort : ∀ c, (c, e) ∈ shortEscapes → cs = c :: rest →
      ∃ p, cs = p ++ rest ∧ ∀ {t s : List Char}, StringOf t s → StringOf ('\\' :: (p ++ t)) (e :: s) :=
    fun c hc hcs => ⟨[c], hcs, fun ht => .escape hc ht⟩
  unfold unescape at h
  split at h
  · cases h
  · obtain ⟨⟨n, after⟩, hunit, hrest⟩ := exists_ok_of_bind h
    obtain ⟨a, b, c, d, hn, rfl⟩ := hexUnit_ok hunit
    dsimp only at hrest
    split at hrest
    · cases hrest
    · next hlow =>
      split at hrest
      · next hhigh =>
        obtain ⟨a', b', c', d', low, hn', hlow', he, rfl⟩ := lowSurrogate_ok hrest
        rw [he]
        exact ⟨['u', a, b, c, d, '\\', 'u', a', b', c', d'], rfl, fun ht => .pair hn hhigh hn' hlow' ht⟩
      · next hhigh =>
        obtain ⟨rfl, rfl⟩ := Prod.mk.inj (Except.ok.inj hrest)
        exact ⟨['u', a, b, c, d], rfl, fun ht => .unit hn hhigh hlow ht⟩
  all_goals first
    | (obtain ⟨rfl, rfl⟩ := Prod.mk.inj (Except.ok.inj h); exact hshort _ (by decide) rfl)
    | cases h

theorem stringBodyFrom_ok : ∀ {bound cs s rest : List Char}, stringBodyFrom bound cs = .ok (s, rest) →
    ∃ t, StringOf t s ∧ cs = t ++ '\x22' :: rest
  | [], cs, s, rest, h => by cases cs <;> cases h
  | x :: bound, [], s, rest, h => by cases h
  | x :: bound, c :: cs, s, rest, h => by
    unfold stringBodyFrom at h
    split at h
    · next hc =>
      cases h
      exact ⟨[], .nil, by rw [hc, List.nil_append]⟩
    · next hquote =>
      split at h
      · next hslash =>
        obtain ⟨⟨e, after⟩, hescape, hmore⟩ := exists_ok_of_bind h
        obtain ⟨⟨s', after'⟩, htail, hdone⟩ := exists_ok_of_bind hmore
        obtain ⟨rfl, rfl⟩ := Prod.mk.inj (Except.ok.inj hdone)
        obtain ⟨p, rfl, hp⟩ := unescape_ok hescape
        obtain ⟨t, ht, rfl⟩ := stringBodyFrom_ok htail
        exact ⟨'\\' :: (p ++ t), hp ht, by rw [hslash, List.cons_append, List.append_assoc]⟩
      · next hslash =>
        split at h
        · cases h
        · next hcontrol =>
          obtain ⟨⟨s', after⟩, htail, hdone⟩ := exists_ok_of_bind h
          obtain ⟨rfl, rfl⟩ := Prod.mk.inj (Except.ok.inj hdone)
          obtain ⟨t, ht, rfl⟩ := stringBodyFrom_ok htail
          exact ⟨c :: t, .plain hquote hslash hcontrol ht, rfl⟩

/-- What is read off a text is a string up to its closing quote. -/
theorem stringBody_ok {cs s rest : List Char} (h : stringBody cs = .ok (s, rest)) :
    ∃ t, StringOf t s ∧ cs = t ++ '\x22' :: rest := stringBodyFrom_ok h

/-- Each character of a short escape stands for something. -/
theorem exists_shortEscape {e : Char} (h : e ∈ ['\x22', '\\', '/', 'b', 'f', 'n', 'r', 't']) :
    ∃ d, (e, d) ∈ shortEscapes := by
  have hmem : e ∈ shortEscapes.map Prod.fst := h
  obtain ⟨p, hp, rfl⟩ := List.mem_map.1 hmem
  exact ⟨p.2, hp⟩

theorem skipStringFrom_ok : ∀ {bound cs rest : List Char}, skipStringFrom bound cs = .ok rest →
    ∃ t, StringText t ∧ cs = t ++ '\x22' :: rest
  | [], cs, rest, h => by cases cs <;> cases h
  | x :: bound, [], rest, h => by cases h
  | x :: bound, c :: cs, rest, h => by
    unfold skipStringFrom at h
    split at h
    · next hc =>
      cases h
      exact ⟨[], .nil, by rw [hc, List.nil_append]⟩
    · next hquote =>
      split at h
      · next hslash =>
        split at h
        · cases h
        · obtain ⟨⟨n, after⟩, hunit, htail⟩ := exists_ok_of_bind h
          obtain ⟨a, b, c', d, hn, rfl⟩ := hexUnit_ok hunit
          obtain ⟨t, ht, rfl⟩ := skipStringFrom_ok htail
          exact ⟨'\\' :: 'u' :: a :: b :: c' :: d :: t, .unit hn ht, by rw [hslash]; rfl⟩
        · split at h
          · next he =>
            obtain ⟨d, hd⟩ := exists_shortEscape he
            obtain ⟨t, ht, rfl⟩ := skipStringFrom_ok h
            exact ⟨'\\' :: _ :: t, .escape hd ht, by rw [hslash]; rfl⟩
          · cases h
      · next hslash =>
        split at h
        · cases h
        · next hcontrol =>
          obtain ⟨t, ht, rfl⟩ := skipStringFrom_ok h
          exact ⟨c :: t, .plain hquote hslash hcontrol ht, rfl⟩

theorem skipString_ok {cs rest : List Char} (h : skipString cs = .ok rest) :
    ∃ t, StringText t ∧ cs = t ++ '\x22' :: rest := skipStringFrom_ok h

/-! ## Written strings -/

theorem hexDigit?_hexChar {n : Nat} (h : n < 16) : hexDigit? (hexChar n) = some n := by
  have all : ∀ n < 16, hexDigit? (hexChar n) = some n := by decide
  exact all n h

theorem unit?_control {n : Nat} (h : n < 0x20) : unit? '0' '0' (hexChar (n / 16)) (hexChar (n % 16)) = some n := by
  have hzero : hexDigit? '0' = some 0 := rfl
  simp only [unit?, hzero, hexDigit?_hexChar (show n / 16 < 16 by omega), hexDigit?_hexChar (show n % 16 < 16 by omega),
    Option.bind_eq_bind, Option.bind_some, Option.some.injEq]
  omega

/-- However a character is written, it stands for itself. -/
theorem stringOf_escape (c : Char) {t s : List Char} (h : StringOf t s) : StringOf (escape c ++ t) (c :: s) := by
  unfold escape
  split_ifs with hquote hslash hb hf hn hr ht hcontrol
  · subst hquote; exact .escape (by decide) h
  · subst hslash; exact .escape (by decide) h
  · subst hb; exact .escape (by decide) h
  · subst hf; exact .escape (by decide) h
  · subst hn; exact .escape (by decide) h
  · subst hr; exact .escape (by decide) h
  · subst ht; exact .escape (by decide) h
  · have hunit := StringOf.unit (unit?_control hcontrol) (by unfold IsHigh; omega) (by unfold IsLow; omega) h
    rwa [Char.ofNat_toNat] at hunit
  · exact .plain hquote hslash hcontrol h

theorem stringOf_quoted (s : List Char) : StringOf (s.flatMap escape) s := by
  induction s with
  | nil => exact .nil
  | cons c s ih => exact stringOf_escape c ih

end ProbeSuite.Json
