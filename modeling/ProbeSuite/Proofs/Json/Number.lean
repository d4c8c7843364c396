import ProbeSuite.Json.Reader
import ProbeSuite.Proofs.Except

/-!
# Numbers in JSON texts

* `NumberText t` : an integer, with a sign, a fraction and an exponent if it has them;
* `Ends` : a text that continues no number;
* `integerDigits_digits` : a run of digits is the integer it denotes, if that is a word;
* `Number.read_toDigits`, `Number.read_natural` : a word is read from its digits, and from them only;
* `UnsignedText.skipNumber`, `skipNumber_ok` : the numbers that are passed over are those of the grammar.
-/

namespace ProbeSuite.Json

/-! ## Runs of digits -/

theorem isDigit_toDigits {c : Char} {n : Nat} (h : c ∈ Nat.toDigits 10 n) : c.isDigit = true :=
  Nat.isDigit_of_mem_toDigits (by decide) (by decide) h

/-- A positive number has no leading zero. -/
theorem head_toDigits_ne_zero {n : Nat} (hn : 0 < n) :
    ∃ c cs, Nat.toDigits 10 n = c :: cs ∧ c ≠ '0' := by
  induction n using Nat.strongRecOn with
  | ind n ih =>
    by_cases h : n < 10
    · refine ⟨n.digitChar, [], Nat.toDigits_of_lt_base h, ?_⟩
      intro hc
      have := Nat.toNat_digitChar_sub_48_of_lt_ten h
      rw [hc] at this
      exact absurd this (by simp; omega)
    · obtain ⟨c, cs, hcs, hc⟩ := ih (n / 10) (by omega) (by omega)
      exact ⟨c, cs ++ [(n % 10).digitChar], by rw [Nat.toDigits_of_base_le (by decide) (by omega), hcs]; rfl, hc⟩

theorem le_ofDigitChars (ds : List Char) (init : Nat) : init ≤ Nat.ofDigitChars 10 ds init := by
  rw [Nat.ofDigitChars_eq_ofDigitChars_zero]
  have : 1 * init ≤ 10 ^ ds.length * init := Nat.mul_le_mul_right _ (Nat.one_le_pow _ _ (by decide))
  omega

/-! ## Texts of numbers -/

def Digits (ds : List Char) : Prop := ds ≠ [] ∧ ∀ c ∈ ds, c.isDigit = true

theorem digits_singleton {c : Char} (hc : c.isDigit = true) : Digits [c] :=
  ⟨List.cons_ne_nil c [], List.forall_mem_singleton.2 hc⟩

inductive FractionText : List Char → Prop where
  | none : FractionText []
  | point {ds : List Char} : Digits ds → FractionText ('.' :: ds)

inductive ExponentText : List Char → Prop where
  | none : ExponentText []
  | mark {e : Char} {sign ds : List Char} :
      e = 'e' ∨ e = 'E' → sign = [] ∨ sign = ['+'] ∨ sign = ['-'] → Digits ds → ExponentText (e :: (sign ++ ds))

/-- A number without a sign; of its digits before the point, a zero stands alone. -/
inductive UnsignedText : List Char → Prop where
  | mk {ds part exp : List Char} :
      Digits ds → (ds.head? = some '0' → ds = ['0']) → FractionText part → ExponentText exp →
        UnsignedText (ds ++ (part ++ exp))

inductive NumberText : List Char → Prop where
  | plain {t : List Char} : UnsignedText t → NumberText t
  | minus {t : List Char} : UnsignedText t → NumberText ('-' :: t)

theorem UnsignedText.digit {t : List Char} (h : UnsignedText t) : ∃ c cs, t = c :: cs ∧ c.isDigit = true := by
  obtain ⟨⟨hne, hdigits⟩, -, -, -⟩ := h
  obtain ⟨c, cs, rfl⟩ := List.exists_cons_of_ne_nil hne
  exact ⟨c, _, rfl, hdigits c List.mem_cons_self⟩

theorem NumberText.start {t : List Char} (h : NumberText t) :
    ∃ c cs, t = c :: cs ∧ (c.isDigit = true ∨ c = '-') := by
  cases h with
  | plain hplain =>
    obtain ⟨c, cs, rfl, hc⟩ := hplain.digit
    exact ⟨c, cs, rfl, .inl hc⟩
  | minus _ => exact ⟨_, _, rfl, .inr rfl⟩

theorem NumberText.length_pos {t : List Char} (h : NumberText t) : 0 < t.length := by
  obtain ⟨c, cs, rfl, -⟩ := h.start
  exact Nat.succ_pos _

/-! ## Integers -/

/-- Whether a text continues no number: neither a digit, nor a point, nor an exponent comes first. -/
def Ends (rest : List Char) : Prop := ∀ c cs, rest = c :: cs → c.isDigit = false ∧ c ≠ '.' ∧ c ≠ 'e' ∧ c ≠ 'E'

theorem Ends.nil : Ends [] := fun _ _ h => nomatch h

theorem Ends.cons {c : Char} (h : c.isDigit = false ∧ c ≠ '.' ∧ c ≠ 'e' ∧ c ≠ 'E') (cs : List Char) :
    Ends (c :: cs) := by
  rintro d ds ⟨rfl, rfl⟩
  exact h

theorem Ends.startsWithDigit {rest : List Char} (h : Ends rest) : startsWithDigit rest = false := by
  cases rest with
  | nil => rfl
  | cons c cs => exact (h c cs rfl).1

namespace Number

theorem afterWord_ends {rest : List Char} (h : Ends rest) (minus : Bool) (n : Nat) :
    afterWord minus n rest = .ok (ofInteger minus n, rest) := by
  unfold afterWord
  split
  · exact absurd rfl (h _ _ rfl).2.1
  · exact absurd rfl (h _ _ rfl).2.2.1
  · exact absurd rfl (h _ _ rfl).2.2.2
  · rfl

theorem push?_of_lt {n : Nat} {c : Char} (h : n * 10 + (c.toNat - 48) < 2 ^ 64) :
    push? n c = some (n * 10 + (c.toNat - 48)) := by
  unfold push?
  exact if_pos h

theorem integerDigits_ends {rest : List Char} (h : Ends rest) (minus : Bool) (n : Nat) :
    integerDigits minus n rest = .ok (ofInteger minus n, rest) := by
  cases rest with
  | nil => simpa only [integerDigits] using afterWord_ends h minus n
  | cons c cs =>
    have hc := h.startsWithDigit
    simp only [startsWithDigit] at hc
    simpa only [integerDigits, hc, Bool.false_eq_true, if_false] using afterWord_ends h minus n

/-- A run of digits after the significand `n`, as long as the whole is a word. -/
theorem integerDigits_digits (minus : Bool) {rest : List Char} (hrest : Ends rest) (ds : List Char) (n : Nat)
    (hds : ∀ c ∈ ds, c.isDigit = true) (hlt : Nat.ofDigitChars 10 ds n < 2 ^ 64) :
    integerDigits minus n (ds ++ rest) = .ok (ofInteger minus (Nat.ofDigitChars 10 ds n), rest) := by
  induction ds generalizing n with
  | nil => exact integerDigits_ends hrest minus n
  | cons c ds ih =>
    have hc := hds c List.mem_cons_self
    have hstep : Nat.ofDigitChars 10 (c :: ds) n = Nat.ofDigitChars 10 ds (n * 10 + (c.toNat - 48)) := by
      rw [Nat.ofDigitChars_cons, Nat.mul_comm 10 n, show '0'.toNat = 48 from rfl]
    simp only [hstep] at hlt ⊢
    have hpush := push?_of_lt (Nat.lt_of_le_of_lt (le_ofDigitChars ds _) hlt)
    simp only [List.cons_append, integerDigits, hc, if_true, hpush]
    exact ih _ (fun d hd => hds d (List.mem_cons_of_mem _ hd)) hlt

/-- The digits of a word are read as that word. -/
theorem read_toDigits (minus : Bool) {rest : List Char} (hrest : Ends rest) {n : Nat} (hn : n < 2 ^ 64) :
    read minus (Nat.toDigits 10 n ++ rest) = .ok (ofInteger minus n, rest) := by
  rcases Nat.eq_zero_or_pos n with rfl | hpos
  · simp only [Nat.toDigits_zero, List.singleton_append, read, hrest.startsWithDigit, Bool.false_eq_true, if_false]
    exact afterWord_ends hrest minus 0
  · obtain ⟨c, cs, hcs, hc⟩ := head_toDigits_ne_zero hpos
    have hdigits : ∀ d ∈ c :: cs, d.isDigit = true := fun d hd => isDigit_toDigits (hcs ▸ hd)
    have hvalue : Nat.ofDigitChars 10 cs (c.toNat - 48) = n := by
      have := Nat.ofDigitChars_ten_toDigits (n := n)
      rwa [hcs, Nat.ofDigitChars_cons, Nat.mul_zero, Nat.zero_add] at this
    rw [hcs, List.cons_append]
    have hread := integerDigits_digits minus hrest cs (c.toNat - 48)
      (fun d hd => hdigits d (List.mem_cons_of_mem _ hd)) (by rwa [hvalue])
    rw [hvalue] at hread
    unfold read
    split
    · contradiction
    · next h =>
      cases h
      exact absurd rfl hc
    · next h =>
      cases h
      rw [if_pos (hdigits c List.mem_cons_self), hread]

/-! ## Whatever is read as a natural number -/

theorem digitChar_of_isDigit {c : Char} (h : c.isDigit = true) : (c.toNat - 48).digitChar = c ∧ c.toNat - 48 < 10 := by
  simp only [Char.isDigit, Bool.and_eq_true, decide_eq_true_eq, ge_iff_le, UInt32.le_iff_toNat_le] at h
  have hlow : 48 ≤ c.toNat := h.1
  have hhigh : c.toNat ≤ 57 := h.2
  have hlt : c.toNat - 48 < 10 := by omega
  refine ⟨?_, hlt⟩
  have hnat : (c.toNat - 48).digitChar.toNat = c.toNat := by
    rw [Nat.toNat_digitChar_of_lt_ten hlt]
    omega
  rw [← Char.ofNat_toNat (c.toNat - 48).digitChar, hnat, Char.ofNat_toNat]

/-- Digits after those of a positive number are the last digits of what they denote together. -/
theorem toDigits_ofDigitChars (ds : List Char) : ∀ {n : Nat}, 0 < n → (∀ c ∈ ds, c.isDigit = true) →
    Nat.toDigits 10 (Nat.ofDigitChars 10 ds n) = Nat.toDigits 10 n ++ ds := by
  induction ds with
  | nil =>
    intro n _ _
    rw [List.append_nil, Nat.ofDigitChars_nil]
  | cons c ds ih =>
    intro n hn hds
    obtain ⟨hc, hlt⟩ := digitChar_of_isDigit (hds c List.mem_cons_self)
    rw [Nat.ofDigitChars_cons, show '0'.toNat = 48 from rfl,
      ih (by omega) fun d hd => hds d (List.mem_cons_of_mem _ hd), ← Nat.toDigits_append_toDigits (by decide) hn hlt,
      Nat.toDigits_of_lt_base hlt, hc, List.append_assoc, List.singleton_append]

def IsFloat : Number → Prop
  | .float _ _ => True
  | _ => False

theorem assemble_float {minus : Bool} {significand : Nat} {exponent : Int} {cs : List Char} {r : Number × List Char}
    (h : assemble minus significand exponent cs = .ok r) : r.1.IsFloat := by
  unfold assemble at h
  split at h
  · cases h
    trivial
  · cases h

theorem exponentDigits_float {minus : Bool} {significand : Nat} {start : Int} {down : Bool} :
    ∀ {cs : List Char} {value : Nat} {r : Number × List Char},
      exponentDigits minus significand start down value cs = .ok r → r.1.IsFloat
  | [], value, r, h => assemble_float h
  | c :: cs, value, r, h => by
    unfold exponentDigits at h
    split at h
    · dsimp only at h
      split at h
      · exact exponentDigits_float h
      · split at h
        · cases h
        · cases h
          trivial
    · exact assemble_float h

theorem exponentPart_float {minus : Bool} {significand : Nat} {start : Int} {cs : List Char} {r : Number × List Char}
    (h : exponentPart minus significand start cs = .ok r) : r.1.IsFloat := by
  unfold exponentPart at h
  dsimp only at h
  split at h
  · cases h
  · split at h
    · exact exponentDigits_float h
    · cases h

theorem finish_float {minus : Bool} {significand : Nat} {exponent : Int} {cs : List Char} {r : Number × List Char}
    (h : finish minus significand exponent cs = .ok r) : r.1.IsFloat := by
  unfold finish at h
  split at h
  · exact exponentPart_float h
  · exact exponentPart_float h
  · exact assemble_float h

theorem fractionDigits_float {minus : Bool} {before : Int} : ∀ {cs : List Char} {significand places : Nat}
    {r : Number × List Char}, fractionDigits minus before significand places cs = .ok r → r.1.IsFloat
  | [], significand, places, r, h => by
    unfold fractionDigits at h
    split at h
    · cases h
    · exact finish_float h
  | c :: cs, significand, places, r, h => by
    unfold fractionDigits at h
    split at h
    · split at h
      · exact fractionDigits_float h
      · exact finish_float h
    · split at h
      · cases h
      · exact finish_float h

theorem afterInteger_float {minus : Bool} {significand : Nat} {exponent : Int} {cs : List Char}
    {r : Number × List Char} (h : afterInteger minus significand exponent cs = .ok r) : r.1.IsFloat := by
  unfold afterInteger at h
  split at h
  · exact fractionDigits_float h
  · exact finish_float h

theorem afterWord_natural {minus : Bool} {n m : Nat} {cs rest : List Char}
    (h : afterWord minus n cs = .ok (.natural m, rest)) : minus = false ∧ m = n ∧ rest = cs := by
  unfold afterWord at h
  split at h
  · exact (afterInteger_float h).elim
  · exact (afterInteger_float h).elim
  · exact (afterInteger_float h).elim
  · obtain ⟨hn, rfl⟩ := Prod.mk.inj (Except.ok.inj h)
    unfold ofInteger at hn
    split at hn
    · next hminus =>
      cases hn
      exact ⟨Bool.eq_false_iff.2 hminus, rfl, rfl⟩
    · split at hn <;> cases hn

theorem lt_of_push? {n m : Nat} {c : Char} (h : push? n c = some m) : m = 10 * n + (c.toNat - 48) ∧ m < 2 ^ 64 := by
  unfold push? at h
  dsimp only at h
  split at h
  · next hlt =>
    obtain rfl := Option.some.inj h
    exact ⟨by omega, hlt⟩
  · cases h

theorem integerDigits_natural {minus : Bool} : ∀ {cs : List Char} {n m : Nat} {rest : List Char},
    integerDigits minus n cs = .ok (.natural m, rest) → n < 2 ^ 64 →
      minus = false ∧ ∃ ds, (∀ c ∈ ds, c.isDigit = true) ∧ cs = ds ++ rest ∧ m = Nat.ofDigitChars 10 ds n ∧ m < 2 ^ 64
  | [], n, m, rest, h, hn => by
    obtain ⟨hminus, rfl, rfl⟩ := afterWord_natural h
    exact ⟨hminus, [], List.forall_mem_nil _, rfl, rfl, hn⟩
  | c :: cs, n, m, rest, h, hn => by
    unfold integerDigits at h
    split at h
    · next hc =>
      split at h
      · next k hpush =>
        obtain ⟨hk, hlt⟩ := lt_of_push? hpush
        obtain ⟨hminus, ds, hds, rfl, hm, hmlt⟩ := integerDigits_natural h hlt
        refine ⟨hminus, c :: ds, List.forall_mem_cons.2 ⟨hc, hds⟩, rfl, ?_, hmlt⟩
        rw [hm, hk, Nat.ofDigitChars_cons]
        rfl
      · exact (afterInteger_float h).elim
    · obtain ⟨hminus, rfl, rfl⟩ := afterWord_natural h
      exact ⟨hminus, [], List.forall_mem_nil _, rfl, rfl, hn⟩

/-- Only its own digits are read as a natural number. -/
theorem read_natural {minus : Bool} {cs rest : List Char} {n : Nat} (h : read minus cs = .ok (.natural n, rest)) :
    minus = false ∧ cs = Nat.toDigits 10 n ++ rest ∧ n < 2 ^ 64 := by
  unfold read at h
  split at h
  · cases h
  · split at h
    · cases h
    · obtain ⟨hminus, rfl, rfl⟩ := afterWord_natural h
      exact ⟨hminus, rfl, by decide⟩
  · next c cs hzero =>
    split at h
    · next hc =>
      obtain ⟨hchar, hlt⟩ := digitChar_of_isDigit hc
      have hpos : 0 < c.toNat - 48 := by
        refine Nat.pos_of_ne_zero fun h0 => hzero ?_
        rw [← hchar, h0]
        decide
      obtain ⟨hminus, ds, hds, rfl, rfl, hn⟩ := integerDigits_natural h (by omega)
      refine ⟨hminus, ?_, hn⟩
      rw [toDigits_ofDigitChars ds hpos hds, Nat.toDigits_of_lt_base hlt, hchar]
      rfl
    · cases h

end Number

/-! ## Skipping -/

theorem dropWhile_digits {ds rest : List Char} (hds : Digits ds) (hrest : startsWithDigit rest = false) :
    (ds ++ rest).dropWhile Char.isDigit = rest := by
  rw [List.dropWhile_append_of_pos hds.2]
  cases rest with
  | nil => rfl
  | cons c cs => exact List.dropWhile_cons_of_neg (Bool.eq_false_iff.1 hrest)

theorem Digits.startsWithDigit {ds : List Char} (h : Digits ds) (rest : List Char) :
    startsWithDigit (ds ++ rest) = true := by
  obtain ⟨c, cs, rfl⟩ := List.exists_cons_of_ne_nil h.1
  exact h.2 c List.mem_cons_self

theorem digits_takeWhile {cs : List Char} (h : startsWithDigit cs = true) : Digits (cs.takeWhile Char.isDigit) := by
  cases cs with
  | nil => cases h
  | cons c cs =>
    have hc : c.isDigit = true := h
    refine ⟨?_, fun d hd => List.all_eq_true.1 List.all_takeWhile d hd⟩
    rw [List.takeWhile_cons_of_pos hc]
    exact List.cons_ne_nil _ _

theorem ExponentText.not_digit {exp : List Char} (h : ExponentText exp) {rest : List Char} (hrest : Ends rest) :
    startsWithDigit (exp ++ rest) = false := by
  cases h with
  | none => exact hrest.startsWithDigit
  | mark he _ _ => rcases he with rfl | rfl <;> rfl

theorem FractionText.not_digit {part exp : List Char} (h : FractionText part) (hexp : ExponentText exp)
    {rest : List Char} (hrest : Ends rest) : startsWithDigit (part ++ (exp ++ rest)) = false := by
  cases h with
  | none => exact hexp.not_digit hrest
  | point _ => rfl

theorem skipExponent_append {sign ds rest : List Char} (hsign : sign = [] ∨ sign = ['+'] ∨ sign = ['-'])
    (hds : Digits ds) (hrest : startsWithDigit rest = false) : skipExponent (sign ++ (ds ++ rest)) = .ok rest := by
  have hdone : (if startsWithDigit (ds ++ rest) then Except.ok ((ds ++ rest).dropWhile Char.isDigit)
      else .error (.past .invalidNumber (ds ++ rest))) = (.ok rest : Except Fault (List Char)) := by
    rw [if_pos (hds.startsWithDigit rest), dropWhile_digits hds hrest]
  unfold skipExponent
  rcases hsign with rfl | rfl | rfl
  · rw [List.nil_append]
    split
    · next heq =>
      have hdigit := hds.startsWithDigit rest
      rw [heq] at hdigit
      cases hdigit
    · next heq =>
      have hdigit := hds.startsWithDigit rest
      rw [heq] at hdigit
      cases hdigit
    · exact hdone
  · exact hdone
  · exact hdone

theorem skipExponent_ok {cs rest : List Char} (h : skipExponent cs = .ok rest) :
    ∃ sign ds, (sign = [] ∨ sign = ['+'] ∨ sign = ['-']) ∧ Digits ds ∧ cs = sign ++ (ds ++ rest) := by
  have hdigits : ∀ {cs : List Char}, (if startsWithDigit cs then Except.ok (cs.dropWhile Char.isDigit)
      else .error (.past .invalidNumber cs)) = (.ok rest : Except Fault (List Char)) →
        ∃ ds, Digits ds ∧ cs = ds ++ rest := by
    intro cs h
    split at h
    · next hstart =>
      cases h
      exact ⟨_, digits_takeWhile hstart, List.takeWhile_append_dropWhile.symm⟩
    · cases h
  unfold skipExponent at h
  split at h
  · obtain ⟨ds, hds, rfl⟩ := hdigits h
    exact ⟨['+'], ds, .inr (.inl rfl), hds, rfl⟩
  · obtain ⟨ds, hds, rfl⟩ := hdigits h
    exact ⟨['-'], ds, .inr (.inr rfl), hds, rfl⟩
  · obtain ⟨ds, hds, rfl⟩ := hdigits h
    exact ⟨[], ds, .inl rfl, hds, rfl⟩

theorem skipFraction_append {ds exp rest : List Char} (hds : Digits ds) (hexp : ExponentText exp)
    (hrest : Ends rest) : skipFraction (ds ++ (exp ++ rest)) = .ok rest := by
  unfold skipFraction
  rw [if_pos (hds.startsWithDigit _), dropWhile_digits hds (hexp.not_digit hrest)]
  cases hexp with
  | none =>
    rw [List.nil_append]
    split
    · exact absurd rfl (hrest _ _ rfl).2.2.1
    · exact absurd rfl (hrest _ _ rfl).2.2.2
    · rfl
  | mark he hsign hdigits =>
    have hskip := skipExponent_append hsign hdigits hrest.startsWithDigit
    rw [← List.append_assoc] at hskip
    rcases he with rfl | rfl <;> exact hskip

theorem skipFraction_ok {cs rest : List Char} (h : skipFraction cs = .ok rest) :
    ∃ ds exp, Digits ds ∧ ExponentText exp ∧ cs = ds ++ (exp ++ rest) := by
  unfold skipFraction at h
  split at h
  · next hstart =>
    have hsplit := List.takeWhile_append_dropWhile (p := Char.isDigit) (l := cs)
    refine ⟨cs.takeWhile Char.isDigit, ?_⟩
    split at h
    · next after heq =>
      obtain ⟨sign, ds, hsign, hds, rfl⟩ := skipExponent_ok h
      refine ⟨_, digits_takeWhile hstart, .mark (.inl rfl) hsign hds, ?_⟩
      rw [List.cons_append, List.append_assoc, ← heq, hsplit]
    · next after heq =>
      obtain ⟨sign, ds, hsign, hds, rfl⟩ := skipExponent_ok h
      refine ⟨_, digits_takeWhile hstart, .mark (.inr rfl) hsign hds, ?_⟩
      rw [List.cons_append, List.append_assoc, ← heq, hsplit]
    · cases h
      exact ⟨[], digits_takeWhile hstart, .none, hsplit.symm⟩
  · cases h

/-- What follows the integer part of a number. -/
def skipTail (cs : List Char) : Except Fault (List Char) :=
  match cs with
  | '.' :: rest => skipFraction rest
  | 'e' :: rest => skipExponent rest
  | 'E' :: rest => skipExponent rest
  | cs => .ok cs

theorem skipTail_append {part exp rest : List Char} (hpart : FractionText part) (hexp : ExponentText exp)
    (hrest : Ends rest) : skipTail (part ++ (exp ++ rest)) = .ok rest := by
  cases hpart with
  | none =>
    cases hexp with
    | none =>
      show skipTail rest = .ok rest
      unfold skipTail
      split
      · exact absurd rfl (hrest _ _ rfl).2.1
      · exact absurd rfl (hrest _ _ rfl).2.2.1
      · exact absurd rfl (hrest _ _ rfl).2.2.2
      · rfl
    | mark he hsign hdigits =>
      have hskip := skipExponent_append hsign hdigits hrest.startsWithDigit
      rw [← List.append_assoc] at hskip
      rcases he with rfl | rfl <;> exact hskip
  | point hdigits => exact skipFraction_append hdigits hexp hrest

theorem skipTail_ok {cs rest : List Char} (h : skipTail cs = .ok rest) :
    ∃ part exp, FractionText part ∧ ExponentText exp ∧ cs = part ++ (exp ++ rest) := by
  unfold skipTail at h
  split at h
  · obtain ⟨ds, exp, hds, hexp, rfl⟩ := skipFraction_ok h
    exact ⟨'.' :: ds, exp, .point hds, hexp, rfl⟩
  · obtain ⟨sign, ds, hsign, hds, rfl⟩ := skipExponent_ok h
    exact ⟨[], _, .none, .mark (.inl rfl) hsign hds, by simp⟩
  · obtain ⟨sign, ds, hsign, hds, rfl⟩ := skipExponent_ok h
    exact ⟨[], _, .none, .mark (.inr rfl) hsign hds, by simp⟩
  · cases h
    exact ⟨[], [], .none, .none, rfl⟩

theorem UnsignedText.skipNumber {t : List Char} (h : UnsignedText t) {rest : List Char} (hrest : Ends rest) :
    skipNumber (t ++ rest) = .ok rest := by
  obtain ⟨hds, hzero, hpart, hexp⟩ := h
  next ds part exp =>
  have htail := hpart.not_digit hexp hrest
  have hskip : skipTail (part ++ (exp ++ rest)) = .ok rest := skipTail_append hpart hexp hrest
  simp only [List.append_assoc]
  unfold Json.skipNumber
  split
  · next after heq =>
    obtain ⟨c, cs, rfl⟩ := List.exists_cons_of_ne_nil hds.1
    obtain ⟨rfl, hafter⟩ := List.cons.inj heq
    obtain ⟨-, rfl⟩ := List.cons.inj (hzero rfl)
    obtain rfl : part ++ (exp ++ rest) = after := hafter
    rw [if_neg (Bool.eq_false_iff.1 htail)]
    exact hskip
  · rw [if_pos (hds.startsWithDigit _), dropWhile_digits hds htail]
    exact hskip

theorem skipNumber_ok {cs rest : List Char} (h : skipNumber cs = .ok rest) : ∃ t, UnsignedText t ∧ cs = t ++ rest := by
  have hds : ∃ ds after, Digits ds ∧ (ds.head? = some '0' → ds = ['0']) ∧ cs = ds ++ after ∧
      skipTail after = .ok rest := by
    unfold skipNumber at h
    split at h
    · next after =>
      split at h
      · cases h
      · refine ⟨['0'], after, ⟨List.cons_ne_nil _ _, ?_⟩, fun _ => rfl, rfl, h⟩
        intro c hc
        rw [List.mem_singleton.1 hc]
        rfl
    · next hzero =>
      split at h
      · next hstart =>
        refine ⟨_, _, digits_takeWhile hstart, fun hhead => ?_, List.takeWhile_append_dropWhile.symm, h⟩
        cases cs with
        | nil => cases hstart
        | cons c cs =>
          rw [List.takeWhile_cons_of_pos (p := Char.isDigit) hstart] at hhead
          cases hhead
          exact absurd rfl (hzero cs)
      · cases h
  obtain ⟨ds, after, hdigits, hzero, rfl, htail⟩ := hds
  obtain ⟨part, exp, hpart, hexp, rfl⟩ := skipTail_ok htail
  exact ⟨_, .mk hdigits hzero hpart hexp, by simp only [List.append_assoc]⟩

end ProbeSuite.Json
