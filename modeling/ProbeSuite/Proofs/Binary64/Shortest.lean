import ProbeSuite.Proofs.Binary64

/-!
# Shortest decimals

* `Decimal.value` : the rational number that is written;
* `rounds_iff` : a decimal rounds to a number if and only if it is near it;
* `exists_nearest?`, `rounds_of_nearest?` : a multiple of a power of ten that rounds to the number is found if there
  is one;
* `search_spec` : the search ends at the first power of ten with such a multiple, or above;
* `near_shortest` : the shortest decimal of a normal number is near it;
* `shortest_eq` : a decimal of few digits is the shortest of the number it is near.
-/

namespace ProbeSuite

/-- The number itself. -/
def Decimal.value (d : Decimal) : ℚ := d.coefficient * 10 ^ d.exponent

theorem Tie.choose_cases (tie : Tie) (c : ℕ) : tie.choose c = c ∨ tie.choose c = c + 1 := by
  cases tie with
  | up => exact .inr rfl
  | even =>
    have heven : Tie.even.choose c = c + c % 2 := rfl
    omega

namespace Binary64

variable {x : Binary64} {q r : ℚ} {c : ℕ} {t : ℤ} {tie : Tie}

/-! ## Near numbers -/

theorem lower_lt_value (hx : 0 < x.significand) : x.lowerQuarters * x.quarter < x.value := by
  have hlower : x.lowerQuarters < 4 * x.significand := by
    unfold lowerQuarters
    split <;> omega
  rw [value_eq_quarters]
  exact mul_lt_mul_of_pos_right (by exact_mod_cast hlower) x.quarter_pos

theorem upper_eq (x : Binary64) : x.upperQuarters * x.quarter = x.value + 2 * x.quarter := by
  rw [value_eq_quarters, upperQuarters_cast]
  ring

/-- The numbers near `x` are an interval around it. -/
theorem Near.of_between (h : x.Near q) (hx : 0 < x.significand)
    (hr : q ≤ r ∧ r ≤ x.value ∨ x.value ≤ r ∧ r ≤ q) : x.Near r := by
  obtain ⟨hlow, hhigh, hodd⟩ := h
  have hlow' := lower_lt_value hx
  have hhigh' : x.value < x.upperQuarters * x.quarter := by linarith [x.upper_eq, x.quarter_pos]
  rcases hr with ⟨hqr, hrx⟩ | ⟨hxr, hrq⟩
  · exact ⟨hlow.trans hqr, (hrx.trans_lt hhigh').le, fun h => ⟨(hodd h).1.trans_le hqr, hrx.trans_lt hhigh'⟩⟩
  · exact ⟨(hlow'.trans_le hxr).le, hrq.trans hhigh, fun h => ⟨hlow'.trans_le hxr, hrq.trans_lt (hodd h).2⟩⟩

theorem near_of_lt (hx : 0 < x.significand) (hlow : x.value ≤ q) (hhigh : q < x.value + 2 * x.quarter) : x.Near q := by
  rw [← upper_eq] at hhigh
  have hlow' := (lower_lt_value hx).trans_le hlow
  exact ⟨hlow'.le, hhigh.le, fun _ => ⟨hlow', hhigh⟩⟩

/-! ## Multiples of powers of ten -/

/-- What takes quarters of `x` and powers of ten to natural numbers. -/
def scale (x : Binary64) (t : ℤ) : ℚ := 2 ^ (2 - x.exponent).toNat * 10 ^ (-t).toNat

theorem scale_pos (x : Binary64) (t : ℤ) : 0 < x.scale t := by
  unfold scale
  positivity

theorem quarterNum_cast (x : Binary64) (t : ℤ) : (x.quarterNum t : ℚ) = x.quarter * x.scale t := by
  unfold quarterNum quarter scale
  rw [zpow_eq_div, neg_sub]
  push_cast
  field_simp

theorem quarterDen_cast (x : Binary64) (t : ℤ) : (x.quarterDen t : ℚ) = 10 ^ t * x.scale t := by
  unfold quarterDen scale
  rw [zpow_eq_div t]
  push_cast
  field_simp

theorem quarters_le_iff (k c : ℕ) :
    k * x.quarterNum t ≤ c * x.quarterDen t ↔ k * x.quarter ≤ c * (10 : ℚ) ^ t := by
  rw [← Nat.cast_le (α := ℚ)]
  push_cast
  rw [quarterNum_cast, quarterDen_cast, ← mul_assoc, ← mul_assoc, mul_le_mul_iff_of_pos_right (x.scale_pos t)]

theorem le_quarters_iff (k c : ℕ) :
    c * x.quarterDen t ≤ k * x.quarterNum t ↔ c * (10 : ℚ) ^ t ≤ k * x.quarter := by
  rw [← Nat.cast_le (α := ℚ)]
  push_cast
  rw [quarterNum_cast, quarterDen_cast, ← mul_assoc, ← mul_assoc, mul_le_mul_iff_of_pos_right (x.scale_pos t)]

/-- **The decimals that round to a number are those near it.** -/
theorem rounds_iff : x.rounds c t = true ↔ x.Near (c * 10 ^ t) := by
  unfold rounds Near
  dsimp only
  split
  · next heven =>
    have hodd : ¬x.significand % 2 = 1 := by omega
    simp only [decide_eq_true_eq, quarters_le_iff, le_quarters_iff, hodd, false_implies, and_true]
  · next hodd =>
    have hodd : x.significand % 2 = 1 := by omega
    simp only [decide_eq_true_eq, ← not_le, quarters_le_iff, le_quarters_iff, hodd, true_implies]
    exact ⟨fun h => ⟨le_of_not_ge h.1, le_of_not_ge h.2, h⟩, fun h => h.2.2⟩

/-- The multiples of a power of ten next to a number. -/
theorem between_multiples (x : Binary64) (t : ℤ) :
    let c := 4 * x.significand * x.quarterNum t / x.quarterDen t
    c * (10 : ℚ) ^ t ≤ x.value ∧ x.value < (c + 1 : ℕ) * (10 : ℚ) ^ t := by
  intro c
  have hden : 0 < x.quarterDen t := Nat.mul_pos (Nat.two_pow_pos _) (Nat.pow_pos (by decide))
  have hvalue : x.value = (4 * x.significand : ℕ) * x.quarter := by
    rw [value_eq_quarters]
    push_cast
    rfl
  rw [hvalue]
  constructor
  · exact (le_quarters_iff _ _).1 (Nat.div_mul_le_self _ _)
  · refine lt_of_not_ge fun hge => ?_
    exact absurd (Nat.lt_mul_of_div_lt (Nat.lt_succ_self c) hden) (not_lt.2 ((le_quarters_iff _ _).2 hge))

theorem rounds_of_nearest? (h : x.nearest? tie t = some c) : x.rounds c t = true := by
  unfold nearest? at h
  dsimp only at h
  split at h
  · next hbelow habove =>
    split at h
    · cases h
      exact hbelow
    · split at h
      · cases h
        exact habove
      · cases h
        rcases tie.choose_cases (4 * x.significand * x.quarterNum t / x.quarterDen t) with hchosen | hchosen
        · rw [hchosen]
          exact hbelow
        · rw [hchosen]
          exact habove
  · next hbelow _ =>
    cases h
    exact hbelow
  · next _ habove =>
    cases h
    exact habove
  · cases h

theorem exists_nearest? (hx : 0 < x.significand) (h : x.rounds c t = true) : ∃ c', x.nearest? tie t = some c' := by
  obtain ⟨hbelow, habove⟩ := x.between_multiples t
  have hpow : (0 : ℚ) < 10 ^ t := by positivity
  have hmono : ∀ {a b : ℕ}, a ≤ b → (a * 10 ^ t : ℚ) ≤ b * 10 ^ t := fun hab =>
    mul_le_mul_of_nonneg_right (Nat.cast_le.2 hab) hpow.le
  rw [rounds_iff] at h
  have hnext : x.rounds (4 * x.significand * x.quarterNum t / x.quarterDen t) t = true ∨
      x.rounds (4 * x.significand * x.quarterNum t / x.quarterDen t + 1) t = true := by
    rcases Nat.lt_or_ge (4 * x.significand * x.quarterNum t / x.quarterDen t) c with hc | hc
    · exact .inr (rounds_iff.2 (h.of_between hx (.inr ⟨habove.le, hmono hc⟩)))
    · exact .inl (rounds_iff.2 (h.of_between hx (.inl ⟨hmono hc, hbelow⟩)))
  unfold nearest?
  dsimp only
  split
  · split
    · exact ⟨_, rfl⟩
    · split
      · exact ⟨_, rfl⟩
      · exact ⟨_, rfl⟩
  · exact ⟨_, rfl⟩
  · exact ⟨_, rfl⟩
  · next hnone hnone' =>
    rw [hnone, hnone'] at hnext
    simp at hnext

/-! ## The search -/

/-- If one of the powers of ten on the way has a multiple near the number, the search ends there or above. -/
theorem search_spec (hx : 0 < x.significand) {c₀ : ℕ} {t₀ : ℤ} (h : x.Near (c₀ * 10 ^ t₀)) :
    ∀ {steps : ℕ} {t : ℤ}, t - steps < t₀ → t₀ ≤ t →
      t₀ ≤ (x.search tie steps t).exponent ∧ x.Near (x.search tie steps t).value
  | 0, t, hlow, hhigh => by omega
  | steps + 1, t, hlow, hhigh => by
    rw [search]
    split
    · next c hc => exact ⟨hhigh, rounds_iff.1 (rounds_of_nearest? hc)⟩
    · next hnone =>
      have hne : t₀ ≠ t := by
        rintro rfl
        obtain ⟨c, hc⟩ := exists_nearest? hx (rounds_iff.2 h)
        rw [hnone] at hc
        cases hc
      exact search_spec hx h (by omega) (by omega)

/-! ## Powers of ten -/

/-- How powers of two with the exponents of normal numbers compare with powers of ten, at a time. -/
theorem powers_compare : ∀ i ∈ List.range 2046,
    10 ^ ((i * 30103 + 294940) / 100000) * 2 ^ 1075 < 2 ^ i * 10 ^ 332 ∧
      2 ^ i * 10 ^ 308 ≤ 10 ^ ((i * 30103 + 294940) / 100000) * 2 ^ 1021 := by
  decide +kernel

theorem two_zpow_le_ten_zpow_iff (k l m n : ℕ) :
    (2 : ℚ) ^ (k - l : ℤ) ≤ 10 ^ (m - n : ℤ) ↔ 2 ^ k * 10 ^ n ≤ 10 ^ m * 2 ^ l := by
  have hten : (10 : ℚ) ≠ 0 := by norm_num
  rw [zpow_sub₀ two_ne_zero, zpow_sub₀ hten, zpow_natCast, zpow_natCast, zpow_natCast, zpow_natCast,
    div_le_div_iff₀ (by positivity) (by positivity)]
  norm_cast

/-- The search starts above a normal number, and ends where powers of ten are smaller than the distance to the
neighbour. -/
theorem topPower_spec (hx : x.Normal) (hfinite : x.isFinite = true) :
    (10 : ℚ) ^ (x.topPower - 23) < 2 * x.quarter ∧ (2 : ℚ) ^ (x.exponent + 53) ≤ 10 ^ (x.topPower + 1) := by
  have hleast := hx.le_exponent
  have hlog : x.significand.log2 = 52 := by
    have hne : x.significand ≠ 0 := by have := hx.le_significand; omega
    exact (Nat.log2_eq_iff hne).2 ⟨hx.le_significand, hx.significand_lt⟩
  obtain ⟨i, hi⟩ := Int.le.dest hleast
  have hexponent : x.exponent = i - 1074 := by
    rw [← hi, leastExponent]
    ring
  have hi' : i < 2046 := by
    have hle : x.exponent ≤ 971 := of_decide_eq_true hfinite
    omega
  obtain ⟨hlow, hhigh⟩ := powers_compare i (List.mem_range.2 hi')
  have htop : x.topPower = ((i * 30103 + 294940) / 100000 : ℕ) - 309 := by
    rw [topPower, hlog, hexponent, Int.fdiv_eq_ediv_of_nonneg _ (by decide)]
    omega
  generalize (i * 30103 + 294940) / 100000 = f at hlow hhigh htop
  constructor
  · have hquarter : 2 * x.quarter = 2 ^ (i - (1075 : ℕ) : ℤ) := by
      rw [two_mul_quarter, hexponent, show (i - (1075 : ℕ) : ℤ) = i - 1074 - 1 by omega]
    rw [hquarter, htop, show (f - 309 - 23 : ℤ) = f - (332 : ℕ) by omega]
    exact lt_of_not_ge fun hge => hlow.not_ge ((two_zpow_le_ten_zpow_iff i 1075 f 332).1 hge)
  · rw [htop, hexponent, show (i - 1074 + 53 : ℤ) = i - (1021 : ℕ) by omega,
      show (f - 309 + 1 : ℤ) = f - (308 : ℕ) by omega]
    exact (two_zpow_le_ten_zpow_iff i 1021 f 308).2 hhigh

/-! ## The shortest decimal -/

/-- **The shortest decimal of a number rounds to it.** -/
theorem near_shortest (hx : x.Normal) (hfinite : x.isFinite = true) : x.Near (x.shortest tie).value := by
  have hpos : 0 < x.significand := lt_of_lt_of_le (by decide) hx.le_significand
  obtain ⟨hsmall, -⟩ := topPower_spec hx hfinite
  obtain ⟨hbelow, habove⟩ := x.between_multiples (x.topPower - 23)
  -- The next multiple above the number is near it, as the power of ten is that small.
  have hnear := near_of_lt hpos habove.le (by push_cast; linarith)
  rw [shortest, if_neg hpos.ne']
  exact (search_spec hpos hnear (by omega) (by omega)).2

/-- There is one multiple near a number of something greater than the interval. -/
theorem multiple_unique {k l : ℕ} {u : ℚ} (hk : x.Near (k * u)) (hl : x.Near (l * u)) (hu : 4 * x.quarter < u) :
    k = l := by
  have hpos : 0 < u := by linarith [x.quarter_pos]
  obtain ⟨hk₁, hk₂⟩ := abs_le.1 hk.error
  obtain ⟨hl₁, hl₂⟩ := abs_le.1 hl.error
  refine eq_of_abs_sub_lt_one (lt_of_mul_lt_mul_right ?_ hpos.le)
  rw [one_mul, ← abs_of_pos hpos, ← abs_mul, abs_of_pos hpos, sub_mul, abs_lt]
  constructor <;> linarith

/-- **A decimal of few digits is the shortest one of the number that it rounds to.** -/
theorem shortest_eq (hx : x.Normal) (hfinite : x.isFinite = true) {d : Decimal} (hnear : x.Near d.value)
    (hd : ¬10 ∣ d.coefficient) (hfew : 4 * x.quarter < 10 ^ d.exponent) : x.shortest tie = d := by
  have hpos : 0 < x.significand := lt_of_lt_of_le (by decide) hx.le_significand
  have hcoefficient : 0 < d.coefficient := Nat.pos_of_ne_zero fun h => hd (h ▸ dvd_zero 10)
  have hquarter := x.quarter_pos
  obtain ⟨hsmall, hgreat⟩ := topPower_spec hx hfinite
  have hlow : x.topPower - 24 < d.exponent := by
    by_contra hle
    have hpow : (10 : ℚ) ^ d.exponent ≤ 10 ^ (x.topPower - 23) := zpow_le_zpow_right₀ (by norm_num) (by omega)
    linarith
  have hhigh : d.exponent ≤ x.topPower := by
    by_contra hlt
    have hpow : (10 : ℚ) ^ (x.topPower + 1) ≤ 10 ^ d.exponent := zpow_le_zpow_right₀ (by norm_num) (by omega)
    have hvalue : (10 : ℚ) ^ d.exponent ≤ d.value :=
      le_mul_of_one_le_left (by positivity) (by exact_mod_cast hcoefficient)
    have hupper := hnear.2.1
    have hsignificand : (x.significand : ℚ) ≤ 2 ^ 53 - 1 := by
      have hle : x.significand + 1 ≤ 2 ^ 53 := hx.significand_lt
      have hcast : (x.significand + 1 : ℚ) ≤ 2 ^ 53 := by exact_mod_cast hle
      linarith
    have htwo : (2 : ℚ) ^ (x.exponent + 53) = 2 ^ 55 * x.quarter := by
      rw [quarter, show x.exponent + 53 = 55 + (x.exponent - 2) by ring, zpow_add₀ two_ne_zero]
      norm_num
    rw [upperQuarters_cast] at hupper
    nlinarith
  obtain ⟨hge, hnear'⟩ : d.exponent ≤ (x.shortest tie).exponent ∧ x.Near (x.shortest tie).value := by
    rw [shortest, if_neg hpos.ne']
    exact search_spec hpos hnear (by omega) hhigh
  generalize x.shortest tie = d' at hge hnear'
  obtain ⟨c, t⟩ := d
  obtain ⟨c', t'⟩ := d'
  obtain ⟨j, rfl⟩ := Int.le.dest hge
  -- Two multiples of one power of ten that is greater than the interval are the same.
  have hmultiple : c' * 10 ^ j = c := by
    have hvalue : Decimal.value ⟨c', t + j⟩ = (c' * 10 ^ j : ℕ) * (10 : ℚ) ^ t := by
      unfold Decimal.value
      rw [zpow_add₀ (by norm_num), zpow_natCast]
      push_cast
      ring
    rw [hvalue] at hnear'
    exact multiple_unique hnear' hnear hfew
  cases j with
  | zero =>
    rw [pow_zero, mul_one] at hmultiple
    rw [hmultiple, Nat.cast_zero, add_zero]
  | succ j => exact absurd (hmultiple ▸ Dvd.intro_left (c' * 10 ^ j) (by ring)) hd

end Binary64

end ProbeSuite
