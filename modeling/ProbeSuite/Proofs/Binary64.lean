import Mathlib.Algebra.Order.Field.Power
import Mathlib.Data.Rat.Cast.Order
import Mathlib.Tactic.FieldSimp
import Mathlib.Tactic.Linarith
import Mathlib.Tactic.Positivity
import Mathlib.Tactic.Ring
import ProbeSuite.Binary64.Shortest

/-!
# Rounding

* `IsRounded q m` : the natural number is nearest to the rational one, and even if another is as near;
* `Binary64.value` : the rational number that is represented;
* `Binary64.Near x q` : a rational number lies between the midpoints to the neighbours of `x`;
* `Binary64.near_ofRatio` : a quotient is near the number it is rounded to;
* `Binary64.value_ofRatio_of_eq`, `ofRatio_value` : a quotient that has 53 bits stays what it is;
* `Binary64.RoundsTo` : what both say of an operation, and `roundsTo_add`, `roundsTo_div`;
* `Binary64.Near.error`, `Near.exponent_le` : how far apart the two can be.
-/

namespace ProbeSuite

/-! ## Natural numbers -/

theorem eq_of_abs_sub_lt_one {k l : ℕ} (h : |(k - l : ℚ)| < 1) : k = l := by
  obtain ⟨hlt, hgt⟩ := abs_lt.1 h
  have hkl : (k : ℚ) < l + 1 := by linarith
  have hlk : (l : ℚ) < k + 1 := by linarith
  norm_cast at hkl hlk
  omega

/-- No natural number is nearer to `q`, and `m` is even if another one is as near. -/
def IsRounded (q : ℚ) (m : ℕ) : Prop := |q - m| ≤ 1 / 2 ∧ (|q - m| = 1 / 2 → m % 2 = 0)

theorem isRounded_roundDiv (n : ℕ) {d : ℕ} (hd : 0 < d) : IsRounded (n / d) (roundDiv n d) := by
  have hd' : (0 : ℚ) < d := Nat.cast_pos.2 hd
  have hquotient : (n / d : ℚ) = (n / d : ℕ) + (n % d : ℕ) / d := by
    have hn : (n : ℚ) = d * (n / d : ℕ) + (n % d : ℕ) := by exact_mod_cast (Nat.div_add_mod n d).symm
    rw [hn]
    field_simp
  have hfloor : (0 : ℚ) ≤ (n % d : ℕ) / d := by positivity
  have hceil : ((n % d : ℕ) / d : ℚ) < 1 := (div_lt_one hd').2 (Nat.cast_lt.2 (Nat.mod_lt n hd))
  have hbelow : 2 * (n % d) < d ↔ ((n % d : ℕ) / d : ℚ) < 1 / 2 := by
    rw [div_lt_div_iff₀ hd' two_pos, one_mul, mul_comm]
    norm_cast
  have habove : d < 2 * (n % d) ↔ 1 / 2 < ((n % d : ℕ) / d : ℚ) := by
    rw [div_lt_div_iff₀ two_pos hd', one_mul, mul_comm]
    norm_cast
  unfold IsRounded roundDiv
  simp only [hbelow, habove, hquotient]
  generalize ((n % d : ℕ) / d : ℚ) = f at hfloor hceil ⊢
  generalize n / d = q
  rcases lt_trichotomy f (1 / 2) with hf | rfl | hf
  · rw [if_pos hf, add_sub_cancel_left, abs_of_nonneg hfloor]
    exact ⟨hf.le, fun h => absurd h hf.ne⟩
  · have hdist : |(q : ℚ) + 1 / 2 - (q + q % 2 : ℕ)| = 1 / 2 := by
      rw [Nat.cast_add, add_sub_add_left_eq_sub]
      rcases Nat.mod_two_eq_zero_or_one q with hq | hq
      · rw [hq]
        norm_num
      · rw [hq]
        norm_num
    rw [if_neg (lt_irrefl _), if_neg (lt_irrefl _), hdist]
    exact ⟨le_rfl, fun _ => by omega⟩
  · have hdist : |(q : ℚ) + f - (q + 1 : ℕ)| = 1 - f := by
      rw [Nat.cast_add_one, add_sub_add_left_eq_sub, abs_sub_comm, abs_of_pos (sub_pos.2 hceil)]
    rw [if_neg hf.not_gt, if_pos hf, hdist]
    exact ⟨by linarith, fun h => by linarith⟩

theorem IsRounded.bounds {q : ℚ} {m : ℕ} (h : IsRounded q m) : m - 1 / 2 ≤ q ∧ q ≤ m + 1 / 2 := by
  obtain ⟨hle, hge⟩ := abs_le.1 h.1
  exact ⟨by linarith, by linarith⟩

theorem IsRounded.bounds_of_odd {q : ℚ} {m : ℕ} (h : IsRounded q m) (hm : m % 2 = 1) :
    m - 1 / 2 < q ∧ q < m + 1 / 2 := by
  have hne : |q - m| ≠ 1 / 2 := fun heq => by
    have heven := h.2 heq
    omega
  obtain ⟨hlt, hgt⟩ := abs_lt.1 (lt_of_le_of_ne h.1 hne)
  exact ⟨by linarith, by linarith⟩

/-- A natural number is rounded to itself. -/
theorem IsRounded.eq_of_natCast {k m : ℕ} (h : IsRounded k m) : m = k := by
  refine eq_of_abs_sub_lt_one ?_
  rw [abs_sub_comm]
  exact h.1.trans_lt (by norm_num)

/-- A power with a whole exponent is a quotient of two with natural exponents, one of which is zero. -/
theorem zpow_eq_div {a : ℚ} (e : ℤ) : a ^ e = a ^ e.toNat / a ^ (-e).toNat := by
  rcases le_total 0 e with he | he
  · obtain ⟨n, rfl⟩ := Int.eq_ofNat_of_zero_le he
    simp
  · obtain ⟨n, hn⟩ := Int.eq_ofNat_of_zero_le (Int.neg_nonneg.2 he)
    obtain rfl : e = -n := by omega
    simp

namespace Binary64

/-! ## Numbers -/

/-- The number itself. -/
def value (x : Binary64) : ℚ := x.significand * 2 ^ x.exponent

variable {x y : Binary64} {n d : ℕ} {q : ℚ}

theorem value_nonneg (x : Binary64) : 0 ≤ x.value := by
  unfold value
  positivity

theorem num_div_den (x : Binary64) : (x.num / x.den : ℚ) = x.value := by
  unfold num den value
  rw [zpow_eq_div]
  push_cast
  ring

theorem den_pos (x : Binary64) : 0 < x.den := Nat.two_pow_pos _

/-! ## Quotients -/

theorem isRounded_scaledDiv (n : ℕ) (hd : 0 < d) (e : ℤ) : IsRounded (n / d / 2 ^ e) (scaledDiv n d e) := by
  have hscaled : ((n * 2 ^ (-e).toNat : ℕ) : ℚ) / (d * 2 ^ e.toNat : ℕ) = n / d / 2 ^ e := by
    rw [zpow_eq_div e]
    push_cast
    field_simp
  rw [← hscaled]
  exact isRounded_roundDiv _ (Nat.mul_pos hd (Nat.two_pow_pos _))

theorem log2_bounds (hn : 0 < n) : (2 : ℚ) ^ (n.log2 : ℤ) ≤ n ∧ (n : ℚ) < 2 ^ (n.log2 + 1 : ℤ) := by
  constructor
  · rw [zpow_natCast]
    exact_mod_cast Nat.log2_self_le hn.ne'
  · have hlt := Nat.lt_log2_self (n := n)
    rw [show (n.log2 + 1 : ℤ) = (n.log2 + 1 : ℕ) by push_cast; rfl, zpow_natCast]
    exact_mod_cast hlt

theorem two_zpow_le_div_iff (hd : 0 < d) (e : ℤ) :
    d * 2 ^ e.toNat ≤ n * 2 ^ (-e).toNat ↔ (2 : ℚ) ^ e ≤ n / d := by
  have hd' : (0 : ℚ) < d := Nat.cast_pos.2 hd
  have hpow : (0 : ℚ) < 2 ^ (-e).toNat := by positivity
  rw [zpow_eq_div e, div_le_div_iff₀ hpow hd', mul_comm d]
  norm_cast

/-- At its exponent a quotient has no more than 53 bits before the point, and no less above the least exponent. -/
theorem exponentOf_spec (hn : 0 < n) (hd : 0 < d) :
    leastExponent ≤ exponentOf n d ∧ (n / d : ℚ) < 2 ^ (exponentOf n d + 53) ∧
      (leastExponent < exponentOf n d → (2 : ℚ) ^ (exponentOf n d + 52) ≤ n / d) := by
  obtain ⟨hnlow, hnhigh⟩ := log2_bounds hn
  obtain ⟨hdlow, hdhigh⟩ := log2_bounds hd
  have hd' : (0 : ℚ) < d := Nat.cast_pos.2 hd
  have hlow : (2 : ℚ) ^ (n.log2 - d.log2 - 53 + 52 : ℤ) ≤ n / d := by
    rw [show (n.log2 - d.log2 - 53 + 52 : ℤ) = n.log2 - (d.log2 + 1) by ring, zpow_sub₀ two_ne_zero]
    exact div_le_div₀ (Nat.cast_nonneg n) hnlow hd' hdhigh.le
  have hhigh : (n / d : ℚ) < 2 ^ (n.log2 - d.log2 - 53 + 54 : ℤ) := by
    rw [show (n.log2 - d.log2 - 53 + 54 : ℤ) = n.log2 + 1 - d.log2 by ring, zpow_sub₀ two_ne_zero]
    exact div_lt_div₀ hnhigh hdlow (by positivity) (by positivity)
  unfold exponentOf
  simp only [two_zpow_le_div_iff hd]
  generalize (n.log2 - d.log2 - 53 : ℤ) = e at hlow hhigh ⊢
  generalize (n / d : ℚ) = q at hlow hhigh ⊢
  have hmono : ∀ {i j : ℤ}, i ≤ j → (2 : ℚ) ^ i ≤ 2 ^ j := fun h => zpow_le_zpow_right₀ one_le_two h
  split
  · next htop =>
    refine ⟨le_max_right _ _, hhigh.trans_le (hmono (by omega)), fun h => ?_⟩
    rw [max_eq_left (by omega), show e + 1 + 52 = e + 53 by ring]
    exact htop
  · next htop =>
    refine ⟨le_max_right _ _, (not_le.1 htop).trans_le (hmono (by omega)), fun h => ?_⟩
    rw [max_eq_left (by omega)]
    exact hlow

/-! ## Nearness -/

/-- A quarter of the distance to the neighbour above. -/
def quarter (x : Binary64) : ℚ := 2 ^ (x.exponent - 2)

/-- The number lies between the midpoints to the neighbours, which count when the significand is even. -/
def Near (x : Binary64) (q : ℚ) : Prop :=
  x.lowerQuarters * x.quarter ≤ q ∧ q ≤ x.upperQuarters * x.quarter ∧
    (x.significand % 2 = 1 → x.lowerQuarters * x.quarter < q ∧ q < x.upperQuarters * x.quarter)

theorem quarter_pos (x : Binary64) : 0 < x.quarter := by
  unfold quarter
  positivity

theorem two_mul_quarter (x : Binary64) : 2 * x.quarter = 2 ^ (x.exponent - 1) := by
  rw [quarter, show x.exponent - 1 = 1 + (x.exponent - 2) by ring, zpow_add₀ two_ne_zero, zpow_one]

theorem value_eq_quarters (x : Binary64) : x.value = 4 * x.significand * x.quarter := by
  unfold value quarter
  rw [zpow_sub₀ two_ne_zero]
  ring

theorem upperQuarters_cast (x : Binary64) : (x.upperQuarters : ℚ) = 4 * x.significand + 2 := by
  unfold upperQuarters
  push_cast
  rfl

/-- A number whose significand is rounded is near; a power of two has less room below it. -/
theorem near_of_isRounded {p : ℚ} {m : ℕ} {e : ℤ} (h : IsRounded p m) (hp : 0 ≤ p)
    (hlow : m = 2 ^ 52 → leastExponent < e → 2 ^ 52 - 1 / 4 ≤ p) : Near ⟨m, e⟩ (p * 2 ^ e) := by
  have hu : (0 : ℚ) < 2 ^ e := by positivity
  have hquarter : quarter ⟨m, e⟩ = 2 ^ e / 4 := by
    unfold quarter
    rw [zpow_sub₀ two_ne_zero]
    norm_num
  obtain ⟨hlower, hupper⟩ := h.bounds
  have hfour : (lowerQuarters ⟨m, e⟩ : ℚ) ≤ 4 * p ∧ (m % 2 = 1 → (lowerQuarters ⟨m, e⟩ : ℚ) < 4 * p) := by
    unfold lowerQuarters
    dsimp only
    split
    · next htop =>
      obtain ⟨rfl, he⟩ := htop
      have hp' := hlow rfl he
      norm_num at hp' ⊢
      linarith
    · rcases Nat.eq_zero_or_pos m with rfl | hm
      · exact ⟨by simpa using hp, fun h => by simp at h⟩
      · have hcast : ((4 * m - 2 : ℕ) : ℚ) = 4 * m - 2 := by
          rw [Nat.cast_sub (by omega)]
          push_cast
          rfl
        rw [hcast]
        exact ⟨by linarith, fun hodd => by linarith [(h.bounds_of_odd hodd).1]⟩
  unfold Near
  rw [hquarter, upperQuarters_cast]
  refine ⟨?_, ?_, fun hodd => ⟨?_, ?_⟩⟩
  · nlinarith [hfour.1]
  · nlinarith
  · nlinarith [hfour.2 hodd]
  · nlinarith [(h.bounds_of_odd hodd).2]

/-- What a positive quotient is rounded to: a rounded significand, which is one half where it would have 54 bits. -/
theorem ofRatio_cases (hn : 0 < n) (hd : 0 < d) : ∃ (p : ℚ) (m : ℕ) (e : ℤ), (n / d : ℚ) = p * 2 ^ e ∧
    IsRounded p m ∧ 0 < p ∧ p < 2 ^ 53 ∧ leastExponent ≤ e ∧ (leastExponent < e → 2 ^ 52 ≤ p) ∧
    (m = 2 ^ 53 ∧ ofRatio n d = ⟨2 ^ 52, e + 1⟩ ∨ m < 2 ^ 53 ∧ ofRatio n d = ⟨m, e⟩) := by
  obtain ⟨hleast, hhigh, hlow⟩ := exponentOf_spec hn hd
  have hround := isRounded_scaledDiv n hd (exponentOf n d)
  have hofRatio : ofRatio n d = if scaledDiv n d (exponentOf n d) = 2 ^ 53 then ⟨2 ^ 52, exponentOf n d + 1⟩
      else ⟨scaledDiv n d (exponentOf n d), exponentOf n d⟩ := if_neg hn.ne'
  generalize exponentOf n d = e at *
  generalize scaledDiv n d e = m at *
  have hu : (0 : ℚ) < 2 ^ e := by positivity
  have hp : (n / d / 2 ^ e : ℚ) < 2 ^ 53 := by
    rw [div_lt_iff₀ hu, ← zpow_natCast, ← zpow_add₀ two_ne_zero, add_comm]
    exact hhigh
  have hlow' : leastExponent < e → (2 : ℚ) ^ 52 ≤ n / d / 2 ^ e := by
    intro he
    rw [le_div_iff₀ hu, ← zpow_natCast, ← zpow_add₀ two_ne_zero, add_comm]
    exact hlow he
  have hp0 : (0 : ℚ) < n / d / 2 ^ e := by positivity
  refine ⟨n / d / 2 ^ e, m, e, (div_mul_cancel₀ _ hu.ne').symm, hround, hp0, hp, hleast, hlow', ?_⟩
  rw [hofRatio]
  split
  · next hm => exact .inl ⟨hm, rfl⟩
  · next hm =>
    have hle : (m : ℚ) < (2 ^ 53 + 1 : ℕ) := by
      push_cast
      linarith [hround.bounds.1]
    have hle' := Nat.cast_lt.1 hle
    exact .inr ⟨by omega, rfl⟩

/-- **A quotient lies near the number that it is rounded to.** -/
theorem near_ofRatio (hn : 0 < n) (hd : 0 < d) : (ofRatio n d).Near (n / d) := by
  obtain ⟨p, m, e, hq, hround, hp0, hp, hleast, hlow, ⟨rfl, hofRatio⟩ | ⟨hm, hofRatio⟩⟩ := ofRatio_cases hn hd
  · -- The half of the fraction is rounded to `2 ^ 52`.
    obtain ⟨hlower, -⟩ := hround.bounds
    push_cast at hlower
    rw [hofRatio, hq, show p * 2 ^ e = p / 2 * 2 ^ (e + 1) by rw [zpow_add_one₀ two_ne_zero]; ring]
    have hhalf : IsRounded (p / 2) (2 ^ 52) := by
      refine ⟨?_, fun _ => by norm_num⟩
      push_cast
      rw [abs_le]
      constructor <;> linarith
    exact near_of_isRounded hhalf (by linarith) fun _ _ => by linarith
  · rw [hofRatio, hq]
    exact near_of_isRounded hround hp0.le fun _ he => by linarith [hlow he]

/-! ## Normal numbers -/

/-- The significand has 53 bits. -/
structure Normal (x : Binary64) : Prop where
  le_significand : 2 ^ 52 ≤ x.significand
  significand_lt : x.significand < 2 ^ 53
  le_exponent : leastExponent ≤ x.exponent

theorem Normal.value_bounds (hx : x.Normal) :
    (2 : ℚ) ^ (x.exponent + 52) ≤ x.value ∧ x.value < 2 ^ (x.exponent + 53) := by
  have hu : (0 : ℚ) < 2 ^ x.exponent := by positivity
  have hlow : (2 ^ 52 : ℚ) ≤ x.significand := by exact_mod_cast hx.le_significand
  have hhigh : (x.significand : ℚ) < 2 ^ 53 := by exact_mod_cast hx.significand_lt
  unfold value
  constructor
  · rw [zpow_add₀ two_ne_zero, mul_comm]
    exact mul_le_mul_of_nonneg_right hlow hu.le
  · rw [zpow_add₀ two_ne_zero, mul_comm _ ((2 : ℚ) ^ (53 : ℤ))]
    exact mul_lt_mul_of_pos_right hhigh hu

/-- A number has one significand of 53 bits. -/
theorem Normal.eq_of_value_eq (hx : x.Normal) (hy : y.Normal) (h : x.value = y.value) : x = y := by
  obtain ⟨hxlow, hxhigh⟩ := hx.value_bounds
  obtain ⟨hylow, hyhigh⟩ := hy.value_bounds
  rw [h] at hxlow hxhigh
  have hxy := (zpow_lt_zpow_iff_right₀ (one_lt_two (α := ℚ))).1 (hxlow.trans_lt hyhigh)
  have hyx := (zpow_lt_zpow_iff_right₀ (one_lt_two (α := ℚ))).1 (hylow.trans_lt hxhigh)
  obtain ⟨m, e⟩ := x
  obtain ⟨k, f⟩ := y
  dsimp only at hxy hyx
  obtain rfl : e = f := by omega
  have hu : (2 : ℚ) ^ e ≠ 0 := by positivity
  obtain rfl : m = k := Nat.cast_inj.1 (mul_right_cancel₀ hu h)
  rfl

/-- A quotient of a size that has 53 bits is rounded to a normal number. -/
theorem normal_ofRatio (hn : 0 < n) (hd : 0 < d) (hsize : (2 : ℚ) ^ (leastExponent + 52) ≤ n / d) :
    (ofRatio n d).Normal := by
  obtain ⟨p, m, e, hq, hround, hp0, hp, hleast, hlow, hcases⟩ := ofRatio_cases hn hd
  have hp52 : (2 : ℚ) ^ 52 ≤ p := by
    rcases lt_or_eq_of_le hleast with he | rfl
    · exact hlow he
    · have hu : (0 : ℚ) < 2 ^ leastExponent := by positivity
      rw [hq, zpow_add₀ two_ne_zero, mul_comm] at hsize
      exact le_of_mul_le_mul_right hsize hu
  rcases hcases with ⟨-, hofRatio⟩ | ⟨hm, hofRatio⟩
  · rw [hofRatio]
    exact ⟨le_rfl, by norm_num, by dsimp only; omega⟩
  · have hlt : ((2 ^ 52 : ℕ) : ℚ) < m + 1 := by
      push_cast
      linarith [hround.bounds.2]
    norm_cast at hlt
    rw [hofRatio]
    exact ⟨by dsimp only; omega, hm, hleast⟩

/-- **A quotient with 53 bits is not changed.** -/
theorem value_ofRatio_of_eq (hn : 0 < n) (hd : 0 < d) {k : ℕ} {e : ℤ} (hk : k < 2 ^ 53) (he : leastExponent ≤ e)
    (heq : (n / d : ℚ) = k * 2 ^ e) : (ofRatio n d).value = n / d := by
  obtain ⟨p, m, f, hq, hround, hp0, hp, hleast, hlow, hcases⟩ := ofRatio_cases hn hd
  have hu : (0 : ℚ) < 2 ^ f := by positivity
  have hfe : f ≤ e := by
    rcases lt_or_eq_of_le hleast with hf | rfl
    · have hk' : (k : ℚ) < 2 ^ (53 : ℤ) := by exact_mod_cast hk
      have hlt : (2 : ℚ) ^ (f + 52) < 2 ^ (e + 53) := by
        calc (2 : ℚ) ^ (f + 52) = 2 ^ 52 * 2 ^ f := by rw [zpow_add₀ two_ne_zero, mul_comm]; rfl
          _ ≤ p * 2 ^ f := mul_le_mul_of_nonneg_right (hlow hf) hu.le
          _ = k * 2 ^ e := hq.symm.trans heq
          _ < 2 ^ (53 : ℤ) * 2 ^ e := mul_lt_mul_of_pos_right hk' (by positivity)
          _ = 2 ^ (e + 53) := by rw [zpow_add₀ two_ne_zero, mul_comm]
      have hexp := (zpow_lt_zpow_iff_right₀ (one_lt_two (α := ℚ))).1 hlt
      omega
    · exact he
  -- At the lower of the two exponents the significand is a natural number, which is not rounded.
  obtain ⟨j, rfl⟩ := Int.le.dest hfe
  have hp : p = (k * 2 ^ j : ℕ) := by
    refine mul_right_cancel₀ hu.ne' (hq.symm.trans (heq.trans ?_))
    rw [zpow_add₀ two_ne_zero, zpow_natCast]
    push_cast
    ring
  have hm : (m : ℚ) = p := by
    rw [hp] at hround ⊢
    rw [hround.eq_of_natCast]
  rcases hcases with ⟨rfl, hofRatio⟩ | ⟨-, hofRatio⟩
  · rw [hofRatio, hq, ← hm]
    unfold value
    rw [zpow_add_one₀ two_ne_zero]
    push_cast
    ring
  · rw [hofRatio, hq, ← hm]
    rfl

theorem ofRatio_value (hx : x.Normal) (hn : 0 < n) (hd : 0 < d) (heq : (n / d : ℚ) = x.value) : ofRatio n d = x := by
  have hvalue := value_ofRatio_of_eq hn hd hx.significand_lt hx.le_exponent heq
  refine (normal_ofRatio hn hd ?_).eq_of_value_eq hx (hvalue.trans heq)
  rw [heq]
  refine le_trans (zpow_le_zpow_right₀ one_le_two ?_) hx.value_bounds.1
  have hleast := hx.le_exponent
  omega

/-! ## Operations -/

theorem value_zero : zero.value = 0 := by
  unfold value
  exact zero_mul _

theorem value_ofNat {k : ℕ} (hk : k < 2 ^ 53) : (ofNat k).value = k := by
  rcases Nat.eq_zero_or_pos k with rfl | hpos
  · exact value_zero
  · have heq : (k / (1 : ℕ) : ℚ) = k * 2 ^ (0 : ℤ) := by norm_num
    have hvalue := value_ofRatio_of_eq hpos one_pos hk (by decide) heq
    rw [ofNat, hvalue]
    norm_num

/-- The operation rounds this number, if that is not zero: where it has 53 bits, to one with as many. -/
structure RoundsTo (q : ℚ) (x : Binary64) : Prop where
  near : x.Near q
  normal : (2 : ℚ) ^ (leastExponent + 52) ≤ q → x.Normal
  eq_of_value : ∀ y : Binary64, y.Normal → q = y.value → x = y

theorem roundsTo_ofRatio (hd : 0 < d) (h : (n / d : ℚ) = q) (hq : 0 < q) : RoundsTo q (ofRatio n d) := by
  have hd' : (0 : ℚ) < d := Nat.cast_pos.2 hd
  have hn : 0 < n := by
    rw [← h, div_pos_iff_of_pos_right hd'] at hq
    exact Nat.cast_pos.1 hq
  subst h
  exact ⟨near_ofRatio hn hd, normal_ofRatio hn hd, fun y hy => ofRatio_value hy hn hd⟩

theorem roundsTo_add (h : 0 < x.value + y.value) : RoundsTo (x.value + y.value) (x.add y) := by
  refine roundsTo_ofRatio (Nat.mul_pos x.den_pos y.den_pos) ?_ h
  have hx : (x.den : ℚ) ≠ 0 := Nat.cast_ne_zero.2 x.den_pos.ne'
  have hy : (y.den : ℚ) ≠ 0 := Nat.cast_ne_zero.2 y.den_pos.ne'
  rw [← x.num_div_den, ← y.num_div_den, div_add_div _ _ hx hy]
  push_cast
  ring

theorem roundsTo_div (hx : 0 < x.value) (hy : 0 < y.value) : RoundsTo (x.value / y.value) (x.div y) := by
  have hnum : 0 < y.num := by
    rw [← y.num_div_den, div_pos_iff_of_pos_right (Nat.cast_pos.2 y.den_pos)] at hy
    exact Nat.cast_pos.1 hy
  refine roundsTo_ofRatio (Nat.mul_pos x.den_pos hnum) ?_ (div_pos hx hy)
  rw [← x.num_div_den, ← y.num_div_den, div_div_div_eq]
  push_cast
  rfl

/-! ## Errors -/

theorem le_lowerQuarters (x : Binary64) : 4 * x.significand - 2 ≤ (x.lowerQuarters : ℚ) := by
  have hle : 4 * x.significand ≤ x.lowerQuarters + 2 := by
    unfold lowerQuarters
    split <;> omega
  have hcast : (4 * x.significand : ℚ) ≤ x.lowerQuarters + 2 := by exact_mod_cast hle
  linarith

/-- A number near `x` is off by half the distance to the neighbour above at most. -/
theorem Near.error (h : x.Near q) : |q - x.value| ≤ 2 * x.quarter := by
  obtain ⟨hlow, hhigh, -⟩ := h
  have hquarter := x.quarter_pos
  have hlow' := x.le_lowerQuarters
  rw [upperQuarters_cast] at hhigh
  rw [value_eq_quarters, abs_le]
  constructor <;> nlinarith

theorem Near.error_le (h : x.Near q) {k : ℤ} (hk : x.exponent ≤ k) : |q - x.value| ≤ 2 ^ (k - 1) := by
  refine h.error.trans ?_
  rw [two_mul_quarter]
  exact zpow_le_zpow_right₀ one_le_two (by omega)

/-- What is near a normal number has its exponent, unless it is too close below a power of two. -/
theorem Near.exponent_le (h : x.Near q) (hx : x.Normal) {k : ℤ} (hq : q < 2 ^ k - 2 ^ (k - 53)) :
    x.exponent ≤ k - 53 := by
  by_contra hlt
  have hquarter : (2 : ℚ) ^ (k - 54) ≤ x.quarter := zpow_le_zpow_right₀ one_le_two (by omega)
  have hsignificand : (2 ^ 52 : ℚ) ≤ x.significand := by exact_mod_cast hx.le_significand
  have hlower : (2 ^ 54 - 2 : ℚ) ≤ x.lowerQuarters := by linarith [x.le_lowerQuarters]
  refine hq.not_ge ?_
  calc (2 : ℚ) ^ k - 2 ^ (k - 53) = (2 ^ 54 - 2) * 2 ^ (k - 54) := by
        rw [sub_mul, zpow_sub₀ two_ne_zero, zpow_sub₀ two_ne_zero]
        norm_num
        ring
    _ ≤ x.lowerQuarters * x.quarter := mul_le_mul hlower hquarter (by positivity) (by positivity)
    _ ≤ q := h.1

end Binary64

end ProbeSuite
