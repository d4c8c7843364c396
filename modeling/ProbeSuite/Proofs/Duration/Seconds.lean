import Mathlib.Data.Nat.Factorization.Basic
import ProbeSuite.Duration.Seconds
import ProbeSuite.Proofs.Binary64.Positional
import ProbeSuite.Proofs.Binary64.Shortest

/-!
# Seconds as they are printed

* `Duration.inSeconds` : the seconds of a duration, as a rational number;
* `Duration.near_seconds` : below a second the printed number is the nearest to it, and up to `2 ^ 22` seconds it is
  the nearest to one that is off by `2 ^ (-54)` at most;
* `Duration.shortest_error` : the shortest decimal is off by less than half a nanosecond;
* `Duration.shortest_of_lt` : below a second it is the duration itself;
* `Duration.secondsText_inj` : up to `2 ^ 22` seconds, no two durations have the same text.
-/

namespace ProbeSuite

/-- The number itself. -/
def Plain.value (p : Plain) : ℚ := p.digits / 10 ^ p.fraction.length

/-- A decimal is written with its value; below one with a zero before the point, and with the last of its digits at
the end. -/
theorem Decimal.exists_plain_value (d : Decimal) : ∃ p : Plain, d.positional = p.text ∧ p.value = d.value ∧
    (¬10 ∣ d.coefficient → d.value < 1 → p.whole = ['0'] ∧ p.fraction.getLast? ≠ some '0') := by
  obtain ⟨p, htext, hdigits, hlength, hwhole⟩ := d.exists_plain
  have hvalue : d.value = (p.digits : ℚ) / 10 ^ (-d.exponent).toNat := by
    rw [hdigits, Decimal.value, zpow_eq_div]
    push_cast
    ring
  refine ⟨p, htext, by rw [Plain.value, hlength, hvalue], fun hd hlt => ?_⟩
  have hpos : 0 < d.coefficient := Nat.pos_of_ne_zero fun h => hd (h ▸ dvd_zero 10)
  rw [hvalue, div_lt_one (by positivity), hdigits] at hlt
  norm_cast at hlt
  have hsmall : d.coefficient < 10 ^ (-d.exponent).toNat :=
    (Nat.le_mul_of_pos_right _ (Nat.pow_pos (by decide))).trans_lt hlt
  have hplaces : (-d.exponent).toNat ≠ 0 := by
    intro h
    rw [h, Nat.pow_zero] at hsmall
    omega
  refine ⟨hwhole hplaces hsmall, fun hlast => hd ?_⟩
  have hten := Plain.ten_dvd_digits hlast
  rwa [hdigits, show d.exponent.toNat = 0 by omega, Nat.pow_zero, Nat.mul_one] at hten

/-- Nanoseconds are far from the least normal number. -/
theorem Binary64.RoundsTo.normal_of_le {q : ℚ} {x : Binary64} (h : RoundsTo q x) (hq : 1 / nanosPerSec ≤ q) :
    x.Normal := by
  refine h.normal (le_trans ?_ hq)
  have hpow : (2 : ℚ) ^ (leastExponent + 52) ≤ 2 ^ (-30 : ℤ) := zpow_le_zpow_right₀ one_le_two (by decide)
  exact hpow.trans (by norm_num)

namespace Duration

open Binary64

variable {d : Duration}

/-- The seconds, exactly. -/
def inSeconds (d : Duration) : ℚ := d.nanos / nanosPerSec

theorem inSeconds_eq (d : Duration) : d.inSeconds = d.secs + d.subsecNanos / nanosPerSec := by
  have hnanos : (d.nanos : ℚ) = nanosPerSec * d.secs + d.subsecNanos := by
    exact_mod_cast (Nat.div_add_mod d.nanos nanosPerSec).symm
  rw [inSeconds, hnanos]
  field_simp

/-- What is left of a second, in seconds and rounded. -/
def fraction (d : Duration) : Binary64 := (ofNat d.subsecNanos).div (ofNat nanosPerSec)

theorem subsecNanos_cast_le (d : Duration) : (d.subsecNanos : ℚ) ≤ nanosPerSec - 1 := by
  have hle : d.subsecNanos + 1 ≤ nanosPerSec := d.subsecNanos_lt
  have hcast : (d.subsecNanos + 1 : ℚ) ≤ nanosPerSec := by exact_mod_cast hle
  linarith

theorem fraction_rounds (h : 0 < d.subsecNanos) :
    RoundsTo (d.subsecNanos / nanosPerSec) d.fraction ∧ d.fraction.Normal ∧ d.fraction.exponent ≤ -53 := by
  have hvalue : (ofNat d.subsecNanos).value = d.subsecNanos := value_ofNat (d.subsecNanos_lt.trans (by decide))
  have hbillion : (ofNat nanosPerSec).value = nanosPerSec := value_ofNat (by decide)
  have hrounds : RoundsTo ((ofNat d.subsecNanos).value / (ofNat nanosPerSec).value) d.fraction :=
    roundsTo_div (by rw [hvalue]; exact_mod_cast h) (by rw [hbillion]; norm_num)
  rw [hvalue, hbillion] at hrounds
  have hone : (1 : ℚ) ≤ d.subsecNanos := by exact_mod_cast h
  have hnormal : d.fraction.Normal := hrounds.normal_of_le (div_le_div_of_nonneg_right hone (by norm_num))
  refine ⟨hrounds, hnormal, hrounds.near.exponent_le hnormal (k := 0) ?_⟩
  have hlt : (d.subsecNanos / nanosPerSec : ℚ) ≤ (nanosPerSec - 1) / nanosPerSec :=
    div_le_div_of_nonneg_right d.subsecNanos_cast_le (by norm_num)
  exact hlt.trans_lt (by norm_num)

/-- What is left of a second is off by `2 ^ (-54)` at most. -/
theorem fraction_error (d : Duration) : |d.subsecNanos / nanosPerSec - d.fraction.value| ≤ 2 ^ (-54 : ℤ) := by
  rcases Nat.eq_zero_or_pos d.subsecNanos with h | h
  · have hzero : d.fraction = Binary64.zero := by
      rw [fraction, h]
      rfl
    rw [hzero, value_zero, h]
    norm_num
  · obtain ⟨hrounds, -, hexponent⟩ := fraction_rounds h
    exact hrounds.near.error_le hexponent

/-! ## All seconds -/

/-- From a second on, the sum is rounded once more. -/
theorem seconds_rounds (hsecs : 0 < d.secs) (hlt : d.secs < 2 ^ 22) :
    RoundsTo (d.secs + d.fraction.value) d.seconds ∧ d.seconds.Normal ∧ d.seconds.exponent ≤ -31 := by
  have hvalue : (ofNat d.secs).value = d.secs := value_ofNat (hlt.trans (by decide))
  have hone : (1 : ℚ) ≤ d.secs := by exact_mod_cast hsecs
  have hpos := d.fraction.value_nonneg
  have hrounds : RoundsTo ((ofNat d.secs).value + d.fraction.value) d.seconds :=
    roundsTo_add (by rw [hvalue]; linarith)
  rw [hvalue] at hrounds
  have hbillionth : (1 / nanosPerSec : ℚ) ≤ 1 := by norm_num
  have hnormal : d.seconds.Normal := hrounds.normal_of_le (by linarith)
  refine ⟨hrounds, hnormal, hrounds.near.exponent_le hnormal (k := 22) ?_⟩
  have hsecs' : (d.secs : ℚ) ≤ 4194303 := by exact_mod_cast Nat.le_of_lt_succ hlt
  have hfraction : d.fraction.value ≤ (nanosPerSec - 1) / nanosPerSec + 2 ^ (-54 : ℤ) := by
    have hexact : (d.subsecNanos / nanosPerSec : ℚ) ≤ (nanosPerSec - 1) / nanosPerSec :=
      div_le_div_of_nonneg_right d.subsecNanos_cast_le (by norm_num)
    linarith [(abs_le.1 d.fraction_error).1]
  norm_num at hfraction ⊢
  linarith

/-- Below a second it is exact. -/
theorem seconds_eq_fraction (hsecs : d.secs = 0) (hsub : 0 < d.subsecNanos) : d.seconds = d.fraction := by
  obtain ⟨hrounds, hnormal, -⟩ := fraction_rounds hsub
  have hpos : 0 < d.fraction.value := by
    refine lt_of_lt_of_le ?_ hnormal.value_bounds.1
    positivity
  have hzero : (ofNat d.secs).value = 0 := by rw [hsecs]; exact value_zero
  have hsum : RoundsTo ((ofNat d.secs).value + d.fraction.value) d.seconds := roundsTo_add (by rw [hzero]; linarith)
  exact hsum.eq_of_value _ hnormal (by rw [hzero, zero_add])

/-! ## Their shortest decimal -/

theorem seconds_zero (h : d.nanos = 0) : d.seconds = Binary64.zero := by
  rw [seconds, secs, subsecNanos, h]
  decide +kernel

/-- Two numbers near the seconds: the shortest decimal, and one that is next to the duration. -/
theorem near_seconds (hpos : 0 < d.nanos) (hlt : d.secs < 2 ^ 22) : d.seconds.exponent ≤ -31 ∧
    d.seconds.Near (d.seconds.shortest .up).value ∧ ∃ q, d.seconds.Near q ∧ |d.inSeconds - q| ≤ 2 ^ (-54 : ℤ) := by
  have hshortest : d.seconds.Normal → d.seconds.exponent ≤ -31 → d.seconds.Near (d.seconds.shortest .up).value :=
    fun hnormal hexponent => near_shortest hnormal (decide_eq_true (hexponent.trans (by decide)))
  rcases Nat.eq_zero_or_pos d.secs with hsecs | hsecs
  · have hsub : 0 < d.subsecNanos := by
      have hnanos : nanosPerSec * d.secs + d.subsecNanos = d.nanos := Nat.div_add_mod d.nanos nanosPerSec
      rw [hsecs, mul_zero, zero_add] at hnanos
      rwa [hnanos]
    obtain ⟨hrounds, hnormal, hexponent⟩ := fraction_rounds hsub
    have hexponent' : d.fraction.exponent ≤ -31 := hexponent.trans (by decide)
    rw [← seconds_eq_fraction hsecs hsub] at hrounds hnormal hexponent'
    refine ⟨hexponent', hshortest hnormal hexponent', _, hrounds.near, ?_⟩
    rw [inSeconds_eq, hsecs, Nat.cast_zero, zero_add, sub_self, abs_zero]
    positivity
  · obtain ⟨hrounds, hnormal, hexponent⟩ := seconds_rounds hsecs hlt
    refine ⟨hexponent, hshortest hnormal hexponent, _, hrounds.near, ?_⟩
    rw [inSeconds_eq, add_sub_add_left_eq_sub]
    exact d.fraction_error

/-- **The printed number is off by less than half a nanosecond.** -/
theorem shortest_error (hlt : d.secs < 2 ^ 22) : |(d.seconds.shortest .up).value * nanosPerSec - d.nanos| < 1 / 2 := by
  have hbillion : (0 : ℚ) < nanosPerSec := by norm_num
  have hexact : (d.nanos : ℚ) = d.inSeconds * nanosPerSec := by rw [inSeconds, div_mul_cancel₀ _ hbillion.ne']
  have herror : |(d.seconds.shortest .up).value - d.inSeconds| ≤ 2 ^ (-31 : ℤ) + 2 ^ (-54 : ℤ) := by
    rcases Nat.eq_zero_or_pos d.nanos with hzero | hpos
    · have hshortest : (d.seconds.shortest .up) = ⟨0, 0⟩ := by
        rw [seconds_zero hzero]
        exact if_pos rfl
      rw [hshortest, Decimal.value, inSeconds, hzero]
      norm_num
    · obtain ⟨hexponent, hnear, q, hq, herror⟩ := near_seconds hpos hlt
      have hshortest := hnear.error_le hexponent
      have hrounded := hq.error_le hexponent
      calc |(d.seconds.shortest .up).value - d.inSeconds|
          = |((d.seconds.shortest .up).value - d.seconds.value) - (q - d.seconds.value) - (d.inSeconds - q)| := by
            congr 1
            ring
        _ ≤ 2 ^ (-31 - 1 : ℤ) + 2 ^ (-31 - 1 : ℤ) + 2 ^ (-54 : ℤ) :=
            (abs_sub _ _).trans (add_le_add ((abs_sub _ _).trans (add_le_add hshortest hrounded)) herror)
        _ = 2 ^ (-31 : ℤ) + 2 ^ (-54 : ℤ) := by norm_num
  rw [hexact, ← sub_mul, abs_mul, abs_of_pos hbillion]
  refine (mul_le_mul_of_nonneg_right herror hbillion.le).trans_lt ?_
  norm_num

/-- **Below a second the printed number is the duration**, in its fewest digits. -/
theorem shortest_of_lt (hpos : 0 < d.nanos) (hlt : d.nanos < nanosPerSec) :
    ¬10 ∣ (d.seconds.shortest .up).coefficient ∧ (d.seconds.shortest .up).value = d.inSeconds := by
  have hsecs : d.secs = 0 := Nat.div_eq_of_lt hlt
  have hsub : d.subsecNanos = d.nanos := Nat.mod_eq_of_lt hlt
  obtain ⟨j, c, hc, hnanos⟩ := Nat.exists_eq_pow_mul_and_not_dvd hpos.ne' 10 (by decide)
  obtain ⟨hrounds, hnormal, hexponent⟩ := fraction_rounds (hsub ▸ hpos)
  rw [← seconds_eq_fraction hsecs (hsub ▸ hpos)] at hrounds hnormal hexponent
  have hvalue : Decimal.value ⟨c, j - 9⟩ = d.inSeconds := by
    rw [Decimal.value, inSeconds, hnanos, zpow_sub₀ (by norm_num), zpow_natCast]
    push_cast
    ring
  have hnear : d.seconds.Near (Decimal.value ⟨c, j - 9⟩) := by
    rw [hvalue, inSeconds, ← hsub]
    exact hrounds.near
  suffices hfew : 4 * d.seconds.quarter < 10 ^ (j - 9 : ℤ) by
    rw [shortest_eq hnormal (decide_eq_true (hexponent.trans (by decide))) hnear hc hfew]
    exact ⟨hc, hvalue⟩
  -- Nanoseconds are further apart than the numbers that have 53 bits.
  calc 4 * d.seconds.quarter = 2 ^ d.seconds.exponent := by
        rw [quarter, zpow_sub₀ two_ne_zero]
        norm_num
        ring
    _ ≤ 2 ^ (-53 : ℤ) := zpow_le_zpow_right₀ one_le_two hexponent
    _ < 10 ^ (-9 : ℤ) := by norm_num
    _ ≤ 10 ^ (j - 9 : ℤ) := zpow_le_zpow_right₀ (by norm_num) (by omega)

/-! ## Their text -/

/-- The text is a plain number that the duration is the nearest multiple of a nanosecond to. -/
theorem exists_plain_secondsText (hlt : d.secs < 2 ^ 22) :
    ∃ p : Plain, d.secondsText.toList = p.text ∧ |p.value * nanosPerSec - d.nanos| < 1 / 2 := by
  obtain ⟨p, htext, hvalue, -⟩ := (d.seconds.shortest .up).exists_plain_value
  refine ⟨p, ?_, ?_⟩
  · rw [secondsText, String.toList_ofList]
    exact htext
  · rw [hvalue]
    exact shortest_error hlt

/-- Durations with one text are the same. -/
theorem secondsText_inj {e : Duration} (hd : d.secs < 2 ^ 22) (he : e.secs < 2 ^ 22)
    (h : d.secondsText = e.secondsText) : d = e := by
  obtain ⟨p, hp, hpd⟩ := exists_plain_secondsText hd
  obtain ⟨q, hq, hqe⟩ := exists_plain_secondsText he
  obtain ⟨hwhole, hfraction⟩ := Plain.text_inj (hp.symm.trans ((congrArg String.toList h).trans hq))
  have hvalue : p.value = q.value := by
    unfold Plain.value Plain.digits
    rw [hwhole, hfraction]
  rw [hvalue, abs_sub_comm] at hpd
  refine Duration.ext (eq_of_abs_sub_lt_one ?_)
  calc |(d.nanos - e.nanos : ℚ)| ≤ |d.nanos - q.value * nanosPerSec| + |q.value * nanosPerSec - e.nanos| :=
        abs_sub_le _ _ _
    _ < 1 / 2 + 1 / 2 := add_lt_add hpd hqe
    _ = 1 := by norm_num

/-- Below a second the text has a zero before the point, the duration after it, and no zeros at the end. -/
theorem exists_plain_of_lt (hlt : d.nanos < nanosPerSec) : ∃ p : Plain, d.secondsText.toList = p.text ∧
    p.whole = ['0'] ∧ p.value = d.nanos / nanosPerSec ∧ p.fraction.getLast? ≠ some '0' := by
  rw [secondsText, String.toList_ofList, Binary64.text]
  rcases Nat.eq_zero_or_pos d.nanos with hzero | hpos
  · refine ⟨⟨['0'], [], List.cons_ne_nil _ _, List.forall_mem_singleton.2 rfl, List.forall_mem_nil _⟩, ?_, rfl, ?_,
      by simp⟩
    · rw [seconds_zero hzero]
      rfl
    · rw [hzero, Plain.value, Plain.digits]
      simp [Nat.ofDigitChars]
  · obtain ⟨hten, hvalue⟩ := shortest_of_lt hpos hlt
    obtain ⟨p, htext, hp, hlast⟩ := (d.seconds.shortest .up).exists_plain_value
    have hone : d.inSeconds < 1 := by
      rw [inSeconds, div_lt_one (by norm_num)]
      exact_mod_cast hlt
    obtain ⟨hwhole, hfraction⟩ := hlast hten (hvalue ▸ hone)
    exact ⟨p, htext, hwhole, hp.trans hvalue, hfraction⟩

end Duration

end ProbeSuite
