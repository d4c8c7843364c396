import ProbeSuite.Binary64.Shortest
import ProbeSuite.Proofs.Text.Fields

/-!
# Plain digits

* `Plain` : digits before a point and digits after it, if there are any;
* `Plain.text_inj` : the text shows where the point is;
* `Decimal.exists_plain` : a decimal is written in plain digits.
-/

namespace ProbeSuite

/-- A number in plain digits: those before the point, and those after it. -/
structure Plain where
  whole : List Char
  fraction : List Char
  whole_ne_nil : whole ≠ []
  isDigit_whole : ∀ c ∈ whole, c.isDigit = true
  isDigit_fraction : ∀ c ∈ fraction, c.isDigit = true

namespace Plain

/-- Without digits after it, there is no point. -/
def text (p : Plain) : List Char := if p.fraction = [] then p.whole else p.whole ++ '.' :: p.fraction

/-- The number without its point. -/
def digits (p : Plain) : Nat := Nat.ofDigitChars 10 (p.whole ++ p.fraction) 0

theorem isDigit_or_point (p : Plain) {c : Char} (h : c ∈ p.text) : c.isDigit = true ∨ c = '.' := by
  unfold text at h
  split at h
  · exact .inl (p.isDigit_whole c h)
  · rcases List.mem_append.1 h with h | h
    · exact .inl (p.isDigit_whole c h)
    · rcases List.mem_cons.1 h with h | h
      · exact .inr h
      · exact .inl (p.isDigit_fraction c h)

theorem point_not_mem_whole (p : Plain) : '.' ∉ p.whole := fun h => absurd (p.isDigit_whole _ h) (by decide)

/-- The digits before and after the point are found in the text. -/
theorem text_inj {p q : Plain} (h : p.text = q.text) : p.whole = q.whole ∧ p.fraction = q.fraction := by
  unfold text at h
  have hpoint : ∀ {x y z : List Char}, x = y ++ '.' :: z → '.' ∈ x := by
    rintro x y z rfl
    exact List.mem_append_right y List.mem_cons_self
  split at h
  · next hp =>
    split at h
    · next hq => exact ⟨h, hp.trans hq.symm⟩
    · exact absurd (hpoint h) p.point_not_mem_whole
  · split at h
    · exact absurd (hpoint h.symm) q.point_not_mem_whole
    · exact (Text.append_cons_inj p.point_not_mem_whole q.point_not_mem_whole).1 h

/-- A zero at the end is a factor of ten. -/
theorem ten_dvd_digits {p : Plain} (h : p.fraction.getLast? = some '0') : 10 ∣ p.digits := by
  obtain ⟨ds, hds⟩ := List.getLast?_eq_some_iff.1 h
  rw [digits, hds, ← List.append_assoc, Nat.ofDigitChars_append, Nat.ofDigitChars_cons, Nat.ofDigitChars_nil]
  exact ⟨_, rfl⟩

end Plain

namespace Decimal

/-- **A decimal is written in plain digits**: as many after the point as it takes, and a zero before it where the
others come after it. -/
theorem exists_plain (d : Decimal) : ∃ p : Plain, d.positional = p.text ∧
    p.digits = d.coefficient * 10 ^ d.exponent.toNat ∧ p.fraction.length = (-d.exponent).toNat ∧
    ((-d.exponent).toNat ≠ 0 → d.coefficient < 10 ^ (-d.exponent).toNat → p.whole = ['0']) := by
  have hne : Nat.toDigits 10 d.coefficient ≠ [] := Nat.toDigits_ne_nil
  have hdigits : ∀ c ∈ Nat.toDigits 10 d.coefficient, c.isDigit = true := fun c hc =>
    Nat.isDigit_of_mem_toDigits (by decide) (by decide) hc
  have hvalue : Nat.ofDigitChars 10 (Nat.toDigits 10 d.coefficient) 0 = d.coefficient := Nat.ofDigitChars_ten_toDigits
  have hlength : ∀ n, 0 < n → ((Nat.toDigits 10 d.coefficient).length ≤ n ↔ d.coefficient < 10 ^ n) := fun n hn =>
    Nat.length_toDigits_le_iff (by decide) hn
  have hzeros : ∀ n, ∀ c ∈ List.replicate n '0', c.isDigit = true := fun n c hc => by
    rw [(List.mem_replicate.1 hc).2]
    rfl
  have hexponent : (-d.exponent).toNat ≠ 0 → d.exponent.toNat = 0 := by omega
  unfold positional
  dsimp only
  generalize Nat.toDigits 10 d.coefficient = ds at hne hdigits hvalue hlength ⊢
  generalize (-d.exponent).toNat = places at hlength hexponent ⊢
  split
  · next hplaces =>
    refine ⟨⟨_, [], List.append_ne_nil_of_left_ne_nil hne _, List.forall_mem_append.2 ⟨hdigits, hzeros _⟩,
      List.forall_mem_nil _⟩, (if_pos rfl).symm, ?_, hplaces.symm, fun hne => absurd hplaces hne⟩
    rw [Plain.digits, List.append_nil, Nat.ofDigitChars_append, hvalue, Nat.ofDigitChars_replicate_zero, Nat.mul_comm]
  · next hplaces =>
    rw [hexponent hplaces, Nat.pow_zero, Nat.mul_one]
    split
    · next hlt =>
      have htake : ds.take (ds.length - places) ≠ [] := by
        rw [Ne, List.take_eq_nil_iff]
        exact not_or_intro (by omega) hne
      have hdrop : ds.drop (ds.length - places) ≠ [] := by
        rw [Ne, List.drop_eq_nil_iff]
        omega
      refine ⟨⟨_, _, htake, fun c hc => hdigits c (List.mem_of_mem_take hc),
        fun c hc => hdigits c (List.mem_of_mem_drop hc)⟩, (if_neg hdrop).symm, ?_, ?_, fun _ hsmall => ?_⟩
      · rw [Plain.digits, List.take_append_drop, hvalue]
      · rw [List.length_drop]
        exact Nat.sub_sub_self (Nat.le_of_lt hlt)
      · exact absurd ((hlength places (Nat.pos_of_ne_zero hplaces)).2 hsmall) (Nat.not_le.2 hlt)
    · next hge =>
      refine ⟨⟨['0'], _, List.cons_ne_nil _ _, List.forall_mem_singleton.2 rfl,
        List.forall_mem_append.2 ⟨hzeros (places - ds.length), hdigits⟩⟩,
        (if_neg (List.append_ne_nil_of_right_ne_nil _ hne)).symm, ?_, ?_, fun _ _ => rfl⟩
      · rw [Plain.digits, Nat.ofDigitChars_append, Nat.ofDigitChars_append, Nat.ofDigitChars_replicate_zero]
        exact hvalue
      · rw [List.length_append, List.length_replicate]
        omega

end Decimal

end ProbeSuite
