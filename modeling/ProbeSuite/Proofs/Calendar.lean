import ProbeSuite.Calendar

/-!
# Days and dates

* `yearOf_spec` : the year of a day starts no later than the day, and the next one later;
* `monthDay_spec` : the month and the day of a day of the year;
* `toDays_ofDays`, `isValid_ofDays` : every day has a date, which the calendar has and which leads back to it.
-/

namespace ProbeSuite.Date

/-! ## Years -/

theorem daysBeforeYear_eq (year : Int) :
    daysBeforeYear year = 365 * (year - 1) + (year - 1) / 4 - (year - 1) / 100 + (year - 1) / 400 := rfl

/-- The year that holds a day. -/
theorem yearOf_spec (n : Int) : daysBeforeYear (yearOf n) ≤ n ∧ n < daysBeforeYear (yearOf n + 1) := by
  unfold yearOf
  generalize hy : 400 * n / 146097 + 1 = y
  simp only
  split
  · simp only [daysBeforeYear_eq] at *
    constructor <;> omega
  · split
    · simp only [daysBeforeYear_eq] at *
      constructor <;> omega
    · constructor <;> omega

theorem sum_monthLengths (year : Int) :
    ((monthLengths year).sum : Int) = daysBeforeYear (year + 1) - daysBeforeYear year := by
  have hsum : (monthLengths year).sum = if isLeap year then 366 else 365 := by
    unfold monthLengths
    split <;> rfl
  have hleap : isLeap year = true ↔ year % 4 = 0 ∧ (year % 100 ≠ 0 ∨ year % 400 = 0) := by
    simp [isLeap]
  rw [hsum, daysBeforeYear_eq, daysBeforeYear_eq]
  split
  · next h =>
    have := hleap.1 h
    omega
  · next h =>
    have := mt hleap.2 h
    omega

theorem length_monthLengths (year : Int) : (monthLengths year).length = 12 := rfl

/-- No month is longer than 31 days. -/
theorem le_of_mem_monthLengths {year : Int} {l : Nat} (h : l ∈ monthLengths year) : l ≤ 31 := by
  simp only [monthLengths, List.mem_cons, List.not_mem_nil, or_false] at h
  split at h <;> omega

/-! ## Months -/

/-- The month with number `m` holds day `n` as its day `d`, if `lengths` are those of the months from
`month` on. -/
theorem monthDay_spec {lengths : List Nat} {month n m d : Nat} (h : monthDay lengths month n = (m, d))
    (hn : n < lengths.sum) :
    ∃ k l, m = month + k ∧ lengths[k]? = some l ∧ (lengths.take k).sum + d = n + 1 ∧ 1 ≤ d ∧ d ≤ l := by
  induction lengths generalizing month n with
  | nil => simp at hn
  | cons l ls ih =>
    simp only [monthDay] at h
    split at h
    · next hlt =>
      obtain ⟨rfl, rfl⟩ := Prod.mk.inj h
      exact ⟨0, l, rfl, rfl, by simp, by omega, by omega⟩
    · next hge =>
      simp only [List.sum_cons] at hn
      obtain ⟨k, l', hm, hl, hsum, hd⟩ := ih h (by omega)
      refine ⟨k + 1, l', by omega, by simpa using hl, ?_, hd⟩
      simp only [List.take_succ_cons, List.sum_cons]
      omega

/-! ## Dates -/

/-- The parts of the date of a day. -/
theorem ofDays_spec (days : Int) : ∃ k l, (ofDays days).month = k + 1 ∧
    (monthLengths (ofDays days).year)[k]? = some l ∧
    (((monthLengths (ofDays days).year).take k).sum + (ofDays days).day : Int) =
      days + epochOffset - daysBeforeYear (ofDays days).year + 1 ∧
    1 ≤ (ofDays days).day ∧ (ofDays days).day ≤ l := by
  have hyear : (ofDays days).year = yearOf (days + epochOffset) := rfl
  obtain ⟨hle, hlt⟩ := yearOf_spec (days + epochOffset)
  have hsum := sum_monthLengths (yearOf (days + epochOffset))
  have hmonth : monthDay (monthLengths (yearOf (days + epochOffset))) 1
      (days + epochOffset - daysBeforeYear (yearOf (days + epochOffset))).toNat =
      ((ofDays days).month, (ofDays days).day) := rfl
  obtain ⟨k, l, hm, hl, hd, hpos, hday⟩ := monthDay_spec hmonth (by omega)
  refine ⟨k, l, by omega, by rw [hyear]; exact hl, ?_, hpos, hday⟩
  rw [hyear]
  omega

/-- **The date of a day leads back to the day.** -/
theorem toDays_ofDays (days : Int) : (ofDays days).toDays = days := by
  obtain ⟨k, l, hm, -, hsum, -⟩ := ofDays_spec days
  unfold toDays
  rw [hm, Nat.add_sub_cancel]
  omega

/-- The calendar has the date of every day. -/
theorem isValid_ofDays (days : Int) : (ofDays days).isValid = true := by
  obtain ⟨k, l, hm, hl, -, hpos, hle⟩ := ofDays_spec days
  unfold isValid
  rw [hm, Nat.add_sub_cancel, hl]
  simp [hpos, hle]

theorem month_ofDays (days : Int) : 1 ≤ (ofDays days).month ∧ (ofDays days).month ≤ 12 := by
  obtain ⟨k, l, hm, hl, -⟩ := ofDays_spec days
  obtain ⟨hk, -⟩ := List.getElem?_eq_some_iff.1 hl
  rw [length_monthLengths] at hk
  omega

theorem day_ofDays (days : Int) : 1 ≤ (ofDays days).day ∧ (ofDays days).day ≤ 31 := by
  obtain ⟨k, l, -, hl, -, hpos, hle⟩ := ofDays_spec days
  have := le_of_mem_monthLengths (List.mem_of_getElem? hl)
  omega

end ProbeSuite.Date
