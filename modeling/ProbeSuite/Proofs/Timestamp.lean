import Mathlib.Tactic.SplitIfs
import ProbeSuite.Proofs.Calendar
import ProbeSuite.Timestamp.Reader

/-!
# Stored timestamps are read back

* `splitDigits_digits`, `number_padded` : a padded number is read as itself;
* `year_yearText`, `field_padded`, `nanosecond_fractionText` : the parts of a stored timestamp;
* `assemble_parts` : what a clock shows leads back to the point in time, leap seconds included;
* `read_stored` : the whole text;
* `read_shown`, `shown_inj` : the text in a summary shows the timestamp to the second.
-/

namespace ProbeSuite.Timestamp

open Text (padded trimStart)

/-! ## Digits -/

theorem isBlank_of_isDigit {c : Char} (h : c.isDigit = true) : Text.isBlank c = false := by
  simp only [Char.isDigit, Bool.and_eq_true, decide_eq_true_eq, ge_iff_le, UInt32.le_iff_toNat_le] at h
  have h₁ : 48 ≤ c.toNat := h.1
  have h₂ : c.toNat ≤ 57 := h.2
  simp only [Text.isBlank, Bool.or_eq_false_iff, Bool.and_eq_false_iff, decide_eq_false_iff_not]
  omega

theorem trimStart_of_not_blank {c : Char} (h : Text.isBlank c = false) (cs : List Char) :
    trimStart (c :: cs) = c :: cs := by
  simp [trimStart, h]

/-- Whether a text starts with something other than a digit. -/
def NoDigit (rest : List Char) : Prop := ∀ c cs, rest = c :: cs → c.isDigit = false

theorem NoDigit.cons {c : Char} (h : c.isDigit = false) (cs : List Char) : NoDigit (c :: cs) := by
  rintro d ds ⟨rfl, rfl⟩
  exact h

theorem splitDigits_noDigit {rest : List Char} (h : NoDigit rest) (width : Option Nat) :
    splitDigits width rest = ([], rest) := by
  match width, rest with
  | some 0, _ => simp [splitDigits]
  | none, [] => rfl
  | some (_ + 1), [] => rfl
  | none, c :: cs => simp [splitDigits, h c cs rfl]
  | some (_ + 1), c :: cs => simp [splitDigits, h c cs rfl]

/-- A run of digits no longer than the width, before something else. -/
theorem splitDigits_digits {ds rest : List Char} (hds : ∀ c ∈ ds, c.isDigit = true) (hrest : NoDigit rest)
    (width : Option Nat) (hwidth : ∀ w ∈ width, ds.length ≤ w) :
    splitDigits width (ds ++ rest) = (ds, rest) := by
  induction ds generalizing width with
  | nil => exact splitDigits_noDigit hrest width
  | cons c ds ih =>
    have hc := hds c List.mem_cons_self
    have hds' : ∀ d ∈ ds, d.isDigit = true := fun d hd => hds d (List.mem_cons_of_mem _ hd)
    match width with
    | none =>
      have := ih hds' none (by simp)
      simp [splitDigits, hc, this]
    | some 0 => simpa using hwidth 0 rfl
    | some (w + 1) =>
      have hw := hwidth (w + 1) rfl
      simp only [List.length_cons] at hw
      have := ih hds' (some w) (by rintro v ⟨⟩; omega)
      simp [splitDigits, hc, this]

/-! ## Padded numbers -/

theorem isDigit_padded {width n : Nat} {c : Char} (h : c ∈ padded width n) : c.isDigit = true := by
  simp only [padded, List.mem_append, List.mem_replicate] at h
  rcases h with ⟨-, rfl⟩ | h
  · rfl
  · exact Nat.isDigit_of_mem_toDigits (by decide) (by decide) h

theorem padded_ne_nil (width n : Nat) : padded width n ≠ [] := by
  simp [padded]

theorem length_padded (width n : Nat) (hwidth : 0 < width) (hn : n < 10 ^ width) :
    (padded width n).length = width := by
  have := (Nat.length_toDigits_le_iff (n := n) (b := 10) (by decide) hwidth).2 hn
  simp only [padded, List.length_append, List.length_replicate]
  omega

theorem ofDigitChars_padded (width n : Nat) : Nat.ofDigitChars 10 (padded width n) 0 = n := by
  simp [padded, Nat.ofDigitChars_append]

/-- The first character of a padded number. -/
theorem padded_cons (width n : Nat) : ∃ c cs, padded width n = c :: cs ∧ c.isDigit = true := by
  obtain ⟨c, cs, h⟩ := List.exists_cons_of_ne_nil (padded_ne_nil width n)
  exact ⟨c, cs, h, isDigit_padded (h ▸ List.mem_cons_self)⟩

theorem trimStart_padded (width n : Nat) (rest : List Char) :
    trimStart (padded width n ++ rest) = padded width n ++ rest := by
  obtain ⟨c, cs, h, hc⟩ := padded_cons width n
  rw [h]
  exact trimStart_of_not_blank (isBlank_of_isDigit hc) _

theorem number_padded (width n : Nat) {rest : List Char} (hrest : NoDigit rest) (limit : Option Nat)
    (hlimit : ∀ w ∈ limit, (padded width n).length ≤ w) :
    number limit (padded width n ++ rest) = .ok (n, rest) := by
  unfold number
  rw [splitDigits_digits (fun _ => isDigit_padded) hrest limit hlimit]
  obtain ⟨c, cs, h, -⟩ := padded_cons width n
  have hvalue := ofDigitChars_padded width n
  rw [h] at hvalue ⊢
  simp only [hvalue]

theorem field_padded {least most n : Nat} {rest : List Char} (hrest : NoDigit rest) (hleast : least ≤ n)
    (hmost : n ≤ most) (hn : n < 100) : field least most (padded 2 n ++ rest) = .ok (n, rest) := by
  have hlen := length_padded 2 n (by decide) hn
  unfold field
  rw [trimStart_padded, number_padded 2 n hrest (some 2) (by rintro w ⟨⟩; omega)]
  show (if least ≤ n ∧ n ≤ most then _ else _) = _
  rw [if_pos ⟨hleast, hmost⟩]

theorem separator_self {c : Char} (h : Text.isBlank c = false) (rest : List Char) :
    separator c (c :: rest) = .ok rest := by
  simp [separator, trimStart_of_not_blank h]

/-! ## The parts of a stored timestamp -/

theorem signedYear_yearText (y : Int) {rest : List Char} (hrest : NoDigit rest) :
    signedYear (yearText y ++ rest) = .ok (y, rest) := by
  unfold yearText signedYear
  split_ifs with h hneg
  · have hlen := length_padded 4 y.toNat (by decide) (by omega)
    obtain ⟨c, cs, hcs, hc⟩ := padded_cons 4 y.toNat
    have hnumber := number_padded 4 y.toNat hrest (some 4) (by rintro w ⟨⟩; omega)
    rw [trimStart_padded]
    rw [hcs, List.cons_append] at hnumber ⊢
    split
    · next h => cases h; contradiction
    · next h => cases h; contradiction
    · rw [hnumber]
      show Except.ok ((y.toNat : Int), rest) = _
      rw [Int.toNat_of_nonneg h.1]
  · have hnumber := number_padded 4 y.natAbs hrest none (by simp)
    rw [List.cons_append, trimStart_of_not_blank (by decide)]
    simp only [hnumber]
    show Except.ok (-(y.natAbs : Int), rest) = _
    rw [show -(y.natAbs : Int) = y by omega]
  · have hnumber := number_padded 4 y.natAbs hrest none (by simp)
    rw [List.cons_append, trimStart_of_not_blank (by decide)]
    simp only [hnumber]
    show Except.ok ((y.natAbs : Int), rest) = _
    rw [show (y.natAbs : Int) = y by omega]

theorem year_yearText {y : Int} (hy : -2 ^ 31 ≤ y ∧ y < 2 ^ 31) {rest : List Char} (hrest : NoDigit rest) :
    year (yearText y ++ rest) = .ok (y, rest) := by
  unfold year
  rw [signedYear_yearText y hrest]
  exact if_pos hy

/-- A point and digits that all count. -/
theorem nanosecond_padded {width n : Nat} (hwidth : 0 < width ∧ width ≤ 9) (hn : n < 10 ^ width)
    {rest : List Char} (hrest : NoDigit rest) :
    nanosecond ('.' :: (padded width n ++ rest)) = .ok (n * 10 ^ (9 - width), rest) := by
  have hlen := length_padded width n hwidth.1 hn
  have hlimit : ∀ w ∈ some 9, (padded width n).length ≤ w := by
    rintro w ⟨⟩
    omega
  have hdrop : rest.dropWhile Char.isDigit = rest := by
    cases rest with
    | nil => rfl
    | cons c cs => simp [hrest c cs rfl]
  simp only [nanosecond, splitDigits_digits (fun _ => isDigit_padded) hrest (some 9) hlimit,
    number_padded width n hrest (some 9) hlimit, hlen, hdrop]
  rfl

theorem nanosecond_fractionText {n : Nat} (hn : n < 1000000000) {rest : List Char} (hrest : NoDigit rest)
    (hpoint : ∀ cs, rest ≠ '.' :: cs) : nanosecond (fractionText n ++ rest) = .ok (n, rest) := by
  unfold fractionText
  split
  · next h =>
    rw [List.nil_append, h]
    unfold nanosecond
    split
    · exact absurd rfl (hpoint _)
    · rfl
  · split
    · rw [List.cons_append, nanosecond_padded (by decide) (by omega) hrest]
      congr 2
      omega
    · split
      · rw [List.cons_append, nanosecond_padded (by decide) (by omega) hrest]
        congr 2
        omega
      · rw [List.cons_append, nanosecond_padded (by decide) (by omega) hrest]
        congr 2
        omega

/-! ## The clock -/

theorem hour_lt (t : Timestamp) : t.hour < 24 := by
  unfold hour secondOfDay
  omega

theorem minute_lt (t : Timestamp) : t.minute < 60 := by
  unfold minute
  omega

theorem second_le (t : Timestamp) : t.second ≤ 60 := by
  have := t.nanos_lt
  unfold second secondOfDay
  omega

theorem fraction_lt (t : Timestamp) : t.fraction < 1000000000 := Nat.mod_lt _ (by decide)

/-- The year of a timestamp has far less than 31 bits. -/
theorem year_bounds (t : Timestamp) : -2 ^ 31 ≤ t.date.year ∧ t.date.year < 2 ^ 31 := by
  have hrange := t.inRange
  have hyear : t.date.year = Date.yearOf (t.seconds / 86400 + Date.epochOffset) := rfl
  obtain ⟨hle, hlt⟩ := Date.yearOf_spec (t.seconds / 86400 + Date.epochOffset)
  rw [← hyear] at hle hlt
  simp only [Date.daysBeforeYear_eq, Date.epochOffset, firstSecond, lastSecond] at *
  omega

/-- The last second of a minute is shown as 60 when it is a leap second. -/
theorem second_cases (t : Timestamp) :
    t.second ≠ 60 ∧ t.second = t.secondOfDay % 60 ∧ t.fraction = t.nanos ∨
      t.second = 60 ∧ t.secondOfDay % 60 = 59 ∧ t.fraction + 1000000000 = t.nanos := by
  have := t.nanos_lt
  unfold second fraction secondOfDay
  omega

theorem localSeconds_date (t : Timestamp) :
    localSeconds t.date t.hour t.minute (t.secondOfDay % 60) = t.seconds := by
  simp only [localSeconds, date, Date.toDays_ofDays, hour, minute, secondOfDay]
  omega

/-- **What a clock shows leads back to the point in time**, if the clock is not offset. -/
theorem assemble_parts (t : Timestamp) :
    assemble t.date t.hour t.minute t.second t.fraction 0 = .ok t := by
  have hseconds := localSeconds_date t
  have hvalid : t.date.isValid = true := Date.isValid_ofDays _
  have hparts : ofParts? (t.seconds - 0) t.nanos = some t := by
    rw [Int.sub_zero]
    exact dif_pos ⟨t.inRange, t.nanos_lt⟩
  -- a leap second is shown as second 60, and read as second 59 with a second more in its fraction
  have hshown : (if t.second = 60 then (59, t.fraction + 1000000000) else (t.second, t.fraction)) =
      (t.secondOfDay % 60, t.nanos) := by
    rcases second_cases t with ⟨hne, hsecond, hfraction⟩ | ⟨heq, hsecond, hfraction⟩
    · rw [if_neg hne, hsecond, hfraction]
    · rw [if_pos heq, hsecond, hfraction]
  simp only [assemble, hshown, hseconds, hparts]
  refine if_neg ?_
  rintro (h | h | h | h | h)
  · exact h hvalid
  · exact Int.not_lt.2 t.inRange.1 h
  · exact Int.not_lt.2 t.inRange.2 h
  · exact absurd h (by decide)
  · exact absurd h (by decide)

/-! ## The whole text -/

/-- Date and clock are read up to the fraction and the offset, if that is none. -/
theorem read_dateClock (t : Timestamp) {c : Char} (hc : c = 'T' ∨ c = 't' ∨ c = ' ') {n : Nat} {rest rest' : List Char}
    (hrest : NoDigit rest) (hfraction : nanosecond rest = .ok (n, rest')) (hoffset : offset rest' = .ok (0, [])) :
    read (dateText t.date ++ c :: (t.clockText ++ rest)) = assemble t.date t.hour t.minute t.second n 0 := by
  have hmonth : 1 ≤ t.date.month ∧ t.date.month ≤ 12 := Date.month_ofDays _
  have hday : 1 ≤ t.date.day ∧ t.date.day ≤ 31 := Date.day_ofDays _
  have hhour := hour_lt t
  have hminute := minute_lt t
  have hsecond := second_le t
  have hdigit : c.isDigit = false := by rcases hc with rfl | rfl | rfl <;> decide
  have hdash : ∀ cs, NoDigit ('-' :: cs) := NoDigit.cons (by decide)
  have hcolon : ∀ cs, NoDigit (':' :: cs) := NoDigit.cons (by decide)
  simp only [read, dateText, clockText, List.append_assoc, List.cons_append, bind, Except.bind, pure, Except.pure]
  simp only [year_yearText (year_bounds t) (hdash _), separator_self (c := '-') (by decide),
    field_padded (hdash _) hmonth.1 hmonth.2 (by omega),
    field_padded (NoDigit.cons hdigit _) hday.1 hday.2 (by omega), if_pos hc]
  simp only [field_padded (hcolon _) (Nat.zero_le _) (show t.hour ≤ 23 by omega) (by omega),
    field_padded (hcolon _) (Nat.zero_le _) (show t.minute ≤ 59 by omega) (by omega),
    separator_self (c := ':') (by decide), field_padded hrest (Nat.zero_le _) hsecond (by omega)]
  simp only [hfraction, hoffset]
  rfl

/-- **A stored timestamp is read back.** -/
theorem read_stored (t : Timestamp) : read t.stored = .ok t := by
  have hend : NoDigit (fractionText t.fraction ++ ['Z']) := by
    unfold fractionText
    split_ifs <;> exact NoDigit.cons (by decide) _
  have hfraction := nanosecond_fractionText (fraction_lt t) (NoDigit.cons (c := 'Z') (by decide) []) (by simp)
  rw [stored, read_dateClock t (.inl rfl) hend hfraction rfl]
  exact assemble_parts t

/-! ## The text in a summary -/

/-- The timestamp without the fraction of its second; a leap second stays one. -/
def truncated (t : Timestamp) : Timestamp :=
  ⟨t.seconds, t.nanos / 1000000000 * 1000000000, t.inRange, by have := t.nanos_lt; omega⟩

theorem second_truncated (t : Timestamp) : t.truncated.second = t.second := by
  have hwhole : t.truncated.nanos / 1000000000 = t.nanos / 1000000000 := Nat.mul_div_cancel _ (by decide)
  unfold second
  rw [hwhole]
  rfl

/-- **A timestamp in a summary is read back**, to the second. -/
theorem read_shown (t : Timestamp) : read t.shown = .ok t.truncated := by
  have hfraction : t.truncated.fraction = 0 := Nat.mul_mod_left _ _
  have hparts := assemble_parts t.truncated
  rw [hfraction, second_truncated] at hparts
  rw [shown, read_dateClock t (.inr (.inr rfl)) (NoDigit.cons (by decide) _) rfl rfl]
  exact hparts

theorem truncated_eq_iff {t u : Timestamp} :
    t.truncated = u.truncated ↔ t.seconds = u.seconds ∧ t.nanos / 1000000000 = u.nanos / 1000000000 := by
  rw [Timestamp.ext_iff]
  refine and_congr_right fun _ => ?_
  show t.nanos / 1000000000 * 1000000000 = u.nanos / 1000000000 * 1000000000 ↔ _
  exact Nat.mul_left_inj (by decide)

theorem shown_truncated (t : Timestamp) : t.truncated.shown = t.shown := by
  unfold shown clockText
  rw [second_truncated]
  rfl

/-- Summaries show the same time for timestamps of the same second, and for no others. -/
theorem shown_inj {t u : Timestamp} : t.shown = u.shown ↔ t.truncated = u.truncated := by
  constructor
  · intro h
    have hread := read_shown t
    rw [h, read_shown u] at hread
    exact (Except.ok.inj hread).symm
  · intro h
    rw [← shown_truncated t, h, shown_truncated]

theorem mem_yearText {y : Int} {c : Char} (h : c ∈ yearText y) : c.isDigit = true ∨ c = '-' ∨ c = '+' := by
  unfold yearText at h
  split_ifs at h
  · exact .inl (isDigit_padded h)
  · rcases List.mem_cons.1 h with rfl | h
    · exact .inr (.inl rfl)
    · exact .inl (isDigit_padded h)
  · rcases List.mem_cons.1 h with rfl | h
    · exact .inr (.inr rfl)
    · exact .inl (isDigit_padded h)

/-- The text in a summary, up to its last character. -/
def shownFront (t : Timestamp) : List Char := dateText t.date ++ ' ' :: (t.clockText ++ [' ', 'U', 'T'])

theorem shown_eq (t : Timestamp) : t.shown = t.shownFront ++ ['C'] := by
  simp only [shown, shownFront, List.append_assoc, List.cons_append, List.nil_append]

theorem shownFront_inj {t u : Timestamp} : t.shownFront = u.shownFront ↔ t.truncated = u.truncated := by
  rw [← shown_inj, shown_eq, shown_eq, List.append_left_inj]

theorem forall_mem_shownFront (t : Timestamp) :
    ∀ c ∈ t.shownFront, c.isDigit = true ∨ c ∈ ['-', '+', ':', ' ', 'U', 'T'] := by
  have hpadded : ∀ width n, ∀ c ∈ padded width n, c.isDigit = true ∨ c ∈ ['-', '+', ':', ' ', 'U', 'T'] :=
    fun _ _ _ h => .inl (isDigit_padded h)
  have hyear : ∀ c ∈ yearText t.date.year, c.isDigit = true ∨ c ∈ ['-', '+', ':', ' ', 'U', 'T'] := by
    intro c hc
    rcases mem_yearText hc with hdigit | rfl | rfl
    · exact .inl hdigit
    · exact .inr (by decide)
    · exact .inr (by decide)
  simp only [shownFront, dateText, clockText, List.forall_mem_append, List.forall_mem_cons]
  exact ⟨⟨hyear, by decide, hpadded _ _, by decide, hpadded _ _⟩, by decide,
    ⟨hpadded _ _, by decide, hpadded _ _, by decide, hpadded _ _⟩,
    by decide, by decide, by decide, List.forall_mem_nil _⟩

end ProbeSuite.Timestamp
