import ProbeSuite.Duration.Units
import ProbeSuite.Proofs.Json.Number
import ProbeSuite.Proofs.Text.Fields

/-!
# Durations in words of time

* `TimeUnit.worth_split` : the counts of the units, and what is left over, come to the whole;
* `TimeUnit.greedy_split` : each unit is counted as often as it fits;
* `Duration.readUnits?` : a reader for these texts, and `readUnits?_unitsText`, what it makes of them;
* `Duration.unitsText_is_exact` : the text shows the whole microseconds, all of them and nothing else.
-/

namespace ProbeSuite

namespace TimeUnit

variable {us : List TimeUnit} {u : TimeUnit} {n : Nat}

/-! ## Counts -/

/-- The microseconds that counts of units come to. -/
def worth (parts : List (Nat × TimeUnit)) : Nat := (parts.map fun p => p.2.micros * p.1).sum

theorem worth_nil : worth [] = 0 := rfl

theorem worth_cons (p : Nat × TimeUnit) (parts : List (Nat × TimeUnit)) :
    worth (p :: parts) = p.2.micros * p.1 + worth parts := by
  unfold worth
  rw [List.map_cons, List.sum_cons]

/-- Nothing is lost: the counts, and what is less than the last unit, come to the whole. -/
theorem worth_split (us : List TimeUnit) (n : Nat) : worth (split us n) + us.foldl (fun n u => n % u.micros) n = n := by
  induction us generalizing n with
  | nil => exact Nat.zero_add n
  | cons u us ih => rw [split, worth_cons, List.foldl_cons, Nat.add_assoc, ih, Nat.div_add_mod]

theorem worth_split_all (n : Nat) : worth (split all n) = n := by
  have hleft : all.foldl (fun n u => n % u.micros) n = 0 := Nat.mod_one _
  have hworth := worth_split all n
  rwa [hleft, Nat.add_zero] at hworth

theorem worth_filter (parts : List (Nat × TimeUnit)) : worth (parts.filter (·.1 ≠ 0)) = worth parts := by
  induction parts with
  | nil => rfl
  | cons p parts ih =>
    by_cases hp : p.1 = 0
    · rw [List.filter_cons_of_neg (by simpa using hp), ih, worth_cons, hp, Nat.mul_zero, Nat.zero_add]
    · rw [List.filter_cons_of_pos (by simpa using hp), worth_cons, worth_cons, ih]

/-- What stands after the count of a unit comes to less than one of it. -/
def Greedy : List (Nat × TimeUnit) → Prop
  | [] => True
  | p :: parts => worth parts < p.2.micros ∧ Greedy parts

/-- Each unit is counted as often as it fits. -/
theorem greedy_split (us : List TimeUnit) (h : ∀ u ∈ us, 0 < u.micros) (n : Nat) : Greedy (split us n) := by
  induction us generalizing n with
  | nil => trivial
  | cons u us ih =>
    have hrest := worth_split us (n % u.micros)
    refine ⟨?_, ih (fun v hv => h v (List.mem_cons_of_mem u hv)) (n % u.micros)⟩
    calc worth (split us (n % u.micros)) ≤ n % u.micros := by omega
      _ < u.micros := Nat.mod_lt n (h u List.mem_cons_self)

theorem mem_of_mem_split {p : Nat × TimeUnit} (h : p ∈ split us n) : p.2 ∈ us := by
  induction us generalizing n with
  | nil => exact absurd h List.not_mem_nil
  | cons u us ih =>
    rcases List.mem_cons.1 h with rfl | h
    · exact List.mem_cons_self
    · exact List.mem_cons_of_mem u (ih h)

/-! ## Words -/

/-- The microseconds that a count and the name of a unit stand for. -/
def readPart? (word : List Char) : Option Nat :=
  let digits := word.takeWhile Char.isDigit
  let name := word.dropWhile Char.isDigit
  if digits = [] then none
  else
    (all.find? fun u => name = u.one.toList ∨ name = u.many.toList).map fun u =>
      u.micros * Nat.ofDigitChars 10 digits 0

theorem toList_part (n : Nat) (u : TimeUnit) :
    (part n u).toList = Nat.toDigits 10 n ++ (if n = 1 then u.one else u.many).toList := by
  rw [part, String.toList_append, Nat.toString_eq_ofList_toDigits, String.toList_ofList]

/-- The names of the units start with no digit, have no space, and tell the units apart. -/
theorem names_all : ∀ u ∈ all, ∀ name ∈ [u.one, u.many],
    name.toList.takeWhile Char.isDigit = [] ∧ name.toList.dropWhile Char.isDigit = name.toList ∧ ' ' ∉ name.toList ∧
      (all.find? fun v => name.toList = v.one.toList ∨ name.toList = v.many.toList).map micros = some u.micros := by
  decide

theorem name_mem (n : Nat) (u : TimeUnit) : (if n = 1 then u.one else u.many) ∈ [u.one, u.many] := by
  split
  · exact List.mem_cons_self
  · exact List.mem_cons_of_mem _ List.mem_cons_self

theorem readPart?_part (hu : u ∈ all) (n : Nat) : readPart? (part n u).toList = some (u.micros * n) := by
  obtain ⟨htake, hdrop, -, hfind⟩ := names_all u hu _ (name_mem n u)
  have hdigits : ∀ c ∈ Nat.toDigits 10 n, c.isDigit = true := fun c => Json.isDigit_toDigits
  obtain ⟨v, hv, hmicros⟩ := Option.map_eq_some_iff.1 hfind
  unfold readPart?
  dsimp only
  rw [toList_part, List.takeWhile_append_of_pos hdigits, List.dropWhile_append_of_pos hdigits, htake, hdrop,
    List.append_nil, if_neg Nat.toDigits_ne_nil, hv, Option.map_some, hmicros, Nat.ofDigitChars_ten_toDigits]

theorem space_notMem_part (hu : u ∈ all) (n : Nat) : ' ' ∉ (part n u).toList := by
  obtain ⟨-, -, hname, -⟩ := names_all u hu _ (name_mem n u)
  have hdigits : ' ' ∉ Nat.toDigits 10 n := fun h => Bool.false_ne_true (Json.isDigit_toDigits h)
  rw [toList_part, List.mem_append]
  exact not_or_intro hdigits hname

theorem mapM_readPart? {parts : List (Nat × TimeUnit)} (h : ∀ p ∈ parts, p.2 ∈ all) :
    (parts.map fun p => (part p.1 p.2).toList).mapM readPart? = some (parts.map fun p => p.2.micros * p.1) := by
  induction parts with
  | nil => rfl
  | cons p parts ih =>
    rw [List.map_cons, List.mapM_cons, readPart?_part (h p List.mem_cons_self),
      ih fun q hq => h q (List.mem_cons_of_mem p hq)]
    rfl

end TimeUnit

namespace Duration

open TimeUnit

variable {d e : Duration}

/-- The microseconds that a text of counts and units, with single spaces between them, stands for. -/
def readUnits? (text : String) : Option Nat := ((text.toList.splitOn ' ').mapM readPart?).map List.sum

theorem readUnits?_parts {parts : List (Nat × TimeUnit)} (h : ∀ p ∈ parts, p.2 ∈ all) (hne : parts ≠ []) :
    readUnits? (" ".intercalate (parts.map fun p => part p.1 p.2)) = some (worth parts) := by
  have hwords : ((" ".intercalate (parts.map fun p => part p.1 p.2)).toList).splitOn ' ' =
      parts.map fun p => (part p.1 p.2).toList := by
    rw [String.toList_intercalate, List.map_map]
    apply List.splitOn_intercalate
    · intro word hword
      obtain ⟨p, hp, rfl⟩ := List.mem_map.1 hword
      exact space_notMem_part (h p hp) p.1
    · simpa using hne
  rw [readUnits?, hwords, mapM_readPart? h]
  rfl

/-- The parts that a text shows. -/
def shown (m : Nat) : List (Nat × TimeUnit) := (split all m).filter (·.1 ≠ 0)

theorem worth_shown (m : Nat) : worth (shown m) = m := by
  rw [shown, worth_filter, worth_split_all]

theorem shown_ne_nil {m : Nat} (h : m ≠ 0) : shown m ≠ [] := by
  intro hnil
  have hworth := worth_shown m
  rw [hnil] at hworth
  exact h hworth.symm

theorem unitsText_eq (h : d.wordMicros ≠ 0) :
    d.unitsText = " ".intercalate ((shown d.wordMicros).map fun p => part p.1 p.2) := by
  unfold unitsText
  exact if_neg h

/-- A part and its text, with the plural of its name above one. -/
theorem shown_text (parts : List (Nat × TimeUnit)) :
    ((parts.filter (·.1 ≠ 0)).map fun p => part p.1 p.2) =
      (((parts.map fun p => (p.1, p.2.one, p.2.many)).filter fun (n, _, _) => n ≠ 0).map
        fun (n, one, many) => toString n ++ if 1 < n then many else one) := by
  rw [List.filter_map, List.map_map]
  apply List.map_congr_left
  intro p hp
  have hpos : p.1 ≠ 0 := of_decide_eq_true (List.mem_filter.1 hp).2
  unfold part
  dsimp only [Function.comp_apply]
  by_cases hone : p.1 = 1
  · rw [if_pos hone, if_neg (by omega)]
  · rw [if_neg hone, if_pos (by omega)]

theorem readUnits?_unitsText (d : Duration) : readUnits? d.unitsText = some d.wordMicros := by
  by_cases hzero : d.wordMicros = 0
  · have htext : d.unitsText = "0s" := if_pos hzero
    rw [htext, hzero]
    decide +kernel
  · rw [unitsText_eq hzero, readUnits?_parts _ (shown_ne_nil hzero), worth_shown]
    exact fun p hp => mem_of_mem_split (List.mem_filter.1 hp).1

theorem unitsText_congr (h : e.wordMicros = d.wordMicros) : e.unitsText = d.unitsText := by
  unfold unitsText
  rw [h]

theorem unitsText_inj : e.unitsText = d.unitsText ↔ e.wordMicros = d.wordMicros := by
  refine ⟨fun h => ?_, unitsText_congr⟩
  have hread := readUnits?_unitsText e
  rw [h, readUnits?_unitsText d] at hread
  exact (Option.some.inj hread).symm

theorem unitsText_eq_zero_iff : d.unitsText = "0s" ↔ d.wordMicros = 0 :=
  unitsText_inj (d := zero)

/-- The text of a duration has letters, digits and spaces only. -/
theorem forall_mem_unitsText (d : Duration) : ∀ c ∈ d.unitsText.toList, c.isAlphanum = true ∨ c = ' ' := by
  have hnames : ∀ u ∈ all, ∀ name ∈ [u.one, u.many],
      name.toList.all (fun c => decide (c.isAlphanum = true ∨ c = ' ')) = true := by decide
  by_cases hzero : d.wordMicros = 0
  · have htext : d.unitsText = "0s" := if_pos hzero
    rw [htext]
    exact Text.forall_mem_of_all (by decide)
  · rw [unitsText_eq hzero, String.toList_intercalate, List.map_map]
    refine Text.forall_mem_intercalate (Text.forall_mem_of_all (by decide)) fun word hword => ?_
    obtain ⟨p, hp, rfl⟩ := List.mem_map.1 hword
    have hunit : p.2 ∈ all := mem_of_mem_split (List.mem_filter.1 hp).1
    show ∀ c ∈ (part p.1 p.2).toList, _
    rw [toList_part, List.forall_mem_append]
    exact ⟨fun _ hc => .inl (Text.isAlphanum_toDigits hc),
      Text.forall_mem_of_all (hnames p.2 hunit _ (name_mem p.1 p.2))⟩

/-- **The text of a duration shows its whole microseconds, modulo `2^64`, and nothing else.** It is `0s` for none;
otherwise it lists the counts that are not zero, longest unit first, which come to exactly these microseconds, with
less than a year of months, a month of days, and so on. So the text is read back, and two durations have the same text
exactly if they have the same microseconds. -/
theorem unitsText_is_exact (d : Duration) :
    let m := d.nanos / 1000 % 2 ^ 64
    (d.unitsText = "0s" ↔ m = 0) ∧
    (m ≠ 0 → ∃ years months days h min s ms us : Nat,
      let parts : List (Nat × String × String) := [(years, "year", "years"), (months, "month", "months"),
        (days, "day", "days"), (h, "h", "h"), (min, "m", "m"), (s, "s", "s"), (ms, "ms", "ms"), (us, "us", "us")]
      d.unitsText = " ".intercalate ((parts.filter fun (n, _, _) => n ≠ 0).map
        fun (n, one, many) => toString n ++ if 1 < n then many else one) ∧
      1000000 * (31557600 * years + 2630016 * months + 86400 * days + 3600 * h + 60 * min + s) + 1000 * ms + us = m ∧
      months ≤ 11 ∧ days ≤ 30 ∧ h < 24 ∧ min < 60 ∧ s < 60 ∧ ms < 1000 ∧ us < 1000) ∧
    readUnits? d.unitsText = some m ∧
    ∀ e : Duration, e.unitsText = d.unitsText ↔ e.nanos / 1000 % 2 ^ 64 = m := by
  intro m
  refine ⟨unitsText_eq_zero_iff, fun hm => ?_, readUnits?_unitsText d, fun e => unitsText_inj⟩
  obtain ⟨years, months, days, h, min, s, ms, us, hsplit⟩ :
      ∃ years months days h min s ms us, split all m = [years, months, days, h, min, s, ms, us].zip all :=
    ⟨_, _, _, _, _, _, _, _, rfl⟩
  have hworth := worth_split_all m
  have hgreedy := greedy_split all (by decide) m
  rw [hsplit] at hworth hgreedy
  refine ⟨years, months, days, h, min, s, ms, us, ?_, ?_⟩
  · rw [unitsText_eq hm, shown, shown_text, show split all d.wordMicros = _ from hsplit]
    rfl
  · simp only [all, List.zip_cons_cons, List.zip_nil_right, Greedy, worth_cons, worth_nil] at hworth hgreedy
    omega

/-- One microsecond less than two years, and what a word of microseconds does not hold. -/
theorem unitsText_is_exact_wrap :
    let m := 2 * 31557600000000 - 1
    let d : Duration := ⟨(2 ^ 64 + m) * 1000 + 999, by decide⟩
    let text := "1year 11months 30days 9h 50m 23s 999ms 999us"
    d.unitsText = text ∧ readUnits? text = some m ∧ d.unitsText ≠ "0s" ∧ ∃ years months days h min s ms us : Nat,
      1000000 * (31557600 * years + 2630016 * months + 86400 * days + 3600 * h + 60 * min + s) + 1000 * ms + us = m ∧
      months ≤ 11 ∧ days ≤ 30 ∧ h < 24 ∧ min < 60 ∧ s < 60 ∧ ms < 1000 ∧ us < 1000 := by
  intro m d text
  obtain ⟨hzero, hparts, hread, hsame⟩ := unitsText_is_exact d
  have hm : d.nanos / 1000 % 2 ^ 64 = m := by decide +kernel
  have hpos : m ≠ 0 := by decide +kernel
  rw [hm] at hzero hparts hread hsame
  have hword : m * 1000 / 1000 % 2 ^ 64 = m := by decide +kernel
  have htext : d.unitsText = text := ((hsame ⟨m * 1000, by decide +kernel⟩).2 hword).symm.trans (by decide +kernel)
  obtain ⟨years, months, days, h, min, s, ms, us, -, hcounts⟩ := hparts hpos
  rw [htext] at hread
  exact ⟨htext, hread, fun h => hpos (hzero.1 h), years, months, days, h, min, s, ms, us, hcounts⟩

end Duration

end ProbeSuite
