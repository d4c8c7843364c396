import ProbeSuite.Proofs.Json.Number
import ProbeSuite.Toml.Document

/-!
# Lines of TOML documents

* `value_toDigits` : the digits of an integer that fits 64 bits are read back as it;
* `pair_bare` : a bare key with a value;
* `sectionsFrom_line` : a line with a bare key and its value is one more pair of its section;
* `document_of_pairs` : a document without headers.
-/

namespace ProbeSuite.Toml

variable {rest : List Char}

/-! ## Decimal integers -/

theorem digitValue_of_isDigit {c : Char} (h : c.isDigit = true) : digitValue c = c.toNat - '0'.toNat := by
  have hle : c ≤ '9' := by
    simp only [Char.isDigit, Bool.and_eq_true, decide_eq_true_eq] at h
    exact h.2
  exact if_pos hle

theorem ofDigits_toDigits (n : Nat) : ofDigits 10 (Nat.toDigits 10 n) = n := by
  have hfold : ∀ (ds : List Char) (m : Nat), (∀ c ∈ ds, c.isDigit = true) →
      ds.foldl (fun n c => n * 10 + digitValue c) m = Nat.ofDigitChars 10 ds m := by
    intro ds
    induction ds with
    | nil => exact fun _ _ => rfl
    | cons c ds ih =>
      intro m h
      rw [List.foldl_cons, ih _ fun d hd => h d (List.mem_cons_of_mem c hd), Nat.ofDigitChars_cons,
        digitValue_of_isDigit (h c List.mem_cons_self), Nat.mul_comm]
  rw [ofDigits, hfold _ 0 fun c => Json.isDigit_toDigits, Nat.ofDigitChars_ten_toDigits]

theorem moreDigits_line {ds : List Char} (h : ∀ c ∈ ds, c.isDigit = true) :
    moreDigits Char.isDigit (ds ++ '\n' :: rest) = some (ds, '\n' :: rest) := by
  induction ds with
  | nil => rfl
  | cons c ds ih =>
    have hc := h c List.mem_cons_self
    have htail := ih fun d hd => h d (List.mem_cons_of_mem c hd)
    rw [List.cons_append, moreDigits]
    · rw [if_pos hc, htail]
      rfl
    · rintro rfl
      cases hc
    · rintro d ds' rfl
      cases hc

theorem decimalDigits_line (n : Nat) :
    decimalDigits (Nat.toDigits 10 n ++ '\n' :: rest) = some (Nat.toDigits 10 n, '\n' :: rest) := by
  rcases Nat.eq_zero_or_pos n with rfl | hpos
  · rfl
  · obtain ⟨c, cs, hcs, hc⟩ := Json.head_toDigits_ne_zero hpos
    have hdigits : ∀ d ∈ c :: cs, d.isDigit = true := fun d hd => Json.isDigit_toDigits (hcs ▸ hd)
    rw [hcs, List.cons_append]
    unfold decimalDigits
    split
    · next heq =>
      cases heq
      exact absurd rfl hc
    · rw [digits, if_pos (hdigits c List.mem_cons_self),
        moreDigits_line fun d hd => hdigits d (List.mem_cons_of_mem c hd)]
      rfl

/-- The first mark after digits that end their line is the line end. -/
theorem eq_newline_of_digits {ds : List Char} (front : List Char) {after : List Char} {mark : Char}
    (hds : ∀ c ∈ ds, c.isDigit = true) (hfront : ∀ c ∈ front, c.isDigit = true) (hmark : mark.isDigit = false)
    (h : ds ++ '\n' :: rest = front ++ mark :: after) : mark = '\n' := by
  have hdrop := congrArg (List.dropWhile Char.isDigit) h
  rw [List.dropWhile_append_of_pos hds, List.dropWhile_append_of_pos hfront,
    List.dropWhile_cons_of_neg (by decide), List.dropWhile_cons_of_neg (by simp [hmark])] at hdrop
  exact (List.cons.inj hdrop).1.symm

theorem startsDate_line {ds : List Char} (hds : ∀ c ∈ ds, c.isDigit = true) :
    startsDate (ds ++ '\n' :: rest) = false := by
  unfold startsDate
  split
  · next a b c d after heq =>
    rw [Bool.eq_false_iff]
    intro hdate
    simp only [Bool.and_eq_true] at hdate
    have hmark := eq_newline_of_digits [a, b, c, d] hds (by simp [hdate]) (by decide) heq
    cases hmark
  · rfl

theorem startsTime_line {ds : List Char} (hds : ∀ c ∈ ds, c.isDigit = true) :
    startsTime (ds ++ '\n' :: rest) = false := by
  unfold startsTime
  split
  · next a b after heq =>
    rw [Bool.eq_false_iff]
    intro htime
    simp only [Bool.and_eq_true] at htime
    have hmark := eq_newline_of_digits [a, b] hds (by simp [htime]) (by decide) heq
    cases hmark
  · rfl

theorem not_based_line {ds : List Char} (hds : ∀ c ∈ ds, c.isDigit = true) {letter : Char} {after : List Char}
    (hletter : letter.isDigit = false) (hne : letter ≠ '\n') : ds ++ '\n' :: rest ≠ '0' :: letter :: after :=
  fun h => hne (eq_newline_of_digits ['0'] hds (by simp) hletter h)

theorem sign_digit {c : Char} (hc : c.isDigit = true) (cs : List Char) : sign (c :: cs) = (false, c :: cs) := by
  unfold sign
  split
  · next heq =>
    cases heq
    cases hc
  · next heq =>
    cases heq
    cases hc
  · rfl

theorem special_digit {c : Char} (hc : c.isDigit = true) (minus : Bool) (cs : List Char) :
    special minus (c :: cs) = none := by
  unfold special
  split
  · next heq =>
    cases heq
    cases hc
  · next heq =>
    cases heq
    cases hc
  · rfl

theorem word?_of_lt {n : Nat} (hn : n < 2 ^ 63) : word? (n : Int) = some (n : Int) := by
  unfold word?
  split
  · rfl
  · next h => exact absurd ⟨by omega, by omega⟩ h

/-- The digits of an integer that fits 64 bits, up to a line end. -/
theorem number_toDigits {n : Nat} (hn : n < 2 ^ 63) (rest : List Char) :
    number (Nat.toDigits 10 n ++ '\n' :: rest) = some (.integer n, '\n' :: rest) := by
  have hds : ∀ c ∈ Nat.toDigits 10 n, c.isDigit = true := fun c => Json.isDigit_toDigits
  have hsign : sign (Nat.toDigits 10 n ++ '\n' :: rest) = (false, Nat.toDigits 10 n ++ '\n' :: rest) := by
    obtain ⟨c, cs, hcs⟩ := List.exists_cons_of_ne_nil (Nat.toDigits_ne_nil (n := n) (b := 10))
    rw [hcs]
    exact sign_digit (hds c (hcs ▸ List.mem_cons_self)) _
  have hspecial : special false (Nat.toDigits 10 n ++ '\n' :: rest) = none := by
    obtain ⟨c, cs, hcs⟩ := List.exists_cons_of_ne_nil (Nat.toDigits_ne_nil (n := n) (b := 10))
    rw [hcs]
    exact special_digit (hds c (hcs ▸ List.mem_cons_self)) _ _
  have hinteger : integer (Nat.toDigits 10 n ++ '\n' :: rest) = some (.integer n, '\n' :: rest) := by
    unfold integer
    split
    · next heq => exact absurd heq (not_based_line hds (by decide) (by decide))
    · next heq => exact absurd heq (not_based_line hds (by decide) (by decide))
    · next heq => exact absurd heq (not_based_line hds (by decide) (by decide))
    · rw [decimalInteger, hsign]
      dsimp only
      rw [decimalDigits_line, Option.bind_eq_bind, Option.bind_some]
      dsimp only
      rw [ofDigits_toDigits, if_neg Bool.false_ne_true, word?_of_lt hn]
      rfl
  have hreal : real (Nat.toDigits 10 n ++ '\n' :: rest) = some (.integer n, '\n' :: rest) := by
    rw [real, hsign]
    dsimp only
    have hfraction : fraction ('\n' :: rest) = some ([], '\n' :: rest) := rfl
    have hexponent : exponent ('\n' :: rest) = some (0, '\n' :: rest) := rfl
    rw [decimalDigits_line, hinteger]
    simp only [bind, Option.bind, hfraction, hexponent, if_true]
  unfold number
  rw [startsDate_line hds, startsTime_line hds, hsign, hspecial]
  simp only [Bool.false_eq_true, if_false]
  split
  · next heq => exact absurd heq (not_based_line hds (by decide) (by decide))
  · next heq => exact absurd heq (not_based_line hds (by decide) (by decide))
  · next heq => exact absurd heq (not_based_line hds (by decide) (by decide))
  · exact hreal

theorem valueWithin_scalar {cs after : List Char} {levels : Nat} {s : Scalar} (hlist : ∀ r, cs ≠ '[' :: r)
    (htable : ∀ r, cs ≠ '\x7b' :: r) (h : valueWithin.scalar cs = some (s, after)) :
    valueWithin levels cs = some (.scalar s ⟨cs, after⟩, after) := by
  unfold valueWithin
  split
  · next heq => exact absurd rfl (hlist _)
  · next heq => exact absurd rfl (htable _)
  · rw [h]
    rfl

theorem value_toDigits {n : Nat} (hn : n < 2 ^ 63) :
    value (Nat.toDigits 10 n ++ '\n' :: rest) =
      some (.scalar (.integer n) ⟨Nat.toDigits 10 n ++ '\n' :: rest, '\n' :: rest⟩, '\n' :: rest) := by
  have hnumber := number_toDigits hn rest
  obtain ⟨c, cs, hcs⟩ := List.exists_cons_of_ne_nil (Nat.toDigits_ne_nil (n := n) (b := 10))
  have hc : c.isDigit = true := Json.isDigit_toDigits (hcs ▸ List.mem_cons_self)
  rw [hcs, List.cons_append] at hnumber ⊢
  refine valueWithin_scalar ?_ ?_ ?_
  · rintro r ⟨⟩
    cases hc
  · rintro r ⟨⟩
    cases hc
  · unfold valueWithin.scalar
    split
    · next heq =>
      cases (List.cons.inj heq).1
      cases hc
    · next heq =>
      cases (List.cons.inj heq).1
      cases hc
    · next heq =>
      cases (List.cons.inj heq).1
      cases hc
    · next heq =>
      cases (List.cons.inj heq).1
      cases hc
    · next heq =>
      cases heq
      have hquote : ¬(c = '\x22' ∨ c = '\x27') := by
        rintro (rfl | rfl)
        · cases hc
        · cases hc
      rw [if_neg hquote, hnumber]
    · next heq => cases heq

/-! ## Lines -/

theorem not_isBlank_of_isBare {c : Char} (h : isBare c = true) : isBlank c = false := by
  rw [isBlank, Bool.or_eq_false_iff, decide_eq_false_iff_not, decide_eq_false_iff_not]
  refine ⟨?_, ?_⟩
  · rintro rfl
    cases h
  · rintro rfl
    cases h

theorem skipBlank_cons {c : Char} (h : isBlank c = false) (cs : List Char) : skipBlank (c :: cs) = c :: cs :=
  List.dropWhile_cons_of_neg (by simp [h])

theorem key_bare {name : List Char} (hname : ∀ c ∈ name, isBare c = true) (hne : name ≠ []) (after : List Char) :
    key (name ++ ' ' :: after) = some (⟨name, ⟨name ++ ' ' :: after, ' ' :: after⟩⟩, ' ' :: after) := by
  have htake : (name ++ ' ' :: after).takeWhile isBare = name := by
    rw [List.takeWhile_append_of_pos hname, List.takeWhile_cons_of_neg (by decide), List.append_nil]
  have hdrop : (name ++ ' ' :: after).dropWhile isBare = ' ' :: after := by
    rw [List.dropWhile_append_of_pos hname, List.dropWhile_cons_of_neg (by decide)]
  have hempty : ¬name.isEmpty = true := by simpa using hne
  obtain ⟨c, cs, rfl⟩ := List.exists_cons_of_ne_nil hne
  have hc := hname c List.mem_cons_self
  unfold key
  split
  · next heq =>
    cases (List.cons.inj heq).1
    cases hc
  · next heq =>
    cases (List.cons.inj heq).1
    cases hc
  · rw [htake, hdrop, if_neg hempty]
    rfl

theorem path_bare {name : List Char} (hname : ∀ c ∈ name, isBare c = true) (hne : name ≠ []) (text : List Char) :
    ∃ span, path (name ++ " = ".toList ++ text) = some (([], ⟨name, span⟩), '=' :: ' ' :: text) := by
  obtain ⟨c, cs, rfl⟩ := List.exists_cons_of_ne_nil hne
  have hkey := key_bare hname hne ('=' :: ' ' :: text)
  have hskip : skipBlank (c :: cs ++ " = ".toList ++ text) = c :: cs ++ ' ' :: '=' :: ' ' :: text := by
    rw [List.append_assoc]
    exact skipBlank_cons (not_isBlank_of_isBare (hname c List.mem_cons_self)) _
  refine ⟨⟨c :: cs ++ ' ' :: '=' :: ' ' :: text, ' ' :: '=' :: ' ' :: text⟩, ?_⟩
  rw [path, show c :: cs ++ " = ".toList ++ text = c :: (cs ++ " = ".toList ++ text) from rfl, keysFrom]
  rw [show c :: (cs ++ " = ".toList ++ text) = c :: cs ++ " = ".toList ++ text from rfl, hskip, hkey]
  rfl

/-- A bare key with a value. -/
theorem pair_bare {name text after : List Char} {v : Node} (hname : ∀ c ∈ name, isBare c = true)
    (hne : name ≠ []) (htext : skipBlank text = text) (hvalue : value text = some (v, after)) :
    ∃ span, pair value (name ++ " = ".toList ++ text) = some (([], ⟨name, span⟩, v), skipBlank after) := by
  obtain ⟨span, hpath⟩ := path_bare hname hne text
  have hblank : skipBlank (' ' :: text) = text := htext
  refine ⟨span, ?_⟩
  rw [pair, hpath, Option.bind_eq_bind, Option.bind_some]
  dsimp only [expect]
  rw [if_pos rfl, Option.bind_eq_bind, Option.bind_some, hblank, hvalue]
  rfl

/-- A line with a bare key and its value is one more pair of its section. -/
theorem sectionsFrom_line (name : List Char) {text : List Char} {v : Node} (hname : ∀ c ∈ name, isBare c = true)
    (hne : name ≠ []) (htext : skipBlank text = text) (hvalue : value text = some (v, '\n' :: rest)) (b : Char)
    {bound : List Char} {pairs : List (List Key × Key × Node)} {later : List Section}
    (hrest : sectionsFrom bound rest = some (pairs, later)) :
    ∃ span, sectionsFrom (b :: bound) (name ++ " = ".toList ++ text) =
      some (([], ⟨name, span⟩, v) :: pairs, later) := by
  obtain ⟨span, hpair⟩ := pair_bare hname hne htext hvalue
  have hend : endLine (skipBlank ('\n' :: rest)) = some rest := rfl
  refine ⟨span, ?_⟩
  obtain ⟨c, cs, rfl⟩ := List.exists_cons_of_ne_nil hne
  have hc := hname c List.mem_cons_self
  have hskip : skipBlank (c :: cs ++ " = ".toList ++ text) = c :: (cs ++ " = ".toList ++ text) :=
    skipBlank_cons (not_isBlank_of_isBare hc) _
  -- a bare key starts neither a comment, nor a line end, nor a header
  unfold sectionsFrom
  rw [hskip]
  split
  · next heq => cases heq
  · next heq =>
    cases (List.cons.inj heq).1
    cases hc
  · next heq =>
    cases (List.cons.inj heq).1
    cases hc
  · next heq =>
    cases (List.cons.inj heq).1
    cases hc
  · next heq =>
    cases (List.cons.inj heq).1
    cases hc
  · rw [show c :: (cs ++ " = ".toList ++ text) = c :: cs ++ " = ".toList ++ text from rfl, hpair,
      Option.bind_eq_bind, Option.bind_some]
    dsimp only
    rw [hend, Option.bind_eq_bind, Option.bind_some, hrest]
    rfl

/-- A document without headers has the entries of its pairs. -/
theorem document_of_pairs {c : Char} {cs : List Char} {pairs : List (List Key × Key × Node)} (hmark : c ≠ '\uFEFF')
    (h : sectionsFrom (' ' :: c :: cs) (c :: cs) = some (pairs, [])) :
    document (c :: cs) = Entries.defineAll? pairs [] := by
  have hsections : sections (c :: cs) = some [⟨none, pairs⟩] := by
    unfold sections
    split
    · next heq => exact absurd (List.cons.inj heq).1 hmark
    · dsimp only
      rw [h]
      rfl
  rw [document, hsections]
  show (do Section.add? ⟨none, pairs⟩ [] >>= pure) = _
  rw [bind_pure]
  rfl

end ProbeSuite.Toml
