import ProbeSuite.Proofs.History.Layout
import ProbeSuite.Proofs.Json.Literal

/-!
# Integers in stored data

* `Measurement.Spelling`, `Report.Spelling`, `History.Spelling` : data whose numbers are given by their literals;
* `Spelling.LaidOut` : the texts in which the numbers are written like that;
* `Spelling.Means` : the values that have exactly the integers the literals denote;
* `Spelling.laidOut_iff` : a text with these literals is that of such values, and of no others;
* `Spelling.exists_means_iff` : there are such values if every literal denotes a word;
* `History.integers_are_exact` : what is read, and when nothing is.
-/

namespace ProbeSuite

open Json (Blank Denotes Document Grammatical ListText Literal RecordText denotes_iff)

/-! ## Literals -/

/-- The literal denotes a word of so many bits. -/
def IsWord (bits : Nat) (l : Literal) : Prop := ∃ n < 2 ^ bits, Denotes n l.text

theorem wordText_iff {n : UInt64} {t : List Char} : WordText n t ↔ Denotes n.toNat t := denotes_iff.symm

theorem isWord_iff {l : Literal} : IsWord 64 l ↔ ∃ n : UInt64, Denotes n.toNat l.text := by
  constructor
  · rintro ⟨n, hn, hl⟩
    exact ⟨UInt64.ofNat n, by rwa [UInt64.toNat_ofNat_of_lt' hn]⟩
  · rintro ⟨n, hl⟩
    exact ⟨n.toNat, n.toNat_lt, hl⟩

theorem exists_error_iff {ε α : Type} {x : Except ε α} : (∃ e, x = .error e) ↔ ¬∃ a, x = .ok a := by
  constructor
  · rintro ⟨e, rfl⟩ ⟨a, ha⟩
    cases ha
  · exact fun h => Json.error_of_not_ok fun a ha => h ⟨a, ha⟩

theorem exists_forall₂_iff {α β : Type} {R : α → β → Prop} {as : List α} :
    (∃ bs, List.Forall₂ R as bs) ↔ ∀ a ∈ as, ∃ b, R a b := by
  constructor
  · rintro ⟨bs, h⟩ a ha
    obtain ⟨b, -, hb⟩ := Json.exists_right_of_forall₂ h ha
    exact ⟨b, hb⟩
  · intro h
    induction as with
    | nil => exact ⟨[], .nil⟩
    | cons a as ih =>
      obtain ⟨⟨b, hb⟩, has⟩ := List.forall_mem_cons.1 h
      obtain ⟨bs, hbs⟩ := ih has
      exact ⟨b :: bs, .cons hb hbs⟩

theorem Duration.nanos_eq (d : Duration) : d.nanos = d.secs * nanosPerSec + d.subsecNanos :=
  (Nat.div_add_mod' d.nanos nanosPerSec).symm

/-! ## Measurements -/

namespace Measurement

/-- A measurement with its numbers as they are written. -/
structure Spelling where
  probe : Probe
  value : Literal
  elapsed : Literal

namespace Spelling

variable {s : Spelling} {m : Measurement} {t : List Char}

def literals (s : Spelling) : List Literal := [s.value, s.elapsed]

def LaidOut (s : Spelling) : List Char → Prop :=
  RecordText [("kind", s.probe.LaidOut), ("value", (· = s.value.text)), ("elapsed", (· = s.elapsed.text))]

/-- The measurement has the value that its literal denotes, and took the nanoseconds that its literal denotes. -/
structure Means (s : Spelling) (m : Measurement) : Prop where
  probe : m.probe = s.probe
  value : Denotes m.value.toNat s.value.text
  elapsed : Denotes (m.elapsed.secs * nanosPerSec + m.elapsed.subsecNanos) s.elapsed.text
  subsecNanos : m.elapsed.subsecNanos < nanosPerSec
  fits : m.elapsed.nanos < 2 ^ 64

theorem grammatical_parts :
    ∀ p ∈ [("kind", s.probe.LaidOut), ("value", (· = s.value.text)), ("elapsed", (· = s.elapsed.text))], ∀ v, p.2 v →
      Grammatical v := by
  simp only [List.forall_mem_cons]
  exact ⟨fun _ => Probe.recognizes.grammatical, fun _ => s.value.grammatical, fun _ => s.elapsed.grammatical,
    List.forall_mem_nil _⟩

theorem LaidOut.grammatical (ht : s.LaidOut t) : Grammatical t :=
  RecordText.grammatical grammatical_parts ht

theorem laidOut_iff (ht : s.LaidOut t) : m.LaidOut t ↔ s.Means m := by
  constructor
  · intro hm
    have hparts := RecordText.agree ht hm grammatical_parts (slots_record.grammatical_parts m)
      (.cons rfl (.cons rfl (.cons rfl .nil)))
    simp only [List.forall₂_cons, exists_eq_left] at hparts
    obtain ⟨⟨v, hprobe, hprobe'⟩, hvalue, helapsed, -⟩ := hparts
    exact ⟨Probe.recognizes.unique hprobe' hprobe, wordText_iff.1 hvalue,
      denotes_iff.2 (helapsed.2.trans (congrArg _ m.elapsed.nanos_eq)), m.elapsed.subsecNanos_lt,
      helapsed.1⟩
  · rintro ⟨hprobe, hvalue, helapsed, -, hfits⟩
    refine RecordText.mono ht (.cons ⟨rfl, ?_⟩ (.cons ⟨rfl, ?_⟩ (.cons ⟨rfl, ?_⟩ .nil)))
    · rintro v hv
      rw [hprobe]
      exact hv
    · rintro v rfl
      exact wordText_iff.2 hvalue
    · rintro v rfl
      exact ⟨hfits, (denotes_iff.1 helapsed).trans (congrArg _ m.elapsed.nanos_eq.symm)⟩

theorem exists_means_iff : (∃ m, s.Means m) ↔ ∀ l ∈ s.literals, IsWord 64 l := by
  rw [literals, List.forall_mem_cons, List.forall_mem_singleton]
  constructor
  · rintro ⟨m, hm⟩
    exact ⟨isWord_iff.2 ⟨m.value, hm.value⟩, m.elapsed.nanos, hm.fits, m.elapsed.nanos_eq ▸ hm.elapsed⟩
  · rintro ⟨hvalue, n, hn, helapsed⟩
    obtain ⟨value, hvalue⟩ := isWord_iff.1 hvalue
    let d : Duration := ⟨n, Nat.lt_of_lt_of_le hn (by decide)⟩
    exact ⟨⟨s.probe, value, d⟩, rfl, hvalue, d.nanos_eq ▸ helapsed, d.subsecNanos_lt, hn⟩

end Spelling

end Measurement

/-! ## Hosts -/

namespace Host

/-- A host with its number as it is written. -/
structure Spelling where
  os : String
  arch : String
  cpuCount : Literal

namespace Spelling

variable {s : Spelling} {h : Host} {t : List Char}

def LaidOut (s : Spelling) : List Char → Prop :=
  RecordText [("os", TextOf s.os), ("arch", TextOf s.arch), ("cpu_count", (· = s.cpuCount.text))]

structure Means (s : Spelling) (h : Host) : Prop where
  os : h.os = s.os
  arch : h.arch = s.arch
  cpuCount : Denotes h.cpuCount.toNat s.cpuCount.text

theorem grammatical_parts :
    ∀ p ∈ [("os", TextOf s.os), ("arch", TextOf s.arch), ("cpu_count", (· = s.cpuCount.text))], ∀ v, p.2 v →
      Grammatical v := by
  simp only [List.forall_mem_cons]
  exact ⟨fun _ => Json.recognizes_string.grammatical, fun _ => Json.recognizes_string.grammatical,
    fun _ => s.cpuCount.grammatical, List.forall_mem_nil _⟩

theorem LaidOut.grammatical (ht : s.LaidOut t) : Grammatical t :=
  RecordText.grammatical grammatical_parts ht

theorem laidOut_iff (ht : s.LaidOut t) : h.LaidOut t ↔ s.Means h := by
  constructor
  · intro hh
    have hparts := RecordText.agree ht hh grammatical_parts (slots_record.grammatical_parts h)
      (.cons rfl (.cons rfl (.cons rfl .nil)))
    simp only [List.forall₂_cons, exists_eq_left] at hparts
    obtain ⟨⟨v, hos, hos'⟩, ⟨w, harch, harch'⟩, hcount, -⟩ := hparts
    exact ⟨Json.recognizes_string.unique hos' hos, Json.recognizes_string.unique harch' harch,
      wordText_iff.1 hcount⟩
  · rintro ⟨hos, harch, hcount⟩
    refine RecordText.mono ht (.cons ⟨rfl, ?_⟩ (.cons ⟨rfl, ?_⟩ (.cons ⟨rfl, ?_⟩ .nil)))
    · rintro v hv
      rw [hos]
      exact hv
    · rintro v hv
      rw [harch]
      exact hv
    · rintro v rfl
      exact wordText_iff.2 hcount

theorem exists_means_iff : (∃ h, s.Means h) ↔ IsWord 64 s.cpuCount := by
  rw [isWord_iff]
  constructor
  · rintro ⟨h, hh⟩
    exact ⟨h.cpuCount, hh.cpuCount⟩
  · rintro ⟨n, hn⟩
    exact ⟨⟨s.os, s.arch, n⟩, rfl, rfl, hn⟩

end Spelling

end Host

/-! ## Reports -/

namespace Report

/-- A report with its numbers as they are written. -/
structure Spelling where
  timestamp : Timestamp
  host : Host.Spelling
  measurements : List Measurement.Spelling

namespace Spelling

variable {s : Spelling} {r : Report} {t : List Char}

def literals (s : Spelling) : List Literal := s.host.cpuCount :: s.measurements.flatMap (·.literals)

def LaidOut (s : Spelling) : List Char → Prop :=
  RecordText [("timestamp", s.timestamp.LaidOut), ("system_info", s.host.LaidOut),
    ("probes", ListText Measurement.Spelling.LaidOut s.measurements)]

/-- The report has the timestamp, and the integers of its host and its measurements are those of the literals. -/
structure Means (s : Spelling) (r : Report) : Prop where
  timestamp : r.timestamp = s.timestamp
  host : s.host.Means r.host
  measurements : List.Forall₂ Measurement.Spelling.Means s.measurements r.measurements

theorem grammatical_parts :
    ∀ p ∈ [("timestamp", s.timestamp.LaidOut), ("system_info", s.host.LaidOut),
      ("probes", ListText Measurement.Spelling.LaidOut s.measurements)], ∀ v, p.2 v → Grammatical v := by
  simp only [List.forall_mem_cons]
  exact ⟨fun _ => Json.recognizes_timestamp.grammatical, fun _ => Host.Spelling.LaidOut.grammatical,
    fun _ => ListText.grammatical fun _ _ => Measurement.Spelling.LaidOut.grammatical, List.forall_mem_nil _⟩

theorem LaidOut.grammatical (ht : s.LaidOut t) : Grammatical t :=
  RecordText.grammatical grammatical_parts ht

theorem measurements_iff {ms : List Measurement} (ht : ListText Measurement.Spelling.LaidOut s.measurements t) :
    ListText Measurement.LaidOut ms t ↔ List.Forall₂ Measurement.Spelling.Means s.measurements ms :=
  ht.iff_forall₂ (fun _ _ => Measurement.Spelling.LaidOut.grammatical)
    (fun _ _ => Measurement.recognizes.grammatical) fun _ _ _ => Measurement.Spelling.laidOut_iff

theorem laidOut_iff (ht : s.LaidOut t) : r.LaidOut t ↔ s.Means r := by
  constructor
  · intro hr
    have hparts := RecordText.agree ht hr grammatical_parts (slots_record.grammatical_parts r)
      (.cons rfl (.cons rfl (.cons rfl .nil)))
    simp only [List.forall₂_cons] at hparts
    obtain ⟨⟨u, htime, htime'⟩, ⟨v, hhost, hhost'⟩, ⟨w, hlist, hlist'⟩, -⟩ := hparts
    exact ⟨Json.recognizes_timestamp.unique htime' htime, (Host.Spelling.laidOut_iff hhost).1 hhost',
      (measurements_iff hlist).1 hlist'⟩
  · rintro ⟨htime, hhost, hlist⟩
    refine RecordText.mono ht (.cons ⟨rfl, ?_⟩ (.cons ⟨rfl, ?_⟩ (.cons ⟨rfl, ?_⟩ .nil)))
    · rintro v hv
      rw [htime]
      exact hv
    · exact fun v hv => (Host.Spelling.laidOut_iff hv).2 hhost
    · exact fun v hv => (measurements_iff hv).2 hlist

theorem exists_means_iff : (∃ r, s.Means r) ↔ ∀ l ∈ s.literals, IsWord 64 l := by
  rw [literals, List.forall_mem_cons, List.forall_mem_flatMap, ← Host.Spelling.exists_means_iff]
  simp only [← Measurement.Spelling.exists_means_iff]
  rw [← exists_forall₂_iff]
  constructor
  · rintro ⟨r, hr⟩
    exact ⟨⟨r.host, hr.host⟩, r.measurements, hr.measurements⟩
  · rintro ⟨⟨host, hhost⟩, ms, hms⟩
    exact ⟨⟨s.timestamp, host, ms⟩, rfl, hhost, hms⟩

theorem decode_iff {text : String} (htext : Document s.LaidOut text) : decode text = .ok r ↔ s.Means r :=
  recognizes.decode_iff_of_document (fun _ => LaidOut.grammatical) (fun _ _ => laidOut_iff) htext

end Spelling

end Report

/-! ## Histories -/

namespace History

/-- A history with its numbers as they are written. -/
structure Spelling where
  version : Literal
  reports : List Report.Spelling

namespace Spelling

variable {s : Spelling} {v : Nat} {reports : List Report} {t : List Char}

/-- The literals of the reports. -/
def literals (s : Spelling) : List Literal := s.reports.flatMap (·.literals)

def LaidOut (s : Spelling) : List Char → Prop :=
  RecordText [("version", (· = s.version.text)), ("results", ListText Report.Spelling.LaidOut s.reports)]

/-- The version of the format is the number that its literal denotes, and so are the integers of the reports. -/
structure Means (s : Spelling) (v : Nat) (reports : List Report) : Prop where
  version : Denotes v s.version.text
  fits : v < 2 ^ 32
  reports : List.Forall₂ Report.Spelling.Means s.reports reports

theorem grammatical_parts :
    ∀ p ∈ [("version", (· = s.version.text)), ("results", ListText Report.Spelling.LaidOut s.reports)],
      ∀ v, p.2 v → Grammatical v := by
  simp only [List.forall_mem_cons]
  exact ⟨fun _ => s.version.grammatical, fun _ => ListText.grammatical fun _ _ => Report.Spelling.LaidOut.grammatical,
    List.forall_mem_nil _⟩

theorem LaidOut.grammatical (ht : s.LaidOut t) : Grammatical t :=
  RecordText.grammatical grammatical_parts ht

theorem reports_iff (ht : ListText Report.Spelling.LaidOut s.reports t) :
    ListText Report.LaidOut reports t ↔ List.Forall₂ Report.Spelling.Means s.reports reports :=
  ht.iff_forall₂ (fun _ _ => Report.Spelling.LaidOut.grammatical) (fun _ _ => Report.recognizes.grammatical)
    fun _ _ _ => Report.Spelling.laidOut_iff

theorem laidOut_iff (ht : s.LaidOut t) :
    RecordText (slots.map (·.toPart (v, reports))) t ↔ s.Means v reports := by
  constructor
  · intro hs
    have hparts := RecordText.agree ht hs grammatical_parts (slots_record.grammatical_parts (v, reports))
      (.cons rfl (.cons rfl .nil))
    simp only [slots, List.map_cons, List.map_nil, List.forall₂_cons, exists_eq_left] at hparts
    obtain ⟨⟨hfits, hversion⟩, ⟨w, hlist, hlist'⟩, -⟩ := hparts
    exact ⟨denotes_iff.2 hversion, hfits, (reports_iff hlist).1 hlist'⟩
  · rintro ⟨hversion, hfits, hlist⟩
    refine RecordText.mono ht (.cons ⟨rfl, ?_⟩ (.cons ⟨rfl, ?_⟩ .nil))
    · rintro v rfl
      exact ⟨hfits, denotes_iff.1 hversion⟩
    · exact fun v hv => (reports_iff hv).2 hlist

theorem exists_means_iff {s : Spelling} :
    (∃ v reports, s.Means v reports) ↔ IsWord 32 s.version ∧ ∀ l ∈ s.literals, IsWord 64 l := by
  rw [literals, List.forall_mem_flatMap]
  simp only [← Report.Spelling.exists_means_iff]
  rw [← exists_forall₂_iff]
  constructor
  · rintro ⟨v, reports, h⟩
    exact ⟨⟨v, h.fits, h.version⟩, reports, h.reports⟩
  · rintro ⟨⟨v, hfits, hversion⟩, reports, hreports⟩
    exact ⟨v, reports, hversion, hfits, hreports⟩

theorem decode_iff {text : String} (htext : Document s.LaidOut text) :
    Json.decode record.read text = .ok (v, reports) ↔ s.Means v reports :=
  slots_record.recognizes.decode_iff_of_document (C := fun stored => s.Means stored.1 stored.2)
    (fun _ => LaidOut.grammatical) (fun _ _ => laidOut_iff) htext

end Spelling

section Read

variable {p : Path} {text : String}

theorem read_eq_unsupported_iff {v : Nat} : read p text = .error (.unsupported p v) ↔
    v ≠ version ∧ ∃ reports, Json.decode record.read text = .ok (v, reports) := by
  unfold read
  split
  · next heq => simp [heq]
  · next w reports heq =>
    by_cases hw : w = version
    · simp only [hw, heq, if_pos, Except.ok.injEq, Prod.mk.injEq]
      grind
    · simp only [hw, heq, if_false, Except.ok.injEq, Except.error.injEq, Prod.mk.injEq]
      grind

theorem exists_read_eq_malformed_iff : (∃ fault, read p text = .error (.malformed p fault)) ↔
    ∃ fault, Json.decode record.read text = .error fault := by
  unfold read
  split
  · next heq => simp [heq]
  · next heq => split <;> simp [heq]

end Read

/-- **Stored integers are never changed.** Where the numbers of a report are written in some literals, it is read
with exactly the integers that they denote, and it is read if each of them denotes a word. The same holds of a
history, whose version has 32 bits; it is loaded if that version is one. -/
theorem integers_are_exact :
    (∀ (s : Report.Spelling) (text : String), Document s.LaidOut text →
      (∀ r, Report.decode text = .ok r ↔ s.Means r) ∧
        ((∃ r, Report.decode text = .ok r) ↔ ∀ l ∈ s.literals, IsWord 64 l) ∧
        ((∃ fault, Report.decode text = .error fault) ↔ ∃ l ∈ s.literals, ¬IsWord 64 l)) ∧
    ∀ (s : Spelling) (text : String), Document s.LaidOut text →
      (∀ v reports, Json.decode record.read text = .ok (v, reports) ↔ s.Means v reports) ∧
        ((∃ v reports, Json.decode record.read text = .ok (v, reports)) ↔
          IsWord 32 s.version ∧ ∀ l ∈ s.literals, IsWord 64 l) ∧
        ∀ (h : History) (f : Files), f.readText h.path = .ok text →
          (∀ reports, h.load f = .ok reports ↔ s.Means 1 reports) ∧
            ((∃ reports, h.load f = .ok reports) ↔ Denotes 1 s.version.text ∧ ∀ l ∈ s.literals, IsWord 64 l) ∧
            (∀ v, h.load f = .error (.unsupported h.path v) ↔ v ≠ 1 ∧ ∃ reports, s.Means v reports) ∧
            ((∃ fault, h.load f = .error (.malformed h.path fault)) ↔
              ¬(IsWord 32 s.version ∧ ∀ l ∈ s.literals, IsWord 64 l)) := by
  constructor
  · intro s text htext
    have hdecode : ∀ r, Report.decode text = .ok r ↔ s.Means r := fun r => Report.Spelling.decode_iff htext
    have hexists : (∃ r, Report.decode text = .ok r) ↔ ∀ l ∈ s.literals, IsWord 64 l := by
      rw [← Report.Spelling.exists_means_iff, exists_congr hdecode]
    refine ⟨hdecode, hexists, ?_⟩
    rw [exists_error_iff, hexists]
    push Not
    rfl
  · intro s text htext
    have hdecode : ∀ v reports, Json.decode record.read text = .ok (v, reports) ↔ s.Means v reports :=
      fun v reports => Spelling.decode_iff htext
    have hexists : (∃ v reports, Json.decode record.read text = .ok (v, reports)) ↔
        IsWord 32 s.version ∧ ∀ l ∈ s.literals, IsWord 64 l := by
      rw [← Spelling.exists_means_iff]
      exact exists₂_congr hdecode
    refine ⟨hdecode, hexists, ?_⟩
    intro h f hread
    rw [load_eq_read hread]
    have hload : ∀ reports, read h.path text = .ok reports ↔ s.Means 1 reports := by
      intro reports
      rw [read_iff, ← hdecode]
      have hlaidOut : Json.decode record.read text = .ok (version, reports) ↔ Document (LaidOut reports) text :=
        slots_record.recognizes.decode_iff
      exact hlaidOut.symm
    refine ⟨hload, ?_, ?_, ?_⟩
    · rw [exists_congr hload]
      constructor
      · rintro ⟨reports, hmeans⟩
        exact ⟨hmeans.version, (Spelling.exists_means_iff.1 ⟨1, reports, hmeans⟩).2⟩
      · rintro ⟨hversion, hwords⟩
        obtain ⟨v, reports, hmeans⟩ := Spelling.exists_means_iff.2 ⟨⟨1, by decide, hversion⟩, hwords⟩
        exact ⟨reports, hversion, by decide, hmeans.reports⟩
    · intro v
      rw [read_eq_unsupported_iff, exists_congr (hdecode v)]
      rfl
    · rw [exists_read_eq_malformed_iff, exists_error_iff, Prod.exists, hexists]

/-- The greatest word, the number after it, and numbers that are integers in another form; a version to load, one
of another format, and one of too many bits. -/
theorem integers_are_exact_limits :
    let text : String → String → String → String := fun c v e =>
      "[\"1970-01-01T00:00:00Z\",[\"\",\"\"," ++ c ++ "],[[\"MapAccess\"," ++ v ++ "," ++ e ++ "]]]"
    let files : String → Files := fun v =>
      (Files.fresh []).set ["h.json".toList] (some (.file ("[" ++ v ++ ",[]]").toUTF8))
    let h := History.make "h.json".toList 5
    Report.decode (text "4" "18446744073709551615" "18446744073709551615") = .ok ⟨⟨0, 0, by decide, by decide⟩,
        ⟨"", "", 4⟩, [⟨.mapAccess, 18446744073709551615, ⟨18446744073709551615, by decide⟩⟩]⟩ ∧
      (∃ fault, Report.decode (text "4" "18446744073709551616" "0") = .error fault) ∧
      (∃ fault, Report.decode (text "4" "-0" "0") = .error fault) ∧
      (∃ fault, Report.decode (text "1e3" "0" "1.0") = .error fault) ∧
      h.load (files "1") = .ok [] ∧
      h.load (files "2") = .error (.unsupported h.path 2) ∧
      ∃ fault, h.load (files "4294967296") = .error (.malformed h.path fault) := by
  intro text files h
  let number : Nat → Literal := fun n => ⟨Nat.toDigits 10 n, Json.numberText_toDigits n⟩
  let minusZero : Literal := ⟨['-', '0'], .minus (.mk (Json.digits_singleton rfl) (fun _ => rfl) .none .none)⟩
  let power : Literal := ⟨['1', 'e', '3'], .plain (.mk (Json.digits_singleton rfl) (by decide) .none
    (.mark (.inl rfl) (.inl rfl) (Json.digits_singleton rfl)))⟩
  let fraction : Literal := ⟨['1', '.', '0'],
    .plain (.mk (Json.digits_singleton rfl) (by decide) (.point (Json.digits_singleton rfl)) .none)⟩
  have hdenotes : ∀ n : Nat, Denotes n (number n).text := Json.denotes_toDigits
  have hnot : ∀ {bits n : Nat}, 2 ^ bits ≤ n → ¬IsWord bits (number n) := by
    rintro bits n hn ⟨k, hk, hdenotes⟩
    have heq : k = n := hdenotes.2.symm.trans Nat.ofDigitChars_ten_toDigits
    omega
  have hsign : ¬IsWord 64 minusZero := by
    rintro ⟨k, -, hzero | ⟨⟨-, hdigits⟩, -⟩, -⟩
    · exact absurd hzero (by decide)
    · exact absurd (hdigits '-' List.mem_cons_self) (by decide)
  have hpower : ¬IsWord 64 power := by
    rintro ⟨k, -, hzero | ⟨⟨-, hdigits⟩, -⟩, -⟩
    · exact absurd hzero (by decide)
    · exact absurd (hdigits 'e' (List.mem_cons_of_mem _ List.mem_cons_self)) (by decide)
  let report : Literal → Literal → Literal → Report.Spelling := fun c v e =>
    ⟨⟨0, 0, by decide, by decide⟩, ⟨"", "", c⟩, [⟨.mapAccess, v, e⟩]⟩
  have hthree : ∀ t u v : List Char, Json.ListOf [t, u, v] _ := fun t u v =>
    ⟨_, [], .cons (.first Blank.nil) (.cons (.next Blank.nil Blank.nil) (.cons (.next Blank.nil Blank.nil) .nil)),
      Blank.nil, rfl⟩
  have htime : Timestamp.LaidOut ⟨0, 0, by decide, by decide⟩ _ :=
    ⟨"1970-01-01T00:00:00Z".toList, by decide +kernel, Json.quoted_quote _⟩
  have hreport := fun c v e : Literal => show (report c v e).LaidOut _ from
    .elements (hthree _ _ _) (.cons htime
      (.cons (.elements (hthree _ _ _) (.cons (Json.quoted_quote _) (.cons (Json.quoted_quote _) (.cons rfl .nil))))
        (.cons ⟨_, ⟨_, [], .cons (.first Blank.nil) .nil, Blank.nil, rfl⟩, .cons (.elements (hthree _ _ _)
          (.cons (.inl (Json.quoted_quote _)) (.cons rfl (.cons rfl .nil)))) .nil⟩ .nil)))
  have hhistory := fun v : Literal => show (⟨v, []⟩ : Spelling).LaidOut _ from
    .elements ⟨_, [], .cons (.first Blank.nil) (.cons (.next Blank.nil Blank.nil) .nil), Blank.nil, rfl⟩
      (.cons rfl (.cons ⟨_, ⟨[], [], .nil, Blank.nil, rfl⟩, .nil⟩ .nil))
  have hread : ∀ v, (files v).readText h.path = .ok ("[" ++ v ++ ",[]]") := by
    intro v
    have hfind : (files v).find h.path = .ok (["h.json".toList], .file ("[" ++ v ++ ",[]]").toUTF8) := rfl
    exact Files.readText_of_read (Files.read_of_find (by decide) hfind rfl) (toUTF8_fromUTF8? _)
  obtain ⟨hreports, hhistories⟩ := integers_are_exact
  refine ⟨((hreports (report (number 4) (number 18446744073709551615) (number 18446744073709551615)) _
      ⟨[], _, [], Blank.nil, hreport _ _ _, Blank.nil, ?_⟩).1 _).2
        ⟨rfl, ⟨rfl, rfl, hdenotes _⟩, .cons ⟨rfl, hdenotes _, hdenotes _, by decide, by decide⟩ .nil⟩,
    (hreports (report (number 4) (number 18446744073709551616) (number 0)) _
      ⟨[], _, [], Blank.nil, hreport _ _ _, Blank.nil, ?_⟩).2.2.2 ⟨number 18446744073709551616, .tail _ (.head _),
        hnot (by decide)⟩,
    (hreports (report (number 4) minusZero (number 0)) _
      ⟨[], _, [], Blank.nil, hreport _ _ _, Blank.nil, ?_⟩).2.2.2 ⟨minusZero, .tail _ (.head _), hsign⟩,
    (hreports (report power (number 0) fraction) _
      ⟨[], _, [], Blank.nil, hreport _ _ _, Blank.nil, ?_⟩).2.2.2 ⟨power, .head _, hpower⟩,
    (((hhistories ⟨number 1, []⟩ _ ⟨[], _, [], Blank.nil, hhistory _, Blank.nil, ?_⟩).2.2 h _ (hread _)).1 _).2
      ⟨hdenotes 1, by decide, .nil⟩,
    (((hhistories ⟨number 2, []⟩ _ ⟨[], _, [], Blank.nil, hhistory _, Blank.nil, ?_⟩).2.2 h _ (hread _)).2.2.1 _).2
      ⟨by decide, [], hdenotes 2, by decide, .nil⟩,
    ((hhistories ⟨number 4294967296, []⟩ _ ⟨[], _, [], Blank.nil, hhistory _, Blank.nil, ?_⟩).2.2 h _
      (hread _)).2.2.2.2 fun hwords => hnot (by decide) hwords.1⟩
  all_goals decide +kernel

end History

end ProbeSuite
