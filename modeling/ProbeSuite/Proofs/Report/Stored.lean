import ProbeSuite.Proofs.Json.Layout
import ProbeSuite.Proofs.Timestamp
import ProbeSuite.Report.Stored

/-!
# Stored reports are read back

* `Report.LaidOut`, `Report.recognizes` : the texts that are read as a report;
* `Report.wrapped` : the report with its times taken modulo `2^64` nanoseconds, as it is stored;
* `Report.laidOut_stored` : in either layout, a stored report is a text of the wrapped one;
* `Report.LaidOut.fitsWords` : the times of a report that was read are words of nanoseconds;
* `decode_encode` : decoding undoes encoding.
-/

namespace ProbeSuite

open Json (Reader Recognizes RecordText ListText Lays Slot Slots)

/-! ## Plain fields -/

theorem required_bind_eq_ok {α β : Type} {name : String} {o : Option α} {f : α → Except String β} {b : β} :
    (required name o >>= f) = .ok b ↔ ∃ a, o = some a ∧ f a = .ok b := by
  cases o with
  | none => simp [required, bind, Except.bind]
  | some a => simp [required, bind, Except.bind]

/-- A word is written in its digits. -/
def WordText (n : UInt64) (t : List Char) : Prop := t = Nat.toDigits 10 n.toNat

theorem recognizes_word (type : String) : Recognizes (readWord type) WordText := by
  refine (Json.recognizes_natural type (Nat.le_refl 64)).map (f := fun n => .ok (UInt64.ofNat n)) (fun cs => rfl) ?_
  intro n t
  constructor
  · exact fun ht => ⟨n.toNat, by rw [UInt64.ofNat_toNat], n.toNat_lt, ht⟩
  · rintro ⟨k, hk, hlt, ht⟩
    cases hk
    rw [WordText, UInt64.toNat_ofNat_of_lt' hlt]
    exact ht

def TextOf (s : String) (t : List Char) : Prop := Json.Quoted s.toList t

/-- A timestamp is written in any of the forms that are read as it, such as the stored one. -/
def Timestamp.LaidOut (time : Timestamp) (t : List Char) : Prop := ∃ s, read s = .ok time ∧ Json.Quoted s t

theorem Timestamp.laidOut_stored {time : Timestamp} {t : List Char} (h : Json.Quoted time.stored t) : time.LaidOut t :=
  ⟨time.stored, read_stored time, h⟩

def Probe.LaidOut (p : Probe) (t : List Char) : Prop := Json.NameText p.tag.toList t

theorem Probe.recognizes : Recognizes Probe.read LaidOut := by
  refine (Json.recognizes_variant _ ofTag?).congr fun p t => ?_
  constructor
  · exact fun ht => ⟨p.tag.toList, by rw [String.ofList_toList, ofTag?_tag], ht⟩
  · rintro ⟨name, hname, ht⟩
    rw [LaidOut, tag_of_ofTag? hname, String.toList_ofList]
    exact ht

/-! ## Durations -/

namespace Duration

/-- The duration as it is stored: its nanoseconds modulo `2^64`. -/
def wrapped (d : Duration) : Duration :=
  ⟨d.nanos % 2 ^ 64, Nat.lt_of_lt_of_le (Nat.mod_lt _ (by decide)) (by decide)⟩

theorem wrapped_eq_self_iff {d : Duration} : d.wrapped = d ↔ d.nanos < 2 ^ 64 := by
  rw [Duration.ext_iff]
  exact Nat.mod_eq_iff_lt (by decide)

/-- A duration is written as a word of nanoseconds. -/
def LaidOut (d : Duration) (t : List Char) : Prop := d.nanos < 2 ^ 64 ∧ t = Nat.toDigits 10 d.nanos

theorem recognizes : Recognizes Duration.read LaidOut := by
  refine (recognizes_word "u64").map (f := fun n => .ok (.ofWord n)) (fun cs => rfl) fun d t => ?_
  constructor
  · rintro ⟨hlt, ht⟩
    have hnanos : (UInt64.ofNat d.nanos).toNat = d.nanos := UInt64.toNat_ofNat_of_lt' hlt
    exact ⟨UInt64.ofNat d.nanos, congrArg _ (Duration.ext hnanos), by rw [WordText, hnanos]; exact ht⟩
  · rintro ⟨n, hn, ht⟩
    cases hn
    exact ⟨n.toNat_lt, ht⟩

theorem laidOut_stored {lay : Nat → Json.Value → List Char} (hlay : Lays lay) (d : Duration) (level : Nat) :
    d.wrapped.LaidOut (lay level (.number d.wordNanos)) :=
  ⟨Nat.mod_lt _ (by decide), hlay.number level _⟩

end Duration

/-! ## Measurements -/

namespace Measurement

/-- The measurement as it is stored. -/
def wrapped (m : Measurement) : Measurement := { m with elapsed := m.elapsed.wrapped }

def LaidOut (m : Measurement) : List Char → Prop :=
  RecordText [("kind", m.probe.LaidOut), ("value", WordText m.value), ("elapsed", m.elapsed.LaidOut)]

def slots : List (Slot Draft Measurement) := [
  ⟨"kind", Draft.probe, fun a d => { d with probe := some a }, Measurement.probe, Probe.read, Probe.LaidOut⟩,
  ⟨"value", Draft.value, fun a d => { d with value := some a }, Measurement.value, readWord "u64", WordText⟩,
  ⟨"elapsed", Draft.elapsed, fun a d => { d with elapsed := some a }, Measurement.elapsed, Duration.read,
    Duration.LaidOut⟩]

theorem slots_record : Slots record slots where
  fields := rfl
  nodup := by decide
  reads := by
    simp only [slots, List.forall_mem_cons]
    exact ⟨Probe.recognizes, recognizes_word _, Duration.recognizes, List.forall_mem_nil _⟩
  draft := by simp [slots, record]
  get_set := by simp [slots]
  get_set_of_ne := by simp [slots]
  build := by
    intro d m
    simp only [record, required_bind_eq_ok, slots, List.forall_mem_cons]
    constructor
    · rintro ⟨probe, hprobe, value, hvalue, elapsed, helapsed, hm⟩
      cases hm
      exact ⟨hprobe, hvalue, helapsed, List.forall_mem_nil _⟩
    · rintro ⟨hprobe, hvalue, helapsed, -⟩
      exact ⟨_, hprobe, _, hvalue, _, helapsed, rfl⟩

theorem recognizes : Recognizes record.read LaidOut := slots_record.recognizes

theorem laidOut_stored {lay : Nat → Json.Value → List Char} (hlay : Lays lay) (m : Measurement) (level : Nat) :
    m.wrapped.LaidOut (lay level m.stored) := by
  refine hlay.recordText ?_ slots_record.nodup (slots_record.grammatical_parts m.wrapped)
  exact .cons ⟨rfl, .inl (hlay.quoted _ _)⟩ (.cons ⟨rfl, hlay.number _ _⟩
    (.cons ⟨rfl, m.elapsed.laidOut_stored hlay _⟩ .nil))

theorem LaidOut.fitsWord {m : Measurement} {t : List Char} (h : m.LaidOut t) : m.elapsed.nanos < 2 ^ 64 := by
  obtain ⟨v, hv⟩ := h.exists_text (p := ("elapsed", m.elapsed.LaidOut)) (.tail _ (.tail _ (.head _)))
  exact hv.1

end Measurement

/-! ## Hosts -/

namespace Host

def LaidOut (h : Host) : List Char → Prop :=
  RecordText [("os", TextOf h.os), ("arch", TextOf h.arch), ("cpu_count", WordText h.cpuCount)]

def slots : List (Slot Draft Host) := [
  ⟨"os", Draft.os, fun a d => { d with os := some a }, Host.os, Json.string, TextOf⟩,
  ⟨"arch", Draft.arch, fun a d => { d with arch := some a }, Host.arch, Json.string, TextOf⟩,
  ⟨"cpu_count", Draft.cpuCount, fun a d => { d with cpuCount := some a }, Host.cpuCount, readWord "usize", WordText⟩]

theorem slots_record : Slots record slots where
  fields := rfl
  nodup := by decide
  reads := by
    simp only [slots, List.forall_mem_cons]
    exact ⟨Json.recognizes_string, Json.recognizes_string, recognizes_word _, List.forall_mem_nil _⟩
  draft := by simp [slots, record]
  get_set := by simp [slots]
  get_set_of_ne := by simp [slots]
  build := by
    intro d h
    simp only [record, required_bind_eq_ok, slots, List.forall_mem_cons]
    constructor
    · rintro ⟨os, hos, arch, harch, cpuCount, hcount, hh⟩
      cases hh
      exact ⟨hos, harch, hcount, List.forall_mem_nil _⟩
    · rintro ⟨hos, harch, hcount, -⟩
      exact ⟨_, hos, _, harch, _, hcount, rfl⟩

theorem recognizes : Recognizes record.read LaidOut := slots_record.recognizes

theorem laidOut_stored {lay : Nat → Json.Value → List Char} (hlay : Lays lay) (h : Host) (level : Nat) :
    h.LaidOut (lay level h.stored) := by
  refine hlay.recordText ?_ slots_record.nodup (slots_record.grammatical_parts h)
  exact .cons ⟨rfl, hlay.quoted _ _⟩ (.cons ⟨rfl, hlay.quoted _ _⟩ (.cons ⟨rfl, hlay.number _ _⟩ .nil))

end Host

/-! ## Reports -/

namespace Report

/-- The report as it is stored: every time is a word of nanoseconds. -/
def wrapped (r : Report) : Report := { r with measurements := r.measurements.map Measurement.wrapped }

/-- Whether every time is a word of nanoseconds. -/
def FitsWords (r : Report) : Prop := ∀ m ∈ r.measurements, m.elapsed.nanos < 2 ^ 64

theorem wrapped_eq_self_iff {r : Report} : r.wrapped = r ↔ r.FitsWords := by
  have hwrapped : r.wrapped = r ↔ r.measurements.map Measurement.wrapped = r.measurements := by
    constructor
    · exact fun h => congrArg Report.measurements h
    · intro h
      unfold wrapped
      rw [h]
  have hmeasurement : ∀ m : Measurement, m.wrapped = m ↔ m.elapsed.nanos < 2 ^ 64 := by
    intro m
    rw [← Duration.wrapped_eq_self_iff]
    constructor
    · exact fun h => congrArg Measurement.elapsed h
    · intro h
      unfold Measurement.wrapped
      rw [h]
  rw [hwrapped]
  constructor
  · intro h m hm
    exact (hmeasurement m).1 (List.map_eq_map_iff.1 (h.trans (List.map_id _).symm) m hm)
  · intro h
    exact (List.map_congr_left fun m hm => (hmeasurement m).2 (h m hm)).trans (List.map_id _)

def LaidOut (r : Report) : List Char → Prop :=
  RecordText [("timestamp", r.timestamp.LaidOut), ("system_info", r.host.LaidOut),
    ("probes", ListText Measurement.LaidOut r.measurements)]

def slots : List (Slot Draft Report) := [
  ⟨"timestamp", Draft.timestamp, fun a d => { d with timestamp := some a }, Report.timestamp, Json.timestamp,
    Timestamp.LaidOut⟩,
  ⟨"system_info", Draft.host, fun a d => { d with host := some a }, Report.host, Host.record.read, Host.LaidOut⟩,
  ⟨"probes", Draft.measurements, fun a d => { d with measurements := some a }, Report.measurements,
    Json.array Measurement.record.read, ListText Measurement.LaidOut⟩]

theorem slots_record : Slots record slots where
  fields := rfl
  nodup := by decide
  reads := by
    simp only [slots, List.forall_mem_cons]
    exact ⟨Json.recognizes_timestamp, Host.recognizes, Measurement.recognizes.array,
      List.forall_mem_nil _⟩
  draft := by simp [slots, record]
  get_set := by simp [slots]
  get_set_of_ne := by simp [slots]
  build := by
    intro d r
    simp only [record, required_bind_eq_ok, slots, List.forall_mem_cons]
    constructor
    · rintro ⟨timestamp, htimestamp, host, hhost, measurements, hmeasurements, hr⟩
      cases hr
      exact ⟨htimestamp, hhost, hmeasurements, List.forall_mem_nil _⟩
    · rintro ⟨htimestamp, hhost, hmeasurements, -⟩
      exact ⟨_, htimestamp, _, hhost, _, hmeasurements, rfl⟩

/-- **The texts of reports are read, and no others.** -/
theorem recognizes : Recognizes record.read LaidOut := slots_record.recognizes

/-- In either layout, a stored report is a text of the report with its times modulo `2^64` nanoseconds. -/
theorem laidOut_stored {lay : Nat → Json.Value → List Char} (hlay : Lays lay) (r : Report) (level : Nat) :
    r.wrapped.LaidOut (lay level r.stored) := by
  refine hlay.recordText ?_ slots_record.nodup (slots_record.grammatical_parts r.wrapped)
  refine .cons ⟨rfl, ?_⟩ (.cons ⟨rfl, r.host.laidOut_stored hlay _⟩ (.cons ⟨rfl, ?_⟩ .nil))
  · have hquoted := hlay.quoted (level + 1) (String.ofList r.timestamp.stored)
    rw [String.toList_ofList] at hquoted
    exact Timestamp.laidOut_stored hquoted
  · exact hlay.listText fun m _ => m.laidOut_stored hlay _

theorem LaidOut.fitsWords {r : Report} {t : List Char} (h : r.LaidOut t) : r.FitsWords := by
  intro m hm
  obtain ⟨v, ts, -, hts⟩ := h.exists_text (p := ("probes", ListText Measurement.LaidOut r.measurements))
    (.tail _ (.tail _ (.head _)))
  obtain ⟨x, -, hx⟩ := Json.exists_right_of_forall₂ hts hm
  exact hx.fitsWord

/-! ## Texts -/

/-- The two layouts of a stored report. -/
inductive Layout where
  | compact
  | pretty

/-- The text of a report in a layout. -/
def encode : Layout → Report → String
  | .compact, r => r.compact
  | .pretty, r => r.pretty

/-- The report in a text. -/
abbrev decode (text : String) : Except Json.Located Report := Json.decode record.read text

theorem laidOut_encode (layout : Layout) (r : Report) : r.wrapped.LaidOut (r.encode layout).toList := by
  cases layout with
  | compact =>
    rw [encode, compact, String.toList_ofList]
    exact r.laidOut_stored Json.lays_compact 0
  | pretty =>
    rw [encode, pretty, String.toList_ofList]
    exact r.laidOut_stored Json.lays_pretty 0

theorem decode_encode (layout : Layout) (r : Report) : decode (r.encode layout) = .ok r.wrapped :=
  recognizes.decode_iff.2 ⟨[], _, [], Json.Blank.nil, r.laidOut_encode layout, Json.Blank.nil, by
    rw [List.nil_append, List.append_nil]⟩

theorem fitsWords_of_decode {text : String} {r : Report} (h : decode text = .ok r) : r.FitsWords := by
  obtain ⟨b, t, b', -, ht, -, -⟩ := recognizes.decode_iff.1 h
  exact ht.fitsWords

theorem decode_encode_of_fitsWords (layout : Layout) {r : Report} (h : r.FitsWords) :
    decode (r.encode layout) = .ok r := by
  rw [decode_encode, wrapped_eq_self_iff.2 h]

/-- **Decoding undoes encoding.** A report is read back with its times modulo `2^64` nanoseconds, so unchanged
exactly when they are words. A report that was read has such times, so from then on encoding and decoding
change nothing. -/
theorem decode_inverts_encode (layout : Layout) :
    (∀ r : Report, decode (r.encode layout) = .ok r.wrapped ∧
      (decode (r.encode layout) = .ok r ↔ ∀ m ∈ r.measurements, m.elapsed.nanos < 2 ^ 64)) ∧
    ∀ (text : String) (r : Report), decode text = .ok r →
      (∀ m ∈ r.measurements, m.elapsed.nanos < 2 ^ 64) ∧ decode (r.encode layout) = .ok r ∧
        (decode (r.encode layout)).map (encode layout) = .ok (r.encode layout) := by
  refine ⟨fun r => ⟨decode_encode layout r, ?_⟩, fun text r h => ?_⟩
  · rw [decode_encode, Except.ok.injEq]
    exact wrapped_eq_self_iff
  · have hwords := fitsWords_of_decode h
    have hdecode := decode_encode_of_fitsWords layout hwords
    exact ⟨hwords, hdecode, by rw [hdecode]; rfl⟩

/-- A leap second, an escaped surrogate pair, records as lists, and the greatest words. -/
theorem decode_inverts_encode_lists :
    let text := "[ \"2016-12-31T23:59:60.5Z\", [\"\\ud83d\\ude00\", \"\", 18446744073709551615],\n" ++
      "  [[\x7b\"MapAccess\": null\x7d, 0, 18446744073709551615]]]"
    let r : Report := ⟨⟨1483228799, 1500000000, by decide, by decide⟩, ⟨"😀", "", 18446744073709551615⟩,
      [⟨.mapAccess, 0, ⟨18446744073709551615, by decide⟩⟩]⟩
    decode text = .ok r ∧ decode r.pretty = .ok r := by
  intro text r
  have h : decode text = .ok r := by decide +kernel
  exact ⟨h, ((decode_inverts_encode .pretty).2 text r h).2.1⟩

end Report

end ProbeSuite
