import Mathlib.Data.List.DropRight
import ProbeSuite.History
import ProbeSuite.Proofs.Files
import ProbeSuite.Proofs.Report.Stored
import ProbeSuite.Proofs.Text.Bytes

/-!
# What a history file holds

* `History.read_render` : the text of some reports is read as these reports, as they are stored;
* `History.fitsWords_of_read` : what was read is stored unchanged;
* `History.Holds` : the file at a path holds a list of reports; no file holds the empty list;
* `History.Holds.load`, `holds_of_load` : what a file holds is what is loaded;
* `History.holds_write`, `holds_remove` : what it holds after it was written, and after it was removed.
-/

namespace ProbeSuite

namespace History

/-! ## Texts -/

def VersionText (n : Nat) (t : List Char) : Prop := n < 2 ^ 32 ∧ t = Nat.toDigits 10 n

def LaidOut (reports : List Report) : List Char → Prop :=
  Json.RecordText [("version", VersionText version), ("results", Json.ListText Report.LaidOut reports)]

def slots : List (Json.Slot Draft (Nat × List Report)) := [
  ⟨"version", Draft.version, fun a d => { d with version := some a }, Prod.fst, Json.natural 32 "u32",
    VersionText⟩,
  ⟨"results", Draft.reports, fun a d => { d with reports := some a }, Prod.snd, Json.array Report.record.read,
    Json.ListText Report.LaidOut⟩]

theorem slots_record : Json.Slots record slots where
  fields := rfl
  nodup := by decide
  reads := by
    simp only [slots, List.forall_mem_cons]
    exact ⟨Json.recognizes_natural _ (by decide), Report.recognizes.array, List.forall_mem_nil _⟩
  draft := by simp [slots, record]
  get_set := by simp [slots]
  get_set_of_ne := by simp [slots]
  build := by
    intro d stored
    simp only [record, required_bind_eq_ok, slots, List.forall_mem_cons]
    constructor
    · rintro ⟨v, hv, reports, hreports, hstored⟩
      cases hstored
      exact ⟨hv, hreports, List.forall_mem_nil _⟩
    · rintro ⟨hv, hreports, -⟩
      exact ⟨_, hv, _, hreports, rfl⟩

/-- **The texts of histories are read, and no others.** -/
theorem read_iff {p : Path} {text : String} {reports : List Report} : read p text = .ok reports ↔
    Json.Document (LaidOut reports) text := by
  have hdecode : Json.decode record.read text = .ok (version, reports) ↔ Json.Document (LaidOut reports) text :=
    slots_record.recognizes.decode_iff
  rw [← hdecode]
  unfold read
  constructor
  · intro h
    split at h
    · cases h
    · next v stored heq =>
      split at h
      · next hv =>
        cases h
        rw [heq, hv]
      · cases h
  · intro h
    rw [h]
    exact if_pos rfl

theorem laidOut_stored {lay : Nat → Json.Value → List Char} (hlay : Json.Lays lay) (reports : List Report)
    (level : Nat) : LaidOut (reports.map Report.wrapped) (lay level (stored reports)) := by
  refine hlay.recordText ?_ slots_record.nodup
    (slots_record.grammatical_parts (version, reports.map Report.wrapped))
  exact .cons ⟨rfl, by decide, hlay.number _ _⟩
    (.cons ⟨rfl, hlay.listText fun r _ => r.laidOut_stored hlay _⟩ .nil)

theorem read_render (p : Path) (reports : List Report) :
    read p (render reports) = .ok (reports.map Report.wrapped) := by
  refine read_iff.2 ⟨[], _, [], Json.Blank.nil, laidOut_stored Json.lays_pretty reports 0, Json.Blank.nil, ?_⟩
  rw [List.nil_append, List.append_nil, render, String.toList_ofList]
  rfl

/-- The times of reports that were read are words of nanoseconds. -/
theorem fitsWords_of_read {p : Path} {text : String} {reports : List Report} (h : read p text = .ok reports) :
    ∀ r ∈ reports, r.FitsWords := by
  obtain ⟨b, t, b', -, ht, -, -⟩ := read_iff.1 h
  intro r hr
  obtain ⟨v, ts, -, hts⟩ := ht.exists_text (p := ("results", Json.ListText Report.LaidOut reports)) (.tail _ (.head _))
  obtain ⟨x, -, hx⟩ := Json.exists_right_of_forall₂ hts hr
  exact hx.fitsWords

theorem map_wrapped_of_fitsWords {reports : List Report} (h : ∀ r ∈ reports, r.FitsWords) :
    reports.map Report.wrapped = reports :=
  (List.map_congr_left fun r hr => Report.wrapped_eq_self_iff.2 (h r hr)).trans (List.map_id _)

/-! ## What a file holds -/

/-- The file at a path holds some reports: there is none, and no report, or it has their text. -/
def Holds (p : Path) (f : Files) (reports : List Report) : Prop :=
  f.has p = false ∧ reports = [] ∨
    p ≠ Files.nullDevice ∧ ∃ place content text, f.find p = .ok (place, .file content) ∧
      String.fromUTF8? content = some text ∧ read p text = .ok reports

theorem Holds.ne_nullDevice {p : Path} {f : Files} {reports : List Report} (h : Holds p f reports) :
    p ≠ Files.nullDevice := by
  rcases h with ⟨hhas, -⟩ | ⟨hnull, -⟩
  · exact Files.ne_nullDevice_of_not_has hhas
  · exact hnull

theorem Holds.fitsWords {p : Path} {f : Files} {reports : List Report} (h : Holds p f reports) :
    ∀ r ∈ reports, r.FitsWords := by
  rcases h with ⟨-, rfl⟩ | ⟨-, place, content, text, -, -, hread⟩
  · exact List.forall_mem_nil _
  · exact fitsWords_of_read hread

/-- A file that is read as a text is there. -/
theorem load_eq_read {h : History} {f : Files} {text : String} (htext : f.readText h.path = .ok text) :
    h.load f = read h.path text := by
  obtain ⟨content, hread, -⟩ := exists_ok_of_bind htext
  unfold load
  rw [if_neg (not_not_intro (Files.has_of_read hread)), htext]

theorem Holds.load {h : History} {f : Files} {reports : List Report} (hholds : Holds h.path f reports)
    (hcall : f.has h.path → ∃ content, f.read h.path = .ok content) : h.load f = .ok reports := by
  rcases hholds with ⟨hhas, rfl⟩ | ⟨hnull, place, content, text, hfind, htext, hread⟩
  · unfold History.load
    exact if_pos (Bool.eq_false_iff.1 hhas)
  · obtain ⟨content', hcontent⟩ := hcall (Files.has_of_find hfind)
    obtain ⟨place', hfind', -⟩ := Files.read_ok hnull hcontent
    cases hfind.symm.trans hfind'
    rw [load_eq_read (Files.readText_of_read hcontent htext)]
    exact hread

/-- The null device holds no history, as it holds nothing. -/
theorem ne_nullDevice_of_load {h : History} {f : Files} {reports : List Report} (hload : h.load f = .ok reports) :
    h.path ≠ Files.nullDevice := by
  intro hnull
  have htext : f.readText h.path = .ok "" := hnull ▸ Files.readText_nullDevice f
  have hempty : ∃ fault, Json.decode record.read "" = .error fault := ⟨_, rfl⟩
  obtain ⟨fault, hfault⟩ := hempty
  rw [load_eq_read htext, read, hfault] at hload
  cases hload

/-- A file that can be loaded holds what is loaded. -/
theorem holds_of_load {h : History} {f : Files} {reports : List Report} (hload : h.load f = .ok reports) :
    Holds h.path f reports := by
  have hnull := ne_nullDevice_of_load hload
  unfold History.load at hload
  split at hload
  · next hhas => cases hload; exact .inl ⟨Bool.eq_false_iff.2 hhas, rfl⟩
  · split at hload
    · cases hload
    · next text hreadText =>
      obtain ⟨content, hread, htext⟩ := exists_ok_of_bind hreadText
      obtain ⟨place, hfind, -⟩ := Files.read_ok hnull hread
      split at htext
      · next hutf8 => cases htext; exact .inr ⟨hnull, place, content, text, hfind, hutf8, hload⟩
      · cases htext

theorem holds_write {p : Path} {f g : Files} {reports : List Report} (hnull : p ≠ Files.nullDevice)
    (h : f.write p (render reports).toUTF8 = (g, .ok ())) : Holds p g (reports.map Report.wrapped) := by
  obtain ⟨place, hfind⟩ := Files.find_write hnull h
  exact .inr ⟨hnull, place, _, _, hfind, toUTF8_fromUTF8? _, read_render p reports⟩

theorem holds_remove {p : Path} {f g : Files} (h : f.remove p = .ok g) : Holds p g [] :=
  .inl ⟨Files.not_has_remove h, rfl⟩

end History

end ProbeSuite
