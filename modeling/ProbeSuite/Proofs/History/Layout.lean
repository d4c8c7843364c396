import ProbeSuite.Proofs.History
import ProbeSuite.Proofs.Json.Flaw

/-!
# Layouts of reports and histories

* `Report.Flawed`, `History.Flawed` : texts in which a field of one of the records is missing or stands twice, or the
  list of its fields is too short or too long;
* `History.reads_every_layout` : what is read depends on the data of a text only, and flawed texts are not read.
-/

namespace ProbeSuite

open Json (Blank Document GoesOn RecordFlaw ListFlaw)

def Measurement.Flawed : List Char → Prop :=
  RecordFlaw [("kind", fun _ => False), ("value", fun _ => False), ("elapsed", fun _ => False)]

theorem Measurement.Flawed.not_laidOut {t : List Char} (h : Flawed t) (m : Measurement) : ¬m.LaidOut t :=
  h.not_recordText (slots_record.grammatical_parts m)
    (.cons ⟨rfl, fun _ h => h.elim⟩ (.cons ⟨rfl, fun _ h => h.elim⟩ (.cons ⟨rfl, fun _ h => h.elim⟩ .nil)))

def Host.Flawed : List Char → Prop :=
  RecordFlaw [("os", fun _ => False), ("arch", fun _ => False), ("cpu_count", fun _ => False)]

theorem Host.Flawed.not_laidOut {t : List Char} (h : Flawed t) (host : Host) : ¬host.LaidOut t :=
  h.not_recordText (slots_record.grammatical_parts host)
    (.cons ⟨rfl, fun _ h => h.elim⟩ (.cons ⟨rfl, fun _ h => h.elim⟩ (.cons ⟨rfl, fun _ h => h.elim⟩ .nil)))

/-- The text of a report has a flaw in one of its records. -/
def Report.Flawed : List Char → Prop :=
  RecordFlaw [("timestamp", fun _ => False), ("system_info", Host.Flawed), ("probes", ListFlaw Measurement.Flawed)]

theorem Report.Flawed.not_laidOut {t : List Char} (h : Flawed t) (r : Report) : ¬r.LaidOut t := by
  refine h.not_recordText (slots_record.grammatical_parts r) (.cons ⟨rfl, fun _ h => h.elim⟩
    (.cons ⟨rfl, fun _ h => h.not_laidOut r.host⟩ (.cons ⟨rfl, fun _ h => ?_⟩ .nil)))
  exact ListFlaw.not_listText (fun _ _ => Measurement.recognizes.grammatical) (fun _ h m => h.not_laidOut m) h
    r.measurements

namespace History

/-- The text of a history has a flaw in one of its records. -/
def Flawed : List Char → Prop :=
  RecordFlaw [("version", fun _ => False), ("results", ListFlaw Report.Flawed)]

theorem Flawed.not_laidOut {t : List Char} (h : Flawed t) (v : Nat) (reports : List Report) :
    ¬Json.RecordText (slots.map (·.toPart (v, reports))) t := by
  refine h.not_recordText (slots_record.grammatical_parts (v, reports))
    (.cons ⟨rfl, fun _ h => h.elim⟩ (.cons ⟨rfl, fun _ h => ?_⟩ .nil))
  exact ListFlaw.not_listText (fun _ _ => Report.recognizes.grammatical) (fun _ h r => h.not_laidOut r) h reports

theorem load_malformed {h : History} {f : Files} {text : String} (htext : f.readText h.path = .ok text)
    (hdecode : ∃ fault, Json.decode record.read text = .error fault) :
    ∃ fault, h.load f = .error (.malformed h.path fault) := by
  obtain ⟨fault, hdecode⟩ := hdecode
  refine ⟨fault, ?_⟩
  rw [load_eq_read htext, read, hdecode]

/-- **What is read depends on the data of a text, not on its layout.** Both texts of a stored report are among
those that lay it out, and a text is read as the report if and only if it does; the same holds of histories. So
a text with a flaw, or with more than blanks after its value, is not read. -/
theorem reads_every_layout :
    (∀ (layout : Report.Layout) (r : Report), (∀ m ∈ r.measurements, m.elapsed.nanos < 2 ^ 64) →
      Document r.LaidOut (r.encode layout)) ∧
    (∀ (text : String) (r : Report), Report.decode text = .ok r ↔ Document r.LaidOut text) ∧
    (∀ (h : History) (f : Files) (text : String), f.readText h.path = .ok text →
      ∀ reports, h.load f = .ok reports ↔ Document (LaidOut reports) text) ∧
    (∀ text : String, Document Report.Flawed text ∨ GoesOn text → ∃ fault, Report.decode text = .error fault) ∧
    ∀ (h : History) (f : Files) (text : String), f.readText h.path = .ok text →
      Document Flawed text ∨ GoesOn text → ∃ fault, h.load f = .error (.malformed h.path fault) := by
  refine ⟨?_, ?_, ?_, ?_, ?_⟩
  · intro layout r hwords
    have hlaidOut := r.laidOut_encode layout
    rw [Report.wrapped_eq_self_iff.2 hwords] at hlaidOut
    exact ⟨[], _, [], Blank.nil, hlaidOut, Blank.nil, by rw [List.nil_append, List.append_nil]⟩
  · exact fun text r => Report.recognizes.decode_iff
  · intro h f text htext reports
    rw [load_eq_read htext]
    exact read_iff
  · rintro text (htext | htext)
    · exact Report.recognizes.decode_flawed (fun _ => RecordFlaw.grammatical) (fun _ => Report.Flawed.not_laidOut) htext
    · exact Report.recognizes.decode_goesOn (fun h => h.not_number) htext
  · rintro h f text hread (htext | htext)
    · exact load_malformed hread (slots_record.recognizes.decode_flawed (fun _ => RecordFlaw.grammatical)
        (fun _ ht stored => Flawed.not_laidOut ht stored.1 stored.2) htext)
    · exact load_malformed hread (slots_record.recognizes.decode_goesOn (fun h => h.not_number) htext)

/-- A list, and in it an object with its members backwards behind one of an unknown name; a list of too few fields;
and the same of histories in a file. -/
theorem reads_every_layout_backwards :
    let files : String → Files := fun text => (Files.fresh []).set ["h.json".toList] (some (.file text.toUTF8))
    let h := History.make "h.json".toList 5
    let r : Report := ⟨⟨0, 0, by decide, by decide⟩, ⟨"", "", 1⟩, []⟩
    Report.decode r.pretty = .ok r ∧
      Report.decode "[\"1970-01-01T00:00:00Z\", \x7b\"x\":[],\"cpu_count\":1,\"arch\":\"\",\"os\":\"\"\x7d\n,[]]\n" =
        .ok r ∧
      (∃ fault, Report.decode "[]" = .error fault) ∧
      h.load (files "[1, []]") = .ok [] ∧ ∃ fault, h.load (files "[]") = .error (.malformed h.path fault) := by
  intro files h r
  have hempty : Json.ListOf [] ['[', ']'] := ⟨[], [], .nil, Blank.nil, rfl⟩
  have hstring : ∀ s : String, Json.Quoted s.toList (Json.quote s.toList) := fun s => Json.quoted_quote s.toList
  have hkey : ∀ {k k' : String}, k' ≠ k → ¬Json.StringOf (k.toList.flatMap Json.escape) k'.toList :=
    fun hne h => hne (String.toList_inj.1 ((Json.stringOf_quoted _).unique h)).symm
  have hhost : Host.LaidOut ⟨"", "", 1⟩ (Json.Value.object
      [("x", .array []), ("cpu_count", .number 1), ("arch", .string ""), ("os", .string "")]).compact := by
    refine .members (Json.lays_compact.object 0 _) ?_ ?_
    · simp only [List.map_cons, List.map_nil, List.forall_mem_cons]
      exact ⟨⟨⟨_, Json.stringOf_quoted _⟩, .list hempty (List.forall_mem_nil _)⟩,
        ⟨⟨_, Json.stringOf_quoted _⟩, .number (Json.numberText_toDigits 1)⟩,
        ⟨⟨_, Json.stringOf_quoted _⟩, Json.recognizes_string.grammatical (hstring "")⟩,
        ⟨⟨_, Json.stringOf_quoted _⟩, Json.recognizes_string.grammatical (hstring "")⟩,
        List.forall_mem_nil _⟩
    · simp only [List.map_cons, List.map_nil, List.forall_mem_cons]
      have hnone : ∀ name, Json.Absent name [] := fun _ => List.forall_mem_nil _
      refine ⟨?_, ?_, ?_, List.forall_mem_nil _⟩
      · exact .cons (hkey (by decide)) (.cons (hkey (by decide)) (.cons (hkey (by decide))
          (.head (Json.stringOf_quoted _) (hstring "") (hnone _))))
      · exact .cons (hkey (by decide)) (.cons (hkey (by decide))
          (.head (Json.stringOf_quoted _) (hstring "") ((hnone _).cons (hkey (by decide)))))
      · exact .cons (hkey (by decide)) (.head (Json.stringOf_quoted _) rfl
          (((hnone _).cons (hkey (by decide))).cons (hkey (by decide))))
  have htime : r.timestamp.LaidOut (Json.quote "1970-01-01T00:00:00Z".toList) :=
    ⟨_, by decide +kernel, Json.quoted_quote _⟩
  have hreport : r.LaidOut _ :=
    .elements ⟨_, [], .cons (.first Blank.nil) (.cons (.next Blank.nil Json.blank_space)
      (.cons (.next (Json.blank_newline 0) Blank.nil) .nil)), Blank.nil, rfl⟩
      (.cons htime (.cons hhost (.cons ⟨[], hempty, .nil⟩ .nil)))
  have hreports : LaidOut [] ['[', '1', ',', ' ', '[', ']', ']'] :=
    .elements ⟨_, [], .cons (.first Blank.nil) (.cons (.next Blank.nil Json.blank_space) .nil), Blank.nil, rfl⟩
      (.cons ⟨by decide, rfl⟩ (.cons ⟨[], hempty, .nil⟩ .nil))
  have hread : ∀ text, (files text).readText h.path = .ok text := by
    intro text
    have hfind : (files text).find h.path = .ok (["h.json".toList], .file text.toUTF8) := rfl
    exact Files.readText_of_read (Files.read_of_find (by decide) hfind rfl) (toUTF8_fromUTF8? text)
  obtain ⟨hencode, hdecode, hload, hflawed, hunread⟩ := reads_every_layout
  refine ⟨(hdecode _ r).2 (hencode .pretty r (List.forall_mem_nil _)),
    (hdecode _ r).2 ⟨[], _, ['\n'], Blank.nil, hreport, Json.blank_newline 0, by decide +kernel⟩,
    hflawed _ (.inl ⟨[], _, [], Blank.nil, .length hempty (List.forall_mem_nil _) (by decide), Blank.nil, ?_⟩),
    (hload h _ _ (hread _) _).2 ⟨[], _, [], Blank.nil, hreports, Blank.nil, ?_⟩,
    hunread h _ _ (hread _) (.inl ⟨[], _, [], Blank.nil,
      .length hempty (List.forall_mem_nil _) (by decide), Blank.nil, ?_⟩)⟩
  all_goals decide +kernel

end History

end ProbeSuite
