import ProbeSuite.Proofs.Config
import ProbeSuite.Proofs.Config.Settings
import ProbeSuite.Proofs.Files
import ProbeSuite.Proofs.Text.Bytes

/-!
# Loading configuration files

* `load_of_not_text`, `load_of_not_document` : files that are no documents;
* `IsDocument.load_of_misfit`, `IsDocument.load_of_settings` : documents, whether their values fit or not;
* `IsDocument.load_ok_iff`, `IsDocument.load_congr` : what is loaded is what is said, whatever else is in the document;
* `load_is_what_is_said` : all of it.
-/

namespace ProbeSuite.Config

open Toml (Entries)

variable {c : Config} {f f' : Files} {p p' : Path} {es es' : Entries}

/-- The file at a path is a document with these entries. -/
def IsDocument (f : Files) (p : Path) (es : Entries) : Prop :=
  ∃ content text, f.read p = .ok content ∧ String.fromUTF8? content = some text ∧ Toml.document text.toList = some es

theorem IsDocument.sound (h : IsDocument f p es) : es.Sound := by
  obtain ⟨content, text, -, -, hdocument⟩ := h
  exact Toml.document_sound hdocument

theorem load_of_read_error {text : String} {fault : ReadFault} (hhas : f.has p = true) (h : f.readText p = .ok text)
    (hread : Config.read text = .error fault) : load f p = .error (.malformed p fault) := by
  unfold load
  rw [if_neg (not_not_intro hhas), h]
  dsimp only
  rw [hread]

theorem load_of_read_ok {text : String} (hhas : f.has p = true) (h : f.readText p = .ok text)
    (hread : Config.read text = .ok c) : load f p = (do c.validate; .ok c) := by
  unfold load
  rw [if_neg (not_not_intro hhas), h]
  dsimp only
  rw [hread]

/-- A file that is not UTF-8. -/
theorem load_of_not_text {content : ByteArray} (h : f.read p = .ok content) (htext : String.fromUTF8? content = none) :
    load f p = .error (.unreadable p .notText) := by
  unfold load
  rw [if_neg (not_not_intro (Files.has_of_read h)), Files.readText_of_not_text h htext]

/-- A file that is no document. -/
theorem load_of_not_document {content : ByteArray} {text : String} (h : f.read p = .ok content)
    (htext : String.fromUTF8? content = some text) (hdocument : Toml.document text.toList = none) :
    load f p = .error (.malformed p .malformed) := by
  have hread : Config.read text = .error .malformed := by
    unfold Config.read
    rw [hdocument]
  exact load_of_read_error (Files.has_of_read h) (Files.readText_of_read h htext) hread

/-- A document with a value that does not fit its key. -/
theorem IsDocument.load_of_misfit (h : IsDocument f p es) (hmisfit : ∀ c, ¬Settings default es.meaning c) :
    ∃ reason place, load f p = .error (.malformed p (.misfit reason place)) := by
  have hsound := h.sound
  obtain ⟨content, text, hread, htext, hdocument⟩ := h
  cases hentries : ofEntries es with
  | error e =>
    refine ⟨e.1, .ofSpan text.toList e.2, load_of_read_error (Files.has_of_read hread)
      (Files.readText_of_read hread htext) ?_⟩
    rw [Config.read, hdocument]
    dsimp only
    rw [hentries]
  | ok c => exact absurd ((ofEntries_ok_iff hsound).1 hentries) (hmisfit c)

/-- A document whose values fit is loaded if its limit is in range. -/
theorem IsDocument.load_of_settings (h : IsDocument f p es) (hc : Settings default es.meaning c) :
    load f p = (do c.validate; .ok c) := by
  have hentries := (ofEntries_ok_iff h.sound).2 hc
  obtain ⟨content, text, hread, htext, hdocument⟩ := h
  refine load_of_read_ok (Files.has_of_read hread) (Files.readText_of_read hread htext) ?_
  rw [Config.read, hdocument]
  dsimp only
  rw [hentries]

theorem validate_of_load (h : load f p = .ok c) : c.validate = .ok () := by
  unfold load at h
  split at h
  · cases h
    rfl
  · split at h
    · cases h
    · split at h
      · cases h
      · obtain ⟨_, hvalid, hc⟩ := exists_ok_of_bind h
        cases hc
        exact hvalid

theorem IsDocument.load_ok_iff (h : IsDocument f p es) : load f p = .ok c ↔
    Settings default es.meaning c ∧ 1 ≤ c.historyLimit.toNat ∧ c.historyLimit.toNat ≤ 10000 := by
  rw [← validate_ok_iff]
  refine ⟨fun hload => ⟨?_, validate_of_load hload⟩, fun ⟨hc, hvalid⟩ => ?_⟩
  · by_cases hfits : ∃ c, Settings default es.meaning c
    · obtain ⟨c₀, hc₀⟩ := hfits
      rw [h.load_of_settings hc₀] at hload
      obtain ⟨_, -, heq⟩ := exists_ok_of_bind hload
      cases heq
      exact hc₀
    · obtain ⟨reason, place, herror⟩ := h.load_of_misfit fun c hc => hfits ⟨c, hc⟩
      rw [herror] at hload
      cases hload
  · rw [h.load_of_settings hc, hvalid]
    rfl

/-- Documents that agree on the three keys are loaded as the same configuration, or not at all. -/
theorem IsDocument.load_congr (h : IsDocument f p es) (h' : IsDocument f' p' es')
    (hagree : ∀ key ∈ ["output", "record_history", "history_limit"], es'.meaning key.toList = es.meaning key.toList) :
    (load f' p').toOption = (load f p).toOption := by
  ext c
  rw [toOption_eq_some_iff, toOption_eq_some_iff, h.load_ok_iff, h'.load_ok_iff, Settings.congr hagree]

/-- **The configuration of a file is what its document says of the three keys**, and the default where it says
nothing, if all values fit and the limit is in range; no other configuration is ever loaded. Neither the order of the
entries nor anything else in the document matters. Where a value does not fit or the limit is out of range, and for
a file that is no document or no text, loading fails. -/
theorem load_is_what_is_said :
    (∀ (f : Files) (p : Path) (c : Config), load f p = .ok c → c.validate = .ok ()) ∧
    (∀ (f : Files) (p : Path) (content : ByteArray), f.read p = .ok content →
      (String.fromUTF8? content = none → load f p = .error (.unreadable p .notText)) ∧
      ∀ text, String.fromUTF8? content = some text → Toml.document text.toList = none →
        load f p = .error (.malformed p .malformed)) ∧
    (∀ (f : Files) (p : Path) (es : Entries), IsDocument f p es →
      let said := Settings ⟨.text, false, 100⟩ es.meaning
      (∀ c, load f p = .ok c ↔ said c ∧ 1 ≤ c.historyLimit.toNat ∧ c.historyLimit.toNat ≤ 10000) ∧
      ((∀ c, ¬said c) → ∃ reason place, load f p = .error (.malformed p (.misfit reason place))) ∧
      (∀ c, said c → c.historyLimit = 0 → load f p = .error .limitZero) ∧
      (∀ c, said c → 10000 < c.historyLimit → load f p = .error (.limitTooLarge c.historyLimit)) ∧
      es.names.Nodup ∧ ∀ es' : Entries, es'.Perm es → es'.meaning = es.meaning) ∧
    ∀ (f f' : Files) (p p' : Path) (es es' : Entries), IsDocument f p es → IsDocument f' p' es' →
      (∀ key ∈ ["output", "record_history", "history_limit"], es'.meaning key.toList = es.meaning key.toList) →
      (load f' p').toOption = (load f p).toOption := by
  refine ⟨fun _ _ _ => validate_of_load, fun f p content hread => ⟨load_of_not_text hread, fun text htext =>
    load_of_not_document hread htext⟩, fun f p es h => ?_, fun _ _ _ _ _ _ h h' => h.load_congr h'⟩
  intro said
  refine ⟨fun c => h.load_ok_iff, h.load_of_misfit, fun c hc hzero => ?_, fun c hc hlarge => ?_, h.sound.nodup,
    fun es' => Entries.meaning_perm h.sound.nodup⟩
  · rw [h.load_of_settings hc, validate, if_pos hzero]
    rfl
  · have hpos : c.historyLimit ≠ 0 := by
      intro hzero
      rw [hzero] at hlarge
      exact absurd hlarge (by decide)
    rw [h.load_of_settings hc, validate, if_neg hpos, if_pos (show maxLimit < c.historyLimit from hlarge)]
    rfl

/-- One configuration in two layouts: another order, comments, another spelling, and more keys and tables. -/
theorem load_is_what_is_said_layouts :
    let text := "history_limit = 100\noutput = \"json\"\n"
    let text' := "# all\nextra = [1]\noutput = 'json' # as one\nhistory_limit = 0x6_4\n[t]\noutput = 7\n"
    let f := (Files.fresh []).set ["a".toList] (some (.file text.toUTF8))
    let f' := (Files.fresh []).set ["a".toList] (some (.file text'.toUTF8))
    load f "a".toList = .ok ⟨.json, false, 100⟩ ∧ (load f' "a".toList).toOption = some ⟨.json, false, 100⟩ := by
  intro text text' f f'
  obtain ⟨-, -, hload, hagree⟩ := load_is_what_is_said
  let settings (es : Entries) :=
    (es.scalar? "output".toList, (es.get? "record_history".toList).isSome, es.scalar? "history_limit".toList)
  have hmeaning : ∀ cs, (Toml.document cs).map settings =
        some (some (.string "json".toList), false, some (.integer 100)) →
      ∃ es : Entries, Toml.document cs = some es ∧
        es.meaning "output".toList = some (.scalar (.string "json".toList)) ∧
        es.meaning "record_history".toList = none ∧
        es.meaning "history_limit".toList = some (.scalar (.integer 100)) := by
    intro cs hcs
    obtain ⟨es, hes, heq⟩ := Option.map_eq_some_iff.1 hcs
    obtain ⟨houtput, hrecord, hlimit⟩ := by simpa only [settings, Prod.mk.injEq] using heq
    refine ⟨es, hes, Entries.meaning_of_scalar? houtput, ?_, Entries.meaning_of_scalar? hlimit⟩
    rw [Entries.meaning_eq, Option.not_isSome_iff_eq_none.1 (Bool.eq_false_iff.1 hrecord), Option.map_none]
  obtain ⟨es, hes, houtput, hrecord, hlimit⟩ := hmeaning text.toList (by decide +kernel)
  obtain ⟨es', hes', houtput', hrecord', hlimit'⟩ := hmeaning text'.toList (by decide +kernel)
  have hdocument : IsDocument f "a".toList es := ⟨_, text, rfl, toUTF8_fromUTF8? text, hes⟩
  have hdocument' : IsDocument f' "a".toList es' := ⟨_, text', rfl, toUTF8_fromUTF8? text', hes'⟩
  have hsaid : Settings ⟨.text, false, 100⟩ es.meaning ⟨.json, false, 100⟩ := by
    rw [settings_iff, houtput, hrecord, hlimit]
    exact ⟨.present (.string .json), .absent, .present rfl⟩
  have hok := ((hload f _ es hdocument).1 ⟨.json, false, 100⟩).2 ⟨hsaid, by decide, by decide⟩
  refine ⟨hok, (hagree f f' _ _ es es' hdocument hdocument' ?_).trans (congrArg Except.toOption hok)⟩
  exact List.forall_mem_cons.2 ⟨houtput'.trans houtput.symm,
    List.forall_mem_cons.2 ⟨hrecord'.trans hrecord.symm, List.forall_mem_singleton.2 (hlimit'.trans hlimit.symm)⟩⟩

end ProbeSuite.Config
