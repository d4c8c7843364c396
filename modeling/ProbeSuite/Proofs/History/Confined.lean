import ProbeSuite.Proofs.Files.Confined
import ProbeSuite.Proofs.History.Failing

/-!
# What a history leaves alone

* `History.load_makeParent` : what is loaded does not depend on directories above a direct path;
* `History.performAll_confined` : operations on a history change no other file;
* `History.performAll_of_load_error` : a file that cannot be loaded stays as it is until it is cleared;
* `History.failure_keeps_data` : all of these for one history.
-/

namespace ProbeSuite

namespace History

variable {h : History} {f : Files} {r : Report} {fault : HistoryFault}

/-! ## Failures -/

theorem append_of_load_error (hload : h.load f = .error fault) : h.append f r = (f, [], .error fault) := by
  unfold append
  rw [hload]

/-- What is loaded depends on what stands at the path. -/
theorem load_congr {g : Files} (hrefusal : g.refusal = f.refusal)
    (hfind : ∀ place e, g.find h.path = .ok (place, e) ↔ f.find h.path = .ok (place, e)) : h.load g = h.load f := by
  have hhas : g.has h.path = f.has h.path := by
    rw [Bool.eq_iff_iff, Files.has_iff, Files.has_iff]
    simp only [hfind]
  unfold load
  rw [hhas]
  by_cases hf : f.has h.path
  · have hread : g.readText h.path = f.readText h.path := by
      unfold Files.readText Files.read Files.permit
      by_cases hnull : h.path = Files.nullDevice
      · rw [if_pos hnull, if_pos hnull]
      · obtain ⟨place, e, hfound⟩ := Files.exists_find_of_has hnull hf
        rw [if_neg hnull, if_neg hnull, (hfind place e).2 hfound, hfound, hrefusal]
    rw [hread]
  · rw [if_pos hf, if_pos hf]

theorem load_makeParent (hp : h.path.IsDirect) (hf : f.IsTree) : h.load (f.makeParent h.path).1 = h.load f := by
  have hgrows := Files.makeParent_growsAbove hp f
  exact load_congr hgrows.1.refusal fun _ _ => hgrows.find_iff hp hf

/-- A report that could not be added leaves every file, and what is loaded, unless there was no room for it. -/
theorem append_error_keeps (hp : h.path.IsDirect) (hf : f.IsTree) (herror : (h.append f r).2.2 = .error fault) :
    ((h.load f = .error fault ∧ (h.append f r).1 = f ∨ (∃ parent e, fault = .noDirectory parent e) ∨
          ∃ e, fault = .unwritable h.path e ∧ (f.makeParent h.path).1.opens h.path = .error e) ∧
        (∀ q content, (h.append f r).1.entry q = some (.file content) ↔ f.entry q = some (.file content)) ∧
        h.load (h.append f r).1 = h.load f) ∨
      h.OutOfRoom f r := by
  rcases append_error herror with ⟨hload, hsame⟩ | ⟨hcause, hparent⟩ | hcut
  · refine .inl ⟨.inl ⟨hload, hsame⟩, ?_, ?_⟩
    · simp only [hsame, implies_true]
    · rw [hsame]
  · refine .inl ⟨.inr hcause, ?_, ?_⟩
    · rw [hparent]
      exact (Files.makeParent_grows f h.path).file_iff
    · rw [hparent]
      exact load_makeParent hp hf
  · exact .inr hcut

/-! ## Changes -/

theorem append_confined (hp : h.path.IsDirect) (f : Files) (r : Report) :
    Files.Confined h.path f (h.append f r).1 := by
  have hparent := (Files.makeParent_growsAbove hp f).confined
  cases hload : h.load f with
  | error fault =>
    rw [append_of_load_error hload]
    exact .refl _ f
  | ok reports =>
    rw [(append_of_load r hload).1]
    rcases save_files h f (h.keep (reports ++ [r])) with hmade | hwritten
    · rw [hmade]
      exact hparent
    · rw [hwritten]
      exact hparent.trans (Files.confined_write hp _ _)

theorem clear_cases (h : History) (f : Files) :
    h.clear f = (f, .ok ()) ∧ f.has h.path = false ∨
      (∃ e, h.clear f = (f, .error (.unremovable h.path e))) ∨
      ∃ g, h.clear f = (g, .ok ()) ∧ f.remove h.path = .ok g := by
  unfold clear
  by_cases hhas : f.has h.path
  · rw [if_neg (not_not_intro hhas)]
    cases f.remove h.path with
    | error e => exact .inr (.inl ⟨e, rfl⟩)
    | ok g => exact .inr (.inr ⟨g, rfl, rfl⟩)
  · rw [if_pos hhas]
    exact .inl ⟨rfl, Bool.eq_false_iff.2 hhas⟩

theorem clear_confined (hp : h.path.IsDirect) (f : Files) : Files.Confined h.path f (h.clear f).1 := by
  rcases clear_cases h f with ⟨hclear, -⟩ | ⟨e, hclear⟩ | ⟨g, hclear, hremove⟩
  · rw [hclear]
    exact .refl _ f
  · rw [hclear]
    exact .refl _ f
  · rw [hclear]
    exact Files.confined_remove hp hremove

theorem perform_confined (hp : h.path.IsDirect) (f : Files) (op : Operation) :
    Files.Confined h.path f (h.perform f op).1 := by
  cases op with
  | append r => exact append_confined hp f r
  | load => exact .refl _ f
  | count => exact .refl _ f
  | clear => exact clear_confined hp f

theorem performAll_confined {p : Path} (hp : p.IsDirect) (calls : List (History × Operation))
    (hcalls : ∀ call ∈ calls, call.1.path = p) (f : Files) : Files.Confined p f (performAll calls f).1 := by
  induction calls generalizing f with
  | nil => exact .refl _ f
  | cons call calls ih =>
    obtain ⟨hcall, hcalls⟩ := List.forall_mem_cons.1 hcalls
    have hfirst := perform_confined (hcall ▸ hp) f call.2
    rw [hcall] at hfirst
    exact hfirst.trans (ih hcalls _)

/-! ## Files that cannot be loaded -/

theorem load_of_path {h' : History} (hpath : h'.path = h.path) (f : Files) : h'.load f = h.load f := by
  unfold load
  rw [hpath]

theorem perform_of_load_error (hload : h.load f = .error fault) {op : Operation} (hop : op ≠ .clear) :
    h.perform f op = (f, .error fault) := by
  cases op with
  | append r => rw [perform, append_of_load_error hload]; rfl
  | load => rw [perform, hload]; rfl
  | count => rw [perform, count, hload]; rfl
  | clear => exact absurd rfl hop

/-- A file that cannot be loaded stays as it is, whatever is tried before it is cleared. -/
theorem performAll_of_load_error (hload : h.load f = .error fault) (calls : List (History × Operation))
    (hcalls : ∀ call ∈ calls, call.1.path = h.path ∧ call.2 ≠ .clear) :
    performAll calls f = (f, calls.map fun _ => .error fault) := by
  induction calls with
  | nil => rfl
  | cons call calls ih =>
    obtain ⟨h', op⟩ := call
    obtain ⟨⟨hpath, hop⟩, hcalls⟩ := List.forall_mem_cons.1 hcalls
    have hfirst := perform_of_load_error (h := h') ((load_of_path hpath f).trans hload) hop
    rw [performAll, hfirst]
    dsimp only
    rw [ih hcalls]
    rfl

theorem load_clear (hok : (h.clear f).2 = .ok ()) : h.load (h.clear f).1 = .ok [] := by
  have hhas : (h.clear f).1.has h.path = false := by
    rcases clear_cases h f with ⟨hclear, hhas⟩ | ⟨e, hclear⟩ | ⟨g, hclear, hremove⟩
    · rw [hclear]
      exact hhas
    · rw [hclear] at hok
      cases hok
    · rw [hclear]
      exact Files.not_has_remove hremove
  unfold load
  rw [hhas]
  rfl

theorem clear_ok_iff (hload : h.load f = .error fault) :
    (h.clear f).2 = .ok () ↔ ∃ g, f.remove h.path = .ok g := by
  have hhas : f.has h.path = true := by
    by_contra hnot
    unfold load at hload
    rw [if_pos hnot] at hload
    cases hload
  unfold clear
  rw [if_neg (not_not_intro hhas)]
  cases f.remove h.path with
  | error e => exact iff_of_false nofun nofun
  | ok g => exact iff_of_true rfl ⟨g, rfl⟩

/-! ## One history -/

/-- A file that was removed is all that is gone. -/
theorem entry_clear (hp : h.path.IsDirect) (f : Files) (q : Place) :
    (h.clear f).1.entry q = f.entry q ∨
      q = f.target h.path ∧ (∃ content, f.entry q = some (.file content)) ∧ (h.clear f).1.entry q = none := by
  rcases clear_cases h f with ⟨hclear, -⟩ | ⟨e, hclear⟩ | ⟨g, hclear, hremove⟩
  · rw [hclear]
    exact .inl rfl
  · rw [hclear]
    exact .inl rfl
  · rw [hclear]
    obtain ⟨-, place, content, hnames, hat, rfl⟩ := Files.remove_ok hremove
    by_cases hq : q = place
    · subst hq
      refine .inr ⟨hnames.eq_target hp, ⟨content, ?_⟩, if_pos rfl⟩
      rwa [Files.at?, if_neg (by simpa using hnames.ne_nil)] at hat
    · exact .inl (if_neg hq)

theorem file_append (hp : h.path.IsDirect) (hok : (h.append f r).2.2 = .ok ()) :
    ∃ content, (h.append f r).1.find h.path = .ok (f.target h.path, .file content) := by
  obtain ⟨reports, hload, -, hwrite⟩ := append_ok_iff.1 ⟨hok, rfl⟩
  obtain ⟨place, hfind⟩ := Files.find_write (ne_nullDevice_of_load hload) hwrite
  have hplace : place = (h.append f r).1.target h.path := Files.walk_direct hp (Files.find_ok_iff.1 hfind).2.1
  rw [Files.target_congr (append_confined hp f r).current] at hplace
  exact ⟨_, hplace ▸ hfind⟩

/-- **Failures keep all data, and successes change one file.** A report that could not be added, for whatever reason up
to the opening of the file, leaves every file, makes none, and changes nothing that is loaded. A file that cannot be
loaded fails every operation in the same way and stays until it is cleared. Of any operations, those that succeed
included, only the file at the path takes part, with directories on the way to it; loading changes nothing, and clearing
removes that file or nothing. -/
theorem failure_keeps_data (h : History) (hp : h.path.IsDirect) (f : Files) (hf : f.IsTree) :
    (∀ r fault, (h.append f r).2.2 = .error fault →
      ((h.load f = .error fault ∧ (h.append f r).1 = f ∨ (∃ parent e, fault = .noDirectory parent e) ∨
            ∃ e, fault = .unwritable h.path e ∧ (f.makeParent h.path).1.opens h.path = .error e) ∧
          (∀ q content, (h.append f r).1.entry q = some (.file content) ↔ f.entry q = some (.file content)) ∧
          h.load (h.append f r).1 = h.load f) ∨
        h.OutOfRoom f r) ∧
    (∀ fault, h.load f = .error fault →
      (∀ calls : List (History × Operation), (∀ call ∈ calls, call.1.path = h.path ∧ call.2 ≠ .clear) →
        performAll calls f = (f, calls.map fun _ => .error fault)) ∧
      ((h.clear f).2 = .ok () ↔ ∃ g, f.remove h.path = .ok g) ∧
      ((h.clear f).2 = .ok () → h.load (h.clear f).1 = .ok [])) ∧
    (∀ r, (h.append f r).2.2 = .ok () →
      ∃ content, (h.append f r).1.find h.path = .ok (f.target h.path, .file content)) ∧
    (h.perform f .load).1 = f ∧ (h.perform f .count).1 = f ∧
    (∀ q, (h.clear f).1.entry q = f.entry q ∨
      q = f.target h.path ∧ (∃ content, f.entry q = some (.file content)) ∧ (h.clear f).1.entry q = none) ∧
    ∀ calls : List (History × Operation), (∀ call ∈ calls, call.1.path = h.path) →
      Files.Confined h.path f (performAll calls f).1 := by
  exact ⟨fun r fault => append_error_keeps hp hf,
    fun fault hload => ⟨performAll_of_load_error hload, clear_ok_iff hload, load_clear⟩,
    fun r => file_append hp, rfl, rfl, entry_clear hp f, fun calls hcalls => performAll_confined hp calls hcalls f⟩

/-- A history of a later version, and one that is made. -/
theorem failure_keeps_data_version :
    let text := "\x7b\"version\":2,\"results\":[]\x7d"
    let p := "h.json".toList
    let f := (Files.fresh []).set [p] (some (.file text.toUTF8))
    let h := History.make p 5
    let r : Report := ⟨⟨0, 0, by decide, by decide⟩, ⟨"", "", 0⟩, []⟩
    performAll [(h, .append r), (h, .load), (h, .count), (h, .append r)] f =
        (f, List.replicate 4 (.error (.unsupported p 2))) ∧
      h.load (h.append f r).1 = h.load f ∧ h.load (h.clear f).1 = .ok [] ∧
      (∃ content, (h.append (Files.fresh []) r).1.find p = .ok ([p], .file content)) ∧
      Files.Confined p (Files.fresh []) (performAll [(h, .append r), (h, .clear)] (Files.fresh [])).1 := by
  intro text p f h r
  have hdirect : h.path.IsDirect := by
    unfold Path.IsDirect
    decide +kernel
  have hnames : (Files.fresh []).Names p [p] := ⟨[], p, by decide +kernel, by decide +kernel⟩
  have hfree : (Files.fresh []).at? [p] ≠ some .directory := show (none : Option Entry) ≠ _ from nofun
  have htree : f.IsTree := Files.isTree_set hnames hfree _ (Files.isTree_fresh [])
  obtain ⟨hfailed, hload, -⟩ := failure_keeps_data h hdirect f htree
  obtain ⟨-, -, hadded, -, -, -, hconfined⟩ := failure_keeps_data h hdirect (Files.fresh []) (Files.isTree_fresh [])
  obtain ⟨hkept, hclear, hcleared⟩ := hload (.unsupported p 2) (by decide +kernel)
  have hsame := (hfailed r (.unsupported p 2) (by decide +kernel)).resolve_right (not_outOfRoom fun _ => rfl)
  refine ⟨hkept _ ?_, hsame.2.2, hcleared (hclear.2 (exists_ok_of_toBool (by decide +kernel))),
    hadded r (by decide +kernel), hconfined _ ?_⟩
  · simp [h]
  · simp [h]

end History

end ProbeSuite
