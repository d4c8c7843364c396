import ProbeSuite.Proofs.Files.Grows
import ProbeSuite.Proofs.History.Refinement

/-!
# Reports that could not be added

* `History.OutOfRoom` : the file was opened for the reports, but they do not fit in;
* `History.append_error` : why a report could not be added, and what is left then;
* `History.append_of_no_room`, `append_of_not_opened` : what is left of a file without room, or one that stays closed;
* `History.append_error_grows` : directories at most, unless there was no room;
* `History.Settled` : a path leads to something, or to nothing that directories could change;
* `History.Holds.append_error`, `append_ok` : what the file holds after a failure, and after a success.
-/

namespace ProbeSuite

namespace History

variable {h : History} {f : Files} {r : Report} {fault : HistoryFault}

/-- The file was opened, which took away what it held, and had no room for the reports. The front of their text is left
of it. -/
def OutOfRoom (h : History) (f : Files) (r : Report) : Prop :=
  ∃ reports place n e, h.load f = .ok reports ∧ (f.makeParent h.path).1.opens h.path = .ok place ∧
    f.room place = some (n, e) ∧
    let text := (render (h.keep (reports ++ [r]))).toUTF8
    n < text.size ∧ (h.append f r).1 = (f.makeParent h.path).1.set place (some (.file (text.extract 0 n))) ∧
      (h.append f r).2.2 = .error (.unwritable h.path (.os e))

theorem not_outOfRoom (hroom : ∀ place, f.room place = none) : ¬h.OutOfRoom f r := by
  rintro ⟨reports, place, n, e, -, -, hfew, -⟩
  cases (hroom place).symm.trans hfew

theorem append_of_load (r : Report) {reports : List Report} (hload : h.load f = .ok reports) :
    (h.append f r).1 = (h.save f (h.keep (reports ++ [r]))).1 ∧
      (h.append f r).2.2 = (h.save f (h.keep (reports ++ [r]))).2.2 := by
  unfold append
  rw [hload]
  exact ⟨rfl, rfl⟩

/-- A report could not be added because those before it could not be loaded, because a directory could not be made,
because the file could not be opened, or because there was no room. -/
theorem append_error (herror : (h.append f r).2.2 = .error fault) :
    h.load f = .error fault ∧ (h.append f r).1 = f ∨
      ((∃ parent e, fault = .noDirectory parent e) ∨
        ∃ e, fault = .unwritable h.path e ∧ (f.makeParent h.path).1.opens h.path = .error e) ∧
          (h.append f r).1 = (f.makeParent h.path).1 ∨
      h.OutOfRoom f r := by
  cases hload : h.load f with
  | error fault' =>
    unfold append at herror ⊢
    rw [hload] at herror ⊢
    cases herror
    exact .inl ⟨rfl, rfl⟩
  | ok reports =>
    right
    obtain ⟨hfiles, hresult⟩ := append_of_load r hload
    have hsave := save_eq h f (h.keep (reports ++ [r]))
    have hroom := (Files.makeParent_grows f h.path).room
    rcases hparent : f.makeParent h.path with ⟨g, ⟨parent, e⟩ | _⟩
    · rw [hparent] at hsave
      rw [hresult, hsave] at herror
      cases herror
      rw [hfiles, hsave]
      exact .inl ⟨.inl ⟨parent, e, rfl⟩, rfl⟩
    · rw [hparent] at hsave hroom
      have hends := Files.write_ends g h.path (render (h.keep (reports ++ [r]))).toUTF8
      dsimp only at hsave
      generalize hwrite : g.write h.path (render (h.keep (reports ++ [r]))).toUTF8 = result at hends hsave
      cases hends with
      | dropped =>
        rw [hresult, hsave] at herror
        cases herror
      | closed e hopens =>
        rw [hresult, hsave] at herror
        cases herror
        rw [hfiles, hsave]
        exact .inl ⟨.inr ⟨e, rfl, hopens⟩, rfl⟩
      | cut place n e hopens hfew hlarge =>
        refine .inr ⟨reports, place, n, e, hload, ?_, hroom ▸ hfew, hlarge, ?_, ?_⟩
        · rw [hparent]
          exact hopens
        · rw [hfiles, hsave, hparent]
        · rw [hresult, hsave]
      | whole =>
        rw [hresult, hsave] at herror
        cases herror

theorem size_render_pos (reports : List Report) : 0 < (render reports).toUTF8.size := by
  have hne : render reports ≠ "" := by
    intro hempty
    have hchars := congrArg String.toList hempty
    rw [render, String.toList_ofList, stored, Json.Value.pretty, Json.Value.prettyAt] at hchars
    cases hchars
  rw [String.toUTF8_eq_toByteArray, String.size_toByteArray, Nat.pos_iff_ne_zero, ne_eq,
    String.utf8ByteSize_eq_zero_iff]
  exact hne

/-- Where there is no room at all, nothing is left of a history. -/
theorem append_of_no_room (r : Report) {reports : List Report} {place : Place} {e : Errno}
    (hload : h.load f = .ok reports) (hparent : f.makeParent h.path = (f, .ok ()))
    (hopens : f.opens h.path = .ok place) (hroom : f.room place = some (0, e)) :
    (h.append f r).1 = f.set place (some (.file .empty)) ∧
      (h.append f r).2.2 = .error (.unwritable h.path (.os e)) := by
  obtain ⟨hfiles, hresult⟩ := append_of_load r hload
  have hends := Files.write_ends f h.path (render (h.keep (reports ++ [r]))).toUTF8
  have hlarge := size_render_pos (h.keep (reports ++ [r]))
  rw [hfiles, hresult, save_eq, hparent]
  dsimp only
  generalize f.write h.path (render (h.keep (reports ++ [r]))).toUTF8 = result at hends ⊢
  cases hends with
  | dropped hnull => exact absurd hnull (ne_nullDevice_of_load hload)
  | closed e herror => cases hopens.symm.trans herror
  | cut place' n e' hopens' hroom' =>
    cases hopens.symm.trans hopens'
    cases hroom.symm.trans hroom'
    rw [ByteArray.extract_same]
    exact ⟨rfl, rfl⟩
  | whole place' hopens' hfits =>
    cases hopens.symm.trans hopens'
    exact absurd (hfits 0 e hroom) (Nat.not_le.2 hlarge)

/-- A history whose file cannot be opened is left as the directories above it leave it. -/
theorem append_of_not_opened (r : Report) {reports : List Report} {g : Files} {e : IoError}
    (hload : h.load f = .ok reports) (hparent : f.makeParent h.path = (g, .ok ()))
    (hopens : g.opens h.path = .error e) :
    (h.append f r).1 = g ∧ (h.append f r).2.2 = .error (.unwritable h.path e) := by
  obtain ⟨hfiles, hresult⟩ := append_of_load r hload
  rw [hfiles, hresult, save_eq, hparent]
  dsimp only
  rw [Files.write_of_opens_error (ne_nullDevice_of_load hload) hopens]
  exact ⟨rfl, rfl⟩

theorem append_error_grows (herror : (h.append f r).2.2 = .error fault) (hroom : ¬h.OutOfRoom f r) :
    Files.Grows f (h.append f r).1 fun _ => True := by
  rcases append_error herror with ⟨-, hsame⟩ | ⟨-, hparent⟩ | hcut
  · rw [hsame]
    exact .refl f _
  · rw [hparent]
    exact Files.makeParent_grows f h.path
  · exact absurd hcut hroom

/-- Whether a path leads to something, or to nothing that directories could change. -/
def Settled (p : Path) (f : Files) : Prop := f.has p ∨ p.IsDirect ∧ f.IsTree

-- A path back out of a directory that does not exist leads nowhere until the directory is made.
example :
    let f := (Files.fresh []).set ["h.json".toList] (some (.file ByteArray.empty))
    let p := "a/../h.json".toList
    f.has p = false ∧ (f.makeParent p).1.has p = true := by decide +kernel

theorem Holds.append_error {reports : List Report} (hholds : Holds h.path f reports)
    (hsettled : Settled h.path f) (herror : (h.append f r).2.2 = .error fault) (hroom : ¬h.OutOfRoom f r) :
    Holds h.path (h.append f r).1 reports ∧ Settled h.path (h.append f r).1 := by
  have hgrows := append_error_grows herror hroom
  have hnull := hholds.ne_nullDevice
  rcases hsettled with hhas | ⟨hdirect, htree⟩
  -- what is found is found in more directories too; where nothing was, only the steps of the path count
  · obtain ⟨place, e, hfind⟩ := Files.exists_find_of_has hnull hhas
    refine ⟨?_, .inl (Files.has_of_find (hgrows.find hfind))⟩
    rcases hholds with ⟨hmissing, -⟩ | ⟨-, place', content, text, hfile, htext, hread⟩
    · rw [hhas] at hmissing
      cases hmissing
    · exact .inr ⟨hnull, place', content, text, hgrows.find hfile, htext, hread⟩
  · have hkept : (h.append f r).1.has h.path = f.has h.path ∧ (h.append f r).1.IsTree := by
      rcases History.append_error herror with ⟨-, hsame⟩ | ⟨-, hparent⟩ | hcut
      · rw [hsame]
        exact ⟨rfl, htree⟩
      · rw [hparent]
        exact ⟨Files.has_makeParent hdirect htree, (Files.makeParent_growsAbove hdirect f).2 htree⟩
      · exact absurd hcut hroom
    refine ⟨?_, .inr ⟨hdirect, hkept.2⟩⟩
    rcases hholds with ⟨hmissing, rfl⟩ | ⟨-, place, content, text, hfile, htext, hread⟩
    · exact .inl ⟨hkept.1.trans hmissing, rfl⟩
    · exact .inr ⟨hnull, place, content, text, hgrows.find hfile, htext, hread⟩

theorem Holds.eq_of_load {reports loaded : List Report} (hholds : Holds h.path f reports)
    (hload : h.load f = .ok loaded) : loaded = reports := by
  have hread : f.has h.path → ∃ content, f.read h.path = .ok content := by
    intro hhas
    unfold History.load at hload
    rw [if_neg (not_not_intro hhas)] at hload
    split at hload
    · cases hload
    · next text htext =>
      obtain ⟨content, hcontent, -⟩ := exists_ok_of_bind htext
      exact ⟨content, hcontent⟩
  exact Except.ok.inj (hload.symm.trans (hholds.load hread))

theorem Holds.append_ok {reports : List Report} (hholds : Holds h.path f reports)
    (hok : (h.append f r).2.2 = .ok ()) :
    Holds h.path (h.append f r).1 ((reports ++ [r.wrapped]).rtake h.limit.toNat) ∧
      Settled h.path (h.append f r).1 := by
  obtain ⟨loaded, hload, -, hwrite⟩ := append_ok_iff.1 ⟨hok, rfl⟩
  cases hholds.eq_of_load hload
  obtain ⟨place, hfind⟩ := Files.find_write hholds.ne_nullDevice hwrite
  exact ⟨hholds.append hload hok, .inl (Files.has_of_find hfind)⟩

/-- A report that was added is the next one of the list. -/
theorem Holds.next {p : Path} {limit : UInt64} {reports : List Report} (hholds : Holds p f reports)
    (hok : ((make p limit).append f r).2.2 = .ok ()) :
    Holds p ((make p limit).append f r).1 (Operation.next limit reports (.append r)) ∧
      Settled p ((make p limit).append f r).1 := by
  have hadded := Holds.append_ok (h := make p limit) (by rwa [make_path]) hok
  rw [make_path, toNat_make_limit] at hadded
  exact hadded

end History

end ProbeSuite
