import Mathlib.Data.List.DropRight
import ProbeSuite.Proofs.Files.Grows
import ProbeSuite.Proofs.History

/-!
# Histories are lists

* `History.append_ok_iff` : what it takes to add a report;
* `History.Operation`, `perform`, `performAll` : the operations, and a run of them through handles;
* `History.Unhindered` : the accesses to files that an operation makes succeed;
* `History.Operation.next`, `answer`, `onList` : what the operations do to a list;
* `History.refines_list` : a run of operations does to the file what it does to the list.
-/

namespace ProbeSuite

namespace History

/-! ## Adding a report -/

/-- To save, the reports are always rendered. -/
theorem save_eq (h : History) (f : Files) (reports : List Report) : h.save f reports =
    match f.makeParent h.path with
    | (f, .error (parent, e)) => (f, [], .error (.noDirectory parent e))
    | (f, .ok ()) =>
      match f.write h.path (render reports).toUTF8 with
      | (f, .error e) => (f, [], .error (.unwritable h.path e))
      | (f, .ok ()) => (f, [.historySaved h.path reports.length], .ok ()) := rfl

theorem save_files (h : History) (f : Files) (reports : List Report) :
    (h.save f reports).1 = (f.makeParent h.path).1 ∨
      (h.save f reports).1 = ((f.makeParent h.path).1.write h.path (render reports).toUTF8).1 := by
  rw [save_eq]
  rcases f.makeParent h.path with ⟨g, e | _⟩
  · exact .inl rfl
  · right
    dsimp only
    rcases g.write h.path (render reports).toUTF8 with ⟨k, e | _⟩
    · rfl
    · rfl

theorem save_ok_iff {h : History} {f g : Files} {reports : List Report} :
    (h.save f reports).2.2 = .ok () ∧ (h.save f reports).1 = g ↔
      (f.makeParent h.path).2 = .ok () ∧
        (f.makeParent h.path).1.write h.path (render reports).toUTF8 = (g, .ok ()) := by
  rw [save_eq]
  rcases f.makeParent h.path with ⟨f', e | _⟩
  · exact ⟨fun hok => (nomatch hok.1), fun hok => (nomatch hok.1)⟩
  · dsimp only
    rcases f'.write h.path (render reports).toUTF8 with ⟨g', e | _⟩
    · exact ⟨fun hok => (nomatch hok.1), fun hok => (nomatch (Prod.mk.inj hok.2).2)⟩
    · exact ⟨fun hok => ⟨rfl, Prod.ext hok.2 rfl⟩, fun hok => ⟨rfl, (Prod.mk.inj hok.2).1⟩⟩

theorem append_ok_iff {h : History} {f g : Files} {r : Report} :
    (h.append f r).2.2 = .ok () ∧ (h.append f r).1 = g ↔
      ∃ reports, h.load f = .ok reports ∧ (f.makeParent h.path).2 = .ok () ∧
        (f.makeParent h.path).1.write h.path (render (h.keep (reports ++ [r]))).toUTF8 = (g, .ok ()) := by
  unfold append
  cases h.load f with
  | error fault => exact ⟨fun hok => (nomatch hok.1), fun ⟨_, hload, _⟩ => (nomatch hload)⟩
  | ok reports =>
    constructor
    · exact fun hok => ⟨reports, rfl, save_ok_iff.1 hok⟩
    · rintro ⟨_, hload, hsave⟩
      cases hload
      exact save_ok_iff.2 hsave

theorem map_wrapped_keep {h : History} {reports : List Report} (hwords : ∀ r ∈ reports, r.FitsWords)
    (r : Report) : (h.keep (reports ++ [r])).map Report.wrapped = (reports ++ [r.wrapped]).rtake h.limit.toNat := by
  unfold keep List.rtake
  rw [List.map_drop, List.map_append, map_wrapped_of_fitsWords hwords, List.length_append, List.length_append]
  rfl

/-- **A report that was added is the last** of the reports the file holds. -/
theorem Holds.append {h : History} {f : Files} {reports : List Report} {r : Report}
    (hholds : Holds h.path f reports) (hload : h.load f = .ok reports) (hok : (h.append f r).2.2 = .ok ()) :
    Holds h.path (h.append f r).1 ((reports ++ [r.wrapped]).rtake h.limit.toNat) := by
  obtain ⟨reports', hload', -, hwrite⟩ := append_ok_iff.1 ⟨hok, rfl⟩
  cases hload.symm.trans hload'
  rw [← map_wrapped_keep hholds.fitsWords]
  exact holds_write hholds.ne_nullDevice hwrite

theorem toNat_make_limit (p : Path) (limit : UInt64) : (make p limit).limit.toNat = max limit.toNat 1 := by
  unfold make
  split
  · next h => subst h; rfl
  · next h =>
    have hpos : 0 < limit.toNat := Nat.pos_of_ne_zero fun e => h (UInt64.toNat_inj.1 e)
    exact (Nat.max_eq_left hpos).symm

theorem make_path (p : Path) (limit : UInt64) : (make p limit).path = p := by
  unfold make
  split <;> rfl

/-! ## Operations on the file -/

/-- An operation on a history. -/
inductive Operation where
  | append (report : Report)
  | load
  | count
  | clear

/-- What an operation answers. -/
inductive Answer where
  | done
  | reports (reports : List Report)
  | number (n : Nat)

/-- Performs an operation through a handle. -/
def perform (h : History) (f : Files) : Operation → Files × Except HistoryFault Answer
  | .append r => ((h.append f r).1, (h.append f r).2.2.map fun _ => .done)
  | .load => (f, (h.load f).map .reports)
  | .count => (f, (h.count f).map .number)
  | .clear => ((h.clear f).1, (h.clear f).2.map fun _ => .done)

/-- Performs operations one after the other, each on the files that the one before left. -/
def performAll : List (History × Operation) → Files → Files × List (Except HistoryFault Answer)
  | [], f => (f, [])
  | (h, op) :: calls, f =>
    let (g, answer) := h.perform f op
    let (last, answers) := performAll calls g
    (last, answer :: answers)

/-- The accesses to files that an operation makes succeed. -/
def Unhindered (h : History) (f : Files) : Operation → Prop
  | .append r =>
    (f.has h.path → ∃ content, f.read h.path = .ok content) ∧ (f.makeParent h.path).2 = .ok () ∧
      ∀ reports, h.load f = .ok reports →
        ∃ g, (f.makeParent h.path).1.write h.path (render (h.keep (reports ++ [r]))).toUTF8 = (g, .ok ())
  | .load | .count => f.has h.path → ∃ content, f.read h.path = .ok content
  | .clear => f.has h.path → ∃ g, f.remove h.path = .ok g

/-- A report is added without hindrance where the file can be opened and any number of bytes fits in. -/
theorem unhindered_append {h : History} {f : Files} (hread : f.has h.path → ∃ content, f.read h.path = .ok content)
    (hparent : (f.makeParent h.path).2 = .ok ()) (hopens : ((f.makeParent h.path).1.opens h.path).toBool = true)
    (hroom : ∀ place, f.room place = none) (r : Report) : h.Unhindered f (.append r) := by
  refine ⟨hread, hparent, fun reports _ => Files.exists_write hopens ?_ _⟩
  rw [(Files.makeParent_grows f h.path).room]
  exact hroom

/-- No operation makes room or takes it. -/
theorem room_perform (h : History) (f : Files) (op : Operation) : (h.perform f op).1.room = f.room := by
  cases op with
  | append r =>
    rw [perform, append]
    cases h.load f with
    | error fault => rfl
    | ok reports =>
      show (h.save f _).1.room = f.room
      have hparent := (Files.makeParent_grows f h.path).room
      rcases save_files h f (h.keep (reports ++ [r])) with hfiles | hfiles
      · rw [hfiles, hparent]
      · rw [hfiles, Files.room_write, hparent]
  | load => rfl
  | count => rfl
  | clear =>
    rw [perform, clear]
    split
    · rfl
    · split
      · rfl
      · next g hremove =>
        obtain ⟨-, place, content, -, -, rfl⟩ := Files.remove_ok hremove
        rfl

/-- The accesses of all operations of a run succeed. -/
def AllUnhindered : List (History × Operation) → Files → Prop
  | [], _ => True
  | (h, op) :: calls, f => h.Unhindered f op ∧ AllUnhindered calls (h.perform f op).1

/-! ## Operations on a list -/

namespace Operation

/-- The list after an operation with a limit. A limit of zero keeps one report. -/
def next (limit : UInt64) (reports : List Report) : Operation → List Report
  | .append r => (reports ++ [r.wrapped]).rtake (max limit.toNat 1)
  | .load | .count => reports
  | .clear => []

/-- What an operation on a list answers. -/
def answer (reports : List Report) : Operation → Answer
  | .append _ | .clear => .done
  | .load => .reports reports
  | .count => .number reports.length

/-- The list after operations with their limits, and what they answer. -/
def onList : List (UInt64 × Operation) → List Report → List Report × List Answer
  | [], reports => (reports, [])
  | (limit, op) :: calls, reports =>
    let (last, answers) := onList calls (op.next limit reports)
    (last, op.answer reports :: answers)

/-- A report that is added is never dropped, and the reports before it are dropped oldest first. -/
theorem next_append (limit : UInt64) (reports : List Report) (r : Report) :
    ∃ kept, kept <:+ reports ∧ next limit reports (.append r) = kept ++ [r.wrapped] := by
  refine ⟨reports.rtake (max limit.toNat 1 - 1), List.drop_suffix _ _, ?_⟩
  obtain ⟨n, hn⟩ : ∃ n, max limit.toNat 1 = n + 1 := Nat.exists_eq_add_one.2 (Nat.le_max_right limit.toNat 1)
  show (reports ++ [r.wrapped]).rtake (max limit.toNat 1) = _
  rw [hn, List.rtake_concat_succ]
  rfl

end Operation

/-! ## The refinement -/

/-- One operation does to the file what it does to the list. -/
theorem Holds.perform {p : Path} {f : Files} {reports : List Report} (hholds : Holds p f reports) (limit : UInt64)
    (op : Operation) (hcall : (make p limit).Unhindered f op) :
    ((make p limit).perform f op).2 = .ok (op.answer reports) ∧
      Holds p ((make p limit).perform f op).1 (op.next limit reports) := by
  have hpath := make_path p limit
  have hholds' : Holds (make p limit).path f reports := hpath.symm ▸ hholds
  cases op with
  | append r =>
    obtain ⟨hread, hparent, hwrite⟩ := hcall
    have hload := hholds'.load hread
    obtain ⟨g, hg⟩ := hwrite reports hload
    obtain ⟨hok, -⟩ := append_ok_iff.2 ⟨reports, hload, hparent, hg⟩
    refine ⟨by rw [History.perform, hok]; rfl, ?_⟩
    have hnext := hholds'.append hload hok
    rw [hpath, toNat_make_limit] at hnext
    exact hnext
  | load =>
    have hload := hholds'.load hcall
    exact ⟨by rw [History.perform, hload]; rfl, hholds⟩
  | count =>
    have hload := hholds'.load hcall
    exact ⟨by rw [History.perform, count, hload]; rfl, hholds⟩
  | clear =>
    rw [History.perform, clear]
    by_cases hhas : f.has (make p limit).path
    · obtain ⟨g, hg⟩ := hcall hhas
      rw [if_neg (not_not_intro hhas), hg]
      exact ⟨rfl, holds_remove (hpath ▸ hg)⟩
    · rw [if_pos hhas]
      exact ⟨rfl, .inl ⟨hpath ▸ Bool.eq_false_iff.2 hhas, rfl⟩⟩

theorem Holds.performAll {p : Path} {ι : Type} (limits : ι → UInt64) (calls : List (ι × Operation)) :
    ∀ {f : Files} {reports : List Report}, Holds p f reports →
      AllUnhindered (calls.map fun call => (make p (limits call.1), call.2)) f →
      (History.performAll (calls.map fun call => (make p (limits call.1), call.2)) f).2 =
          (Operation.onList (calls.map fun call => (limits call.1, call.2)) reports).2.map .ok ∧
        Holds p (History.performAll (calls.map fun call => (make p (limits call.1), call.2)) f).1
          (Operation.onList (calls.map fun call => (limits call.1, call.2)) reports).1 := by
  induction calls with
  | nil => exact fun hholds _ => ⟨rfl, hholds⟩
  | cons call calls ih =>
    rintro f reports hholds ⟨hcall, hcalls⟩
    obtain ⟨hanswer, hnext⟩ := hholds.perform (limits call.1) call.2 hcall
    obtain ⟨hanswers, hlast⟩ := ih hnext hcalls
    exact ⟨List.cons_eq_cons.2 ⟨hanswer, hanswers⟩, hlast⟩

/-- **A history is a list.** From a file that is missing or can be read, any operations through handles with
any limits answer as they do on the list of its reports, and leave the file with the list they leave. A report
that is added is never dropped, and those before it stay as they are or are dropped, oldest first. -/
theorem refines_list {n : Nat} (p : Path) (limits : Fin n → UInt64) (calls : List (Fin n × Operation))
    (f : Files) (reports : List Report) (hholds : Holds p f reports)
    (hcalls : AllUnhindered (calls.map fun call => (make p (limits call.1), call.2)) f) :
    let onFile := performAll (calls.map fun call => (make p (limits call.1), call.2)) f
    let onList := Operation.onList (calls.map fun call => (limits call.1, call.2)) reports
    onFile.2 = onList.2.map .ok ∧ Holds p onFile.1 onList.1 ∧
      ∀ (limit : UInt64) (reports : List Report) (r : Report), ∃ kept, kept <:+ reports ∧
        Operation.next limit reports (.append r) = kept ++ [r.wrapped] := by
  obtain ⟨hanswers, hlast⟩ := hholds.performAll limits calls hcalls
  exact ⟨hanswers, hlast, Operation.next_append⟩

/-- A file with one report in a spelling of its own, and two handles, one with a limit of zero. -/
theorem refines_list_two_handles :
    let p := "h.json".toList
    let text := "\x7b\"results\":[[\"2020-02-29T12:00:00+01:00\",[\"\\u0061\",\"b\",1],[]]] , \"version\" : 1\x7d"
    let f := (Files.fresh []).set [p] (some (.file text.toUTF8))
    let limits : Fin 2 → UInt64 := fun i => if i = 0 then 0 else 2
    let old : Report := ⟨⟨1582974000, 0, by decide, by decide⟩, ⟨"a", "b", 1⟩, []⟩
    let new : Report := ⟨⟨0, 0, by decide, by decide⟩, ⟨"", "", 0⟩, []⟩
    let calls : List (Fin 2 × Operation) := [(0, .count), (1, .append new), (1, .load), (0, .append old)]
    let onFile := performAll (calls.map fun call => (make p (limits call.1), call.2)) f
    onFile.2 = [.ok (.number 1), .ok .done, .ok (.reports [old, new]), .ok .done] ∧ Holds p onFile.1 [old] := by
  intro p text f limits old new calls onFile
  have hholds : Holds p f [old] :=
    .inr ⟨by decide, [p], text.toUTF8, text, Files.find_ok_iff.2 ⟨by decide +kernel, by decide +kernel, rfl, nofun⟩,
      toUTF8_fromUTF8? text, by decide +kernel⟩
  have hcalls : AllUnhindered (calls.map fun call => (make p (limits call.1), call.2)) f := by
    refine ⟨fun _ => exists_ok_of_toBool ?_,
      unhindered_append (fun _ => exists_ok_of_toBool ?_) (by decide +kernel) (by decide +kernel) ?_ new,
      fun _ => exists_ok_of_toBool ?_,
      unhindered_append (fun _ => exists_ok_of_toBool ?_) (by decide +kernel) (by decide +kernel) ?_ old, trivial⟩
    · decide +kernel
    · decide +kernel
    · exact fun _ => by simp only [room_perform]; rfl
    · decide +kernel
    · decide +kernel
    · exact fun _ => by simp only [room_perform]; rfl
  obtain ⟨hanswers, hlast, -⟩ := refines_list p limits calls f [old] hholds hcalls
  exact ⟨hanswers, hlast⟩

end History

end ProbeSuite
