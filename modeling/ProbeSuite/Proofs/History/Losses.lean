import Mathlib.Algebra.BigOperators.Group.List.Basic
import ProbeSuite.Proofs.History.Failing

/-!
# The log of a history

* `History.logged`, `logAll` : what an operation says, and what operations say one after the other;
* `History.OnlyAdds` : reports are added and looked at, but not cleared;
* `History.logged_append` : an addition says how many reports it dropped, and how many it left;
* `Event.dropped`, `History.Holds.onlyAdds` : reports that were there or were added are there at the end, or the log
  says that they were dropped;
* `History.log_accounts_for_losses` : all of it, addition by addition and over a whole run.
-/

namespace ProbeSuite

/-- How many reports were dropped, as the event says. -/
def Event.dropped : Event → Nat
  | .historyRotated dropped _ => dropped
  | _ => 0

namespace History

variable {h : History} {p : Path} {f : Files} {limit : UInt64} {reports : List Report} {r : Report}

/-! ## What is said -/

/-- What an operation through a handle says. -/
def logged (h : History) (f : Files) : Operation → List Event
  | .append r => (h.append f r).2.1
  | .load | .count | .clear => []

/-- What operations say one after the other, each on the files that the one before left. -/
def logAll : List (History × Operation) → Files → List Event
  | [], _ => []
  | (h, op) :: calls, f => h.logged f op ++ logAll calls (h.perform f op).1

/-- The operation adds its report, or only looks at the reports there are. -/
def Adds (h : History) (f : Files) : Operation → Prop
  | .append r => (h.append f r).2.2 = .ok ()
  | .load | .count => True
  | .clear => False

/-- Each operation of a run adds its report, or only looks at the reports there are. -/
def OnlyAdds : List (History × Operation) → Files → Prop
  | [], _ => True
  | (h, op) :: calls, f => h.Adds f op ∧ OnlyAdds calls (h.perform f op).1

/-- Whether an operation adds a report. -/
def Operation.isAppend : Operation → Bool
  | .append _ => true
  | _ => false

/-- A load through any handle finds this number of reports, if the file may be read. -/
def Finds (p : Path) (f : Files) (n : Nat) : Prop :=
  ∀ limit : UInt64, (∀ reports, (make p limit).load f = .ok reports → reports.length = n) ∧
    ((f.has p → ∃ content, f.read p = .ok content) →
      (∃ reports, (make p limit).load f = .ok reports) ∧ (make p limit).count f = .ok n)

theorem Holds.finds (hholds : Holds p f reports) : Finds p f reports.length := by
  intro limit
  have hholds' : Holds (make p limit).path f reports := (make_path p limit).symm ▸ hholds
  constructor
  · intro loaded hload
    rw [hholds'.eq_of_load hload]
  · intro hread
    have hload : (make p limit).load f = .ok reports := hholds'.load ((make_path p limit).symm ▸ hread)
    refine ⟨⟨reports, hload⟩, ?_⟩
    rw [count, hload]
    rfl

/-! ## One addition -/

theorem events_save (hok : (h.save f reports).2.2 = .ok ()) :
    (h.save f reports).2.1 = [.historySaved h.path reports.length] := by
  rw [save_eq] at hok ⊢
  split at hok
  · cases hok
  · split at hok
    · cases hok
    · rfl

theorem events_append (hload : h.load f = .ok reports) (hok : (h.append f r).2.2 = .ok ()) :
    (h.append f r).2.1 = h.rotation (reports ++ [r]) ++ [.historySaved h.path (h.keep (reports ++ [r])).length] := by
  unfold append at hok ⊢
  rw [hload] at hok ⊢
  dsimp only at hok ⊢
  rw [events_save hok]

theorem length_keep (h : History) (reports : List Report) :
    (h.keep reports).length = min reports.length h.limit.toNat := by
  unfold keep
  rw [List.length_drop]
  omega

/-- **What an addition says**: how many reports it dropped, if any, and how many it left. -/
theorem logged_append (hload : (make p limit).load f = .ok reports)
    (hok : ((make p limit).append f r).2.2 = .ok ()) :
    (make p limit).logged f (.append r) =
      (if max limit.toNat 1 < reports.length + 1 then
        [.historyRotated (reports.length + 1 - max limit.toNat 1) (max limit.toNat 1)] else []) ++
        [.historySaved p (min (reports.length + 1) (max limit.toNat 1))] := by
  have hlength : (reports ++ [r]).length = reports.length + 1 := List.length_append
  rw [logged, events_append hload hok, length_keep, rotation, hlength, toNat_make_limit, make_path]

theorem length_next_append (limit : UInt64) (reports : List Report) (r : Report) :
    (Operation.next limit reports (.append r)).length = min (reports.length + 1) (max limit.toNat 1) := by
  unfold Operation.next List.rtake
  rw [List.length_drop, List.length_append, List.length_singleton]
  omega

/-- The reports before an addition and the one that it adds are left, or the log says that they were dropped. -/
theorem dropped_append (hload : (make p limit).load f = .ok reports)
    (hok : ((make p limit).append f r).2.2 = .ok ()) :
    reports.length + 1 = (Operation.next limit reports (.append r)).length +
      (((make p limit).logged f (.append r)).map Event.dropped).sum := by
  rw [length_next_append, logged_append hload hok]
  split
  all_goals
    simp only [List.map_append, List.map_cons, List.map_nil, List.sum_append, List.sum_cons, List.sum_nil,
      Event.dropped]
    omega

theorem Holds.load_of_adds (hholds : Holds p f reports) (hadds : (make p limit).Adds f (.append r)) :
    (make p limit).load f = .ok reports := by
  have hholds' : Holds (make p limit).path f reports := (make_path p limit).symm ▸ hholds
  obtain ⟨loaded, hload, -⟩ := append_ok_iff.1 ⟨hadds, rfl⟩
  rw [hload, hholds'.eq_of_load hload]

/-! ## Runs -/

/-- Operations on one file, each through the handle with its limit. -/
def through {ι : Type} (p : Path) (limits : ι → UInt64) (calls : List (ι × Operation)) : List (History × Operation) :=
  calls.map fun call => (make p (limits call.1), call.2)

theorem logAll_through_cons {ι : Type} (limits : ι → UInt64) (call : ι × Operation) (calls : List (ι × Operation)) :
    logAll (through p limits (call :: calls)) f = (make p (limits call.1)).logged f call.2 ++
      logAll (through p limits calls) ((make p (limits call.1)).perform f call.2).1 := rfl

theorem performAll_through_nil {ι : Type} (limits : ι → UInt64) : (performAll (through p limits []) f).1 = f := rfl

theorem performAll_through_cons {ι : Type} (limits : ι → UInt64) (call : ι × Operation)
    (calls : List (ι × Operation)) : (performAll (through p limits (call :: calls)) f).1 =
      (performAll (through p limits calls) ((make p (limits call.1)).perform f call.2).1).1 := rfl

/-- An operation that adds its report, or only looks, loses none that the log does not count. -/
theorem Holds.adds {op : Operation} (hholds : Holds p f reports) (hadds : (make p limit).Adds f op) :
    Holds p ((make p limit).perform f op).1 (op.next limit reports) ∧
      reports.length + op.isAppend.toNat =
        (op.next limit reports).length + (((make p limit).logged f op).map Event.dropped).sum := by
  cases op with
  | append r =>
    exact ⟨(hholds.next hadds).1, dropped_append (hholds.load_of_adds hadds) hadds⟩
  | load => exact ⟨hholds, rfl⟩
  | count => exact ⟨hholds, rfl⟩
  | clear => exact hadds.elim

theorem Holds.onlyAdds {ι : Type} (limits : ι → UInt64) (calls : List (ι × Operation)) :
    ∀ {f : Files} {reports : List Report}, Holds p f reports → OnlyAdds (through p limits calls) f →
      ∃ last, Holds p (History.performAll (through p limits calls) f).1 last ∧
        reports.length + calls.countP (·.2.isAppend) =
          last.length + ((logAll (through p limits calls) f).map Event.dropped).sum := by
  induction calls with
  | nil => exact fun hholds _ => ⟨_, hholds, rfl⟩
  | cons call calls ih =>
    rintro f reports hholds ⟨hcall, hcalls⟩
    obtain ⟨hnext, hlost⟩ := hholds.adds hcall
    obtain ⟨last, hlast, hrest⟩ := ih hnext hcalls
    refine ⟨last, hlast, ?_⟩
    have hcount : (call :: calls).countP (·.2.isAppend) = calls.countP (·.2.isAppend) + call.2.isAppend.toNat := by
      rw [List.countP_cons]
      cases call.2.isAppend <;> rfl
    rw [hcount, logAll_through_cons, List.map_append, List.sum_append]
    omega

theorem onlyAdds_append {calls calls' : List (History × Operation)} : ∀ {f : Files},
    OnlyAdds (calls ++ calls') f → OnlyAdds calls f ∧ OnlyAdds calls' (performAll calls f).1 := by
  induction calls with
  | nil => exact fun h => ⟨trivial, h⟩
  | cons call calls ih =>
    rintro f ⟨hcall, hcalls⟩
    obtain ⟨hbefore, hafter⟩ := ih hcalls
    exact ⟨⟨hcall, hbefore⟩, hafter⟩

theorem adds_of_answer {op : Operation} {answer : Answer} (hop : op ≠ .clear)
    (hanswer : (h.perform f op).2 = .ok answer) : h.Adds f op := by
  cases op with
  | append r =>
    show (h.append f r).2.2 = .ok ()
    cases hok : (h.append f r).2.2 with
    | ok _ => rfl
    | error fault =>
      rw [perform, hok] at hanswer
      cases hanswer
  | load => trivial
  | count => trivial
  | clear => exact hop rfl

/-- A run that clears nothing adds all its reports, if all its accesses to files succeed. -/
theorem Holds.onlyAdds_of_unhindered {ι : Type} (limits : ι → UInt64) {calls : List (ι × Operation)} :
    ∀ {f : Files} {reports : List Report}, Holds p f reports → AllUnhindered (through p limits calls) f →
      (∀ call ∈ calls, call.2 ≠ .clear) → OnlyAdds (through p limits calls) f := by
  induction calls with
  | nil => exact fun _ _ _ => trivial
  | cons call calls ih =>
    rintro f reports hholds ⟨hcall, hcalls⟩ hclear
    obtain ⟨hop, hclear⟩ := List.forall_mem_cons.1 hclear
    obtain ⟨hanswer, hnext⟩ := hholds.perform (limits call.1) call.2 hcall
    refine ⟨adds_of_answer hop hanswer, ih hnext hcalls hclear⟩

/-- **The log accounts for every lost report.** In a run that adds reports through handles with any limits, and looks
at them, but does not clear them: an addition that finds `k` reports says that some were dropped exactly if `k + 1` is
more than its handle keeps, and how many more; then it says how many it saved, which a load finds after it. The reports
at the start and the additions are, together, the reports at the end and all those that were dropped. -/
theorem log_accounts_for_losses {ι : Type} (p : Path) (limits : ι → UInt64) (calls : List (ι × Operation)) (f : Files)
    (limit : UInt64) (reports : List Report) (hload : (make p limit).load f = .ok reports)
    (hcalls : OnlyAdds (through p limits calls) f) :
    (∀ before i r after, calls = before ++ (i, .append r) :: after →
      let f := (performAll (through p limits before) f).1
      let h := make p (limits i)
      let most := max (limits i).toNat 1
      ∃ found, h.load f = .ok found ∧
        let k := found.length
        h.logged f (.append r) =
          (if most < k + 1 then [.historyRotated (k + 1 - most) most] else []) ++ [.historySaved p (min (k + 1) most)] ∧
        (∀ dropped kept, .historyRotated dropped kept ∈ h.logged f (.append r) → dropped + most = k + 1) ∧
        Finds p (h.append f r).1 (min (k + 1) most)) ∧
    ∃ n, Finds p (performAll (through p limits calls) f).1 n ∧
      reports.length + calls.countP (·.2.isAppend) =
        n + ((logAll (through p limits calls) f).map Event.dropped).sum := by
  have hholds : Holds p f reports := make_path p limit ▸ holds_of_load hload
  constructor
  · rintro before i r after rfl f' h most
    have hsplit : through p limits (before ++ (i, .append r) :: after) =
        through p limits before ++ (h, .append r) :: through p limits after := by
      unfold through
      rw [List.map_append, List.map_cons]
    rw [hsplit] at hcalls
    obtain ⟨hbefore, hadds, -⟩ := onlyAdds_append hcalls
    obtain ⟨found, hfound, -⟩ := hholds.onlyAdds limits before hbefore
    have hload' := hfound.load_of_adds hadds
    have hlogged := logged_append hload' hadds
    refine ⟨found, hload', hlogged, ?_, ?_⟩
    · intro dropped kept hrotated
      rw [hlogged] at hrotated
      split at hrotated
      · next hmore =>
        have hdropped : Event.historyRotated dropped kept = .historyRotated (found.length + 1 - most) most := by
          simpa using hrotated
        cases hdropped
        exact Nat.sub_add_cancel hmore.le
      · simp at hrotated
    · rw [← length_next_append]
      exact (hfound.next hadds).1.finds
  · obtain ⟨last, hlast, hlost⟩ := hholds.onlyAdds limits calls hcalls
    exact ⟨last.length, hlast.finds, hlost⟩

/-- A handle that keeps one report, where another one kept three. -/
theorem log_accounts_for_losses_two_handles :
    let p := "h.json".toList
    let one := "[\"1970-01-01T00:00:00Z\", [\"\", \"\", 1], []]"
    let text := "[1, [" ++ one ++ "," ++ one ++ "]]"
    let f := (Files.fresh []).set [p] (some (.file text.toUTF8))
    let r : Report := ⟨.epoch, ⟨"", "", 1⟩, []⟩
    let limits : Fin 2 → UInt64 := fun i => if i = 0 then 0 else 3
    let calls : List (Fin 2 × Operation) := [(1, .append r), (0, .count), (0, .append r)]
    (make p 0).load f = .ok [r, r] ∧
      logAll (through p limits calls) f = [.historySaved p 3, .historyRotated 3 1, .historySaved p 1] ∧
      Finds p (performAll (through p limits calls) f).1 1 ∧
      2 + 2 = 1 + ((logAll (through p limits calls) f).map Event.dropped).sum := by
  intro p one text f r limits calls
  have hholds : Holds p f [r, r] :=
    .inr ⟨by decide, [p], text.toUTF8, text, Files.find_ok_iff.2 ⟨by decide +kernel, by decide +kernel, rfl, nofun⟩,
      toUTF8_fromUTF8? text, by decide +kernel⟩
  have hload : (make p 0).load f = .ok [r, r] :=
    Holds.load (h := make p 0) hholds fun _ => exists_ok_of_toBool (by decide +kernel)
  have hcalls : AllUnhindered (through p limits calls) f := by
    refine ⟨unhindered_append (fun _ => exists_ok_of_toBool ?_) (by decide +kernel) (by decide +kernel) ?_ r,
      fun _ => exists_ok_of_toBool ?_,
      unhindered_append (fun _ => exists_ok_of_toBool ?_) (by decide +kernel) (by decide +kernel) ?_ r, trivial⟩
    · decide +kernel
    · exact fun _ => rfl
    · decide +kernel
    · decide +kernel
    · exact fun _ => by simp only [room_perform]; rfl
  have honly := hholds.onlyAdds_of_unhindered limits hcalls (by simp [calls])
  obtain ⟨hlogs, n, hn, htotal⟩ := log_accounts_for_losses p limits calls f 0 [r, r] hload honly
  obtain ⟨found, hfound, hfirst, -, hleft⟩ := hlogs [] 1 r [(0, .count), (0, .append r)] rfl
  obtain ⟨found', hfound', hsecond, -, hleft'⟩ := hlogs [(1, .append r), (0, .count)] 0 r [] rfl
  have htwo : found = [r, r] := hholds.eq_of_load (h := make p 3) hfound
  have hthree : found'.length = 3 := by
    rw [(hleft 0).1 found' hfound', htwo]
    rfl
  have hlog : logAll (through p limits calls) f = [.historySaved p 3, .historyRotated 3 1, .historySaved p 1] := by
    have hsaved : (make p 3).logged f (.append r) = [.historySaved p 3] := by
      rw [htwo] at hfirst
      exact hfirst
    have hrotated : (make p 0).logged (performAll (through p limits [(1, .append r), (0, .count)]) f).1 (.append r) =
        [.historyRotated 3 1, .historySaved p 1] := by
      refine hsecond.trans ?_
      rw [hthree]
      decide
    rw [performAll_through_cons, performAll_through_cons, performAll_through_nil] at hrotated
    rw [logAll_through_cons, logAll_through_cons, logAll_through_cons]
    exact congrArg₂ (fun before after => before ++ ([] ++ (after ++ []))) hsaved hrotated
  have hone : n = 1 := by
    rw [hlog] at htotal
    have htotal' : 2 + 2 = n + 3 := htotal
    omega
  refine ⟨hload, hlog, hone ▸ hn, ?_⟩
  rw [hlog]
  rfl

end History

end ProbeSuite
