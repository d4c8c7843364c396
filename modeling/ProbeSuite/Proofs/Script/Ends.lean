import ProbeSuite.Proofs.Script.Steps

/-!
# How a script ends

* `Script.Ends` : the three ways in which steps end;
* `Script.Passes` : the sink takes what the steps so far write; what each step does then;
* `Script.performAll_ends` : performing steps ends in one of them.
-/

namespace ProbeSuite

namespace Script

section

variable {α : Type} (measured : Probe → Measurement) (sink : Sink)

/-! ## How steps end -/

/-- The ways in which steps from the start end. -/
inductive Ends (steps : List Step) : Progress → Except IoError Unit → Prop where
  /-- The sink took every byte and flushed each time. -/
  | completed (hsteps : sink.accept [] (written steps) = written steps)
      (hflushes : ∀ n ∈ sink.flushes, (flushesFrom 0 steps).length ≤ n) :
      Ends steps (after measured steps) (.ok ())
  /-- The sink did not take the whole of a text. -/
  | refused (done rest : List Step) (text : String) (hsteps : steps = done ++ .write text :: rest)
      (hdone : sink.accept [] (written done) = written done)
      (htext : sink.accept (written done) (Text.bytes text) ≠ Text.bytes text)
      (hflushes : ∀ n ∈ sink.flushes, (flushesFrom 0 done).length ≤ n) :
      Ends steps ⟨⟨written done ++ sink.accept (written done) (Text.bytes text), flushesFrom 0 done⟩,
        eventsOf measured (started done)⟩ (.error sink.error)
  /-- The sink failed to flush. -/
  | unflushed (done rest : List Step) (hsteps : steps = done ++ .flush :: rest)
      (hdone : sink.accept [] (written done) = written done)
      (hflushes : sink.flushes = some (flushesFrom 0 done).length) :
      Ends steps (after measured done) (.error sink.flushError)

variable {measured sink}

/-! ## Steps that do not fail -/

/-- The sink takes all that some steps write, and flushes each time. -/
structure Passes (sink : Sink) (done : List Step) : Prop where
  taken : sink.accept [] (written done) = written done
  flushed : ∀ n ∈ sink.flushes, (flushesFrom 0 done).length ≤ n

variable {done : List Step}

theorem Passes.nil (sink : Sink) : Passes sink [] := ⟨rfl, fun _ _ => Nat.zero_le _⟩

theorem Passes.write (h : Passes sink done) {text : String}
    (htext : sink.accept (written done) (Text.bytes text) = Text.bytes text) : Passes sink (done ++ [.write text]) := by
  have hwritten : written (done ++ [.write text]) = written done ++ Text.bytes text := by
    simp [written, Step.bytes]
  have hcount : (flushesFrom 0 (done ++ [.write text])).length = (flushesFrom 0 done).length := by
    simp [flushesFrom_append, flushesFrom]
  refine ⟨?_, hcount ▸ h.flushed⟩
  rw [hwritten, Sink.accept_append h.taken, List.nil_append, htext]

theorem Passes.flush (h : Passes sink done) (hlimit : sink.flushes ≠ some (flushesFrom 0 done).length) :
    Passes sink (done ++ [.flush]) where
  taken := by simpa [written, Step.bytes] using h.taken
  flushed := by
    have hcount : (flushesFrom 0 (done ++ [.flush])).length = (flushesFrom 0 done).length + 1 := by
      simp [flushesFrom_append, flushesFrom]
    intro n hn
    rw [hcount]
    exact Nat.lt_of_le_of_ne (h.flushed n hn) fun hn' => hlimit (hn' ▸ hn)

theorem Passes.measure (h : Passes sink done) (p : Probe) : Passes sink (done ++ [.measure p]) where
  taken := by simpa [written, Step.bytes] using h.taken
  flushed := by
    have hcount : (flushesFrom 0 (done ++ [.measure p])).length = (flushesFrom 0 done).length := by
      simp [flushesFrom_append, flushesFrom]
    exact hcount ▸ h.flushed

theorem perform_write (hchunk : sink.chunk ≠ some 0) (done : List Step) (text : String) :
    perform measured sink (.write text) (after measured done) =
      (⟨⟨written done ++ sink.accept (written done) (Text.bytes text), flushesFrom 0 done⟩,
        eventsOf measured (started done)⟩,
        if sink.accept (written done) (Text.bytes text) = Text.bytes text then .ok () else .error sink.error) := by
  simp only [perform, Sink.write_eq hchunk, after]

theorem perform_flush (h : Passes sink done) (hlimit : sink.flushes ≠ some (flushesFrom 0 done).length) :
    perform measured sink .flush (after measured done) = (after measured (done ++ [.flush]), .ok ()) := by
  have hroom : ∀ n ∈ sink.flushes, (flushesFrom 0 done).length < n := fun n hn =>
    Nat.lt_of_le_of_ne (h.flushed n hn) fun hn' => hlimit (hn' ▸ hn)
  have hflush := Sink.flush_of_lt (d := (after measured done).delivery) hroom
  rw [after_flush]
  simp only [perform, hflush]
  rfl

theorem perform_flush_error (hlimit : sink.flushes = some (flushesFrom 0 done).length) :
    perform measured sink .flush (after measured done) = (after measured done, .error sink.flushError) := by
  have hflush := Sink.flush_of_le (d := (after measured done).delivery) hlimit (Nat.le_refl _)
  simp only [perform, hflush]

/-! ## Steps until one fails -/

theorem performAll_ends_from (hchunk : sink.chunk ≠ some 0) (rest done : List Step) (hdone : Passes sink done) :
    Ends measured sink (done ++ rest) (performAll measured sink rest (after measured done)).1
      (performAll measured sink rest (after measured done)).2 := by
  -- the steps that are done grow by those that pass, and `performAll` stops at the first that does not
  induction rest generalizing done with
  | nil =>
    rw [List.append_nil]
    exact .completed hdone.taken hdone.flushed
  | cons step rest ih =>
    have hassoc : done ++ step :: rest = (done ++ [step]) ++ rest := by rw [List.append_assoc]; rfl
    cases step with
    | write text =>
      have hperform : perform measured sink (.write text) (after measured done) = _ :=
        perform_write hchunk done text
      by_cases htext : sink.accept (written done) (Text.bytes text) = Text.bytes text
      · rw [if_pos htext, htext, ← after_write] at hperform
        rw [hassoc, performAll, hperform]
        exact ih _ (hdone.write htext)
      · rw [if_neg htext] at hperform
        rw [performAll, hperform]
        exact .refused done rest text rfl hdone.taken htext hdone.flushed
    | flush =>
      by_cases hlimit : sink.flushes = some (flushesFrom 0 done).length
      · rw [performAll, perform_flush_error hlimit]
        exact .unflushed done rest rfl hdone.taken hlimit
      · rw [hassoc, performAll, perform_flush hdone hlimit]
        exact ih _ (hdone.flush hlimit)
    | measure p =>
      have hend := ih (done ++ [.measure p]) (hdone.measure p)
      rw [after_measure] at hend
      rw [hassoc]
      exact hend

/-- **How a script ends**: with all of it done, with a text that the sink did not take, or with a flush. -/
theorem performAll_ends (hchunk : sink.chunk ≠ some 0) (steps : List Step) :
    Ends measured sink steps (performAll measured sink steps ⟨.empty, []⟩).1
      (performAll measured sink steps ⟨.empty, []⟩).2 :=
  performAll_ends_from hchunk steps [] (.nil sink)

variable (measured) in
theorem play_ends (hchunk : sink.chunk ≠ some 0) (script : Script α) : ∃ result,
    Ends measured sink (script.steps measured) (script.play sink measured ⟨.empty, []⟩).1 result ∧
      (script.play sink measured ⟨.empty, []⟩).2 =
        (result.mapError Failure.io).map fun _ => script.outcome measured := by
  rw [play_eq]
  exact ⟨_, performAll_ends hchunk _, rfl⟩

/-! ## What the sink is left with -/

variable {steps : List Step} {s : Progress} {result : Except IoError Unit}

theorem accept_of_refused {rest : List Step} {text : String} (hsteps : steps = done ++ .write text :: rest)
    (hdone : sink.accept [] (written done) = written done)
    (htext : sink.accept (written done) (Text.bytes text) ≠ Text.bytes text) :
    sink.accept [] (written steps) = written done ++ sink.accept (written done) (Text.bytes text) := by
  rw [hsteps, written_append, written_write, Sink.accept_append hdone, List.nil_append,
    Sink.accept_append_of_ne htext]

theorem accept_ne_of_refused {rest : List Step} {text : String} (hsteps : steps = done ++ .write text :: rest)
    (hdone : sink.accept [] (written done) = written done)
    (htext : sink.accept (written done) (Text.bytes text) ≠ Text.bytes text) :
    sink.accept [] (written steps) ≠ written steps := by
  intro hall
  rw [accept_of_refused hsteps hdone htext, hsteps, written_append, written_write] at hall
  have htaken := List.append_cancel_left hall
  have hfront := Sink.accept_isPrefix (s := sink) (written done) (Text.bytes text)
  have hlength := congrArg List.length htaken
  rw [List.length_append] at hlength
  exact htext (hfront.eq_of_length (by have := hfront.length_le; omega))

theorem Ends.bytes_eq (h : Ends measured sink steps s result) :
    s.delivery.bytes = sink.accept [] (written steps) ∨
      sink.flushes = some s.delivery.flushedAt.length ∧ result = .error sink.flushError := by
  cases h with
  | completed hsteps => exact .inl hsteps.symm
  | refused done rest text hsteps hdone htext => exact .inl (accept_of_refused hsteps hdone htext).symm
  | unflushed done rest hsteps hdone hflushes => exact .inr ⟨hflushes, rfl⟩

theorem Ends.bytes_eq_nil (h : Ends measured sink steps s result) (hfull : sink.isFull [] = true) :
    s.delivery.bytes = [] := by
  cases h with
  | completed hsteps => exact hsteps.symm.trans (Sink.accept_of_isFull hfull _)
  | refused done rest text hsteps hdone =>
    have hnone : written done = [] := hdone.symm.trans (Sink.accept_of_isFull hfull _)
    rw [hnone, Sink.accept_of_isFull hfull]
    rfl
  | unflushed done rest hsteps hdone => exact hdone.symm.trans (Sink.accept_of_isFull hfull _)

theorem Ends.bytes_isPrefix (h : Ends measured sink steps s result) : s.delivery.bytes <+: written steps := by
  cases h with
  | completed => exact List.prefix_rfl
  | refused done rest text hsteps =>
    rw [hsteps, written_append]
    exact (List.prefix_append_right_inj _).2
      ((Sink.accept_isPrefix _ _).trans (List.prefix_append (Text.bytes text) (written rest)))
  | unflushed done rest hsteps => exact written_isPrefix ⟨_, hsteps.symm⟩

theorem Ends.flushedAt_isPrefix (h : Ends measured sink steps s result) :
    s.delivery.flushedAt <+: flushesFrom 0 steps := by
  cases h with
  | completed => exact List.prefix_rfl
  | refused done rest text hsteps => exact flushesFrom_isPrefix ⟨_, hsteps.symm⟩
  | unflushed done rest hsteps => exact flushesFrom_isPrefix ⟨_, hsteps.symm⟩

/-- Steps end well if and only if the sink took every byte and flushed each time. -/
theorem Ends.ok_iff (h : Ends measured sink steps s result) : result = .ok () ↔
    s.delivery.bytes = written steps ∧ s.delivery.flushedAt.length = (flushesFrom 0 steps).length := by
  cases h with
  | completed => exact iff_of_true rfl ⟨rfl, rfl⟩
  | refused done rest text hsteps hdone htext =>
    refine iff_of_false (fun hok => nomatch hok) fun ⟨hbytes, _⟩ => ?_
    exact accept_ne_of_refused hsteps hdone htext ((accept_of_refused hsteps hdone htext).trans hbytes)
  | unflushed done rest hsteps =>
    refine iff_of_false (fun hok => nomatch hok) fun ⟨_, hlength⟩ => ?_
    rw [hsteps, flushesFrom_append, List.length_append] at hlength
    simp [flushesFrom, after] at hlength

/-- Steps that do not flush end well where the sink is never full. -/
theorem Ends.ok_of_room (h : Ends measured sink steps s result) (hroom : ∀ taken, ¬sink.isFull taken)
    (hflush : .flush ∉ steps) : result = .ok () := by
  cases h with
  | completed => rfl
  | refused done rest text _ _ htext => exact absurd (Sink.accept_of_room hroom _ _) htext
  | unflushed done rest hsteps =>
    rw [hsteps] at hflush
    exact absurd (List.mem_append_right done List.mem_cons_self) hflush

/-- The probes that ran are those before the step that failed, which is no measurement. -/
theorem Ends.events_eq (h : Ends measured sink steps s result) : ∃ done,
    s.events = eventsOf measured (started done) ∧ s.delivery.flushedAt = flushesFrom 0 done ∧
      (steps = done ∨ ∃ step rest, steps = done ++ step :: rest ∧ ∀ p, step ≠ .measure p) := by
  cases h with
  | completed => exact ⟨steps, rfl, rfl, .inl rfl⟩
  | refused done rest text hsteps => exact ⟨done, rfl, rfl, .inr ⟨_, rest, hsteps, fun p => nofun⟩⟩
  | unflushed done rest hsteps => exact ⟨done, rfl, rfl, .inr ⟨_, rest, hsteps, fun p => nofun⟩⟩

end

end Script

end ProbeSuite
