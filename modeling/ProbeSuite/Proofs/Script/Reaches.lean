import Mathlib.Logic.Relation
import ProbeSuite.Proofs.Script.Steps

/-!
# The states that a script passes through

* `Script.Next` : one step that does not fail, `Script.Reaches` : any number of them;
* `Script.after_of_reaches` : in each of them the steps so far have done all they do;
* `Script.reaches_of_started` : a probe that was started was about to start in one of them.
-/

namespace ProbeSuite

namespace Script

variable {α : Type} {measured : Probe → Measurement} {sink : Sink}

/-- One step of a script that is played and does not fail. -/
inductive Next (measured : Probe → Measurement) (sink : Sink) : Script α × Progress → Script α × Progress → Prop where
  | write (text : String) (next : Script α) (s : Progress) (d : Delivery)
      (h : sink.write text s.delivery = (d, .ok ())) :
      Next measured sink (.write text next, s) (next, { s with delivery := d })
  | print (v : Json.Value) (next : Script α) (s : Progress) (d : Delivery)
      (h : Json.print sink v s.delivery = (d, .ok ())) :
      Next measured sink (.print v next, s) (next, { s with delivery := d })
  | flush (next : Script α) (s : Progress) (d : Delivery) (h : sink.flush s.delivery = (d, .ok ())) :
      Next measured sink (.flush next, s) (next, { s with delivery := d })
  | measure (p : Probe) (next : Measurement → Script α) (s : Progress) :
      Next measured sink (.measure p next, s)
        (next (measured p), { s with events := s.events ++ [.probeStarted p, .probeFinished (measured p)] })

/-- Steps that do not fail lead from one state to another. -/
abbrev Reaches (measured : Probe → Measurement) (sink : Sink) :
    Script α × Progress → Script α × Progress → Prop := Relation.ReflTransGen (Next measured sink)

theorem delivery_of_write_ok (hchunk : sink.chunk ≠ some 0) {done : List Step} {text : String} {d : Delivery}
    (h : sink.write text (after measured done).delivery = (d, .ok ())) :
    d = (after measured (done ++ [.write text])).delivery := by
  rw [Sink.write_eq hchunk, Prod.mk.injEq] at h
  obtain ⟨rfl, hok⟩ := h
  split at hok
  · next htext => rw [after_write, htext]; rfl
  · cases hok

theorem after_of_next (hchunk : sink.chunk ≠ some 0) {c c' : Script α × Progress} (h : Next measured sink c c')
    {done : List Step} (hdone : c.2 = after measured done) :
    ∃ step, c.1.steps measured = step :: c'.1.steps measured ∧ c'.2 = after measured (done ++ [step]) := by
  cases h with
  | write text next s d h =>
    refine ⟨.write text, rfl, ?_⟩
    cases hdone
    rw [delivery_of_write_ok hchunk h, after_write]
  | print v next s d h =>
    refine ⟨.write (String.ofList v.pretty), rfl, ?_⟩
    cases hdone
    rw [delivery_of_write_ok hchunk (Json.print_ok h), after_write]
  | flush next s d h =>
    refine ⟨.flush, rfl, ?_⟩
    have hd := Sink.flush_ok h
    cases hdone
    rw [after_flush, hd]
  | measure p next s =>
    refine ⟨.measure p, rfl, ?_⟩
    cases hdone
    rw [after_measure]

theorem after_of_reaches (hchunk : sink.chunk ≠ some 0) {script : Script α} {c : Script α × Progress}
    (h : Reaches measured sink (script, ⟨.empty, []⟩) c) :
    ∃ done, script.steps measured = done ++ c.1.steps measured ∧ c.2 = after measured done := by
  induction h with
  | refl => exact ⟨[], rfl, rfl⟩
  | tail _ hnext ih =>
    obtain ⟨done, hsteps, hdone⟩ := ih
    obtain ⟨step, hstep, hafter⟩ := after_of_next hchunk hnext hdone
    exact ⟨done ++ [step], by rw [hsteps, hstep, List.append_assoc]; rfl, hafter⟩

/-- A probe that was started was about to start in one of the states. -/
theorem reaches_of_started {script : Script α} {s : Progress} {p : Probe}
    (hp : .probeStarted p ∈ (script.play sink measured s).1.events) (hs : .probeStarted p ∉ s.events) :
    ∃ next s', Reaches measured sink (script, s) (.measure p next, s') := by
  induction script generalizing s with
  | done a => exact absurd hp hs
  | write text next ih =>
    rw [play] at hp
    rcases hwrite : sink.write text s.delivery with ⟨d, e | _⟩ <;> rw [hwrite] at hp
    · exact absurd hp hs
    · obtain ⟨next', s', hreaches⟩ := ih hp hs
      exact ⟨next', s', .head (.write text next s d hwrite) hreaches⟩
  | print v next ih =>
    rw [play] at hp
    rcases hprint : Json.print sink v s.delivery with ⟨d, e | _⟩ <;> rw [hprint] at hp
    · exact absurd hp hs
    · obtain ⟨next', s', hreaches⟩ := ih hp hs
      exact ⟨next', s', .head (.print v next s d hprint) hreaches⟩
  | flush next ih =>
    rw [play] at hp
    rcases hflush : sink.flush s.delivery with ⟨d, e | _⟩ <;> rw [hflush] at hp
    · exact absurd hp hs
    · obtain ⟨next', s', hreaches⟩ := ih hp hs
      exact ⟨next', s', .head (.flush next s d hflush) hreaches⟩
  | measure q next ih =>
    by_cases hq : p = q
    · subst hq
      exact ⟨next, s, .refl⟩
    · have hnext : .probeStarted p ∉ s.events ++ [.probeStarted q, .probeFinished (measured q)] := by
        simp [hs, hq]
      obtain ⟨next', s', hreaches⟩ := ih (measured q) hp hnext
      exact ⟨next', s', .head (.measure q next s) hreaches⟩

end Script

end ProbeSuite
