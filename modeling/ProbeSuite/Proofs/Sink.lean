import ProbeSuite.Proofs.Text.Bytes
import ProbeSuite.Sink

/-!
# What sinks take

* `Sink.Longest` : the longest part of some bytes that a sink takes; `Sink.accept` gives it;
* `Sink.accept_append` : what a sink takes of bytes that follow others;
* `Sink.write_eq` : a text is written as far as the sink takes it, however few bytes a call takes;
* `Sink.write_append` : it does not matter whether a text is written in two pieces;
* `Sink.Stop`, `StopsAt`, `stopError` : the two ways in which a sink fails, and their errors.
-/

namespace ProbeSuite

namespace Sink

variable {s : Sink}

/-! ## Accepted bytes -/

theorem accept_of_isFull {taken : List UInt8} (hfull : s.isFull taken) (bs : List UInt8) :
    s.accept taken bs = [] := by
  cases bs with
  | nil => rfl
  | cons b bs => exact if_pos hfull

theorem accept_cons {taken : List UInt8} (hfull : ¬s.isFull taken) (b : UInt8) (bs : List UInt8) :
    s.accept taken (b :: bs) = b :: s.accept (taken ++ [b]) bs := if_neg hfull

/-- A sink that is never full takes all bytes. -/
theorem accept_of_room (hroom : ∀ taken, ¬s.isFull taken) (bs taken : List UInt8) : s.accept taken bs = bs := by
  induction bs generalizing taken with
  | nil => rfl
  | cons b bs ih => rw [accept_cons (hroom taken), ih]

theorem accept_isPrefix (taken bs : List UInt8) : s.accept taken bs <+: bs := by
  induction bs generalizing taken with
  | nil => exact List.prefix_refl _
  | cons b bs ih =>
    by_cases hfull : s.isFull taken
    · rw [accept_of_isFull hfull]
      exact List.nil_prefix
    · rw [accept_cons hfull]
      exact List.cons_prefix_cons.2 ⟨rfl, ih _⟩

theorem accept_take (taken bs : List UInt8) (n : Nat) : s.accept taken (bs.take n) = (s.accept taken bs).take n := by
  induction bs generalizing taken n with
  | nil => simp [accept]
  | cons b bs ih =>
    cases n with
    | zero => rfl
    | succ n =>
      by_cases hfull : s.isFull taken
      · rw [accept_of_isFull hfull, accept_of_isFull hfull, List.take_nil]
      · rw [List.take_succ_cons, accept_cons hfull, accept_cons hfull, List.take_succ_cons, ih]

/-- What is taken in two calls is what is taken in one. -/
theorem accept_split (taken bs : List UInt8) (n : Nat) :
    s.accept taken bs =
      (s.accept taken bs).take n ++ s.accept (taken ++ (s.accept taken bs).take n) (bs.drop n) := by
  induction bs generalizing taken n with
  | nil => simp [accept]
  | cons b bs ih =>
    cases n with
    | zero => simp
    | succ n =>
      by_cases hfull : s.isFull taken
      · rw [accept_of_isFull hfull, List.take_nil, List.append_nil, accept_of_isFull hfull, List.nil_append]
      · have htail := ih (taken ++ [b]) n
        rw [List.append_assoc, List.singleton_append] at htail
        rw [accept_cons hfull, List.take_succ_cons, List.drop_succ_cons, List.cons_append, ← htail]

theorem accept_append {taken bs : List UInt8} (hbs : s.accept taken bs = bs) (cs : List UInt8) :
    s.accept taken (bs ++ cs) = bs ++ s.accept (taken ++ bs) cs := by
  have htake : (s.accept taken (bs ++ cs)).take bs.length = bs := by
    rw [← accept_take, List.take_left, hbs]
  have hsplit := accept_split (s := s) taken (bs ++ cs) bs.length
  rwa [htake, List.drop_left] at hsplit

theorem accept_append_of_ne {taken bs : List UInt8} (hbs : s.accept taken bs ≠ bs) (cs : List UInt8) :
    s.accept taken (bs ++ cs) = s.accept taken bs := by
  induction bs generalizing taken with
  | nil => exact absurd rfl hbs
  | cons b bs ih =>
    by_cases hfull : s.isFull taken
    · rw [accept_of_isFull hfull, accept_of_isFull hfull]
    · rw [accept_cons hfull] at hbs
      rw [List.cons_append, accept_cons hfull, accept_cons hfull, ih fun h => hbs (congrArg (b :: ·) h)]

theorem not_isFull_of_accept {taken bs front : List UInt8} (hfront : front <+: s.accept taken bs)
    (hlength : front.length < (s.accept taken bs).length) : s.isFull (taken ++ front) = false := by
  induction bs generalizing taken front with
  | nil => exact absurd hlength (Nat.not_lt_zero _)
  | cons b bs ih =>
    by_cases hfull : s.isFull taken
    · rw [accept_of_isFull hfull] at hlength
      exact absurd hlength (Nat.not_lt_zero _)
    · rw [accept_cons hfull] at hfront hlength
      cases front with
      | nil => simpa using hfull
      | cons c cs =>
        obtain ⟨rfl, hcs⟩ := List.cons_prefix_cons.1 hfront
        have htail := ih hcs (Nat.lt_of_succ_lt_succ hlength)
        rwa [List.append_assoc] at htail

theorem isFull_accept {taken bs : List UInt8} (hbs : s.accept taken bs ≠ bs) :
    s.isFull (taken ++ s.accept taken bs) = true := by
  induction bs generalizing taken with
  | nil => exact absurd rfl hbs
  | cons b bs ih =>
    by_cases hfull : s.isFull taken
    · rw [accept_of_isFull hfull, List.append_nil, hfull]
    · rw [accept_cons hfull] at hbs ⊢
      have htail := ih fun h => hbs (congrArg (b :: ·) h)
      rwa [List.append_assoc] at htail

/-- The longest part, from the front, of some bytes that a sink takes. -/
structure Longest (s : Sink) (whole bs : List UInt8) : Prop where
  isPrefix : bs <+: whole
  room : ∀ front, front <+: bs → front ≠ bs → s.isFull front = false
  full : bs ≠ whole → s.isFull bs = true

theorem longest_accept (s : Sink) (whole : List UInt8) : s.Longest whole (s.accept [] whole) where
  isPrefix := accept_isPrefix [] whole
  room := by
    intro front hfront hne
    have hlength : front.length < (s.accept [] whole).length :=
      Nat.lt_of_le_of_ne hfront.length_le fun h => hne (hfront.eq_of_length h)
    have hroom : s.isFull ([] ++ front) = false := not_isFull_of_accept hfront hlength
    exact hroom
  full := by
    intro hne
    have hfull : s.isFull ([] ++ s.accept [] whole) = true := isFull_accept hne
    exact hfull

theorem accept_chunk (s : Sink) (chunk : Option Nat) (taken bs : List UInt8) :
    ({ s with chunk } : Sink).accept taken bs = s.accept taken bs := by
  induction bs generalizing taken with
  | nil => rfl
  | cons b bs ih => simp only [accept, ih]

/-! ## Writing -/

theorem call_eq (hchunk : s.chunk ≠ some 0) (taken bs : List UInt8) :
    ∃ n, 0 < n ∧ s.call taken bs = (s.accept taken bs).take n := by
  unfold call
  cases hn : s.chunk with
  | none => exact ⟨(s.accept taken bs).length + 1, Nat.succ_pos _, (List.take_of_length_le (Nat.le_succ _)).symm⟩
  | some n => exact ⟨n, Nat.pos_of_ne_zero (by rintro rfl; exact hchunk hn), accept_take taken bs n⟩

theorem writeFrom_eq (hchunk : s.chunk ≠ some 0) (bound bs : List UInt8) (d : Delivery)
    (hbound : bs.length ≤ bound.length) : s.writeFrom bound bs d =
      (⟨d.bytes ++ s.accept d.bytes bs, d.flushedAt⟩,
        if s.accept d.bytes bs = bs then .ok () else .error s.error) := by
  induction bound generalizing bs d with
  | nil =>
    cases List.eq_nil_of_length_eq_zero (Nat.le_zero.1 hbound)
    simp [writeFrom, accept]
  | cons _ bound ih =>
    cases bs with
    | nil => simp [writeFrom, accept]
    | cons b bs =>
      obtain ⟨n, hn, hcall⟩ := call_eq hchunk d.bytes (b :: bs)
      have htook : s.call d.bytes (b :: bs) <+: s.accept d.bytes (b :: bs) := hcall ▸ List.take_prefix _ _
      have hsplit := accept_split (s := s) d.bytes (b :: bs) (s.call d.bytes (b :: bs)).length
      rw [← List.prefix_iff_eq_take.1 htook] at hsplit
      unfold writeFrom
      generalize s.call d.bytes (b :: bs) = took at hcall htook hsplit ⊢
      dsimp only
      cases took with
      | nil =>
        -- a call of a positive size that takes nothing found the sink full
        have hnone : s.accept d.bytes (b :: bs) = [] := by
          rcases List.take_eq_nil_iff.1 hcall.symm with hzero | hnil
          · omega
          · exact hnil
        rw [hnone, if_neg (List.cons_ne_nil b bs).symm, List.append_nil]
        rfl
      | cons c cs =>
        have hwhole : (c :: cs) ++ (b :: bs).drop (c :: cs).length = b :: bs :=
          List.prefix_iff_eq_append.1 (htook.trans (accept_isPrefix _ _))
        have hall : s.accept (d.bytes ++ c :: cs) ((b :: bs).drop (c :: cs).length) =
            (b :: bs).drop (c :: cs).length ↔ s.accept d.bytes (b :: bs) = b :: bs := by
          rw [← List.append_right_inj (c :: cs), ← hsplit, hwhole]
        have hshorter : ((b :: bs).drop (c :: cs).length).length ≤ bound.length := by
          simp only [List.length_drop, List.length_cons] at hbound ⊢
          omega
        rw [if_neg (by simp), ih _ _ hshorter, List.append_assoc, ← hsplit]
        simp only [hall]

/-- **A text is written as far as the sink takes it**, however few bytes a call takes. -/
theorem write_eq (hchunk : s.chunk ≠ some 0) (text : String) (d : Delivery) : s.write text d =
    (⟨d.bytes ++ s.accept d.bytes (Text.bytes text), d.flushedAt⟩,
      if s.accept d.bytes (Text.bytes text) = Text.bytes text then .ok () else .error s.error) :=
  writeFrom_eq hchunk _ _ d (Nat.le_refl _)

/-- **How a text is written does not depend on the chunks** that the sink takes. -/
theorem write_chunk (hchunk : s.chunk ≠ some 0) {chunk : Option Nat} (hchunk' : chunk ≠ some 0) (text : String)
    (d : Delivery) : ({ s with chunk } : Sink).write text d = s.write text d := by
  rw [write_eq hchunk, write_eq (s := { s with chunk }) hchunk', accept_chunk]
  rfl

theorem call_of_chunk_zero (hchunk : s.chunk = some 0) (taken bs : List UInt8) : s.call taken bs = [] := by
  unfold call
  rw [hchunk]
  rfl

/-- A sink whose calls take no bytes is one that is full. -/
theorem write_of_chunk_zero (hchunk : s.chunk = some 0) (text : String) (d : Delivery) :
    s.write text d = ({ s with isFull := fun _ => true, chunk := none } : Sink).write text d := by
  -- both take nothing, and their error is the same
  have hfull : ∀ taken bs, ({ s with isFull := fun _ => true, chunk := none } : Sink).call taken bs = [] :=
    fun taken bs => accept_of_isFull (s := { s with isFull := fun _ => true, chunk := none }) rfl bs
  unfold write
  dsimp only
  cases text.toUTF8.toList with
  | nil => rfl
  | cons b bs =>
    simp only [writeFrom, call_of_chunk_zero hchunk, hfull, List.isEmpty_nil, if_true]
    rfl

/-! ## Two texts -/

theorem write_empty (s : Sink) (d : Delivery) : s.write "" d = (d, .ok ()) := by
  have hnone : Text.bytes "" = [] := by rw [Text.bytes_eq_flatMap]; rfl
  show s.writeFrom (Text.bytes "") (Text.bytes "") d = _
  rw [hnone, writeFrom]

theorem write_append_of_chunk (hchunk : s.chunk ≠ some 0) (t u : String) (d : Delivery) : s.write (t ++ u) d =
    match s.write t d with
    | (d, .ok ()) => s.write u d
    | (d, .error e) => (d, .error e) := by
  rw [write_eq hchunk, write_eq hchunk, Text.bytes_append]
  by_cases ht : s.accept d.bytes (Text.bytes t) = Text.bytes t
  · rw [accept_append ht, ht, if_pos rfl]
    dsimp only
    rw [write_eq hchunk]
    simp only [List.append_assoc, List.append_right_inj]
  · have hne : s.accept d.bytes (Text.bytes t) ≠ Text.bytes t ++ Text.bytes u := by
      intro h
      have hle := (accept_isPrefix (s := s) d.bytes (Text.bytes t)).length_le
      have hu : Text.bytes u = [] := by
        apply List.eq_nil_of_length_eq_zero
        rw [h, List.length_append] at hle
        omega
      rw [hu, List.append_nil] at h
      exact ht h
    rw [accept_append_of_ne ht, if_neg ht, if_neg hne]

/-- **It does not matter whether a text is written in two pieces.** -/
theorem write_append (s : Sink) (t u : String) (d : Delivery) : s.write (t ++ u) d =
    match s.write t d with
    | (d, .ok ()) => s.write u d
    | (d, .error e) => (d, .error e) := by
  by_cases hchunk : s.chunk = some 0
  · simp only [write_of_chunk_zero hchunk]
    exact write_append_of_chunk (Option.some_ne_none 0).symm t u d
  · exact write_append_of_chunk hchunk t u d

/-! ## Failures -/

/-- The ways in which a sink fails: it is full, or it cannot be flushed. -/
inductive Stop where
  | full
  | unflushed

/-- The error of a sink that fails in one of the ways. -/
def stopError (s : Sink) : Stop → IoError
  | .full => s.error
  | .unflushed => s.flushError

/-- Whether a sink fails in one of the ways after what it took. -/
def StopsAt (s : Sink) (d : Delivery) : Stop → Prop
  | .full => s.isFull d.bytes = true
  | .unflushed => s.flushes = some d.flushedAt.length

theorem call_of_isFull {taken : List UInt8} (hfull : s.isFull taken) (bs : List UInt8) : s.call taken bs = [] := by
  unfold call
  split
  · exact accept_of_isFull hfull _
  · exact accept_of_isFull hfull _

theorem flush_of_lt {d : Delivery} (h : ∀ n ∈ s.flushes, d.flushedAt.length < n) :
    s.flush d = (⟨d.bytes, d.flushedAt ++ [lines d.bytes]⟩, .ok ()) := by
  unfold flush
  cases hn : s.flushes with
  | none => rfl
  | some n =>
    have hlt := h n hn
    rw [if_neg (by simp only [Option.any_some, decide_eq_true_eq]; omega)]

theorem flush_of_le {d : Delivery} {n : Nat} (hn : s.flushes = some n) (hle : n ≤ d.flushedAt.length) :
    s.flush d = (d, .error s.flushError) := by
  unfold flush
  rw [hn, if_pos (by simpa using hle)]

theorem flush_ok {d d' : Delivery} (h : s.flush d = (d', .ok ())) :
    d' = ⟨d.bytes, d.flushedAt ++ [lines d.bytes]⟩ := by
  unfold flush at h
  split at h
  · cases h
  · cases h; rfl

end Sink

end ProbeSuite
