import Mathlib.Data.List.Forall2
import ProbeSuite.Proofs.Json.Number
import ProbeSuite.Proofs.Json.Text

/-!
# The grammar of JSON

A list or an object is taken apart into the texts of its elements or members.

* `Blank cs` : a text of blanks only;
* `Items first ts u` : the texts `ts` one after the other, each behind its `Lead`;
* `ListOf ts t`, `ObjectOf ms t` : the list of some elements, and the object of some members;
* `Grammatical t` : a value of any kind.
-/

namespace ProbeSuite.Json

/-! ## Blanks -/

/-- Blanks only. -/
def Blank (cs : List Char) : Prop := ∀ c ∈ cs, isBlank c = true

theorem Blank.nil : Blank [] := fun _ h => nomatch h

theorem Blank.append {b b' : List Char} (hb : Blank b) (hb' : Blank b') : Blank (b ++ b') := by
  intro c hc
  rcases List.mem_append.1 hc with hc | hc
  · exact hb c hc
  · exact hb' c hc

theorem skipBlank_append {b : List Char} (h : Blank b) (cs : List Char) : skipBlank (b ++ cs) = skipBlank cs :=
  List.dropWhile_append_of_pos h

theorem skipBlank_cons {c : Char} (h : isBlank c = false) (cs : List Char) : skipBlank (c :: cs) = c :: cs := by
  simp [skipBlank, h]

theorem colon_append {b : List Char} (hb : Blank b) (cs : List Char) : colon (b ++ ':' :: cs) = .ok cs := by
  unfold colon
  rw [skipBlank_append hb, skipBlank_cons (by decide)]
  rfl

theorem exists_blank (cs : List Char) : ∃ b, Blank b ∧ cs = b ++ skipBlank cs :=
  ⟨cs.takeWhile isBlank, fun c hc => List.all_eq_true.1 List.all_takeWhile c hc,
    List.takeWhile_append_dropWhile.symm⟩

theorem colon_ok {cs rest : List Char} (h : colon cs = .ok rest) : ∃ b, Blank b ∧ cs = b ++ ':' :: rest := by
  obtain ⟨b, hb, hcs⟩ := exists_blank cs
  unfold colon at h
  split at h
  · next heq =>
    cases h
    exact ⟨b, hb, hcs.trans (congrArg (b ++ ·) heq)⟩
  · cases h
  · cases h

/-! ## Lists and objects -/

/-- What stands in front of an item: blanks, and before them a comma unless the item is the first. -/
inductive Lead : (first : Bool) → List Char → Prop where
  | first {b : List Char} : Blank b → Lead true b
  | next {b b' : List Char} : Blank b → Blank b' → Lead false (b ++ ',' :: b')

inductive Items : (first : Bool) → List (List Char) → List Char → Prop where
  | nil {first : Bool} : Items first [] []
  | cons {first : Bool} {lead t u : List Char} {ts : List (List Char)} :
      Lead first lead → Items false ts u → Items first (t :: ts) (lead ++ (t ++ u))

/-- The items between two brackets. -/
def Enclosed (opener closer : Char) (ts : List (List Char)) (t : List Char) : Prop :=
  ∃ u b, Items true ts u ∧ Blank b ∧ t = opener :: (u ++ (b ++ [closer]))

/-- The list of the given elements. -/
def ListOf (ts : List (List Char)) (t : List Char) : Prop := Enclosed '[' ']' ts t

/-- A member: the text between the quotes of its key, and that of its value. -/
abbrev Member := List Char × List Char

inductive MemberText : Member → List Char → Prop where
  | mk {k v b b' : List Char} :
      Blank b → Blank b' → MemberText (k, v) ('\x22' :: (k ++ '\x22' :: (b ++ ':' :: (b' ++ v))))

/-- The object of the given members. -/
def ObjectOf (ms : List Member) (t : List Char) : Prop :=
  ∃ ts, List.Forall₂ MemberText ms ts ∧ Enclosed '\x7b' '\x7d' ts t

/-! ## Values -/

/-- The text is a value in the grammar of JSON. -/
inductive Grammatical : List Char → Prop where
  | null : Grammatical ['n', 'u', 'l', 'l']
  | true : Grammatical ['t', 'r', 'u', 'e']
  | false : Grammatical ['f', 'a', 'l', 's', 'e']
  | number {t : List Char} : NumberText t → Grammatical t
  | string {t : List Char} : StringText t → Grammatical ('\x22' :: (t ++ ['\x22']))
  | list {ts : List (List Char)} {t : List Char} : ListOf ts t → (∀ x ∈ ts, Grammatical x) → Grammatical t
  | object {ms : List Member} {t : List Char} :
      ObjectOf ms t → (∀ m ∈ ms, StringText m.1) → (∀ m ∈ ms, Grammatical m.2) → Grammatical t

/-- The members are those of a grammatical object. -/
def GrammaticalMembers (ms : List Member) : Prop := ∀ m ∈ ms, StringText m.1 ∧ Grammatical m.2

theorem GrammaticalMembers.object {ms : List Member} {t : List Char} (h : GrammaticalMembers ms)
    (ht : ObjectOf ms t) : Grammatical t :=
  .object ht (fun m hm => (h m hm).1) (fun m hm => (h m hm).2)

/-! ## First characters -/

theorem isBlank_of_isDigit {c : Char} (h : c.isDigit = true) : isBlank c = false := by
  simp only [isBlank, Bool.or_eq_false_iff, decide_eq_false_iff_not]
  refine ⟨⟨⟨?_, ?_⟩, ?_⟩, ?_⟩ <;> (rintro rfl; exact absurd h (by decide))

/-- The character may start a value. -/
def IsStart (c : Char) : Prop := c.isDigit = true ∨ c ∈ ['n', 't', 'f', '-', '\x22', '[', '\x7b']

theorem IsStart.not_blank {c : Char} (h : IsStart c) : isBlank c = false := by
  rcases h with h | h
  · exact isBlank_of_isDigit h
  · simp only [List.mem_cons, List.not_mem_nil, or_false] at h
    rcases h with rfl | rfl | rfl | rfl | rfl | rfl | rfl <;> decide

theorem IsStart.ne {c : Char} (h : IsStart c) : c ≠ ']' ∧ c ≠ '\x7d' ∧ c ≠ ',' := by
  refine ⟨?_, ?_, ?_⟩ <;> (rintro rfl; revert h; unfold IsStart; decide)

theorem Grammatical.start {t : List Char} (h : Grammatical t) : ∃ c cs, t = c :: cs ∧ IsStart c := by
  cases h with
  | null => exact ⟨_, _, rfl, .inr (by decide)⟩
  | true => exact ⟨_, _, rfl, .inr (by decide)⟩
  | false => exact ⟨_, _, rfl, .inr (by decide)⟩
  | number hnumber =>
    obtain ⟨c, cs, rfl, hc | rfl⟩ := hnumber.start
    · exact ⟨c, cs, rfl, .inl hc⟩
    · exact ⟨_, _, rfl, .inr (by decide)⟩
  | string _ => exact ⟨_, _, rfl, .inr (by decide)⟩
  | list hlist _ =>
    obtain ⟨u, b, -, -, rfl⟩ := hlist
    exact ⟨_, _, rfl, .inr (by decide)⟩
  | object hobject _ _ =>
    obtain ⟨ts, -, u, b, -, -, rfl⟩ := hobject
    exact ⟨_, _, rfl, .inr (by decide)⟩

/-! ## What follows an item -/

theorem Blank.ends {b rest : List Char} (hb : Blank b) (hrest : Ends rest) : Ends (b ++ rest) := by
  cases b with
  | nil => exact hrest
  | cons c cs =>
    refine Ends.cons ?_ _
    have hc := hb c List.mem_cons_self
    simp only [isBlank, Bool.or_eq_true, decide_eq_true_eq] at hc
    rcases hc with ((rfl | rfl) | rfl) | rfl <;> decide

theorem Blank.ends_self {b : List Char} (hb : Blank b) : Ends b := by
  have hends := hb.ends Ends.nil
  rwa [List.append_nil] at hends

theorem Blank.ends_closer {b : List Char} (hb : Blank b) {c : Char} (hc : c = ']' ∨ c = '\x7d')
    (rest : List Char) : Ends (b ++ c :: rest) := by
  refine hb.ends (Ends.cons ?_ rest)
  rcases hc with rfl | rfl <;> decide

/-- Neither the next item nor the end of the list or object continues a number. -/
theorem Items.ends {ts : List (List Char)} {u : List Char} (h : Items false ts u) {rest : List Char}
    (hrest : Ends rest) : Ends (u ++ rest) := by
  cases h with
  | nil => exact hrest
  | cons hlead hu =>
    cases hlead with
    | next hb hb' =>
      simp only [List.append_assoc, List.cons_append]
      exact hb.ends (Ends.cons (by decide) _)

end ProbeSuite.Json
