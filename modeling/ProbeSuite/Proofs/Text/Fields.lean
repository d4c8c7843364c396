import Mathlib.Data.List.Basic
import ProbeSuite.Natural

/-!
# Texts of several fields

* `forall_mem_of_all` : what all elements of a given text are is computed;
* `forall_mem_intercalate` : the elements of a text are those of its fields and of what stands between them;
* `toDigits_inj`, `isAlphanum_toDigits` : no two numbers have the same digits, and digits are no marks;
* `append_inj_of_forall` : a field ends where elements of another kind begin;
* `append_cons_inj` : a field ends where a mark stands that it does not have;
* `intercalate_inj` : fields that do not have the mark between them are those of one list only.
-/

namespace ProbeSuite.Text

variable {α : Type}

-- `decide` alone may go over all values of `α` here, and not over those in the list.
theorem forall_mem_of_all {P : α → Prop} [DecidablePred P] {x : List α}
    (h : x.all (fun c => decide (P c)) = true) : ∀ c ∈ x, P c :=
  fun c hc => of_decide_eq_true (List.all_eq_true.1 h c hc)

/-- A separator of two characters, of which the second may as well stand in front of each field. -/
theorem cons_intercalate (c d : α) : ∀ {xs : List (List α)}, xs ≠ [] →
    d :: [c, d].intercalate xs = [c].intercalate (xs.map (d :: ·))
  | [x], _ => by rw [List.map_singleton, List.intercalate_singleton, List.intercalate_singleton]
  | x :: y :: xs, _ => by
    have htail := cons_intercalate c d (List.cons_ne_nil y xs)
    rw [List.map_cons] at htail
    rw [List.intercalate_cons_cons, List.map_cons, List.map_cons, List.intercalate_cons_cons, ← htail]
    simp only [List.append_assoc, List.cons_append, List.nil_append]

/-- What all elements of the fields and of what stands between them are, all elements of the text are. -/
theorem forall_mem_intercalate {P : α → Prop} {sep : List α} (hsep : ∀ c ∈ sep, P c) :
    ∀ {xs : List (List α)}, (∀ x ∈ xs, ∀ c ∈ x, P c) → ∀ c ∈ sep.intercalate xs, P c
  | [], _ => List.forall_mem_nil _
  | [x], hxs => by
    rw [List.intercalate_singleton]
    exact hxs x List.mem_cons_self
  | x :: y :: xs, hxs => by
    obtain ⟨hx, hxs⟩ := List.forall_mem_cons.1 hxs
    rw [List.intercalate_cons_cons, List.forall_mem_append, List.forall_mem_append]
    exact ⟨⟨hx, hsep⟩, forall_mem_intercalate hsep hxs⟩

/-- The digits of a number tell which it is. -/
theorem toDigits_inj {m n : Nat} : Nat.toDigits 10 m = Nat.toDigits 10 n ↔ m = n := by
  constructor
  · intro h
    rw [← Nat.ofDigitChars_ten_toDigits (n := m), h, Nat.ofDigitChars_ten_toDigits]
  · exact congrArg _

theorem isAlphanum_toDigits {c : Char} {n : Nat} (h : c ∈ Nat.toDigits 10 n) : c.isAlphanum = true := by
  unfold Char.isAlphanum
  rw [Nat.isDigit_of_mem_toDigits (by decide) (by decide) h, Bool.or_true]

/-- Two fields are told apart by what their elements are. -/
theorem append_inj_of_forall {P : α → Bool} {x y rest rest' : List α} (hx : ∀ c ∈ x, P c = false)
    (hy : ∀ c ∈ y, P c = false) (hrest : ∀ c ∈ rest, P c = true) (hrest' : ∀ c ∈ rest', P c = true) :
    x ++ rest = y ++ rest' ↔ x = y ∧ rest = rest' := by
  constructor
  · intro h
    have hfilter : ∀ {z zs : List α}, (∀ c ∈ z, P c = false) → (∀ c ∈ zs, P c = true) → (z ++ zs).filter P = zs := by
      intro z zs hz hzs
      rw [List.filter_append, List.filter_eq_self.2 hzs, List.filter_eq_nil_iff.2 fun c hc => by simp [hz c hc],
        List.nil_append]
    have heq : rest = rest' := by rw [← hfilter hx hrest, h, hfilter hy hrest']
    subst heq
    exact ⟨List.append_cancel_right h, rfl⟩
  · rintro ⟨rfl, rfl⟩
    rfl

variable [DecidableEq α] {c : α} {xs ys : List (List α)}

theorem takeWhile_append_cons {x : List α} (hx : c ∉ x) (rest : List α) :
    (x ++ c :: rest).takeWhile (fun d => decide (d ≠ c)) = x := by
  have hpos : ∀ d ∈ x, decide (d ≠ c) = true := fun d hd => decide_eq_true (ne_of_mem_of_not_mem hd hx)
  rw [List.takeWhile_append_of_pos hpos, List.takeWhile_cons_of_neg (by simp), List.append_nil]

/-- Fields that end where a mark stands for the first time are the same if the texts are. -/
theorem append_cons_inj {x y rest rest' : List α} (hx : c ∉ x) (hy : c ∉ y) :
    x ++ c :: rest = y ++ c :: rest' ↔ x = y ∧ rest = rest' := by
  constructor
  · intro h
    have hfield : x = y := by
      rw [← takeWhile_append_cons hx rest, h, takeWhile_append_cons hy]
    subst hfield
    exact ⟨rfl, (List.cons.inj (List.append_cancel_left h)).2⟩
  · rintro ⟨rfl, rfl⟩
    rfl

/-- Fields that are not empty, and do not have the first character of what stands between them, are told apart. -/
theorem intercalate_inj {d : α} (hcd : c ≠ d) (hxs : ∀ x ∈ xs, x ≠ [] ∧ c ∉ x) (hys : ∀ y ∈ ys, y ≠ [] ∧ c ∉ y) :
    [c, d].intercalate xs = [c, d].intercalate ys ↔ xs = ys := by
  have hempty : ∀ {zs : List (List α)}, (∀ z ∈ zs, z ≠ [] ∧ c ∉ z) → [c, d].intercalate zs = [] → zs = [] := by
    intro zs hzs hnil
    match zs with
    | [] => rfl
    | [z] =>
      rw [List.intercalate_singleton] at hnil
      exact absurd hnil (hzs z List.mem_cons_self).1
    | z :: z' :: zs =>
      rw [List.intercalate_cons_cons] at hnil
      exact absurd (List.append_eq_nil_iff.1 (List.append_eq_nil_iff.1 hnil).1).1 (hzs z List.mem_cons_self).1
  have hsplit : ∀ {zs : List (List α)}, (∀ z ∈ zs, z ≠ [] ∧ c ∉ z) → zs ≠ [] →
      (d :: [c, d].intercalate zs).splitOn c = zs.map (d :: ·) := by
    intro zs hzs hne
    rw [cons_intercalate c d hne]
    refine List.splitOn_intercalate c ?_ (by simpa using hne)
    intro field hfield
    obtain ⟨z, hz, rfl⟩ := List.mem_map.1 hfield
    simpa [hcd] using (hzs z hz).2
  refine ⟨fun h => ?_, congrArg _⟩
  by_cases hx : xs = []
  · rw [hx]
    rw [hx, List.intercalate_nil] at h
    exact (hempty hys h.symm).symm
  · by_cases hy : ys = []
    · rw [hy, List.intercalate_nil] at h
      exact absurd (hempty hxs h) hx
    · have hmap := (hsplit hxs hx).symm.trans ((congrArg (fun t => (d :: t).splitOn c) h).trans (hsplit hys hy))
      exact List.map_injective_iff.2 (List.cons_injective) hmap

end ProbeSuite.Text
