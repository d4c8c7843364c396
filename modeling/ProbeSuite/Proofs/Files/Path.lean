import ProbeSuite.Files.Path

/-!
# Paths and their parents

* `Path.steps` : the names of a path that lead anywhere, all but single dots;
* `Path.IsDirect` : no name of the path leads back;
* `Path.steps_of_parent?` : a parent has all steps of its path but the last, and starts where the path does.
-/

namespace ProbeSuite

namespace Path

def steps (p : Path) : List Name := p.names.filter (· ≠ ['.'])

def IsDirect (p : Path) : Prop := ['.', '.'] ∉ p.names

/-! ## Names -/

theorem namesFrom_append (name : Name) (p q : Path) :
    namesFrom name (p ++ '/' :: q) = namesFrom name p ++ names q := by
  induction p generalizing name with
  | nil => by_cases h : name.isEmpty <;> simp [namesFrom, names, h]
  | cons c cs ih =>
    rw [List.cons_append]
    by_cases hc : c = '/'
    · by_cases h : name.isEmpty <;> simp [namesFrom, hc, h, ih]
    · simp [namesFrom, hc, ih]

theorem names_append (p q : Path) : names (p ++ '/' :: q) = names p ++ names q := namesFrom_append [] p q

theorem namesFrom_of_not_mem {n : Name} (hn : '/' ∉ n) (name : Name) :
    namesFrom name n = if (name ++ n).isEmpty then [] else [name ++ n] := by
  induction n generalizing name with
  | nil => rw [List.append_nil]; rfl
  | cons c cs ih =>
    have hc : c ≠ '/' := fun h => hn (h ▸ List.mem_cons_self)
    rw [namesFrom, if_neg hc, ih fun h => hn (List.mem_cons_of_mem c h), List.append_assoc]
    rfl

theorem names_of_not_mem {n : Name} (hn : '/' ∉ n) (hne : n ≠ []) : names n = [n] := by
  have hempty : ([] ++ n).isEmpty = false := by simpa using hne
  rw [names, namesFrom_of_not_mem hn, hempty]
  rfl

theorem steps_append (p q : Path) : steps (p ++ '/' :: q) = steps p ++ steps q := by
  rw [steps, names_append, List.filter_append]
  rfl

theorem steps_nil : steps [] = [] := rfl

theorem mem_steps {p : Path} {n : Name} : n ∈ steps p ↔ n ∈ names p ∧ n ≠ ['.'] := by
  rw [steps, List.mem_filter, decide_eq_true_iff]

/-! ## The end of a path -/

/-- Slashes and single dots at the end are no steps. -/
theorem steps_trimEnd (cs : List Char) : steps (trimEnd cs).reverse = steps cs.reverse := by
  fun_induction trimEnd cs with
  | case1 => rfl
  | case2 => rfl
  | case3 rest _ ih => rw [ih, List.reverse_cons, steps_append, steps_nil, List.append_nil]
  | case4 => rfl
  | case5 rest _ ih =>
    have hdot : steps ['.'] = [] := rfl
    rw [ih, List.reverse_cons, List.reverse_cons, List.append_assoc, List.singleton_append, steps_append, hdot,
      List.append_nil]
  | case6 => rfl

theorem trimEnd_isSuffix (cs : List Char) : trimEnd cs <:+ cs := by
  fun_induction trimEnd cs with
  | case1 => exact List.suffix_rfl
  | case2 => exact List.suffix_rfl
  | case3 rest _ ih => exact ih.trans (List.suffix_cons _ _)
  | case4 => exact List.suffix_cons _ _
  | case5 rest _ ih => exact (ih.trans (List.suffix_cons _ _)).trans (List.suffix_cons _ _)
  | case6 => exact List.suffix_rfl

/-- The end of a path that is neither empty nor the root is a name. -/
theorem trimEnd_eq_cons (cs : List Char) : trimEnd cs = [] ∨ trimEnd cs = ['/'] ∨
    ∃ c rest, trimEnd cs = c :: rest ∧ c ≠ '/' ∧ ∀ rest', rest = '/' :: rest' → c ≠ '.' := by
  fun_induction trimEnd cs with
  | case1 => exact .inl rfl
  | case2 => exact .inr (.inl rfl)
  | case3 rest _ ih => exact ih
  | case4 => exact .inr (.inl rfl)
  | case5 rest _ ih => exact ih
  | case6 cs hnil hroot hslash hdotRoot hdot =>
    cases cs with
    | nil => exact .inl rfl
    | cons c rest =>
      refine .inr (.inr ⟨c, rest, rfl, ?_, ?_⟩)
      · rintro rfl
        exact hslash rest rfl
      · rintro rest' rfl rfl
        exact hdot rest' rfl

/-! ## Parents -/

theorem isAbsolute_of_isPrefix {p q : Path} (h : q <+: p) (hq : q ≠ []) : q.isAbsolute = p.isAbsolute := by
  obtain ⟨rest, rfl⟩ := h
  cases q with
  | nil => exact absurd rfl hq
  | cons c cs => rfl

theorem parent?_eq {p : Path} {c : Char} {rest : List Char} (hend : trimEnd p.reverse = c :: rest) (hc : c ≠ '/') :
    p.parent? = some (trimEnd ((c :: rest).dropWhile (· ≠ '/'))).reverse := by
  unfold parent?
  rw [hend]
  split
  · next hnil => cases hnil
  · next hroot => cases hroot; exact absurd rfl hc
  · rfl

/-- A text has no slash, or one that ends the part without slashes in front of it. -/
theorem dropWhile_slash (cs : List Char) : cs.dropWhile (· ≠ '/') = [] ∨
    ∃ n front, cs.dropWhile (· ≠ '/') = '/' :: front ∧ cs = n ++ '/' :: front ∧ '/' ∉ n := by
  have hsplit := List.takeWhile_append_dropWhile (p := (· ≠ '/')) (l := cs)
  have hname : '/' ∉ cs.takeWhile (· ≠ '/') := by
    intro hmem
    have hall := List.all_eq_true.1 (List.all_takeWhile (p := (· ≠ '/')) (l := cs)) _ hmem
    simp at hall
  cases hrest : cs.dropWhile (· ≠ '/') with
  | nil => exact .inl rfl
  | cons d front =>
    have hd : d = '/' := by
      have hhead := List.head?_dropWhile_not (· ≠ '/') cs
      rw [hrest] at hhead
      simpa using hhead
    subst hd
    rw [hrest] at hsplit
    exact .inr ⟨_, front, rfl, hsplit.symm, hname⟩

theorem steps_name (p : Path) {n : Name} (hn : '/' ∉ n) (hne : n ≠ []) (hdot : n ≠ ['.']) :
    steps (p ++ '/' :: n) = steps p ++ [n] := by
  have hlast : steps n = [n] := by
    rw [steps, names_of_not_mem hn hne]
    simp [hdot]
  rw [steps_append, hlast]

/-- **A parent has all steps of its path but the last**, and starts where the path does, unless it is empty. -/
theorem steps_of_parent? {p q : Path} (h : p.parent? = some q) (hq : q ≠ []) :
    (∃ n, steps p = steps q ++ [n]) ∧ q.isAbsolute = p.isAbsolute := by
  rcases trimEnd_eq_cons p.reverse with hnil | hroot | ⟨c, rest, hend, hc, hdot⟩
  · rw [parent?, hnil] at h
    cases h
  · rw [parent?, hroot] at h
    cases h
  rw [parent?_eq hend hc, Option.some.injEq] at h
  rcases dropWhile_slash (c :: rest) with hnone | ⟨n, front, hfront, hsplit, hname⟩
  · rw [hnone] at h
    exact absurd h.symm hq
  rw [hfront] at h
  refine ⟨⟨n.reverse, ?_⟩, ?_⟩
  · have hne : n.reverse ≠ [] := by
      rw [Ne, List.reverse_eq_nil_iff]
      rintro rfl
      cases hsplit
      exact hc rfl
    have hnotDot : n.reverse ≠ ['.'] := by
      rw [Ne, List.reverse_eq_iff]
      rintro rfl
      cases hsplit
      exact hdot front rfl rfl
    have hwhole : (c :: rest).reverse = front.reverse ++ '/' :: n.reverse := by
      rw [hsplit]
      simp
    have hparent : steps q = steps front.reverse := by
      rw [← h, steps_trimEnd, List.reverse_cons, steps_append, steps_nil, List.append_nil]
    have hp : steps p = steps (c :: rest).reverse := by
      rw [← hend, steps_trimEnd, List.reverse_reverse]
    rw [hp, hwhole, steps_name _ (fun hmem => hname (List.mem_reverse.1 hmem)) hne hnotDot, hparent]
  · refine isAbsolute_of_isPrefix ?_ hq
    rw [← h, ← List.reverse_suffix, List.reverse_reverse]
    have hsuffix : '/' :: front <:+ p.reverse := by
      rw [← hfront]
      exact (List.dropWhile_suffix _).trans (hend ▸ trimEnd_isSuffix p.reverse)
    exact (trimEnd_isSuffix _).trans hsuffix

end Path

end ProbeSuite
