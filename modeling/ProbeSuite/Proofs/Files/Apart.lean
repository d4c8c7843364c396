import ProbeSuite.Proofs.Files.Confined

/-!
# Paths that end apart

* `Path.IsNormal` : a relative path of names with single slashes between them;
* `Path.IsAncestor` : a path goes on below another;
* `Path.eq_or_isAncestor` : a normal path whose names start another is that path or an ancestor;
* `Files.not_isPrefix_target` : normal paths of which none is an ancestor end apart.
-/

namespace ProbeSuite

namespace Path

/-- A relative path of names, none of them dots, with single slashes between them. -/
structure IsNormal (p : Path) : Prop where
  ne_nil : p ≠ []
  relative : p.isAbsolute = false
  names : ['/'].intercalate p.names = p
  dot : ['.'] ∉ p.names
  dots : ['.', '.'] ∉ p.names

def IsAncestor (p q : Path) : Prop := ∃ rest, q = p ++ '/' :: rest

instance (p : Path) : Decidable p.IsNormal :=
  decidable_of_iff (p ≠ [] ∧ p.isAbsolute = false ∧ ['/'].intercalate p.names = p ∧ ['.'] ∉ p.names ∧
      ['.', '.'] ∉ p.names)
    ⟨fun ⟨h₁, h₂, h₃, h₄, h₅⟩ => ⟨h₁, h₂, h₃, h₄, h₅⟩,
      fun ⟨h₁, h₂, h₃, h₄, h₅⟩ => ⟨h₁, h₂, h₃, h₄, h₅⟩⟩

instance (p q : Path) : Decidable (p.IsAncestor q) :=
  decidable_of_iff (p ++ ['/'] <+: q) <| by
    simp only [List.IsPrefix, IsAncestor, List.append_assoc, List.singleton_append, eq_comm]

variable {p q : Path}

theorem IsNormal.isDirect (h : p.IsNormal) : p.IsDirect := h.dots

theorem IsNormal.ne_nullDevice (h : p.IsNormal) : p ≠ Files.nullDevice := by
  rintro rfl
  exact absurd h.relative (by decide)

theorem IsNormal.steps (h : p.IsNormal) : p.steps = p.names := by
  refine List.filter_eq_self.2 fun n hn => decide_eq_true ?_
  rintro rfl
  exact h.dot hn

theorem intercalate_append {xs ys : List Name} (hx : xs ≠ []) (hy : ys ≠ []) :
    ['/'].intercalate (xs ++ ys) = ['/'].intercalate xs ++ '/' :: ['/'].intercalate ys := by
  induction xs with
  | nil => exact absurd rfl hx
  | cons x xs ih =>
    rw [List.cons_append, List.intercalate_cons_of_ne_nil (by simp [hy])]
    cases xs with
    | nil => rw [List.intercalate_singleton, List.nil_append, List.append_assoc]; rfl
    | cons x' xs =>
      rw [ih (List.cons_ne_nil _ _), List.intercalate_cons_cons]
      simp only [List.append_assoc]

/-- A normal path whose names start another is that path or an ancestor of it. -/
theorem IsNormal.eq_or_isAncestor (hp : p.IsNormal) (hq : q.IsNormal) (h : p.names <+: q.names) :
    p = q ∨ p.IsAncestor q := by
  obtain ⟨rest, hrest⟩ := h
  have hnames : p.names ≠ [] := by
    intro hnil
    have hempty := hp.names
    rw [hnil] at hempty
    exact hp.ne_nil hempty.symm
  cases rest with
  | nil =>
    rw [List.append_nil] at hrest
    exact .inl (hp.names.symm.trans ((congrArg _ hrest).trans hq.names))
  | cons n ns =>
    have hwhole := hq.names
    rw [← hrest, intercalate_append hnames (List.cons_ne_nil n ns), hp.names] at hwhole
    exact .inr ⟨_, hwhole.symm⟩

end Path

namespace Files

variable {p q : Path}

theorem not_isPrefix_target (f : Files) (hp : p.IsNormal) (hq : q.IsNormal) (hne : p ≠ q)
    (hapart : ¬p.IsAncestor q) : ¬f.target p <+: f.target q := by
  intro h
  have hstart : f.start p = f.start q := by
    rw [start, start, hp.relative, hq.relative]
  rw [target, target, hstart, List.prefix_append_right_inj, hp.steps, hq.steps] at h
  rcases hp.eq_or_isAncestor hq h with heq | hancestor
  · exact hne heq
  · exact hapart hancestor

end Files

end ProbeSuite
