import Mathlib.Data.List.Induction
import ProbeSuite.Proofs.Files
import ProbeSuite.Proofs.Files.Path

/-!
# Directories that are made on the way to a file

* `Files.Grows` : directories were made at some places where nothing was, and nothing else changed;
  `Grows.refl`, `Grows.trans`;
* `Files.IsTree` : every entry stands in a directory;
* `Files.makeParent_rel` : what one directory that is made keeps, the parents of a path keep;
* `Files.makeParent_grows` : to make the parents of a path only adds directories;
* `Files.makeParent_growsAbove` : those of a direct path are made above its end;
* `Files.find_of_isTree` : in a tree, what a direct path leads to depends on its end only;
* `Files.has_makeParent` : a path that led nowhere still leads nowhere.
-/

namespace ProbeSuite

namespace Files

variable {f g k : Files} {p q : Path} {place : Place} {W : Place → Prop}

/-- Directories were made at some places where nothing was. -/
structure Grows (f g : Files) (W : Place → Prop) : Prop where
  current : g.current = f.current
  refusal : g.refusal = f.refusal
  room : g.room = f.room
  entry : ∀ q, g.entry q = f.entry q ∨ W q ∧ f.entry q = none ∧ g.entry q = some .directory

/-! ## Growing -/

theorem Grows.refl (f : Files) (W : Place → Prop) : Grows f f W := ⟨rfl, rfl, rfl, fun _ => .inl rfl⟩

theorem Grows.trans (h : Grows f g W) (h' : Grows g k W) : Grows f k W where
  current := h'.current.trans h.current
  refusal := h'.refusal.trans h.refusal
  room := h'.room.trans h.room
  entry := by
    intro q
    rcases h.entry q with hq | ⟨hW, hnone, hdir⟩ <;> rcases h'.entry q with hq' | ⟨hW', hnone', hdir'⟩
    · exact .inl (hq'.trans hq)
    · exact .inr ⟨hW', hq ▸ hnone', hdir'⟩
    · exact .inr ⟨hW, hnone, hq'.trans hdir⟩
    · exact .inr ⟨hW, hnone, hdir'⟩

theorem Grows.at? (h : Grows f g W) (q : Place) :
    g.at? q = f.at? q ∨ W q ∧ f.at? q = none ∧ g.at? q = some .directory := by
  cases q with
  | nil => exact .inl rfl
  | cons n ns => exact h.entry (n :: ns)

/-- Every file stays, and none is made. -/
theorem Grows.file_iff (h : Grows f g W) (q : Place) (content : ByteArray) :
    g.entry q = some (.file content) ↔ f.entry q = some (.file content) := by
  rcases h.entry q with hq | ⟨-, hnone, hdir⟩
  · rw [hq]
  · rw [hnone, hdir]
    exact iff_of_false (fun h => nomatch h) fun h => nomatch h

theorem Grows.start (h : Grows f g W) (p : Path) : g.start p = f.start p := by
  unfold Files.start
  rw [h.current]

theorem Grows.find {e : Entry} (h : Grows f g W) (hfind : f.find p = .ok (place, e)) : g.find p = .ok (place, e) := by
  obtain ⟨husable, hwalk, hat, hslashed⟩ := find_ok_iff.1 hfind
  have hkeep : ∀ q e, f.at? q = some e → g.at? q = some e := by
    intro q e hq
    rcases h.at? q with hsame | ⟨-, hnone, -⟩
    · rw [hsame, hq]
    · rw [hnone] at hq
      cases hq
  refine find_ok_iff.2 ⟨husable, ?_, hkeep _ _ hat, hslashed⟩
  rw [h.start]
  exact walk_of_directories (fun q => hkeep q _) hwalk

/-! ## Trees -/

/-- Every entry stands in a directory. -/
def IsTree (f : Files) : Prop := ∀ q n, f.at? (q ++ [n]) ≠ none → f.at? q = some .directory

theorem IsTree.directory_of_isPrefix (h : f.IsTree) {q rest : Place} (hrest : rest ≠ [])
    (hat : f.at? (q ++ rest) ≠ none) : f.at? q = some .directory := by
  induction rest using List.reverseRecOn with
  | nil => exact absurd rfl hrest
  | append_singleton rest n ih =>
    rw [← List.append_assoc] at hat
    have hdir := h _ n hat
    cases rest with
    | nil => rwa [List.append_nil] at hdir
    | cons m ms => exact ih (List.cons_ne_nil m ms) (hdir ▸ nofun)

theorem isTree_fresh (current : Place) : (fresh current).IsTree := by
  intro q n hat
  have hstands : (q ++ [n]).isPrefixOf current = true := by
    by_contra hnot
    refine hat ?_
    unfold at?
    rw [if_neg (by simp)]
    exact if_neg hnot
  have habove : q.isPrefixOf current = true :=
    List.isPrefixOf_iff_prefix.2 ((List.prefix_append q [n]).trans (List.isPrefixOf_iff_prefix.1 hstands))
  unfold at?
  split
  · rfl
  · exact if_pos habove

theorem makeDirectory_grows (h : f.makeDirectory p = .ok g) (hW : ∀ place, f.Names p place → W place) :
    Grows f g W := by
  obtain ⟨place, hnames, hat, rfl⟩ := makeDirectory_ok h
  refine ⟨rfl, rfl, rfl, fun q => ?_⟩
  by_cases hq : q = place
  · subst hq
    have hentry : f.entry q = none := by
      cases q with
      | nil => exact absurd rfl hnames.ne_nil
      | cons n ns => exact hat
    exact .inr ⟨hW q hnames, hentry, if_pos rfl⟩
  · exact .inl (if_neg hq)

theorem makeDirectory_isTree (h : f.makeDirectory p = .ok g) (hf : f.IsTree) : g.IsTree := by
  obtain ⟨place, hnames, hat, rfl⟩ := makeDirectory_ok h
  obtain ⟨here, n, hholder, hchild⟩ := hnames
  have hdir := (holder_ok hholder).2.2.1
  have hplace := (child_ok hchild).2
  have hne : place ≠ [] := hplace ▸ List.append_ne_nil_of_right_ne_nil _ (List.cons_ne_nil _ _)
  have hkeep : ∀ q, f.at? q = some .directory → (f.set place (some .directory)).at? q = some .directory := by
    intro q hq
    rw [at?_set hne]
    split
    · rfl
    · exact hq
  intro q m hm
  apply hkeep
  rw [at?_set hne] at hm
  split at hm
  · next hq =>
    rw [hplace] at hq
    rwa [List.append_inj_left' hq rfl]
  · exact hf q m hm

/-! ## Making directories -/

section

variable {R : Files → Files → Prop} {P : Path → Prop} (hrefl : ∀ f, R f f)
  (htrans : ∀ f g k, R f g → R g k → R f k) (hstep : ∀ f g p, P p → f.makeDirectory p = .ok g → R f g)
  (hparent : ∀ p q, P p → p.parent? = some q → q ≠ [] → P q)

include hrefl htrans hstep hparent

/-- What one directory that is made keeps, a directory and those above it keep. -/
theorem makeDirectoriesFrom_rel (bound : List Char) (hp : P p) (f : Files) :
    R f (makeDirectoriesFrom bound p f).1 := by
  induction bound generalizing p f with
  | nil => exact hrefl f
  | cons _ bound ih =>
    unfold makeDirectoriesFrom
    split
    · next g hmade => exact hstep f g p hp hmade
    · split
      · split
        · exact hrefl f
        · next parent hp' =>
          -- the parent is made first, and then the directory once more
          have habove : R f (if parent.isEmpty then (f, .ok ()) else makeDirectoriesFrom bound parent f).1 := by
            split
            · exact hrefl f
            · next hne => exact ih (hparent p parent hp hp' (by simpa using hne)) f
          generalize (if parent.isEmpty then (f, .ok ()) else makeDirectoriesFrom bound parent f) = above at habove ⊢
          rcases above with ⟨g, e | _⟩
          · exact habove
          · dsimp only
            split
            · next k hmade => exact htrans f g k habove (hstep g k p hp hmade)
            · split
              · exact habove
              · exact habove
      · split
        · exact hrefl f
        · exact hrefl f

/-- What one directory that is made keeps, the parents of a path keep. -/
theorem makeParent_rel (hp : ∀ q, p.parent? = some q → q ≠ [] → P q) (f : Files) : R f (f.makeParent p).1 := by
  unfold makeParent
  split
  · exact hrefl f
  · next parent hp' =>
    have hmade : R f (f.makeDirectories parent).1 := by
      unfold makeDirectories
      split
      · exact hrefl f
      · next hne =>
        exact makeDirectoriesFrom_rel hrefl htrans hstep hparent parent (hp parent hp' (by simpa using hne)) f
    split
    · next heq => rw [heq] at hmade; exact hmade
    · next heq => rw [heq] at hmade; exact hmade

end

/-- **To make the parents of a path only adds directories.** -/
theorem makeParent_grows (f : Files) (p : Path) : Grows f (f.makeParent p).1 fun _ => True :=
  makeParent_rel (P := fun _ => True) (R := fun f g => Grows f g fun _ => True) (fun f => .refl f _)
    (fun _ _ _ => .trans) (fun _ _ _ _ hmade => makeDirectory_grows hmade fun _ _ => trivial)
    (fun _ _ _ _ _ => trivial) (fun _ _ _ => trivial) f

/-! ## Direct paths -/

/-- The place that a direct path leads to. -/
def target (f : Files) (p : Path) : Place := f.start p ++ p.steps

theorem walk_direct {here : Place} {ns : List Name} (hns : ['.', '.'] ∉ ns) (hwalk : f.walk here ns = .ok place) :
    place = here ++ ns.filter (· ≠ ['.']) := by
  fun_induction f.walk here ns with
  | case1 here => cases hwalk; exact (List.append_nil _).symm
  | case2 => cases hwalk
  | case3 => cases hwalk
  | case4 here ns hat ih => simpa using ih (fun h => hns (List.mem_cons_of_mem _ h)) hwalk
  | case5 here ns hat hdot ih => exact absurd List.mem_cons_self hns
  | case6 => cases hwalk
  | case7 here n ns hat hdot hdots hlength ih =>
    rw [ih (fun h => hns (List.mem_cons_of_mem _ h)) hwalk, List.append_assoc]
    simp [hdot]

theorem Names.eq_target (h : f.Names p place) (hp : p.IsDirect) : place = f.target p := walk_direct hp h.walk.2

/-- A way that stays inside its end stays where no directory above the end goes away. -/
theorem walk_of_prefixes {here : Place} {ns : List Name} (hns : ['.', '.'] ∉ ns)
    (hwalk : g.walk here ns = .ok place)
    (hdirs : ∀ q, q <+: place → g.at? q = some .directory → f.at? q = some .directory) :
    f.walk here ns = .ok place := by
  have hfront : here <+: place := ⟨_, (walk_direct hns hwalk).symm⟩
  fun_induction g.walk here ns with
  | case1 here => cases hwalk; rfl
  | case2 => cases hwalk
  | case3 => cases hwalk
  | case4 here ns hat ih =>
    have htail := ih (fun h => hns (List.mem_cons_of_mem _ h)) hwalk hfront
    simpa only [walk, hdirs here hfront hat, if_true] using htail
  | case5 here ns hat hdot ih => exact absurd List.mem_cons_self hns
  | case6 => cases hwalk
  | case7 here n ns hat hdot hdots hlength ih =>
    have hns' : ['.', '.'] ∉ ns := fun h => hns (List.mem_cons_of_mem _ h)
    have htail := ih hns' hwalk ⟨_, (walk_direct hns' hwalk).symm⟩
    simpa only [walk, hdirs here hfront hat, if_neg hdot, if_neg hdots, if_neg hlength] using htail

/-! ## Directories above a path -/

/-- The path of a directory above the end of a direct path. -/
structure IsAbove (p q : Path) : Prop where
  isDirect : q.IsDirect
  isAbsolute_eq : q.isAbsolute = p.isAbsolute
  steps_eq : ∃ n rest, p.steps = q.steps ++ n :: rest

theorem isDirect_of_parent? {p q : Path} (hp : p.IsDirect) (h : p.parent? = some q) (hq : q ≠ []) : q.IsDirect := by
  intro hback
  obtain ⟨⟨n, hsteps⟩, -⟩ := Path.steps_of_parent? h hq
  have hmem : ['.', '.'] ∈ p.steps := by
    rw [hsteps]
    exact List.mem_append_left _ (Path.mem_steps.2 ⟨hback, by decide⟩)
  exact hp (Path.mem_steps.1 hmem).1

theorem isAbove_of_parent? {p q : Path} (hp : p.IsDirect) (h : p.parent? = some q) (hq : q ≠ []) : IsAbove p q := by
  obtain ⟨⟨n, hsteps⟩, habsolute⟩ := Path.steps_of_parent? h hq
  exact ⟨isDirect_of_parent? hp h hq, habsolute, n, [], hsteps⟩

theorem IsAbove.parent {p q r : Path} (h : IsAbove p q) (hr : q.parent? = some r) (hne : r ≠ []) : IsAbove p r := by
  obtain ⟨⟨n, hsteps⟩, habsolute⟩ := Path.steps_of_parent? hr hne
  obtain ⟨m, rest, hq⟩ := h.steps_eq
  refine ⟨isDirect_of_parent? h.isDirect hr hne, habsolute.trans h.isAbsolute_eq, n, m :: rest, ?_⟩
  rw [hq, hsteps, List.append_assoc]
  rfl

/-- Directories were made above the end of a path, and a tree is still one. -/
def GrowsAbove (p : Path) (f g : Files) : Prop :=
  Grows f g (fun q => q <+: f.target p ∧ q ≠ f.target p) ∧ (f.IsTree → g.IsTree)

theorem GrowsAbove.refl (p : Path) (f : Files) : GrowsAbove p f f := ⟨.refl f _, id⟩

theorem GrowsAbove.trans {k : Files} (h : GrowsAbove p f g) (h' : GrowsAbove p g k) : GrowsAbove p f k := by
  have htarget : g.target p = f.target p := by rw [target, target, h.1.start]
  have hgrows := h'.1
  rw [htarget] at hgrows
  exact ⟨h.1.trans hgrows, h'.2 ∘ h.2⟩

theorem makeDirectory_growsAbove {q : Path} (h : IsAbove p q) (hmade : f.makeDirectory q = .ok g) :
    GrowsAbove p f g := by
  refine ⟨makeDirectory_grows hmade fun place hnames => ?_, makeDirectory_isTree hmade⟩
  obtain ⟨n, rest, hsteps⟩ := h.steps_eq
  have hstart : f.start q = f.start p := by
    unfold start
    rw [h.isAbsolute_eq]
  have hplace : f.target p = place ++ n :: rest := by
    rw [hnames.eq_target h.isDirect, target, target, hstart, hsteps, List.append_assoc]
  rw [hplace]
  exact ⟨List.prefix_append _ _, by simp⟩

/-- The directories that are made on a direct path stand above its end. -/
theorem makeParent_growsAbove (hp : p.IsDirect) (f : Files) : GrowsAbove p f (f.makeParent p).1 :=
  makeParent_rel (P := IsAbove p) (.refl p) (fun _ _ _ => .trans) (fun _ _ _ => makeDirectory_growsAbove)
    (fun _ _ => .parent) (fun _ => isAbove_of_parent? hp) f

/-- What is found at a direct path is found in every tree that has the same at its end. -/
theorem find_of_isTree {e : Entry} (hp : p.IsDirect) (hf : f.IsTree) (hcurrent : g.current = f.current)
    (hend : g.at? (f.target p) = f.at? (f.target p)) (hfind : g.find p = .ok (place, e)) :
    f.find p = .ok (place, e) := by
  obtain ⟨husable, hwalk, hat, hslashed⟩ := find_ok_iff.1 hfind
  have hstart : g.start p = f.start p := by
    unfold start
    rw [hcurrent]
  rw [hstart] at hwalk
  have hplace : place = f.target p := walk_direct hp hwalk
  rw [← hplace] at hend
  refine find_ok_iff.2 ⟨husable, walk_of_prefixes hp hwalk ?_, hend ▸ hat, hslashed⟩
  rintro q ⟨rest, rfl⟩ hdir
  cases rest with
  | nil =>
    rw [List.append_nil] at hend
    rw [← hend, hdir]
  | cons n ns =>
    refine hf.directory_of_isPrefix (List.cons_ne_nil n ns) ?_
    rw [← hend, hat]
    exact nofun

theorem GrowsAbove.find_iff (h : GrowsAbove p f g) (hp : p.IsDirect) (hf : f.IsTree) {e : Entry} :
    g.find p = .ok (place, e) ↔ f.find p = .ok (place, e) := by
  refine ⟨find_of_isTree hp hf h.1.current ?_, h.1.find⟩
  rcases h.1.at? (f.target p) with hsame | ⟨⟨-, hne⟩, -⟩
  · exact hsame
  · exact absurd rfl hne

/-- **A direct path that led nowhere still leads nowhere** when its parents have been made. -/
theorem has_makeParent (hp : p.IsDirect) (hf : f.IsTree) : (f.makeParent p).1.has p = f.has p := by
  rw [Bool.eq_iff_iff, has_iff, has_iff]
  simp only [(makeParent_growsAbove hp f).find_iff hp hf]

end Files

end ProbeSuite
