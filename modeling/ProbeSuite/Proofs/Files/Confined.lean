import ProbeSuite.Proofs.Files.Grows

/-!
# Changes at one path

* `Files.Confined` : a file system changed at most at the end of a path, and by directories made above it;
  `Confined.refl`, `Confined.trans`;
* `GrowsAbove.confined`, `confined_write`, `confined_remove` : the accesses of which that is true;
* `Confined.find_iff` : what is found at a path that ends neither there nor above.
-/

namespace ProbeSuite

namespace Files

variable {f g k : Files} {p p' : Path} {place : Place}

structure Confined (p : Path) (f g : Files) : Prop where
  current : g.current = f.current
  refusal : g.refusal = f.refusal
  room : g.room = f.room
  entry : ∀ q, q ≠ f.target p →
    g.entry q = f.entry q ∨ q <+: f.target p ∧ f.entry q = none ∧ g.entry q = some .directory
  directory : ∀ q, f.entry q = some .directory → g.entry q = some .directory
  isTree : f.IsTree → g.IsTree

theorem target_congr (h : g.current = f.current) (p : Path) : g.target p = f.target p := by
  unfold target start
  rw [h]

theorem Confined.refl (p : Path) (f : Files) : Confined p f f := ⟨rfl, rfl, rfl, fun _ _ => .inl rfl, fun _ => id, id⟩

theorem Confined.trans (h : Confined p f g) (h' : Confined p g k) : Confined p f k where
  current := h'.current.trans h.current
  refusal := h'.refusal.trans h.refusal
  room := h'.room.trans h.room
  directory q := h'.directory q ∘ h.directory q
  isTree := h'.isTree ∘ h.isTree
  entry := by
    intro q hq
    have htarget := target_congr h.current p
    rcases h'.entry q (htarget ▸ hq) with hsame' | ⟨habove', hnone', hdir'⟩
    · rw [hsame']
      exact h.entry q hq
    · rcases h.entry q hq with hsame | ⟨-, -, hdir⟩
      · exact .inr ⟨htarget ▸ habove', hsame ▸ hnone', hdir'⟩
      · cases hdir.symm.trans hnone'

theorem GrowsAbove.confined (h : GrowsAbove p f g) : Confined p f g where
  current := h.1.current
  refusal := h.1.refusal
  room := h.1.room
  isTree := h.2
  directory q hdir := by
    rcases h.1.entry q with hsame | ⟨-, hnone, -⟩
    · rw [hsame, hdir]
    · cases hdir.symm.trans hnone
  entry q _ := (h.1.entry q).imp_right fun ⟨⟨habove, _⟩, hnone, hdir⟩ => ⟨habove, hnone, hdir⟩

/-! ## Single accesses -/

/-- An entry put where no directory stands leaves a tree. -/
theorem isTree_set (hnames : f.Names p place) (hat : f.at? place ≠ some .directory) (e : Option Entry)
    (hf : f.IsTree) : (f.set place e).IsTree := by
  obtain ⟨here, n, hholder, hchild⟩ := hnames
  have hdir := (holder_ok hholder).2.2.1
  obtain ⟨-, rfl⟩ := child_ok hchild
  have hne : here ++ [n] ≠ [] := List.append_ne_nil_of_right_ne_nil _ (List.cons_ne_nil _ _)
  intro q m hm
  have habove : f.at? q = some .directory := by
    rw [at?_set hne] at hm
    split at hm
    · next hq => rwa [List.append_inj_left' hq rfl]
    · exact hf q m hm
  rw [at?_set hne, if_neg (by rintro rfl; exact hat habove)]
  exact habove

theorem confined_set (hp : p.IsDirect) (hnames : f.Names p place) (hat : f.at? place ≠ some .directory)
    (e : Option Entry) : Confined p f (f.set place e) where
  current := rfl
  refusal := rfl
  room := rfl
  isTree := isTree_set hnames hat e
  directory q hdir := by
    have hne : q ≠ place := by
      rintro rfl
      refine hat ?_
      unfold at?
      rw [if_neg (by simpa using hnames.ne_nil)]
      exact hdir
    exact (if_neg hne).trans hdir
  entry _ hq := .inl (if_neg fun h => hq (h.trans (hnames.eq_target hp)))

/-- However writing to a file ends, it changes that file at most. -/
theorem confined_write (hp : p.IsDirect) (f : Files) (content : ByteArray) :
    Confined p f (f.write p content).1 := by
  have hends := write_ends f p content
  generalize f.write p content = result at hends
  cases hends with
  | dropped => exact .refl p f
  | closed => exact .refl p f
  | cut place n e hopens =>
    obtain ⟨hnames, -, hat⟩ := opens_ok hopens
    exact confined_set hp hnames hat _
  | whole place hopens =>
    obtain ⟨hnames, -, hat⟩ := opens_ok hopens
    exact confined_set hp hnames hat _

theorem confined_remove (hp : p.IsDirect) (h : f.remove p = .ok g) : Confined p f g := by
  obtain ⟨-, place, content, hnames, hat, rfl⟩ := remove_ok h
  exact confined_set hp hnames (hat ▸ nofun) _

/-! ## Other paths -/

/-- A change at one path is not seen at a path that ends neither there nor above. -/
theorem Confined.find_iff (h : Confined p f g) (hf : f.IsTree) (hp : p'.IsDirect)
    (hapart : ¬f.target p' <+: f.target p) {e : Entry} :
    g.find p' = .ok (place, e) ↔ f.find p' = .ok (place, e) := by
  have hsame : g.at? (f.target p') = f.at? (f.target p') := by
    rcases hq : f.target p' with _ | ⟨n, ns⟩
    · rfl
    · rw [hq] at hapart
      rcases h.entry (n :: ns) (by rintro heq; exact hapart (heq ▸ List.prefix_rfl)) with hsame | ⟨habove, -⟩
      · exact hsame
      · exact absurd habove hapart
  have htarget := target_congr h.current p'
  exact ⟨find_of_isTree hp hf h.current hsame,
    find_of_isTree hp (h.isTree hf) h.current.symm (by rw [htarget, hsame])⟩

end Files

end ProbeSuite
