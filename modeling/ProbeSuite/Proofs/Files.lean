import ProbeSuite.Files
import ProbeSuite.Proofs.Except

/-!
# Accesses to files

* `Files.walk_of_directories` : a way stays where no directory goes away;
* `Files.Names` : the place that the last name of a path stands for;
* `Files.Written`, `write_ends` : the ways in which writing to a file ends;
* `Files.write_ok`, `makeDirectory_ok`, `remove_ok` : what an access needed and what it left;
* `Files.find_write`, `not_has_remove` : what stands at the path of an access afterwards.
-/

namespace ProbeSuite

namespace Files

variable {f g : Files} {p : Path} {place here : Place}

/-! ## Places -/

theorem at?_set (hplace : place ≠ []) (e : Option Entry) (q : Place) :
    (f.set place e).at? q = if q = place then e else f.at? q := by
  cases q with
  | nil => rw [if_neg (Ne.symm hplace)]; rfl
  | cons n ns => rfl

theorem at?_set_self (hplace : place ≠ []) (e : Option Entry) : (f.set place e).at? place = e := by
  rw [at?_set hplace, if_pos rfl]

theorem walk_append (here : Place) (ns ms : List Name) :
    f.walk here (ns ++ ms) = f.walk here ns >>= fun place => f.walk place ms := by
  fun_induction f.walk here ns with
  | case1 => rfl
  | case2 here n ns hat => simp only [List.cons_append, walk, hat]; rfl
  | case3 here n ns content hat => simp only [List.cons_append, walk, hat]; rfl
  | case4 here ns hat ih => simpa only [List.cons_append, walk, hat, if_true] using ih
  | case5 here ns hat hdot ih => simpa only [List.cons_append, walk, hat, if_neg hdot, if_true] using ih
  | case6 here n ns hat hdot hdots hlength =>
    simp only [List.cons_append, walk, hat, if_neg hdot, if_neg hdots, if_pos hlength]; rfl
  | case7 here n ns hat hdot hdots hlength ih =>
    simpa only [List.cons_append, walk, hat, if_neg hdot, if_neg hdots, if_neg hlength] using ih

/-- Names lead through directories only, so a way stays where no directory goes away. -/
theorem walk_of_directories (hdirs : ∀ q, f.at? q = some .directory → g.at? q = some .directory) {ns : List Name}
    (hwalk : f.walk here ns = .ok place) : g.walk here ns = .ok place := by
  fun_induction f.walk here ns <;> simp_all [walk]

theorem walk_snoc {ns : List Name} {n : Name} (hwalk : f.walk here ns = .ok place)
    (hdir : f.at? place = some .directory) (hdot : n ≠ ['.']) (hdots : n ≠ ['.', '.'])
    (hlength : Text.byteLength n ≤ maxName) : f.walk here (ns ++ [n]) = .ok (place ++ [n]) := by
  rw [walk_append, hwalk]
  show f.walk place [n] = _
  simp only [walk, hdir, if_neg hdot, if_neg hdots, if_neg (Nat.not_lt.2 hlength)]

theorem ok_of_lift {α : Type} {x : Except Errno α} {a : α} (h : lift x = .ok a) : x = .ok a := by
  cases x with
  | error e => cases h
  | ok b => cases h; rfl

/-! ## Paths -/

theorem find_ok_iff {e : Entry} : f.find p = .ok (place, e) ↔
    usable p = .ok () ∧ f.walk (f.start p) p.names = .ok place ∧ f.at? place = some e ∧
      (p.isSlashed → e = .directory) := by
  constructor
  · intro h
    obtain ⟨⟨⟩, husable, h⟩ := exists_ok_of_bind h
    obtain ⟨place', hwalk, h⟩ := exists_ok_of_bind h
    replace hwalk := ok_of_lift hwalk
    split at h
    · cases h
    · next hat => cases h; exact ⟨husable, hwalk, hat, fun _ => rfl⟩
    · next hat =>
      split at h
      · cases h
      · next hslashed => cases h; exact ⟨husable, hwalk, hat, fun hs => absurd hs hslashed⟩
  · rintro ⟨husable, hwalk, hat, hslashed⟩
    unfold find
    rw [husable, hwalk]
    simp only [lift, bind, Except.bind, hat]
    cases e with
    | directory => rfl
    | file content => exact if_neg fun hs => nomatch hslashed hs

theorem has_iff : f.has p = true ↔ p = nullDevice ∨ ∃ place e, f.find p = .ok (place, e) := by
  unfold has
  cases f.find p with
  | error e => simp
  | ok r => exact iff_of_true rfl (.inr ⟨r.1, r.2, rfl⟩)

theorem has_of_find {e : Entry} (h : f.find p = .ok (place, e)) : f.has p = true := has_iff.2 (.inr ⟨place, e, h⟩)

theorem exists_find_of_has (hnull : p ≠ nullDevice) (h : f.has p = true) : ∃ place e, f.find p = .ok (place, e) :=
  (has_iff.1 h).resolve_left hnull

theorem ne_nullDevice_of_not_has (h : f.has p = false) : p ≠ nullDevice := by
  intro hnull
  rw [has_iff.2 (.inl hnull)] at h
  cases h

/-- A path leads to a place that its last name stands for. -/
def Names (f : Files) (p : Path) (place : Place) : Prop :=
  ∃ here n, f.holder p = .ok (here, some n) ∧ child here n = .ok place

theorem child_ok {n : Name} (h : child here n = .ok place) : Text.byteLength n ≤ maxName ∧ place = here ++ [n] := by
  unfold child at h
  split at h
  · cases h
  · next hlength => cases h; exact ⟨Nat.not_lt.1 hlength, rfl⟩

theorem holder_ok {n : Name} (h : f.holder p = .ok (here, some n)) :
    usable p = .ok () ∧ f.walk (f.start p) p.names.dropLast = .ok here ∧ f.at? here = some .directory ∧
      p.names.dropLast ++ [n] = p.names ∧ n ≠ ['.'] ∧ n ≠ ['.', '.'] := by
  obtain ⟨⟨⟩, husable, h⟩ := exists_ok_of_bind h
  obtain ⟨here', hwalk, h⟩ := exists_ok_of_bind h
  replace hwalk := ok_of_lift hwalk
  split at h
  · cases h
  · cases h
  · next hat =>
    split at h
    · cases h
    · next m hlast =>
      split at h
      · cases h
      · next hdots =>
        cases h
        have hnames : p.names.dropLast ++ [n] = p.names := by
          obtain ⟨front, hfront⟩ := List.getLast?_eq_some_iff.1 hlast
          rw [hfront, List.dropLast_concat]
        exact ⟨husable, hwalk, hat, hnames, fun hn => hdots (.inl hn), fun hn => hdots (.inr hn)⟩

theorem Names.walk (h : f.Names p place) : usable p = .ok () ∧ f.walk (f.start p) p.names = .ok place := by
  obtain ⟨here, n, hholder, hchild⟩ := h
  obtain ⟨husable, hwalk, hdir, hnames, hdot, hdots⟩ := holder_ok hholder
  obtain ⟨hlength, rfl⟩ := child_ok hchild
  refine ⟨husable, ?_⟩
  rw [← hnames]
  exact walk_snoc hwalk hdir hdot hdots hlength

theorem Names.ne_nil (h : f.Names p place) : place ≠ [] := by
  obtain ⟨here, n, -, hchild⟩ := h
  rw [(child_ok hchild).2]
  exact List.append_ne_nil_of_right_ne_nil _ (List.cons_ne_nil _ _)

theorem permit_ok {a : Access} (h : f.permit a place = .ok ()) : f.refusal a place = none := by
  unfold permit at h
  split at h
  · cases h
  · assumption

/-! ## Accesses -/

theorem read_ok {content : ByteArray} (hnull : p ≠ nullDevice) (h : f.read p = .ok content) :
    ∃ place, f.find p = .ok (place, .file content) ∧ f.refusal .read place = none := by
  unfold read at h
  rw [if_neg hnull] at h
  obtain ⟨⟨place, e⟩, hfind, h⟩ := exists_ok_of_bind h
  obtain ⟨⟨⟩, hpermit, h⟩ := exists_ok_of_bind h
  cases e with
  | directory => cases h
  | file content' => cases h; exact ⟨place, hfind, permit_ok hpermit⟩

theorem read_of_find {content : ByteArray} (hnull : p ≠ nullDevice) (hfind : f.find p = .ok (place, .file content))
    (hpermit : f.refusal .read place = none) : f.read p = .ok content := by
  unfold read permit
  rw [if_neg hnull, hfind]
  simp only [bind, Except.bind, hpermit]

/-- The null device is an empty file to a reader. -/
theorem readText_nullDevice (f : Files) : f.readText nullDevice = .ok "" := by
  unfold readText read
  rw [if_pos rfl]
  rfl

theorem readText_of_read {content : ByteArray} {text : String} (hread : f.read p = .ok content)
    (htext : String.fromUTF8? content = some text) : f.readText p = .ok text := by
  unfold readText
  rw [hread]
  simp only [bind, Except.bind, htext]

theorem readText_of_not_text {content : ByteArray} (hread : f.read p = .ok content)
    (htext : String.fromUTF8? content = none) : f.readText p = .error .notText := by
  unfold readText
  rw [hread]
  simp only [bind, Except.bind, htext]

theorem has_of_read {content : ByteArray} (h : f.read p = .ok content) : f.has p = true := by
  by_cases hnull : p = nullDevice
  · exact has_iff.2 (.inl hnull)
  · obtain ⟨place, hfind, -⟩ := read_ok hnull h
    exact has_of_find hfind

theorem opens_ok (h : f.opens p = .ok place) :
    f.Names p place ∧ ¬p.isSlashed ∧ f.at? place ≠ some .directory := by
  obtain ⟨⟨here, name⟩, hholder, h⟩ := exists_ok_of_bind h
  cases name with
  | none => cases h
  | some n =>
    dsimp only at h
    split at h
    · cases h
    · next hslashed =>
      obtain ⟨place', hchild, h⟩ := exists_ok_of_bind h
      split at h
      · cases h
      · next hat =>
        obtain ⟨⟨⟩, -, h⟩ := exists_ok_of_bind h
        cases h
        exact ⟨⟨here, n, hholder, hchild⟩, hslashed, hat⟩

/-- The ways in which writing to a file ends. -/
inductive Written (f : Files) (p : Path) (content : ByteArray) : Files × Except IoError Unit → Prop where
  | dropped (hnull : p = nullDevice) : Written f p content (f, .ok ())
  | closed (e : IoError) (hopens : f.opens p = .error e) : Written f p content (f, .error e)
  /-- The file was opened, and had no room for all of the content. -/
  | cut (place : Place) (n : Nat) (e : Errno) (hopens : f.opens p = .ok place) (hroom : f.room place = some (n, e))
      (hlarge : n < content.size) :
      Written f p content (f.set place (some (.file (content.extract 0 n))), .error (.os e))
  | whole (place : Place) (hopens : f.opens p = .ok place)
      (hroom : ∀ n e, f.room place = some (n, e) → content.size ≤ n) :
      Written f p content (f.set place (some (.file content)), .ok ())

theorem write_ends (f : Files) (p : Path) (content : ByteArray) : Written f p content (f.write p content) := by
  unfold write
  by_cases hnull : p = nullDevice
  · rw [if_pos hnull]
    exact .dropped hnull
  · rw [if_neg hnull]
    cases hopens : f.opens p with
    | error e => exact .closed e hopens
    | ok place =>
      dsimp only
      split
      · next n e hroom =>
        obtain ⟨hroom, hlarge⟩ := Option.filter_eq_some_iff.1 hroom
        exact .cut place n e hopens hroom (of_decide_eq_true hlarge)
      · next hroom =>
        refine .whole place hopens fun n e hfew => Nat.not_lt.1 fun hlarge => ?_
        cases hroom.symm.trans (Option.filter_eq_some_iff.2 ⟨hfew, decide_eq_true hlarge⟩)

theorem write_ok {content : ByteArray} (hnull : p ≠ nullDevice) (h : f.write p content = (g, .ok ())) :
    ∃ place, f.Names p place ∧ ¬p.isSlashed ∧ f.at? place ≠ some .directory ∧
      g = f.set place (some (.file content)) := by
  have hends := write_ends f p content
  rw [h] at hends
  cases hends with
  | dropped hnull' => exact absurd hnull' hnull
  | whole place hopens =>
    obtain ⟨hnames, hslashed, hat⟩ := opens_ok hopens
    exact ⟨place, hnames, hslashed, hat, rfl⟩

theorem room_write (f : Files) (p : Path) (content : ByteArray) : (f.write p content).1.room = f.room := by
  have hends := write_ends f p content
  generalize f.write p content = result at hends
  cases hends <;> rfl

/-- What can be opened can be written, if there is room for everything. -/
theorem exists_write (hopens : (f.opens p).toBool = true) (hroom : ∀ place, f.room place = none)
    (content : ByteArray) : ∃ g, f.write p content = (g, .ok ()) := by
  obtain ⟨place, hplace⟩ := exists_ok_of_toBool hopens
  have hends := write_ends f p content
  generalize f.write p content = result at hends ⊢
  cases hends with
  | dropped => exact ⟨_, rfl⟩
  | closed e herror => cases hplace.symm.trans herror
  | cut place' n e _ hfew => cases (hroom place').symm.trans hfew
  | whole => exact ⟨_, rfl⟩

/-- A path that opens no file for writing is left as it is. -/
theorem write_of_opens_error {e : IoError} (hnull : p ≠ nullDevice) (h : f.opens p = .error e) (content : ByteArray) :
    f.write p content = (f, .error e) := by
  unfold write
  rw [if_neg hnull, h]

theorem makeDirectory_ok (h : f.makeDirectory p = .ok g) :
    ∃ place, f.Names p place ∧ f.at? place = none ∧ g = f.set place (some .directory) := by
  obtain ⟨⟨here, name⟩, hholder, h⟩ := exists_ok_of_bind h
  cases name with
  | none => cases h
  | some n =>
    obtain ⟨place, hchild, h⟩ := exists_ok_of_bind h
    split at h
    · cases h
    · next hat =>
      obtain ⟨⟨⟩, -, h⟩ := exists_ok_of_bind h
      cases h
      exact ⟨place, ⟨here, n, hholder, hchild⟩, hat, rfl⟩

theorem remove_ok (h : f.remove p = .ok g) :
    p ≠ nullDevice ∧ ∃ place content, f.Names p place ∧ f.at? place = some (.file content) ∧ g = f.set place none := by
  unfold remove at h
  split at h
  · cases h
  next hnull =>
  refine ⟨hnull, ?_⟩
  obtain ⟨⟨here, name⟩, hholder, h⟩ := exists_ok_of_bind h
  cases name with
  | none => cases h
  | some n =>
    obtain ⟨place, hchild, h⟩ := exists_ok_of_bind h
    split at h
    · cases h
    · cases h
    · next content hat =>
      split at h
      · cases h
      · obtain ⟨⟨⟩, -, h⟩ := exists_ok_of_bind h
        cases h
        exact ⟨place, content, ⟨here, n, hholder, hchild⟩, hat, rfl⟩

/-- An entry put where no directory stands leaves every way as it is. -/
theorem Names.walk_set (hnames : f.Names p place) (hat : f.at? place ≠ some .directory) (e : Option Entry) :
    (f.set place e).walk (f.start p) p.names = .ok place := by
  refine walk_of_directories ?_ hnames.walk.2
  intro q hq
  rw [at?_set hnames.ne_nil, if_neg (by rintro rfl; exact hat hq)]
  exact hq

/-- **A file that was written is found** with the content it was given. -/
theorem find_write {content : ByteArray} (hnull : p ≠ nullDevice) (h : f.write p content = (g, .ok ())) :
    ∃ place, g.find p = .ok (place, .file content) := by
  obtain ⟨place, hnames, hslashed, hat, rfl⟩ := write_ok hnull h
  exact ⟨place, find_ok_iff.2 ⟨hnames.walk.1, hnames.walk_set hat _, at?_set_self hnames.ne_nil _,
    fun hs => absurd hs hslashed⟩⟩

/-- **A file that was removed is not found.** -/
theorem not_has_remove (h : f.remove p = .ok g) : g.has p = false := by
  obtain ⟨hnull, place, content, hnames, hat, rfl⟩ := remove_ok h
  rw [Bool.eq_false_iff]
  intro hhas
  obtain ⟨q, e, hfind⟩ := exists_find_of_has hnull hhas
  obtain ⟨-, hwalk, hq, -⟩ := find_ok_iff.1 hfind
  have hwalk' := hnames.walk_set (hat ▸ nofun) none
  cases hwalk.symm.trans hwalk'
  rw [at?_set_self hnames.ne_nil] at hq
  cases hq

end Files

end ProbeSuite
