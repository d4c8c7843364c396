import ProbeSuite.Proofs.Config
import ProbeSuite.Proofs.Files.Apart
import ProbeSuite.Proofs.Text.Bytes

/-!
# Configuration files

* `Config.OutOfRoom` : the file was opened for a configuration that does not fit in;
* `Config.save_cases` : all that saving can do;
* `Config.Holds` : the file at a path has the text of a configuration, or there is none;
* `Config.Session` : a program that changes, saves and loads configurations at several paths;
* `Config.Session.HasRoom` : there is room for whatever it saves;
* `Config.Session.run_kept` : each path holds what was last saved there;
* `Config.saves_and_loads` : what can be saved is loaded, and what cannot changes no file, short of room;
* `Config.saved_but_not_loaded` : the files for which that is not so.
-/

namespace ProbeSuite

/-- The system refuses no reading of what stands at a path. -/
def Files.Readable (f : Files) (p : Path) : Prop :=
  ∀ place e, f.find p = .ok (place, e) → f.refusal .read place = none

namespace Config

variable {c : Config} {f g : Files} {p : Path}

/-! ## Saving -/

/-- The file was opened, which took away what it held, and had no room for the configuration. The front of its text is
left of it. -/
def OutOfRoom (c : Config) (f : Files) (p : Path) : Prop :=
  ∃ text place n e, c.toml? = some text ∧ (f.makeParent p).1.opens p = .ok place ∧ f.room place = some (n, e) ∧
    n < text.toUTF8.size ∧
    c.save f p =
      ((f.makeParent p).1.set place (some (.file (text.toUTF8.extract 0 n))), .error (.unwritable p (.os e)))

/-- An invalid configuration changes nothing; for a valid one directories are made, and then perhaps the file. -/
theorem save_cases (c : Config) (f : Files) (p : Path) :
    (∃ fault, c.validate = .error fault ∧ c.save f p = (f, .error fault)) ∨
      c.validate = .ok () ∧ ((∃ fault, c.save f p = ((f.makeParent p).1, .error fault)) ∨ c.OutOfRoom f p ∨
        ∃ text g, c.toml? = some text ∧ (f.makeParent p).1.write p text.toUTF8 = (g, .ok ()) ∧
          c.save f p = (g, .ok ())) := by
  have hroom := (Files.makeParent_grows f p).room
  unfold OutOfRoom save
  cases c.validate with
  | error fault => exact .inl ⟨fault, rfl, rfl⟩
  | ok _ =>
    refine .inr ⟨rfl, ?_⟩
    generalize f.makeParent p = made at hroom ⊢
    obtain ⟨made, e | _⟩ := made
    · exact .inl ⟨_, rfl⟩
    · dsimp only at hroom ⊢
      cases c.toml? with
      | none => exact .inl ⟨_, rfl⟩
      | some text =>
        have hends := Files.write_ends made p text.toUTF8
        dsimp only
        generalize hwrite : made.write p text.toUTF8 = result at hends ⊢
        cases hends with
        | dropped => exact .inr (.inr ⟨text, _, rfl, hwrite, rfl⟩)
        | closed e => exact .inl ⟨_, rfl⟩
        | cut place n e hopens hfew hlarge =>
          exact .inr (.inl ⟨text, place, n, e, rfl, hopens, hroom ▸ hfew, hlarge, rfl⟩)
        | whole => exact .inr (.inr ⟨text, _, rfl, hwrite, rfl⟩)

/-- What could not be saved leaves at most directories, unless there was no room for it. -/
theorem save_error_grows {fault : ConfigFault} (herror : (c.save f p).2 = .error fault) (hroom : ¬c.OutOfRoom f p) :
    Files.Grows f (c.save f p).1 fun _ => True := by
  rcases save_cases c f p with ⟨_, -, hsave⟩ | ⟨-, ⟨_, hsave⟩ | hcut | ⟨text, g, -, -, hsave⟩⟩
  · rw [hsave]
    exact .refl f _
  · rw [hsave]
    exact Files.makeParent_grows f p
  · exact absurd hcut hroom
  · rw [hsave] at herror
    cases herror

theorem not_outOfRoom (hp : p.IsDirect) (hroom : f.room (f.target p) = none) : ¬c.OutOfRoom f p := by
  rintro ⟨text, place, n, e, -, hopens, hfew, -⟩
  have hplace := (Files.opens_ok hopens).1.eq_target hp
  rw [Files.target_congr (Files.makeParent_grows f p).current] at hplace
  rw [hplace, hroom] at hfew
  cases hfew

theorem save_confined (hp : p.IsDirect) (c : Config) (f : Files) : Files.Confined p f (c.save f p).1 := by
  have hparent := (Files.makeParent_growsAbove hp f).confined
  rcases save_cases c f p with
    ⟨_, -, hsave⟩ | ⟨-, ⟨_, hsave⟩ | ⟨text, place, n, e, -, hopens, -, -, hsave⟩ | ⟨text, g, -, hwrite, hsave⟩⟩
  · rw [hsave]
    exact .refl p f
  · rw [hsave]
    exact hparent
  · obtain ⟨hnames, -, hat⟩ := Files.opens_ok hopens
    rw [hsave]
    exact hparent.trans (Files.confined_set hp hnames hat _)
  · have hchange := Files.confined_write hp (f.makeParent p).1 text.toUTF8
    rw [hwrite] at hchange
    rw [hsave]
    exact hparent.trans hchange

/-! ## What a path holds -/

/-- The file at a path has the text of a valid configuration; without one, nothing is there. -/
def Holds (p : Path) (f : Files) : Option Config → Prop
  | none => f.has p = false
  | some c => c.validate = .ok () ∧ ∃ text place, c.toml? = some text ∧ f.find p = .ok (place, .file text.toUTF8)

theorem Holds.congr {held : Option Config} (h : Holds p f held)
    (hfind : ∀ place e, g.find p = .ok (place, e) ↔ f.find p = .ok (place, e)) : Holds p g held := by
  cases held with
  | none =>
    show g.has p = false
    rw [← (show f.has p = false from h), Bool.eq_iff_iff, Files.has_iff, Files.has_iff]
    simp only [hfind]
  | some c =>
    obtain ⟨hvalid, text, place, htext, hfound⟩ := h
    exact ⟨hvalid, text, place, htext, (hfind _ _).2 hfound⟩

/-- **What a path holds is loaded from it**, and the default configuration where nothing is. -/
theorem Holds.load {held : Option Config} (h : Holds p f held) (hnull : p ≠ Files.nullDevice) (hread : f.Readable p) :
    Config.load f p = .ok (held.getD default) := by
  unfold Config.load
  cases held with
  | none => exact if_pos (Bool.eq_false_iff.1 h)
  | some c =>
    obtain ⟨hvalid, text, place, htext, hfound⟩ := h
    have hhas : f.has p = true := Files.has_of_find hfound
    have hreadText : f.readText p = .ok text :=
      Files.readText_of_read (Files.read_of_find hnull hfound (hread _ _ hfound)) (toUTF8_fromUTF8? text)
    rw [if_neg (not_not_intro hhas), hreadText]
    dsimp only
    rw [read_toml htext]
    dsimp only
    rw [hvalid]
    rfl

theorem validate_of_save (hok : (c.save f p).2 = .ok ()) : c.validate = .ok () := by
  rcases save_cases c f p with ⟨_, -, hsave⟩ | ⟨hvalid, -⟩
  · rw [hsave] at hok
    cases hok
  · exact hvalid

theorem holds_save (hnull : p ≠ Files.nullDevice) (hok : (c.save f p).2 = .ok ()) :
    Holds p (c.save f p).1 (some c) := by
  have hvalid := validate_of_save hok
  rcases save_cases c f p with
    ⟨_, hinvalid, -⟩ | ⟨-, ⟨_, hsave⟩ | ⟨text, place, n, e, -, -, -, -, hsave⟩ | ⟨text, g, htext, hwrite, hsave⟩⟩
  · cases hvalid.symm.trans hinvalid
  · rw [hsave] at hok
    cases hok
  · rw [hsave] at hok
    cases hok
  · obtain ⟨place, hfind⟩ := Files.find_write hnull hwrite
    rw [hsave]
    exact ⟨hvalid, text, place, htext, hfind⟩

/-- A path at which nothing could be saved holds what it held. -/
theorem Holds.save_error {held : Option Config} (h : Holds p f held) (hp : p.IsDirect) (hf : f.IsTree)
    {fault : ConfigFault} (herror : (c.save f p).2 = .error fault) (hroom : ¬c.OutOfRoom f p) :
    Holds p (c.save f p).1 held := by
  have hgrows := Files.makeParent_growsAbove hp f
  rcases save_cases c f p with ⟨_, -, hsave⟩ | ⟨-, ⟨_, hsave⟩ | hcut | ⟨text, g, -, -, hsave⟩⟩
  · rw [hsave]
    exact h
  · rw [hsave]
    exact h.congr fun _ _ => hgrows.find_iff hp hf
  · exact absurd hcut hroom
  · rw [hsave] at herror
    cases herror

/-! ## Sessions -/

variable {ι : Type}

/-- What a program does with the configuration it has: it changes it by builder calls, saves it, or loads it anew. -/
inductive Call (ι : Type) where
  | build (change : Config → Config)
  | save (i : ι)
  | load (i : ι)

/-- The configuration a program has, the files, and what was last saved at each path. -/
structure Session (ι : Type) where
  config : Config
  files : Files
  saved : ι → Option Config

namespace Session

variable [DecidableEq ι] {paths : ι → Path}

def step (paths : ι → Path) (s : Session ι) : Call ι → Session ι
  | .build change => { s with config := change s.config }
  | .save i =>
    let out := s.config.save s.files (paths i)
    { s with
      files := out.1
      saved := fun j => if j = i ∧ out.2.toBool then some s.config else s.saved j }
  | .load i =>
    match Config.load s.files (paths i) with
    | .ok c => { s with config := c }
    | .error _ => s

def run (paths : ι → Path) (calls : List (Call ι)) (s : Session ι) : Session ι := calls.foldl (step paths) s

/-- No configuration is saved in a file that has no room for it. -/
def HasRoom (paths : ι → Path) : List (Call ι) → Session ι → Prop
  | [], _ => True
  | call :: calls, s =>
    (∀ i, call = .save i → ¬s.config.OutOfRoom s.files (paths i)) ∧ HasRoom paths calls (s.step paths call)

/-- Each path holds what was last saved there. -/
structure Kept (paths : ι → Path) (f : Files) (s : Session ι) : Prop where
  current : s.files.current = f.current
  refusal : s.files.refusal = f.refusal
  isTree : s.files.IsTree
  holds : ∀ i, Holds (paths i) s.files (s.saved i)

/-- Normal paths, none of which is another or goes on below it. -/
structure Apart (paths : ι → Path) : Prop where
  isNormal : ∀ i, (paths i).IsNormal
  ne : ∀ i j, i ≠ j → paths i ≠ paths j
  notAncestor : ∀ i j, ¬(paths i).IsAncestor (paths j)

theorem Kept.save (hpaths : Apart paths) {s : Session ι} (h : Kept paths f s) {i : ι}
    (hroom : ¬s.config.OutOfRoom s.files (paths i)) : Kept paths f (s.step paths (.save i)) := by
  have hdirect := fun j => (hpaths.isNormal j).isDirect
  have hconfined := save_confined (hdirect i) s.config s.files
  refine ⟨hconfined.current.trans h.current, hconfined.refusal.trans h.refusal, hconfined.isTree h.isTree, ?_⟩
  intro j
  show Holds (paths j) (s.config.save s.files (paths i)).1 (if _ then _ else _)
  by_cases hj : j = i
  · subst hj
    cases hresult : (s.config.save s.files (paths j)).2 with
    | error fault =>
      rw [if_neg (by simp [Except.toBool])]
      exact (h.holds j).save_error (hdirect j) h.isTree hresult hroom
    | ok _ =>
      rw [if_pos ⟨rfl, rfl⟩]
      exact holds_save (hpaths.isNormal j).ne_nullDevice hresult
  · rw [if_neg fun hboth => hj hboth.1]
    have hapart := Files.not_isPrefix_target s.files (hpaths.isNormal j) (hpaths.isNormal i) (hpaths.ne j i hj)
      (hpaths.notAncestor j i)
    exact (h.holds j).congr fun _ _ => hconfined.find_iff h.isTree (hdirect j) hapart

theorem Kept.step (hpaths : Apart paths) {s : Session ι} (h : Kept paths f s) {call : Call ι}
    (hroom : ∀ i, call = .save i → ¬s.config.OutOfRoom s.files (paths i)) : Kept paths f (s.step paths call) := by
  cases call with
  | build change => exact ⟨h.current, h.refusal, h.isTree, h.holds⟩
  | save i => exact h.save hpaths (hroom i rfl)
  | load i =>
    unfold Session.step
    dsimp only
    split
    · exact ⟨h.current, h.refusal, h.isTree, h.holds⟩
    · exact h

theorem run_kept (hpaths : Apart paths) (calls : List (Call ι)) {s : Session ι} (h : Kept paths f s)
    (hroom : HasRoom paths calls s) : Kept paths f (run paths calls s) := by
  induction calls generalizing s with
  | nil => exact h
  | cons call calls ih => exact ih (h.step hpaths hroom.1) hroom.2

/-- Files that take every content have room for whatever is saved. -/
theorem hasRoom_of_unlimited (hpaths : Apart paths) (calls : List (Call ι)) {s : Session ι}
    (hunlimited : ∀ place, s.files.room place = none) : HasRoom paths calls s := by
  induction calls generalizing s with
  | nil => exact trivial
  | cons call calls ih =>
    have hdirect := fun i => (hpaths.isNormal i).isDirect
    refine ⟨fun i _ => not_outOfRoom (hdirect i) (hunlimited _), ih ?_⟩
    cases call with
    | build change => exact hunlimited
    | save i =>
      have hconfined := save_confined (hdirect i) s.config s.files
      exact fun place => (congrFun hconfined.room place).trans (hunlimited place)
    | load i =>
      unfold Session.step
      dsimp only
      split <;> exact hunlimited

omit [DecidableEq ι] in
theorem Kept.readable (hpaths : Apart paths) {s : Session ι} (h : Kept paths f s) {i : ι}
    (hread : f.refusal .read (f.target (paths i)) = none) : s.files.Readable (paths i) := by
  intro place e hfind
  have hplace : place = s.files.target (paths i) :=
    Files.walk_direct (hpaths.isNormal i).isDirect (Files.find_ok_iff.1 hfind).2.1
  rw [hplace, Files.target_congr h.current, h.refusal]
  exact hread

end Session

/-- **What can be saved is loaded, and what cannot changes no file.** A configuration has a text unless its limit is
beyond the integers of TOML, and is read back from it. A limit out of range is refused before anything is touched, any
other failure leaves every file unless there was no room in the one that was opened, and a success is loaded whatever
was there before, if that may be read and is a file. So among normal paths that end apart, with nothing there at first,
each one gives what was last saved there, or the default, as long as there is room and reading is not refused. -/
theorem saves_and_loads [DecidableEq ι] :
    (∀ c : Config, (c.toml? = none ↔ 2 ^ 63 ≤ c.historyLimit.toNat) ∧
      ∀ text, c.toml? = some text → read text = .ok c) ∧
    (∀ (c : Config) (f : Files) (p : Path),
      ((c.save f p).2 = .ok () → 1 ≤ c.historyLimit.toNat ∧ c.historyLimit.toNat ≤ 10000) ∧
      (¬(1 ≤ c.historyLimit.toNat ∧ c.historyLimit.toNat ≤ 10000) → ∃ fault, c.save f p = (f, .error fault)) ∧
      (∀ fault, (c.save f p).2 = .error fault →
        (∀ q content, (c.save f p).1.entry q = some (.file content) ↔ f.entry q = some (.file content)) ∨
          c.OutOfRoom f p) ∧
      ((c.save f p).2 = .ok () → p ≠ Files.nullDevice → (c.save f p).1.Readable p →
        load (c.save f p).1 p = .ok c)) ∧
    ∀ (paths : ι → Path) (f : Files) (c : Config), Session.Apart paths → f.IsTree →
      (∀ i, f.has (paths i) = false) → (∀ i, f.refusal .read (f.target (paths i)) = none) →
      ∀ calls : List (Call ι), Session.HasRoom paths calls ⟨c, f, fun _ => none⟩ →
        let s := Session.run paths calls ⟨c, f, fun _ => none⟩
        ∀ i, load s.files (paths i) = .ok ((s.saved i).getD default) := by
  refine ⟨fun c => ⟨toml?_eq_none_iff, fun text => read_toml⟩, fun c f p => ⟨?_, ?_, ?_, ?_⟩, ?_⟩
  · intro hok
    exact validate_ok_iff.1 (validate_of_save hok)
  · intro hrange
    rcases save_cases c f p with ⟨fault, -, hsave⟩ | ⟨hvalid, -⟩
    · exact ⟨fault, hsave⟩
    · exact absurd (validate_ok_iff.1 hvalid) hrange
  · intro fault herror
    by_cases hroom : c.OutOfRoom f p
    · exact .inr hroom
    · exact .inl (save_error_grows herror hroom).file_iff
  · exact fun hok hnull hread => (holds_save hnull hok).load hnull hread
  · intro paths f c hpaths htree hmissing hread calls hroom s i
    have hkept := Session.run_kept hpaths calls (s := ⟨c, f, fun _ => none⟩) ⟨rfl, rfl, htree, hmissing⟩ hroom
    exact (hkept.holds i).load (hpaths.isNormal i).ne_nullDevice (hkept.readable hpaths (hread i))

/-- Two paths, one in a directory to be made; the second configuration for the first path is invalid. -/
theorem saves_and_loads_two_paths :
    let paths : Fin 2 → Path := fun i => if i = 0 then "a.toml".toList else "d/b.toml".toList
    let calls : List (Call (Fin 2)) := [.build fun c => { c with output := .json }, .save 0,
      .build fun c => { c with historyLimit := 7 }, .save 1, .build fun c => { c with historyLimit := 0 }, .save 0]
    let f := Files.fresh []
    let c : Config := ⟨.json, true, 10000⟩
    let s := Session.run paths calls ⟨default, f, fun _ => none⟩
    (∃ text, c.toml? = some text ∧ read text = .ok c) ∧ load (c.save f (paths 1)).1 (paths 1) = .ok c ∧
      (∃ fault, Config.save { c with historyLimit := 0 } f (paths 1) = (f, .error fault)) ∧
      load s.files (paths 0) = .ok ⟨.json, false, 100⟩ ∧ load s.files (paths 1) = .ok ⟨.json, false, 7⟩ := by
  intro paths calls f c s
  have hpaths : Session.Apart paths := ⟨by decide +kernel, by decide +kernel, by decide +kernel⟩
  obtain ⟨htext, hsave, hsession⟩ := saves_and_loads (ι := Fin 2)
  have hloads := hsession paths f default hpaths (Files.isTree_fresh []) (by decide +kernel) (fun _ => rfl) calls
    (Session.hasRoom_of_unlimited hpaths calls fun _ => rfl)
  obtain ⟨-, -, -, hsaved⟩ := hsave c f (paths 1)
  have hinvalid := (hsave { c with historyLimit := 0 } f (paths 1)).2.1
  have hfirst : s.saved 0 = some ⟨.json, false, 100⟩ := by decide +kernel
  have hsecond : s.saved 1 = some ⟨.json, false, 7⟩ := by decide +kernel
  refine ⟨⟨_, rfl, (htext c).2 _ rfl⟩, ?_, ?_, (hloads 0).trans ?_, (hloads 1).trans ?_⟩
  · exact hsaved (by decide +kernel) (by decide) fun _ _ _ => rfl
  · exact hinvalid (by decide)
  · exact congrArg (fun saved => Except.ok (Option.getD saved default)) hfirst
  · exact congrArg (fun saved => Except.ok (Option.getD saved default)) hsecond

/-- Neither a file that may only be written nor the null device gives back what was saved, and a file without room loses
what it held. -/
theorem saved_but_not_loaded :
    let c : Config := ⟨.json, false, 100⟩
    let p := "probebench.toml".toList
    let hidden : Files := { Files.fresh [] with refusal := fun a _ => if a = .read then some .accessDenied else none }
    let full : Files := { Files.fresh [] with room := fun _ => some (0, .noSpace) }.set [p] (some (.file "a".toUTF8))
    ((c.save hidden p).2 = .ok () ∧
      load (c.save hidden p).1 p = .error (.unreadable p (.os .accessDenied))) ∧
    ((c.save (Files.fresh []) Files.nullDevice).2 = .ok () ∧
      load (c.save (Files.fresh []) Files.nullDevice).1 Files.nullDevice = .ok ⟨.text, false, 100⟩) ∧
    (c.save full p).2 = .error (.unwritable p (.os .noSpace)) ∧
      (full.read p).map ByteArray.size = .ok 1 ∧ ((c.save full p).1.read p).map ByteArray.size = .ok 0 := by
  decide +kernel

end Config

end ProbeSuite
