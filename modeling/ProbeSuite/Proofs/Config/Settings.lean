import ProbeSuite.Config
import ProbeSuite.Proofs.Except
import ProbeSuite.Proofs.Toml.Meaning

/-!
# What tables say of settings

* `Names`, `outputOf_ok_iff`, `boolean_ok_iff`, `limit_ok_iff` : the values that fit a key;
* `Setting`, `Settings` : what a table says of the three keys, where a key that is not there says nothing;
* `set_ok_iff` : a step reads what one entry says;
* `ofEntries_ok_iff` : the configuration of a table is what it says.
-/

namespace ProbeSuite.Config

open Toml (Node Key Span Entries Meaning)

variable {c c' : Config} {v : Node} {k : Key} {es : Entries}

/-! ## Values -/

/-- A value without content: an array or a table. -/
def Blank (m : Meaning) : Prop := m = .list [] ∨ m = .table fun _ => none

/-- A value that names an output: as a string, or as the only key of a table, without content. -/
inductive Names : Meaning → Output → Prop where
  | string (o : Output) : Names (.scalar (.string o.name.toList)) o
  | key {get? : List Char → Option Meaning} {m : Meaning} (o : Output) :
      get? o.name.toList = some m → Blank m → (∀ name, name ≠ o.name.toList → get? name = none) →
        Names (.table get?) o

theorem ofName?_eq_some_iff {name : List Char} {o : Output} :
    Output.ofName? name = some o ↔ name = o.name.toList := by
  refine ⟨fun h => ?_, ?_⟩
  · have hfound := List.find?_some h
    exact (of_decide_eq_true hfound).symm
  · rintro rfl
    cases o with
    | text => rfl
    | json => rfl

theorem outputNamed_ok_iff {name : List Char} {span : Span} {o : Output} :
    outputNamed name span = .ok o ↔ name = o.name.toList := by
  rw [← ofName?_eq_some_iff]
  unfold outputNamed
  cases Output.ofName? name with
  | none => exact iff_of_false nofun nofun
  | some o' => rw [Except.ok.injEq, Option.some.injEq]

theorem blank_table_iff {es : Entries} : Blank (.table es.meaning) ↔ es = [] := by
  refine ⟨?_, ?_⟩
  · rintro (h | h)
    · cases h
    · cases es with
      | nil => rfl
      | cons e es =>
        have hnone : Entries.meaning (e :: es) e.1.name = none := congrFun (Meaning.table.inj h) e.1.name
        rw [Entries.meaning_eq_none_iff] at hnone
        exact absurd List.mem_cons_self hnone
  · rintro rfl
    exact .inr (congrArg Meaning.table (funext Entries.meaning_nil))

theorem nothing_ok_iff : nothing v = .ok () ↔ Blank v.meaning := by
  cases v with
  | scalar s span => simp [nothing, Blank, Node.meaning]
  | array vs span =>
    cases vs with
    | nil => simp [nothing, Blank, Node.meaning, Toml.meanings]
    | cons v vs => simp [nothing, Blank, Node.meaning, Toml.meanings]
  | table origin es span =>
    rw [Node.meaning, blank_table_iff]
    cases es with
    | nil => simp [nothing]
    | cons e es => simp [nothing]
  | tables ts =>
    cases ts with
    | nil => simp [nothing, Blank, Node.meaning, Toml.tableMeanings]
    | cons t ts => simp [nothing, Blank, Node.meaning, Toml.tableMeanings]

theorem names_table_iff (hes : es.Sound) {o : Output} :
    Names (.table es.meaning) o ↔ ∃ k v, es = [(k, v)] ∧ k.name = o.name.toList ∧ Blank v.meaning := by
  refine ⟨fun h => ?_, ?_⟩
  · cases h with
    | key _ hsome hblank honly =>
      have hname : ∀ e ∈ es, e.1.name = o.name.toList := by
        intro e he
        refine Decidable.byContradiction fun hne => ?_
        exact Entries.meaning_eq_none_iff.1 (honly _ hne) (List.mem_map_of_mem he)
      obtain ⟨e, he, -, rfl⟩ := (Entries.meaning_eq_some_iff hes.nodup).1 hsome
      cases es with
      | nil => exact absurd he List.not_mem_nil
      | cons e₁ es =>
        cases es with
        | nil =>
          rw [List.mem_singleton.1 he] at hblank
          exact ⟨e₁.1, e₁.2, rfl, hname e₁ List.mem_cons_self, hblank⟩
        | cons e₂ es =>
          -- two keys would have the same name
          have hsame : e₁.1.name = e₂.1.name :=
            (hname e₁ List.mem_cons_self).trans (hname e₂ (List.mem_cons_of_mem _ List.mem_cons_self)).symm
          exact absurd (List.mem_cons.2 (.inl hsame)) (List.nodup_cons.1 hes.nodup).1
  · rintro ⟨k, v, rfl, hk, hblank⟩
    refine .key o ?_ hblank fun name hname => ?_
    · rw [Entries.meaning_cons, if_pos hk]
    · rw [Entries.meaning_cons, if_neg fun h => hname (h.symm.trans hk), Entries.meaning_nil]

theorem names_string_iff {s : List Char} {o : Output} : Names (.scalar (.string s)) o ↔ s = o.name.toList := by
  constructor
  · rintro ⟨⟩
    rfl
  · rintro rfl
    exact .string o

/-- The only key of a table, and its value. -/
theorem outputOf_singleton {origin : Toml.Origin} {span : Option Span} {o : Output} :
    outputOf (.table origin [(k, v)] span) = .ok o ↔ k.name = o.name.toList ∧ nothing v = .ok () := by
  show (do let o ← outputNamed k.name k.span; let _ ← nothing v; .ok o) = .ok o ↔ _
  rw [bind_eq_ok_iff, ← outputNamed_ok_iff]
  constructor
  · rintro ⟨o', hnamed, hrest⟩
    obtain ⟨_, hnothing, heq⟩ := exists_ok_of_bind hrest
    cases heq
    exact ⟨hnamed, hnothing⟩
  · rintro ⟨hnamed, hnothing⟩
    refine ⟨o, hnamed, ?_⟩
    rw [hnothing]
    rfl

theorem outputOf_ok_iff (hv : v.Sound) {o : Output} : outputOf v = .ok o ↔ Names v.meaning o := by
  cases v with
  | scalar s span =>
    cases s with
    | string s => exact outputNamed_ok_iff.trans names_string_iff.symm
    | _ => exact iff_of_false nofun nofun
  | array vs span => exact iff_of_false nofun nofun
  | table origin es span =>
    rw [Node.meaning, names_table_iff (Node.sound_table_iff.1 hv)]
    match es with
    | [] => simp [outputOf]
    | [(k, v)] =>
      rw [outputOf_singleton, nothing_ok_iff]
      constructor
      · exact fun h => ⟨k, v, rfl, h⟩
      · rintro ⟨_, _, ⟨⟩, h⟩
        exact h
    | e₁ :: e₂ :: es => simp [outputOf]
  | tables ts => exact iff_of_false nofun nofun

theorem boolean_ok_iff {b : Bool} : boolean v = .ok b ↔ v.meaning = .scalar (.boolean b) := by
  cases v with
  | scalar s span =>
    cases s with
    | boolean b' => simp [boolean, Node.meaning]
    | _ => simp [boolean, Node.meaning]
  | _ => simp [boolean, Node.meaning]

/-- The integers that are read fit a limit if they are not negative. -/
theorem limit_integer {i : Int} (hi : i < 2 ^ 63) {span : Span} {n : UInt64} :
    limit (.scalar (.integer i) span) = .ok n ↔ i = n.toNat := by
  have hn := n.toNat_lt
  unfold limit
  dsimp only
  split
  · have hword : i.toNat < 2 ^ 64 := by omega
    rw [Except.ok.injEq, ← UInt64.toNat_inj, UInt64.toNat_ofNat_of_lt' hword]
    omega
  · have hne : i ≠ n.toNat := by omega
    simp [hne]

theorem limit_ok_iff (hv : v.Sound) {n : UInt64} : limit v = .ok n ↔ v.meaning = .scalar (.integer n.toNat) := by
  cases v with
  | scalar s span =>
    cases s with
    | integer i =>
      obtain ⟨hfits⟩ := hv
      obtain ⟨-, hlt⟩ : -2 ^ 63 ≤ i ∧ i < 2 ^ 63 := hfits
      rw [limit_integer hlt]
      simp [Node.meaning]
    | _ => simp [limit, Node.meaning]
  | _ => simp [limit, Node.meaning]

/-! ## Tables -/

/-- What is said of a setting: nothing, which leaves it as it was, or what its value says. -/
inductive Setting {α : Type} (means : Meaning → α → Prop) (before : α) : Option Meaning → α → Prop where
  | absent : Setting means before none before
  | present {m : Meaning} {a : α} : means m a → Setting means before (some m) a

/-- The configuration `c` is what a table says, where it says nothing `before`. -/
structure Settings (before : Config) (table : List Char → Option Meaning) (c : Config) : Prop where
  output : Setting Names before.output (table "output".toList) c.output
  recordHistory :
    Setting (fun m b => m = .scalar (.boolean b)) before.recordHistory (table "record_history".toList) c.recordHistory
  historyLimit : Setting (fun m (n : UInt64) => m = .scalar (.integer n.toNat)) before.historyLimit
    (table "history_limit".toList) c.historyLimit

namespace Setting

variable {α : Type} {means : Meaning → α → Prop} {before a : α} {m : Meaning}

theorem none_iff : Setting means before none a ↔ a = before := by
  refine ⟨?_, ?_⟩
  · rintro ⟨⟩
    rfl
  · rintro rfl
    exact .absent

theorem some_iff : Setting means before (some m) a ↔ means m a := by
  refine ⟨?_, .present⟩
  rintro (_ | hmeans)
  exact hmeans

/-- The first entry of a table is followed by the others. -/
theorem cons_iff (hk : k.name ∉ es.names) {name : List Char} :
    Setting means before (Entries.meaning ((k, v) :: es) name) a ↔
      ∃ b, Setting means before (Entries.meaning [(k, v)] name) b ∧ Setting means b (es.meaning name) a := by
  rw [Entries.meaning_cons, Entries.meaning_cons, Entries.meaning_nil]
  by_cases hname : k.name = name
  · have hnone : es.meaning name = none := Entries.meaning_eq_none_iff.2 (hname ▸ hk)
    simp only [if_pos hname, hnone, some_iff, none_iff, exists_eq_right']
  · simp only [if_neg hname, none_iff, exists_eq_left]

end Setting

theorem Settings.cons_iff (hk : k.name ∉ es.names) : Settings c (Entries.meaning ((k, v) :: es)) c' ↔
    ∃ next, Settings c (Entries.meaning [(k, v)]) next ∧ Settings next es.meaning c' := by
  refine ⟨fun h => ?_, ?_⟩
  · obtain ⟨o, ho, ho'⟩ := (Setting.cons_iff hk).1 h.output
    obtain ⟨b, hb, hb'⟩ := (Setting.cons_iff hk).1 h.recordHistory
    obtain ⟨n, hn, hn'⟩ := (Setting.cons_iff hk).1 h.historyLimit
    exact ⟨⟨o, b, n⟩, ⟨ho, hb, hn⟩, ho', hb', hn'⟩
  · rintro ⟨next, h, h'⟩
    exact ⟨(Setting.cons_iff hk).2 ⟨next.output, h.output, h'.output⟩,
      (Setting.cons_iff hk).2 ⟨next.recordHistory, h.recordHistory, h'.recordHistory⟩,
      (Setting.cons_iff hk).2 ⟨next.historyLimit, h.historyLimit, h'.historyLimit⟩⟩

theorem Settings.nil_iff : Settings c (Entries.meaning []) c' ↔ c' = c := by
  refine ⟨fun ⟨ho, hb, hn⟩ => ?_, ?_⟩
  · rw [Entries.meaning_nil, Setting.none_iff] at ho hb hn
    cases c
    cases c'
    simp_all
  · rintro rfl
    exact ⟨.absent, .absent, .absent⟩

theorem settings_iff {table : List Char → Option Meaning} : Settings c table c' ↔
    Setting Names c.output (table "output".toList) c'.output ∧
      Setting (fun m b => m = .scalar (.boolean b)) c.recordHistory (table "record_history".toList) c'.recordHistory ∧
      Setting (fun m (n : UInt64) => m = .scalar (.integer n.toNat)) c.historyLimit (table "history_limit".toList)
        c'.historyLimit :=
  ⟨fun h => ⟨h.output, h.recordHistory, h.historyLimit⟩, fun h => ⟨h.1, h.2.1, h.2.2⟩⟩

/-- A step reads what one entry says. -/
theorem set_ok_iff (hv : v.Sound) : c.set k v = .ok c' ↔ Settings c (Entries.meaning [(k, v)]) c' := by
  obtain ⟨o, b, n⟩ := c
  obtain ⟨o', b', n'⟩ := c'
  have hrecord : "record_history".toList ≠ "output".toList := by decide
  have hlimit : "history_limit".toList ≠ "output".toList ∧ "history_limit".toList ≠ "record_history".toList := by decide
  rw [settings_iff, Entries.meaning_cons, Entries.meaning_cons, Entries.meaning_cons]
  simp only [Entries.meaning_nil]
  unfold set
  split
  · next hk =>
    rw [bind_eq_ok_iff, hk, if_neg hrecord.symm, if_neg hlimit.1.symm]
    simp only [outputOf_ok_iff hv, Except.ok.injEq, Config.mk.injEq, Setting.some_iff, Setting.none_iff]
    constructor
    · rintro ⟨_, hnames, rfl, rfl, rfl⟩
      exact ⟨hnames, rfl, rfl⟩
    · rintro ⟨hnames, rfl, rfl⟩
      exact ⟨o', hnames, rfl, rfl, rfl⟩
  · split
    · next hk =>
      rw [bind_eq_ok_iff, hk, if_neg hlimit.2.symm]
      simp only [boolean_ok_iff, Except.ok.injEq, Config.mk.injEq, Setting.some_iff, Setting.none_iff]
      constructor
      · rintro ⟨_, hbool, rfl, rfl, rfl⟩
        exact ⟨rfl, hbool, rfl⟩
      · rintro ⟨rfl, hbool, rfl⟩
        exact ⟨b', hbool, rfl, rfl, rfl⟩
    · split
      · rw [bind_eq_ok_iff]
        simp only [limit_ok_iff hv, Except.ok.injEq, Config.mk.injEq, Setting.some_iff, Setting.none_iff]
        constructor
        · rintro ⟨_, hinteger, rfl, rfl, rfl⟩
          exact ⟨rfl, rfl, hinteger⟩
        · rintro ⟨rfl, rfl, hinteger⟩
          exact ⟨n', hinteger, rfl, rfl, rfl⟩
      · simp only [Except.ok.injEq, Config.mk.injEq, Setting.none_iff, eq_comm]

theorem setAt_ok_iff {e : Key × Node} : setAt c e = .ok c' ↔ c.set e.1 e.2 = .ok c' := by
  unfold setAt
  cases c.set e.1 e.2 with
  | error e => exact iff_of_false nofun nofun
  | ok c => rw [Except.ok.injEq, Except.ok.injEq]

theorem foldlM_setAt_ok_iff (hes : es.Sound) : es.foldlM setAt c = .ok c' ↔ Settings c es.meaning c' := by
  induction es generalizing c with
  | nil =>
    show Except.ok c = .ok c' ↔ _
    rw [Settings.nil_iff, Except.ok.injEq, eq_comm]
  | cons e es ih =>
    obtain ⟨k, v⟩ := e
    obtain ⟨hk, hnodup⟩ := List.nodup_cons.1 hes.nodup
    have hv : v.Sound := hes.values (k, v) List.mem_cons_self
    have hrest : Entries.Sound es := ⟨hnodup, fun e he => hes.values e (List.mem_cons_of_mem _ he)⟩
    rw [List.foldlM_cons, bind_eq_ok_iff, Settings.cons_iff hk]
    simp only [setAt_ok_iff, set_ok_iff hv, ih hrest]

/-- **The configuration of a table is what it says**, where it says nothing the default one. -/
theorem ofEntries_ok_iff (hes : es.Sound) : ofEntries es = .ok c ↔ Settings default es.meaning c :=
  foldlM_setAt_ok_iff hes

theorem Settings.congr {table table' : List Char → Option Meaning}
    (h : ∀ key ∈ ["output", "record_history", "history_limit"], table' key.toList = table key.toList) :
    Settings c table' c' ↔ Settings c table c' := by
  obtain ⟨houtput, hrecord, hlimit⟩ : table' "output".toList = table "output".toList ∧
      table' "record_history".toList = table "record_history".toList ∧
      table' "history_limit".toList = table "history_limit".toList := by simpa using h
  rw [settings_iff, settings_iff, houtput, hrecord, hlimit]

end ProbeSuite.Config
