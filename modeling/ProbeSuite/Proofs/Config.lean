import ProbeSuite.Config.File
import ProbeSuite.Proofs.Except
import ProbeSuite.Proofs.Toml.Document

/-!
# Configurations and their texts

* `Config.validate_ok_iff` : the limits that are in range;
* `Config.toml?_eq_none_iff` : the configurations without a text;
* `Config.read_toml` : the text of a configuration is read as it.
-/

namespace ProbeSuite.Config

open Toml (Key Node Span)

variable {c : Config} {text : String}

theorem validate_ok_iff : c.validate = .ok () ↔ 1 ≤ c.historyLimit.toNat ∧ c.historyLimit.toNat ≤ 10000 := by
  have hmax : maxLimit.toNat = 10000 := rfl
  unfold validate
  split
  · next hzero =>
    rw [hzero]
    exact iff_of_false nofun (by simp)
  · next hne =>
    have hpos : c.historyLimit.toNat ≠ 0 := fun h => hne (UInt64.toNat_inj.1 h)
    split
    · next hlarge =>
      rw [UInt64.lt_iff_toNat_lt, hmax] at hlarge
      exact iff_of_false nofun (by omega)
    · next hle =>
      rw [UInt64.lt_iff_toNat_lt, hmax] at hle
      exact iff_of_true rfl (by omega)

theorem toml?_eq_none_iff : c.toml? = none ↔ 2 ^ 63 ≤ c.historyLimit.toNat := by
  unfold toml?
  split
  · exact iff_of_false nofun (by omega)
  · exact iff_of_true rfl (by omega)

/-! ## Reading a text back -/

theorem toList_toml (h : c.toml? = some text) : c.historyLimit.toNat < 2 ^ 63 ∧
    text.toList = "output".toList ++ " = ".toList ++ ('\x22' :: c.output.name.toList ++ '\x22' :: '\n' ::
      ("record_history".toList ++ " = ".toList ++ ((toString c.recordHistory).toList ++ '\n' ::
        ("history_limit".toList ++ " = ".toList ++ (Nat.toDigits 10 c.historyLimit.toNat ++ ['\n']))))) := by
  unfold toml? at h
  split at h
  · next hlt =>
    cases h
    refine ⟨hlt, ?_⟩
    simp only [String.toList_append, List.append_assoc, Nat.toString_eq_ofList_toDigits, String.toList_ofList]
    rfl
  · cases h

theorem value_output (o : Output) (rest : List Char) :
    ∃ span, Toml.value ('\x22' :: o.name.toList ++ '\x22' :: '\n' :: rest) =
      some (.scalar (.string o.name.toList) span, '\n' :: rest) := by
  cases o with
  | text => exact ⟨_, rfl⟩
  | json => exact ⟨_, rfl⟩

theorem value_boolean (b : Bool) (rest : List Char) :
    ∃ span, Toml.value ((toString b).toList ++ '\n' :: rest) = some (.scalar (.boolean b) span, '\n' :: rest) := by
  cases b with
  | false => exact ⟨_, rfl⟩
  | true => exact ⟨_, rfl⟩

theorem skipBlank_boolean (b : Bool) (rest : List Char) :
    Toml.skipBlank ((toString b).toList ++ rest) = (toString b).toList ++ rest := by
  cases b with
  | false => rfl
  | true => rfl

theorem skipBlank_toDigits (n : Nat) (rest : List Char) :
    Toml.skipBlank (Nat.toDigits 10 n ++ rest) = Nat.toDigits 10 n ++ rest := by
  obtain ⟨c, cs, hcs⟩ := List.exists_cons_of_ne_nil (Nat.toDigits_ne_nil (n := n) (b := 10))
  have hc : c.isDigit = true := Json.isDigit_toDigits (hcs ▸ List.mem_cons_self)
  rw [hcs]
  refine Toml.skipBlank_cons ?_ _
  rw [Toml.isBlank, Bool.or_eq_false_iff, decide_eq_false_iff_not, decide_eq_false_iff_not]
  refine ⟨?_, ?_⟩
  · rintro rfl
    cases hc
  · rintro rfl
    cases hc

/-! ### Single entries -/

theorem foldlM_setAt_cons {c' : Config} {k : Key} {v : Node} {es : Toml.Entries} (h : c.set k v = .ok c') :
    List.foldlM setAt c ((k, v) :: es) = List.foldlM setAt c' es := by
  rw [List.foldlM_cons, setAt, h]
  rfl

theorem set_output (c : Config) (o : Output) {k : Key} (hk : k.name = "output".toList) (s : Span) :
    c.set k (.scalar (.string o.name.toList) s) = .ok { c with output := o } := by
  have hnamed : outputOf (.scalar (.string o.name.toList) s) = .ok o := by
    cases o with
    | text => rfl
    | json => rfl
  unfold set
  rw [if_pos hk, hnamed]
  rfl

theorem set_recordHistory (c : Config) (b : Bool) {k : Key} (hk : k.name = "record_history".toList) (s : Span) :
    c.set k (.scalar (.boolean b) s) = .ok { c with recordHistory := b } := by
  have houtput : k.name ≠ "output".toList := by
    rw [hk]
    decide
  unfold set
  rw [if_neg houtput, if_pos hk]
  rfl

theorem set_limit (c : Config) (n : UInt64) {k : Key} (hk : k.name = "history_limit".toList) (s : Span) :
    c.set k (.scalar (.integer n.toNat) s) = .ok { c with historyLimit := n } := by
  have houtput : k.name ≠ "output".toList := by
    rw [hk]
    decide
  have hrecord : k.name ≠ "record_history".toList := by
    rw [hk]
    decide
  have hlimit : limit (.scalar (.integer n.toNat) s) = .ok n := by
    unfold limit
    dsimp only
    rw [if_pos (Int.natCast_nonneg _), Int.toNat_natCast, UInt64.ofNat_toNat]
  unfold set
  rw [if_neg houtput, if_neg hrecord, if_pos hk, hlimit]
  rfl

/-- The text of a configuration is a document of three entries. -/
theorem document_toml (h : c.toml? = some text) : ∃ s₁ s₁' s₂ s₂' s₃ s₃', Toml.document text.toList =
    some [(⟨"output".toList, s₁⟩, .scalar (.string c.output.name.toList) s₁'),
      (⟨"record_history".toList, s₂⟩, .scalar (.boolean c.recordHistory) s₂'),
      (⟨"history_limit".toList, s₃⟩, .scalar (.integer c.historyLimit.toNat) s₃')] := by
  obtain ⟨hlimit, htext⟩ := toList_toml h
  obtain ⟨bound, hbound⟩ : ∃ bound, text.toList = 'o' :: 'u' :: 't' :: bound := ⟨_, htext⟩
  obtain ⟨s₂', hrecord⟩ := value_boolean c.recordHistory
    ("history_limit".toList ++ " = ".toList ++ (Nat.toDigits 10 c.historyLimit.toNat ++ ['\n']))
  obtain ⟨s₁', houtput⟩ := value_output c.output
    ("record_history".toList ++ " = ".toList ++ ((toString c.recordHistory).toList ++ '\n' ::
      ("history_limit".toList ++ " = ".toList ++ (Nat.toDigits 10 c.historyLimit.toNat ++ ['\n']))))
  obtain ⟨s₃, hthird⟩ := Toml.sectionsFrom_line "history_limit".toList (List.all_eq_true.1 (by decide)) (by decide)
    (skipBlank_toDigits c.historyLimit.toNat _) (Toml.value_toDigits hlimit) 'u'
    (show Toml.sectionsFrom ('t' :: bound) [] = some ([], []) from rfl)
  obtain ⟨s₂, hsecond⟩ := Toml.sectionsFrom_line "record_history".toList (List.all_eq_true.1 (by decide)) (by decide)
    (skipBlank_boolean _ _) hrecord 'o' hthird
  obtain ⟨s₁, hfirst⟩ := Toml.sectionsFrom_line "output".toList (List.all_eq_true.1 (by decide)) (by decide)
    rfl houtput ' ' hsecond
  rw [← htext, hbound] at hfirst
  refine ⟨s₁, s₁', s₂, s₂', s₃, ⟨Nat.toDigits 10 c.historyLimit.toNat ++ ['\n'], ['\n']⟩, ?_⟩
  rw [hbound, Toml.document_of_pairs (by decide) hfirst]
  rfl

/-- **The text of a configuration is read as it.** -/
theorem read_toml (h : c.toml? = some text) : read text = .ok c := by
  obtain ⟨s₁, s₁', s₂, s₂', s₃, s₃', hdocument⟩ := document_toml h
  have hentries : ofEntries [(⟨"output".toList, s₁⟩, .scalar (.string c.output.name.toList) s₁'),
      (⟨"record_history".toList, s₂⟩, .scalar (.boolean c.recordHistory) s₂'),
      (⟨"history_limit".toList, s₃⟩, .scalar (.integer c.historyLimit.toNat) s₃')] = .ok c := by
    refine (foldlM_setAt_cons (set_output default c.output rfl s₁')).trans ?_
    refine (foldlM_setAt_cons (set_recordHistory _ c.recordHistory rfl s₂')).trans ?_
    exact foldlM_setAt_cons (set_limit _ c.historyLimit rfl s₃')
  unfold read
  rw [hdocument]
  dsimp only
  rw [hentries]

end ProbeSuite.Config
