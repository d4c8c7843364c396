import ProbeSuite.Json.Value
import ProbeSuite.Proofs.Json.Record

/-!
# The two layouts of a value

* `Lays lay` : a layout, which writes the values inside a list or an object one level deeper;
* `Lays.listText`, `Lays.recordText` : what a layout gives to a list of values, and to a record;
* `lays_compact`, `lays_pretty` : the two that are in use.
-/

namespace ProbeSuite.Json

theorem blank_space : Blank [' '] := by
  intro c hc
  rw [List.mem_singleton.1 hc]
  rfl

theorem blank_newline (level : Nat) : Blank (Value.newline level) := by
  intro c hc
  rcases List.mem_cons.1 hc with rfl | hc
  · rfl
  · rw [(List.mem_replicate.1 hc).2]
    rfl

/-- The texts that a layout gives to values at a level are texts of these values. -/
structure Lays (lay : Nat → Value → List Char) : Prop where
  number : ∀ level n, lay level (.number n) = Nat.toDigits 10 n
  string : ∀ level s, lay level (.string s) = quote s.toList
  array : ∀ level vs, ListOf (vs.map (lay (level + 1))) (lay level (.array vs))
  object : ∀ level ms,
    ObjectOf (ms.map fun m => (m.1.toList.flatMap escape, lay (level + 1) m.2)) (lay level (.object ms))

theorem Lays.quoted {lay : Nat → Value → List Char} (hlay : Lays lay) (level : Nat) (s : String) :
    Quoted s.toList (lay level (.string s)) := by
  rw [hlay.string]
  exact quoted_quote _

theorem Lays.listText {lay : Nat → Value → List Char} (hlay : Lays lay) {α β : Type} {L : β → List Char → Prop}
    {value : α → Value} {f : α → β} {level : Nat} {as : List α} (has : ∀ a ∈ as, L (f a) (lay (level + 1) (value a))) :
    ListText L (as.map f) (lay level (.array (as.map value))) := by
  refine ⟨_, hlay.array level _, ?_⟩
  rw [List.map_map, List.forall₂_map_left_iff, List.forall₂_map_right_iff, List.forall₂_same]
  exact has

/-- The member of a field is the only one of its name. -/
theorem once_of_forall₂ {lay : Value → List Char} {parts : List Part} {ms : List (String × Value)}
    (hparts : List.Forall₂ (fun p m => p.1 = m.1 ∧ p.2 (lay m.2)) parts ms) (hnodup : (ms.map Prod.fst).Nodup) :
    ∀ p ∈ parts, Once p (ms.map fun m => (m.1.toList.flatMap escape, lay m.2)) := by
  have hkey : ∀ k k' : String, StringOf (k.toList.flatMap escape) k'.toList → k = k' :=
    fun k k' h => String.toList_inj.1 ((stringOf_quoted k.toList).unique h)
  induction hparts with
  | nil => exact List.forall_mem_nil _
  | @cons p m parts ms hm hms ih =>
    obtain ⟨hname, htext⟩ := hm
    obtain ⟨hm, hnodup⟩ := List.nodup_cons.1 hnodup
    intro p' hp'
    rcases List.mem_cons.1 hp' with rfl | hp'
    · refine .head (hname ▸ stringOf_quoted m.1.toList) htext ?_
      intro x hx hxkey
      obtain ⟨m', hm', rfl⟩ := List.mem_map.1 hx
      have heq := hkey _ _ hxkey
      exact hm (by rw [← hname, ← heq]; exact List.mem_map_of_mem hm')
    · refine (ih hnodup p' hp').cons fun hpkey => ?_
      obtain ⟨m', hm', hname', -⟩ := exists_right_of_forall₂ hms hp'
      have heq := hkey _ _ hpkey
      exact hm (by rw [heq, hname']; exact List.mem_map_of_mem hm')

/-- An object with a value for every part, in the order of the parts. -/
theorem Lays.recordText {lay : Nat → Value → List Char} (hlay : Lays lay) {parts : List Part} {level : Nat}
    {ms : List (String × Value)}
    (hparts : List.Forall₂ (fun p m => p.1 = m.1 ∧ p.2 (lay (level + 1) m.2)) parts ms)
    (hnodup : (ms.map Prod.fst).Nodup) (hgrammatical : ∀ p ∈ parts, ∀ v, p.2 v → Grammatical v) :
    RecordText parts (lay level (.object ms)) := by
  refine .members (hlay.object level ms) ?_ (once_of_forall₂ hparts hnodup)
  intro x hx
  obtain ⟨m, hm, rfl⟩ := List.mem_map.1 hx
  obtain ⟨p, hp, -, htext⟩ := exists_left_of_forall₂ hparts hm
  exact ⟨⟨_, stringOf_quoted m.1.toList⟩, hgrammatical p hp _ htext⟩

/-- Items that may stand at the front may also stand behind another one and a comma. -/
theorem Items.next {ts : List (List Char)} {u : List Char} (h : Items true ts u) (hne : ts ≠ []) :
    Items false ts (',' :: u) := by
  cases h with
  | nil => exact absurd rfl hne
  | cons hlead hu =>
    cases hlead with
    | first hb => exact .cons (.next Blank.nil hb) hu

/-- A key, blanks and a value are a member. -/
theorem memberText_keyText (key : String) {b : List Char} (hb : Blank b) (t : List Char) :
    MemberText (key.toList.flatMap escape, t) (Value.keyText key ++ (b ++ t)) := by
  have hmember := MemberText.mk (k := key.toList.flatMap escape) (v := t) Blank.nil hb
  simpa [Value.keyText, quote] using hmember

/-! ## The compact layout -/

theorem items_compactElements : ∀ vs : List Value, Items true (vs.map Value.compact) (Value.compactElements vs)
  | [] => .nil
  | [v] => by
    have hitems : Items true [v.compact] ([] ++ (v.compact ++ [])) := .cons (.first Blank.nil) .nil
    rwa [List.nil_append, List.append_nil] at hitems
  | v :: w :: vs => .cons (.first Blank.nil) ((items_compactElements (w :: vs)).next (List.cons_ne_nil _ _))

theorem items_compactMembers : ∀ ms : List (String × Value),
    Items true (ms.map fun m => Value.keyText m.1 ++ m.2.compact) (Value.compactMembers ms)
  | [] => .nil
  | [(k, v)] => by
    have hitems : Items true [Value.keyText k ++ v.compact] ([] ++ (Value.keyText k ++ v.compact ++ [])) :=
      .cons (.first Blank.nil) .nil
    rwa [List.nil_append, List.append_nil] at hitems
  | (k, v) :: m :: ms => by
    have hitems := Items.cons (t := Value.keyText k ++ v.compact) (.first Blank.nil)
      ((items_compactMembers (m :: ms)).next (List.cons_ne_nil _ _))
    rwa [List.nil_append, List.append_assoc] at hitems

theorem lays_compact : Lays fun _ v => v.compact where
  number _ _ := rfl
  string _ _ := rfl
  array _ vs := ⟨_, [], items_compactElements vs, Blank.nil, rfl⟩
  object _ ms := by
    refine ⟨_, ?_, _, [], items_compactMembers ms, Blank.nil, rfl⟩
    rw [List.forall₂_map_left_iff, List.forall₂_map_right_iff, List.forall₂_same]
    exact fun m _ => memberText_keyText m.1 Blank.nil m.2.compact

/-! ## The indented layout -/

theorem items_prettyElements (level : Nat) : ∀ vs : List Value,
    Items true (vs.map (Value.prettyAt level)) (Value.prettyElements level vs)
  | [] => .nil
  | [v] => by
    have hitems : Items true [Value.prettyAt level v] (Value.newline level ++ (Value.prettyAt level v ++ [])) :=
      .cons (.first (blank_newline level)) .nil
    rwa [List.append_nil] at hitems
  | v :: w :: vs =>
    .cons (.first (blank_newline level)) ((items_prettyElements level (w :: vs)).next (List.cons_ne_nil _ _))

theorem items_prettyMembers (level : Nat) : ∀ ms : List (String × Value),
    Items true (ms.map fun m => Value.keyText m.1 ++ ([' '] ++ Value.prettyAt level m.2)) (Value.prettyMembers level ms)
  | [] => .nil
  | [(k, v)] => by
    have hitems : Items true [Value.keyText k ++ ([' '] ++ Value.prettyAt level v)]
        (Value.newline level ++ (Value.keyText k ++ ([' '] ++ Value.prettyAt level v) ++ [])) :=
      .cons (.first (blank_newline level)) .nil
    rwa [List.append_nil] at hitems
  | (k, v) :: m :: ms => by
    have hitems := Items.cons (t := Value.keyText k ++ ([' '] ++ Value.prettyAt level v)) (.first (blank_newline level))
      ((items_prettyMembers level (m :: ms)).next (List.cons_ne_nil _ _))
    rwa [List.append_assoc, List.append_assoc, List.singleton_append, List.cons_append] at hitems

theorem lays_pretty : Lays Value.prettyAt where
  number _ _ := by rw [Value.prettyAt]
  string _ _ := by rw [Value.prettyAt]
  array level vs := by
    cases vs with
    | nil => exact ⟨[], [], .nil, Blank.nil, by rw [Value.prettyAt]; rfl⟩
    | cons v vs =>
      exact ⟨_, _, items_prettyElements (level + 1) (v :: vs), blank_newline level, by rw [Value.prettyAt]⟩
  object level ms := by
    cases ms with
    | nil => exact ⟨[], .nil, [], [], .nil, Blank.nil, by rw [Value.prettyAt]; rfl⟩
    | cons m ms =>
      refine ⟨_, ?_, _, _, items_prettyMembers (level + 1) (m :: ms), blank_newline level, by rw [Value.prettyAt]⟩
      rw [List.forall₂_map_left_iff, List.forall₂_map_right_iff, List.forall₂_same]
      exact fun m _ => memberText_keyText m.1 blank_space _

end ProbeSuite.Json
