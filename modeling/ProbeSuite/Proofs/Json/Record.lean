import Mathlib.Data.List.Nodup
import ProbeSuite.Json.Record
import ProbeSuite.Proofs.Json.Reader

/-!
# What record readers read

* `RecordText parts t` : an object that has every part as a member, once, or the list of the parts;
* `Slot`, `Slots r xs` : the fields of a record as places of a draft;
* `Slots.members_append`, `Slots.membersFrom_ok` : members, in any order;
* `Slots.elements_append`, `Slots.elements_ok` : elements, in the order of the fields;
* `Slots.recognizes` : a record is read if and only if its text is a record text.
-/

namespace ProbeSuite.Json

/-! ## Texts of records -/

/-- A name, and the texts of what goes by it. -/
abbrev Part := String × (List Char → Prop)

/-- None of the members goes by the name. -/
def Absent (name : String) (ms : List Member) : Prop := ∀ m ∈ ms, ¬StringOf m.1 name.toList

/-- One of the members is the part, and no other goes by its name. -/
def Once (p : Part) (ms : List Member) : Prop :=
  ∃ before key v after, ms = before ++ (key, v) :: after ∧ StringOf key p.1.toList ∧ p.2 v ∧
    Absent p.1 (before ++ after)

/-- The text has the parts as the members of an object, in any order and among others of any names, or as the
elements of a list, in their own order. -/
inductive RecordText (parts : List Part) (t : List Char) : Prop where
  | members {ms : List Member} :
      ObjectOf ms t → (∀ m ∈ ms, (∃ s, StringOf m.1 s) ∧ Grammatical m.2) → (∀ p ∈ parts, Once p ms) →
        RecordText parts t
  | elements {ts : List (List Char)} :
      ListOf ts t → List.Forall₂ (fun p x => p.2 x) parts ts → RecordText parts t

theorem Absent.cons {name : String} {m : Member} {ms : List Member} (hm : ¬StringOf m.1 name.toList)
    (h : Absent name ms) : Absent name (m :: ms) :=
  List.forall_mem_cons.2 ⟨hm, h⟩

theorem Once.head {p : Part} {m : Member} {ms : List Member} (hkey : StringOf m.1 p.1.toList) (hv : p.2 m.2)
    (h : Absent p.1 ms) : Once p (m :: ms) :=
  ⟨[], m.1, m.2, ms, rfl, hkey, hv, h⟩

theorem Once.cons {p : Part} {m : Member} {ms : List Member} (hm : ¬StringOf m.1 p.1.toList) (h : Once p ms) :
    Once p (m :: ms) := by
  obtain ⟨before, key, v, after, rfl, hkey, hv, hothers⟩ := h
  exact ⟨m :: before, key, v, after, rfl, hkey, hv, hothers.cons hm⟩

theorem Once.of_key {p : Part} {m : Member} {ms : List Member} (h : Once p (m :: ms))
    (hkey : StringOf m.1 p.1.toList) : p.2 m.2 ∧ Absent p.1 ms := by
  obtain ⟨before, key, v, after, heq, -, hv, hothers⟩ := h
  cases before with
  | nil =>
    cases heq
    exact ⟨hv, hothers⟩
  | cons m' before =>
    cases heq
    exact absurd hkey (hothers m List.mem_cons_self)

theorem Once.of_not_key {p : Part} {m : Member} {ms : List Member} (h : Once p (m :: ms))
    (hkey : ¬StringOf m.1 p.1.toList) : Once p ms := by
  obtain ⟨before, key, v, after, heq, hkey', hv, hothers⟩ := h
  cases before with
  | nil =>
    cases heq
    exact absurd hkey' hkey
  | cons m' before =>
    cases heq
    exact ⟨before, key, v, after, rfl, hkey', hv, fun x hx => hothers x (List.mem_cons_of_mem _ hx)⟩

theorem RecordText.exists_text {parts : List Part} {t : List Char} (h : RecordText parts t) {p : Part}
    (hp : p ∈ parts) : ∃ v, p.2 v := by
  cases h with
  | members _ _ honce =>
    obtain ⟨-, -, v, -, -, -, hv, -⟩ := honce p hp
    exact ⟨v, hv⟩
  | elements _ hts =>
    obtain ⟨v, -, hv⟩ := exists_right_of_forall₂ hts hp
    exact ⟨v, hv⟩

/-- A record text is an object or a list of values of the grammar, in which the parts are found. -/
theorem RecordText.cases_of_grammatical {parts : List Part} (hparts : ∀ p ∈ parts, ∀ v, p.2 v → Grammatical v)
    {t : List Char} (h : RecordText parts t) :
    (∃ ms, ObjectOf ms t ∧ GrammaticalMembers ms ∧ ∀ p ∈ parts, Once p ms) ∨
      ∃ ts, ListOf ts t ∧ (∀ x ∈ ts, Grammatical x) ∧ List.Forall₂ (fun p x => p.2 x) parts ts := by
  cases h with
  | @members ms ht hms honce =>
    exact .inl ⟨ms, ht, fun m hm => ⟨(hms m hm).1.elim fun _ hs => hs.text, (hms m hm).2⟩, honce⟩
  | @elements ts ht hts =>
    refine .inr ⟨ts, ht, fun x hx => ?_, hts⟩
    obtain ⟨p, hp, hx⟩ := exists_left_of_forall₂ hts hx
    exact hparts p hp x hx

theorem RecordText.grammatical {parts : List Part} (hparts : ∀ p ∈ parts, ∀ v, p.2 v → Grammatical v) {t : List Char}
    (h : RecordText parts t) : Grammatical t := by
  rcases h.cases_of_grammatical hparts with ⟨ms, ht, hms, -⟩ | ⟨ts, ht, hts, -⟩
  · exact hms.object ht
  · exact .list ht hts

/-! ## Fields as places of a draft -/

variable {σ α : Type}

/-- A field of the values of type `α`: where a draft has it, where a value has it, and its texts. -/
structure Slot (σ α : Type) where
  {β : Type}
  name : String
  get : σ → Option β
  set : β → σ → σ
  part : α → β
  read : Reader β
  text : β → List Char → Prop

namespace Slot

/-- The field that fills the place in a draft. -/
def field (x : Slot σ α) : Field σ where
  name := x.name
  isSet s := (x.get s).isSome
  read s cs := do
    let (b, rest) ← x.read cs
    .ok (x.set b s, rest)

def toPart (x : Slot σ α) (a : α) : Part := (x.name, x.text (x.part a))

end Slot

/-- The fields of a record are independent places of its drafts. The record is built once they are filled. -/
structure Slots (r : Record σ α) (xs : List (Slot σ α)) : Prop where
  fields : r.fields = xs.map Slot.field
  nodup : (xs.map Slot.name).Nodup
  reads : ∀ x ∈ xs, Recognizes x.read x.text
  draft : ∀ x ∈ xs, x.get r.draft = none
  get_set : ∀ x ∈ xs, ∀ b s, x.get (x.set b s) = some b
  get_set_of_ne : ∀ x ∈ xs, ∀ y ∈ xs, x.name ≠ y.name → ∀ b s, y.get (x.set b s) = y.get s
  build : ∀ s a, r.build s = .ok a ↔ ∀ x ∈ xs, x.get s = some (x.part a)

namespace Slots

variable {r : Record σ α} {xs : List (Slot σ α)}

theorem eq_of_name (h : Slots r xs) {x y : Slot σ α} (hx : x ∈ xs) (hy : y ∈ xs) (hname : x.name = y.name) : x = y :=
  List.inj_on_of_nodup_map h.nodup hx hy hname

/-- A key names one of the fields, or none. -/
theorem find? (h : Slots r xs) (key : List Char) :
    (∃ x ∈ xs, x.name.toList = key ∧ r.fields.find? (·.name.toList = key) = some x.field) ∨
      ((∀ x ∈ xs, x.name.toList ≠ key) ∧ r.fields.find? (·.name.toList = key) = none) := by
  rw [h.fields]
  cases hfind : (xs.map Slot.field).find? (·.name.toList = key) with
  | some f =>
    obtain ⟨x, hx, rfl⟩ := List.mem_map.1 (List.mem_of_find?_eq_some hfind)
    have hname := List.find?_some hfind
    exact .inl ⟨x, hx, of_decide_eq_true hname, rfl⟩
  | none =>
    refine .inr ⟨fun x hx hname => ?_, rfl⟩
    exact List.find?_eq_none.1 hfind _ (List.mem_map_of_mem hx) (decide_eq_true hname)

theorem grammatical_parts (h : Slots r xs) (a : α) : ∀ p ∈ xs.map (·.toPart a), ∀ v, p.2 v → Grammatical v := by
  intro p hp v hv
  obtain ⟨x, hx, rfl⟩ := List.mem_map.1 hp
  exact (h.reads x hx).grammatical hv

/-! ## Members -/

/-- The draft and the members make up the field of the value together: what one of them lacks the other one has. -/
def Fills (x : Slot σ α) (a : α) (ms : List Member) (s : σ) : Prop :=
  x.get s = some (x.part a) ∧ Absent x.name ms ∨ x.get s = none ∧ Once (x.toPart a) ms

theorem Fills.of_cons {x : Slot σ α} {a : α} {m : Member} {ms : List Member} {s : σ} (h : Fills x a (m :: ms) s)
    (hm : ¬StringOf m.1 x.name.toList) : Fills x a ms s := by
  rcases h with ⟨hget, habsent⟩ | ⟨hget, honce⟩
  · exact .inl ⟨hget, (List.forall_mem_cons.1 habsent).2⟩
  · exact .inr ⟨hget, honce.of_not_key hm⟩

/-- A member takes its part of the value into the draft. -/
theorem member_append (h : Slots r xs) {a : α} {m : Member} {ms : List Member} {s : σ}
    (hfills : ∀ x ∈ xs, Fills x a (m :: ms) s) {key : List Char} (hkey : StringOf m.1 key) (hv : Grammatical m.2) :
    ∃ s', (∀ x ∈ xs, Fills x a ms s') ∧ ∀ {b b' rest : List Char}, Blank b → Blank b' → Ends rest →
      Record.member r s key (b ++ ':' :: (b' ++ (m.2 ++ rest))) = .ok (s', rest) := by
  rcases h.find? key with ⟨x, hx, hname, hfind⟩ | ⟨hnames, hfind⟩
  · have hxkey : StringOf m.1 x.name.toList := hname.symm ▸ hkey
    rcases hfills x hx with ⟨-, habsent⟩ | ⟨hget, honce⟩
    · exact absurd hxkey (habsent m List.mem_cons_self)
    · obtain ⟨htext, habsent⟩ := honce.of_key hxkey
      refine ⟨x.set (x.part a) s, fun y hy => ?_, fun hb hb' hrest => ?_⟩
      · by_cases hxy : x.name = y.name
        · obtain rfl := h.eq_of_name hx hy hxy
          exact .inl ⟨h.get_set x hx _ _, habsent⟩
        · have hykey : ¬StringOf m.1 y.name.toList := fun hykey =>
            hxy (String.toList_inj.1 (hxkey.unique hykey))
          have hfilled := (hfills y hy).of_cons hykey
          unfold Fills at hfilled ⊢
          rwa [h.get_set_of_ne x hx y hy hxy]
      · have hread := (h.reads x hx).read_append htext hb' hrest
        unfold Record.member
        rw [hfind]
        simp only [Slot.field, hget, Option.isSome_none, Bool.false_eq_true, if_false, colon_append hb, hread, bind,
          Except.bind]
  · refine ⟨s, fun y hy => (hfills y hy).of_cons fun hykey => hnames y hy (hykey.unique hkey),
      fun hb hb' hrest => ?_⟩
    have hskip := hv.skipValue hb' fun _ => hrest
    unfold Record.member
    rw [hfind]
    simp only [colon_append hb, hskip, bind, Except.bind]

theorem nextKey_lead {first : Bool} {lead : List Char} (h : Lead first lead) (cs : List Char) :
    Record.nextKey first (lead ++ '\x22' :: cs) = .ok (some cs) := by
  unfold Record.nextKey
  cases h with
  | first hb =>
    rw [skipBlank_append hb, skipBlank_cons (by decide)]
    rfl
  | next hb hb' =>
    rw [List.append_assoc, List.cons_append, skipBlank_append hb, skipBlank_cons (by decide)]
    split
    · contradiction
    · next heq => exact absurd (List.cons.inj heq).1 (by decide)
    · next heq =>
      cases heq
      rw [if_neg Bool.false_ne_true, if_pos rfl, skipBlank_append hb', skipBlank_cons (by decide)]
      rfl

theorem nextKey_close {b : List Char} (hb : Blank b) (first : Bool) (rest : List Char) :
    Record.nextKey first (b ++ '\x7d' :: rest) = .ok none := by
  unfold Record.nextKey
  rw [skipBlank_append hb, skipBlank_cons (by decide)]
  rfl

theorem nextKey_some {first : Bool} {cs rest : List Char} (h : Record.nextKey first cs = .ok (some rest)) :
    ∃ lead, Lead first lead ∧ cs = lead ++ '\x22' :: rest := by
  obtain ⟨b, hb, hcs⟩ := exists_blank cs
  unfold Record.nextKey at h
  split at h
  · cases h
  · cases h
  · next c after _ heq =>
    rw [heq] at hcs
    cases first with
    | true =>
      rw [if_pos rfl] at h
      split at h
      · next hc =>
        cases h
        exact ⟨b, .first hb, hc ▸ hcs⟩
      · cases h
    | false =>
      rw [if_neg Bool.false_ne_true] at h
      split at h
      · next hc =>
        obtain ⟨b', hb', hafter⟩ := exists_blank after
        split at h
        · cases h
        · next heq' =>
          cases h
          refine ⟨b ++ ',' :: b', .next hb hb', ?_⟩
          rw [hcs, hc, hafter, heq', List.append_assoc, List.cons_append]
        · cases h
        · cases h
      · cases h

theorem nextKey_none {first : Bool} {cs : List Char} (h : Record.nextKey first cs = .ok none) :
    ∃ b rest, Blank b ∧ cs = b ++ '\x7d' :: rest := by
  obtain ⟨b, hb, hcs⟩ := exists_blank cs
  unfold Record.nextKey at h
  split at h
  · cases h
  · next heq => exact ⟨b, _, hb, by rw [hcs, heq]⟩
  · split at h
    · split at h <;> cases h
    · split at h
      · split at h <;> cases h
      · cases h

theorem endObject_close {b : List Char} (hb : Blank b) (rest : List Char) :
    Record.endObject (b ++ '\x7d' :: rest) = rest := by
  unfold Record.endObject
  rw [skipBlank_append hb, skipBlank_cons (by decide)]
  rfl

/-- All members are read, up to what closes the object. -/
theorem members_append (h : Slots r xs) {a : α} {ms : List Member} {ts : List (List Char)}
    (hts : List.Forall₂ MemberText ms ts) {b : List Char} (hb : Blank b) (rest : List Char) : ∀ {first : Bool}
      {u : List Char} {s : σ}, Items first ts u → (∀ m ∈ ms, (∃ k, StringOf m.1 k) ∧ Grammatical m.2) →
        (∀ x ∈ xs, Fills x a ms s) → ∀ bound : List Char, ts.length < bound.length →
          ∃ s', (∀ x ∈ xs, x.get s' = some (x.part a)) ∧
            Record.membersFrom r bound first s (u ++ (b ++ '\x7d' :: rest)) = .ok (s', b ++ '\x7d' :: rest) := by
  induction hts with
  | nil =>
    intro first u s hu _ hfills bound hbound
    cases hu
    obtain ⟨x, bound, rfl⟩ := List.exists_cons_of_length_pos hbound
    refine ⟨s, fun x hx => ?_, ?_⟩
    · rcases hfills x hx with ⟨hget, -⟩ | ⟨-, before, key, v, after, heq, -⟩
      · exact hget
      · exact absurd (congrArg List.length heq) (by simp)
    · simp only [Record.membersFrom, List.nil_append, nextKey_close hb, bind, Except.bind]
  | @cons m t ms ts hm _ ih =>
    intro first u s hu hms hfills bound hbound
    cases hu with
    | @cons _ lead _ u _ hlead hu =>
      obtain ⟨x, bound, rfl⟩ := List.exists_cons_of_length_pos (Nat.zero_lt_of_lt hbound)
      obtain ⟨⟨⟨key, hkey⟩, hv⟩, hms⟩ := List.forall_mem_cons.1 hms
      obtain ⟨s₁, hfills₁, hmember⟩ := h.member_append hfills hkey hv
      obtain ⟨s', hget, htail⟩ := ih hu hms hfills₁ bound (by simpa using hbound)
      refine ⟨s', hget, ?_⟩
      cases hm with
      | @mk k v b₁ b₂ hb₁ hb₂ =>
        have hread := hmember hb₁ hb₂ (hu.ends (hb.ends_closer (.inr rfl) rest))
        have hbody := hkey.stringBody (b₁ ++ ':' :: (b₂ ++ (v ++ (u ++ (b ++ '\x7d' :: rest)))))
        simp only [List.append_assoc, List.cons_append]
        simp only [Record.membersFrom, nextKey_lead hlead, hbody, hread, htail, bind, Except.bind]

/-! ## Whatever members are read -/

/-- What the members did to one place of the draft: nothing, or one of them filled it. -/
def Gathers (x : Slot σ α) (s : σ) (ms : List Member) (s' : σ) : Prop :=
  x.get s' = x.get s ∧ Absent x.name ms ∨
    x.get s = none ∧ ∃ b, x.get s' = some b ∧ Once (x.name, x.text b) ms

theorem Gathers.cons {x : Slot σ α} {s s' : σ} {m : Member} {ms : List Member} (h : Gathers x s ms s')
    (hm : ¬StringOf m.1 x.name.toList) : Gathers x s (m :: ms) s' := by
  rcases h with ⟨hget, habsent⟩ | ⟨hget, b, hget', honce⟩
  · exact .inl ⟨hget, habsent.cons hm⟩
  · exact .inr ⟨hget, b, hget', honce.cons hm⟩

/-- What a member that was read does to a draft, before the others. -/
theorem member_ok (h : Slots r xs) {s s₁ : σ} {k key cs rest : List Char} (hkey : StringOf key k)
    (hread : Record.member r s k cs = .ok (s₁, rest)) :
    ∃ b b' v, Blank b ∧ Blank b' ∧ Grammatical v ∧ cs = b ++ ':' :: (b' ++ (v ++ rest)) ∧
      ∀ {ms : List Member} {s' : σ}, ∀ x ∈ xs, Gathers x s₁ ms s' → Gathers x s ((key, v) :: ms) s' := by
  unfold Record.member at hread
  rcases h.find? k with ⟨x, hx, hname, hfind⟩ | ⟨hnames, hfind⟩
  · rw [hfind] at hread
    dsimp only at hread
    split at hread
    · cases hread
    · next hset =>
      have hget : x.get s = none := by simpa [Slot.field] using hset
      have hxkey : StringOf key x.name.toList := hname.symm ▸ hkey
      obtain ⟨after, hcolon, hmore⟩ := exists_ok_of_bind hread
      obtain ⟨⟨a, rest'⟩, ha, hdone⟩ := exists_ok_of_bind hmore
      obtain ⟨rfl, rfl⟩ := Prod.mk.inj (Except.ok.inj hdone)
      obtain ⟨b, hb, rfl⟩ := colon_ok hcolon
      obtain ⟨b', v, hb', hv, rfl⟩ := (h.reads x hx).of_read ha
      refine ⟨b, b', v, hb, hb', (h.reads x hx).grammatical hv, rfl, @fun ms s' y hy hgathers => ?_⟩
      by_cases hxy : x.name = y.name
      · obtain rfl := h.eq_of_name hx hy hxy
        have hset' := h.get_set x hx a s
        rcases hgathers with ⟨hget', habsent⟩ | ⟨hnone, -⟩
        · exact .inr ⟨hget, a, hget'.trans hset', .head hxkey hv habsent⟩
        · rw [hset'] at hnone
          cases hnone
      · have hykey : ¬StringOf key y.name.toList := fun hykey => hxy (String.toList_inj.1 (hxkey.unique hykey))
        have hgathers' : Gathers y s ms s' := by
          unfold Gathers at hgathers ⊢
          rwa [h.get_set_of_ne x hx y hy hxy] at hgathers
        exact hgathers'.cons hykey
  · rw [hfind] at hread
    obtain ⟨after, hcolon, hmore⟩ := exists_ok_of_bind hread
    obtain ⟨rest', hskip, hdone⟩ := exists_ok_of_bind hmore
    obtain ⟨rfl, rfl⟩ := Prod.mk.inj (Except.ok.inj hdone)
    obtain ⟨b, hb, rfl⟩ := colon_ok hcolon
    obtain ⟨b', v, hb', hv, rfl⟩ := skipValue_ok hskip
    refine ⟨b, b', v, hb, hb', hv, rfl, fun y hy hgathers => hgathers.cons fun hykey => ?_⟩
    exact hnames y hy (hykey.unique hkey)

theorem membersFrom_ok (h : Slots r xs) : ∀ {bound : List Char} {first : Bool} {s : σ} {cs : List Char} {s' : σ}
    {rest : List Char}, Record.membersFrom r bound first s cs = .ok (s', rest) →
      ∃ ms ts u b rest', List.Forall₂ MemberText ms ts ∧ Items first ts u ∧
        (∀ m ∈ ms, (∃ k, StringOf m.1 k) ∧ Grammatical m.2) ∧ (∀ x ∈ xs, Gathers x s ms s') ∧
          Blank b ∧ cs = u ++ rest ∧ rest = b ++ '\x7d' :: rest'
  | [], _, _, _, _, _, hread => nomatch hread
  | c :: bound, first, s, cs, s', rest, hread => by
    obtain ⟨next, hnext, hmore⟩ := exists_ok_of_bind hread
    cases next with
    | none =>
      cases hmore
      obtain ⟨b, rest', hb, hcs⟩ := nextKey_none hnext
      exact ⟨[], [], [], b, rest', .nil, .nil, List.forall_mem_nil _,
        fun x _ => .inl ⟨rfl, List.forall_mem_nil _⟩, hb, rfl, hcs⟩
    | some after =>
      obtain ⟨⟨k, cs₁⟩, hbody, hmore₁⟩ := exists_ok_of_bind hmore
      obtain ⟨⟨s₁, cs₂⟩, hmember, hmore₂⟩ := exists_ok_of_bind hmore₁
      obtain ⟨lead, hlead, rfl⟩ := nextKey_some hnext
      obtain ⟨key, hkey, rfl⟩ := stringBody_ok hbody
      obtain ⟨b₁, b₂, v, hb₁, hb₂, hv, rfl, hgathers⟩ := h.member_ok hkey hmember
      have hothers : Record.membersFrom r bound false s₁ cs₂ = .ok (s', rest) := hmore₂
      obtain ⟨ms, ts, u, b, rest', hts, hu, hms, hgathered, hb, rfl, hrest⟩ := h.membersFrom_ok hothers
      refine ⟨(key, v) :: ms, _, _, b, rest', .cons (.mk hb₁ hb₂) hts, .cons hlead hu,
        List.forall_mem_cons.2 ⟨⟨⟨k, hkey⟩, hv⟩, hms⟩, fun x hx => hgathers x hx (hgathered x hx), hb, ?_, hrest⟩
      simp only [List.append_assoc, List.cons_append]

/-! ## Elements -/

/-- Elements for the last of the fields fill what the draft does not have yet. -/
theorem elements_append (h : Slots r xs) {a : α} {ys : List (Slot σ α)} {ts : List (List Char)}
    (hts : List.Forall₂ (fun y t => y.text (y.part a) t) ys ts) {b : List Char} (hb : Blank b) (rest : List Char) :
    ∀ (count : Nat) (s : σ) {u : List Char}, Items (decide (count = 0)) ts u → (∀ y ∈ ys, y ∈ xs) →
      (∀ x ∈ xs, x.get s = some (x.part a) ∨ x ∈ ys) → ∃ s', (∀ x ∈ xs, x.get s' = some (x.part a)) ∧
        Record.elements r (ys.map Slot.field) count s (u ++ (b ++ ']' :: rest)) = .ok (s', b ++ ']' :: rest) := by
  induction hts with
  | nil =>
    intro count s u hu _ hget
    cases hu
    exact ⟨s, fun x hx => (hget x hx).resolve_right List.not_mem_nil, rfl⟩
  | @cons y t ys ts ht _ ih =>
    intro count s u hu hys hget
    obtain ⟨hy, hys⟩ := List.forall_mem_cons.1 hys
    cases hu with
    | @cons _ lead _ u _ hlead hu =>
      have hread := (h.reads y hy).read_append ht Blank.nil (hu.ends (hb.ends_closer (.inl rfl) rest))
      obtain ⟨s', hget', htail⟩ := ih (count + 1) (y.set (y.part a) s) hu hys fun x hx => by
        by_cases hyx : y.name = x.name
        · obtain rfl := h.eq_of_name hy hx hyx
          exact .inl (h.get_set y hy _ _)
        · rw [h.get_set_of_ne y hy x hx hyx]
          rcases hget x hx with hx' | hx'
          · exact .inl hx'
          · rcases List.mem_cons.1 hx' with rfl | hx'
            · exact absurd rfl hyx
            · exact .inr hx'
      refine ⟨s', hget', ?_⟩
      obtain ⟨c, cs, rfl, hc⟩ := ((h.reads y hy).grammatical ht).start
      simp only [List.append_assoc, List.cons_append, List.nil_append] at hread ⊢
      simp only [List.map_cons, Record.elements, nextElement_lead hlead hc, Slot.field, hread, bind, Except.bind]
      exact htail

theorem elements_ok (h : Slots r xs) : ∀ {ys : List (Slot σ α)} {count : Nat} {s : σ} {cs : List Char} {s' : σ}
    {rest : List Char}, Record.elements r (ys.map Slot.field) count s cs = .ok (s', rest) → (∀ y ∈ ys, y ∈ xs) →
      (ys.map Slot.name).Nodup → ∃ ts u, Items (decide (count = 0)) ts u ∧
        List.Forall₂ (fun y t => ∃ b, y.get s' = some b ∧ y.text b t) ys ts ∧
          (∀ x ∈ xs, x.name ∉ ys.map Slot.name → x.get s' = x.get s) ∧ cs = u ++ rest
  | [], _, _, _, _, _, hread, _, _ => by
    cases hread
    exact ⟨[], [], .nil, .nil, fun _ _ _ => rfl, rfl⟩
  | y :: ys, count, s, cs, s', rest, hread, hys, hnodup => by
    obtain ⟨hy, hys⟩ := List.forall_mem_cons.1 hys
    obtain ⟨hname, hnodup⟩ := List.nodup_cons.1 hnodup
    obtain ⟨next, hnext, hmore⟩ := exists_ok_of_bind hread
    cases next with
    | none =>
      obtain ⟨_, -, hdone⟩ := exists_ok_of_bind hmore
      cases hdone
    | some after =>
      obtain ⟨⟨s₁, cs₁⟩, hfield, hmore₁⟩ := exists_ok_of_bind hmore
      obtain ⟨⟨a, cs₁'⟩, ha, hdone⟩ := exists_ok_of_bind hfield
      obtain ⟨rfl, rfl⟩ := Prod.mk.inj (Except.ok.inj hdone)
      obtain ⟨lead, hlead, rfl⟩ := nextElement_some hnext
      obtain ⟨b, t, hb, ht, rfl⟩ := (h.reads y hy).of_read ha
      obtain ⟨ts, u, hu, hts, hothers, rfl⟩ := h.elements_ok hmore₁ hys hnodup
      refine ⟨t :: ts, _, .cons (hlead.append_blank hb) hu, .cons ⟨a, ?_, ht⟩ hts, fun x hx hxname => ?_, ?_⟩
      · rw [hothers y hy hname, h.get_set y hy]
      · have hyx : y.name ≠ x.name := fun heq => hxname (heq ▸ List.mem_cons_self)
        rw [hothers x hx fun hmem => hxname (List.mem_cons_of_mem _ hmem), h.get_set_of_ne y hy x hx hyx]
      · simp only [List.append_assoc]

theorem texts_of_get {a : α} {s : σ} {ys : List (Slot σ α)} {ts : List (List Char)}
    (hget : ∀ y ∈ ys, y.get s = some (y.part a))
    (hts : List.Forall₂ (fun y t => ∃ b, y.get s = some b ∧ y.text b t) ys ts) :
    List.Forall₂ (fun y t => y.text (y.part a) t) ys ts := by
  induction hts with
  | nil => exact .nil
  | cons hy _ ih =>
    obtain ⟨hy', hys⟩ := List.forall_mem_cons.1 hget
    obtain ⟨b, hb, ht⟩ := hy
    rw [hy'] at hb
    cases hb
    exact .cons ht (ih hys)

/-! ## Records -/

theorem complete_ok {s : σ} {cs : List Char} {a : α} {rest : List Char}
    (h : Record.complete r s cs = .ok (a, rest)) : r.build s = .ok a ∧ rest = cs := by
  unfold Record.complete at h
  split at h
  · next hbuild =>
    cases h
    exact ⟨hbuild, rfl⟩
  · cases h

theorem complete_of_get (h : Slots r xs) {a : α} {s : σ} (hget : ∀ x ∈ xs, x.get s = some (x.part a)) (cs : List Char) :
    Record.complete r s cs = .ok (a, cs) := by
  unfold Record.complete
  rw [(h.build s a).2 hget]

theorem read_members (h : Slots r xs) {a : α} {ms : List Member} {t : List Char} (ht : ObjectOf ms t)
    (hms : ∀ m ∈ ms, (∃ k, StringOf m.1 k) ∧ Grammatical m.2) (honce : ∀ p ∈ xs.map (·.toPart a), Once p ms)
    {b : List Char} (hb : Blank b) (rest : List Char) : r.read (b ++ (t ++ rest)) = .ok (a, rest) := by
  obtain ⟨ts, hts, u, b₁, hu, hb₁, rfl⟩ := ht
  have hfills : ∀ x ∈ xs, Fills x a ms r.draft := fun x hx => .inr ⟨h.draft x hx, honce _ (List.mem_map_of_mem hx)⟩
  have hlen := hu.length_le (P := fun t => t ≠ []) (fun _ ht => ht) fun x hx => by
    obtain ⟨m, -, hm⟩ := exists_left_of_forall₂ hts hx
    cases hm
    exact List.cons_ne_nil _ _
  obtain ⟨s, hget, hmembers⟩ := h.members_append hts hb₁ rest hu hms hfills ('\x7b' :: (u ++ (b₁ ++ '\x7d' :: rest)))
    (by simp only [List.length_cons, List.length_append]; omega)
  unfold Record.read
  rw [skipBlank_append hb, List.cons_append, skipBlank_cons (by decide)]
  simp only [List.append_assoc, List.singleton_append, hmembers, endObject_close hb₁, h.complete_of_get hget, bind,
    Except.bind]

theorem read_elements (h : Slots r xs) {a : α} {ts : List (List Char)} {t : List Char} (ht : ListOf ts t)
    (hts : List.Forall₂ (fun y t => y.text (y.part a) t) xs ts) {b : List Char} (hb : Blank b) (rest : List Char) :
    r.read (b ++ (t ++ rest)) = .ok (a, rest) := by
  obtain ⟨u, b₁, hu, hb₁, rfl⟩ := ht
  obtain ⟨s, hget, helements⟩ := h.elements_append hts hb₁ rest 0 r.draft hu (fun _ hy => hy) fun x hx => .inr hx
  unfold Record.read
  rw [skipBlank_append hb, List.cons_append, skipBlank_cons (by decide)]
  simp only [List.append_assoc, List.singleton_append, h.fields, helements, endList_close hb₁, h.complete_of_get hget,
    bind, Except.bind]

/-- The members that filled the places of a value are its parts. -/
theorem once_of_gathers (h : Slots r xs) {a : α} {ms : List Member} {s : σ} (hbuild : r.build s = .ok a)
    (hgathers : ∀ x ∈ xs, Gathers x r.draft ms s) : ∀ p ∈ xs.map (·.toPart a), Once p ms := by
  intro p hp
  obtain ⟨x, hx, rfl⟩ := List.mem_map.1 hp
  have hget := (h.build s a).1 hbuild x hx
  rcases hgathers x hx with ⟨hnone, -⟩ | ⟨-, v, hv, honce⟩
  · rw [hget, h.draft x hx] at hnone
    cases hnone
  · rw [hget] at hv
    cases hv
    exact honce

/-- **The texts of records are read, and no others.** -/
theorem recognizes (h : Slots r xs) : Recognizes r.read fun a t => RecordText (xs.map (·.toPart a)) t where
  grammatical := fun ht => ht.grammatical (h.grammatical_parts _)
  read_append := by
    intro a t ht b rest hb _
    cases ht with
    | members ht hms honce => exact h.read_members ht hms honce hb rest
    | elements ht hts => exact h.read_elements ht (List.forall₂_map_left_iff.1 hts) hb rest
  of_read := by
    intro cs a rest hread
    obtain ⟨b, hb, hcs⟩ := exists_blank cs
    unfold Record.read at hread
    split at hread
    · cases hread
    · next heq =>
      obtain ⟨⟨s, after⟩, hmembers, hdone⟩ := exists_ok_of_bind hread
      obtain ⟨ms, ts, u, b₁, rest', hts, hu, hms, hgathers, hb₁, rfl, rfl⟩ := h.membersFrom_ok hmembers
      obtain ⟨hbuild, hrest⟩ := complete_ok hdone
      rw [endObject_close hb₁] at hrest
      subst hrest
      refine ⟨b, _, hb, .members ⟨ts, hts, u, b₁, hu, hb₁, rfl⟩ hms (h.once_of_gathers hbuild hgathers), ?_⟩
      rw [hcs, heq]
      simp
    · next heq =>
      obtain ⟨⟨s, after⟩, helements, hmore⟩ := exists_ok_of_bind hread
      obtain ⟨rest', hend, hdone⟩ := exists_ok_of_bind hmore
      rw [h.fields] at helements
      obtain ⟨ts, u, hu, hts, -, rfl⟩ := h.elements_ok helements (fun _ hy => hy) h.nodup
      obtain ⟨b₁, hb₁, hafter⟩ := endList_ok hend
      obtain ⟨hbuild, hrest⟩ := complete_ok hdone
      subst hafter
      subst hrest
      have htexts : List.Forall₂ (fun p x => p.2 x) (xs.map (·.toPart a)) ts := by
        rw [List.forall₂_map_left_iff]
        exact texts_of_get ((h.build s a).1 hbuild) hts
      refine ⟨b, _, hb, .elements ⟨u, b₁, hu, hb₁, rfl⟩ htexts, ?_⟩
      rw [hcs, heq]
      simp
    · cases hread

end Slots

end ProbeSuite.Json
