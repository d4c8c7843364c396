import ProbeSuite.Proofs.Json.Record
import ProbeSuite.Proofs.Json.Unambiguous

/-!
# Flawed texts

* `RecordFlaw flaws t` : in the object a field is missing or stands twice, the list has another length than the
  record, or the value of a field is flawed itself;
* `RecordFlaw.not_recordText` : such a text is the text of no record;
* `Document.agree` : what is known of a text in two ways is known of one value;
* `Recognizes.decode_flawed` : a flawed text is not read;
* `Recognizes.decode_goesOn` : nor is a text that goes on after its value.
-/

namespace ProbeSuite.Json

/-- The names are those of the fields, and their texts the flawed ones of the fields' values. -/
inductive RecordFlaw (flaws : List Part) (t : List Char) : Prop where
  | missing {p : Part} {ms : List Member} :
      ObjectOf ms t → GrammaticalMembers ms → p ∈ flaws → Absent p.1 ms → RecordFlaw flaws t
  | twice {p : Part} {m m' : Member} {before between after : List Member} :
      ObjectOf (before ++ m :: (between ++ m' :: after)) t →
        GrammaticalMembers (before ++ m :: (between ++ m' :: after)) → p ∈ flaws →
          StringOf m.1 p.1.toList → StringOf m'.1 p.1.toList → RecordFlaw flaws t
  | member {p : Part} {m : Member} {ms : List Member} :
      ObjectOf ms t → GrammaticalMembers ms → p ∈ flaws → m ∈ ms → StringOf m.1 p.1.toList → p.2 m.2 →
        RecordFlaw flaws t
  | length {ts : List (List Char)} :
      ListOf ts t → (∀ x ∈ ts, Grammatical x) → ts.length ≠ flaws.length → RecordFlaw flaws t
  | element {p : Part} {x : List Char} {ts : List (List Char)} :
      ListOf ts t → (∀ x ∈ ts, Grammatical x) → (p, x) ∈ flaws.zip ts → p.2 x → RecordFlaw flaws t

/-- One of the elements of the list is flawed. -/
def ListFlaw (flawed : List Char → Prop) (t : List Char) : Prop :=
  ∃ ts, ListOf ts t ∧ (∀ x ∈ ts, Grammatical x) ∧ ∃ x ∈ ts, flawed x

theorem RecordFlaw.grammatical {flaws : List Part} {t : List Char} (h : RecordFlaw flaws t) : Grammatical t := by
  cases h with
  | missing ht hms _ _ => exact hms.object ht
  | twice ht hms _ _ _ => exact hms.object ht
  | member ht hms _ _ _ _ => exact hms.object ht
  | length ht hts _ => exact .list ht hts
  | element ht hts _ _ => exact .list ht hts

theorem ListFlaw.grammatical {flawed : List Char → Prop} {t : List Char} (h : ListFlaw flawed t) : Grammatical t := by
  obtain ⟨ts, ht, hts, -⟩ := h
  exact .list ht hts

/-! ## Members that stand once -/

theorem Once.not_absent {p : Part} {ms : List Member} (h : Once p ms) : ¬Absent p.1 ms := by
  obtain ⟨before, key, v, after, rfl, hkey, -, -⟩ := h
  exact fun habsent => habsent (key, v) (List.mem_append_right _ List.mem_cons_self) hkey

theorem Once.text_of_mem {p : Part} {ms : List Member} (h : Once p ms) {m : Member} (hm : m ∈ ms)
    (hkey : StringOf m.1 p.1.toList) : p.2 m.2 := by
  obtain ⟨before, key, v, after, rfl, -, hv, hothers⟩ := h
  rcases List.mem_append.1 hm with hm | hm
  · exact absurd hkey (hothers m (List.mem_append_left _ hm))
  · rcases List.mem_cons.1 hm with rfl | hm
    · exact hv
    · exact absurd hkey (hothers m (List.mem_append_right _ hm))

theorem Once.not_twice {p : Part} {m m' : Member} {between after : List Member} (hkey : StringOf m.1 p.1.toList)
    (hkey' : StringOf m'.1 p.1.toList) : ∀ {before : List Member}, ¬Once p (before ++ m :: (between ++ m' :: after))
  | [], h => (h.of_key hkey).2 m' (List.mem_append_right _ List.mem_cons_self) hkey'
  | m₁ :: before, h => by
    by_cases hm₁ : StringOf m₁.1 p.1.toList
    · exact (h.of_key hm₁).2 m (List.mem_append_right _ List.mem_cons_self) hkey
    · exact Once.not_twice hkey hkey' (h.of_not_key hm₁)

/-! ## Flawed texts are no texts of values -/

theorem zip_text {parts flaws : List Part}
    (hflaws : List.Forall₂ (fun f p => f.1 = p.1 ∧ ∀ v, f.2 v → ¬p.2 v) flaws parts)
    {ts : List (List Char)} (hts : List.Forall₂ (fun p x => p.2 x) parts ts) {f : Part} {x : List Char}
    (hx : (f, x) ∈ flaws.zip ts) : ¬f.2 x := by
  induction hflaws generalizing ts with
  | nil => cases hx
  | cons hf _ ih =>
    cases hts with
    | cons hp hts =>
      rcases List.mem_cons.1 hx with heq | hx
      · obtain ⟨rfl, rfl⟩ := Prod.mk.inj heq
        exact fun hflaw => hf.2 _ hflaw hp
      · exact ih hts hx

/-- **A text with a flaw is the text of no record.** -/
theorem RecordFlaw.not_recordText {flaws parts : List Part} {t : List Char} (h : RecordFlaw flaws t)
    (hparts : ∀ p ∈ parts, ∀ v, p.2 v → Grammatical v)
    (hflaws : List.Forall₂ (fun f p => f.1 = p.1 ∧ ∀ v, f.2 v → ¬p.2 v) flaws parts) : ¬RecordText parts t := by
  intro hrecord
  rcases hrecord.cases_of_grammatical hparts with ⟨ms, ht, hms, honce⟩ | ⟨ts, ht, hts, htexts⟩
  · have hpart : ∀ {f : Part}, f ∈ flaws → ∃ p, f.1 = p.1 ∧ (∀ v, f.2 v → ¬p.2 v) ∧ Once p ms := by
      intro f hf
      obtain ⟨p, hp, hname, hv⟩ := exists_right_of_forall₂ hflaws hf
      exact ⟨p, hname, hv, honce p hp⟩
    cases h with
    | missing ht' hms' hf habsent =>
      obtain rfl := ht.unique ht' hms hms'
      obtain ⟨p, hname, -, hp⟩ := hpart hf
      exact hp.not_absent (hname ▸ habsent)
    | twice ht' hms' hf hkey hkey' =>
      obtain rfl := ht.unique ht' hms hms'
      obtain ⟨p, hname, -, hp⟩ := hpart hf
      rw [hname] at hkey hkey'
      exact Once.not_twice hkey hkey' hp
    | member ht' hms' hf hm hkey hv =>
      obtain rfl := ht.unique ht' hms hms'
      obtain ⟨p, hname, hflaw, hp⟩ := hpart hf
      rw [hname] at hkey
      exact hflaw _ hv (hp.text_of_mem hm hkey)
    | length ht' _ _ => exact ht'.not_objectOf ht
    | element ht' _ _ _ => exact ht'.not_objectOf ht
  · cases h with
    | missing ht' _ _ _ => exact ht.not_objectOf ht'
    | twice ht' _ _ _ _ => exact ht.not_objectOf ht'
    | member ht' _ _ _ _ _ => exact ht.not_objectOf ht'
    | length ht' hts' hlen =>
      obtain rfl := ht.unique ht' hts hts'
      exact hlen (htexts.length_eq.symm.trans hflaws.length_eq.symm)
    | element ht' hts' hx hflaw =>
      obtain rfl := ht.unique ht' hts hts'
      exact zip_text hflaws htexts hx hflaw

theorem ListFlaw.not_listText {α : Type} {L : α → List Char → Prop} {flawed : List Char → Prop}
    (hL : ∀ a t, L a t → Grammatical t) (hflawed : ∀ t, flawed t → ∀ a, ¬L a t) {t : List Char} (h : ListFlaw flawed t)
    (as : List α) : ¬ListText L as t := by
  rintro ⟨ts, ht, hts⟩
  obtain ⟨ts', ht', hts', x, hx, hflaw⟩ := h
  have hgrammatical : ∀ x ∈ ts, Grammatical x := by
    intro y hy
    obtain ⟨a, -, ha⟩ := exists_left_of_forall₂ hts hy
    exact hL a y ha
  obtain rfl := ht.unique ht' hgrammatical hts'
  obtain ⟨a, -, ha⟩ := exists_left_of_forall₂ hts hx
  exact hflawed x hflaw a ha

/-! ## Flawed texts are not read -/

variable {α : Type} {read : Reader α} {L : α → List Char → Prop}

theorem error_of_not_ok {ε : Type} {x : Except ε α} (h : ∀ a, x ≠ .ok a) : ∃ e, x = .error e := by
  cases x with
  | ok a => exact absurd rfl (h a)
  | error e => exact ⟨e, rfl⟩

/-- Two properties of the value that a text holds are those of one value. -/
theorem Document.agree {P Q : List Char → Prop} (hP : ∀ t, P t → Grammatical t) (hQ : ∀ t, Q t → Grammatical t)
    {text : String} (h : Document P text) (h' : Document Q text) : ∃ t, P t ∧ Q t := by
  obtain ⟨b, t, b', hb, ht, hb', htext⟩ := h
  obtain ⟨b₁, t₁, b₁', hb₁, ht₁, hb₁', htext₁⟩ := h'
  have heq := (hP t ht).eq_of_append (hQ t₁ ht₁) hb hb₁ (fun _ => hb'.ends_self) (fun _ => hb₁'.ends_self)
    (htext.symm.trans htext₁)
  exact ⟨t, ht, heq ▸ ht₁⟩

theorem Recognizes.decode_flawed (h : Recognizes read L) {flawed : List Char → Prop}
    (hgrammatical : ∀ t, flawed t → Grammatical t) (hflawed : ∀ t, flawed t → ∀ a, ¬L a t) {text : String}
    (htext : Document flawed text) : ∃ fault, decode read text = .error fault := by
  refine error_of_not_ok fun a hdecode => ?_
  obtain ⟨t, ht, ha⟩ := htext.agree hgrammatical (fun _ => h.grammatical) (h.decode_iff.1 hdecode)
  exact hflawed t ht a ha

/-- More than blanks follows the value that the text begins with. -/
def GoesOn (text : String) : Prop :=
  ∃ b t rest, Blank b ∧ Grammatical t ∧ ¬Blank rest ∧ text.toList = b ++ (t ++ rest)

/-- After a value that is no number, only blanks may follow. -/
theorem Recognizes.decode_goesOn (h : Recognizes read L) (hnumber : ∀ {a t}, L a t → ∀ {c cs}, t = c :: cs →
    c.isDigit = false ∧ c ≠ '-') {text : String} (htext : GoesOn text) : ∃ fault, decode read text = .error fault := by
  refine error_of_not_ok fun a hdecode => ?_
  obtain ⟨b, t, rest, hb, ht, hrest, htext₁⟩ := htext
  obtain ⟨b₁, t₁, b₁', hb₁, ht₁, hb₁', htext⟩ := h.decode_iff.1 hdecode
  rw [htext₁] at htext
  -- Both values begin with the same character, so that neither is a number.
  have hstart : t ++ rest = t₁ ++ b₁' := by
    rw [← ht.skipBlank_append hb, htext, (h.grammatical ht₁).skipBlank_append hb₁]
  obtain ⟨c, cs, rfl, -⟩ := (h.grammatical ht₁).start
  have hc := hnumber ht₁ rfl
  have hends : NumberText t → Ends rest := by
    intro hnumberText
    obtain ⟨d, ds, rfl, hd⟩ := hnumberText.start
    obtain ⟨rfl, -⟩ := List.cons.inj hstart
    rcases hd with hd | rfl
    · rw [hc.1] at hd
      cases hd
    · exact absurd rfl hc.2
  have heq := ht.rest_eq (h.grammatical ht₁) hb hb₁ hends (fun _ => hb₁'.ends_self) htext
  exact hrest (heq ▸ hb₁')

theorem RecordText.not_number {parts : List Part} {t : List Char} (h : RecordText parts t) {c : Char} {cs : List Char}
    (ht : t = c :: cs) : c.isDigit = false ∧ c ≠ '-' := by
  cases h with
  | members hobject _ _ =>
    obtain ⟨ts, -, u, b, -, -, rfl⟩ := hobject
    cases ht
    decide
  | elements hlist _ =>
    obtain ⟨u, b, -, -, rfl⟩ := hlist
    cases ht
    decide

end ProbeSuite.Json
