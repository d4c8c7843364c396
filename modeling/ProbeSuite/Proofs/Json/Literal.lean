import ProbeSuite.Proofs.Json.Flaw

/-!
# Numbers as they are written

* `Literal` : a number of the grammar, as it is written;
* `Denotes n t` : the text is the number in plain digits, without leading zeros;
* `denotes_iff` : these are the digits that `Nat.toDigits` gives;
* `RecordText.agree`, `ListText.agree` : two accounts of one text agree on the texts of all parts;
* `RecordText.mono`, `ListText.mono` : a text stays one of weaker parts;
* `Recognizes.decode_iff_of_document` : what is read where the form of a text is known.
-/

namespace ProbeSuite.Json

/-! ## Literals -/

/-- A number as it is written. -/
structure Literal where
  text : List Char
  isNumber : NumberText text

theorem Literal.grammatical (l : Literal) {t : List Char} (h : t = l.text) : Grammatical t := h ▸ .number l.isNumber

/-- The text is zero, or digits that do not start with a zero, and denotes the number. -/
def Denotes (n : Nat) (t : List Char) : Prop :=
  (t = ['0'] ∨ Digits t ∧ t.head? ≠ some '0') ∧ Nat.ofDigitChars 10 t 0 = n

theorem denotes_toDigits (n : Nat) : Denotes n (Nat.toDigits 10 n) := by
  refine ⟨?_, Nat.ofDigitChars_ten_toDigits⟩
  rcases Nat.eq_zero_or_pos n with rfl | hn
  · exact .inl (Nat.toDigits_zero 10)
  · obtain ⟨c, cs, hcs, hc⟩ := head_toDigits_ne_zero hn
    refine .inr ⟨⟨Nat.toDigits_ne_nil, fun _ => isDigit_toDigits⟩, ?_⟩
    rw [hcs, List.head?_cons, Ne, Option.some.injEq]
    exact hc

theorem denotes_iff {n : Nat} {t : List Char} : Denotes n t ↔ t = Nat.toDigits 10 n := by
  constructor
  · rintro ⟨rfl | ⟨⟨hne, hdigits⟩, hhead⟩, rfl⟩
    · rfl
    · obtain ⟨c, cs, rfl⟩ := List.exists_cons_of_ne_nil hne
      obtain ⟨hc, hcs⟩ := List.forall_mem_cons.1 hdigits
      obtain ⟨hchar, hlt⟩ := Number.digitChar_of_isDigit hc
      have hpos : 0 < c.toNat - 48 := by
        refine Nat.pos_of_ne_zero fun h0 => hhead ?_
        rw [List.head?_cons, ← hchar, h0]
        rfl
      have hvalue : Nat.ofDigitChars 10 (c :: cs) 0 = Nat.ofDigitChars 10 cs (c.toNat - 48) := by
        rw [Nat.ofDigitChars_cons, Nat.mul_zero, Nat.zero_add, show '0'.toNat = 48 from rfl]
      rw [hvalue, Number.toDigits_ofDigitChars cs hpos hcs, Nat.toDigits_of_lt_base hlt, hchar, List.singleton_append]
  · rintro rfl
    exact denotes_toDigits n

/-! ## Two accounts of one text -/

theorem Recognizes.unique {α : Type} {read : Reader α} {L : α → List Char → Prop} (h : Recognizes read L) {a b : α}
    {t : List Char} (ha : L a t) (hb : L b t) : a = b := by
  have hread := h.read_append ha Blank.nil Ends.nil
  rw [h.read_append hb Blank.nil Ends.nil] at hread
  exact (Prod.mk.inj (Except.ok.inj hread)).1.symm

theorem forall₂_comp {α β γ : Type} {R : α → γ → Prop} {S : γ → β → Prop} {as : List α} {cs : List γ} {bs : List β}
    (h : List.Forall₂ R as cs) (h' : List.Forall₂ S cs bs) : List.Forall₂ (fun a b => ∃ c, R a c ∧ S c b) as bs := by
  induction h generalizing bs with
  | nil =>
    cases h'
    exact .nil
  | cons ha _ ih =>
    cases h' with
    | cons hb h' => exact .cons ⟨_, ha, hb⟩ (ih h')

/-- Two records with one text have one text for each of their parts. -/
theorem RecordText.agree {parts parts' : List Part} {t : List Char} (h : RecordText parts t) (h' : RecordText parts' t)
    (hparts : ∀ p ∈ parts, ∀ v, p.2 v → Grammatical v) (hparts' : ∀ p ∈ parts', ∀ v, p.2 v → Grammatical v)
    (hnames : List.Forall₂ (fun p p' => p.1 = p'.1) parts parts') :
    List.Forall₂ (fun p p' => ∃ v, p.2 v ∧ p'.2 v) parts parts' := by
  rcases h.cases_of_grammatical hparts with ⟨ms, ht, hms, honce⟩ | ⟨ts, ht, hts, htexts⟩
  · rcases h'.cases_of_grammatical hparts' with ⟨ms', ht', hms', honce'⟩ | ⟨ts', ht', -, -⟩
    · obtain rfl := ht.unique ht' hms hms'
      clear hparts hparts' h h'
      induction hnames with
      | nil => exact .nil
      | cons hname _ ih =>
        obtain ⟨hp, honce⟩ := List.forall_mem_cons.1 honce
        obtain ⟨hp', honce'⟩ := List.forall_mem_cons.1 honce'
        obtain ⟨before, key, v, after, hms, hkey, hv, -⟩ := hp
        have hmem : (key, v) ∈ ms := hms ▸ List.mem_append_right _ List.mem_cons_self
        exact .cons ⟨v, hv, hp'.text_of_mem hmem (hname ▸ hkey)⟩ (ih honce honce')
    · exact absurd ht ht'.not_objectOf
  · rcases h'.cases_of_grammatical hparts' with ⟨ms', ht', -, -⟩ | ⟨ts', ht', hts', htexts'⟩
    · exact absurd ht' ht.not_objectOf
    · obtain rfl := ht.unique ht' hts hts'
      exact forall₂_comp htexts htexts'.flip

theorem RecordText.mono {parts parts' : List Part} {t : List Char} (h : RecordText parts t)
    (hparts : List.Forall₂ (fun p p' => p.1 = p'.1 ∧ ∀ v, p.2 v → p'.2 v) parts parts') : RecordText parts' t := by
  cases h with
  | members ht hms honce =>
    refine .members ht hms fun p' hp' => ?_
    obtain ⟨p, hp, hname, hv⟩ := exists_left_of_forall₂ hparts hp'
    obtain ⟨before, key, v, after, hsplit, hkey, htext, hothers⟩ := honce p hp
    exact ⟨before, key, v, after, hsplit, hname ▸ hkey, hv v htext, hname ▸ hothers⟩
  | elements ht hts =>
    refine .elements ht ((forall₂_comp hparts.flip hts).imp ?_)
    rintro p' x ⟨p, ⟨-, hv⟩, hx⟩
    exact hv x hx

variable {α β : Type} {L : α → List Char → Prop} {L' : β → List Char → Prop}

theorem ListText.grammatical {as : List α} {t : List Char} (hL : ∀ a x, L a x → Grammatical x)
    (h : ListText L as t) : Grammatical t := by
  obtain ⟨ts, ht, hts⟩ := h
  refine .list ht fun x hx => ?_
  obtain ⟨a, -, ha⟩ := exists_left_of_forall₂ hts hx
  exact hL a x ha

/-- Two lists with one text have one text for each of their elements. -/
theorem ListText.agree {as : List α} {bs : List β} {t : List Char} (h : ListText L as t) (h' : ListText L' bs t)
    (hL : ∀ a x, L a x → Grammatical x) (hL' : ∀ b x, L' b x → Grammatical x) :
    List.Forall₂ (fun a b => ∃ x, L a x ∧ L' b x) as bs := by
  obtain ⟨ts, ht, hts⟩ := h
  obtain ⟨ts', ht', hts'⟩ := h'
  have hgrammatical : ∀ x ∈ ts, Grammatical x := by
    intro x hx
    obtain ⟨a, -, ha⟩ := exists_left_of_forall₂ hts hx
    exact hL a x ha
  have hgrammatical' : ∀ x ∈ ts', Grammatical x := by
    intro x hx
    obtain ⟨b, -, hb⟩ := exists_left_of_forall₂ hts' hx
    exact hL' b x hb
  obtain rfl := ht.unique ht' hgrammatical hgrammatical'
  exact forall₂_comp hts hts'.flip

theorem ListText.mono {as : List α} {bs : List β} {t : List Char} (h : ListText L as t)
    (hL : List.Forall₂ (fun a b => ∀ x, L a x → L' b x) as bs) : ListText L' bs t := by
  obtain ⟨ts, ht, hts⟩ := h
  refine ⟨ts, ht, (forall₂_comp hL.flip hts).imp ?_⟩
  rintro b x ⟨a, hab, hx⟩
  exact hab x hx

/-- Where the forms of the elements of a list are known, their values are. -/
theorem ListText.iff_forall₂ {C : α → β → Prop} {as : List α} {bs : List β} {t : List Char} (h : ListText L as t)
    (hL : ∀ a x, L a x → Grammatical x) (hL' : ∀ b x, L' b x → Grammatical x)
    (hC : ∀ a b x, L a x → (L' b x ↔ C a b)) : ListText L' bs t ↔ List.Forall₂ C as bs := by
  constructor
  · intro h'
    refine (h.agree h' hL hL').imp ?_
    rintro a b ⟨x, ha, hb⟩
    exact (hC a b x ha).1 hb
  · exact fun hbs => h.mono (hbs.imp fun a b hab x ha => (hC a b x ha).2 hab)

/-- Where a text has a form that some values have exactly under a condition, it is read as these values. -/
theorem Recognizes.decode_iff_of_document {read : Reader α} (h : Recognizes read L) {P : List Char → Prop}
    {C : α → Prop} (hP : ∀ t, P t → Grammatical t) (hC : ∀ a t, P t → (L a t ↔ C a)) {text : String}
    (htext : Document P text) {a : α} : decode read text = .ok a ↔ C a := by
  rw [h.decode_iff]
  constructor
  · intro ha
    obtain ⟨t, ht, ha⟩ := htext.agree hP (fun _ => h.grammatical) ha
    exact (hC a t ht).1 ha
  · intro ha
    obtain ⟨b, t, b', hb, ht, hb', heq⟩ := htext
    exact ⟨b, t, b', hb, (hC a t ht).2 ha, hb', heq⟩

end ProbeSuite.Json
