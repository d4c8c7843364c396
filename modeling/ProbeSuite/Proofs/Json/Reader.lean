import ProbeSuite.Json.Reader
import ProbeSuite.Proofs.Json.Skip

/-!
# What typed readers read

* `Recognizes read L` : the reader takes a text for `a` if and only if `L a` holds of it;
* `recognizes_natural`, `recognizes_string`, `recognizes_timestamp`, `recognizes_variant` : plain values;
* `Recognizes.array` : lists;
* `Document P text`, `Recognizes.decode_iff` : whole texts.
-/

namespace ProbeSuite.Json

/-- The reader takes those texts for the value that `L` has for it, and no others. Blanks may stand before the
text, and after it whatever continues no number. -/
structure Recognizes {α : Type} (read : Reader α) (L : α → List Char → Prop) : Prop where
  grammatical : ∀ {a t}, L a t → Grammatical t
  read_append : ∀ {a t}, L a t → ∀ {b rest}, Blank b → Ends rest → read (b ++ (t ++ rest)) = .ok (a, rest)
  of_read : ∀ {cs a rest}, read cs = .ok (a, rest) → ∃ b t, Blank b ∧ L a t ∧ cs = b ++ (t ++ rest)

variable {α β : Type} {read : Reader α} {L : α → List Char → Prop}

theorem Recognizes.congr (h : Recognizes read L) {L' : α → List Char → Prop} (hL : ∀ a t, L' a t ↔ L a t) :
    Recognizes read L' := by
  have heq : L' = L := funext fun a => funext fun t => propext (hL a t)
  rwa [heq]

/-- A reader that turns what another one reads into something else. -/
theorem Recognizes.map (h : Recognizes read L) {read' : Reader β} {L' : β → List Char → Prop} {f : α → Except Fault β}
    (hread : ∀ cs, read' cs = read cs >>= fun r => f r.1 >>= fun b => .ok (b, r.2))
    (hL : ∀ b t, L' b t ↔ ∃ a, f a = .ok b ∧ L a t) : Recognizes read' L' where
  grammatical := by
    intro b t ht
    obtain ⟨a, -, ha⟩ := (hL b t).1 ht
    exact h.grammatical ha
  read_append := by
    intro b' t ht b rest hb hrest
    obtain ⟨a, hf, ha⟩ := (hL b' t).1 ht
    rw [hread, h.read_append ha hb hrest]
    show (f a >>= fun b => .ok (b, rest)) = _
    rw [hf]
    rfl
  of_read := by
    intro cs b' rest hcs
    rw [hread] at hcs
    obtain ⟨⟨a, rest'⟩, ha, hmore⟩ := exists_ok_of_bind hcs
    obtain ⟨b'', hf, hdone⟩ := exists_ok_of_bind hmore
    obtain ⟨rfl, rfl⟩ := Prod.mk.inj (Except.ok.inj hdone)
    obtain ⟨b, t, hb, ht, hcs⟩ := h.of_read ha
    exact ⟨b, t, hb, (hL _ t).2 ⟨a, hf, ht⟩, hcs⟩

/-! ## Plain values -/

theorem toDigits_cons (n : Nat) : ∃ c cs, Nat.toDigits 10 n = c :: cs ∧ c.isDigit = true := by
  obtain ⟨c, cs, h⟩ := List.exists_cons_of_ne_nil (Nat.toDigits_ne_nil (n := n) (b := 10))
  exact ⟨c, cs, h, isDigit_toDigits (h ▸ List.mem_cons_self)⟩

theorem numberText_toDigits (n : Nat) : NumberText (Nat.toDigits 10 n) := by
  have hdigits : Digits (Nat.toDigits 10 n) := ⟨Nat.toDigits_ne_nil, fun _ => isDigit_toDigits⟩
  have hzero : (Nat.toDigits 10 n).head? = some '0' → Nat.toDigits 10 n = ['0'] := by
    intro hhead
    rcases Nat.eq_zero_or_pos n with rfl | hn
    · exact Nat.toDigits_zero 10
    · obtain ⟨c, cs, hcs, hc⟩ := head_toDigits_ne_zero hn
      rw [hcs] at hhead
      exact absurd (Option.some.inj hhead) hc
  have htext := UnsignedText.mk hdigits hzero .none .none
  rw [List.append_nil, List.append_nil] at htext
  exact .plain htext

theorem ofNumber_ok {bits : Nat} {expected : String} {n : Number} {cs rest : List Char} {m : Nat}
    (h : ofNumber bits expected n cs = .ok (m, rest)) : n = .natural m ∧ m < 2 ^ bits ∧ rest = cs := by
  unfold ofNumber at h
  split at h
  · split at h
    · next hlt =>
      obtain ⟨rfl, rfl⟩ := Prod.mk.inj (Except.ok.inj h)
      exact ⟨rfl, hlt, rfl⟩
    · cases h
  · cases h
  · cases h

/-- A word is written in its digits. -/
theorem recognizes_natural {bits : Nat} (expected : String) (hbits : bits ≤ 64) :
    Recognizes (natural bits expected) fun n t => n < 2 ^ bits ∧ t = Nat.toDigits 10 n where
  grammatical := by
    rintro n t ⟨-, rfl⟩
    exact .number (numberText_toDigits n)
  read_append := by
    rintro n t ⟨hn, rfl⟩ b rest hb hrest
    have hread := Number.read_toDigits false hrest (Nat.lt_of_lt_of_le hn (Nat.pow_le_pow_right (by decide) hbits))
    obtain ⟨c, cs, hcs, hc⟩ := toDigits_cons n
    unfold natural
    rw [skipBlank_append hb]
    rw [hcs, List.cons_append] at hread ⊢
    rw [skipBlank_cons (isBlank_of_isDigit hc)]
    split
    · contradiction
    · next h =>
      cases h
      exact absurd hc (by decide)
    · rw [if_pos (show startsWithDigit (c :: (cs ++ rest)) = true from hc), hread]
      exact if_pos hn
  of_read := by
    intro cs n rest h
    obtain ⟨b, hb, hcs⟩ := exists_blank cs
    unfold natural at h
    split at h
    · cases h
    · obtain ⟨⟨k, after⟩, hread, hof⟩ := exists_ok_of_bind h
      obtain ⟨rfl, -, -⟩ := ofNumber_ok hof
      exact absurd (Number.read_natural hread).1 (by decide)
    · split at h
      · obtain ⟨⟨k, after⟩, hread, hof⟩ := exists_ok_of_bind h
        obtain ⟨rfl, hn, rfl⟩ := ofNumber_ok hof
        obtain ⟨-, htext, -⟩ := Number.read_natural hread
        exact ⟨b, _, hb, ⟨hn, rfl⟩, by rw [hcs, htext]⟩
      · cases h

/-- The text of a string, however its characters are escaped. -/
def Quoted (s t : List Char) : Prop := ∃ k, StringOf k s ∧ t = '\x22' :: (k ++ ['\x22'])

theorem quoted_quote (s : List Char) : Quoted s (quote s) := ⟨_, stringOf_quoted s, rfl⟩

theorem recognizes_characters (expected : String) : Recognizes (characters expected) Quoted where
  grammatical := by
    rintro s t ⟨k, hk, rfl⟩
    exact .string hk.text
  read_append := by
    rintro s t ⟨k, hk, rfl⟩ b rest hb _
    unfold characters
    rw [skipBlank_append hb, List.cons_append, skipBlank_cons (by decide), List.append_assoc]
    exact hk.stringBody rest
  of_read := by
    intro cs s rest h
    obtain ⟨b, hb, hcs⟩ := exists_blank cs
    unfold characters at h
    split at h
    · cases h
    · next heq =>
      obtain ⟨k, hk, rfl⟩ := stringBody_ok h
      exact ⟨b, _, hb, ⟨k, hk, rfl⟩, by rw [hcs, heq]; simp⟩
    · cases h

theorem recognizes_string : Recognizes string fun s t => Quoted s.toList t := by
  refine (recognizes_characters "a string").map (f := fun s => .ok (String.ofList s)) (fun cs => rfl) fun s t => ?_
  constructor
  · exact fun h => ⟨s.toList, by rw [String.ofList_toList], h⟩
  · rintro ⟨s', hs, h⟩
    cases hs
    rwa [String.toList_ofList]

/-- A timestamp is written in any of the forms that are read as it. -/
theorem recognizes_timestamp : Recognizes timestamp fun time t => ∃ s, Timestamp.read s = .ok time ∧ Quoted s t where
  grammatical := by
    rintro time t ⟨s, -, ht⟩
    exact (recognizes_characters "").grammatical ht
  read_append := by
    rintro time t ⟨s, hs, ht⟩ b rest hb hrest
    unfold timestamp
    rw [(recognizes_characters _).read_append ht hb hrest]
    simp only [bind, Except.bind, hs]
  of_read := by
    intro cs time rest h
    obtain ⟨⟨s, after⟩, hread, hmore⟩ := exists_ok_of_bind h
    obtain ⟨b, t, hb, ht, hcs⟩ := (recognizes_characters _).of_read hread
    dsimp only at hmore
    split at hmore
    · next hs =>
      cases hmore
      exact ⟨b, t, hb, ⟨s, hs, ht⟩, hcs⟩
    · cases hmore

/-! ## Names of values -/

/-- The text of a name, bare or as the only key of an object, with the value `null`. -/
def NameText (name t : List Char) : Prop :=
  Quoted name t ∨ ∃ key, StringOf key name ∧ ObjectOf [(key, ['n', 'u', 'l', 'l'])] t

theorem null_append {b : List Char} (hb : Blank b) (rest : List Char) :
    null (b ++ 'n' :: 'u' :: 'l' :: 'l' :: rest) = .ok rest := by
  unfold null
  rw [skipBlank_append hb, skipBlank_cons (by decide)]
  rfl

theorem null_ok {cs rest : List Char} (h : null cs = .ok rest) :
    ∃ b, Blank b ∧ cs = b ++ 'n' :: 'u' :: 'l' :: 'l' :: rest := by
  obtain ⟨b, hb, hcs⟩ := exists_blank cs
  unfold null at h
  split at h
  · cases h
  · next heq =>
    have hrest := word_ok h
    exact ⟨b, hb, by rw [hcs, heq, hrest]; rfl⟩
  · cases h

theorem named_ok {known : List String} {ofName? : String → Option α} {name cs : List Char} {a : α}
    (h : named known ofName? name cs = .ok a) : ofName? (String.ofList name) = some a := by
  unfold named at h
  split at h
  · next heq =>
    cases h
    exact heq
  · cases h

/-- The only member of an object, and the blanks around it. -/
theorem objectOf_singleton {m : Member} {t : List Char} : ObjectOf [m] t ↔
    ∃ b b₁ b₂ b₃, Blank b ∧ Blank b₁ ∧ Blank b₂ ∧ Blank b₃ ∧
      t = '\x7b' :: (b ++ '\x22' :: (m.1 ++ '\x22' :: (b₁ ++ ':' :: (b₂ ++ (m.2 ++ (b₃ ++ ['\x7d'])))))) := by
  constructor
  · rintro ⟨ts, hts, u, b₃, hu, hb₃, rfl⟩
    cases hts with
    | cons hm hts =>
      cases hts
      cases hu with
      | cons hlead hu =>
        cases hu
        cases hlead with
        | first hb =>
          cases hm with
          | mk hb₁ hb₂ => exact ⟨_, _, _, _, hb, hb₁, hb₂, hb₃, by simp⟩
  · rintro ⟨b, b₁, b₂, b₃, hb, hb₁, hb₂, hb₃, rfl⟩
    exact ⟨_, .cons (.mk hb₁ hb₂) .nil, _, b₃, .cons (.first hb) .nil, hb₃, by simp⟩

theorem variant_append {known : List String} {ofName? : String → Option α} {name t : List Char} {a : α}
    (hname : ofName? (String.ofList name) = some a) (ht : NameText name t) {b : List Char} (hb : Blank b)
    (rest : List Char) : variant known ofName? (b ++ (t ++ rest)) = .ok (a, rest) := by
  have hnamed : ∀ cs, named known ofName? name cs = .ok a := by
    intro cs
    unfold named
    rw [hname]
  unfold variant
  rcases ht with ⟨k, hk, rfl⟩ | ⟨key, hkey, ht⟩
  · rw [skipBlank_append hb, List.cons_append, skipBlank_cons (by decide), List.append_assoc]
    simp only [List.singleton_append, hk.stringBody, hnamed, bind, Except.bind]
  · obtain ⟨b, b₁, b₂, b₃, hb, hb₁, hb₂, hb₃, rfl⟩ := objectOf_singleton.1 ht
    rw [skipBlank_append ‹_›, List.cons_append, skipBlank_cons (by decide)]
    simp only [List.append_assoc, List.cons_append, List.nil_append, skipBlank_append hb, skipBlank_append hb₃,
      skipBlank_cons (show isBlank '\x22' = false by decide), skipBlank_cons (show isBlank '\x7d' = false by decide),
      hkey.stringBody, hnamed, colon_append hb₁, null_append hb₂, bind, Except.bind]

theorem variant_ok {known : List String} {ofName? : String → Option α} {cs rest : List Char} {a : α}
    (h : variant known ofName? cs = .ok (a, rest)) :
    ∃ b t name, Blank b ∧ ofName? (String.ofList name) = some a ∧ NameText name t ∧ cs = b ++ (t ++ rest) := by
  obtain ⟨b, hb, hcs⟩ := exists_blank cs
  unfold variant at h
  split at h
  · cases h
  · next heq =>
    obtain ⟨⟨name, after⟩, hbody, hmore⟩ := exists_ok_of_bind h
    obtain ⟨a', hnamed, hdone⟩ := exists_ok_of_bind hmore
    cases hdone
    obtain ⟨k, hk, rfl⟩ := stringBody_ok hbody
    refine ⟨b, _, name, hb, named_ok hnamed, .inl ⟨k, hk, rfl⟩, ?_⟩
    rw [hcs, heq]
    simp
  · next after heq =>
    obtain ⟨b₁, hb₁, hafter⟩ := exists_blank after
    dsimp only at h
    split at h
    · cases h
    · next heq₁ =>
      rw [heq₁] at hafter
      obtain ⟨⟨name, after₁⟩, hkey, hmore⟩ := exists_ok_of_bind h
      obtain ⟨a', hnamed, hmore⟩ := exists_ok_of_bind hmore
      obtain ⟨after₂, hcolon, hmore⟩ := exists_ok_of_bind hmore
      obtain ⟨after₃, hnull, hclose⟩ := exists_ok_of_bind hmore
      obtain ⟨key, hk, rfl⟩ := stringBody_ok hkey
      obtain ⟨b₂, hb₂, rfl⟩ := colon_ok hcolon
      obtain ⟨b₃, hb₃, rfl⟩ := null_ok hnull
      obtain ⟨b₄, hb₄, hafter₃⟩ := exists_blank after₃
      split at hclose
      · cases hclose
      · next heq₃ =>
        cases hclose
        have ht : ObjectOf [(key, ['n', 'u', 'l', 'l'])] _ :=
          objectOf_singleton.2 ⟨b₁, b₂, b₃, b₄, hb₁, hb₂, hb₃, hb₄, rfl⟩
        refine ⟨b, _, name, hb, named_ok hnamed, .inr ⟨key, hk, ht⟩, ?_⟩
        rw [hcs, heq, hafter, hafter₃, heq₃]
        simp
      · cases hclose
    · cases h
    · cases h
  · cases h

theorem recognizes_variant (known : List String) (ofName? : String → Option α) :
    Recognizes (variant known ofName?) fun a t => ∃ name, ofName? (String.ofList name) = some a ∧ NameText name t where
  grammatical := by
    rintro a t ⟨name, -, ht | ⟨key, hkey, ht⟩⟩
    · exact (recognizes_characters "").grammatical ht
    · have hmember : GrammaticalMembers [(key, ['n', 'u', 'l', 'l'])] :=
        List.forall_mem_singleton.2 ⟨hkey.text, .null⟩
      exact hmember.object ht
  read_append := by
    rintro a t ⟨name, hname, ht⟩ b rest hb -
    exact variant_append hname ht hb rest
  of_read := by
    intro cs a rest h
    obtain ⟨b, t, name, hb, hname, ht, hcs⟩ := variant_ok h
    exact ⟨b, t, hb, ⟨name, hname, ht⟩, hcs⟩

/-! ## Lists -/

theorem Lead.append_blank {first : Bool} {lead b : List Char} (h : Lead first lead) (hb : Blank b) :
    Lead first (lead ++ b) := by
  cases h with
  | first hlead => exact .first (hlead.append hb)
  | next hlead hb' =>
    rw [List.append_assoc, List.cons_append]
    exact .next hlead (hb'.append hb)

theorem nextElement_lead {first : Bool} {lead : List Char} (h : Lead first lead) {c : Char} (hc : IsStart c)
    (cs : List Char) : nextElement first (lead ++ c :: cs) = .ok (some (c :: cs)) := by
  unfold nextElement
  cases h with
  | first hb =>
    rw [skipBlank_append hb, skipBlank_cons hc.not_blank]
    split
    · contradiction
    · next heq => exact absurd (List.cons.inj heq).1 hc.ne.1
    · next heq =>
      cases heq
      rfl
  | next hb hb' =>
    rw [List.append_assoc, List.cons_append, skipBlank_append hb, skipBlank_cons (by decide)]
    split
    · contradiction
    · next heq => exact absurd (List.cons.inj heq).1 (by decide)
    · next heq =>
      cases heq
      rw [if_neg Bool.false_ne_true, if_pos rfl, skipBlank_append hb', skipBlank_cons hc.not_blank]
      split
      · contradiction
      · next heq => exact absurd (List.cons.inj heq).1 hc.ne.1
      · rfl

theorem nextElement_close {b : List Char} (hb : Blank b) (first : Bool) (rest : List Char) :
    nextElement first (b ++ ']' :: rest) = .ok none := by
  unfold nextElement
  rw [skipBlank_append hb, skipBlank_cons (by decide)]
  rfl

theorem nextElement_some {first : Bool} {cs rest : List Char} (h : nextElement first cs = .ok (some rest)) :
    ∃ lead, Lead first lead ∧ cs = lead ++ rest := by
  obtain ⟨b, hb, hcs⟩ := exists_blank cs
  unfold nextElement at h
  split at h
  · cases h
  · cases h
  · next c after _ heq =>
    rw [heq] at hcs
    cases first with
    | true =>
      cases h
      exact ⟨b, .first hb, hcs⟩
    | false =>
      rw [if_neg Bool.false_ne_true] at h
      split at h
      · next hc =>
        obtain ⟨b', hb', hafter⟩ := exists_blank after
        split at h
        · cases h
        · cases h
        · cases h
          refine ⟨b ++ ',' :: b', .next hb hb', ?_⟩
          rw [hcs, hc, List.append_assoc, List.cons_append, ← hafter]
      · cases h

theorem endList_close {b : List Char} (hb : Blank b) (rest : List Char) : endList (b ++ ']' :: rest) = .ok rest := by
  unfold endList
  rw [skipBlank_append hb, skipBlank_cons (by decide)]
  rfl

theorem endList_ok {cs rest : List Char} (h : endList cs = .ok rest) : ∃ b, Blank b ∧ cs = b ++ ']' :: rest := by
  obtain ⟨b, hb, hcs⟩ := exists_blank cs
  unfold endList at h
  split at h
  · cases h
  · next heq =>
    cases h
    exact ⟨b, hb, by rw [hcs, heq]⟩
  · split at h <;> cases h
  · cases h

/-- The list of the texts of some values. -/
def ListText (L : α → List Char → Prop) (as : List α) (t : List Char) : Prop :=
  ∃ ts, ListOf ts t ∧ List.Forall₂ L as ts

theorem exists_right_of_forall₂ {R : α → β → Prop} {as : List α} {bs : List β} (h : List.Forall₂ R as bs) {a : α}
    (ha : a ∈ as) : ∃ b ∈ bs, R a b :=
  exists_left_of_forall₂ h.flip ha

theorem Items.length_le {P : List Char → Prop} (hP : ∀ t, P t → t ≠ []) {ts : List (List Char)} : ∀ {first : Bool}
    {u : List Char}, Items first ts u → (∀ t ∈ ts, P t) → ts.length ≤ u.length := by
  induction ts with
  | nil => exact fun _ _ => Nat.zero_le _
  | cons t ts ih =>
    intro first u hu hts
    cases hu with
    | cons _ hu =>
      have hlen := ih hu fun x hx => hts x (List.mem_cons_of_mem _ hx)
      have hpos := List.length_pos_of_ne_nil (hP t (hts t List.mem_cons_self))
      simp only [List.length_cons, List.length_append]
      omega

theorem Recognizes.elementsFrom_append (h : Recognizes read L) {as : List α} {ts : List (List Char)}
    (hts : List.Forall₂ L as ts) {b : List Char} (hb : Blank b) (rest : List Char) : ∀ {first : Bool} {u : List Char},
      Items first ts u → ∀ bound : List Char, ts.length < bound.length →
        elementsFrom read bound first (u ++ (b ++ ']' :: rest)) = .ok (as, b ++ ']' :: rest) := by
  induction hts with
  | nil =>
    intro first u hu bound hbound
    cases hu
    obtain ⟨x, bound, rfl⟩ := List.exists_cons_of_length_pos hbound
    simp only [elementsFrom, List.nil_append, nextElement_close hb, bind, Except.bind]
  | @cons a t as ts ht _ ih =>
    intro first u hu bound hbound
    cases hu with
    | @cons _ lead _ u _ hlead hu =>
      obtain ⟨x, bound, rfl⟩ := List.exists_cons_of_length_pos (Nat.zero_lt_of_lt hbound)
      have hread := h.read_append ht Blank.nil (hu.ends (hb.ends_closer (.inl rfl) rest))
      have htail := ih hu bound (by simpa using hbound)
      obtain ⟨c, cs, rfl, hc⟩ := (h.grammatical ht).start
      simp only [List.append_assoc, List.cons_append, List.nil_append] at hread ⊢
      simp only [elementsFrom, nextElement_lead hlead hc, hread, htail, bind, Except.bind]

theorem Recognizes.elementsFrom_ok (h : Recognizes read L) : ∀ {bound : List Char} {first : Bool} {cs : List Char}
    {as : List α} {rest : List Char}, elementsFrom read bound first cs = .ok (as, rest) →
      ∃ ts u, Items first ts u ∧ List.Forall₂ L as ts ∧ cs = u ++ rest
  | [], _, _, _, _, hread => nomatch hread
  | x :: bound, first, cs, as, rest, hread => by
    obtain ⟨next, hnext, hmore⟩ := exists_ok_of_bind hread
    cases next with
    | none =>
      cases hmore
      exact ⟨[], [], .nil, .nil, rfl⟩
    | some cs =>
      obtain ⟨⟨a, cs₁⟩, ha, hmore⟩ := exists_ok_of_bind hmore
      obtain ⟨⟨as', cs₂⟩, has, hdone⟩ := exists_ok_of_bind hmore
      cases hdone
      obtain ⟨lead, hlead, rfl⟩ := nextElement_some hnext
      obtain ⟨b, t, hb, ht, rfl⟩ := h.of_read ha
      obtain ⟨ts, u, hu, hts, rfl⟩ := h.elementsFrom_ok has
      exact ⟨t :: ts, _, .cons (hlead.append_blank hb) hu, .cons ht hts, by simp only [List.append_assoc]⟩

/-- A list is read if its elements are. -/
theorem Recognizes.array (h : Recognizes read L) : Recognizes (array read) (ListText L) where
  grammatical := by
    rintro as t ⟨ts, ht, hts⟩
    refine .list ht fun x hx => ?_
    obtain ⟨a, -, ha⟩ := exists_left_of_forall₂ hts hx
    exact h.grammatical ha
  read_append := by
    rintro as t ⟨ts, ⟨u, b₁, hu, hb₁, rfl⟩, hts⟩ b rest hb _
    have hlen := hu.length_le (P := fun t => t ≠ []) (fun _ ht => ht) fun x hx => by
      obtain ⟨a, -, ha⟩ := exists_left_of_forall₂ hts hx
      obtain ⟨c, cs, rfl, -⟩ := (h.grammatical ha).start
      exact List.cons_ne_nil _ _
    have helements := h.elementsFrom_append hts hb₁ rest hu ('[' :: (u ++ (b₁ ++ ']' :: rest)))
      (by simp only [List.length_cons, List.length_append]; omega)
    unfold Json.array
    rw [skipBlank_append hb, List.cons_append, skipBlank_cons (by decide)]
    simp only [List.append_assoc, List.singleton_append, helements, endList_close hb₁, bind, Except.bind]
  of_read := by
    intro cs as rest hread
    obtain ⟨b, hb, hcs⟩ := exists_blank cs
    unfold Json.array at hread
    split at hread
    · cases hread
    · next heq =>
      obtain ⟨⟨as', after⟩, helements, hmore⟩ := exists_ok_of_bind hread
      obtain ⟨rest', hend, hdone⟩ := exists_ok_of_bind hmore
      cases hdone
      obtain ⟨ts, u, hu, hts, rfl⟩ := h.elementsFrom_ok helements
      obtain ⟨b₁, hb₁, rfl⟩ := endList_ok hend
      refine ⟨b, _, hb, ⟨ts, ⟨u, b₁, hu, hb₁, rfl⟩, hts⟩, ?_⟩
      rw [hcs, heq]
      simp
    · cases hread

/-! ## Whole texts -/

theorem skipBlank_of_blank {b : List Char} (hb : Blank b) : skipBlank b = [] := by
  have hskip := skipBlank_append hb []
  rwa [List.append_nil] at hskip

theorem decode_ok_iff {text : String} {a : α} :
    decode read text = .ok a ↔ ∃ rest, read text.toList = .ok (a, rest) ∧ Blank rest := by
  constructor
  · intro h
    unfold decode at h
    split at h
    · next hwhole =>
      cases h
      obtain ⟨⟨a', rest⟩, hread, hrest⟩ := exists_ok_of_bind hwhole
      dsimp only at hrest
      split at hrest
      · next hblank =>
        cases hrest
        obtain ⟨b, hb, hcs⟩ := exists_blank rest
        rw [hblank, List.append_nil] at hcs
        exact ⟨rest, hread, hcs ▸ hb⟩
      · cases hrest
    · cases h
  · rintro ⟨rest, hread, hrest⟩
    unfold decode whole
    rw [hread]
    simp only [bind, Except.bind, skipBlank_of_blank hrest]

/-- Between blanks, the text is one that has the property. -/
def Document (P : List Char → Prop) (text : String) : Prop :=
  ∃ b t b', Blank b ∧ P t ∧ Blank b' ∧ text.toList = b ++ (t ++ b')

/-- **A whole text is read if and only if it is the text of a value between blanks.** -/
theorem Recognizes.decode_iff (h : Recognizes read L) {text : String} {a : α} :
    decode read text = .ok a ↔ Document (L a) text := by
  rw [decode_ok_iff]
  constructor
  · rintro ⟨rest, hread, hrest⟩
    obtain ⟨b, t, hb, ht, hcs⟩ := h.of_read hread
    exact ⟨b, t, rest, hb, ht, hrest, hcs⟩
  · rintro ⟨b, t, b', hb, ht, hb', htext⟩
    exact ⟨b', by rw [htext, h.read_append ht hb hb'.ends_self], hb'⟩

end ProbeSuite.Json
