import ProbeSuite.Proofs.Json.Grammar

/-!
# Values that are passed over

* `Items.resume`, `Grammatical.passed` : a value is passed over inside any open brackets;
* `After`, `Continues` : what open brackets still demand of a text;
* `Grammatical.skipValue`, `skipValue_ok` : what is passed over are the values of the grammar.
-/

namespace ProbeSuite.Json

/-! ## Items -/

/-- The character that opens it. -/
def Bracket.opener : Bracket → Char
  | .list => '['
  | .object => '\x7b'

/-- The text is an item between such brackets, and its value is as given. -/
inductive Item : Bracket → (text value : List Char) → Prop where
  | element {v : List Char} : Grammatical v → Item .list v v
  | member {m : Member} {x : List Char} : MemberText m x → StringText m.1 → Grammatical m.2 → Item .object x m.2

theorem Item.grammatical {k : Bracket} {x v : List Char} (h : Item k x v) : Grammatical v := by
  cases h with
  | element hv => exact hv
  | member _ _ hv => exact hv

theorem Item.start {k : Bracket} {x v : List Char} (h : Item k x v) : ∃ c cs, x = c :: cs ∧ IsStart c := by
  cases h with
  | element hv => exact hv.start
  | member hm _ _ =>
    cases hm
    exact ⟨_, _, rfl, .inr (by decide)⟩

theorem Item.length_le {k : Bracket} {x v : List Char} (h : Item k x v) : v.length ≤ x.length := by
  cases h with
  | element _ => exact Nat.le_refl _
  | member hm _ _ =>
    cases hm
    simp only [List.length_cons, List.length_append]
    omega

theorem IsStart.ne_closer {c : Char} (h : IsStart c) (k : Bracket) : c ≠ k.closer := by
  cases k with
  | list => exact h.ne.1
  | object => exact h.ne.2.1

theorem closer_cases (k : Bracket) : k.closer = ']' ∨ k.closer = '\x7d' := by
  cases k with
  | list => exact .inl rfl
  | object => exact .inr rfl

theorem isBlank_closer (k : Bracket) : isBlank k.closer = false := by
  cases k <;> decide

/-- In front of an item, what precedes its value is passed over. -/
theorem Item.memberStart {k : Bracket} {x v : List Char} (h : Item k x v) {b : List Char} (hb : Blank b) :
    ∃ b', Blank b' ∧ ∀ rest, memberStart k (b ++ (x ++ rest)) = .ok (b' ++ (v ++ rest)) := by
  cases h with
  | element _ => exact ⟨b, hb, fun _ => rfl⟩
  | member hm hkey _ =>
    cases hm with
    | @mk key value b₁ b₂ hb₁ hb₂ =>
      refine ⟨b₂, hb₂, fun rest => ?_⟩
      have hskip := hkey.skipString (b₁ ++ ':' :: (b₂ ++ (value ++ rest)))
      unfold Json.memberStart
      simp only [List.cons_append, List.append_assoc, skipBlank_append hb]
      rw [skipBlank_cons (by decide)]
      simp only [hskip, bind, Except.bind]
      exact colon_append hb₁ _

/-! ## Passing over -/

/-- Passing over what is left when a value ends inside open brackets. -/
def resume (bound : List Char) (stack : List Bracket) (cs : List Char) : Except Fault (List Char) := do
  let (stack, rest) ← closeBrackets stack cs
  if stack.isEmpty then .ok rest else skipValueFrom bound stack rest

/-- The value is passed over wherever it stands. -/
def Passed (t : List Char) : Prop :=
  ∀ (bound : List Char) (stack : List Bracket) (rest : List Char) {b : List Char}, Blank b →
    (NumberText t → Ends rest) → t.length ≤ bound.length → ∃ bound', bound.length ≤ bound'.length + t.length ∧
      skipValueFrom bound stack (b ++ (t ++ rest)) = resume bound' stack rest

theorem passed_of_skipToken {t : List Char} (hpos : 0 < t.length)
    (h : ∀ (stack : List Bracket) {b rest : List Char}, Blank b → (NumberText t → Ends rest) →
      skipToken stack (b ++ (t ++ rest)) = closeBrackets stack rest) : Passed t := by
  intro bound stack rest b hb hrest hbound
  obtain ⟨x, bound, rfl⟩ := List.exists_cons_of_length_pos (Nat.lt_of_lt_of_le hpos hbound)
  refine ⟨bound, ?_, ?_⟩
  · simp only [List.length_cons]
    omega
  · rw [skipValueFrom, h stack hb hrest]
    rfl

theorem closeBrackets_close (k : Bracket) (outer : List Bracket) {b : List Char} (hb : Blank b) (rest : List Char) :
    closeBrackets (k :: outer) (b ++ k.closer :: rest) = closeBrackets outer rest := by
  have hcomma : k.closer ≠ ',' := by cases k <;> decide
  rw [closeBrackets, skipBlank_append hb, skipBlank_cons (isBlank_closer k)]
  dsimp only
  rw [if_neg hcomma, if_pos rfl]

theorem closeBrackets_next (k : Bracket) (outer : List Bracket) {b : List Char} (hb : Blank b) (cs : List Char) :
    closeBrackets (k :: outer) (b ++ ',' :: cs) = memberStart k cs >>= fun rest => .ok (k :: outer, rest) := by
  rw [closeBrackets, skipBlank_append hb, skipBlank_cons (by decide)]
  rfl

theorem openBracket_close (k : Bracket) (outer : List Bracket) {b : List Char} (hb : Blank b) (rest : List Char) :
    openBracket k outer (b ++ k.closer :: rest) = closeBrackets outer rest := by
  rw [openBracket, skipBlank_append hb, skipBlank_cons (isBlank_closer k)]
  exact if_pos rfl

theorem openBracket_first (k : Bracket) (outer : List Bracket) {b : List Char} (hb : Blank b) {c : Char}
    (hc : IsStart c) (cs : List Char) :
    openBracket k outer (b ++ c :: cs) = memberStart k (c :: cs) >>= fun rest => .ok (k :: outer, rest) := by
  rw [openBracket, skipBlank_append hb, skipBlank_cons hc.not_blank]
  exact if_neg (hc.ne_closer k)

theorem resume_next (bound : List Char) (k : Bracket) (outer : List Bracket) {b : List Char} (hb : Blank b)
    (cs : List Char) :
    resume bound (k :: outer) (b ++ ',' :: cs) = memberStart k cs >>= skipValueFrom bound (k :: outer) := by
  unfold resume
  rw [closeBrackets_next k outer hb]
  cases memberStart k cs with
  | error e => rfl
  | ok rest => rfl

theorem skipToken_open (k : Bracket) (stack : List Bracket) {b : List Char} (hb : Blank b) (cs : List Char) :
    skipToken stack (b ++ k.opener :: cs) = openBracket k stack cs := by
  unfold skipToken
  cases k <;> (rw [skipBlank_append hb, skipBlank_cons (by decide)]; rfl)

theorem skipValueFrom_close (x : Char) (bound : List Char) (k : Bracket) (stack : List Bracket) {b b' : List Char}
    (hb : Blank b) (hb' : Blank b') (rest : List Char) :
    skipValueFrom (x :: bound) stack (b ++ k.opener :: (b' ++ k.closer :: rest)) = resume bound stack rest := by
  rw [skipValueFrom, skipToken_open k stack hb, openBracket_close k stack hb']
  rfl

theorem skipValueFrom_first (x : Char) (bound : List Char) (k : Bracket) (stack : List Bracket) {b b' : List Char}
    (hb : Blank b) (hb' : Blank b') {c : Char} (hc : IsStart c) (cs : List Char) :
    skipValueFrom (x :: bound) stack (b ++ k.opener :: (b' ++ c :: cs)) =
      memberStart k (c :: cs) >>= skipValueFrom bound (k :: stack) := by
  rw [skipValueFrom, skipToken_open k stack hb, openBracket_first k stack hb' hc]
  cases memberStart k (c :: cs) with
  | error e => rfl
  | ok rest => rfl

/-- An item is passed over with its value. -/
theorem Item.resume {k : Bracket} {x v : List Char} (hx : Item k x v) (hv : Passed v) (bound : List Char)
    (stack : List Bracket) {b rest : List Char} (hb : Blank b) (hrest : Ends rest) (hbound : x.length ≤ bound.length) :
    ∃ bound', bound.length ≤ bound'.length + x.length ∧
      (Json.memberStart k (b ++ (x ++ rest)) >>= skipValueFrom bound stack) = Json.resume bound' stack rest := by
  obtain ⟨b', hb', hstart⟩ := hx.memberStart hb
  have hlen := hx.length_le
  obtain ⟨bound', hbound', hvalue⟩ := hv bound stack rest hb' (fun _ => hrest) (by omega)
  refine ⟨bound', by omega, ?_⟩
  rw [hstart, ← hvalue]
  rfl

/-- The items after the first are passed over, and the bracket is closed. -/
theorem Items.resume {k : Bracket} {ts : List (List Char)} : ∀ {u : List Char}, Items false ts u →
    (∀ x ∈ ts, ∃ v, Item k x v ∧ Passed v) → ∀ (bound : List Char) (outer : List Bracket) {b : List Char},
      Blank b → ∀ (rest : List Char), u.length ≤ bound.length →
        ∃ bound', bound.length ≤ bound'.length + u.length ∧
          Json.resume bound (k :: outer) (u ++ (b ++ k.closer :: rest)) = Json.resume bound' outer rest := by
  induction ts with
  | nil =>
    intro u hu _ bound outer b hb rest _
    cases hu
    refine ⟨bound, Nat.le_add_right _ _, ?_⟩
    unfold Json.resume
    rw [List.nil_append, closeBrackets_close k outer hb]
  | cons x ts ih =>
    intro u hu hts bound outer b hb rest hbound
    obtain ⟨⟨v, hx, hv⟩, hts⟩ := List.forall_mem_cons.1 hts
    cases hu with
    | @cons _ lead _ u _ hlead hu =>
      cases hlead with
      | @next b₁ b₂ hb₁ hb₂ =>
        simp only [List.length_append, List.length_cons] at hbound
        obtain ⟨bound₁, hbound₁, hitem⟩ := hx.resume hv bound (k :: outer) hb₂
          (hu.ends (hb.ends_closer (closer_cases k) rest)) (by omega)
        obtain ⟨bound₂, hbound₂, hitems⟩ := ih hu hts bound₁ outer hb rest (by omega)
        refine ⟨bound₂, ?_, ?_⟩
        · simp only [List.length_append, List.length_cons]
          omega
        · simp only [List.append_assoc, List.cons_append]
          rw [resume_next bound k outer hb₁, hitem, hitems]

theorem passed_enclosed {k : Bracket} {ts : List (List Char)} {t : List Char}
    (h : Enclosed k.opener k.closer ts t) (hts : ∀ x ∈ ts, ∃ v, Item k x v ∧ Passed v) : Passed t := by
  obtain ⟨u, b₁, hu, hb₁, rfl⟩ := h
  intro bound stack rest b hb _ hbound
  obtain ⟨x, bound, rfl⟩ := List.exists_cons_of_length_pos (Nat.lt_of_lt_of_le (Nat.succ_pos _) hbound)
  simp only [List.length_cons, List.length_append, List.length_nil] at hbound ⊢
  simp only [List.cons_append, List.append_assoc, List.nil_append]
  cases hu with
  | nil => exact ⟨bound, by omega, skipValueFrom_close x bound k stack hb hb₁ rest⟩
  | @cons _ lead x₁ u ts hlead hu =>
    cases hlead with
    | first hlead =>
      obtain ⟨⟨v, hx, hv⟩, hts⟩ := List.forall_mem_cons.1 hts
      simp only [List.length_append] at hbound ⊢
      obtain ⟨bound₁, hbound₁, hitem⟩ := hx.resume hv bound (k :: stack) Blank.nil
        (hu.ends (hb₁.ends_closer (closer_cases k) rest)) (by omega)
      obtain ⟨bound₂, hbound₂, hitems⟩ := hu.resume hts bound₁ stack hb₁ rest (by omega)
      obtain ⟨c, cs, rfl, hc⟩ := hx.start
      refine ⟨bound₂, by omega, ?_⟩
      rw [List.nil_append, List.cons_append] at hitem
      simp only [List.append_assoc, List.cons_append]
      rw [skipValueFrom_first x bound k stack hb hlead hc, hitem, hitems]

theorem NumberText.skipToken {t : List Char} (h : NumberText t) (stack : List Bracket) {b rest : List Char}
    (hb : Blank b) (hrest : Ends rest) : skipToken stack (b ++ (t ++ rest)) = closeBrackets stack rest := by
  unfold Json.skipToken
  rw [skipBlank_append hb]
  cases h with
  | plain hplain =>
    have hskip := hplain.skipNumber hrest
    obtain ⟨c, cs, rfl, hc⟩ := hplain.digit
    have hne : ∀ d : Char, d.isDigit = false → c ≠ d := by
      rintro d hd rfl
      rw [hc] at hd
      cases hd
    rw [List.cons_append] at hskip ⊢
    rw [skipBlank_cons (isBlank_of_isDigit hc)]
    split
    · contradiction
    all_goals try (next heq => exact absurd (List.cons.inj heq).1 (hne _ (by decide)))
    next heq =>
    cases heq
    rw [if_pos hc, hskip]
    rfl
  | minus hplain =>
    rw [List.cons_append, skipBlank_cons (by decide)]
    simp only [hplain.skipNumber hrest, bind, Except.bind]

theorem exists_left_of_forall₂ {α β : Type} {R : α → β → Prop} {as : List α} {bs : List β}
    (h : List.Forall₂ R as bs) {b : β} (hb : b ∈ bs) : ∃ a ∈ as, R a b := by
  induction h with
  | nil => cases hb
  | cons hab _ ih =>
    rcases List.mem_cons.1 hb with rfl | hb
    · exact ⟨_, List.mem_cons_self, hab⟩
    · obtain ⟨a, ha, hr⟩ := ih hb
      exact ⟨a, List.mem_cons_of_mem _ ha, hr⟩

theorem passed_word {c : Char} {letters : List Char}
    (hword : ∀ (stack : List Bracket) (rest : List Char),
      skipToken stack (c :: (letters ++ rest)) = closeBrackets stack rest) : Passed (c :: letters) := by
  refine passed_of_skipToken (Nat.succ_pos _) fun stack b rest hb _ => ?_
  rw [← hword stack rest]
  unfold skipToken
  rw [skipBlank_append hb, List.cons_append]

/-- **Every value of the grammar is passed over**, inside any open brackets. -/
theorem Grammatical.passed {t : List Char} (h : Grammatical t) : Passed t := by
  induction h with
  | null => exact passed_word fun _ _ => rfl
  | true => exact passed_word fun _ _ => rfl
  | false => exact passed_word fun _ _ => rfl
  | number hnumber =>
    exact passed_of_skipToken hnumber.length_pos fun stack b rest hb hrest =>
      hnumber.skipToken stack hb (hrest hnumber)
  | @string t ht =>
    refine passed_of_skipToken (Nat.succ_pos _) fun stack b rest hb _ => ?_
    have hskip := ht.skipString rest
    unfold skipToken
    rw [skipBlank_append hb, List.cons_append, skipBlank_cons (by decide), List.append_assoc]
    simp only [List.singleton_append, hskip, bind, Except.bind]
  | list ht hts ih => exact passed_enclosed (k := .list) ht fun x hx => ⟨x, .element (hts x hx), ih x hx⟩
  | object ht hkeys hvalues ih =>
    obtain ⟨ts, hms, ht⟩ := ht
    refine passed_enclosed (k := .object) ht fun x hx => ?_
    obtain ⟨m, hm, hx⟩ := exists_left_of_forall₂ hms hx
    exact ⟨m.2, .member hx (hkeys m hm) (hvalues m hm), ih m hm⟩

theorem Grammatical.skipValue {t : List Char} (h : Grammatical t) {b rest : List Char} (hb : Blank b)
    (hrest : NumberText t → Ends rest) : skipValue (b ++ (t ++ rest)) = .ok rest := by
  obtain ⟨bound, -, hskip⟩ := h.passed (b ++ (t ++ rest)) [] rest hb hrest
    (by simp only [List.length_append]; omega)
  obtain ⟨c, cs, rfl, hc⟩ := h.start
  unfold Json.skipValue
  rw [skipBlank_append hb, List.cons_append, skipBlank_cons hc.not_blank]
  rw [List.cons_append] at hskip
  exact hskip

/-! ## Whatever is passed over -/

/-- What open brackets demand of a text: the items that are left of the innermost, its closing bracket, and so
on for those around it. -/
def After : List Bracket → List Char → Prop
  | [], u => u = []
  | k :: outer, u => ∃ ts w b u', Items false ts w ∧ (∀ x ∈ ts, ∃ v, Item k x v) ∧ Blank b ∧ After outer u' ∧
      u = w ++ (b ++ k.closer :: u')

theorem After.close {k : Bracket} {outer : List Bracket} {b u : List Char} (hb : Blank b) (h : After outer u) :
    After (k :: outer) (b ++ k.closer :: u) :=
  ⟨[], [], b, u, .nil, List.forall_mem_nil _, hb, h, rfl⟩

theorem After.next {k : Bracket} {outer : List Bracket} {lead x v u : List Char} (hlead : Lead false lead)
    (hx : Item k x v) (h : After (k :: outer) u) : After (k :: outer) (lead ++ (x ++ u)) := by
  obtain ⟨ts, w, b, u', hw, hts, hb, hu, rfl⟩ := h
  exact ⟨x :: ts, _, b, u', .cons hlead hw, List.forall_mem_cons.2 ⟨⟨v, hx⟩, hts⟩, hb, hu, by
    simp only [List.append_assoc]⟩

/-- The text goes on with a value if any bracket is open, and then as the brackets demand. -/
inductive Continues (rest : List Char) : List Bracket → List Char → Prop where
  | done : Continues rest [] rest
  | value {k : Bracket} {outer : List Bracket} {b v u : List Char} :
      Blank b → Grammatical v → After (k :: outer) u → Continues rest (k :: outer) (b ++ (v ++ (u ++ rest)))

/-- A value behind what precedes it is an item. -/
theorem memberStart_ok {k : Bracket} {cs b v rest : List Char} (h : memberStart k cs = .ok (b ++ (v ++ rest)))
    (hb : Blank b) (hv : Grammatical v) : ∃ b' x, Blank b' ∧ Item k x v ∧ cs = b' ++ (x ++ rest) := by
  cases k with
  | list =>
    cases h
    exact ⟨b, v, hb, .element hv, rfl⟩
  | object =>
    obtain ⟨b', hb', hcs⟩ := exists_blank cs
    unfold memberStart at h
    dsimp only at h
    split at h
    · next after heq =>
      obtain ⟨after', hskip, hcolon⟩ := exists_ok_of_bind h
      obtain ⟨key, hkey, rfl⟩ := skipString_ok hskip
      obtain ⟨b₁, hb₁, rfl⟩ := colon_ok hcolon
      refine ⟨b', _, hb', .member (.mk (k := key) (v := v) hb₁ hb) hkey hv, ?_⟩
      rw [hcs, heq]
      simp only [List.cons_append, List.append_assoc]
    · cases h
    · cases h

theorem closeBrackets_ok {rest : List Char} : ∀ {stack : List Bracket} {cs : List Char} {stack' : List Bracket}
    {cs' : List Char}, closeBrackets stack cs = .ok (stack', cs') → Continues rest stack' cs' →
      ∃ u, After stack u ∧ cs = u ++ rest
  | [], cs, stack', cs', h, hrest => by
    cases h
    cases hrest
    exact ⟨[], rfl, rfl⟩
  | k :: outer, cs, stack', cs', h, hrest => by
    obtain ⟨b, hb, hcs⟩ := exists_blank cs
    unfold closeBrackets at h
    split at h
    · cases h
    · next c after heq =>
      rw [heq] at hcs
      split at h
      · next hc =>
        obtain ⟨after', hstart, hdone⟩ := exists_ok_of_bind h
        cases hdone
        cases hrest with
        | value hb₁ hv hu =>
          obtain ⟨b₂, x, hb₂, hx, rfl⟩ := memberStart_ok hstart hb₁ hv
          refine ⟨_, .next (.next hb hb₂) hx hu, ?_⟩
          rw [hcs, hc]
          simp only [List.append_assoc, List.cons_append]
      · split at h
        · next hc =>
          obtain ⟨u, hu, rfl⟩ := closeBrackets_ok h hrest
          refine ⟨_, .close hb hu, ?_⟩
          rw [hcs, hc]
          simp only [List.append_assoc, List.cons_append]
        · cases h

theorem openBracket_ok {k : Bracket} {outer stack' : List Bracket} {cs cs' rest : List Char}
    (h : openBracket k outer cs = .ok (stack', cs')) (hrest : Continues rest stack' cs') :
    ∃ ts u b w, Items true ts u ∧ (∀ x ∈ ts, ∃ v, Item k x v) ∧ Blank b ∧ After outer w ∧
      cs = u ++ (b ++ k.closer :: (w ++ rest)) := by
  obtain ⟨b, hb, hcs⟩ := exists_blank cs
  unfold openBracket at h
  split at h
  · cases h
  · next c after heq =>
    rw [heq] at hcs
    split at h
    · next hc =>
      obtain ⟨w, hw, rfl⟩ := closeBrackets_ok h hrest
      refine ⟨[], [], b, w, .nil, List.forall_mem_nil _, hb, hw, ?_⟩
      rw [hcs, hc, List.nil_append]
    · obtain ⟨after', hstart, hdone⟩ := exists_ok_of_bind h
      cases hdone
      cases hrest with
      | value hb₁ hv hu =>
        obtain ⟨b₂, x, hb₂, hx, hafter⟩ := memberStart_ok hstart hb₁ hv
        obtain ⟨ts, w, b₃, u', hw, hts, hb₃, hu', rfl⟩ := hu
        refine ⟨x :: ts, _, b₃, u', .cons (.first (hb.append hb₂)) hw, List.forall_mem_cons.2 ⟨⟨_, hx⟩, hts⟩, hb₃,
          hu', ?_⟩
        rw [hcs, hafter]
        simp only [List.append_assoc, List.cons_append]

theorem grammatical_enclosed {k : Bracket} {ts : List (List Char)} {t : List Char}
    (h : Enclosed k.opener k.closer ts t) (hts : ∀ x ∈ ts, ∃ v, Item k x v) : Grammatical t := by
  cases k with
  | list =>
    refine .list h fun x hx => ?_
    obtain ⟨v, hv⟩ := hts x hx
    cases hv with
    | element hv => exact hv
  | object =>
    have hms : ∃ ms, List.Forall₂ MemberText ms ts ∧ GrammaticalMembers ms := by
      clear h
      induction ts with
      | nil => exact ⟨[], .nil, List.forall_mem_nil _⟩
      | cons x ts ih =>
        obtain ⟨ms, hms, hgrammatical⟩ := ih fun y hy => hts y (List.mem_cons_of_mem _ hy)
        obtain ⟨v, hx⟩ := hts x List.mem_cons_self
        cases hx with
        | @member m _ hm hkey hv => exact ⟨m :: ms, .cons hm hms, List.forall_mem_cons.2 ⟨⟨hkey, hv⟩, hgrammatical⟩⟩
    obtain ⟨ms, hms, hgrammatical⟩ := hms
    exact hgrammatical.object ⟨ts, hms, h⟩

theorem word_ok : ∀ {letters cs rest : List Char}, word letters cs = .ok rest → cs = letters ++ rest
  | [], cs, rest, h => by
    cases h
    rfl
  | l :: ls, [], rest, h => by cases h
  | l :: ls, c :: cs, rest, h => by
    unfold word at h
    split at h
    · next hc => rw [hc, word_ok h, List.cons_append]
    · cases h

theorem skipToken_ok {stack stack' : List Bracket} {cs cs' rest : List Char}
    (h : skipToken stack cs = .ok (stack', cs')) (hrest : Continues rest stack' cs') :
    ∃ b v u, Blank b ∧ Grammatical v ∧ After stack u ∧ cs = b ++ (v ++ (u ++ rest)) := by
  obtain ⟨b, hb, hcs⟩ := exists_blank cs
  -- A token with nothing open after it but what was open before.
  have hscalar : ∀ {v after : List Char}, Grammatical v → skipBlank cs = v ++ after →
      closeBrackets stack after = .ok (stack', cs') →
        ∃ b v u, Blank b ∧ Grammatical v ∧ After stack u ∧ cs = b ++ (v ++ (u ++ rest)) := by
    intro v after hv hblank hclose
    obtain ⟨u, hu, rfl⟩ := closeBrackets_ok hclose hrest
    exact ⟨b, v, u, hb, hv, hu, hblank ▸ hcs⟩
  have hopen : ∀ {k : Bracket} {after : List Char}, skipBlank cs = k.opener :: after →
      openBracket k stack after = .ok (stack', cs') →
        ∃ b v u, Blank b ∧ Grammatical v ∧ After stack u ∧ cs = b ++ (v ++ (u ++ rest)) := by
    intro k after hblank hbracket
    obtain ⟨ts, u, b₁, w, hu, hts, hb₁, hw, rfl⟩ := openBracket_ok hbracket hrest
    refine ⟨b, _, w, hb, grammatical_enclosed ⟨u, b₁, hu, hb₁, rfl⟩ hts, hw, ?_⟩
    rw [hcs, hblank]
    simp only [List.append_assoc, List.cons_append, List.nil_append]
  unfold skipToken at h
  split at h
  · cases h
  · next heq => exact hopen (k := .list) heq h
  · next heq => exact hopen (k := .object) heq h
  · next heq =>
    obtain ⟨after, hword, hclose⟩ := exists_ok_of_bind h
    exact hscalar .null (by rw [heq, word_ok hword]; rfl) hclose
  · next heq =>
    obtain ⟨after, hword, hclose⟩ := exists_ok_of_bind h
    exact hscalar .true (by rw [heq, word_ok hword]; rfl) hclose
  · next heq =>
    obtain ⟨after, hword, hclose⟩ := exists_ok_of_bind h
    exact hscalar .false (by rw [heq, word_ok hword]; rfl) hclose
  · next heq =>
    obtain ⟨after, hskip, hclose⟩ := exists_ok_of_bind h
    obtain ⟨t, ht, rfl⟩ := skipString_ok hskip
    exact hscalar (.string ht) (by rw [heq]; simp) hclose
  · next heq =>
    obtain ⟨after, hskip, hclose⟩ := exists_ok_of_bind h
    obtain ⟨t, ht, rfl⟩ := skipNumber_ok hskip
    exact hscalar (.number (.minus ht)) heq hclose
  · next heq =>
    split at h
    · obtain ⟨after, hskip, hclose⟩ := exists_ok_of_bind h
      obtain ⟨t, ht, hcs'⟩ := skipNumber_ok hskip
      exact hscalar (.number (.plain ht)) (heq.trans hcs') hclose
    · cases h

theorem skipValueFrom_ok {rest : List Char} : ∀ {bound : List Char} {stack : List Bracket} {cs : List Char},
    skipValueFrom bound stack cs = .ok rest →
      ∃ b v u, Blank b ∧ Grammatical v ∧ After stack u ∧ cs = b ++ (v ++ (u ++ rest))
  | [], _, _, h => by cases h
  | _ :: bound, stack, cs, h => by
    obtain ⟨⟨stack', cs'⟩, htoken, hmore⟩ := exists_ok_of_bind h
    refine skipToken_ok htoken ?_
    cases stack' with
    | nil =>
      cases hmore
      exact .done
    | cons k outer =>
      have hvalue : skipValueFrom bound (k :: outer) cs' = .ok rest := hmore
      obtain ⟨b, v, u, hb, hv, hu, rfl⟩ := skipValueFrom_ok hvalue
      exact .value hb hv hu

/-- **Only values of the grammar are passed over.** -/
theorem skipValue_ok {cs rest : List Char} (h : skipValue cs = .ok rest) :
    ∃ b v, Blank b ∧ Grammatical v ∧ cs = b ++ (v ++ rest) := by
  unfold skipValue at h
  split at h
  · cases h
  · obtain ⟨b, v, u, hb, hv, rfl, hcs⟩ := skipValueFrom_ok h
    exact ⟨b, v, hb, hv, hcs⟩

end ProbeSuite.Json
