import ProbeSuite.Proofs.Json.Skip

/-!
# A text is taken apart in one way

* `Grammatical.eq_of_append`, `MemberText.eq_of_append` : two values, or two members, at the front of a text;
* `Items.unique` : the items in front of a closing bracket;
* `ListOf.unique`, `ObjectOf.unique` : the elements of a list, and the members of an object.
-/

namespace ProbeSuite.Json

/-- Two values at the front of one text end together. -/
theorem Grammatical.rest_eq {t t' rest rest' b b' : List Char} (h : Grammatical t) (h' : Grammatical t')
    (hb : Blank b) (hb' : Blank b') (hrest : NumberText t → Ends rest) (hrest' : NumberText t' → Ends rest')
    (heq : b ++ (t ++ rest) = b' ++ (t' ++ rest')) : rest = rest' := by
  have hskip := h.skipValue hb hrest
  rw [heq, h'.skipValue hb' hrest'] at hskip
  exact (Except.ok.inj hskip).symm

theorem Grammatical.skipBlank_append {t : List Char} (h : Grammatical t) {b : List Char} (hb : Blank b)
    (rest : List Char) : skipBlank (b ++ (t ++ rest)) = t ++ rest := by
  obtain ⟨c, cs, rfl, hc⟩ := h.start
  rw [Json.skipBlank_append hb, List.cons_append, skipBlank_cons hc.not_blank]

theorem Grammatical.eq_of_append {t t' rest rest' b b' : List Char} (h : Grammatical t) (h' : Grammatical t')
    (hb : Blank b) (hb' : Blank b') (hrest : NumberText t → Ends rest) (hrest' : NumberText t' → Ends rest')
    (heq : b ++ (t ++ rest) = b' ++ (t' ++ rest')) : t = t' := by
  have htext : t ++ rest = t' ++ rest' := by
    rw [← h.skipBlank_append hb, heq, h'.skipBlank_append hb']
  rw [h.rest_eq h' hb hb' hrest hrest' heq] at htext
  exact List.append_cancel_right htext

/-- Two members at the front of one text are one member. -/
theorem MemberText.eq_of_append {m m' : Member} {x x' rest rest' : List Char} (h : MemberText m x)
    (h' : MemberText m' x') (hkey : StringText m.1) (hkey' : StringText m'.1) (hv : Grammatical m.2)
    (hv' : Grammatical m'.2) (hrest : Ends rest) (hrest' : Ends rest') (heq : x ++ rest = x' ++ rest') :
    m = m' ∧ x = x' := by
  cases h with
  | @mk key value b b₁ hb hb₁ =>
    cases h' with
    | @mk key' value' b' b₁' hb' hb₁' =>
      have hbody : key ++ '\x22' :: (b ++ ':' :: (b₁ ++ (value ++ rest))) =
          key' ++ '\x22' :: (b' ++ ':' :: (b₁' ++ (value' ++ rest'))) := by
        simpa only [List.cons_append, List.append_assoc, List.cons.injEq, true_and] using heq
      have hskip := hkey.skipString (b ++ ':' :: (b₁ ++ (value ++ rest)))
      rw [show (key, value).1 = key from rfl, hbody, hkey'.skipString] at hskip
      have hcolon := Except.ok.inj hskip
      rw [← hcolon] at hbody
      have hkeys : key = key' := List.append_cancel_right hbody
      have hvalue := colon_append hb (b₁ ++ (value ++ rest))
      rw [← hcolon, colon_append hb'] at hvalue
      have hends := hv'.rest_eq hv hb₁' hb₁ (fun _ => hrest') (fun _ => hrest) (Except.ok.inj hvalue)
      have hvalues := hv'.eq_of_append hv hb₁' hb₁ (fun _ => hrest') (fun _ => hrest) (Except.ok.inj hvalue)
      refine ⟨Prod.ext hkeys hvalues.symm, ?_⟩
      rw [hends] at heq
      exact List.append_cancel_right heq

/-! ## Items -/

/-- What stands in front of two items that begin one text is the same. -/
theorem Lead.cons_eq {first : Bool} {lead lead' : List Char} (h : Lead first lead) (h' : Lead first lead') {c c' : Char}
    (hc : IsStart c) (hc' : IsStart c') {cs cs' : List Char} (heq : lead ++ c :: cs = lead' ++ c' :: cs') :
    c :: cs = c' :: cs' := by
  have hblank : ∀ {b b' : List Char}, Blank b → Blank b' → b ++ c :: cs = b' ++ c' :: cs' → c :: cs = c' :: cs' := by
    intro b b' hb hb' heq
    have hskip := skipBlank_append hb (c :: cs)
    rwa [heq, skipBlank_append hb', skipBlank_cons hc'.not_blank, skipBlank_cons hc.not_blank, eq_comm] at hskip
  cases h with
  | first hb =>
    cases h' with
    | first hb' => exact hblank hb hb' heq
  | @next b b₁ hb hb₁ =>
    cases h' with
    | @next b' b₁' hb' hb₁' =>
      simp only [List.append_assoc, List.cons_append] at heq
      have hskip := skipBlank_append hb (',' :: (b₁ ++ c :: cs))
      rw [heq, skipBlank_append hb', skipBlank_cons (by decide), skipBlank_cons (by decide)] at hskip
      exact hblank hb₁ hb₁' (List.cons.inj hskip).2.symm

/-- Where a bracket closes, no item stands. -/
theorem Lead.ne_closer {first : Bool} {lead b : List Char} (h : Lead first lead) (hb : Blank b) (k : Bracket) {c : Char}
    (hc : IsStart c) {cs rest : List Char} : lead ++ c :: cs ≠ b ++ k.closer :: rest := by
  intro heq
  have hskip := skipBlank_append hb (k.closer :: rest)
  rw [← heq, skipBlank_cons (isBlank_closer k)] at hskip
  cases h with
  | first hlead =>
    rw [skipBlank_append hlead, skipBlank_cons hc.not_blank] at hskip
    exact hc.ne_closer k (List.cons.inj hskip).1
  | next hlead _ =>
    rw [List.append_assoc, List.cons_append, skipBlank_append hlead, skipBlank_cons (by decide)] at hskip
    revert hskip
    cases k <;> exact fun hskip => absurd (List.cons.inj hskip).1 (by decide)

/-- Items that are told apart where they end are those of one list of items only. -/
theorem Items.unique {P : List Char → Prop} (k : Bracket) (hstart : ∀ x, P x → ∃ c cs, x = c :: cs ∧ IsStart c)
    (happend : ∀ {x x' rest rest' : List Char}, P x → P x' → Ends rest → Ends rest' → x ++ rest = x' ++ rest' → x = x')
    {b b' rest rest' : List Char} (hb : Blank b) (hb' : Blank b') {ts : List (List Char)} :
    ∀ {ts' : List (List Char)} {first : Bool} {u u' : List Char}, Items first ts u → Items first ts' u' →
      (∀ x ∈ ts, P x) → (∀ x ∈ ts', P x) → u ++ (b ++ k.closer :: rest) = u' ++ (b' ++ k.closer :: rest') →
        ts = ts' := by
  induction ts with
  | nil =>
    intro ts' first u u' hu hu' _ hts' heq
    cases hu
    cases hu' with
    | nil => rfl
    | cons hlead hu' =>
      obtain ⟨c, cs, rfl, hc⟩ := hstart _ (hts' _ List.mem_cons_self)
      simp only [List.append_assoc, List.cons_append, List.nil_append] at heq
      exact absurd heq.symm (hlead.ne_closer hb k hc)
  | cons x ts ih =>
    intro ts' first u u' hu hu' hts hts' heq
    have hx := hts x List.mem_cons_self
    obtain ⟨c, cs, rfl, hc⟩ := hstart x hx
    cases hu with
    | cons hlead hu =>
      cases hu' with
      | nil =>
        simp only [List.append_assoc, List.cons_append, List.nil_append] at heq
        exact absurd heq (hlead.ne_closer hb' k hc)
      | @cons _ _ x' _ _ hlead' hu' =>
        have hx' := hts' x' List.mem_cons_self
        obtain ⟨c', cs', rfl, hc'⟩ := hstart x' hx'
        simp only [List.append_assoc, List.cons_append] at heq
        have htext := hlead.cons_eq hlead' hc hc' heq
        rw [← List.cons_append, ← List.cons_append] at htext
        have hitem := happend hx hx' (hu.ends (hb.ends_closer (closer_cases k) rest))
          (hu'.ends (hb'.ends_closer (closer_cases k) rest')) htext
        rw [← hitem] at htext ⊢
        have htail := ih hu hu' (fun y hy => hts y (List.mem_cons_of_mem _ hy))
          (fun y hy => hts' y (List.mem_cons_of_mem _ hy)) (List.append_cancel_left htext)
        rw [htail]

theorem Enclosed.unique {P : List Char → Prop} (k : Bracket) (hstart : ∀ x, P x → ∃ c cs, x = c :: cs ∧ IsStart c)
    (happend : ∀ {x x' rest rest' : List Char}, P x → P x' → Ends rest → Ends rest' → x ++ rest = x' ++ rest' → x = x')
    {ts ts' : List (List Char)} {t : List Char} (h : Enclosed k.opener k.closer ts t)
    (h' : Enclosed k.opener k.closer ts' t) (hts : ∀ x ∈ ts, P x) (hts' : ∀ x ∈ ts', P x) : ts = ts' := by
  obtain ⟨u, b, hu, hb, rfl⟩ := h
  obtain ⟨u', b', hu', hb', heq⟩ := h'
  exact Items.unique k hstart happend hb hb' hu hu' hts hts' (List.cons.inj heq).2

theorem ListOf.unique {ts ts' : List (List Char)} {t : List Char} (h : ListOf ts t) (h' : ListOf ts' t)
    (hts : ∀ x ∈ ts, Grammatical x) (hts' : ∀ x ∈ ts', Grammatical x) : ts = ts' :=
  Enclosed.unique .list (fun _ hx => hx.start)
    (fun hx hx' hrest hrest' heq => hx.eq_of_append hx' Blank.nil Blank.nil (fun _ => hrest) (fun _ => hrest') heq)
    h h' hts hts'

theorem ObjectOf.unique {ms ms' : List Member} {t : List Char} (h : ObjectOf ms t) (h' : ObjectOf ms' t)
    (hms : GrammaticalMembers ms) (hms' : GrammaticalMembers ms') : ms = ms' := by
  obtain ⟨ts, hts, henclosed⟩ := h
  obtain ⟨ts', hts', henclosed'⟩ := h'
  have hitem : ∀ {ms : List Member} {ts : List (List Char)}, GrammaticalMembers ms → List.Forall₂ MemberText ms ts →
      ∀ x ∈ ts, ∃ m, MemberText m x ∧ StringText m.1 ∧ Grammatical m.2 := by
    intro ms ts hms hts x hx
    obtain ⟨m, hm, hx⟩ := exists_left_of_forall₂ hts hx
    exact ⟨m, hx, hms m hm⟩
  have htexts : ts = ts' := by
    refine Enclosed.unique .object ?_ ?_ henclosed henclosed' (hitem hms hts) (hitem hms' hts')
    · rintro x ⟨m, ⟨hb, hb'⟩, -, -⟩
      exact ⟨_, _, rfl, .inr (by decide)⟩
    · rintro x x' rest rest' ⟨m, hx, hkey, hv⟩ ⟨m', hx', hkey', hv'⟩ hrest hrest' heq
      exact (hx.eq_of_append hx' hkey hkey' hv hv' hrest hrest' heq).2
  subst htexts
  clear henclosed henclosed'
  induction hts generalizing ms' with
  | nil =>
    cases hts'
    rfl
  | @cons m x ms ts hx _ ih =>
    cases hts' with
    | @cons m' _ ms' _ hx' hts' =>
      obtain ⟨⟨hkey, hv⟩, hms⟩ := List.forall_mem_cons.1 hms
      obtain ⟨⟨hkey', hv'⟩, hms'⟩ := List.forall_mem_cons.1 hms'
      have hm := (hx.eq_of_append hx' hkey hkey' hv hv' Ends.nil Ends.nil rfl).1
      rw [hm, ih hms hms' hts']

theorem ListOf.not_objectOf {ts : List (List Char)} {ms : List Member} {t : List Char} (h : ListOf ts t) :
    ¬ObjectOf ms t := by
  rintro ⟨xs, -, u', b', -, -, heq⟩
  obtain ⟨u, b, -, -, rfl⟩ := h
  exact absurd (List.cons.inj heq).1 (by decide)

end ProbeSuite.Json
