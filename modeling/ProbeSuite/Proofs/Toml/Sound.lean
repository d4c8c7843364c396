import ProbeSuite.Toml.Document

/-!
# What tables hold

* `Node.Sound`, `Entries.Sound` : integers fit 64 bits, and no table gives a key two values;
* `Entries.Keeps` : a change of a table leaves it sound; one lemma for each kind of change;
* `Reader.Sound` : a reader reads only sound values; one lemma for each kind of value;
* `document_sound` : the table of a document is sound.
-/

namespace ProbeSuite.Toml

/-- Integers fit 64 bits. -/
def Scalar.Fits : Scalar → Prop
  | .integer n => -2 ^ 63 ≤ n ∧ n < 2 ^ 63
  | _ => True

/-- The keys of a table. -/
def Entries.names (es : Entries) : List (List Char) := es.map fun e => e.1.name

/-- Integers fit 64 bits, and no table has two values for a key. -/
inductive Node.Sound : Node → Prop where
  | scalar {s : Scalar} {span : Span} : s.Fits → Sound (.scalar s span)
  | array {vs : List Node} {span : Span} : (∀ v ∈ vs, Sound v) → Sound (.array vs span)
  | table {origin : Origin} {es : Entries} {span : Option Span} :
      es.names.Nodup → (∀ e ∈ es, Sound e.2) → Sound (.table origin es span)
  | tables {ts : List (Span × Entries)} :
      (∀ t ∈ ts, t.2.names.Nodup) → (∀ t ∈ ts, ∀ e ∈ t.2, Sound e.2) → Sound (.tables ts)

structure Entries.Sound (es : Entries) : Prop where
  nodup : es.names.Nodup
  values : ∀ e ∈ es, e.2.Sound

theorem Node.sound_table_iff {origin : Origin} {es : Entries} {span : Option Span} :
    (Node.table origin es span).Sound ↔ es.Sound :=
  ⟨fun | .table hnodup hvalues => ⟨hnodup, hvalues⟩, fun h => .table h.nodup h.values⟩

theorem Node.sound_tables_iff {ts : List (Span × Entries)} : (Node.tables ts).Sound ↔ ∀ t ∈ ts, t.2.Sound :=
  ⟨fun | .tables hnodup hvalues => fun t ht => ⟨hnodup t ht, hvalues t ht⟩,
    fun h => .tables (fun t ht => (h t ht).nodup) fun t ht => (h t ht).values⟩

namespace Entries

variable {es es' : Entries} {k : Key} {v : Node}

theorem Sound.nil : Sound [] := ⟨.nil, fun _ h => absurd h List.not_mem_nil⟩

theorem get?_isSome_iff {name : List Char} : (get? name es).isSome ↔ name ∈ es.names := by
  rw [get?, Option.isSome_map, List.find?_isSome, names, List.mem_map]
  simp only [decide_eq_true_eq]

theorem mem_of_get? {name : List Char} (h : get? name es = some v) : ∃ e ∈ es, e.1.name = name ∧ e.2 = v := by
  obtain ⟨e, hfind, hv⟩ := Option.map_eq_some_iff.1 h
  exact ⟨e, List.mem_of_find?_eq_some hfind, by simpa using List.find?_some hfind, hv⟩

/-! ## Changes of tables -/

/-- A change that leaves a table sound, if it can be made. -/
def Keeps (f : Entries → Option Entries) : Prop := ∀ es es', Sound es → f es = some es' → Sound es'

theorem Keeps.foldlM {ι : Type} {f : Entries → ι → Option Entries} {is : List ι}
    (h : ∀ i ∈ is, Keeps fun es => f es i) : Keeps fun es => is.foldlM f es := by
  intro es es' hes heq
  induction is generalizing es with
  | nil =>
    cases heq
    exact hes
  | cons i is ih =>
    obtain ⟨next, hnext, hrest⟩ := Option.bind_eq_some_iff.1 (List.foldlM_cons.symm.trans heq)
    exact ih (fun j hj => h j (List.mem_cons_of_mem i hj)) next (h i List.mem_cons_self es next hes hnext) hrest

theorem keeps_insert? (hv : v.Sound) : Keeps (insert? k v) := by
  intro es es' hes heq
  unfold insert? at heq
  split at heq
  · cases heq
  · next hnone =>
    cases heq
    rw [get?_isSome_iff] at hnone
    refine ⟨?_, ?_⟩
    · rw [names, List.map_append]
      exact (List.perm_append_singleton _ _).nodup_iff.2 (List.nodup_cons.2 ⟨hnone, hes.nodup⟩)
    · intro e he
      rcases List.mem_append.1 he with hold | hnew
      · exact hes.values e hold
      · rw [List.mem_singleton.1 hnew]
        exact hv

theorem Sound.erase (h : es.Sound) (name : List Char) : Sound (es.erase name) :=
  ⟨h.nodup.sublist (List.filter_sublist.map _), fun e he => h.values e ((List.mem_filter.1 he).1)⟩

/-- Replacing the value of a key adds the key at most. -/
theorem names_alter? {f : Option Node → Option Node} (h : alter? k f es = some es') :
    es'.names = es.names ∨ k.name ∉ es.names ∧ es'.names = es.names ++ [k.name] := by
  induction es generalizing es' with
  | nil =>
    obtain ⟨v, -, hv⟩ := Option.bind_eq_some_iff.1 h
    cases hv
    exact .inr ⟨List.not_mem_nil, rfl⟩
  | cons e es ih =>
    obtain ⟨k', v'⟩ := e
    unfold alter? at h
    split at h
    · obtain ⟨v, -, hv⟩ := Option.bind_eq_some_iff.1 h
      cases hv
      exact .inl rfl
    · next hne =>
      obtain ⟨rest, hrest, hv⟩ := Option.bind_eq_some_iff.1 h
      cases hv
      rcases ih hrest with hsame | ⟨hnot, hnew⟩
      · exact .inl (congrArg (List.cons k'.name) hsame)
      · refine .inr ⟨?_, congrArg (List.cons k'.name) hnew⟩
        intro hmem
        rcases List.mem_cons.1 hmem with heq | hmem
        · exact hne heq.symm
        · exact hnot hmem

/-- Every value is an old one, or what was made of one. -/
theorem mem_alter? {f : Option Node → Option Node} (h : alter? k f es = some es') {e : Key × Node} (he : e ∈ es') :
    e ∈ es ∨ f none = some e.2 ∨ ∃ old ∈ es, f (some old.2) = some e.2 := by
  induction es generalizing es' with
  | nil =>
    obtain ⟨v, hf, hv⟩ := Option.bind_eq_some_iff.1 h
    cases hv
    rw [List.mem_singleton.1 he]
    exact .inr (.inl hf)
  | cons e' es ih =>
    obtain ⟨k', v'⟩ := e'
    unfold alter? at h
    split at h
    · obtain ⟨v, hf, hv⟩ := Option.bind_eq_some_iff.1 h
      cases hv
      rcases List.mem_cons.1 he with rfl | he
      · exact .inr (.inr ⟨_, List.mem_cons_self, hf⟩)
      · exact .inl (List.mem_cons_of_mem _ he)
    · obtain ⟨rest, hrest, hv⟩ := Option.bind_eq_some_iff.1 h
      cases hv
      rcases List.mem_cons.1 he with rfl | he
      · exact .inl List.mem_cons_self
      · rcases ih hrest he with hold | hnew | ⟨old, hold, hf⟩
        · exact .inl (List.mem_cons_of_mem _ hold)
        · exact .inr (.inl hnew)
        · exact .inr (.inr ⟨old, List.mem_cons_of_mem _ hold, hf⟩)

theorem keeps_alter? {f : Option Node → Option Node}
    (hf : ∀ old v, (∀ w ∈ old, w.Sound) → f old = some v → v.Sound) : Keeps (alter? k f) := by
  intro es es' hes heq
  refine ⟨?_, ?_⟩
  · rcases names_alter? heq with hsame | ⟨hnot, hnew⟩
    · rw [hsame]
      exact hes.nodup
    · rw [hnew]
      exact (List.perm_append_singleton _ _).nodup_iff.2 (List.nodup_cons.2 ⟨hnot, hes.nodup⟩)
  · intro e he
    rcases mem_alter? heq he with hold | hnew | ⟨old, hold, hf'⟩
    · exact hes.values e hold
    · exact hf none e.2 nofun hnew
    · refine hf (some old.2) e.2 ?_ hf'
      rintro _ ⟨⟩
      exact hes.values old hold

theorem alterLast?_sound {f : Entries → Option Entries} (hf : Keeps f) {ts ts' : List (Span × Entries)}
    (hts : ∀ t ∈ ts, Sound t.2) (h : alterLast? f ts = some ts') : ∀ t ∈ ts', Sound t.2 := by
  induction ts generalizing ts' with
  | nil => cases h
  | cons t ts ih =>
    obtain ⟨span, es⟩ := t
    cases ts with
    | nil =>
      obtain ⟨es', hes, hv⟩ := Option.bind_eq_some_iff.1 h
      cases hv
      intro t ht
      rw [List.mem_singleton.1 ht]
      exact hf es es' (hts _ List.mem_cons_self) hes
    | cons u us =>
      obtain ⟨rest, hrest, hv⟩ := Option.bind_eq_some_iff.1 h
      cases hv
      intro t ht
      rcases List.mem_cons.1 ht with rfl | ht
      · exact hts _ List.mem_cons_self
      · exact ih (fun t ht => hts t (List.mem_cons_of_mem _ ht)) hrest t ht

/-- A table whose entries were changed. -/
theorem Keeps.table {f : Entries → Option Entries} (hf : Keeps f) {origin : Origin} {span : Option Span}
    (hes : Sound es) (h : (f es >>= fun inner => some (.table origin inner span)) = some v) : v.Sound := by
  obtain ⟨inner, hinner, hv⟩ := Option.bind_eq_some_iff.1 h
  cases hv
  exact Node.sound_table_iff.2 (hf es inner hes hinner)

/-- A list of tables, of which the last was changed. -/
theorem Keeps.tables {f : Entries → Option Entries} (hf : Keeps f) {ts : List (Span × Entries)}
    (hts : (Node.tables ts).Sound) (h : (alterLast? f ts >>= fun ts => some (.tables ts)) = some v) : v.Sound := by
  obtain ⟨ts', hlast, hv⟩ := Option.bind_eq_some_iff.1 h
  cases hv
  exact Node.sound_tables_iff.2 (alterLast?_sound hf (Node.sound_tables_iff.1 hts) hlast)

theorem keeps_defineBelow? {last : Key} (hv : v.Sound) (ks : List Key) (origin : Origin) :
    Keeps (defineBelow? last v origin ks) := by
  induction ks generalizing origin with
  | nil =>
    intro es es' hes heq
    unfold defineBelow? at heq
    split at heq
    · exact keeps_insert? hv es es' hes heq
    · cases heq
  | cons k ks ih =>
    apply keeps_alter?
    intro old w hold hw
    split at hw
    · exact (ih .dotted).table .nil hw
    · -- tables of headers and braces are closed
      split at hw
      · exact (ih _).table (Node.sound_table_iff.1 (hold _ rfl)) hw
      · cases hw
    · exact (ih .header).tables (hold _ rfl) hw
    · cases hw

theorem keeps_define? {parents : List Key} {last : Key} (hv : v.Sound) : Keeps (define? parents last v) := by
  unfold define?
  split
  · exact keeps_insert? hv
  · exact keeps_defineBelow? hv parents .dotted

theorem keeps_below? {f : Entries → Option Entries} (hf : Keeps f) (ks : List Key) : Keeps (below? f ks) := by
  induction ks with
  | nil => exact hf
  | cons k ks ih =>
    apply keeps_alter?
    intro old w hold hw
    split at hw
    · exact ih.table .nil hw
    · cases hw
    · exact ih.table (Node.sound_table_iff.1 (hold _ rfl)) hw
    · exact ih.tables (hold _ rfl) hw
    · cases hw

theorem keeps_defineAll? {pairs : List (List Key × Key × Node)} (h : ∀ p ∈ pairs, p.2.2.Sound) :
    Keeps (defineAll? pairs) :=
  Keeps.foldlM fun p hp => keeps_define? (h p hp)

end Entries

/-! ## Sections -/

/-- The values of a section are sound. -/
def Section.Sound (s : Section) : Prop := ∀ p ∈ s.pairs, p.2.2.Sound

section Header

variable {h : Header} {pairs : List (List Key × Key × Node)}

theorem Header.keeps_openTable? (hpairs : ∀ p ∈ pairs, p.2.2.Sound) : Entries.Keeps (h.openTable? pairs) := by
  intro es es' hes heq
  have hopened : ∀ inner, Entries.Sound inner → (Entries.defineAll? pairs inner).bind (fun inner =>
      Entries.insert? h.last (.table .header inner (some (h.tableSpan pairs))) (es.erase h.last.name)) = some es' →
      Entries.Sound es' := by
    intro inner hinner heq
    obtain ⟨defined, hdefined, heq⟩ := Option.bind_eq_some_iff.1 heq
    have htable := Entries.keeps_defineAll? hpairs inner defined hinner hdefined
    exact Entries.keeps_insert? (Node.sound_table_iff.2 htable) _ es' (hes.erase h.last.name) heq
  unfold Header.openTable? at heq
  dsimp only at heq
  split at heq
  · exact hopened [] .nil heq
  · -- a table that deeper headers made is one of the entries
    next inner _ hget =>
    obtain ⟨e, he, -, hv⟩ := Entries.mem_of_get? hget
    exact hopened inner (Node.sound_table_iff.1 (hv ▸ hes.values e he)) heq
  · cases heq

theorem Header.keeps_openElement? (hpairs : ∀ p ∈ pairs, p.2.2.Sound) : Entries.Keeps (h.openElement? pairs) := by
  intro es es' hes heq
  obtain ⟨inner, hinner, heq⟩ := Option.bind_eq_some_iff.1 heq
  have hsound := Entries.keeps_defineAll? hpairs [] inner .nil hinner
  refine Entries.keeps_alter? (fun old v hold hv => ?_) es es' hes heq
  split at hv
  · cases hv
    rw [Node.sound_tables_iff]
    intro t ht
    rw [List.mem_singleton.1 ht]
    exact hsound
  · cases hv
    rw [Node.sound_tables_iff]
    intro t ht
    rcases List.mem_append.1 ht with hearlier | hnew
    · exact Node.sound_tables_iff.1 (hold _ rfl) t hearlier
    · rw [List.mem_singleton.1 hnew]
      exact hsound
  · cases hv

theorem Section.keeps_add? {s : Section} (hs : s.Sound) : Entries.Keeps s.add? := by
  unfold Section.add?
  split
  · exact Entries.keeps_defineAll? hs
  · split
    · exact Entries.keeps_below? (Header.keeps_openElement? hs) _
    · exact Entries.keeps_below? (Header.keeps_openTable? hs) _

end Header

/-! ## Readers -/

/-- Every value that a reader reads is sound. -/
def Reader.Sound (read : Reader) : Prop := ∀ cs v rest, read cs = some (v, rest) → v.Sound

variable {read : Reader}

theorem elementsFrom_sound (hread : Reader.Sound read) {bound cs rest : List Char} {vs : List Node}
    (h : elementsFrom read bound cs = some (vs, rest)) : ∀ v ∈ vs, v.Sound := by
  induction bound generalizing cs vs with
  | nil => cases h
  | cons b bound ih =>
    obtain ⟨start, -, h⟩ := Option.bind_eq_some_iff.1 h
    split at h
    · cases h
      exact fun v hv => absurd hv List.not_mem_nil
    · obtain ⟨⟨v, after⟩, hv, h⟩ := Option.bind_eq_some_iff.1 h
      obtain ⟨next, -, h⟩ := Option.bind_eq_some_iff.1 h
      have hfirst := hread _ v after hv
      split at h
      · cases h
        exact List.forall_mem_singleton.2 hfirst
      · obtain ⟨⟨more, after'⟩, hmore, h⟩ := Option.bind_eq_some_iff.1 h
        cases h
        exact List.forall_mem_cons.2 ⟨hfirst, ih hmore⟩
      · cases h

theorem pair_sound (hread : Reader.Sound read) {cs rest : List Char} {p : List Key × Key × Node}
    (h : pair read cs = some (p, rest)) : p.2.2.Sound := by
  obtain ⟨⟨⟨parents, last⟩, after⟩, -, h⟩ := Option.bind_eq_some_iff.1 h
  obtain ⟨text, -, h⟩ := Option.bind_eq_some_iff.1 h
  obtain ⟨⟨v, after'⟩, hv, h⟩ := Option.bind_eq_some_iff.1 h
  cases h
  exact hread _ v after' hv

theorem pairsFrom_sound (hread : Reader.Sound read) {bound cs rest : List Char} {es es' : Entries} (hes : es.Sound)
    (h : pairsFrom read bound es cs = some (es', rest)) : Entries.Sound es' := by
  induction bound generalizing cs es with
  | nil => cases h
  | cons b bound ih =>
    -- the entries so far are sound, with one more they stay so
    obtain ⟨⟨⟨parents, last, v⟩, after⟩, hpair, h⟩ := Option.bind_eq_some_iff.1 h
    obtain ⟨next, hnext, h⟩ := Option.bind_eq_some_iff.1 h
    have hsound : Entries.Sound next := Entries.keeps_define? (pair_sound hread hpair) es next hes hnext
    split at h
    · cases h
      exact hsound
    · exact ih hsound h
    · cases h

/-! ### Scalars -/

theorem fits_of_word? {n m : Int} (h : word? n = some m) : (Scalar.integer m).Fits := by
  unfold word? at h
  split at h
  · next hrange =>
    cases h
    exact hrange
  · cases h

theorem basedInteger_fits {base : Nat} {cs rest : List Char} {s : Scalar} (h : basedInteger base cs = some (s, rest)) :
    s.Fits := by
  obtain ⟨⟨ds, after⟩, -, h⟩ := Option.bind_eq_some_iff.1 h
  obtain ⟨n, hn, h⟩ := Option.bind_eq_some_iff.1 h
  cases h
  exact fits_of_word? hn

theorem integer_fits {cs rest : List Char} {s : Scalar} (h : integer cs = some (s, rest)) : s.Fits := by
  unfold integer at h
  split at h
  · exact basedInteger_fits h
  · exact basedInteger_fits h
  · exact basedInteger_fits h
  · obtain ⟨⟨ds, after⟩, -, h⟩ := Option.bind_eq_some_iff.1 h
    obtain ⟨n, hn, h⟩ := Option.bind_eq_some_iff.1 h
    cases h
    exact fits_of_word? hn

theorem real_fits {cs rest : List Char} {s : Scalar} (h : real cs = some (s, rest)) : s.Fits := by
  obtain ⟨⟨whole, afterWhole⟩, -, h⟩ := Option.bind_eq_some_iff.1 h
  obtain ⟨⟨part, afterPart⟩, -, h⟩ := Option.bind_eq_some_iff.1 h
  obtain ⟨⟨e, after⟩, -, h⟩ := Option.bind_eq_some_iff.1 h
  dsimp only at h
  split at h
  · exact integer_fits h
  · obtain ⟨x, -, h⟩ := Option.bind_eq_some_iff.1 h
    cases h
    trivial

theorem special_fits {minus : Bool} {cs rest : List Char} {s : Scalar} (h : special minus cs = some (s, rest)) :
    s.Fits := by
  unfold special at h
  split at h
  · cases h
    trivial
  · cases h
    trivial
  · cases h

theorem number_fits {cs rest : List Char} {s : Scalar} (h : number cs = some (s, rest)) : s.Fits := by
  unfold number at h
  split at h
  · obtain ⟨day, -, h⟩ := Option.bind_eq_some_iff.1 h
    obtain ⟨after, -, h⟩ := Option.bind_eq_some_iff.1 h
    cases h
    trivial
  · split at h
    · obtain ⟨after, -, h⟩ := Option.bind_eq_some_iff.1 h
      cases h
      trivial
    · split at h
      · next hspecial =>
        cases h
        exact special_fits hspecial
      · split at h
        · exact integer_fits h
        · exact integer_fits h
        · exact integer_fits h
        · exact real_fits h

theorem scalar_fits {cs rest : List Char} {s : Scalar} (h : valueWithin.scalar cs = some (s, rest)) : s.Fits := by
  unfold valueWithin.scalar at h
  split at h
  · cases h
    trivial
  · cases h
    trivial
  · exact special_fits h
  · exact special_fits h
  · split at h
    · obtain ⟨⟨text, after⟩, -, h⟩ := Option.bind_eq_some_iff.1 h
      cases h
      trivial
    · exact number_fits h
  · cases h

/-! ### Values and documents -/

theorem scalar_sound {cs rest : List Char} {v : Node} (h : (valueWithin.scalar cs >>= fun r =>
    some (.scalar r.1 ⟨cs, r.2⟩, r.2)) = some (v, rest)) : v.Sound := by
  obtain ⟨⟨s, after⟩, hs, hv⟩ := Option.bind_eq_some_iff.1 h
  cases hv
  exact .scalar (scalar_fits hs)

theorem valueWithin_sound (levels : Nat) : Reader.Sound (valueWithin levels) := by
  induction levels with
  | zero =>
    intro cs v rest h
    unfold valueWithin at h
    split at h
    · cases h
    · cases h
    · exact scalar_sound h
  | succ levels ih =>
    intro cs v rest h
    unfold valueWithin at h
    split at h
    · obtain ⟨⟨vs, after⟩, hvs, h⟩ := Option.bind_eq_some_iff.1 h
      cases h
      exact .array (elementsFrom_sound ih hvs)
    · dsimp only at h
      split at h
      · cases h
        exact Node.sound_table_iff.2 .nil
      · obtain ⟨⟨es, after⟩, hes, h⟩ := Option.bind_eq_some_iff.1 h
        cases h
        exact Node.sound_table_iff.2 (pairsFrom_sound ih .nil hes)
    · exact scalar_sound h

theorem sectionsFrom_sound {bound cs : List Char} {pairs : List (List Key × Key × Node)} {later : List Section}
    (h : sectionsFrom bound cs = some (pairs, later)) : (∀ p ∈ pairs, p.2.2.Sound) ∧ ∀ s ∈ later, s.Sound := by
  induction bound generalizing cs pairs later with
  | nil => cases h
  | cons b bound ih =>
    unfold sectionsFrom at h
    split at h
    · cases h
      exact ⟨fun _ hp => absurd hp List.not_mem_nil, fun _ hs => absurd hs List.not_mem_nil⟩
    · obtain ⟨after, -, h⟩ := Option.bind_eq_some_iff.1 h
      exact ih h
    · exact ih h
    · obtain ⟨after, -, h⟩ := Option.bind_eq_some_iff.1 h
      exact ih h
    · obtain ⟨⟨header, after⟩, -, h⟩ := Option.bind_eq_some_iff.1 h
      obtain ⟨⟨inner, rest⟩, hrest, h⟩ := Option.bind_eq_some_iff.1 h
      cases h
      obtain ⟨hpairs, hlater⟩ := ih hrest
      exact ⟨fun _ hp => absurd hp List.not_mem_nil, List.forall_mem_cons.2 ⟨hpairs, hlater⟩⟩
    · obtain ⟨⟨p, after⟩, hp, h⟩ := Option.bind_eq_some_iff.1 h
      obtain ⟨line, -, h⟩ := Option.bind_eq_some_iff.1 h
      obtain ⟨⟨more, rest⟩, hrest, h⟩ := Option.bind_eq_some_iff.1 h
      cases h
      obtain ⟨hpairs, hlater⟩ := ih hrest
      exact ⟨List.forall_mem_cons.2 ⟨pair_sound (valueWithin_sound maxDepth) hp, hpairs⟩, hlater⟩

/-- **The table of a document is sound**: its integers fit 64 bits, and no key in it or below has two values. -/
theorem document_sound {cs : List Char} {es : Entries} (h : document cs = some es) : es.Sound := by
  obtain ⟨all, hall, h⟩ := Option.bind_eq_some_iff.1 h
  obtain ⟨⟨pairs, later⟩, hsections, hall⟩ := Option.bind_eq_some_iff.1 hall
  cases hall
  obtain ⟨hpairs, hlater⟩ := sectionsFrom_sound hsections
  have hsound : ∀ s ∈ (⟨none, pairs⟩ :: later : List Section), s.Sound := List.forall_mem_cons.2 ⟨hpairs, hlater⟩
  exact Entries.Keeps.foldlM (fun s hs => Section.keeps_add? (hsound s hs)) [] es .nil h

end ProbeSuite.Toml
