import ProbeSuite.Proofs.Toml.Sound

/-!
# What documents say

* `Meaning`, `Node.meaning`, `Entries.meaning` : values and tables, without their layout and order;
* `Entries.meaning_eq` : what a table says of a key is the meaning of its value;
* `Entries.meaning_perm` : the order of entries does not matter;
* `Entries.meaning_of_scalar?` : keys whose values hold no others.
-/

namespace ProbeSuite.Toml

/-- What a value says. A table has at most one value for a name, and its entries are in no order. -/
inductive Meaning where
  | scalar (s : Scalar)
  | list (elements : List Meaning)
  | table (get? : List Char → Option Meaning)

deriving instance DecidableEq for Real, Scalar

mutual

/-- What a value says, wherever it stands and however it is written. -/
def Node.meaning : Node → Meaning
  | .scalar s _ => .scalar s
  | .array vs _ => .list (meanings vs)
  | .table _ es _ => .table (Entries.meaning es)
  | .tables ts => .list (tableMeanings ts)

/-- What each value of a list says. -/
def meanings : List Node → List Meaning
  | [] => []
  | v :: vs => v.meaning :: meanings vs

/-- What a table says of a name. -/
def Entries.meaning : Entries → List Char → Option Meaning
  | [], _ => none
  | (k, v) :: es, name => if k.name = name then some v.meaning else Entries.meaning es name

/-- What each table of a list says. -/
def tableMeanings : List (Span × Entries) → List Meaning
  | [] => []
  | (_, es) :: ts => .table (Entries.meaning es) :: tableMeanings ts

end

namespace Entries

variable {es es' : Entries} {name : List Char}

theorem meaning_nil (name : List Char) : Entries.meaning [] name = none := by
  rw [Entries.meaning]

theorem meaning_cons (k : Key) (v : Node) (es : Entries) (name : List Char) :
    Entries.meaning ((k, v) :: es) name = if k.name = name then some v.meaning else Entries.meaning es name := by
  rw [Entries.meaning]

theorem get?_cons (k : Key) (v : Node) (es : Entries) (name : List Char) :
    get? name ((k, v) :: es) = if k.name = name then some v else get? name es := by
  rw [get?, List.find?_cons]
  by_cases hk : k.name = name
  · simp [hk]
  · simp [hk, get?]

/-- What a table says of a key is the meaning of its value. -/
theorem meaning_eq (es : Entries) (name : List Char) : es.meaning name = (es.get? name).map Node.meaning := by
  induction es with
  | nil => exact meaning_nil name
  | cons e es ih =>
    obtain ⟨k, v⟩ := e
    rw [meaning_cons, get?_cons]
    split
    · rfl
    · exact ih

theorem meaning_eq_none_iff : es.meaning name = none ↔ name ∉ es.names := by
  rw [meaning_eq, Option.map_eq_none_iff, ← get?_isSome_iff, Option.not_isSome_iff_eq_none]

theorem meaning_eq_some_iff (h : es.names.Nodup) {m : Meaning} :
    es.meaning name = some m ↔ ∃ e ∈ es, e.1.name = name ∧ e.2.meaning = m := by
  induction es with
  | nil => simp [meaning_nil]
  | cons e es ih =>
    obtain ⟨k, v⟩ := e
    obtain ⟨hnot, hnodup⟩ := List.nodup_cons.1 h
    rw [meaning_cons]
    split
    · next hk =>
      have hrest : ¬∃ e ∈ es, e.1.name = name ∧ e.2.meaning = m := by
        rintro ⟨e, he, hname, -⟩
        exact hnot (List.mem_map.2 ⟨e, he, hname.trans hk.symm⟩)
      simp [hk, hrest]
    · next hk => simp [hk, ih hnodup]

/-- The order of the entries of a table does not matter. -/
theorem meaning_perm (h : es.names.Nodup) (hperm : es'.Perm es) : es'.meaning = es.meaning := by
  have h' : es'.names.Nodup := (hperm.map _).nodup_iff.2 h
  funext name
  ext m
  rw [meaning_eq_some_iff h', meaning_eq_some_iff h]
  simp only [hperm.mem_iff]

/-- The value of a key, if it holds no others. -/
def scalar? (name : List Char) (es : Entries) : Option Scalar :=
  match es.get? name with
  | some (.scalar s _) => some s
  | _ => none

theorem meaning_of_scalar? {s : Scalar} (h : scalar? name es = some s) : es.meaning name = some (.scalar s) := by
  rw [meaning_eq]
  unfold scalar? at h
  split at h
  · next hget =>
    cases h
    rw [hget]
    rfl
  · cases h

end Entries

end ProbeSuite.Toml
