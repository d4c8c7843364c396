import ProbeSuite.Json.Reader

/-!
# Records

A record has named fields in a fixed order. Its text is an object with the fields as members in any order,
among members of other names, which are passed over; or a list of the fields in their own order. Every field
must be there once. The fields read so far are gathered in a draft.

* `Field` : a name, the reader of its value, and whether a draft has it;
* `Record` : the fields, and how a full draft becomes a value;
* `Record.read` : a record, written either way.
-/

namespace ProbeSuite.Json

/-- A field of a record whose drafts are of type `σ`. -/
structure Field (σ : Type) where
  name : String
  isSet : σ → Bool
  read : σ → Reader σ

/-- A record: its name in messages, its fields, the draft without any, and the value of a draft, which is the
name of a field instead while that is missing. -/
structure Record (σ α : Type) where
  name : String
  fields : List (Field σ)
  draft : σ
  build : σ → Except String α

namespace Record

variable {σ α : Type}

/-- The text after the opening quote of the next key of an object; there is none in front of the closing
brace. -/
def nextKey (first : Bool) (cs : List Char) : Except Fault (Option (List Char)) :=
  match skipBlank cs with
  | [] => .error (.at .eofObject [])
  | '\x7d' :: _ => .ok none
  | c :: rest =>
    if first then
      if c = '\x22' then .ok (some rest) else .error (.past .keyNotString (c :: rest))
    else if c = ',' then
      match skipBlank rest with
      | [] => .error (.at .eofValue [])
      | '\x22' :: rest => .ok (some rest)
      | '\x7d' :: rest => .error (.past .trailingComma ('\x7d' :: rest))
      | cs => .error (.past .keyNotString cs)
    else .error (.past .expectedCommaOrBrace (c :: rest))

/-- The text after the closing brace of an object, in front of which only blanks are left. -/
def endObject (cs : List Char) : List Char :=
  match skipBlank cs with
  | '\x7d' :: rest => rest
  | cs => cs

/-- The draft with one more member, whose key was read. -/
def member (r : Record σ α) (s : σ) (key cs : List Char) : Except Fault (σ × List Char) :=
  match r.fields.find? (·.name.toList = key) with
  | some f =>
    if f.isSet s then .error (.at (.duplicateField f.name) (endObject cs))
    else do f.read s (← colon cs)
  | none => do .ok (s, ← skipValue (← colon cs))

/-- The draft after the members up to the closing brace. The first list only bounds the recursion: every
member has a character, so the text itself is long enough. -/
def membersFrom (r : Record σ α) :
    (bound : List Char) → (first : Bool) → (s : σ) → List Char → Except Fault (σ × List Char)
  | [], _, _, cs => .error (.at .eofObject cs)
  | _ :: bound, first, s, cs => do
    match ← nextKey first cs with
    | none => .ok (s, cs)
    | some cs =>
      let (key, cs) ← stringBody cs
      let (s, cs) ← member r s key cs
      membersFrom r bound false s cs

/-- The draft after elements for the given fields; `count` elements stand before them. -/
def elements (r : Record σ α) :
    (fields : List (Field σ)) → (count : Nat) → (s : σ) → List Char → Except Fault (σ × List Char)
  | [], _, s, cs => .ok (s, cs)
  | f :: fields, count, s, cs => do
    match ← nextElement (count = 0) cs with
    | none => .error (.at (.invalidLength count r.name r.fields.length) (← endList cs))
    | some cs =>
      let (s, cs) ← f.read s cs
      elements r fields (count + 1) s cs

/-- The value of a draft; `cs` follows the record. -/
def complete (r : Record σ α) (s : σ) (cs : List Char) : Except Fault (α × List Char) :=
  match r.build s with
  | .ok a => .ok (a, cs)
  | .error name => .error (.at (.missingField name) cs)

/-- A record, as an object or as a list. -/
def read (r : Record σ α) (cs : List Char) : Except Fault (α × List Char) :=
  match skipBlank cs with
  | [] => .error (.at .eofValue [])
  | '\x7b' :: rest => do
    let (s, rest) ← membersFrom r ('\x7b' :: rest) true r.draft rest
    complete r s (endObject rest)
  | '[' :: rest => do
    let (s, rest) ← elements r r.fields 0 r.draft rest
    complete r s (← endList rest)
  | cs => .error (mismatch s!"struct {r.name}" cs)

end Record

end ProbeSuite.Json
