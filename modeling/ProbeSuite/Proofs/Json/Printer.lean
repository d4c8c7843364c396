import ProbeSuite.Json.Printer
import ProbeSuite.Proofs.Sink

/-!
# Printing JSON to a sink

* `Value.flatten_pieces` : the pieces of a value are, one after the other, its text;
* `printPieces_eq` : it does not matter in how many pieces a text is printed, and an error is that of the sink;
* `print_eq` : the same for a value; `delivery_print`, `print_error` : what is left, and how printing fails.
-/

namespace ProbeSuite.Json

/-! ## The pieces of a text -/

theorem flatten_fragments (plain cs : List Char) : (fragments plain cs).flatten = plain ++ cs.flatMap escape := by
  fun_induction fragments plain cs with
  | case1 plain hplain => simp [List.isEmpty_iff.1 hplain]
  | case2 plain => simp
  | case3 plain c cs hc ih => rw [ih, List.flatMap_cons, hc, List.append_assoc]
  | case4 plain c cs _ hplain ih =>
    rw [List.flatten_cons, ih, List.isEmpty_iff.1 hplain, List.flatMap_cons, List.nil_append, List.nil_append]
  | case5 plain c cs _ _ ih =>
    rw [List.flatten_cons, List.flatten_cons, ih, List.flatMap_cons, List.nil_append]

theorem flatten_quotePieces (s : List Char) : (quotePieces s).flatten = quote s := by
  rw [quotePieces, List.flatten_cons, List.flatten_append, flatten_fragments]
  rfl

namespace Value

theorem flatten_newlinePieces (mark : List Char) (level : Nat) :
    (newlinePieces mark level).flatten = mark ++ newline level := by
  have hindent : (List.replicate level [' ', ' ']).flatten = List.replicate (2 * level) ' ' :=
    (List.flatten_replicate_replicate (a := ' ') (m := 2)).trans (by rw [Nat.mul_comm])
  rw [newlinePieces, List.flatten_cons, hindent, List.append_assoc]
  rfl

mutual

theorem flatten_piecesAt (level : Nat) : ∀ v : Value, (piecesAt level v).flatten = prettyAt level v
  | .number n => by rw [piecesAt, prettyAt, List.flatten_singleton]
  | .string s => by rw [piecesAt, prettyAt, flatten_quotePieces]
  | .array [] => by rw [piecesAt, prettyAt]; rfl
  | .array (v :: vs) => by
    rw [piecesAt, prettyAt, List.flatten_cons, List.flatten_append, List.flatten_append, flatten_newlinePieces,
      flatten_elementPieces (level + 1) [] (v :: vs) (List.cons_ne_nil v vs)]
    rfl
  | .object [] => by rw [piecesAt, prettyAt]; rfl
  | .object (m :: ms) => by
    rw [piecesAt, prettyAt, List.flatten_cons, List.flatten_append, List.flatten_append, flatten_newlinePieces,
      flatten_memberPieces (level + 1) [] (m :: ms) (List.cons_ne_nil m ms)]
    rfl

theorem flatten_elementPieces (level : Nat) (mark : List Char) : ∀ vs : List Value, vs ≠ [] →
    (elementPieces level mark vs).flatten = mark ++ prettyElements level vs
  | [], hvs => absurd rfl hvs
  | [v], _ => by
    rw [elementPieces, elementPieces, prettyElements, List.append_nil, List.flatten_append, flatten_newlinePieces,
      flatten_piecesAt level v, List.append_assoc]
  | v :: w :: vs, _ => by
    rw [elementPieces, prettyElements, List.flatten_append, List.flatten_append, flatten_newlinePieces,
      flatten_piecesAt level v, flatten_elementPieces level [','] (w :: vs) (List.cons_ne_nil w vs),
      List.append_assoc]
    · rfl
    · exact nofun

theorem flatten_memberPieces (level : Nat) (mark : List Char) : ∀ ms : List (String × Value), ms ≠ [] →
    (memberPieces level mark ms).flatten = mark ++ prettyMembers level ms
  | [], hms => absurd rfl hms
  | [(k, v)], _ => by
    rw [memberPieces, memberPieces, prettyMembers, List.append_nil, List.flatten_append, flatten_newlinePieces,
      List.flatten_append, flatten_quotePieces, List.flatten_cons, flatten_piecesAt level v, keyText,
      List.append_assoc, List.append_assoc]
    rfl
  | (k, v) :: m :: ms, _ => by
    rw [memberPieces, prettyMembers, List.flatten_append, flatten_newlinePieces, List.flatten_append,
      flatten_quotePieces, List.flatten_cons, List.flatten_append, flatten_piecesAt level v,
      flatten_memberPieces level [','] (m :: ms) (List.cons_ne_nil m ms), keyText, List.append_assoc,
      List.append_assoc]
    · rfl
    · exact nofun

end

/-- **The pieces of a value are its text.** -/
theorem flatten_pieces (v : Value) : v.pieces.flatten = v.pretty := flatten_piecesAt 0 v

end Value

/-! ## Printing -/

variable {sink : Sink}

/-- Pieces are printed as the whole of them is written, and an error is that of the sink. -/
theorem printPieces_eq (sink : Sink) (pieces : List (List Char)) (d : Delivery) : printPieces sink pieces d =
    ((sink.write (String.ofList pieces.flatten) d).1,
      (sink.write (String.ofList pieces.flatten) d).2.mapError Error.io) := by
  induction pieces generalizing d with
  | nil => rw [List.flatten_nil, Sink.write_empty]; rfl
  | cons piece pieces ih =>
    rw [List.flatten_cons, String.ofList_append, Sink.write_append, printPieces]
    rcases sink.write (String.ofList piece) d with ⟨d', e | _⟩
    · rfl
    · exact ih d'

/-- **A value is printed as its text is written.** -/
theorem print_eq (sink : Sink) (v : Value) (d : Delivery) : print sink v d =
    ((sink.write (String.ofList v.pretty) d).1, (sink.write (String.ofList v.pretty) d).2.mapError Error.io) := by
  rw [print, printPieces_eq, v.flatten_pieces]

theorem delivery_print (hchunk : sink.chunk ≠ some 0) (v : Value) (d : Delivery) :
    (print sink v d).1 = ⟨d.bytes ++ sink.accept d.bytes (Text.bytes (String.ofList v.pretty)), d.flushedAt⟩ := by
  rw [print_eq, Sink.write_eq hchunk]

/-- Printing fails with the error of a sink that does not take the whole text. -/
theorem print_error (hchunk : sink.chunk ≠ some 0) {v : Value} {d : Delivery} {e : Error}
    (h : (print sink v d).2 = .error e) : e = .io sink.error ∧
      sink.accept d.bytes (Text.bytes (String.ofList v.pretty)) ≠ Text.bytes (String.ofList v.pretty) := by
  rw [print_eq, Sink.write_eq hchunk] at h
  by_cases htaken : sink.accept d.bytes (Text.bytes (String.ofList v.pretty)) = Text.bytes (String.ofList v.pretty)
  · simp only [if_pos htaken] at h
    cases h
  · simp only [if_neg htaken] at h
    cases h
    exact ⟨rfl, htaken⟩

theorem print_ok {v : Value} {d d' : Delivery} (h : print sink v d = (d', .ok ())) :
    sink.write (String.ofList v.pretty) d = (d', .ok ()) := by
  rw [print_eq] at h
  rcases hwrite : sink.write (String.ofList v.pretty) d with ⟨d₁, e | _⟩ <;> rw [hwrite] at h
  · cases h
  · cases h
    rfl

end ProbeSuite.Json
