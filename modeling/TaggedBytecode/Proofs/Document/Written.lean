import Mathlib
import TaggedBytecode.Constant.MarkerDocument
import TaggedBytecode.Proofs.Json.RoundTrip

/-!
# Documents of Written Values

A value that is written as a tree has the shape that its reader asks for. An integer is a number
of which the document is the integer again, as long as it fits 64 bits, and the members of an
object are the fields of a record if no name is repeated.

## Main results

* `Json.document_integer` — the document of an integer.
* `Shape.record_object` — an object read as a record.
* `Markers.shape_toJson` — a marker table is read from its document.
-/

namespace TaggedBytecode

/-! ### Integers -/

theorem Binary64.digitsValue_toDigits (n : Nat) : digitsValue (Nat.toDigits 10 n) = n :=
  Nat.ofDigitChars_ten_toDigits

namespace Json

variable {n : Int}

theorem all_isDigit_toDigits (n : Nat) : (Nat.toDigits 10 n).all Char.isDigit = true :=
  List.all_eq_true.mpr (isDigit_of_mem_toDigits n)

/-- A written integer of 64 bits, signed or not, is one. -/
theorem integerOf?_toString (hlow : -0x8000000000000000 ≤ n) (hhigh : n < 0x10000000000000000) :
    integerOf? (toString n) = some n := by
  rw [integerOf?, toList_toString]
  by_cases hn : n < 0
  · have hzero : Nat.toDigits 10 n.natAbs ≠ ['0'] := fun h => by
      have hvalue := Binary64.digitsValue_toDigits n.natAbs
      rw [h] at hvalue
      exact absurd (Int.natAbs_eq_zero.mp hvalue.symm) (Int.ne_of_lt hn)
    have hfits : n.natAbs ≤ 0x8000000000000000 := by omega
    simp only [if_pos hn, all_isDigit_toDigits, bne_iff_ne.mpr hzero, Bool.and_self, if_true,
      Binary64.digitsValue_toDigits, if_pos hfits]
    exact congrArg some (by omega)
  · have hfits : n.natAbs < 0x10000000000000000 := by omega
    rw [if_neg hn]
    split
    · rename_i ds hds
      have hminus := isDigit_of_mem_toDigits n.natAbs '-' (hds ▸ List.mem_cons_self)
      exact absurd hminus (by decide)
    · simp only [all_isDigit_toDigits, if_true, Binary64.digitsValue_toDigits, if_pos hfits]
      exact congrArg some (by omega)

/-- **The document of an integer** of 64 bits is the integer. -/
theorem document_integer (hlow : -0x8000000000000000 ≤ n) (hhigh : n < 0x10000000000000000) :
    (Json.integer n).document = .integer n := by
  rw [integer, document, numberDocument, integerOf?_toString hlow hhigh]

theorem Writable.integer (n : Int) : (Json.integer n).Writable :=
  .number (isLexeme_integer n)

end Json

theorem Resolved.integer?_ofInt (n : Int) : (Resolved.ofInt n).integer? = some n := by
  rw [ofInt]
  split
  · exact congrArg some (by omega)
  · exact congrArg some (by omega)

namespace Shape

theorem int32_integer (v : Int32) : int32 (Json.integer v.toInt).document = some v := by
  have hlow := v.le_toInt
  have hhigh := v.toInt_lt
  have hrange : -0x80000000 ≤ v.toInt ∧ v.toInt ≤ 0x7fffffff := by omega
  rw [Json.document_integer (by omega) (by omega), int32, integer, Document.resolved,
    Resolved.integer?_ofInt, Option.bind_some, if_pos hrange, Option.map_some, Int32.ofInt_toInt]

theorem optional_int32_integer (v : Int32) :
    optional int32 (Json.integer v.toInt).document = some (some v) := by
  have hsome : (Json.integer v.toInt).document.resolved ≠ .null := fun h => by
    have hread := int32_integer v
    rw [int32, integer, h] at hread
    cases hread
  rw [optional, if_neg hsome, int32_integer, Option.map_some]

end Shape

/-! ### Records -/

theorem Json.memberDocuments_eq_map (ms : List (String × Json)) :
    memberDocuments ms = ms.map fun m => (.text m.1, m.2.document) := by
  induction ms with
  | nil => rfl
  | cons m ms ih => rw [memberDocuments, ih, List.map_cons]

namespace Shape

/-- The names of an object's members are read back. -/
theorem named_memberDocuments (ms : List (String × Json)) :
    named (Json.memberDocuments ms) = some (ms.map fun m => (m.1, m.2.document)) := by
  rw [Json.memberDocuments_eq_map, named, List.mapM_map]
  exact List.mapM_pure

theorem lookup_map_document (name : String) (ms : List (String × Json)) :
    (ms.map fun m => (m.1, m.2.document)).lookup name = (ms.lookup name).map Json.document := by
  induction ms with
  | nil => rfl
  | cons m ms ih =>
      rw [List.map_cons, List.lookup_cons, List.lookup_cons, ih]
      split <;> rfl

/-- **An object is read as a record** by the names of its members, of which none is repeated. -/
theorem record_object {ms : List (String × Json)} (h : (ms.map Prod.fst).Nodup)
    (names : List String) (least : Nat) :
    record names least (Json.object ms).document =
      some (names.map fun name => (ms.lookup name).map Json.document) := by
  have honce : (names.all fun name =>
      (ms.map fun m => (m.1, m.2.document)).countP (fun m => m.1 == name) ≤ 1) = true := by
    refine List.all_eq_true.mpr fun name _ => decide_eq_true ?_
    have hcount := List.nodup_iff_count_le_one.mp h name
    rw [List.count_eq_countP, List.countP_map] at hcount
    rwa [List.countP_map]
  simp only [record, Json.document, asMapping, Document.untagged, named_memberDocuments,
    Option.bind_eq_bind, Option.bind_some, honce, if_true, lookup_map_document]

end Shape

namespace Markers

/-- **A marker table is read from its document.** -/
theorem shape_toJson (t : Markers) : shape t.toJson.document = some t := by
  have hnames : ((t.assigned.map fun e => (e.1.name, Json.integer e.2.toInt)).map
      Prod.fst).Nodup := by
    cases hundefined : t.undefinedTag <;> simp [assigned, hundefined, Marker.name]
  rw [shape, toJson, Shape.record_object hnames]
  obtain ⟨trueTag, nullTag, floatTag, falseTag, stringTag, undefinedTag⟩ := t
  cases undefinedTag with
  | none =>
      simp [assigned, Marker.name, List.lookup, Shape.withDefault, Shape.int32_integer]
  | some undefinedTag =>
      simp [assigned, Marker.name, List.lookup, Shape.withDefault, Shape.int32_integer,
        Shape.optional_int32_integer]

theorem writable_toJson (t : Markers) : t.toJson.Writable := by
  refine .object fun m hm => ?_
  obtain ⟨e, -, rfl⟩ := List.mem_map.mp hm
  exact .integer e.2.toInt

end Markers

end TaggedBytecode
