import RemoteCall.Proofs.Json.Integers

/-!
# Records of one integer in JSON

A record whose only field is `value`, an integer of 64 bits, is an object of one key. It is read
back as it was (`decode_encode_value`).
-/

namespace RemoteCall

/-- The only field of such a record. -/
abbrev Fields.value : Fields (Int64 × Unit) := .field "value" (.int .int64) Option.none .none

theorem toInt_bounds (v : Int64) :
    -0x8000000000000000 ≤ v.toInt ∧ v.toInt ≤ 0x7FFFFFFFFFFFFFFF := by
  have low := v.le_toInt
  have high := v.toInt_lt
  omega

theorem IntType.has_iff {n : Int} :
    int64.has n = true ↔ -0x8000000000000000 ≤ n ∧ n ≤ 0x7FFFFFFFFFFFFFFF := by
  rw [IntType.has, Bool.and_eq_true, decide_eq_true_eq, decide_eq_true_eq]
  exact Iff.rfl

theorem IntType.has_toInt (v : Int64) : int64.has v.toInt = true := has_iff.2 (toInt_bounds v)

theorem IntType.toInt_ofInt {n : Int} (has : int64.has n = true) : (Int64.ofInt n).toInt = n := by
  obtain ⟨low, high⟩ := has_iff.1 has
  exact Int64.toInt_ofInt_of_le low (by omega)

namespace Json

theorem encode_value : Utf8.encode "value" = [118, 97, 108, 117, 101] := by
  decide

/-- The key with its quotes, without the first one. -/
def valueKey (rest : Bytes) : Bytes := 118 :: 97 :: 108 :: 117 :: 101 :: 34 :: rest

/-- The end of an object is the end of a number in it. -/
theorem breaks_brace : Breaks [125] := by
  intro b hb
  obtain rfl := Option.some.inj hb
  decide

section
variable {α : Type} (style : RecordStyle) {make : Int64 × Unit → Except String α}
  (parts : α → Int64 × Unit)

theorem write_value (a : α) :
    write (.record style .value make parts) a =
      some (123 :: 34 :: valueKey (58 :: (writeInt (parts a).1.toInt ++ [125]))) := by
  have key : writeString "value" = [34, 118, 97, 108, 117, 101, 34] := by
    rw [writeString, encode_value]
    decide
  simp [write, writeFields, key, commas, valueKey, IntType.int64]

theorem string_valueKey (rest : Bytes) : string (valueKey rest) = .ok ("value", rest) := by
  have content : stringBytes (rest.length + 7) [] (valueKey rest) =
      .ok ([118, 97, 108, 117, 101], rest) := rfl
  have text : Utf8.decode [118, 97, 108, 117, 101] = .ok "value" :=
    encode_value ▸ Utf8.decode_encode "value"
  have size : (valueKey rest).length + 1 = rest.length + 7 := rfl
  rw [string, size, content]
  simp only [text]

theorem closing_ok {close : Bytes → Option Cause × Bytes} {inside : Scan α} {a : α}
    {bs rest rest' : Bytes} (found : inside bs = .ok (a, rest))
    (closes : close rest = (none, rest')) : closing close inside bs = .ok (a, rest') := by
  simp only [closing, found, closes]

/-- The object has that one key. -/
theorem entries_value {σ : Type} {entry : σ → String → Scan σ} {s s' : σ} {body rest : Bytes}
    (fuel : Nat) (h : entry s "value" body = .ok (s', 125 :: rest)) :
    entries entry (fuel + 2) true s (34 :: valueKey body) = .ok (s', 125 :: rest) := by
  have key : anotherKey true (34 :: valueKey body) = .ok (true, valueKey body) := rfl
  have noKey : anotherKey false (125 :: rest) = .ok (false, 125 :: rest) := rfl
  rw [entries, Scan.bind_ok key, if_pos rfl, Scan.bind_ok (string_valueKey body), Scan.bind_ok h,
    entries, Scan.bind_ok noKey, if_neg (by decide)]
  rfl

theorem read_value {a : α} (v : Int64) (made : make (v, ()) = .ok a) :
    read (.record style .value make parts)
      (123 :: 34 :: valueKey (58 :: (writeInt v.toInt ++ [125]))) = .ok (a, []) := by
  have number : readInt .int64 (writeInt v.toInt ++ [125]) = .ok (v, [125]) := by
    rw [readInt_writeInt (IntType.has_toInt v) (toInt_bounds v).1 (toInt_bounds v).2
      breaks_brace]
    exact congrArg (fun w => Except.ok (w, [125])) (Int64.ofInt_toInt v)
  have colon_ : ∀ rest, colon (58 :: rest) = .ok ((), rest) := fun _ => rfl
  have field : ((do colon; return (some (← readInt .int64), ()) : Scan (Option Int64 × Unit))
      (58 :: (writeInt v.toInt ++ [125]))) = .ok ((some v, ()), [125]) := by
    rw [Scan.bind_ok (colon_ _), Scan.bind_ok number]
    rfl
  have brace : ∀ rest, advance (123 :: rest) = .ok ((), rest) := fun _ => rfl
  rw [read, Scan.bind_ok (valueStart_cons _ (by decide)), if_neg (by decide), if_pos rfl,
    Scan.bind_ok (brace _)]
  refine @closing_ok _ _ _ _ _ [125] _ ?_ rfl
  refine (@Scan.bind_ok _ _ _ _ _ _ [125] (some v, ()) ?_).trans ?_
  · refine entries_value _ ?_
    simp only [readNamed, if_true]
    exact field
  · show looseOr (broken (make (v, ()))) [125] = _
    rw [made]
    rfl

/-- Such a record is written in a few bytes and read back as it was. -/
theorem decode_encode_value (a : α) (made : make (parts a) = .ok a) :
    ∃ bs, encode (.record style .value make parts) a = .ok bs ∧ bs.length ≤ 30 ∧
      decode (.record style .value make parts) bs = .ok a := by
  refine ⟨_, by rw [encode, write_value], ?_, ?_⟩
  · obtain ⟨low, high⟩ := toInt_bounds (parts a).1
    have short := length_writeInt_le low high
    simp only [valueKey, List.length_cons, List.length_append, List.length_nil]
    omega
  · have whole := read_value style parts (parts a).1 (show make ((parts a).1, ()) = .ok a from made)
    have noMore : finish [] = .ok ((), []) := rfl
    rw [decode, Scan.bind_ok whole, Scan.bind_ok noMore]
    rfl

end

end Json

end RemoteCall
