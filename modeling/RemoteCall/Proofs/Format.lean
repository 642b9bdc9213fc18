import RemoteCall.Format
import RemoteCall.Proofs.Json.Records
import RemoteCall.Proofs.MessagePack.Integers

/-!
# Records of one integer in both formats

Whatever the format, a record whose only field is an integer of 64 bits takes few bytes and is read
back as it was (`Format.decode_encode_value`).
-/

namespace RemoteCall

section
variable {α : Type} (style : RecordStyle) {make : Int64 × Unit → Except String α}
  (parts : α → Int64 × Unit)

/-- Such a record is a list of one element. -/
theorem MessagePack.read_value {a : α} (v : Int64) (levels : Nat) (made : make (v, ()) = .ok a) :
    read (levels + 1) (.record style .value make parts) (0x91 :: writeInt v.toInt) =
      .ok (a, []) := by
  have first : marker (0x91 :: writeInt v.toInt) = .ok (.fixArray 1, writeInt v.toInt) := rfl
  have list : token (.fixArray 1) (writeInt v.toInt) = .ok (.list 1, writeInt v.toInt) := rfl
  have number : read levels (.int IntType.int64) (writeInt v.toInt) = .ok (v, []) := by
    obtain ⟨low, high⟩ := toInt_bounds v
    have back := readInt_writeInt levels [] (IntType.has_toInt v) low (by omega)
    rw [List.append_nil] at back
    rw [read, back]
    exact congrArg (fun w => Except.ok (w, [])) (Int64.ofInt_toInt v)
  have fields : readFields levels style .value 0 1 (writeInt v.toInt) =
      .ok (((v, ()), 0), []) := by
    rw [readFields, Scan.bind_ok number]
    rfl
  rw [read, Scan.bind_ok first, Scan.bind_ok list]
  show whole 1 _ (writeInt v.toInt) = _
  have inside : (do
      let (parts, left) ← readFields levels style .value 0 1
      return (← broken (make parts), left) : Scan (α × Nat)) (writeInt v.toInt) =
        .ok ((a, 0), []) := by
    rw [Scan.bind_ok fields]
    simp only [made]
    rfl
  rw [whole, Scan.bind_ok inside]
  rfl

theorem MessagePack.encode_value (a : α) :
    encode (.record style .value make parts) a = 0x91 :: writeInt (parts a).1.toInt := by
  rw [encode, write, writeFields, writeFields, List.append_nil, write]
  rfl

theorem MessagePack.read_encode_value (a : α) (made : make (parts a) = .ok a) :
    read levels (.record style .value make parts) (encode (.record style .value make parts) a) =
      .ok (a, []) := by
  rw [encode_value]
  exact read_value style parts (parts a).1 1022 (show make ((parts a).1, ()) = .ok a from made)

theorem MessagePack.decode_encode_value (a : α) (made : make (parts a) = .ok a) :
    (encode (.record style .value make parts) a).length ≤ 10 ∧
      decode (.record style .value make parts) (encode (.record style .value make parts) a) =
        .ok a := by
  constructor
  · rw [encode_value]
    exact Nat.succ_le_succ (length_writeInt_le _)
  · rw [decode, read_encode_value style parts a made]

/-- A value of such a type is written in a few bytes and read back as it was. -/
theorem Format.decode_encode_value [Payload α]
    (shape : Payload.shape = .record style .value make parts) (format : Format) (a : α)
    (made : make (parts a) = .ok a) :
    ∃ bs, format.encode a = .ok bs ∧ bs.length ≤ 30 ∧ format.decode bs = .ok a := by
  cases format with
  | json =>
    obtain ⟨bs, text, short, back⟩ := Json.decode_encode_value style parts a made
    refine ⟨bs, by rw [encode, shape, text], short, ?_⟩
    simp only [decode, shape, back]
  | messagePack =>
    obtain ⟨short, back⟩ := MessagePack.decode_encode_value style parts a made
    refine ⟨_, by rw [encode, shape], Nat.le_trans short (by decide), ?_⟩
    simp only [decode, shape, back]

end

end RemoteCall
