import RemoteCall.MessagePack.Printer
import RemoteCall.MessagePack.Reader

/-!
# Integers in MessagePack

An integer takes the shortest of its forms: the marker alone, or a marker and a word. Each form is
read back exactly, whatever follows it:

    readInt levels t (writeInt n ++ rest) = .ok (t.ofInt n, rest)                 (readInt_writeInt)
-/

namespace RemoteCall.MessagePack

/-! ## Words -/

theorem take_append {n : Nat} {front : Bytes} (missing : Fault) (rest : Bytes)
    (size : front.length = n) : take n missing (front ++ rest) = .ok (front, rest) := by
  subst size
  simp [take]

theorem uint_bigEndian (w n : Nat) (rest : Bytes) :
    uint w (Bytes.bigEndian w n ++ rest) = .ok (n % Nat.pow 256 w, rest) := by
  have word := take_append .noData rest (Bytes.length_bigEndian w n)
  rw [uint, Scan.bind_ok word, Bytes.ofBigEndian_bigEndian]
  rfl

/-- The low bytes of an integer that is not negative are the integer, if there are enough. -/
theorem token_uint {w : Nat} {n : Int} (rest : Bytes) (natural : 0 ≤ n)
    (fits : n < (Nat.pow 256 w : Nat)) :
    token (.uint w) (Bytes.bigEndian w (n % Nat.pow 256 w).toNat ++ rest) =
      .ok (.int n true, rest) := by
  rw [token, Scan.bind_ok (uint_bigEndian w _ rest), Int.emod_eq_of_lt natural fits]
  have low : n.toNat % Nat.pow 256 w = n.toNat := Nat.mod_eq_of_lt (by omega)
  rw [low, Int.toNat_of_nonneg natural]
  rfl

/-- The low bytes of a negative integer are those of its two's complement. -/
theorem token_sint {w : Nat} {n : Int} (rest : Bytes) (negative : n < 0)
    (half : Nat.pow 256 w = 2 * Nat.pow 2 (8 * w - 1)) (fits : -(Nat.pow 2 (8 * w - 1) : Nat) ≤ n) :
    token (.sint w) (Bytes.bigEndian w (n % Nat.pow 256 w).toNat ++ rest) =
      .ok (.int n false, rest) := by
  have above : n % (Nat.pow 256 w : Nat) = n + (Nat.pow 256 w : Nat) := by
    rw [← Int.add_emod_right, Int.emod_eq_of_lt (by omega) (by omega)]
  have low : (n + (Nat.pow 256 w : Nat)).toNat % Nat.pow 256 w =
      (n + (Nat.pow 256 w : Nat)).toNat := Nat.mod_eq_of_lt (by omega)
  have back : ((n + (Nat.pow 256 w : Nat)).toNat : Int) - (Nat.pow 256 w : Nat) = n := by omega
  have high : ¬(n + (Nat.pow 256 w : Nat)).toNat < Nat.pow 2 (8 * w - 1) := by omega
  have word := uint_bigEndian w (n + (Nat.pow 256 w : Nat)).toNat rest
  rw [low] at word
  have signed : sint w (Bytes.bigEndian w (n + (Nat.pow 256 w : Nat)).toNat ++ rest) =
      .ok (n, rest) := by
    rw [sint, Scan.bind_ok word, if_neg high, back]
    rfl
  rw [token, above, Scan.bind_ok signed]
  rfl

/-! ## Integers -/

/-- The marker is that of an integer, which follows it if it is not in it. -/
theorem readInt_of_token {t : IntType α} {levels : Nat} {b : UInt8} {n : Int} {unsigned : Bool}
    {bs rest : Bytes} (scalar : (Marker.ofByte b).isScalar = true)
    (found : token (.ofByte b) bs = .ok (.int n unsigned, rest)) (has : t.has n = true) :
    readInt levels t (b :: bs) = .ok (t.ofInt n, rest) := by
  have first : marker (b :: bs) = .ok (.ofByte b, bs) := rfl
  rw [readInt, Scan.bind_ok first, if_pos scalar, Scan.bind_ok found]
  simp only [IntType.read, has, ofMismatch, if_true]
  rfl

theorem ofByte_fixPos : ∀ n < 0x80, Marker.ofByte (UInt8.ofNat n) = .fixPos n := by
  decide

theorem ofByte_fixNeg :
    ∀ n < 0x20, Marker.ofByte (UInt8.ofNat (0xE0 + n)) = .fixNeg (n - 0x20) := by
  decide

section
variable {t : IntType α} {levels w : Nat} {b : UInt8} {n : Int}

/-- A word behind its marker. -/
theorem readInt_uint (kind : Marker.ofByte b = .uint w) (has : t.has n = true) (rest : Bytes)
    (natural : 0 ≤ n) (fits : n < (Nat.pow 256 w : Nat)) :
    readInt levels t (b :: Bytes.bigEndian w (n % Nat.pow 256 w).toNat ++ rest) =
      .ok (t.ofInt n, rest) :=
  readInt_of_token (kind ▸ rfl) (kind ▸ token_uint rest natural fits) has

/-- A signed word behind its marker. -/
theorem readInt_sint (kind : Marker.ofByte b = .sint w) (has : t.has n = true) (rest : Bytes)
    (negative : n < 0) (half : Nat.pow 256 w = 2 * Nat.pow 2 (8 * w - 1))
    (fits : -(Nat.pow 2 (8 * w - 1) : Nat) ≤ n) :
    readInt levels t (b :: Bytes.bigEndian w (n % Nat.pow 256 w).toNat ++ rest) =
      .ok (t.ofInt n, rest) :=
  readInt_of_token (kind ▸ rfl) (kind ▸ token_sint rest negative half fits) has

/-- A small integer is its own marker. -/
theorem readInt_fixPos (has : t.has n = true) (rest : Bytes) (natural : 0 ≤ n) (small : n < 0x80) :
    readInt levels t (UInt8.ofNat n.toNat :: rest) = .ok (t.ofInt n, rest) := by
  have kind := ofByte_fixPos n.toNat (by omega)
  have found : token (.ofByte (UInt8.ofNat n.toNat)) rest = .ok (.int n true, rest) := by
    rw [kind, token, Int.toNat_of_nonneg natural]
    rfl
  exact readInt_of_token (kind ▸ rfl) found has

/-- And so is a negative one, in the last bytes. -/
theorem readInt_fixNeg (has : t.has n = true) (rest : Bytes) (negative : n < 0)
    (small : -0x20 ≤ n) :
    readInt levels t (UInt8.ofNat (n + 256).toNat :: rest) = .ok (t.ofInt n, rest) := by
  obtain ⟨k, rfl⟩ : ∃ k : Nat, n = k - 0x20 := ⟨(n + 0x20).toNat, by omega⟩
  have byte : ((k : Int) - 0x20 + 256).toNat = 0xE0 + k := by omega
  have kind := ofByte_fixNeg k (by omega)
  have found : token (.ofByte (UInt8.ofNat (0xE0 + k))) rest =
      .ok (.int ((k : Int) - 0x20) false, rest) := by
    rw [kind, token]
    rfl
  rw [byte]
  exact readInt_of_token (kind ▸ rfl) found has

end

/-- An integer that was written is read back if the type has it. -/
theorem readInt_writeInt {t : IntType α} {n : Int} (levels : Nat) (rest : Bytes)
    (has : t.has n = true) (low : -0x8000000000000000 ≤ n) (high : n < 0x10000000000000000) :
    readInt levels t (writeInt n ++ rest) = .ok (t.ofInt n, rest) := by
  unfold writeInt
  simp only
  split
  next natural =>
    split
    next small => exact readInt_fixPos has rest natural small
    next =>
      split
      next small => exact readInt_uint (by decide) has rest natural small
      next =>
        split
        next small => exact readInt_uint (by decide) has rest natural small
        next =>
          split
          next small => exact readInt_uint (by decide) has rest natural small
          next => exact readInt_uint (by decide) has rest natural high
  next unnatural =>
    have negative : n < 0 := by omega
    split
    next small => exact readInt_fixNeg has rest negative small
    next =>
      split
      next small => exact readInt_sint (by decide) has rest negative (by decide) small
      next =>
        split
        next small => exact readInt_sint (by decide) has rest negative (by decide) small
        next =>
          split
          next small => exact readInt_sint (by decide) has rest negative (by decide) small
          next => exact readInt_sint (by decide) has rest negative (by decide) low

/-- A marker and a word of eight bytes at most. -/
theorem length_writeInt_le (n : Int) : (writeInt n).length ≤ 9 := by
  unfold writeInt
  simp only
  repeat' split
  all_goals simp

end RemoteCall.MessagePack
