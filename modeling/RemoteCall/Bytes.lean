/-!
# Bytes and big-endian words

A byte string is a list of bytes. `bigEndian w n` writes the low `w` bytes of `n`, highest first,
and `ofBigEndian` reads any number of bytes back:

    ofBigEndian (bigEndian w n) = n % Nat.pow 256 w         (ofBigEndian_bigEndian)

A reader takes bytes off the front and gives a value, or fails. Of two readers in a row the second
one goes on where the first one stopped, and both of them must succeed (`Scan.of_bind_eq_ok`).
-/

namespace RemoteCall

abbrev Bytes := List UInt8

namespace Bytes

/-! ## Algorithm -/

/-- The low `w` bytes of `n`, the highest first. -/
def bigEndian : Nat → Nat → Bytes
  | 0, _ => []
  | w + 1, n => bigEndian w (n / 256) ++ [UInt8.ofNat n]

/-- Reads a word of any width, the highest byte first. -/
def ofBigEndian (bs : Bytes) : Nat := bs.foldl (fun n b => n * 256 + b.toNat) 0

def hexDigit (n : Nat) : Char := if n < 10 then Char.ofNat (48 + n) else Char.ofNat (87 + n)

/-- Two lower-case digits a byte. -/
def toHex (bs : Bytes) : String :=
  String.ofList (bs.flatMap fun b => [hexDigit (b.toNat / 16), hexDigit (b.toNat % 16)])

def digitOfHex? (c : Char) : Option Nat :=
  if '0' ≤ c ∧ c ≤ '9' then some (c.toNat - 48)
  else if 'a' ≤ c ∧ c ≤ 'f' then some (c.toNat - 87)
  else if 'A' ≤ c ∧ c ≤ 'F' then some (c.toNat - 55)
  else none

/-! ## Lemmas -/

@[simp] theorem length_bigEndian (w n : Nat) : (bigEndian w n).length = w := by
  induction w generalizing n with
  | zero => rfl
  | succ w ih => simp [bigEndian, ih]

theorem ofBigEndian_concat (bs : Bytes) (b : UInt8) :
    ofBigEndian (bs ++ [b]) = ofBigEndian bs * 256 + b.toNat := by
  simp [ofBigEndian]

theorem ofBigEndian_bigEndian (w n : Nat) : ofBigEndian (bigEndian w n) = n % Nat.pow 256 w := by
  induction w generalizing n with
  | zero => simp [bigEndian, ofBigEndian, Nat.pow, Nat.mod_one]
  | succ w ih =>
    have power : Nat.pow 256 (w + 1) = 256 * Nat.pow 256 w := Nat.mul_comm ..
    rw [bigEndian, ofBigEndian_concat, ih, power, Nat.mod_mul]
    simp only [UInt8.toNat_ofNat']
    omega

end Bytes

/-! ### Readers in a row -/

namespace Scan

variable {ε α β : Type} {x : StateT Bytes (Except ε) α} {f : α → StateT Bytes (Except ε) β}
  {bs rest : Bytes}

/-- A reader that succeeds hands its value and the rest on. -/
theorem bind_ok {a : α} (h : x bs = .ok (a, rest)) : (x >>= f) bs = f a rest := by
  simp only [bind, StateT.bind, h, Except.bind]

theorem of_bind_eq_ok {b : β} (h : (x >>= f) bs = .ok (b, rest)) :
    ∃ a mid, x bs = .ok (a, mid) ∧ f a mid = .ok (b, rest) := by
  cases first : x bs with
  | error => simp [bind, StateT.bind, first, Except.bind] at h
  | ok found =>
    obtain ⟨a, mid⟩ := found
    rw [bind_ok first] at h
    exact ⟨a, mid, rfl, h⟩

end Scan

end RemoteCall
