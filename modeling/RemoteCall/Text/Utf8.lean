import RemoteCall.Bytes

/-!
# UTF-8 text

`Utf8.decode` reads bytes as text or says where they stop being text (`Utf8.Fault`). `Utf8.lossy`
reads any bytes: what is no character becomes one `U+FFFD` for each longest start of a character.
Text written by `Utf8.encode` is read back by both:

    decode bs = .ok s ↔ encode s = bs                       (decode_eq_ok_iff)
    lossy (encode s) = s                                    (lossy_encode)
-/

namespace RemoteCall.Utf8

/-! ## Algorithm -/

def encode (s : String) : Bytes := s.toByteArray.data.toList

/-- What stands at the front of some bytes. -/
inductive Front
  | char (c : Char) (size : Nat)
  /-- `size` bytes begin no character, or begin one that the next byte breaks off. -/
  | broken (size : Nat)
  /-- A character begins, and the bytes end inside it. -/
  | cut

def isTail (b : UInt8) : Bool := 0x80 ≤ b && b ≤ 0xBF

/-- Whether `b` may follow `a` as the second byte of a character of three bytes. -/
def second3 (a b : UInt8) : Bool :=
  if a == 0xE0 then 0xA0 ≤ b && b ≤ 0xBF else if a == 0xED then 0x80 ≤ b && b ≤ 0x9F else isTail b

/-- Whether `b` may follow `a` as the second byte of a character of four bytes. -/
def second4 (a b : UInt8) : Bool :=
  if a == 0xF0 then 0x90 ≤ b && b ≤ 0xBF else if a == 0xF4 then 0x80 ≤ b && b ≤ 0x8F else isTail b

def code (bits : UInt8) (tail : Bytes) : Char :=
  Char.ofNat (tail.foldl (fun n b => n * 64 + b.toNat % 64) bits.toNat)

def front : Bytes → Front
  | [] => .cut
  | a :: r =>
    if a < 0x80 then .char (Char.ofNat a.toNat) 1
    else if 0xC2 ≤ a ∧ a ≤ 0xDF then
      match r with
      | [] => .cut
      | b :: _ => if isTail b then .char (code (a - 0xC0) [b]) 2 else .broken 1
    else if 0xE0 ≤ a ∧ a ≤ 0xEF then
      match r with
      | [] => .cut
      | b :: r =>
        if !second3 a b then .broken 1
        else match r with
          | [] => .cut
          | c :: _ => if isTail c then .char (code (a - 0xE0) [b, c]) 3 else .broken 2
    else if 0xF0 ≤ a ∧ a ≤ 0xF4 then
      match r with
      | [] => .cut
      | b :: r =>
        if !second4 a b then .broken 1
        else match r with
          | [] => .cut
          | c :: r =>
            if !isTail c then .broken 2
            else match r with
              | [] => .cut
              | d :: _ => if isTail d then .char (code (a - 0xF0) [b, c, d]) 4 else .broken 3
    else .broken 1

/-- Where bytes stop being text: after `valid` bytes come `broken` bytes that are no character, or
(none) a character that the end cuts off. -/
structure Fault where
  valid : Nat
  broken : Option Nat
  deriving Repr, DecidableEq

/-- The first fault of the bytes, `at` of which came before; `none` for text. -/
def faultFrom (pos : Nat) (fuel : Nat) (bs : Bytes) : Option Fault :=
  match fuel, bs with
  | 0, _ => none
  | _, [] => none
  | fuel + 1, bs =>
    match front bs with
    | .char _ n => faultFrom (pos + n) fuel (bs.drop n)
    | .broken n => some ⟨pos, some n⟩
    | .cut => some ⟨pos, none⟩

/-- Every step takes a byte, so the length is fuel enough. -/
def fault (bs : Bytes) : Fault := (faultFrom 0 bs.length bs).getD ⟨0, none⟩

/-- The text that the bytes spell, or where they stop spelling one. -/
def decode (bs : Bytes) : Except Fault String :=
  match String.fromUTF8? bs.toByteArray with
  | some s => .ok s
  | none => .error (fault bs)

def Fault.message (f : Fault) : String :=
  match f.broken with
  | some n => "invalid utf-8 sequence of " ++ toString n ++ " bytes from index " ++ toString f.valid
  | none => "incomplete utf-8 byte sequence from index " ++ toString f.valid

/-- The characters of the bytes, taking each run that is no character for one `U+FFFD`; `acc` holds
those already met, the last first. -/
def patch : Nat → Bytes → List Char → List Char
  | 0, _, acc => acc.reverse
  | _, [], acc => acc.reverse
  | fuel + 1, bs, acc =>
    match front bs with
    | .char c n => patch fuel (bs.drop n) (c :: acc)
    | .broken n => patch fuel (bs.drop n) ('\uFFFD' :: acc)
    | .cut => ('\uFFFD' :: acc).reverse

/-- Reads any bytes as text. -/
def lossy (bs : Bytes) : String :=
  match String.fromUTF8? bs.toByteArray with
  | some s => s
  | none => String.ofList (patch bs.length bs [])

/-! ## Lemmas -/

theorem fromUTF8?_encode (s : String) : String.fromUTF8? (encode s).toByteArray = some s := by
  have h : (encode s).toByteArray = s.toByteArray := by ext1; simp [encode]
  simp [h, String.fromUTF8?, String.fromUTF8, s.isValidUTF8]

theorem decode_encode (s : String) : decode (encode s) = .ok s := by
  simp [decode, fromUTF8?_encode]

theorem decode_eq_ok_iff {bs : Bytes} {s : String} : decode bs = .ok s ↔ encode s = bs := by
  constructor
  · intro h
    unfold decode at h
    split at h
    next t text =>
      obtain rfl := Except.ok.inj h
      unfold String.fromUTF8? at text
      split at text
      next valid =>
        obtain rfl := Option.some.inj text
        simp [encode, String.fromUTF8]
      next => cases text
    next => cases h
  · rintro rfl
    exact decode_encode s

theorem lossy_encode (s : String) : lossy (encode s) = s := by
  simp [lossy, fromUTF8?_encode]

end RemoteCall.Utf8
