import RemoteCall.Json.Fault

/-!
# JSON tokens

Words, numbers and strings. A number is an integer while it fits in 64 bits and has neither fraction
nor exponent; any other number, and `-0`, is a floating point number. A string is read to its
closing quote and must then be text.
-/

namespace RemoteCall.Json

/-! ## Words -/

def isBlank (b : UInt8) : Bool := b = 32 || b = 10 || b = 9 || b = 13

def skipBlank (bs : Bytes) : Bytes := bs.dropWhile isBlank

def blank : Scan Unit := fun bs => .ok ((), skipBlank bs)

/-- The next byte, still unread. -/
def next? : Scan (Option UInt8) := fun bs => .ok (bs.head?, bs)

def advance : Scan Unit := fun bs => .ok ((), bs.tail)

/-- The rest of a word of which the first letter is known. -/
def word : Bytes → Scan Unit
  | [] => pure ()
  | c :: cs => fun
    | [] => here .endInValue []
    | b :: bs => if b = c then word cs bs else here .expectedWord bs

/-- The letters of `null` after the first. -/
def ull : Bytes := [117, 108, 108]

/-- The letters of `true` after the first. -/
def rue : Bytes := [114, 117, 101]

/-- The letters of `false` after the first. -/
def alse : Bytes := [97, 108, 115, 101]

/-! ## Numbers -/

inductive Number
  | int (n : Int)
  | float (x : Float)

def isDigit (b : UInt8) : Bool := 48 ≤ b && b ≤ 57

def digit (b : UInt8) : Nat := b.toNat - 48

/-- Takes digits while the significand fits in 64 bits: the significand, how many digits it took,
and the rest. -/
def takeDigits : (significand count : Nat) → Bytes → Nat × Nat × Bytes
  | s, k, [] => (s, k, [])
  | s, k, b :: bs =>
    if isDigit b && s * 10 + digit b < 0x10000000000000000 then
      takeDigits (s * 10 + digit b) (k + 1) bs
    else (s, k, b :: bs)

/-- Drops digits, counting them. -/
def dropDigits : (count : Nat) → Bytes → Nat × Bytes
  | k, [] => (k, [])
  | k, b :: bs => if isDigit b then dropDigits (k + 1) bs else (k, b :: bs)

def startsWithDigit : Bytes → Bool
  | b :: _ => isDigit b
  | [] => false

/-- Scales by powers of ten in floating point, at most `10 ^ 308` at once; none if the result is
infinite. After three divisions every significand of 64 bits is zero. -/
def scale : (fuel : Nat) → Float → Int → Option Float
  | 0, x, _ => some x
  | fuel + 1, x, e =>
    if e.natAbs ≤ 308 then
      if 0 ≤ e then
        let y := x * Float.ofScientific 1 false e.natAbs
        if y.isInf then none else some y
      else some (x / Float.ofScientific 1 false e.natAbs)
    else if x == 0 then some x
    else if 0 ≤ e then none
    else scale fuel (x / Float.ofScientific 1 false 308) (e + 308)

def floatOf (negative : Bool) (significand : Nat) (e : Int) : Scan Number :=
  match scale 4 (UInt64.ofNat significand).toFloat e with
  | none => here .numberOutOfRange
  | some x => pure (.float (if negative then -x else x))

/-- Exponents are kept within 32 bits. -/
def clamp (e : Int) : Int := max (-0x80000000) (min 0x7FFFFFFF e)

/-- The digits of an exponent after the first; none when they exceed 31 bits, with the rest behind
the digit that did. -/
def exponentDigits : Nat → Bytes → Option Nat × Bytes
  | e, [] => (some e, [])
  | e, b :: bs =>
    if isDigit b then
      if e * 10 + digit b < 0x80000000 then exponentDigits (e * 10 + digit b) bs else (none, bs)
    else (some e, b :: bs)

/-- What follows the sign of an exponent. -/
def unsignedExponent (negative : Bool) (significand : Nat) (start : Int) (down : Bool) :
    Scan Number := fun
  | [] => here .endInValue []
  | b :: bs =>
    if !isDigit b then here .invalidNumber bs
    else match exponentDigits (digit b) bs with
      | (some e, bs) =>
        floatOf negative significand (clamp (if down then start - e else start + e)) bs
      | (none, bs) =>
        if significand ≠ 0 ∧ !down then here .numberOutOfRange bs
        else .ok (.float (if negative then -0.0 else 0.0), (dropDigits 0 bs).2)

/-- What follows the letter of an exponent. -/
def exponent (negative : Bool) (significand : Nat) (start : Int) : Scan Number := fun bs =>
  match bs with
  | 43 :: bs => unsignedExponent negative significand start false bs
  | 45 :: bs => unsignedExponent negative significand start true bs
  | bs => unsignedExponent negative significand start false bs

/-- The exponent, if there is one, and the end of a floating point number. -/
def afterFraction (negative : Bool) (significand : Nat) (e : Int) : Scan Number := fun bs =>
  match bs with
  | 69 :: bs => exponent negative significand e bs
  | 101 :: bs => exponent negative significand e bs
  | bs => floatOf negative significand e bs

/-- What follows the point. Digits that the significand has no room for are dropped. -/
def fraction (negative : Bool) (significand : Nat) (e : Int) : Scan Number := fun bs =>
  let (s, k, rest) := takeDigits significand 0 bs
  if startsWithDigit rest then afterFraction negative s (e - k) (dropDigits 0 rest).2
  else if k = 0 then
    match rest with
    | [] => peeked .endInValue rest
    | _ => peeked .invalidNumber rest
  else afterFraction negative s (e - k) rest

/-- What follows the digits before the point, of which `dropped` had no room in the significand. -/
def afterDigits (negative : Bool) (significand dropped : Nat) : Scan Number := fun bs =>
  match bs with
  | 46 :: bs => fraction negative significand dropped bs
  | 69 :: bs => exponent negative significand dropped bs
  | 101 :: bs => exponent negative significand dropped bs
  | bs =>
    if dropped = 0 then
      if !negative then .ok (.int significand, bs)
      else if 0 < significand ∧ significand ≤ 0x8000000000000000 then .ok (.int (-significand), bs)
      else .ok (.float (-(UInt64.ofNat significand).toFloat), bs)
    else floatOf negative significand dropped bs

/-- A number after its sign. -/
def number (negative : Bool) : Scan Number := fun
  | [] => here .endInValue []
  | b :: bs =>
    if b = 48 then
      if startsWithDigit bs then peeked .invalidNumber bs else afterDigits negative 0 0 bs
    else if isDigit b then
      let (s, _, bs) := takeDigits (digit b) 1 bs
      let (dropped, bs) := dropDigits 0 bs
      afterDigits negative s dropped bs
    else here .invalidNumber bs

/-! ## Strings -/

def hexDigit? (b : UInt8) : Option Nat := Bytes.digitOfHex? (Char.ofNat b.toNat)

/-- Four hexadecimal digits. -/
def hex4 : Scan Nat := fun
  | a :: b :: c :: d :: rest =>
    match hexDigit? a, hexDigit? b, hexDigit? c, hexDigit? d with
    | some a, some b, some c, some d => .ok (((a * 16 + b) * 16 + c) * 16 + d, rest)
    | _, _, _, _ => here .invalidEscape rest
  | _ => here .endInString []

/-- The byte `b`, which must come next inside an escape. -/
def within (b : UInt8) : Scan Unit := fun
  | [] => here .endInString []
  | a :: bs => if a = b then .ok ((), bs) else here .endOfEscape bs

def isHighSurrogate (n : Nat) : Bool := 0xD800 ≤ n && n ≤ 0xDBFF

def isLowSurrogate (n : Nat) : Bool := 0xDC00 ≤ n && n ≤ 0xDFFF

def character (n : Nat) : Bytes := Utf8.encode (String.singleton (Char.ofNat n))

/-- An escape by code point, after its letter; two surrogates make one character. -/
def unicodeEscape : Scan Bytes := do
  let high ← hex4
  if isLowSurrogate high then here .loneSurrogate
  else if !isHighSurrogate high then pure (character high)
  else
    within 92
    within 117
    let low ← hex4
    if isLowSurrogate low then
      pure (character (0x10000 + (high - 0xD800) * 0x400 + (low - 0xDC00)))
    else here .loneSurrogate

/-- What an escape of two characters stands for. -/
def shortEscape? (b : UInt8) : Option UInt8 :=
  if b = 34 || b = 92 || b = 47 then some b
  else if b = 98 then some 8
  else if b = 102 then some 12
  else if b = 110 then some 10
  else if b = 114 then some 13
  else if b = 116 then some 9
  else none

/-- An escape after its backslash. -/
def escape : Scan Bytes := fun
  | [] => here .endInString []
  | b :: bs =>
    match shortEscape? b with
    | some c => .ok ([c], bs)
    | none => if b = 117 then unicodeEscape bs else here .invalidEscape bs

/-- The bytes up to the closing quote, on top of those in `acc`, the last first. Every round takes a
byte, so one more than their number is fuel enough. -/
def stringBytes : (fuel : Nat) → (acc : Bytes) → Scan Bytes
  | 0, _ => here .endInString
  | fuel + 1, acc => fun
    | [] => here .endInString []
    | b :: bs =>
      if b = 34 then .ok (acc.reverse, bs)
      else if b = 92 then
        match escape bs with
        | .error e => .error e
        | .ok (out, bs) => stringBytes fuel (out.reverse ++ acc) bs
      else if b < 32 then here .controlCharacter bs
      else stringBytes fuel (b :: acc) bs

/-- A string after its opening quote. What is no text is placed where it stops being text, counted
back from the closing quote. -/
def string : Scan String := fun bs =>
  match stringBytes (bs.length + 1) [] bs with
  | .error e => .error e
  | .ok (content, rest) =>
    match Utf8.decode content with
    | .ok s => .ok (s, rest)
    | .error f => .error (.placed .invalidCodePoint (rest.length + (content.length - f.valid)))

end RemoteCall.Json
