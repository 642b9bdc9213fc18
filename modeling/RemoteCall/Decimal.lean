/-!
# Numbers in decimal

An integer is written in ASCII digits, as many as one likes, behind a sign or none. No blanks and no
separators are allowed. Bounds are for the reader of the number to check.

A positive binary number `m · 2 ^ q` stands for all reals that round to it. `shortest` gives the
decimal `d · 10 ^ e` among them with the fewest digits and, of those, the nearest to the number:
going from coarse powers of ten to fine ones, the first that has a multiple among those reals has
one next to the number itself, so two multiples a power are all that has to be tried. If both are
equally near, a `Tie` decides. `FloatStyle` says how such a decimal is spelled.
-/

namespace RemoteCall.Decimal

/-! ## Integers -/

def isDigit (c : Char) : Bool := '0' ≤ c && c ≤ '9'

/-- The number that a list of digits spells. -/
def ofDigits (cs : List Char) : Nat := cs.foldl (fun n c => n * 10 + (c.toNat - 48)) 0

/-- A number without a sign: one digit or more. -/
def digits? (cs : List Char) : Option Nat :=
  if !cs.isEmpty && cs.all isDigit then some (ofDigits cs) else none

/-- A number that may have a plus sign. -/
def readNat? (s : String) : Option Nat :=
  match s.toList with
  | '+' :: cs => digits? cs
  | cs => digits? cs

/-- A number that may have either sign. -/
def readInt? (s : String) : Option Int :=
  match s.toList with
  | '-' :: cs => (digits? cs).map fun n => -(n : Int)
  | '+' :: cs => (digits? cs).map fun n => (n : Int)
  | cs => (digits? cs).map fun n => (n : Int)

/-! ## Shortest decimals -/

/-- The reals that round to `m · 2 ^ q`, in quarters of `2 ^ q`. -/
structure Interval where
  low : Nat
  mid : Nat
  high : Nat
  /-- Whether the two ends belong to it. -/
  closed : Bool

/-- `narrow` says that the next smaller number is only half as far away as the next larger one. -/
def Interval.around (m : Nat) (narrow : Bool) : Interval :=
  ⟨if narrow then 4 * m - 1 else 4 * m - 2, 4 * m, 4 * m + 2, m % 2 == 0⟩

def Interval.contains (i : Interval) (n scale : Nat) : Bool :=
  if i.closed then i.low * scale ≤ n && n ≤ i.high * scale
  else i.low * scale < n && n < i.high * scale

/-- Which of two equally near decimals is taken. -/
inductive Tie
  | even
  | larger

/-- The multiple of `10 ^ e` in the interval that is nearest to its middle, if there is one. Both
sides are scaled to whole numbers: a multiple `k` counts `k * ten`, a quarter counts `two`. -/
def onGrid (tie : Tie) (i : Interval) (q e : Int) : Option Nat :=
  let ten := Nat.pow 10 e.toNat * Nat.pow 2 (2 - q).toNat
  let two := Nat.pow 2 (q - 2).toNat * Nat.pow 10 (-e).toNat
  let below := i.mid * two / ten
  let above := below + 1
  let fitsBelow := 0 < below && i.contains (below * ten) two
  let fitsAbove := i.contains (above * ten) two
  let nearerBelow := i.mid * two - below * ten
  let nearerAbove := above * ten - i.mid * two
  if fitsBelow && fitsAbove then
    if nearerBelow < nearerAbove then some below
    else if nearerAbove < nearerBelow then some above
    else match tie with
      | .even => some (if below % 2 == 0 then below else above)
      | .larger => some above
  else if fitsBelow then some below
  else if fitsAbove then some above
  else none

/-- Tries the powers of ten downwards from `e`. -/
def firstGrid (tie : Tie) (i : Interval) (q : Int) : Nat → Int → Nat × Int
  | 0, e => (i.mid, e)
  | fuel + 1, e =>
    match onGrid tie i q e with
    | some d => (d, e)
    | none => firstGrid tie i q fuel (e - 1)

/-- The shortest decimal `(d, e)` that rounds to `m · 2 ^ q`; it has at most seventeen digits. The
search starts at a power of ten above the number. -/
def shortest (tie : Tie) (m : Nat) (q : Int) (narrow : Bool) : Nat × Int :=
  let bits : Int := Nat.log2 m + 1 + q
  firstGrid tie (Interval.around m narrow) q 24 (bits * 30103 / 100000 + 2)

/-- How a floating point number is spelled. -/
structure FloatStyle where
  /-- From which power of ten of the leading digit to which a number is written without exponent;
  none for all. -/
  positional : Option (Int × Int)
  tie : Tie
  notANumber : String
  infinity : String

namespace FloatStyle

def zeros (n : Nat) : List Char := List.replicate n '0'

/-- The decimal in positional notation, with at least one digit on each side of the point. -/
def fixed (digits : List Char) (e : Int) : List Char :=
  if 0 ≤ e then digits ++ zeros e.toNat ++ ['.', '0']
  else
    let places := (-e).toNat
    let padded := zeros (places + 1 - digits.length) ++ digits
    padded.take (padded.length - places) ++ ['.'] ++ padded.drop (padded.length - places)

/-- The decimal with one digit before the point, and an exponent that shows its sign. -/
def scientific (digits : List Char) (e : Int) : List Char :=
  let power := e + (digits.length - 1 : Nat)
  digits.take 1 ++ (if digits.length = 1 then [] else '.' :: digits.drop 1) ++
    ['e', if power < 0 then '-' else '+'] ++ Nat.toDigits 10 power.natAbs

def render (style : FloatStyle) (x : Float) : String :=
  let bits := x.toBits.toNat
  let fraction := bits % 0x10000000000000
  let exponent := bits / 0x10000000000000 % 0x800
  let sign := if bits / 0x8000000000000000 = 1 then ['-'] else []
  let body :=
    if exponent = 2047 then
      if fraction = 0 then sign ++ style.infinity.toList else style.notANumber.toList
    else if exponent = 0 ∧ fraction = 0 then sign ++ ['0', '.', '0']
    else
      let m := if exponent = 0 then fraction else fraction + 0x10000000000000
      let q : Int := (max exponent 1 : Nat) - 1075
      let (d, e) := shortest style.tie m q (fraction = 0 && 1 < exponent)
      let digits := Nat.toDigits 10 d
      let power := e + (digits.length - 1 : Nat)
      let positional := match style.positional with
        | some (low, high) => low ≤ power && power ≤ high
        | none => true
      sign ++ if positional then fixed digits e else scientific digits e
  String.ofList body

end FloatStyle

end RemoteCall.Decimal
