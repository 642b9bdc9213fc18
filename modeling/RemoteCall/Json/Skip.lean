import RemoteCall.Json.Token

/-!
# JSON values that nobody asks for

`skipValue` only looks for the end of a value: strings need not be text, numbers may be of any size,
and lists and objects nest to any depth. The open brackets are kept in a stack.
-/

namespace RemoteCall.Json

/-! ## Scalars -/

def dropDigit : Bytes → Bytes := List.dropWhile isDigit

/-- What follows the letter of an exponent. -/
def skipExponent : Scan Unit := fun bs =>
  let bs := match bs with
    | 43 :: bs => bs
    | 45 :: bs => bs
    | bs => bs
  match bs with
  | [] => here .invalidNumber []
  | b :: bs => if isDigit b then .ok ((), dropDigit bs) else here .invalidNumber bs

def skipAfterDigits : Scan Unit := fun bs =>
  match bs with
  | 69 :: bs => skipExponent bs
  | 101 :: bs => skipExponent bs
  | bs => .ok ((), bs)

def skipFraction : Scan Unit := fun bs =>
  match bs with
  | 46 :: bs =>
    if startsWithDigit bs then skipAfterDigits (dropDigit bs) else peeked .invalidNumber bs
  | bs => skipAfterDigits bs

/-- A number after its sign. -/
def skipNumber : Scan Unit := fun
  | [] => here .invalidNumber []
  | b :: bs =>
    if b = 48 then if startsWithDigit bs then peeked .invalidNumber bs else skipFraction bs
    else if isDigit b then skipFraction (dropDigit bs)
    else here .invalidNumber bs

/-- A string after its opening quote; one more round than there are bytes is fuel enough. -/
def skipStringAux : (fuel : Nat) → Scan Unit
  | 0 => here .endInString
  | fuel + 1 => fun
    | [] => here .endInString []
    | b :: bs =>
      if b = 34 then .ok ((), bs)
      else if b = 92 then
        match bs with
        | [] => here .endInString []
        | e :: bs =>
          if (shortEscape? e).isSome then skipStringAux fuel bs
          else if e = 117 then
            match hex4 bs with
            | .error stop => .error stop
            | .ok (_, bs) => skipStringAux fuel bs
          else here .invalidEscape bs
      else if b < 32 then here .controlCharacter (b :: bs)
      else skipStringAux fuel bs

def skipString : Scan Unit := fun bs => skipStringAux (bs.length + 1) bs

/-! ## Nested values -/

inductive Bracket
  | list
  | object

def Bracket.close : Bracket → UInt8
  | .list => 93
  | .object => 125

def Bracket.endInside : Bracket → Cause
  | .list => .endInList
  | .object => .endInObject

def Bracket.expectedComma : Bracket → Cause
  | .list => .expectedListComma
  | .object => .expectedObjectComma

/-- A key and its colon. -/
def skipKey : Scan Unit := do
  blank
  match ← next? with
  | some 34 => advance
  | some _ => peeked .keyIsNoString
  | none => peeked .endInObject
  skipString
  blank
  match ← next? with
  | some 58 => advance
  | some _ => peeked .expectedColon
  | none => peeked .endInObject

/-- What comes before a value inside a bracket. -/
def Bracket.lead : Bracket → Scan Unit
  | .list => pure ()
  | .object => skipKey

/-- Where skipping stands: before a value, behind an opening bracket, or behind a value. -/
inductive Skipping
  | value
  | opened
  | done

/-- What a value starts with, or the value if it is a scalar. -/
def skipStart : Scan (Option Bracket) := do
  blank
  match ← next? with
  | none => peeked .endInValue
  | some b =>
    if b = 110 then do advance; word ull; pure none
    else if b = 116 then do advance; word rue; pure none
    else if b = 102 then do advance; word alse; pure none
    else if b = 45 then do advance; skipNumber; pure none
    else if isDigit b then do skipNumber; pure none
    else if b = 34 then do advance; skipString; pure none
    else if b = 91 then do advance; pure (some .list)
    else if b = 123 then do advance; pure (some .object)
    else peeked .expectedValue

/-- Skips the rest of a value that is inside the given brackets, the innermost first. A byte is
taken at least in every second round. -/
def skipOpen : (fuel : Nat) → Skipping → (inside : List Bracket) → Scan Unit
  | 0, _, _ => pure ()
  | fuel + 1, .value, stack => do
    match ← skipStart with
    | none => skipOpen fuel .done stack
    | some b => skipOpen fuel .opened (b :: stack)
  | _ + 1, .done, [] => pure ()
  | _ + 1, .opened, [] => pure ()
  | fuel + 1, .opened, b :: stack => do
    blank
    match ← next? with
    | none => peeked b.endInside
    | some c =>
      if c = b.close then do advance; skipOpen fuel .done stack
      else do b.lead; skipOpen fuel .value (b :: stack)
  | fuel + 1, .done, b :: stack => do
    blank
    match ← next? with
    | none => peeked b.endInside
    | some c =>
      if c = 44 then do advance; b.lead; skipOpen fuel .value (b :: stack)
      else if c = b.close then do advance; skipOpen fuel .done stack
      else peeked b.expectedComma

def skipValue : Scan Unit := fun bs => skipOpen (2 * bs.length + 2) .value [] bs

end RemoteCall.Json
