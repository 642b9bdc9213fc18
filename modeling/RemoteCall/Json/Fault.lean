import RemoteCall.Error
import RemoteCall.Shape
import RemoteCall.Text.Utf8

/-!
# Where a JSON text goes wrong

A reader holds the bytes that it has not read yet, so a place in the text is told by how many bytes
come after it. A fault is *placed*, or it is a mismatch that is still *loose*: it gets its place
when the list or object around it is closed. `Json.Error` has the place as line and column.
-/

namespace RemoteCall.Json

/-! ## Algorithm -/

inductive Cause
  | endInValue
  | endInString
  | endInList
  | endInObject
  | expectedColon
  | expectedListComma
  | expectedObjectComma
  | expectedWord
  | expectedValue
  | invalidEscape
  | invalidNumber
  | numberOutOfRange
  | invalidCodePoint
  | controlCharacter
  | keyIsNoString
  | loneSurrogate
  | trailingComma
  | trailingCharacters
  | endOfEscape
  | mismatch (m : Mismatch)

/-- JSON has no word for the unit but `null`; large and small numbers have an exponent. -/
def dialect : Dialect := ⟨"null", ⟨some (-5, 15), .even, "NaN", "inf"⟩⟩

def Cause.message : Cause → String
  | .endInValue => "EOF while parsing a value"
  | .endInString => "EOF while parsing a string"
  | .endInList => "EOF while parsing a list"
  | .endInObject => "EOF while parsing an object"
  | .expectedColon => "expected " ++ ticked ":"
  | .expectedListComma => "expected " ++ ticked "," ++ " or " ++ ticked "]"
  | .expectedObjectComma => "expected " ++ ticked "," ++ " or " ++ ticked "\x7d"
  | .expectedWord => "expected ident"
  | .expectedValue => "expected value"
  | .invalidEscape => "invalid escape"
  | .invalidNumber => "invalid number"
  | .numberOutOfRange => "number out of range"
  | .invalidCodePoint => "invalid unicode code point"
  | .controlCharacter => "control character (\\u0000-\\u001F) found while parsing a string"
  | .keyIsNoString => "key must be a string"
  | .loneSurrogate => "lone leading surrogate in hex escape"
  | .trailingComma => "trailing comma"
  | .trailingCharacters => "trailing characters"
  | .endOfEscape => "unexpected end of hex escape"
  | .mismatch m => m.message dialect

/-- Whether more bytes could have helped. -/
def Cause.isEnd : Cause → Bool
  | .endInValue | .endInString | .endInList | .endInObject => true
  | _ => false

/-- Why reading stopped. -/
inductive Stop
  /-- `left` bytes come after the place. -/
  | placed (cause : Cause) (left : Nat)
  /-- A mismatch with what is left to read. -/
  | loose (m : Mismatch) (rest : Bytes)

/-- Reads a value off the front of the bytes. -/
abbrev Scan := StateT Bytes (Except Stop)

/-- Stops before the next byte. -/
def here (c : Cause) : Scan α := fun rest => .error (.placed c rest.length)

/-- Stops at the next byte, or at the end. -/
def peeked (c : Cause) : Scan α := fun rest => .error (.placed c (rest.length - 1))

def loose (m : Mismatch) : Scan α := fun rest => .error (.loose m rest)

/-- Places a loose mismatch before the next byte. -/
def placing (m : Except Mismatch α) : Scan α :=
  match m with
  | .ok a => pure a
  | .error m => here (.mismatch m)

structure Error where
  cause : Cause
  line : Nat
  column : Nat

namespace Error

/-- Line and column after some bytes: lines count from one, columns are bytes since the newline. -/
def position (bs : Bytes) : Nat × Nat :=
  let step (place : Nat × Nat) (b : UInt8) : Nat × Nat :=
    if b = 10 then (place.1 + 1, 0) else (place.1, place.2 + 1)
  bs.foldl step (1, 0)

/-- The fault of a whole text. -/
def ofStop (text : Bytes) (stop : Stop) : Error :=
  let (cause, left) := match stop with
    | .placed c left => (c, left)
    | .loose m rest => (Cause.mismatch m, rest.length)
  let (line, column) := position (text.take (text.length - left))
  ⟨cause, line, column⟩

def message (e : Error) : String :=
  e.cause.message ++ " at line " ++ toString e.line ++ " column " ++ toString e.column

def toIo (e : Error) : IoError :=
  ⟨if e.cause.isEnd then .unexpectedEof else .invalidData, e.message⟩

end Error

end RemoteCall.Json
