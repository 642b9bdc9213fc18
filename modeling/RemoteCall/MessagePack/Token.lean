import RemoteCall.Error
import RemoteCall.MessagePack.Marker
import RemoteCall.Shape
import RemoteCall.Text.Utf8

/-!
# MessagePack tokens

A token is a scalar, or the length of the text, bytes, list or table that follows. `skip` passes
over a value that nobody asks for; lists, tables and extensions may nest to a bounded depth.
-/

namespace RemoteCall.MessagePack

/-! ## Faults -/

inductive Fault
  /-- The bytes end where a marker was to come. -/
  | noMarker
  /-- The bytes end inside a number or a length. -/
  | noData
  /-- The bytes end inside a text, bytes or an extension. -/
  | noContent
  | wrongMarker (m : Marker)
  /-- The type has left a list or a table after this many elements. -/
  | wrongLength (taken : Nat)
  | notUtf8 (f : Utf8.Fault)
  | tooDeep
  | mismatch (m : Mismatch)

/-- Floating point numbers are written without exponent. -/
def dialect : Dialect := ⟨"unit value", ⟨none, .larger, "NaN", "inf"⟩⟩

def Fault.message : Fault → String
  | .noMarker => "IO error while reading marker: failed to fill whole buffer"
  | .noData => "IO error while reading data: failed to fill whole buffer"
  | .noContent => "IO error while reading data: unexpected end of file"
  | .wrongMarker m => "wrong msgpack marker " ++ m.name
  | .wrongLength n => "array had incorrect length, expected " ++ toString n
  | .notUtf8 f => "string found to be invalid utf8: " ++ f.message
  | .tooDeep => "depth limit exceeded"
  | .mismatch m => m.message dialect

def Fault.toIo (f : Fault) : IoError := .ofText f.message

/-- Reads a value off the front of the bytes. -/
abbrev Scan := StateT Bytes (Except Fault)

def fail (f : Fault) : Scan α := fun _ => .error f

/-! ## Tokens -/

def marker : Scan Marker := fun
  | [] => .error .noMarker
  | b :: bs => .ok (.ofByte b, bs)

/-- Exactly `n` bytes. -/
def take (n : Nat) (missing : Fault) : Scan Bytes := fun bs =>
  let got := bs.take n
  if got.length = n then .ok (got, bs.drop n) else .error missing

/-- A word of `w` bytes. -/
def uint (w : Nat) : Scan Nat := do return Bytes.ofBigEndian (← take w .noData)

/-- A word of `w` bytes in two's complement. -/
def sint (w : Nat) : Scan Int := do
  let n ← uint w
  return if n < Nat.pow 2 (8 * w - 1) then (n : Int) else (n : Int) - Nat.pow 256 w

/-- A floating point number of four or eight bytes. -/
def float (w : Nat) : Scan Float := do
  let n ← uint w
  return if w = 4 then (Float32.ofBits (UInt32.ofNat n)).toFloat else Float.ofBits (UInt64.ofNat n)

inductive Token
  | null
  | bool (b : Bool)
  /-- Only numbers that cannot be negative count as unsigned. -/
  | int (n : Int) (unsigned : Bool)
  | float (x : Float)
  | text (length : Nat)
  | bytes (length : Nat)
  | list (length : Nat)
  | table (length : Nat)
  | ext (length : Nat)

def token (m : Marker) : Scan Token :=
  match m with
  | .null => pure .null
  | .bool b => pure (.bool b)
  | .fixPos n => pure (.int n true)
  | .fixNeg n => pure (.int n false)
  | .uint w => do return .int (← uint w) true
  | .sint w => do return .int (← sint w) false
  | .float w => do return .float (← float w)
  | .fixStr n => pure (.text n)
  | .str w => do return .text (← uint w)
  | .bin w => do return .bytes (← uint w)
  | .fixArray n => pure (.list n)
  | .array w => do return .list (← uint w)
  | .fixMap n => pure (.table n)
  | .map w => do return .table (← uint w)
  | .fixExt n => pure (.ext n)
  | .ext w => do return .ext (← uint w)
  | .reserved => fail (.wrongMarker .reserved)

/-- Whether the marker is that of a scalar; only these are read as numbers. -/
def Marker.isScalar : Marker → Bool
  | .null | .bool _ | .fixPos _ | .fixNeg _ | .uint _ | .sint _ | .float _ => true
  | _ => false

/-- The content of a text, bytes or an extension. -/
def content (n : Nat) : Scan Bytes := take n .noContent

/-- The content of a text. -/
def text (n : Nat) : Scan String := do
  match Utf8.decode (← content n) with
  | .ok s => pure s
  | .error f => fail (.notUtf8 f)

/-! ## Nesting -/

/-- How many lists, tables and extensions may lie around each other. -/
def levels : Nat := 1023

/-- `n` times the same. -/
def times (scan : Scan Unit) : Nat → Scan Unit
  | 0 => pure ()
  | n + 1 => do scan; times scan n

/-- Passes over a value with at most `levels` levels. -/
def skip (levels : Nat) : Scan Unit := do
  match ← token (← marker) with
  | .text n | .bytes n => do let _ ← content n
  | .list n =>
    match levels with
    | 0 => fail .tooDeep
    | l + 1 => times (skip l) n
  | .table n =>
    match levels with
    | 0 => fail .tooDeep
    | l + 1 => times (do skip l; skip l) n
  | .ext n =>
    match levels with
    | 0 => fail .tooDeep
    | _ + 1 => do
      let _ ← uint 1
      let _ ← content n
  | _ => pure ()

end RemoteCall.MessagePack
