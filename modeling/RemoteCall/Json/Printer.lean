import RemoteCall.Error
import RemoteCall.Shape
import RemoteCall.Text.Utf8

/-!
# Writing JSON by shape

The text is compact and has one line: control characters are escaped, all other characters are
written as they are. A record is an object of its fields in their order. Only a text can be a key,
so a table with other keys has a text only when it is empty.
-/

namespace RemoteCall.Json

def ofString (s : String) : Bytes := Utf8.encode s

def hexDigit (n : Nat) : UInt8 := UInt8.ofNat (if n < 10 then 48 + n else 87 + n)

/-- One byte inside a string. -/
def escaped (b : UInt8) : Bytes :=
  if b = 34 || b = 92 then [92, b]
  else if b = 8 then [92, 98]
  else if b = 12 then [92, 102]
  else if b = 10 then [92, 110]
  else if b = 13 then [92, 114]
  else if b = 9 then [92, 116]
  else if b < 32 then [92, 117, 48, 48, hexDigit (b.toNat / 16), hexDigit (b.toNat % 16)]
  else [b]

def writeString (s : String) : Bytes := 34 :: (Utf8.encode s).flatMap escaped ++ [34]

def writeInt (n : Int) : Bytes := ofString (toString n)

/-- The parts with commas between them. -/
def commas (parts : List Bytes) : Bytes := (parts.intersperse [44]).flatten

def writeKey : Shape κ → κ → Option Bytes
  | .text, s => some (writeString s)
  | _, _ => none

mutual

/-- The value's text; none if a key is no text. -/
def write : Shape α → α → Option Bytes
  | .int t, n => some (writeInt (t.toInt n))
  | .text, s => some (writeString s)
  | .unit, _ => some [110, 117, 108, 108]
  | .option _, none => some [110, 117, 108, 108]
  | .option s, some a => write s a
  | .list s, as => (as.mapM (write s)).map fun parts => 91 :: commas parts ++ [93]
  | .pair a b, (x, y) => do
    let x ← write a x
    let y ← write b y
    return 91 :: commas [x, y] ++ [93]
  | .table key value _ rows, m => do
    let parts ← (rows m).mapM fun (k, v) => do return (← writeKey key k) ++ 58 :: (← write value v)
    return 123 :: commas parts ++ [125]
  | .record _ fields _ parts, a => do return 123 :: commas (← writeFields fields (parts a)) ++ [125]

/-- Each field with its key. -/
def writeFields : Fields α → α → Option (List Bytes)
  | .none, _ => some []
  | .field name s _ rest, (a, b) => do
    let part ← write s a
    let parts ← writeFields rest b
    return (writeString name ++ 58 :: part) :: parts

end

def encode (s : Shape α) (a : α) : Except IoError Bytes :=
  match write s a with
  | some bs => .ok bs
  | none => .error ⟨.invalidData, "key must be a string"⟩

end RemoteCall.Json
