import RemoteCall.Bytes
import RemoteCall.Shape
import RemoteCall.Text.Utf8

/-!
# Writing MessagePack by shape

Integers and lengths take the shortest form that holds them, and an integer that is not negative
takes an unsigned one. A record is a list of its fields.
-/

namespace RemoteCall.MessagePack

def writeInt (n : Int) : Bytes :=
  let word (marker : UInt8) (w : Nat) : Bytes :=
    marker :: Bytes.bigEndian w (n % Nat.pow 256 w).toNat
  if 0 ≤ n then
    if n < 0x80 then [UInt8.ofNat n.toNat]
    else if n < 0x100 then word 0xCC 1
    else if n < 0x10000 then word 0xCD 2
    else if n < 0x100000000 then word 0xCE 4
    else word 0xCF 8
  else if -0x20 ≤ n then [UInt8.ofNat (n + 256).toNat]
  else if -0x80 ≤ n then word 0xD0 1
  else if -0x8000 ≤ n then word 0xD1 2
  else if -0x80000000 ≤ n then word 0xD2 4
  else word 0xD3 8

def writeText (s : String) : Bytes :=
  let bs := Utf8.encode s
  let n := bs.length
  (if n < 0x20 then [UInt8.ofNat (0xA0 + n)]
  else if n < 0x100 then 0xD9 :: Bytes.bigEndian 1 n
  else if n < 0x10000 then 0xDA :: Bytes.bigEndian 2 n
  else 0xDB :: Bytes.bigEndian 4 n) ++ bs

/-- What comes before the `n` elements of a list. -/
def listHead (n : Nat) : Bytes :=
  if n < 0x10 then [UInt8.ofNat (0x90 + n)]
  else if n < 0x10000 then 0xDC :: Bytes.bigEndian 2 n
  else 0xDD :: Bytes.bigEndian 4 n

/-- What comes before the `n` entries of a table. -/
def tableHead (n : Nat) : Bytes :=
  if n < 0x10 then [UInt8.ofNat (0x80 + n)]
  else if n < 0x10000 then 0xDE :: Bytes.bigEndian 2 n
  else 0xDF :: Bytes.bigEndian 4 n

mutual

def write : Shape α → α → Bytes
  | .int t, n => writeInt (t.toInt n)
  | .text, s => writeText s
  | .unit, _ => [0xC0]
  | .option _, none => [0xC0]
  | .option s, some a => write s a
  | .list s, as => listHead as.length ++ as.flatMap (write s)
  | .pair a b, (x, y) => listHead 2 ++ write a x ++ write b y
  | .table key value _ rows, m =>
    tableHead (rows m).length ++ (rows m).flatMap fun (k, v) => write key k ++ write value v
  | .record _ fields _ parts, a => listHead fields.names.length ++ writeFields fields (parts a)

def writeFields : Fields α → α → Bytes
  | .none, _ => []
  | .field _ s _ rest, (a, b) => write s a ++ writeFields rest b

end

/-- Every value can be written. -/
def encode (s : Shape α) (a : α) : Bytes := write s a

end RemoteCall.MessagePack
