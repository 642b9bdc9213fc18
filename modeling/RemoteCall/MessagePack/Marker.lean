import RemoteCall.Bytes

/-!
# MessagePack markers

The first byte of a value says what it is; short integers, texts, lists and tables have their number
or their length in it, longer ones in the bytes that follow.
-/

namespace RemoteCall.MessagePack

/-- Widths are in bytes. -/
inductive Marker
  | null
  | bool (b : Bool)
  | fixPos (n : Nat)
  | fixNeg (n : Int)
  | uint (width : Nat)
  | sint (width : Nat)
  | float (width : Nat)
  | fixStr (n : Nat)
  | str (width : Nat)
  | bin (width : Nat)
  | fixArray (n : Nat)
  | array (width : Nat)
  | fixMap (n : Nat)
  | map (width : Nat)
  | fixExt (n : Nat)
  | ext (width : Nat)
  | reserved
  deriving Repr, DecidableEq

namespace Marker

def ofByte (b : UInt8) : Marker :=
  let n := b.toNat
  if n < 0x80 then .fixPos n
  else if n < 0x90 then .fixMap (n - 0x80)
  else if n < 0xA0 then .fixArray (n - 0x90)
  else if n < 0xC0 then .fixStr (n - 0xA0)
  else if n = 0xC0 then .null
  else if n = 0xC1 then .reserved
  else if n < 0xC4 then .bool (n = 0xC3)
  else if n < 0xC7 then .bin (Nat.pow 2 (n - 0xC4))
  else if n < 0xCA then .ext (Nat.pow 2 (n - 0xC7))
  else if n < 0xCC then .float (4 * (n - 0xC9))
  else if n < 0xD0 then .uint (Nat.pow 2 (n - 0xCC))
  else if n < 0xD4 then .sint (Nat.pow 2 (n - 0xD0))
  else if n < 0xD9 then .fixExt (Nat.pow 2 (n - 0xD4))
  else if n < 0xDC then .str (Nat.pow 2 (n - 0xD9))
  else if n < 0xDE then .array (2 * (n - 0xDB))
  else if n < 0xE0 then .map (2 * (n - 0xDD))
  else .fixNeg (n - 256)

/-- The name with the number of bits, or with the number that the marker holds. -/
def name : Marker → String
  | .null => "Null"
  | .bool b => if b then "True" else "False"
  | .fixPos n => "FixPos(" ++ toString n ++ ")"
  | .fixNeg n => "FixNeg(" ++ toString n ++ ")"
  | .uint w => "U" ++ toString (8 * w)
  | .sint w => "I" ++ toString (8 * w)
  | .float w => "F" ++ toString (8 * w)
  | .fixStr n => "FixStr(" ++ toString n ++ ")"
  | .str w => "Str" ++ toString (8 * w)
  | .bin w => "Bin" ++ toString (8 * w)
  | .fixArray n => "FixArray(" ++ toString n ++ ")"
  | .array w => "Array" ++ toString (8 * w)
  | .fixMap n => "FixMap(" ++ toString n ++ ")"
  | .map w => "Map" ++ toString (8 * w)
  | .fixExt n => "FixExt" ++ toString n
  | .ext w => "Ext" ++ toString (8 * w)
  | .reserved => "Reserved"

end Marker

end RemoteCall.MessagePack
