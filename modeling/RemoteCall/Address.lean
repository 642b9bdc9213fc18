import RemoteCall.Decimal
import RemoteCall.Error

/-!
# Addresses of servers

An address is a host and a port, with the last colon between them. `Address.parse` takes any host;
`Address.numeric?` takes only hosts that are written as numbers: four decimal groups with points, or
hexadecimal groups with colons in square brackets, where two colons stand for groups of zeros.
-/

namespace RemoteCall

structure Address where
  host : String
  port : UInt16
  deriving Repr, DecidableEq

namespace Address

/-! ## Any host -/

/-- What stands before and behind the last colon. -/
def splitAtLastColon (text : String) : Option (String × String) :=
  let reversed := text.toList.reverse
  match reversed.dropWhile (· ≠ ':') with
  | [] => none
  | _ :: host =>
    some (String.ofList host.reverse, String.ofList (reversed.takeWhile (· ≠ ':')).reverse)

def port? (text : String) : Option UInt16 :=
  (Decimal.readNat? text).bind fun n => if n < 65536 then some (UInt16.ofNat n) else none

def parse (text : String) : Except IoError Address :=
  match splitAtLastColon text with
  | none => .error ⟨.invalidInput, "invalid socket address"⟩
  | some (host, port) =>
    match port? port with
    | none => .error ⟨.invalidInput, "invalid port value"⟩
    | some port => .ok ⟨host, port⟩

/-! ## Hosts in numbers -/

/-- The text between dots or colons. -/
def splitOn (separator : Char) (cs : List Char) : List (List Char) :=
  match cs with
  | [] => [[]]
  | c :: cs =>
    match splitOn separator cs with
    | [] => [[c]]
    | part :: parts => if c = separator then [] :: part :: parts else (c :: part) :: parts

/-- One of four groups: up to three digits below 256, without zeros in front. -/
def isOctet (cs : List Char) : Bool :=
  match Decimal.digits? cs with
  | some n => cs.length ≤ 3 && n < 256 && (cs.length = 1 || cs.head? ≠ some '0')
  | none => false

def isFourGroups (cs : List Char) : Bool :=
  let groups := splitOn '.' cs
  groups.length = 4 && groups.all isOctet

def isHexGroup (cs : List Char) : Bool :=
  !cs.isEmpty && cs.length ≤ 4 &&
    cs.all fun c => Decimal.isDigit c || ('a' ≤ c && c ≤ 'f') || ('A' ≤ c && c ≤ 'F')

/-- How many groups the text between colons makes; four decimal groups at the end count for two.
None if some of it is no group. -/
def groupCount? (decimalEnd : Bool) : List (List Char) → Option Nat
  | [] => some 0
  | [part] =>
    if isHexGroup part then some 1
    else if decimalEnd && isFourGroups part then some 2
    else none
  | part :: parts => if isHexGroup part then (groupCount? decimalEnd parts).map (· + 1) else none

/-- The parts around the first place where two colons meet. -/
def aroundDoubleColon : List Char → Option (List Char × List Char)
  | ':' :: ':' :: cs => some ([], cs)
  | c :: cs => (aroundDoubleColon cs).map fun (before, behind) => (c :: before, behind)
  | [] => none

/-- The groups of a text that may be empty. -/
def groups (cs : List Char) : List (List Char) := if cs.isEmpty then [] else splitOn ':' cs

/-- Eight groups, or fewer around one double colon. -/
def isEightGroups (cs : List Char) : Bool :=
  match aroundDoubleColon cs with
  | none => groupCount? true (groups cs) = some 8
  | some (before, behind) =>
    match groupCount? false (groups before), groupCount? true (groups behind) with
    | some m, some n => m + n ≤ 7
    | _, _ => false

/-- Whether the text is empty or a percent sign and a number of 32 bits. -/
def isScope (cs : List Char) : Bool :=
  match cs with
  | [] => true
  | '%' :: ds => (Decimal.digits? ds).any (· < 0x100000000)
  | _ => false

def isBracketed (cs : List Char) : Bool :=
  match cs, cs.getLast? with
  | '[' :: inside, some ']' =>
    let inside := inside.dropLast
    isEightGroups (inside.takeWhile (· ≠ '%')) && isScope (inside.dropWhile (· ≠ '%'))
  | _, _ => false

/-- An address whose host is written in numbers. The port has no sign. -/
def numeric? (text : String) : Option Address :=
  match splitAtLastColon text with
  | none => none
  | some (host, port) =>
    match port? port with
    | none => none
    | some n =>
      let isHost := isFourGroups host.toList || isBracketed host.toList
      if port.toList.all Decimal.isDigit && isHost then some ⟨host, n⟩ else none

end Address

end RemoteCall
