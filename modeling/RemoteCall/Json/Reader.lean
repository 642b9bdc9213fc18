import RemoteCall.Json.Skip

/-!
# Reading JSON by shape

`Json.decode` reads one value of a shape from a whole text. A record is a list of its fields or an
object; objects may hold their keys in any order. A mismatch inside a list or an object is placed
after the attempt to close it, which may take blanks, a comma and the bracket.
-/

namespace RemoteCall.Json

/-! ## Brackets -/

/-- Closes a list: what stands in the way, if anything does, and what is left then. -/
def closeList (bs : Bytes) : Option Cause × Bytes :=
  match skipBlank bs with
  | [] => (some .endInList, [])
  | b :: rest =>
    if b = 93 then (none, rest)
    else if b = 44 then
      let rest := skipBlank rest
      (some (if rest.head? = some 93 then .trailingComma else .trailingCharacters), rest)
    else (some .trailingCharacters, b :: rest)

/-- Closes an object, likewise. -/
def closeObject (bs : Bytes) : Option Cause × Bytes :=
  match skipBlank bs with
  | [] => (some .endInObject, [])
  | b :: rest =>
    if b = 125 then (none, rest)
    else (some (if b = 44 then .trailingComma else .trailingCharacters), b :: rest)

/-- The inside of a bracket, and its end. -/
def closing (close : Bytes → Option Cause × Bytes) (inside : Scan α) : Scan α := fun bs =>
  match inside bs with
  | .ok (a, rest) =>
    match close rest with
    | (none, rest) => .ok (a, rest)
    | (some c, rest) => peeked c rest
  | .error (.placed c left) => .error (.placed c left)
  | .error (.loose m rest) => here (.mismatch m) (close rest).2

/-- Whether an element follows in a list; its comma is taken. -/
def anotherItem (first : Bool) : Scan Bool := do
  blank
  match ← next? with
  | none => peeked .endInList
  | some b =>
    if b = 93 then pure false
    else if first then pure true
    else if b = 44 then do
      advance
      blank
      match ← next? with
      | none => peeked .endInValue
      | some b => if b = 93 then peeked .trailingComma else pure true
    else peeked .expectedListComma

/-- Whether a key follows in an object; its comma and its opening quote are taken. -/
def anotherKey (first : Bool) : Scan Bool := do
  blank
  match ← next? with
  | none => peeked .endInObject
  | some b =>
    if b = 125 then pure false
    else if first then
      if b = 34 then do advance; pure true else peeked .keyIsNoString
    else if b = 44 then do
      advance
      blank
      match ← next? with
      | none => peeked .endInValue
      | some b =>
        if b = 34 then do advance; pure true
        else if b = 125 then peeked .trailingComma
        else peeked .keyIsNoString
    else peeked .expectedObjectComma

def colon : Scan Unit := do
  blank
  match ← next? with
  | some 58 => advance
  | some _ => peeked .expectedColon
  | none => peeked .endInObject

/-- The elements of a list, on top of those in `acc`, the last first. Every element takes a byte,
and the last round finds no element: one more round than there are bytes is fuel enough. -/
def items (item : Scan α) : (fuel : Nat) → (first : Bool) → (acc : List α) → Scan (List α)
  | 0, _, acc => pure acc.reverse
  | fuel + 1, first, acc => do
    if ← anotherItem first then do
      let a ← item
      items item fuel false (a :: acc)
    else pure acc.reverse

/-- The entries of an object: `entry` takes what was met so far and the key, and reads the value.
The fuel is as for `items`. -/
def entries (entry : σ → String → Scan σ) : (fuel : Nat) → (first : Bool) → σ → Scan σ
  | 0, _, s => pure s
  | fuel + 1, first, s => do
    if ← anotherKey first then do
      let s ← entry s (← string)
      entries entry fuel false s
    else pure s

/-! ## Values -/

/-- Stops because the value that comes next is not what was `expected`; its scalar is taken. -/
def wrongType (expected : String) : Scan α := do
  let found (u : Unexpected) : Scan α := here (.mismatch (.wrongType u expected))
  let foundNumber (n : Number) : Scan α := match n with
    | .int n => found (.int n)
    | .float x => found (.float x)
  match ← next? with
  | none => peeked .expectedValue
  | some b =>
    if b = 110 then do advance; word ull; found .null
    else if b = 116 then do advance; word rue; found (.bool true)
    else if b = 102 then do advance; word alse; found (.bool false)
    else if b = 45 then do advance; foundNumber (← number true)
    else if isDigit b then do foundNumber (← number false)
    else if b = 34 then do advance; found (.text (← string))
    else if b = 91 then found .sequence
    else if b = 123 then found .table
    else peeked .expectedValue

/-- The first byte of a value. -/
def valueStart : Scan UInt8 := do
  blank
  match ← next? with
  | none => peeked .endInValue
  | some b => pure b

def readInt (t : IntType α) : Scan α := do
  let finish (n : Number) : Scan α := match n with
    | .int n => placing (t.read n)
    | .float x => here (.mismatch (.wrongType (.float x) t.name))
  let b ← valueStart
  if b = 45 then do advance; finish (← number true)
  else if isDigit b then do finish (← number false)
  else wrongType t.name

def readText : Scan String := do
  let b ← valueStart
  if b = 34 then do advance; string else wrongType Shape.text.expected

def readUnit : Scan Unit := do
  let b ← valueStart
  if b = 110 then do advance; word ull else wrongType Shape.unit.expected

/-- A key of the given shape; only a text can be one. -/
def keyOf : Shape κ → String → Except Mismatch κ
  | .text, s => .ok s
  | shape, s => .error (.wrongType (.text s) shape.expected)

def looseOr (r : Except Mismatch α) : Scan α :=
  match r with
  | .ok a => pure a
  | .error m => loose m

def broken (r : Except String α) : Except Mismatch α :=
  match r with
  | .ok a => .ok a
  | .error rule => .error (.broken rule)

mutual

def read : Shape α → Scan α
  | .int t => readInt t
  | .text => readText
  | .unit => readUnit
  | .option s => do
    blank
    match ← next? with
    | some 110 => do advance; word ull; pure none
    | _ => do return some (← read s)
  | .list s => do
    if (← valueStart) = 91 then do
      advance
      closing closeList fun bs => items (read s) (bs.length + 1) true [] bs
    else wrongType (Shape.list s).expected
  | .pair a b => do
    if (← valueStart) = 91 then do
      advance
      closing closeList do
        let missing (n : Nat) : Scan Unit := loose (.wrongLength n (Shape.pair a b).expected)
        if !(← anotherItem true) then missing 0
        let x ← read a
        if !(← anotherItem false) then missing 1
        let y ← read b
        pure (x, y)
    else wrongType (Shape.pair a b).expected
  | .table key value collect rows => do
    if (← valueStart) = 123 then do
      advance
      let entry (acc : List _) (name : String) : Scan (List _) := do
        let k ← looseOr (keyOf key name)
        colon
        let v ← read value
        pure ((k, v) :: acc)
      let found ← closing closeObject fun bs => entries entry (bs.length + 1) true [] bs
      pure (collect found.reverse)
    else wrongType (Shape.table key value collect rows).expected
  | .record style fields make _ => do
    let b ← valueStart
    if b = 91 then do
      advance
      closing closeList do
        looseOr (broken (make (← readFields style fields true 0)))
    else if b = 123 then do
      advance
      closing closeObject do
        let entry (slots : fields.Slots) (name : String) : Scan fields.Slots :=
          match readNamed fields name slots with
          | some scan => scan
          | none =>
            if style.strict then loose (.unknownField name style.key)
            else do colon; skipValue; pure slots
        let slots ← fun bs => entries entry (bs.length + 1) true fields.empty bs
        let parts ← looseOr (fields.gather slots)
        looseOr (broken (make parts))
    else wrongType style.expected

/-- The fields of a record as the elements of a list, from field number `n` on. -/
def readFields (style : RecordStyle) : Fields α → (first : Bool) → (n : Nat) → Scan α
  | .none, _, _ => pure ()
  | .field _ s default rest, first, n => do
    if ← anotherItem first then do
      let a ← read s
      return (a, ← readFields style rest false (n + 1))
    else match default with
      | none => loose (.wrongLength n style.inFull)
      | some a => do return (a, ← readFields style rest first (n + 1))

/-- Reads the value of the field that has the given name, if there is one. -/
def readNamed : (fields : Fields α) → String → fields.Slots → Option (Scan fields.Slots)
  | .none, _, _ => none
  | .field (α := β) name s _ rest, key, slots =>
    let (slot, slots) : Option β × rest.Slots := slots
    if key = name then
      some (if slot.isSome then loose (.duplicateField name)
        else do colon; return (some (← read s), slots))
    else (readNamed rest key slots).map fun scan => do return (slot, ← scan)

end

/-- Only blanks may follow the value. -/
def finish : Scan Unit := do
  blank
  match ← next? with
  | none => pure ()
  | some _ => peeked .trailingCharacters

/-- Reads a whole text. -/
def decode (s : Shape α) (text : Bytes) : Except Error α :=
  match (do let a ← read s; finish; pure a : Scan α) text with
  | .ok (a, _) => .ok a
  | .error stop => .error (Error.ofStop text stop)

end RemoteCall.Json
