import RemoteCall.MessagePack.Token

/-!
# Reading MessagePack by shape

`MessagePack.decode` reads one value of a shape and ignores what follows it. A record is a list of
its fields or a table with names, or numbers, for keys. Bytes can stand for a list of small
integers.
-/

namespace RemoteCall.MessagePack

def mismatch (m : Mismatch) : Scan α := fail (.mismatch m)

def ofMismatch (r : Except Mismatch α) : Scan α :=
  match r with
  | .ok a => pure a
  | .error m => mismatch m

def broken (r : Except String α) : Scan α :=
  match r with
  | .ok a => pure a
  | .error rule => mismatch (.broken rule)

/-- One level deeper, if that is allowed. -/
def enter (levels : Nat) (inside : Nat → Scan α) : Scan α :=
  match levels with
  | 0 => fail .tooDeep
  | l + 1 => inside l

/-- Stops at a token that is not what was `expected`. A text must be one all the same. -/
def wrongType (levels : Nat) (expected : String) (t : Token) : Scan α :=
  let found (u : Unexpected) : Scan α := mismatch (.wrongType u expected)
  match t with
  | .null => found .null
  | .bool b => found (.bool b)
  | .int n _ => found (.int n)
  | .float x => found (.float x)
  | .text n => do found (.text (← text n))
  | .bytes n => do let _ ← content n; found .bytes
  | .list _ => enter levels fun _ => found .sequence
  | .table _ => enter levels fun _ => found .table
  | .ext _ => enter levels fun _ => found .wrapped

def readInt (levels : Nat) (t : IntType α) : Scan α := do
  let m ← marker
  if m.isScalar then
    match ← token m with
    | .int n _ => ofMismatch (t.read n)
    | other => wrongType levels t.name other
  else fail (.wrongMarker m)

def readText (levels : Nat) : Scan String := do
  match ← token (← marker) with
  | .text n => text n
  | .bytes n =>
    match Utf8.decode (← content n) with
    | .ok s => pure s
    | .error _ => mismatch (.wrongValue .bytes Shape.text.expected)
  | other => wrongType levels Shape.text.expected other

def readUnit (levels : Nat) : Scan Unit := do
  match ← token (← marker) with
  | .null => pure ()
  | other => wrongType levels Shape.unit.expected other

/-! ## Bytes for values -/

/-- A byte where a value of the shape was to be. -/
def ofByte : Shape α → UInt8 → Except Mismatch α
  | .int t, b => t.read b.toNat
  | .option _, b => .error (.wrongType (.int b.toNat) "option")
  | shape, b => .error (.wrongType (.int b.toNat) shape.expected)

/-- The fields of a record as bytes, from field number `n` on. Bytes too many do not matter. -/
def fieldsOfBytes (style : RecordStyle) : Fields α → (n : Nat) → Bytes → Except Mismatch α
  | .none, _, _ => .ok ()
  | .field _ s _ rest, n, b :: bs => do
    let a ← ofByte s b
    return (a, ← fieldsOfBytes style rest (n + 1) bs)
  | .field _ _ (some a) rest, n, [] => do return (a, ← fieldsOfBytes style rest (n + 1) [])
  | .field _ _ none _, n, [] => .error (.wrongLength n style.inFull)

/-! ## Keys -/

/-- What a key says: a name or a field's number. -/
inductive Key
  | name (s : String)
  | number (n : Nat)

/-- A key that is no text names no field, as no field's name has such characters. -/
def readKey (levels : Nat) (style : RecordStyle) : Scan Key := do
  match ← token (← marker) with
  | .int n true =>
    if style.numbered then pure (.number n.toNat) else wrongType levels style.key (.int n true)
  | .text n =>
    let bs ← content n
    match Utf8.decode bs with
    | .ok s => pure (.name s)
    | .error f => if style.strict then fail (.notUtf8 f) else pure (.name (Utf8.lossy bs))
  | .bytes n => do return .name (Utf8.lossy (← content n))
  | other => wrongType levels style.key other

/-- The name that a key stands for; a number beyond the fields stands for none. -/
def Key.name? (names : List String) : Key → Option String
  | .name s => some s
  | .number n => names[n]?

/-! ## Values -/

/-- `n` elements, on top of those in `acc`, the last first. -/
def items (item : Scan α) : (n : Nat) → (acc : List α) → Scan (List α)
  | 0, acc => pure acc.reverse
  | n + 1, acc => do
    let a ← item
    items item n (a :: acc)

/-- `n` entries, each put into what was met before. -/
def entries (entry : σ → Scan σ) : (n : Nat) → σ → Scan σ
  | 0, s => pure s
  | n + 1, s => do
    let s ← entry s
    entries entry n s

/-- A list of `n` elements of which the type has left `left`. -/
def whole (n : Nat) (scan : Scan (α × Nat)) : Scan α := do
  let (a, left) ← scan
  if left = 0 then pure a else fail (.wrongLength (n - left))

mutual

def read (levels : Nat) : Shape α → Scan α
  | .int t => readInt levels t
  | .text => readText levels
  | .unit => readUnit levels
  | .option s => fun bs =>
    match bs with
    | 0xC0 :: bs => .ok (none, bs)
    | bs => (do return some (← read levels s) : Scan _) bs
  | .list s => do
    match ← token (← marker) with
    | .list n => enter levels fun l => items (read l s) n []
    | .bytes n => do ofMismatch ((← content n).mapM (ofByte s))
    | other => wrongType levels (Shape.list s).expected other
  | .pair a b => do
    let expected := (Shape.pair a b).expected
    match ← token (← marker) with
    | .list n => enter levels fun l => whole n do
      if n = 0 then mismatch (.wrongLength 0 expected)
      let x ← read l a
      if n = 1 then mismatch (.wrongLength 1 expected)
      let y ← read l b
      return ((x, y), n - 2)
    | .bytes n => do
      match ← content n with
      | x :: y :: _ => do return (← ofMismatch (ofByte a x), ← ofMismatch (ofByte b y))
      | [x] => do
        let _ ← ofMismatch (ofByte a x)
        mismatch (.wrongLength 1 expected)
      | [] => mismatch (.wrongLength 0 expected)
    | other => wrongType levels expected other
  | .table key value collect rows => do
    match ← token (← marker) with
    | .table n => enter levels fun l => do
      let entry (acc : List _) : Scan (List _) := do
        let k ← read l key
        let v ← read l value
        return (k, v) :: acc
      return collect (← entries entry n []).reverse
    | other => wrongType levels (Shape.table key value collect rows).expected other
  | .record style fields make _ => do
    match ← token (← marker) with
    | .list n => enter levels fun l => whole n do
      let (parts, left) ← readFields l style fields 0 n
      return (← broken (make parts), left)
    | .bytes n => do
      broken (make (← ofMismatch (fieldsOfBytes style fields 0 (← content n))))
    | .table n => enter levels fun l => do
      let entry (slots : fields.Slots) : Scan fields.Slots := do
        let key := (← readKey l style).name? fields.names
        match key.bind fun name => readNamed l fields name slots with
        | some scan => scan
        | none =>
          if style.strict then mismatch (.unknownField (key.getD "") style.key)
          else do skip l; pure slots
      let slots ← entries entry n fields.empty
      broken (make (← ofMismatch (fields.gather slots)))
    | other => wrongType levels style.expected other

/-- The fields of a record as the elements of a list that has `left` more of them, from field number
`n` on; also how many elements are left over. -/
def readFields (levels : Nat) (style : RecordStyle) :
    Fields α → (n left : Nat) → Scan (α × Nat)
  | .none, _, left => pure ((), left)
  | .field _ s _ rest, n, left + 1 => do
    let a ← read levels s
    let (b, left) ← readFields levels style rest (n + 1) left
    return ((a, b), left)
  | .field _ _ default rest, n, 0 =>
    match default with
    | none => mismatch (.wrongLength n style.inFull)
    | some a => do
      let (b, left) ← readFields levels style rest (n + 1) 0
      return ((a, b), left)

/-- Reads the value of the field that has the given name, if there is one. -/
def readNamed (levels : Nat) :
    (fields : Fields α) → String → fields.Slots → Option (Scan fields.Slots)
  | .none, _, _ => none
  | .field (α := β) name s _ rest, key, slots =>
    let (slot, slots) : Option β × rest.Slots := slots
    if key = name then
      some (if slot.isSome then mismatch (.duplicateField name)
        else do return (some (← read levels s), slots))
    else (readNamed levels rest key slots).map fun scan => do return (slot, ← scan)

end

/-- Reads the value at the front of some bytes. -/
def decode (s : Shape α) (bs : Bytes) : Except Fault α :=
  match read MessagePack.levels s bs with
  | .ok (a, _) => .ok a
  | .error f => .error f

end RemoteCall.MessagePack
