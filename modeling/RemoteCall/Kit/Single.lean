import RemoteCall.Power

/-!
# The kit contract

Methods that show all that a contract can do: texts, lists, records, tables whose keys are no texts,
errors of every kind, and answers that wait.

Single handlers belong to no contract. A table holds them beside the methods of its contracts, each
under a name of its own.
-/

namespace RemoteCall.Kit

/-! ## Types -/

structure Text where
  text : String
  deriving Repr, DecidableEq

instance : Payload Text where
  shape := .record (.plain "Text" 1) (.field "text" .text none .none)
    (fun (text, _) => .ok ⟨text⟩) (fun t => (t.text, ()))

/-- The error that is wanted. -/
structure Failure where
  kind : String
  message : String
  deriving Repr, DecidableEq

instance : Payload Failure where
  shape := .record (.plain "Failure" 2)
    (.field "kind" .text none (.field "message" .text none .none))
    (fun (kind, message, _) => .ok ⟨kind, message⟩) (fun f => (f.kind, f.message, ()))

abbrev Key := Int64 × Int64

def Key.lt (a b : Key) : Bool := a.1 < b.1 || (a.1 == b.1 && a.2 < b.2)

/-- A table from pairs of integers to integers, in the order of its keys. -/
structure Pairs where
  rows : List (Key × Int64)
  deriving Repr, DecidableEq

namespace Pairs

/-- Puts a row in its place, instead of the row of that key if there is one. -/
def put (key : Key) (value : Int64) : List (Key × Int64) → List (Key × Int64)
  | [] => [(key, value)]
  | (k, v) :: rows =>
    if key = k then (key, value) :: rows
    else if key.lt k then (key, value) :: (k, v) :: rows
    else (k, v) :: put key value rows

/-- The last value of a key is the one that stays. -/
def ofList (rows : List (Key × Int64)) : Pairs :=
  ⟨rows.foldl (fun acc (key, value) => put key value acc) []⟩

instance : Payload Pairs where
  shape := .table (.pair (.int .int64) (.int .int64)) (.int .int64) ofList Pairs.rows

end Pairs

/-! ## Methods -/

def addAll (values : List Int64) : Except CallError Int64 :=
  match values.foldlM add? 0 with
  | some n => .ok n
  | none => .error (.invocation "sum overflows i64")

def failWith (f : Failure) : Except CallError Text := .error (.ofKind f.kind f.message)

/-- The one row from a value's pair to its square, which wraps. -/
def pairUp (r : Request) : Pairs := .ofList [((r.value, r.value), r.value * r.value)]

/-- Waits until the request's value is released. -/
def holdUntil (r : Request) : Answer Response := .held r.value ⟨r.value⟩

/-! ## The service -/

def service : Service where
  name := "Kit"
  methods := [
    { info := ⟨"echoText", "Text", "Text"⟩, answer := fun (t : Text) => .ok t },
    { info := ⟨"addAll", "Vec < i64 >", "i64"⟩, answer := fun vs => .ofOutcome (addAll vs) },
    { info := ⟨"failWith", "Failure", "Text"⟩, answer := fun f => .ofOutcome (failWith f) },
    { info := ⟨"pairUp", "Request", "Pairs"⟩, answer := fun r => .ok (pairUp r) },
    { info := ⟨"holdUntil", "Request", "Response"⟩, answer := holdUntil }]

/-! ## Single handlers -/

inductive Single
  /-- Answers with the value of the request. -/
  | same
  | negate
  /-- The number of bytes of a text. -/
  | length
  | reverse
  /-- From nothing to nothing. -/
  | unit
  /-- Answers with what may or may not be there. -/
  | option
  | fail (e : CallError)

namespace Single

/-- The value with the other sign, if there is one. -/
def negateValue (r : Request) : Except CallError Response :=
  match narrow? (-r.value.toInt) with
  | some n => .ok ⟨n⟩
  | none => .error (.invocation "cannot negate")

/-- Inserts the handler under a name. -/
def insert (t : MethodTable) (name : String) : Single → MethodTable
  | .same => t.insert name fun (r : Request) => .ok (Response.mk r.value)
  | .negate => t.insert name fun r => .ofOutcome (negateValue r)
  | .length => t.insert name fun (x : Text) => .ok (Int64.ofNat (Utf8.encode x.text).length)
  | .reverse => t.insert name fun (xs : List Int64) => .ok xs.reverse
  | .unit => t.insert name fun (_ : Unit) => .ok ()
  | .option => t.insert name fun (x : Option Int64) => .ok x
  | .fail e => t.insert name fun (_ : Request) => (.fail e : Answer Response)

end Single

end RemoteCall.Kit
