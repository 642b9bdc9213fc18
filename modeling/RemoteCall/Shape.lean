import RemoteCall.Decimal
import RemoteCall.Text.Quoted

/-!
# Shapes of payloads

A `Shape α` describes the values of type `α` as payloads show them: integers of a width, texts,
lists, records with named fields. Each payload format reads and writes a shape in its own notation;
what it finds instead of what the shape asks for is a `Mismatch`, whose text is the same in all
formats but for the words of the format's `Dialect`.
-/

namespace RemoteCall

/-! ## Mismatches -/

/-- What stands where something else was asked for. -/
inductive Unexpected
  | bool (b : Bool)
  | int (n : Int)
  | float (x : Float)
  | text (s : String)
  | bytes
  | null
  | sequence
  | table
  /-- A value with a type of its own around it. -/
  | wrapped

inductive Mismatch
  | wrongType (found : Unexpected) (expected : String)
  | wrongValue (found : Unexpected) (expected : String)
  | wrongLength (found : Nat) (expected : String)
  | missingField (name : String)
  | duplicateField (name : String)
  | unknownField (name : String) (expected : String)
  /-- A rule of the value itself, beyond those of its parts. -/
  | broken (rule : String)

/-- The words in which a format speaks of values. -/
structure Dialect where
  null : String
  float : Decimal.FloatStyle

def ticked (s : String) : String := "`" ++ s ++ "`"

def Unexpected.describe (d : Dialect) : Unexpected → String
  | .bool b => "boolean " ++ ticked (if b then "true" else "false")
  | .int n => "integer " ++ ticked (toString n)
  | .float x => "floating point " ++ ticked (d.float.render x)
  | .text s => "string " ++ Text.quoted s
  | .bytes => "byte array"
  | .null => d.null
  | .sequence => "sequence"
  | .table => "map"
  | .wrapped => "newtype struct"

def Mismatch.message (d : Dialect) : Mismatch → String
  | .wrongType u e => "invalid type: " ++ u.describe d ++ ", expected " ++ e
  | .wrongValue u e => "invalid value: " ++ u.describe d ++ ", expected " ++ e
  | .wrongLength n e => "invalid length " ++ toString n ++ ", expected " ++ e
  | .missingField f => "missing field " ++ ticked f
  | .duplicateField f => "duplicate field " ++ ticked f
  | .unknownField f e => "unknown field " ++ ticked f ++ ", expected " ++ e
  | .broken rule => rule

/-! ## Integers -/

/-- Integers from `min` to `max`. -/
structure IntType (α : Type) where
  name : String
  min : Int
  max : Int
  ofInt : Int → α
  toInt : α → Int

namespace IntType

def int64 : IntType Int64 :=
  ⟨"i64", -0x8000000000000000, 0x7FFFFFFFFFFFFFFF, Int64.ofInt, Int64.toInt⟩

def nat64 : IntType UInt64 :=
  ⟨"u64", 0, 0xFFFFFFFFFFFFFFFF, fun n => UInt64.ofNat n.toNat, fun n => n.toNat⟩

def nat32 : IntType UInt32 :=
  ⟨"u32", 0, 0xFFFFFFFF, fun n => UInt32.ofNat n.toNat, fun n => n.toNat⟩

/-- Counts of things in memory. -/
def count : IntType UInt64 := { nat64 with name := "usize" }

def has (t : IntType α) (n : Int) : Bool := t.min ≤ n && n ≤ t.max

/-- The integer of this type, never a wrapped or rounded one. -/
def read (t : IntType α) (n : Int) : Except Mismatch α :=
  if t.has n then .ok (t.ofInt n) else .error (.wrongValue (.int n) t.name)

end IntType

/-! ## Shapes -/

/-- How a record is named and how its keys are met. -/
structure RecordStyle where
  name : String
  /-- What a sequence that is too short was to be. -/
  inFull : String
  /-- What a key was to be. -/
  key : String
  /-- Whether a field may go by its number. -/
  numbered : Bool
  /-- Whether a key that names no field is an error. -/
  strict : Bool

/-- The name of a record, as messages have it. -/
def RecordStyle.expected (r : RecordStyle) : String := "struct " ++ r.name

/-- A record of `n` fields that skips the keys that it does not know. -/
def RecordStyle.plain (name : String) (n : Nat) : RecordStyle where
  name := name
  inFull :=
    "struct " ++ name ++ " with " ++ toString n ++ (if n = 1 then " element" else " elements")
  key := "field identifier"
  numbered := true
  strict := false

mutual

inductive Shape : Type → Type 1
  | int {α : Type} (t : IntType α) : Shape α
  | text : Shape String
  | unit : Shape Unit
  | option {α : Type} (s : Shape α) : Shape (Option α)
  | list {α : Type} (s : Shape α) : Shape (List α)
  | pair {α β : Type} (a : Shape α) (b : Shape β) : Shape (α × β)
  /-- Keys with a value each; `collect` makes the collection and `rows` lists it. -/
  | table {κ ν α : Type} (key : Shape κ) (value : Shape ν) (collect : List (κ × ν) → α)
      (rows : α → List (κ × ν)) : Shape α
  /-- `make` puts the fields together, or says which rule they break; `parts` takes them apart. -/
  | record {α β : Type} (style : RecordStyle) (fields : Fields β) (make : β → Except String α)
      (parts : α → β) : Shape α

/-- The fields of a record in their order; one with a default value may be absent. -/
inductive Fields : Type → Type 1
  | none : Fields Unit
  | field {α β : Type} (name : String) (shape : Shape α) (default : Option α) (rest : Fields β) :
      Fields (α × β)

end

/-- What a shape asks for, as messages have it. -/
def Shape.expected : Shape α → String
  | .int t => t.name
  | .text => "a string"
  | .unit => "unit"
  | .option s => s.expected
  | .list _ => "a sequence"
  | .pair _ _ => "a tuple of size 2"
  | .table .. => "a map"
  | .record style .. => style.expected

namespace Fields

/-- The fields met so far, each with its value. -/
def Slots : Fields α → Type
  | .none => Unit
  | .field (α := β) _ _ _ rest => Option β × rest.Slots

def empty : (fs : Fields α) → fs.Slots
  | .none => ()
  | .field _ _ _ rest => (Option.none, rest.empty)

def names : Fields α → List String
  | .none => []
  | .field name _ _ rest => name :: rest.names

/-- The values of all fields; one that was not met takes its default or is missing. -/
def gather : (fs : Fields α) → fs.Slots → Except Mismatch α
  | .none, _ => .ok ()
  | .field (α := β) name _ default rest, slots =>
    let (slot, slots) : Option β × rest.Slots := slots
    match slot.or default with
    | Option.none => .error (.missingField name)
    | some a =>
      match rest.gather slots with
      | .error e => .error e
      | .ok b => .ok (a, b)

end Fields

/-- A type whose values travel in payloads. -/
class Payload (α : Type) where
  shape : Shape α

end RemoteCall
