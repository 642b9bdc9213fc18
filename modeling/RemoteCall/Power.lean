import RemoteCall.MethodTable

/-!
# The power contract

Squares and fourth powers of integers of 64 bits. A result that does not fit is refused, never
wrapped.
-/

namespace RemoteCall

/-- A record of one integer that asks. -/
structure Request where
  value : Int64
  deriving Repr, DecidableEq

instance : Payload Request where
  shape := .record (.plain "Request" 1) (.field "value" (.int .int64) none .none)
    (fun (value, _) => .ok ⟨value⟩) (fun r => (r.value, ()))

/-- A record of one integer that answers. -/
structure Response where
  value : Int64
  deriving Repr, DecidableEq

instance : Payload Response where
  shape := .record (.plain "Response" 1) (.field "value" (.int .int64) none .none)
    (fun (value, _) => .ok ⟨value⟩) (fun r => (r.value, ()))

/-! ## Exact arithmetic -/

/-- Whether an integer is one of 64 bits. -/
def fits (n : Int) : Bool := IntType.int64.has n

/-- The integer of 64 bits, if it is one. -/
def narrow? (n : Int) : Option Int64 := if fits n then some (Int64.ofInt n) else none

def add? (a b : Int64) : Option Int64 := narrow? (a.toInt + b.toInt)

def mul? (a b : Int64) : Option Int64 := narrow? (a.toInt * b.toInt)

namespace Power

/-! ## Algorithm -/

/-- `acc * base ^ exp` by repeated squaring; none as soon as a product does not fit. The base is
squared only as long as the square is needed. -/
def raise? (acc base : Int64) (exp : Nat) : Option Int64 :=
  if exp = 0 then some acc
  else do
    let acc ← if exp % 2 = 1 then mul? acc base else some acc
    if exp = 1 then some acc else raise? acc (← mul? base base) (exp / 2)
termination_by exp

def pow? (base : Int64) (exp : Nat) : Option Int64 := raise? 1 base exp

def overflow (value : Int64) (exp : Nat) : CallError :=
  .invocation (toString value.toInt ++ "^" ++ toString exp ++ " overflows i64")

def power (value : Int64) (exp : Nat) : Except CallError Response :=
  match pow? value exp with
  | some n => .ok ⟨n⟩
  | none => .error (overflow value exp)

def powerOfTwo (r : Request) : Except CallError Response := power r.value 2

def powerOfFour (r : Request) : Except CallError Response := power r.value 4

/-! ## The service -/

def service : Service where
  name := "SimpleService"
  methods := [
    { info := ⟨"powerOfTwo", "Request", "Response"⟩
      answer := fun r => .ofOutcome (powerOfTwo r) },
    { info := ⟨"powerOfFour", "Request", "Response"⟩
      answer := fun r => .ofOutcome (powerOfFour r) }]

end Power

end RemoteCall
