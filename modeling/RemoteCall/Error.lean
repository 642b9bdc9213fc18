/-!
# How a call fails

`IoError` is a failure below the calls: a kind and a text. `CallError` is what a caller sees; every
failure but the service's own (`invocation`) is a failure of the transport:

    e.isTransport = false ↔ ∃ m, e = .invocation m          (isTransport_eq_false_iff)
-/

namespace RemoteCall

instance decidableEqExcept [DecidableEq ε] [DecidableEq α] : DecidableEq (Except ε α)
  | .ok a, .ok b => if h : a = b then isTrue (h ▸ rfl) else isFalse fun e => h (Except.ok.inj e)
  | .error a, .error b =>
    if h : a = b then isTrue (h ▸ rfl) else isFalse fun e => h (Except.error.inj e)
  | .ok _, .error _ => isFalse (by simp)
  | .error _, .ok _ => isFalse (by simp)

/-! ## Algorithm -/

inductive IoKind
  | other
  | unexpectedEof
  | invalidData
  | invalidInput
  | brokenPipe
  | connectionReset
  | connectionRefused
  | writeZero
  | addrInUse
  deriving Repr, DecidableEq

structure IoError where
  kind : IoKind
  text : String
  deriving Repr, DecidableEq

namespace IoError

/-- A failure of which only the text is known. -/
def ofText (text : String) : IoError := ⟨.other, text⟩

def unexpectedEof : IoError := ⟨.unexpectedEof, "unexpected end of file"⟩

/-- The other end no longer reads. -/
def brokenPipe : IoError := ⟨.brokenPipe, "broken pipe"⟩

end IoError

inductive CallError
  | io (cause : IoError)
  /-- A value could not be written to a payload or read from one. -/
  | serialization (cause : IoError)
  | invalidFrame
  | unimplemented (method : String)
  | badRequest (message : String)
  /-- The service ran and failed. -/
  | invocation (message : String)
  | channelClosed
  | timeout
  | tooManyCalls
  deriving Repr, DecidableEq

namespace CallError

def message : CallError → String
  | .io e => "io error: " ++ e.text
  | .serialization e => "serialization error: " ++ e.text
  | .invalidFrame => "invalid frame"
  | .unimplemented m => "unimplemented method: " ++ m
  | .badRequest m => "bad request: " ++ m
  | .invocation m => "invocation failed: " ++ m
  | .channelClosed => "channel closed"
  | .timeout => "call timed out"
  | .tooManyCalls => "too many calls in flight"

def isTransport : CallError → Bool
  | .invocation _ => false
  | _ => true

/-- The error that a kind and a message ask for; a kind that carries no message drops it, and an
unknown kind is an io error. -/
def ofKind (kind message : String) : CallError :=
  match kind with
  | "SerdeError" => .serialization (.ofText message)
  | "InvalidFrame" => .invalidFrame
  | "Unimplemented" => .unimplemented message
  | "BadRequest" => .badRequest message
  | "Invocation" => .invocation message
  | "ChannelClosed" => .channelClosed
  | "Timeout" => .timeout
  | "TooManyCalls" => .tooManyCalls
  | _ => .io (.ofText message)

/-! ## Lemmas -/

theorem isTransport_eq_false_iff (e : CallError) :
    e.isTransport = false ↔ ∃ m, e = .invocation m := by
  cases e <;> simp [isTransport]

end CallError

end RemoteCall
