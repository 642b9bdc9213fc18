import RemoteCall.Frame

/-!
# Outcomes of calls and their replies

An `Outcome` is what became of a call: the payload of its reply or an error. A server sends it as a
status and a payload (`Outcome.toReply`), a client reads it back (`Outcome.ofReply`). Both together
are one `hop`. A hop keeps payloads, and of errors those that a status of their own names; all
others arrive as io errors that tell the whole message:

    hop (.error e) = .error (.io (.ofText e.message))       (hop_other)
-/

namespace RemoteCall

/-! ## Algorithm -/

abbrev Outcome := Except CallError Bytes

namespace Outcome

/-- The status and the payload that tell the outcome. -/
def toReply : Outcome → ReplyStatus × Bytes
  | .ok payload => (.ok, payload)
  | .error (.unimplemented method) => (.unimplemented, Utf8.encode method)
  | .error (.badRequest message) => (.badRequest, Utf8.encode message)
  | .error (.invocation message) => (.invocationFailed, Utf8.encode message)
  | .error (.serialization cause) => (.encodingFailed, Utf8.encode cause.text)
  | .error e => (.transportFailed, Utf8.encode e.message)

/-- The outcome that a status and a payload tell. -/
def ofReply (status : ReplyStatus) (payload : Bytes) : Outcome :=
  match status with
  | .ok => .ok payload
  | .unimplemented => .error (.unimplemented (Utf8.lossy payload))
  | .invocationFailed => .error (.invocation (Utf8.lossy payload))
  | .badRequest => .error (.badRequest (Utf8.lossy payload))
  | .encodingFailed => .error (.serialization (.ofText (Utf8.lossy payload)))
  | .transportFailed => .error (.io (.ofText (Utf8.lossy payload)))

/-- What the caller sees of an outcome at the other end. -/
def hop (r : Outcome) : Outcome := ofReply r.toReply.1 r.toReply.2

/-- The frame that replies to the call `sendId`; none if its payload is too long for any frame. -/
def frame? (sendId : SendId) (r : Outcome) : Option Frame :=
  let (status, payload) := r.toReply
  if payload.length < 0x100000000 then some (.reply sendId status payload) else none

/-! ## Lemmas -/

theorem hop_ok (payload : Bytes) : hop (.ok payload) = .ok payload := rfl

theorem hop_unimplemented (m : String) :
    hop (.error (.unimplemented m)) = .error (.unimplemented m) := by
  simp [hop, toReply, ofReply, Utf8.lossy_encode]

theorem hop_badRequest (m : String) : hop (.error (.badRequest m)) = .error (.badRequest m) := by
  simp [hop, toReply, ofReply, Utf8.lossy_encode]

theorem hop_invocation (m : String) : hop (.error (.invocation m)) = .error (.invocation m) := by
  simp [hop, toReply, ofReply, Utf8.lossy_encode]

theorem hop_serialization (e : IoError) :
    hop (.error (.serialization e)) = .error (.serialization (.ofText e.text)) := by
  simp [hop, toReply, ofReply, Utf8.lossy_encode]

/-- The errors that only the status for all others can tell. -/
def IsOther : CallError → Prop
  | .io _ | .invalidFrame | .channelClosed | .timeout | .tooManyCalls => True
  | _ => False

theorem hop_other {e : CallError} (h : IsOther e) :
    hop (.error e) = .error (.io (.ofText e.message)) := by
  cases e <;> simp [IsOther] at h <;> simp [hop, toReply, ofReply, Utf8.lossy_encode]

end Outcome

end RemoteCall
