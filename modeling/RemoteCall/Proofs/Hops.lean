import Mathlib.Logic.Function.Iterate
import RemoteCall.Outcome

/-!
# Many hops

A service may answer a call by a call of its own, and that one may be answered so again: what the
first caller sees has come over many hops. The first hop says all that the further ones can: it
keeps payloads and the errors that have a status of their own, and makes io errors of all others.
Each further hop puts one more `io error: ` in front of the text of an io error, and changes nothing
else:

    hop^[n + 1] r = r.relayed n                             (hops_keep_what_failed)
-/

namespace RemoteCall.Outcome

/-- So many times the words with which the message of an io error begins. -/
def ioWords (n : Nat) : String := String.join (List.replicate n "io error: ")

/-- What is left of an outcome after a hop and `n` further ones. -/
def relayed (n : Nat) : Outcome → Outcome
  | .ok payload => .ok payload
  | .error (.unimplemented method) => .error (.unimplemented method)
  | .error (.badRequest message) => .error (.badRequest message)
  | .error (.invocation message) => .error (.invocation message)
  | .error (.serialization cause) => .error (.serialization (.ofText cause.text))
  | .error e => .error (.io (.ofText (ioWords n ++ e.message)))

theorem ioWords_succ_append (n : Nat) (text : String) :
    ioWords (n + 1) ++ text = "io error: " ++ (ioWords n ++ text) := by
  rw [ioWords, List.replicate_succ, String.join_cons, String.append_assoc, ioWords]

/-- The status for all other errors is the only one that adds to a text. -/
theorem hop_io_ofText (text : String) :
    hop (.error (.io (.ofText text))) = .error (.io (.ofText ("io error: " ++ text))) :=
  hop_other (e := .io (.ofText text)) trivial

theorem relayed_of_isOther {e : CallError} (h : IsOther e) (n : Nat) :
    relayed n (.error e) = .error (.io (.ofText (ioWords n ++ e.message))) := by
  cases e with
  | io | invalidFrame | channelClosed | timeout | tooManyCalls => rfl
  | serialization | unimplemented | badRequest | invocation => cases h

/-- An error has a status of its own, or it is one of the others. -/
theorem isOther_or (e : CallError) :
    IsOther e ∨ (∃ m, e = .unimplemented m) ∨ (∃ m, e = .badRequest m) ∨
      (∃ m, e = .invocation m) ∨ ∃ cause, e = .serialization cause := by
  cases e <;> simp [IsOther]

theorem hop_eq_relayed (r : Outcome) : hop r = r.relayed 0 := by
  rcases r with e | payload
  · rcases isOther_or e with other | ⟨m, rfl⟩ | ⟨m, rfl⟩ | ⟨m, rfl⟩ | ⟨cause, rfl⟩
    · rw [hop_other other, relayed_of_isOther other]
      simp [ioWords]
    · exact hop_unimplemented m
    · exact hop_badRequest m
    · exact hop_invocation m
    · exact hop_serialization cause
  · rfl

theorem hop_relayed (r : Outcome) (n : Nat) : hop (r.relayed n) = r.relayed (n + 1) := by
  rcases r with e | payload
  · rcases isOther_or e with other | ⟨m, rfl⟩ | ⟨m, rfl⟩ | ⟨m, rfl⟩ | ⟨cause, rfl⟩
    · rw [relayed_of_isOther other, relayed_of_isOther other, hop_io_ofText, ioWords_succ_append]
    · exact hop_unimplemented m
    · exact hop_badRequest m
    · exact hop_invocation m
    · exact hop_serialization (.ofText cause.text)
  · rfl

/-- Whether the transport or the service failed stays as it was, and so does a payload. -/
theorem mapError_isTransport_relayed (r : Outcome) (n : Nat) :
    (r.relayed n).mapError CallError.isTransport = r.mapError CallError.isTransport := by
  rcases r with e | payload
  · cases e <;> rfl
  · rfl

/-- After one hop or more a payload is the same, and so is an error with a status of its own, but
that a failed encoding keeps its text only. Any other error is an io error that tells its message,
behind the words `io error: ` once for each hop after the first. A failure of the service never
turns into one of the transport, nor the other way. -/
theorem hops_keep_what_failed (r : Outcome) (n : Nat) :
    hop^[n + 1] r = r.relayed n ∧
      (hop^[n + 1] r).mapError CallError.isTransport = r.mapError CallError.isTransport := by
  have closed : hop^[n + 1] r = r.relayed n := by
    induction n with
    | zero => exact hop_eq_relayed r
    | succ n ih => rw [Function.iterate_succ_apply', ih, hop_relayed]
  exact ⟨closed, by rw [closed, mapError_isTransport_relayed]⟩

/-- A call that timed out behind two servers. -/
example : relayed 2 (.error .timeout) =
    .error (.io (.ofText "io error: io error: call timed out")) := by decide

end RemoteCall.Outcome
