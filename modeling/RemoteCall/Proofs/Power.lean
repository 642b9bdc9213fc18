import RemoteCall.Client
import RemoteCall.Power
import RemoteCall.Proofs.Format

/-!
# The power service behind a method table

A request that was written is dispatched to its own method, and what comes back of the answer is
what the method says itself, the same value or the same message (`decode_hop_dispatch`). Requests
and replies are short.
-/

namespace RemoteCall.Power

inductive Op
  | two
  | four
  deriving Repr, DecidableEq

/-- The name that the method goes by. -/
def Op.method : Op → String
  | .two => "powerOfTwo"
  | .four => "powerOfFour"

/-- What the method says when it is called directly. -/
def Op.direct : Op → Request → Except CallError Response
  | .two => powerOfTwo
  | .four => powerOfFour

/-- The table that serves the power contract. -/
def table (format : Format) : MethodTable := ({ format } : MethodTable).register service

theorem format_encode_request (format : Format) (r : Request) :
    ∃ bs, format.encode r = .ok bs ∧ bs.length ≤ 30 ∧ format.decode bs = .ok r :=
  Format.decode_encode_value _ _ rfl format r rfl

theorem format_encode_response (format : Format) (r : Response) :
    ∃ bs, format.encode r = .ok bs ∧ bs.length ≤ 30 ∧ format.decode bs = .ok r :=
  Format.decode_encode_value _ _ rfl format r rfl

/-- A method answers or says that its power overflows. -/
theorem direct_cases (op : Op) (r : Request) :
    (∃ s, op.direct r = .ok s) ∨ ∃ exp, (exp = 2 ∨ exp = 4) ∧
      op.direct r = .error (overflow r.value exp) := by
  have one : ∀ exp, (∃ s, power r.value exp = .ok s) ∨
      power r.value exp = .error (overflow r.value exp) := by
    intro exp
    unfold power
    cases pow? r.value exp with
    | none => exact .inr rfl
    | some n => exact .inl ⟨_, rfl⟩
  cases op with
  | two => exact (one 2).imp id fun e => ⟨2, .inl rfl, e⟩
  | four => exact (one 4).imp id fun e => ⟨4, .inr rfl, e⟩

/-- The message has an integer of 64 bits and a few words. -/
theorem length_overflow {exp : Nat} (v : Int64) (h : exp = 2 ∨ exp = 4) :
    ∃ message, overflow v exp = .invocation message ∧ (Utf8.encode message).length ≤ 64 := by
  have number : (Utf8.encode (toString v.toInt)).length ≤ 20 :=
    Json.length_writeInt_le (toInt_bounds v).1 (toInt_bounds v).2
  have words : (Utf8.encode "^").length = 1 ∧ (Utf8.encode " overflows i64").length = 14 := by
    decide
  have small : (Utf8.encode (toString exp)).length = 1 := by
    rcases h with rfl | rfl <;> decide
  refine ⟨_, rfl, ?_⟩
  simp only [Utf8.encode_append, List.length_append, words, small]
  omega

section
variable {format : Format} {payload : Bytes} {r : Request}

theorem dispatch_eq (op : Op) (back : format.decode payload = .ok r) :
    (table format).dispatch op.method payload =
      ⟨Handler.encodeReply format (op.direct r), none⟩ := by
  have two : (table format).find? "powerOfTwo" =
      some (Handler.ofFun format fun r => .ofOutcome (powerOfTwo r)) := by
    have other : "powerOfTwo" ≠ "powerOfFour" := by decide
    exact (MethodTable.find?_insert ..).trans ((if_neg other).trans
      ((MethodTable.find?_insert ..).trans (if_pos rfl)))
  have four : (table format).find? "powerOfFour" =
      some (Handler.ofFun format fun r => .ofOutcome (powerOfFour r)) :=
    (MethodTable.find?_insert ..).trans (if_pos rfl)
  cases op with
  | two => simp only [MethodTable.dispatch, Op.method, two, Handler.ofFun, back]; rfl
  | four => simp only [MethodTable.dispatch, Op.method, four, Handler.ofFun, back]; rfl

/-- The reply fits in a short frame, and the caller reads from it what the method says. -/
theorem decode_hop_dispatch (op : Op) (back : format.decode payload = .ok r) :
    (Outcome.toReply ((table format).dispatch op.method payload).outcome).2.length ≤ 64 ∧
      Client.decode format (Outcome.hop ((table format).dispatch op.method payload).outcome) =
        op.direct r := by
  rw [dispatch_eq op back]
  simp only
  rcases direct_cases op r with ⟨s, answer⟩ | ⟨exp, small, refused⟩
  · obtain ⟨bs, text, short, again⟩ := format_encode_response format s
    have reply : Handler.encodeReply format (op.direct r) = .ok bs := by
      simp only [answer, Handler.encodeReply, text]
    rw [reply, Outcome.hop_ok]
    refine ⟨Nat.le_trans short (by decide), ?_⟩
    simp only [Client.decode, again, answer]
  · obtain ⟨message, overflows, short⟩ := length_overflow r.value small
    have reply : Handler.encodeReply format (op.direct r) = .error (.invocation message) := by
      rw [refused, overflows]
      rfl
    rw [reply, Outcome.hop_invocation]
    refine ⟨short, ?_⟩
    rw [refused, overflows]
    rfl

end

end RemoteCall.Power
