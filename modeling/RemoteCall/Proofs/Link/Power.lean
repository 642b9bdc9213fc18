import RemoteCall.Proofs.Link.Delivery
import RemoteCall.Proofs.Power

/-!
# The power service over a link

Calls of the power service through a link come back with what the methods say when they are called
directly, whatever the values, the format, the number of workers and the order of events
(`remote_power_is_direct`).
-/

namespace RemoteCall.Power

/-- A call of a method of the power contract. -/
structure Ask where
  op : Op
  value : Int64
  deriving Repr, DecidableEq

namespace Ask

/-- What the method says when it is called directly. -/
def direct (a : Ask) : Except CallError Response := a.op.direct ⟨a.value⟩

/-- A handle starts the call; its caller waits for ever. -/
def event (format : Format) (a : Ask) : Client.Event :=
  .start a.op.method (format.encode (⟨a.value⟩ : Request)) none

/-- What comes back to the caller. -/
def back (format : Format) (a : Ask) : Outcome :=
  match format.encode (⟨a.value⟩ : Request) with
  | .ok payload => Outcome.hop ((table format).dispatch a.op.method payload).outcome
  | .error e => .error (.serialization e)

theorem decode_back (format : Format) (a : Ask) :
    Client.decode format (a.back format) = a.direct := by
  obtain ⟨payload, text, -, again⟩ := format_encode_request format ⟨a.value⟩
  rw [back, text]
  exact (decode_hop_dispatch a.op again).2

/-- Frames of 64 bytes are wide enough for the call and its reply. -/
theorem sendable (format : Format) (a : Ask) {limit clientLimit : UInt32} (wide : 64 ≤ limit)
    (clientWide : 64 ≤ clientLimit) :
    ∃ payload, format.encode (⟨a.value⟩ : Request) = .ok payload ∧
      Link.Sendable (table format) limit clientLimit True (a.back format) a.op.method payload := by
  obtain ⟨payload, text, short, again⟩ := format_encode_request format ⟨a.value⟩
  have fits : 64 ≤ limit.toNat := UInt32.le_iff_toNat_le.1 wide
  have clientFits : 64 ≤ clientLimit.toNat := UInt32.le_iff_toNat_le.1 clientWide
  have named : (Utf8.encode a.op.method).length ≤ 255 := by
    cases a.op <;> decide
  refine ⟨payload, text, by omega, by omega, named, fun i => ⟨?_, fun _ => ?_⟩, ?_⟩
  · exact Nat.le_trans (decode_hop_dispatch a.op again).1 clientFits
  · show ((table format).dispatch a.op.method payload).heldBy = none
    rw [dispatch_eq a.op again]
  · rw [back, text]

end Ask

section
variable {format : Format} {limit clientLimit : UInt32} {workers handles : Nat}
  {es : List Link.Event} {l : Link} {notes : List Link.Note} {asks : List Ask}

theorem proper_asks (wide : 64 ≤ limit) (clientWide : 64 ≤ clientLimit)
    (calls : Link.starts es = asks.map (Ask.event format)) :
    Link.Proper (table format) limit clientLimit True
      (fun k => (asks[k]?.map (Ask.back format)).getD (.error .channelClosed)) es := by
  intro k method argument patience found
  rw [calls, List.getElem?_map] at found
  obtain ⟨a, asked, same⟩ := Option.map_eq_some_iff.1 found
  obtain ⟨payload, text, sendable⟩ := a.sendable format wide clientWide
  obtain ⟨rfl, rfl, rfl⟩ := by simpa [Ask.event] using same
  refine ⟨rfl, payload, text, ?_⟩
  simpa [asked] using sendable

/-- No call of the power service ends the channel: it is open until the program closes it or lets go
of its last handle. -/
theorem remote_power_stays_open
    (run : (Link.join { limit := clientLimit, handles }
      (Server.ofWorkers (table format) limit workers)).run? es = some (l, notes))
    (wide : 64 ≤ limit) (clientWide : 64 ≤ clientLimit)
    (calls : Link.starts es = asks.map (Ask.event format)) (unclosed : .client .close ∉ es)
    (held : 0 < l.client.handles) : l.client.result = none :=
  (Link.runs_until_closed (Link.run?_eq_some_iff.1 run) (proper_asks wide clientWide calls) unclosed
    held).1

/-- Calls of the power service through a link that then can move no more, its channel still open:
each comes back with what the method says directly, or was refused because no id was free, which
takes more calls than there are ids. -/
theorem remote_power_is_direct
    (run : (Link.join { limit := clientLimit, handles }
      (Server.ofWorkers (table format) limit workers)).run? es = some (l, notes))
    (wide : 64 ≤ limit) (clientWide : 64 ≤ clientLimit)
    (calls : Link.starts es = asks.map (Ask.event format)) (settled : l.Settled)
    (isOpen : l.client.result = none) {c : Nat} {a : Ask} (asked : asks[c]? = some a)
    (stays : .client (.giveUp c) ∉ es) :
    ∃ r, Client.outcomes c (Link.clientNotes notes) = [r] ∧
      (r = .error .tooManyCalls ∧ 65536 < asks.length ∨ Client.decode format r = a.direct) := by
  have proper := proper_asks wide clientWide calls
  have known : c < (Link.starts es).length := by
    rw [calls, List.length_map]
    exact (List.getElem?_eq_some_iff.1 asked).1
  obtain ⟨r, seen, right⟩ :=
    Link.settles_all (Link.run?_eq_some_iff.1 run) proper isOpen settled known stays
  rw [calls, List.length_map] at right
  refine ⟨r, seen, right.symm.imp id ?_⟩
  intro same
  rw [same, asked]
  exact a.decode_back format

end

/-- Two calls, and the handler of the second one finishes first. -/
def crossing (first second : Ask) : List Link.Event :=
  [first, second].map (fun a => .client (a.event .json)) ++
    [.client .pick, .client .pick, .serverGets 20, .serverGets 100, .server (.reads 0),
      .server (.begins 0), .server (.reads 0), .server (.begins 0), .server (.finishes 0 1),
      .server (.finishes 0 0), .server (.writes 0), .server (.writes 0), .clientGets 100,
      .client .take, .client .take]

/-- A square that overflows and a fourth power that does not. -/
theorem crossing_calls_come_back : ∃ l notes first second,
    (Link.join { limit := 64, handles := 1 } (Server.ofWorkers (table .json) 64 2)).run?
      (crossing ⟨.two, 0x4000000000000000⟩ ⟨.four, -5⟩) = some (l, notes) ∧
    l.Settled ∧ l.client.result = none ∧
    Client.outcomes 0 (Link.clientNotes notes) = [first] ∧
    Client.decode .json first =
      (.error (.invocation "4611686018427387904^2 overflows i64") : Except CallError Response) ∧
    Client.outcomes 1 (Link.clientNotes notes) = [second] ∧
    Client.decode .json second = (.ok ⟨625⟩ : Except CallError Response) := by
  have done : ((Link.join { limit := 64, handles := 1 }
      (Server.ofWorkers (table .json) 64 2)).run?
        (crossing ⟨.two, 0x4000000000000000⟩ ⟨.four, -5⟩)).any (fun p =>
          p.1.client.result.isNone && p.1.moves.all fun e => (p.1.step? e).isNone) = true := by
    decide +kernel
  obtain ⟨⟨l, notes⟩, run, still⟩ := (Option.any_eq_true _ _).1 done
  simp only [Bool.and_eq_true, List.all_eq_true, Option.isNone_iff_eq_none] at still
  obtain ⟨isOpen, settled⟩ := still
  have calls : Link.starts (crossing ⟨.two, 0x4000000000000000⟩ ⟨.four, -5⟩) =
      [(⟨.two, 0x4000000000000000⟩ : Ask), ⟨.four, -5⟩].map (Ask.event .json) := rfl
  have stays : ∀ c, .client (.giveUp c) ∉ crossing ⟨.two, 0x4000000000000000⟩ ⟨.four, -5⟩ := by
    intro c
    simp [crossing, Ask.event]
  have few : ¬65536 < [(⟨.two, 0x4000000000000000⟩ : Ask), ⟨.four, -5⟩].length := by decide
  obtain ⟨first, seen, right⟩ :=
    remote_power_is_direct run (by decide) (by decide) calls settled isOpen (c := 0) rfl (stays 0)
  obtain ⟨second, seen', right'⟩ :=
    remote_power_is_direct run (by decide) (by decide) calls settled isOpen (c := 1) rfl (stays 1)
  have overflows : (⟨.two, 0x4000000000000000⟩ : Ask).direct =
      .error (.invocation "4611686018427387904^2 overflows i64") := by decide +kernel
  have fits : (⟨.four, -5⟩ : Ask).direct = .ok ⟨625⟩ := by decide +kernel
  rw [overflows] at right
  rw [fits] at right'
  exact ⟨l, notes, first, second, run, settled, isOpen,
    seen, right.resolve_left fun refused => few refused.2,
    seen', right'.resolve_left fun refused => few refused.2⟩

end RemoteCall.Power
