import Std.Data.TreeMap
import RemoteCall.Format
import RemoteCall.Frame.Decode
import RemoteCall.Outcome

/-!
# The calling end of a connection

Handles put commands into one queue, first in, first out. The driver picks them up one by one, gives
each call a send id that no outstanding call has, and writes its frame; it takes frames from the
peer and hands each reply to the caller whose id it carries. `Client.step?` is one event of that
life: something from outside, or one move of the driver. A run is any sequence of events.

An id is taken from the moment its call is picked up until a reply with that id comes, whether or
not the caller still waits. A caller waits until one of these comes first: the reply, the end of the
driver, or the deadline; a reply that comes later only frees the id. Its patience counts from the
moment when it first awaits the outcome, which may be long after the start of the call: a call that
nobody awaits has no deadline. Commands that nobody picks up stay in the queue as long as there is a
handle.
-/

namespace RemoteCall

/-! ## Send ids -/

/-- The calls that hold a send id. -/
abbrev Outstanding := Std.TreeMap SendId Nat

namespace SendId

/-- The first id from `next` on, in cyclic order, that no outstanding call has. -/
def firstFree (taken : Outstanding) : (fuel : Nat) → (next : SendId) → Option SendId
  | 0, _ => none
  | fuel + 1, next => if taken.contains next then firstFree taken fuel (next + 1) else some next

/-- The id of the next call, and where the search for the one after it begins; none if all ids are
taken. As many tries as there are ids taken, and one more, find a free one. -/
def allocate? (taken : Outstanding) (next : SendId) : Option (SendId × SendId) :=
  if 65535 < taken.size then none
  else (firstFree taken (taken.size + 1) next).map fun i => (i, i + 1)

end SendId

/-! ### Lemmas -/

theorem SendId.not_contains_of_firstFree {taken : Outstanding} {fuel : Nat} {next i : SendId}
    (h : firstFree taken fuel next = some i) : taken.contains i = false := by
  induction fuel generalizing next with
  | zero => simp [firstFree] at h
  | succ fuel ih =>
    unfold firstFree at h
    split at h
    next => exact ih h
    next free => obtain rfl := Option.some.inj h; exact Bool.eq_false_iff.2 free

/-- No outstanding call has the id of the next one. -/
theorem SendId.not_contains_of_allocate? {taken : Outstanding} {next i next' : SendId}
    (h : allocate? taken next = some (i, next')) : taken.contains i = false := by
  unfold allocate? at h
  split at h
  next => cases h
  next =>
    obtain ⟨j, found, same⟩ := Option.map_eq_some_iff.1 h
    obtain rfl : j = i := congrArg Prod.fst same
    exact not_contains_of_firstFree found

/-! ## The client -/

inductive Command
  /-- The frame's method and payload, for the caller with that number. -/
  | call (caller : Nat) (method : String) (payload : Bytes)
  | close
  deriving Repr, DecidableEq

/-- How long a caller waits for its outcome. -/
structure Client.Wait where
  /-- In milliseconds; none waits for ever. -/
  patience : Option Nat
  /-- When the caller first awaited the outcome, if it did: its patience counts from then on. -/
  since : Option Nat := none
  deriving Repr, DecidableEq

namespace Client.Wait

/-- The caller awaits the outcome; only the first time matters. -/
def await (w : Wait) (now : Nat) : Wait := { w with since := w.since.or (some now) }

/-- The time at which the caller waits no longer. -/
def deadline (w : Wait) : Option Nat := do return (← w.since) + (← w.patience)

@[simp] theorem await_patience (w : Wait) (now : Nat) : (w.await now).patience = w.patience := rfl

end Client.Wait

structure Client where
  /-- The longest payload that is sent or accepted. -/
  limit : UInt32
  /-- The time in milliseconds. -/
  now : Nat := 0
  /-- How many handles there are. -/
  handles : Nat := 1
  commands : List Command := []
  /-- The bytes from the peer that no frame has taken yet. -/
  inbound : Bytes := []
  /-- The peer sends no more. -/
  peerEnded : Bool := false
  /-- The peer reads no more. -/
  peerDeaf : Bool := false
  outstanding : Outstanding := {}
  next : SendId := 0
  /-- How the driver ended. -/
  result : Option (Except CallError Unit) := none
  /-- How many calls were started; they are numbered in that order. -/
  started : Nat := 0
  /-- The callers that wait for an outcome. -/
  callers : Std.TreeMap Nat Client.Wait := {}

/-- What a step shows to the outside. -/
inductive Client.Note
  /-- The frame of that caller's call was written. -/
  | wrote (caller : Nat) (f : Frame)
  /-- A frame from the peer was taken. -/
  | got (f : Frame)
  | resolved (caller : Nat) (r : Outcome)
  | ended (r : Except CallError Unit)
  deriving DecidableEq

inductive Client.Event
  /-- A handle starts a call. Its argument may have failed to become a payload; its caller waits for
  `patience` milliseconds, or for ever. -/
  | start (method : String) (argument : Except IoError Bytes) (patience : Option Nat)
  /-- The caller awaits the outcome of its call. -/
  | await (caller : Nat)
  | close
  /-- A handle makes another one. -/
  | clone
  /-- A handle goes away. -/
  | release
  | giveUp (caller : Nat)
  | arrive (bs : Bytes)
  | peerEnds
  | peerDeafens
  | tick (ms : Nat)
  /-- The driver picks up a command. -/
  | pick
  /-- The driver takes a frame, an error or the end from the peer. -/
  | take
  /-- The driver sees that no handle is left. -/
  | retire

namespace Client

/-- The driver has ended. -/
def isOver (s : Client) : Bool := s.result.isSome

/-- Those of the callers that still wait see `r` and wait no more. -/
def resolveAll (s : Client) (callers : List Nat) (r : Outcome) : Client × List Note :=
  let waiting := callers.filter s.callers.contains
  ({ s with callers := waiting.foldl (·.erase ·) s.callers }, waiting.map (.resolved · r))

def resolve (s : Client) (caller : Nat) (r : Outcome) : Client × List Note :=
  s.resolveAll [caller] r

/-- The callers whose commands are in the queue. -/
def queued (s : Client) : List Nat :=
  s.commands.filterMap fun
    | .call caller _ _ => some caller
    | .close => none

/-- Commands that nobody will pick up go away with the last handle. -/
def dropQueue (s : Client) : Client × List Note :=
  if s.handles = 0 && s.isOver then
    { s with commands := [] }.resolveAll s.queued (.error .channelClosed)
  else (s, [])

/-- The driver ends, and with it all outstanding calls. -/
def finish (s : Client) (r : Except CallError Unit) : Client × List Note :=
  let (s, closed) := { s with result := some r, outstanding := {} }.resolveAll
    s.outstanding.values (.error .channelClosed)
  let (s, dropped) := s.dropQueue
  (s, .ended r :: closed ++ dropped)

/-- What stands in the way of a call before the driver hears of it. -/
def check (s : Client) (method : String) (argument : Except IoError Bytes) : Outcome :=
  match argument with
  | .error e => .error (.serialization e)
  | .ok payload =>
    if s.limit.toNat < payload.length || 255 < (Utf8.encode method).length then .error .invalidFrame
    else if s.isOver then .error .channelClosed
    else .ok payload

/-- Starts a call. -/
def start (s : Client) (method : String) (argument : Except IoError Bytes) (patience : Option Nat) :
    Client × List Note :=
  let caller := s.started
  let s := { s with started := caller + 1 }
  match s.check method argument with
  | .error e => (s, [.resolved caller (.error e)])
  | .ok payload =>
    ({ s with
        commands := s.commands ++ [.call caller method payload]
        callers := s.callers.insert caller { patience } }, [])

/-- The caller awaits its outcome, if it still waits for one. -/
def await (s : Client) (caller : Nat) : Client :=
  { s with callers := s.callers.modify caller (·.await s.now) }

/-- The callers whose deadline has come. -/
def due (s : Client) : List Nat :=
  s.callers.toList.filterMap fun (caller, wait) =>
    match wait.deadline with
    | some d => if d ≤ s.now then some caller else none
    | none => none

/-- Time passes. -/
def tick (s : Client) (ms : Nat) : Client × List Note :=
  let s := { s with now := s.now + ms }
  s.resolveAll s.due (.error .timeout)

/-- Writes the frame of a call that was picked up. -/
def send (s : Client) (caller : Nat) (method : String) (payload : Bytes) : Client × List Note :=
  match SendId.allocate? s.outstanding s.next with
  | none => s.resolve caller (.error .tooManyCalls)
  | some (i, next) =>
    let s := { s with outstanding := s.outstanding.insert i caller, next }
    if s.peerDeaf then s.finish (.error (.io .brokenPipe))
    else (s, [.wrote caller (.call i method payload)])

/-- A frame from the peer; only a reply to an outstanding call means anything. -/
def handle (s : Client) (f : Frame) : Client × List Note :=
  match f.head with
  | .call .. => (s, [.got f])
  | .reply i status _ =>
    match s.outstanding[i]? with
    | none => (s, [.got f])
    | some caller =>
      let (s, notes) := { s with outstanding := s.outstanding.erase i }.resolve caller
        (.ofReply status f.payload)
      (s, .got f :: notes)

/-- The driver's next frame, error or end, if it is there. -/
def take? (s : Client) : Option (Client × List Note) :=
  match Frame.read s.limit s.inbound with
  | .item f rest => some ({ s with inbound := rest }.handle f)
  | .invalid rest => some ({ s with inbound := rest }.finish (.error .invalidFrame))
  | .unfinished =>
    if s.peerEnded then
      some (s.finish (if s.inbound.isEmpty then .ok () else .error (.io .unexpectedEof)))
    else none

/-- The next command, if there is one. -/
def pick? (s : Client) : Option (Client × List Note) :=
  match s.commands with
  | [] => none
  | .close :: rest => some ({ s with commands := rest }.finish (.ok ()))
  | .call caller method payload :: rest =>
    some ({ s with commands := rest }.send caller method payload)

/-- One event, if it is possible: the new state and what it shows. -/
def step? (s : Client) : Event → Option (Client × List Note)
  | .start method argument patience =>
    if 0 < s.handles then some (s.start method argument patience) else none
  | .await caller => some (s.await caller, [])
  | .close =>
    if s.handles = 0 then none
    else if s.isOver then some (s, [])
    else some ({ s with commands := s.commands ++ [.close] }, [])
  | .clone => if s.handles = 0 then none else some ({ s with handles := s.handles + 1 }, [])
  | .release =>
    if s.handles = 0 then none else some { s with handles := s.handles - 1 }.dropQueue
  | .giveUp caller => some ({ s with callers := s.callers.erase caller }, [])
  | .arrive bs =>
    if s.isOver || s.peerEnded then none else some ({ s with inbound := s.inbound ++ bs }, [])
  | .peerEnds => if s.peerEnded then none else some ({ s with peerEnded := true }, [])
  | .peerDeafens => if s.peerDeaf then none else some ({ s with peerDeaf := true }, [])
  | .tick ms => some (s.tick ms)
  | .pick => if s.isOver then none else s.pick?
  | .take => if s.isOver then none else s.take?
  | .retire =>
    if s.isOver || 0 < s.handles || !s.commands.isEmpty then none else some (s.finish (.ok ()))

/-! ## Runs -/

/-- Any sequence of events, if each is possible. -/
def run? (s : Client) : List Event → Option (Client × List Note)
  | [] => some (s, [])
  | e :: es => do
    let (s, notes) ← s.step? e
    let (s, more) ← s.run? es
    return (s, notes ++ more)

/-- The moves of the driver. -/
def moves : List Event := [.take, .pick, .retire]

/-- The driver cannot move. -/
def Settled (s : Client) : Prop := ∀ e ∈ moves, s.step? e = none

/-- The first possible move. -/
def move? (s : Client) : Option (Client × List Note) := moves.findSome? s.step?

/-- Moves until nothing can move; `shown` holds what was shown so far, the last first. -/
def settleAux : (fuel : Nat) → (shown : List Note) → Client → Client × List Note
  | 0, shown, s => (s, shown.reverse)
  | fuel + 1, shown, s =>
    match s.move? with
    | none => (s, shown.reverse)
    | some (s, notes) => settleAux fuel (notes.reverse ++ shown) s

/-- Every move takes bytes, takes a command or ends the driver. -/
def settle (s : Client) : Client × List Note :=
  settleAux (s.inbound.length + s.commands.length + 1) [] s

/-! ## Typed calls -/

/-- The value that a payload holds, once the call has an outcome. -/
def decode [Payload β] (format : Format) (r : Outcome) : Except CallError β :=
  match r with
  | .error e => .error e
  | .ok payload =>
    match format.decode payload with
    | .ok b => .ok b
    | .error e => .error (.serialization e)

end Client

end RemoteCall
