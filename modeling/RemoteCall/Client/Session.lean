import RemoteCall.Client

/-!
# Sessions with a client

A session is a list of things that the program and the peer do, each followed by all the moves that
the client can make and by the passing of one millisecond. For each of them a `Row` tells what the
client did.
-/

namespace RemoteCall.Client

inductive Session.Action
  /-- Starts calls, in this order, and awaits them. -/
  | calls (cs : List (String × Except IoError Bytes))
  /-- Starts `n` calls of one method, each given up at once. -/
  | flood (n : Nat) (method : String) (argument : Nat → Except IoError Bytes)
  | giveUp (caller : Nat)
  /-- The peer sends bytes. -/
  | send (bs : Bytes)
  | peerEnds
  | peerDeafens
  | close
  /-- Drops the session's handle; there are no calls after that. -/
  | release
  | advance (ms : Nat)
  | wait

structure Session.Row where
  /-- The frames that were written. -/
  frames : List Frame
  /-- The callers that have an outcome now. -/
  done : List (Nat × Outcome)
  ended : Option (Except CallError Unit)
  /-- Whether the driver is gone, as a handle that is left sees it. -/
  closed : Option Bool

structure Session where
  client : Client
  /-- How long callers wait, in milliseconds; none waits for ever. -/
  patience : Option Nat
  /-- Whether the session's own handle is there. -/
  holding : Bool := true

namespace Session

/-- A session with a client, and with a second handle if `watched`. -/
def start (limit : UInt32) (patience : Option Nat) (watched : Bool) : Session where
  client := { limit, handles := if watched then 2 else 1 }
  patience

/-- The client after the event; an event that is not possible changes nothing. -/
def perform (s : Client) (e : Event) : Client × List Note := (s.step? e).getD (s, [])

/-- The events one after the other. -/
def performAll (s : Client) : List Event → Client × List Note
  | [] => (s, [])
  | e :: es =>
    let (s, notes) := perform s e
    let (s, more) := performAll s es
    (s, notes ++ more)

/-- The calls number `k` to `n` of a flood; `shown` holds what was shown so far, the last first. -/
def flood (method : String) (argument : Nat → Except IoError Bytes) (patience : Option Nat) :
    (left k : Nat) → (shown : List Note) → Client → Client × List Note
  | 0, _, shown, s => (s, shown.reverse)
  | left + 1, k, shown, s =>
    let caller := s.started
    let (s, _) := perform s (.start method (argument k) patience)
    let (s, _) := perform s (.giveUp caller)
    let (s, notes) := s.settle
    flood method argument patience left (k + 1) (notes.reverse ++ shown) s

/-- What the action does before the client moves. -/
def commence (s : Session) : Action → Client × List Note
  | .calls cs =>
    if s.holding then
      performAll s.client <| cs.zipIdx.flatMap fun ((method, argument), k) =>
        [.start method argument s.patience, .await (s.client.started + k)]
    else (s.client, [])
  | .flood n method argument =>
    if s.holding then flood method argument s.patience n 0 [] s.client else (s.client, [])
  | .giveUp caller => perform s.client (.giveUp caller)
  | .send bs => perform s.client (.arrive bs)
  | .peerEnds => perform s.client .peerEnds
  | .peerDeafens => perform s.client .peerDeafens
  | .close => if s.holding then perform s.client .close else (s.client, [])
  | .release => if s.holding then perform s.client .release else (s.client, [])
  | .advance _ | .wait => (s.client, [])

/-- How long the action takes, in milliseconds. -/
def duration : Action → Nat
  | .advance ms => ms + 1
  | _ => 1

def row (s : Client) (notes : List Note) : Row where
  frames := notes.filterMap fun
    | .wrote _ f => some f
    | _ => none
  done := notes.filterMap fun
    | .resolved caller r => some (caller, r)
    | _ => none
  ended := notes.findSome? fun
    | .ended r => some r
    | _ => none
  closed := if s.handles = 0 then none else some s.isOver

/-- One action, and all that follows from it. Who waits no time at all sees no reply. -/
def act (s : Session) (a : Action) : Session × Row :=
  let (client, notes) := commence s a
  let (client, hasty) := client.tick 0
  let (client, more) := client.settle
  let (client, late) := client.tick (duration a)
  let holding := match a with
    | .release => false
    | _ => s.holding
  ({ s with client, holding }, row client (notes ++ hasty ++ more ++ late))

/-- The rows of a whole session. -/
def run (s : Session) : List Action → List Row
  | [] => []
  | a :: rest =>
    let (s, r) := act s a
    r :: run s rest

end Session

end RemoteCall.Client
