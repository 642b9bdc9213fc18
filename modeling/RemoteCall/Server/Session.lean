import RemoteCall.Server.Turns

/-!
# Sessions with a server

A session is a list of things that clients do, each followed by turns of the server's tasks until
none has anything to do. For each of them a `Row` tells what the server did.
-/

namespace RemoteCall.Server.Session

/-- What a client does. -/
inductive Action
  | send (bs : Bytes)
  /-- The client sends no more. -/
  | hangUp
  /-- The client reads no more. -/
  | deafen
  /-- Lets the oldest call that waits for `key` go on. -/
  | release (key : Int64)
  | wait

structure Row where
  /-- The bytes written on each connection that was written on. -/
  out : List (ConnectionId × Bytes)
  ended : List (ConnectionId × Except CallError Unit)
  /-- The values that calls began to wait for, in that order. -/
  began : List Int64
  /-- The values that abandoned calls waited for, the least first. -/
  abandoned : List Int64
  /-- Whether someone waited for the value that was released. -/
  released : Option Bool

def event (c : ConnectionId) : Action → Option Event
  | .send bs => some (.arrives c bs)
  | .hangUp => some (.hangsUp c)
  | .deafen => some (.deafens c)
  | .release key => some (.releases key)
  | .wait => none

def frameOn (c : ConnectionId) : Note → Option Bytes
  | .wrote d f => if c = d then f.encode? else none
  | _ => none

def row (s : Server) (notes : List Note) : Row where
  out := (s.connections.map fun (c, _) => (c, (notes.filterMap (frameOn c)).flatten)).filter
    fun (_, bs) => !bs.isEmpty
  ended := notes.filterMap fun
    | .ended c r => some (c, r)
    | _ => none
  began := notes.filterMap fun
    | .began _ _ _ _ heldBy => heldBy
    | _ => none
  abandoned := (notes.filterMap fun
    | .abandoned _ _ heldBy => heldBy
    | _ => none).mergeSort (· ≤ ·)
  released := notes.findSome? fun
    | .released found => some found
    | _ => none

/-- One action on a connection, which is opened if it is new, and all that follows from it. -/
def act (t : Turns) (c : ConnectionId) (a : Action) : Turns × Row :=
  let t := t.after (.opens c)
  let t := match event c a with
    | some e => t.after e
    | none => t
  let t := t.run
  ({ t with shown := [] }, row t.server t.shown.reverse)

/-- The rows of a whole session. -/
def rows (t : Turns) : List (ConnectionId × Action) → List Row
  | [] => []
  | (c, a) :: rest =>
    let (t, r) := act t c a
    r :: rows t rest

def run (s : Server) (actions : List (ConnectionId × Action)) : List Row :=
  rows { server := s } actions

end RemoteCall.Server.Session
