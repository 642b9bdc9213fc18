import RemoteCall.Frame.Decode
import RemoteCall.MethodTable

/-!
# The serving end of connections

All connections share one method table and one pool of workers. A connection reads frame after
frame. A call takes a worker if one is free; otherwise it waits, first come, first served among all
connections, and a worker that comes free goes to the first that waits. Until its call has begun a
connection reads nothing. A call that has begun runs on its own: when it finishes its reply is
queued and its worker is given back.

When the reading ends, or a reply finds no reader any more, the connection closes: it reads no more,
and the calls that still run are given up one by one, each giving back its worker. The replies in
the queue are still written, and then the connection is over.

`Server.step?` is one event of that life: something from outside, or one move of the server. A run
is any sequence of events.
-/

namespace RemoteCall

/-! ## Connections -/

/-- A call that has a worker. -/
structure Server.Running where
  /-- Tells the calls of a connection apart; they are numbered as they begin. -/
  serial : Nat
  sendId : SendId
  outcome : Outcome
  /-- The value that the call waits for. -/
  heldBy : Option Int64
  /-- The call waits for nothing any more. -/
  ready : Bool

/-- What the reader of a connection is at. -/
inductive Server.Reading
  | going
  /-- This call waits for a worker. -/
  | waiting (sendId : SendId) (method : String) (payload : Bytes)
  /-- This call has a worker and is to begin. -/
  | granted (sendId : SendId) (method : String) (payload : Bytes)
  | stopped (r : Except CallError Unit)

structure Server.Connection where
  /-- The bytes from the client that no frame has taken yet. -/
  inbound : Bytes := []
  /-- The client sends no more. -/
  hungUp : Bool := false
  /-- The client reads no more. -/
  deaf : Bool := false
  reading : Reading := .going
  /-- The connection is to end: its reader stops, and its calls are given up. -/
  closing : Bool := false
  /-- How many calls have begun. -/
  begun : Nat := 0
  running : List Running := []
  /-- The replies that are not written yet. -/
  replies : List Frame := []
  /-- How the writing failed, if it did; no reply is queued after that. -/
  writeError : Option CallError := none
  /-- How the connection ended. -/
  result : Option (Except CallError Unit) := none

abbrev ConnectionId := Nat

/-- A call that began to wait for a value. -/
structure Server.Hold where
  key : Int64
  connection : ConnectionId
  serial : Nat

structure Server where
  table : MethodTable
  /-- The longest payload that is accepted. -/
  limit : UInt32
  /-- How many workers have no call. -/
  free : Nat
  connections : List (ConnectionId × Server.Connection) := []
  /-- The connections that wait for a worker, the first one first. -/
  queue : List ConnectionId := []
  /-- The calls that began to wait for a value and were not released, abandoned ones too. -/
  holds : List Server.Hold := []

namespace Server

/-- What a step shows to the outside. -/
inductive Note
  | began (c : ConnectionId) (sendId : SendId) (method : String) (payload : Bytes)
      (heldBy : Option Int64)
  /-- A running call is given up. -/
  | abandoned (c : ConnectionId) (sendId : SendId) (heldBy : Option Int64)
  | wrote (c : ConnectionId) (f : Frame)
  | ended (c : ConnectionId) (r : Except CallError Unit)
  /-- Whether someone waited for the value. -/
  | released (found : Bool)
  deriving DecidableEq

inductive Event
  | opens (c : ConnectionId)
  | arrives (c : ConnectionId) (bs : Bytes)
  /-- The client sends no more. -/
  | hangsUp (c : ConnectionId)
  /-- The client reads no more. -/
  | deafens (c : ConnectionId)
  /-- Lets the oldest call that waits for `key` go on. -/
  | releases (key : Int64)
  /-- The reader takes a frame, an error or the end. -/
  | reads (c : ConnectionId)
  /-- The call that was granted a worker begins. -/
  | begins (c : ConnectionId)
  /-- The reader of a closing connection stops. -/
  | stops (c : ConnectionId)
  /-- The running call of that number has its outcome. -/
  | finishes (c : ConnectionId) (serial : Nat)
  /-- The running call of that number is given up, as its connection closes. -/
  | abandons (c : ConnectionId) (serial : Nat)
  /-- The first reply in the queue is written. -/
  | writes (c : ConnectionId)
  | ends (c : ConnectionId)

/-- A server with this many workers, but at least one. -/
def ofWorkers (table : MethodTable) (limit : UInt32) (workers : Nat) : Server :=
  { table, limit, free := max workers 1 }

def get? (s : Server) (c : ConnectionId) : Option Connection := s.connections.lookup c

def set (s : Server) (c : ConnectionId) (conn : Connection) : Server :=
  { s with connections := s.connections.map fun (d, old) => (d, if d = c then conn else old) }

/-! ### Lemmas -/

theorem lookup_map_ite (c d : ConnectionId) (conn : Connection)
    (rows : List (ConnectionId × Connection)) :
    (rows.map fun (e, old) => (e, if e = c then conn else old)).lookup d =
      (rows.lookup d).map fun old => if d = c then conn else old := by
  induction rows with
  | nil => rfl
  | cons r rows ih =>
    obtain ⟨e, old⟩ := r
    simp only [List.map_cons, List.lookup_cons]
    cases h : d == e with
    | false => exact ih
    | true => obtain rfl := eq_of_beq h; rfl

theorem get?_set (s : Server) (c d : ConnectionId) (conn : Connection) :
    (s.set c conn).get? d = (s.get? d).map fun old => if d = c then conn else old :=
  lookup_map_ite c d conn s.connections

/-- A connection that was opened holds what was put there. -/
theorem get?_set_self {s : Server} {c : ConnectionId} (conn : Connection)
    (h : (s.get? c).isSome) : (s.set c conn).get? c = some conn := by
  obtain ⟨old, found⟩ := Option.isSome_iff_exists.1 h
  rw [get?_set, found]
  simp

/-- No other connection changes. -/
theorem get?_set_of_ne (s : Server) {c d : ConnectionId} (conn : Connection) (h : d ≠ c) :
    (s.set c conn).get? d = s.get? d := by
  rw [get?_set]
  simp [h]

/-! ## Events from outside -/

def openNew (s : Server) (c : ConnectionId) : Server :=
  { s with connections := s.connections ++ [(c, {})] }

/-- The hold taken out of the queue of its value, and the rest. -/
def takeHold (key : Int64) : List Hold → Option (Hold × List Hold)
  | [] => none
  | h :: hs =>
    if h.key = key then some (h, hs) else (takeHold key hs).map fun (g, gs) => (g, h :: gs)

/-- The running calls, of which the one with that number is ready. -/
def makeReady (serial : Nat) (calls : List Running) : List Running :=
  calls.map fun r => if r.serial = serial then { r with ready := true } else r

def release (s : Server) (key : Int64) : Server × List Note :=
  match takeHold key s.holds with
  | none => (s, [.released false])
  | some (h, holds) =>
    let s := { s with holds }
    match s.get? h.connection with
    | none => (s, [.released false])
    | some conn =>
      if conn.running.any (·.serial = h.serial) then
        (s.set h.connection { conn with running := makeReady h.serial conn.running },
          [.released true])
      else (s, [.released false])

/-! ## Workers -/

def Reading.grant : Reading → Reading
  | .waiting i method payload => .granted i method payload
  | r => r

/-- A call takes a worker, or its connection joins the queue. -/
def hire (s : Server) (c : ConnectionId) (conn : Connection) (sendId : SendId) (method : String)
    (payload : Bytes) : Server :=
  match s.free with
  | free + 1 => { s with free }.set c { conn with reading := .granted sendId method payload }
  | 0 =>
    { s with queue := s.queue ++ [c] }.set c
      { conn with reading := .waiting sendId method payload }

/-- A worker is given back; the first connection in the queue gets it. -/
def giveBack (s : Server) : Server :=
  match s.queue with
  | [] => { s with free := s.free + 1 }
  | c :: queue =>
    let s := { s with queue }
    match s.get? c with
    | none => s
    | some conn => s.set c { conn with reading := conn.reading.grant }

/-! ## Moves -/

/-- The reading ends, and with it the connection begins to close. -/
def Connection.close (conn : Connection) (r : Except CallError Unit) : Connection :=
  { conn with reading := .stopped r, closing := true }

/-- The reader's next frame, error or end, if it is there. -/
def read? (s : Server) (c : ConnectionId) (conn : Connection) : Option (Server × List Note) :=
  match conn.reading with
  | .going =>
    match Frame.read s.limit conn.inbound with
    | .item f rest =>
      let conn := { conn with inbound := rest }
      match f.head with
      | .reply .. => some (s.set c conn, [])
      | .call i method _ => some (s.hire c conn i method f.payload, [])
    | .invalid rest =>
      some (s.set c ({ conn with inbound := rest }.close (.error .invalidFrame)), [])
    | .unfinished =>
      if conn.hungUp then
        let r := if conn.inbound.isEmpty then .ok () else .error (.io .unexpectedEof)
        some (s.set c (conn.close r), [])
      else none
  | _ => none

/-- A call that was granted a worker begins. -/
def begin? (s : Server) (c : ConnectionId) (conn : Connection) : Option (Server × List Note) :=
  match conn.reading with
  | .granted i method payload =>
    let answer := s.table.dispatch method payload
    let call : Running :=
      { serial := conn.begun, sendId := i, outcome := answer.outcome, heldBy := answer.heldBy,
        ready := answer.heldBy.isNone }
    let holds := match answer.heldBy with
      | some key => s.holds ++ [⟨key, c, conn.begun⟩]
      | none => s.holds
    let conn := { conn with
      reading := .going
      begun := conn.begun + 1
      running := conn.running ++ [call] }
    some ({ s with holds }.set c conn, [.began c i method payload answer.heldBy])
  | _ => none

/-- The reader of a closing connection stops, whatever it is at. -/
def stop? (s : Server) (c : ConnectionId) (conn : Connection) : Option (Server × List Note) :=
  let stopped := conn.close (.ok ())
  if !conn.closing then none
  else match conn.reading with
    | .stopped _ => none
    | .going => some (s.set c stopped, [])
    | .waiting .. => some ({ s with queue := s.queue.filter (· ≠ c) }.set c stopped, [])
    | .granted .. => some ((s.set c stopped).giveBack, [])

/-- The connection without that running call. -/
def Connection.without (conn : Connection) (serial : Nat) : Connection :=
  { conn with running := conn.running.filter (·.serial ≠ serial) }

/-- A running call that is ready finishes: its reply is queued, and its worker is given back. -/
def finish? (s : Server) (c : ConnectionId) (conn : Connection) (serial : Nat) :
    Option (Server × List Note) :=
  match conn.running.find? fun call => call.serial = serial && call.ready with
  | none => none
  | some call =>
    let reply := if conn.writeError.isSome then none else Outcome.frame? call.sendId call.outcome
    let conn := { conn.without serial with replies := conn.replies ++ reply.toList }
    some ((s.set c conn).giveBack, [])

/-- A call of a closing connection is given up, and its worker is given back. -/
def abandon? (s : Server) (c : ConnectionId) (conn : Connection) (serial : Nat) :
    Option (Server × List Note) :=
  if !conn.closing then none
  else match conn.running.find? (·.serial = serial) with
    | none => none
    | some call =>
      some ((s.set c (conn.without serial)).giveBack, [.abandoned c call.sendId call.heldBy])

/-- The first reply in the queue is written, or cannot be written. -/
def write? (s : Server) (c : ConnectionId) (conn : Connection) : Option (Server × List Note) :=
  match conn.replies with
  | [] => none
  | f :: replies =>
    if conn.deaf then
      some (s.set c { conn with
        replies := []
        writeError := some (.io .brokenPipe)
        closing := true }, [])
    else some (s.set c { conn with replies }, [.wrote c f])

/-- A connection that reads no more, runs no call and has written its replies is over. An error of
its reader comes before an error of its writer. -/
def end? (s : Server) (c : ConnectionId) (conn : Connection) : Option (Server × List Note) :=
  match conn.reading, conn.running, conn.replies, conn.result with
  | .stopped r, [], [], none =>
    let r := match r, conn.writeError with
      | .ok (), some e => .error e
      | r, _ => r
    some (s.set c { conn with result := some r }, [.ended c r])
  | _, _, _, _ => none

/-- One event, if it is possible: the new state and what it shows. -/
def step? (s : Server) : Event → Option (Server × List Note)
  | .opens c => if (s.get? c).isSome then none else some (s.openNew c, [])
  | .arrives c bs => do
    let conn ← s.get? c
    if conn.hungUp then none else some (s.set c { conn with inbound := conn.inbound ++ bs }, [])
  | .hangsUp c => do
    let conn ← s.get? c
    if conn.hungUp then none else some (s.set c { conn with hungUp := true }, [])
  | .deafens c => do
    let conn ← s.get? c
    if conn.deaf then none else some (s.set c { conn with deaf := true }, [])
  | .releases key => some (s.release key)
  | .reads c => do s.read? c (← s.get? c)
  | .begins c => do s.begin? c (← s.get? c)
  | .stops c => do s.stop? c (← s.get? c)
  | .finishes c serial => do s.finish? c (← s.get? c) serial
  | .abandons c serial => do s.abandon? c (← s.get? c) serial
  | .writes c => do s.write? c (← s.get? c)
  | .ends c => do s.end? c (← s.get? c)

/-! ## Runs -/

/-- Any sequence of events, if each is possible. -/
def run? (s : Server) : List Event → Option (Server × List Note)
  | [] => some (s, [])
  | e :: es => do
    let (s, notes) ← s.step? e
    let (s, more) ← s.run? es
    return (s, notes ++ more)

/-- The moves that may be possible on a connection. -/
def Connection.moves (c : ConnectionId) (conn : Connection) : List Event :=
  [.reads c, .begins c, .stops c, .writes c, .ends c] ++
    conn.running.flatMap fun call => [.finishes c call.serial, .abandons c call.serial]

def moves (s : Server) : List Event := s.connections.flatMap fun (c, conn) => conn.moves c

/-- Nothing in the server can move. -/
def Settled (s : Server) : Prop := ∀ e ∈ s.moves, s.step? e = none

instance (s : Server) : Decidable s.Settled :=
  inferInstanceAs (Decidable (∀ e ∈ s.moves, s.step? e = none))

/-- How many moves a connection has before it at most, if nothing comes from outside. -/
def Connection.work (conn : Connection) : Nat :=
  conn.inbound.length + conn.running.length * 4 + conn.replies.length * 2 +
    match conn.reading with
    | .going => 3
    | .waiting .. => 9
    | .granted .. => 8
    | .stopped _ => if conn.result.isNone then 1 else 0

/-- Every move makes it smaller. -/
def work (s : Server) : Nat := s.connections.foldr (fun (_, conn) n => conn.work + n) 0

end Server

end RemoteCall
