import RemoteCall.Link
import RemoteCall.Server.Turns

/-!
# Whose turn it is at the ends of a link

The client's driver and the tasks of the server stand in one line. The first one moves until it has
to wait; what it writes arrives at once, and whoever can go on because of that joins the line at its
end. When the line is empty neither end can move and nothing is on its way.
-/

namespace RemoteCall.Link

inductive Actor
  | driver
  | server (task : Server.Task)
  deriving DecidableEq

structure Turns where
  link : Link
  line : List Actor
  /-- The readers and calls of the server that wait, in the order in which they began to. -/
  waiting : List Server.Task := []
  /-- What was shown so far, the last first. -/
  shown : List Note := []

namespace Turns

/-- Both ends have everything before them. -/
def start (l : Link) : Turns where
  link := l
  line := [.driver, .server (.reader wire)]

/-! ## The line -/

def join (t : Turns) (a : Actor) : Turns :=
  if a ∈ t.line then t else { t with line := t.line ++ [a] }

def joinAll (t : Turns) (actors : List Actor) : Turns := actors.foldl join t

/-- The event, and those who can go on because of it; an event that is not possible changes
nothing. -/
def after (t : Turns) (e : Event) (concerned : List Actor) : Turns :=
  match t.link.step? e with
  | none => t
  | some (link, notes) => joinAll { t with link, shown := notes.reverse ++ t.shown } concerned

/-- An event of the client's that the driver has to look at. -/
def afterClient (t : Turns) (e : Client.Event) : Turns := t.after (.client e) [.driver]

/-! ## Turns -/

/-- The server's reader, if it is at the wire. -/
def reader (t : Turns) : List Actor :=
  (Server.Turns.concerned t.link.server (.hangsUp wire)).map .server

/-- What the client wrote arrives at the server, and perhaps that the client is over. -/
def reachServer (t : Turns) : Turns :=
  let t := t.after (.serverGets t.link.toServer.length) t.reader
  (t.after .serverSeesEnd t.reader).after .serverLosesReader []

/-- What the server wrote arrives at the client, and perhaps that the connection is over. -/
def reachClient (t : Turns) : Turns :=
  let t := t.after (.clientGets t.link.toClient.length) [.driver]
  (t.after .clientSeesEnd [.driver]).after .clientLosesReader []

/-- The driver or the task moves until it has to wait. -/
def take (t : Turns) : Actor → Turns
  | .driver =>
    let (link, notes) := t.link.ofClient t.link.client.settle
    reachServer { t with link, shown := notes.reverse ++ t.shown }
  | .server task =>
    let s := Server.Turns.take { server := t.link.server, waiting := t.waiting } task
    let (link, notes) := t.link.ofServer (s.server, s.shown.reverse)
    let t := { t with link, waiting := s.waiting, shown := notes.reverse ++ t.shown }
    (t.joinAll (s.line.map .server)).reachClient

def runAux : (fuel : Nat) → Turns → Turns
  | 0, t => t
  | fuel + 1, t =>
    match t.line with
    | [] => t
    | a :: line => runAux fuel ({ t with line }.take a)

/-- How many bytes the client and the wires may still bring to the server. -/
def ahead (l : Link) : Nat :=
  let ofCommand : Command → Nat
    | .call _ method payload => 8 + method.utf8ByteSize + payload.length
    | .close => 0
  l.toServer.length + (l.client.commands.map ofCommand).foldl (· + ·) 0

/-- Turn after turn, until the line is empty. A move of the server's brings two actors into the
line, every turn at most the other end, and the closing of the connection each task once. -/
def run (t : Turns) : Turns :=
  runAux (16 * (ahead t.link + t.link.server.work + t.line.length + 1)) t

end Turns

end RemoteCall.Link
