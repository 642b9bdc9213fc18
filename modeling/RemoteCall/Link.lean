import RemoteCall.Client
import RemoteCall.Server

/-!
# A client and a server, joined

The bytes that one end writes travel on a wire to the other end, which gets them in order, in pieces
of any size. An end that is over stops reading at once; that it sends no more is seen behind the
last of its bytes.
-/

namespace RemoteCall

structure Link where
  client : Client
  server : Server
  /-- What the client wrote and the server did not get yet. -/
  toServer : Bytes := []
  /-- What the server wrote and the client did not get yet. -/
  toClient : Bytes := []

namespace Link

/-- The server's only connection. -/
def wire : ConnectionId := 0

inductive Note
  | client (n : Client.Note)
  | server (n : Server.Note)
  deriving DecidableEq

inductive Event
  /-- The program acts, time passes or the driver moves. -/
  | client (e : Client.Event)
  /-- The server moves, or a value is released. -/
  | server (e : Server.Event)
  /-- The server gets the first `n` bytes of those on the wire. -/
  | serverGets (n : Nat)
  | clientGets (n : Nat)
  /-- The server sees that the client's driver is over. -/
  | serverSeesEnd
  | clientSeesEnd
  /-- Replies find no reader any more. -/
  | serverLosesReader
  | clientLosesReader

/-- Whether an event of the client is none of the peer's doing. -/
def ownOfClient : Client.Event → Bool
  | .arrive _ | .peerEnds | .peerDeafens => false
  | _ => true

/-- Whether an event of the server is none of a client's doing. -/
def ownOfServer : Server.Event → Bool
  | .opens _ | .arrives .. | .hangsUp _ | .deafens _ => false
  | _ => true

/-- How the server's connection ended. -/
def served (l : Link) : Option (Except CallError Unit) := (l.server.get? wire).bind (·.result)

/-- A link over a new connection. -/
def join (client : Client) (server : Server) : Link := { client, server := server.openNew wire }

/-- The client's new state and what it wrote. -/
def ofClient (l : Link) : Client × List Client.Note → Link × List Note
  | (client, notes) =>
    let bytes := notes.flatMap fun
      | .wrote _ f => f.encode?.getD []
      | _ => []
    ({ l with client, toServer := l.toServer ++ bytes }, notes.map .client)

/-- The server's new state and what it wrote. -/
def ofServer (l : Link) : Server × List Server.Note → Link × List Note
  | (server, notes) =>
    let bytes := notes.flatMap fun
      | .wrote _ f => f.encode?.getD []
      | _ => []
    ({ l with server, toClient := l.toClient ++ bytes }, notes.map .server)

/-- One event, if it is possible: the new state and what it shows. -/
def step? (l : Link) : Event → Option (Link × List Note)
  | .client e => if ownOfClient e then (l.client.step? e).map l.ofClient else none
  | .server e => if ownOfServer e then (l.server.step? e).map l.ofServer else none
  | .serverGets n =>
    if n = 0 || l.toServer.isEmpty then none
    else (l.server.step? (.arrives wire (l.toServer.take n))).map
      { l with toServer := l.toServer.drop n }.ofServer
  | .clientGets n =>
    if n = 0 || l.toClient.isEmpty then none
    else
      let l' := { l with toClient := l.toClient.drop n }
      if l.client.isOver then some (l', [])
      else (l.client.step? (.arrive (l.toClient.take n))).map l'.ofClient
  | .serverSeesEnd =>
    if l.client.isOver && l.toServer.isEmpty then (l.server.step? (.hangsUp wire)).map l.ofServer
    else none
  | .clientSeesEnd =>
    if l.served.isSome && l.toClient.isEmpty then (l.client.step? .peerEnds).map l.ofClient
    else none
  | .serverLosesReader =>
    if l.client.isOver then (l.server.step? (.deafens wire)).map l.ofServer else none
  | .clientLosesReader =>
    if l.served.isSome then (l.client.step? .peerDeafens).map l.ofClient else none

/-! ## Runs -/

/-- What may happen without the program: moves of either end, and what the wires bring. -/
def moves (l : Link) : List Event :=
  Client.moves.map .client ++ l.server.moves.map .server ++
    [.serverGets l.toServer.length, .clientGets l.toClient.length, .serverSeesEnd, .clientSeesEnd,
      .serverLosesReader, .clientLosesReader]

/-- Neither end can move, and nothing is on its way. -/
def Settled (l : Link) : Prop := ∀ e ∈ l.moves, l.step? e = none

/-- Any sequence of events, if each is possible. -/
def run? (l : Link) : List Event → Option (Link × List Note)
  | [] => some (l, [])
  | e :: es => do
    let (l, notes) ← l.step? e
    let (l, more) ← l.run? es
    return (l, notes ++ more)

end Link

end RemoteCall
