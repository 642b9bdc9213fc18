import RemoteCall.Address

/-!
# Listening on addresses

A `Network` knows the addresses that someone listens on. Binding a port of zero picks a free port;
an address that is taken cannot be bound again until its listener shuts down. A connection needs a
listener.
-/

namespace RemoteCall

/-- The addresses that someone listens on. -/
structure Network where
  listening : List Address := []

namespace Network

def addressInUse : CallError := .io ⟨.addrInUse, "Address already in use (os error 98)"⟩

def refused : CallError := .io ⟨.connectionRefused, "Connection refused (os error 111)"⟩

/-- The first port from 1 on at which nobody listens, if there is one among the first `n`. -/
def freePort? (net : Network) (host : String) (n : Nat) : Option UInt16 :=
  ((List.range n).map fun k => UInt16.ofNat (k + 1)).find? fun p => ⟨host, p⟩ ∉ net.listening

/-- The address itself, with a free port if it asks for one. -/
def settle? (net : Network) (a : Address) : Option Address :=
  if a.port = 0 then (net.freePort? a.host 65535).map fun p => { a with port := p } else some a

/-- Listens on an address: the address that was bound. -/
def bind (net : Network) (a : Address) : Except CallError (Address × Network) :=
  match net.settle? a with
  | none => .error addressInUse
  | some a =>
    if a ∈ net.listening then .error addressInUse
    else .ok (a, { net with listening := a :: net.listening })

/-- Listens on the address that the text names. -/
def bindText (net : Network) (text : String) : Except CallError (Address × Network) :=
  match Address.parse text with
  | .ok a => net.bind a
  | .error e => .error (.io e)

/-- The listener stops, and its address is free. -/
def shutdown (net : Network) (a : Address) : Network :=
  { net with listening := net.listening.filter (· ≠ a) }

def connect (net : Network) (a : Address) : Except CallError Unit :=
  if a ∈ net.listening then .ok () else .error refused

/-! ## A listener's life -/

/-- What binding an address, binding it again, shutting down, connecting and binding anew show. -/
structure Life where
  bound : Address
  again : Except CallError Address
  afterShutdown : Except CallError Unit
  rebound : Except CallError Address

def life (net : Network) (text : String) : Except CallError Life :=
  match net.bindText text with
  | .error e => .error e
  | .ok (bound, net) =>
    let again := (net.bind bound).map (·.1)
    let net := net.shutdown bound
    .ok { bound, again, afterShutdown := net.connect bound, rebound := (net.bind bound).map (·.1) }

end Network

end RemoteCall
