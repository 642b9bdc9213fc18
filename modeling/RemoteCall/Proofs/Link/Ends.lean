import RemoteCall.Proofs.Run
import RemoteCall.Proofs.Client.Effects
import RemoteCall.Proofs.Server.Replies

/-!
# What the events of a link do

An event of a link is a step of one of its ends, which may put bytes on a wire or take some from it
(`Link.Effect`).
-/

namespace RemoteCall

/-- The frames that a client wrote. -/
def Client.written (notes : List Note) : List Frame :=
  notes.filterMap fun
    | .wrote _ f => some f
    | _ => none

@[simp] theorem Client.written_resolveAll (s : Client) (callers : List Nat) (r : Outcome) :
    written (s.resolveAll callers r).2 = [] := by
  simp [written, resolveAll]

namespace Link

def clientNotes (notes : List Note) : List Client.Note :=
  notes.filterMap fun
    | .client n => some n
    | .server _ => none

def serverNotes (notes : List Note) : List Server.Note :=
  notes.filterMap fun
    | .client _ => none
    | .server n => some n

/-! ## The cases -/

/-- What an event does to the link, and what it shows. -/
inductive Effect (l : Link) : Event → Link → List Note → Prop
  | clientMoves {e : Client.Event} {client : Client} {notes : List Client.Note} :
    ownOfClient e = true → l.client.step? e = some (client, notes) →
    Effect l (.client e)
      { l with
        client
        toServer := l.toServer ++ (Client.written notes).flatMap Frame.bytes }
      (notes.map .client)
  | serverMoves {e : Server.Event} {server : Server} {notes : List Server.Note} :
    ownOfServer e = true → l.server.step? e = some (server, notes) →
    Effect l (.server e)
      { l with
        server
        toClient := l.toClient ++ (Server.written notes).flatMap Frame.bytes }
      (notes.map .server)
  | serverGets {n : Nat} {server : Server} :
    l.server.step? (.arrives wire (l.toServer.take n)) = some (server, []) →
    Effect l (.serverGets n) { l with server, toServer := l.toServer.drop n } []
  | clientGets {n : Nat} {client : Client} :
    l.client.step? (.arrive (l.toClient.take n)) = some (client, []) →
    Effect l (.clientGets n) { l with client, toClient := l.toClient.drop n } []
  /-- Nobody reads what still comes. -/
  | clientDrops {n : Nat} : l.client.result ≠ none →
    Effect l (.clientGets n) { l with toClient := l.toClient.drop n } []
  | serverSeesEnd {server : Server} : l.client.result ≠ none →
    l.server.step? (.hangsUp wire) = some (server, []) →
    Effect l .serverSeesEnd { l with server } []
  | clientSeesEnd {client : Client} : l.served.isSome →
    l.client.step? .peerEnds = some (client, []) → Effect l .clientSeesEnd { l with client } []
  | serverLosesReader {server : Server} : l.client.result ≠ none →
    l.server.step? (.deafens wire) = some (server, []) →
    Effect l .serverLosesReader { l with server } []
  | clientLosesReader {client : Client} : l.served.isSome →
    l.client.step? .peerDeafens = some (client, []) →
    Effect l .clientLosesReader { l with client } []

/-! ## Every step is one of the cases -/

theorem ofClient_eq (l : Link) (client : Client) (notes : List Client.Note) :
    l.ofClient (client, notes) =
      ({ l with client, toServer := l.toServer ++ (Client.written notes).flatMap Frame.bytes },
        notes.map .client) := by
  simp only [ofClient, Prod.mk.injEq, Link.mk.injEq, and_true, true_and, List.append_cancel_left_eq]
  induction notes with
  | nil => rfl
  | cons n notes ih =>
    rw [List.flatMap_cons, ih]
    cases n <;> rfl

theorem ofServer_eq (l : Link) (server : Server) (notes : List Server.Note) :
    l.ofServer (server, notes) =
      ({ l with server, toClient := l.toClient ++ (Server.written notes).flatMap Frame.bytes },
        notes.map .server) := by
  simp only [ofServer, Prod.mk.injEq, Link.mk.injEq, and_true, true_and, List.append_cancel_left_eq]
  induction notes with
  | nil => rfl
  | cons n notes ih =>
    rw [List.flatMap_cons, ih]
    cases n <;> rfl

section
variable {l l' : Link} {notes : List Note}

/-- A step that shows nothing of the client and writes nothing. -/
theorem ofClient_map {s : Option (Client × List Client.Note)}
    (h : s.map l.ofClient = some (l', notes)) (quiet : ∀ c n, s = some (c, n) → n = []) :
    ∃ client, s = some (client, []) ∧ l' = { l with client } ∧ notes = [] := by
  obtain ⟨⟨client, shown⟩, step, same⟩ := Option.map_eq_some_iff.1 h
  obtain rfl := quiet client shown step
  rw [ofClient_eq] at same
  obtain ⟨rfl, rfl⟩ := by simpa only [Prod.mk.injEq] using same
  exact ⟨client, step, by simp [Client.written], rfl⟩

theorem ofServer_map {s : Option (Server × List Server.Note)}
    (h : s.map l.ofServer = some (l', notes)) (quiet : ∀ c n, s = some (c, n) → n = []) :
    ∃ server, s = some (server, []) ∧ l' = { l with server } ∧ notes = [] := by
  obtain ⟨⟨server, shown⟩, step, same⟩ := Option.map_eq_some_iff.1 h
  obtain rfl := quiet server shown step
  rw [ofServer_eq] at same
  obtain ⟨rfl, rfl⟩ := by simpa only [Prod.mk.injEq] using same
  exact ⟨server, step, by simp [Server.written], rfl⟩

/-- What comes from outside a server shows nothing. -/
theorem quiet_of_server {s t : Server} {e : Server.Event} {shown : List Server.Note}
    (outside : ownOfServer e = false) (step : s.step? e = some (t, shown)) : shown = [] := by
  cases e with
  | opens | arrives | hangsUp | deafens =>
    simp only [Server.step?, Option.bind_eq_bind, Option.bind_eq_some_iff] at step
    grind
  | releases | reads | begins | stops | finishes | abandons | writes | ends => cases outside

/-- What comes from outside a client shows nothing. -/
theorem quiet_of_client {s t : Client} {e : Client.Event} {shown : List Client.Note}
    (outside : ownOfClient e = false) (step : s.step? e = some (t, shown)) : shown = [] := by
  cases e with
  | arrive | peerEnds | peerDeafens =>
    simp only [Client.step?] at step
    grind
  | start | await | close | clone | release | giveUp | tick | pick | take | retire => cases outside

/-- What a server does by itself brings no bytes to it. -/
theorem bytesOn_of_own {e : Server.Event} (own : ownOfServer e = true) (c : ConnectionId) :
    e.bytesOn c = [] := by
  cases e with
  | opens | arrives | hangsUp | deafens => cases own
  | releases | reads | begins | stops | finishes | abandons | writes | ends => rfl

theorem effect_of_step? {e : Event} (h : l.step? e = some (l', notes)) : l.Effect e l' notes := by
  cases e with
  | client e =>
    simp only [step?] at h
    split at h
    next own =>
      obtain ⟨⟨client, shown⟩, step, same⟩ := Option.map_eq_some_iff.1 h
      rw [ofClient_eq] at same
      obtain ⟨rfl, rfl⟩ := by simpa only [Prod.mk.injEq] using same
      exact .clientMoves own step
    next => cases h
  | server e =>
    simp only [step?] at h
    split at h
    next own =>
      obtain ⟨⟨server, shown⟩, step, same⟩ := Option.map_eq_some_iff.1 h
      rw [ofServer_eq] at same
      obtain ⟨rfl, rfl⟩ := by simpa only [Prod.mk.injEq] using same
      exact .serverMoves own step
    next => cases h
  | serverGets n =>
    simp only [step?] at h
    split at h
    next => cases h
    next =>
      obtain ⟨server, step, rfl, rfl⟩ := ofServer_map h fun _ _ => quiet_of_server rfl
      exact .serverGets step
  | clientGets n =>
    simp only [step?] at h
    split at h
    next => cases h
    next =>
      split at h
      next ended =>
        obtain ⟨rfl, rfl⟩ := by simpa using h
        exact .clientDrops (by simpa [Client.isOver, Option.isSome_iff_ne_none] using ended)
      next =>
        obtain ⟨client, step, rfl, rfl⟩ := ofClient_map h fun _ _ => quiet_of_client rfl
        exact .clientGets step
  | serverSeesEnd =>
    simp only [step?] at h
    split at h
    next ended =>
      simp only [Bool.and_eq_true, Client.isOver, Option.isSome_iff_ne_none] at ended
      obtain ⟨server, step, rfl, rfl⟩ := ofServer_map h fun _ _ => quiet_of_server rfl
      exact .serverSeesEnd ended.1 step
    next => cases h
  | clientSeesEnd =>
    simp only [step?] at h
    split at h
    next ended =>
      simp only [Bool.and_eq_true] at ended
      obtain ⟨client, step, rfl, rfl⟩ := ofClient_map h fun _ _ => quiet_of_client rfl
      exact .clientSeesEnd ended.1 step
    next => cases h
  | serverLosesReader =>
    simp only [step?] at h
    split at h
    next ended =>
      simp only [Client.isOver, Option.isSome_iff_ne_none] at ended
      obtain ⟨server, step, rfl, rfl⟩ := ofServer_map h fun _ _ => quiet_of_server rfl
      exact .serverLosesReader ended step
    next => cases h
  | clientLosesReader =>
    simp only [step?] at h
    split at h
    next ended =>
      obtain ⟨client, step, rfl, rfl⟩ := ofClient_map h fun _ _ => quiet_of_client rfl
      exact .clientLosesReader ended step
    next => cases h

/-! ## Seen from one end -/

@[simp] theorem clientNotes_append (notes more : List Note) :
    clientNotes (notes ++ more) = clientNotes notes ++ clientNotes more := by
  simp [clientNotes]

@[simp] theorem serverNotes_append (notes more : List Note) :
    serverNotes (notes ++ more) = serverNotes notes ++ serverNotes more := by
  simp [serverNotes]

@[simp] theorem clientNotes_client (notes : List Client.Note) :
    clientNotes (notes.map .client) = notes := by
  simp [clientNotes, List.filterMap_map]

@[simp] theorem serverNotes_server (notes : List Server.Note) :
    serverNotes (notes.map .server) = notes := by
  simp [serverNotes, List.filterMap_map]

@[simp] theorem clientNotes_server (notes : List Server.Note) :
    clientNotes (notes.map .server) = [] := by
  simp [clientNotes]

@[simp] theorem serverNotes_client (notes : List Client.Note) :
    serverNotes (notes.map .client) = [] := by
  simp [serverNotes]

theorem Effect.fixed {e : Event} (h : l.Effect e l' notes) :
    l'.server.table = l.server.table ∧ l'.server.limit = l.server.limit := by
  cases h with
  | clientMoves | clientGets | clientDrops | clientSeesEnd | clientLosesReader => exact ⟨rfl, rfl⟩
  | serverMoves _ step | serverGets step | serverSeesEnd _ step | serverLosesReader _ step =>
    exact (Server.effect_of_step? step).fixed

end

end Link

end RemoteCall
