import RemoteCall.Proofs.Link.Delivery
import RemoteCall.Proofs.Link.Frames

/-!
# Two ends that keep each other's stream whole

The wires lose nothing: what an end got and what is on its way are the bytes that the other end
wrote (`Parts`). With limits that suit each other the frames of one end are therefore those that the
other one takes, in that order, and no reader meets an error; a reply that comes to the client is to
an outstanding call, since under no id does the server write more replies than it took calls
(`Parts.known`). So neither end ends (`open_of_steps`), whatever is called and whatever comes of it
(`ends_keep_streams_whole`).
-/

namespace RemoteCall.Link

section
variable {table : MethodTable} {limit clientLimit : UInt32} {handles workers : Nat} {l l' : Link}
  {es : List Event} {e : Event} {notes more : List Note} {conn : Server.Connection}

/-! ## The wires -/

/-- An event of a link is steps of its ends, and what goes on a wire comes off it. -/
theorem Effect.piped (h : l.Effect e l' more) (alone : l.server.connections = [(wire, conn)]) :
    (∃ ces, Steps Client.step? l.client ces l'.client (clientNotes more) ∧
        (l'.client.result = none → Client.arrived ces ++ l'.toClient =
          l.toClient ++ (Server.writtenOn wire (serverNotes more)).flatMap Frame.bytes)) ∧
      (∃ ses, Steps Server.step? l.server ses l'.server (serverNotes more) ∧
        Server.arrivedOn wire ses ++ l'.toServer =
          l.toServer ++ (Client.written (clientNotes more)).flatMap Frame.bytes) ∧
      ∃ conn', l'.server.connections = [(wire, conn')] := by
  -- an end that shows nothing puts nothing on its wire
  have unsent : ∀ bs : Bytes,
      bs = bs ++ (Server.writtenOn wire (serverNotes [])).flatMap Frame.bytes :=
    fun bs => (List.append_nil bs).symm
  have unasked : ∀ bs : Bytes, bs = bs ++ (Client.written (clientNotes [])).flatMap Frame.bytes :=
    fun bs => (List.append_nil bs).symm
  cases h with
  | @clientMoves e client notes own step =>
    have quiet : Client.arrived [e] = [] := by
      cases e with
      | arrive => cases own
      | start | await | close | clone | release | giveUp | peerEnds | peerDeafens | tick | pick
      | take | retire => rfl
    rw [clientNotes_client, serverNotes_client]
    refine ⟨⟨[e], .single step, fun _ => ?_⟩, ⟨[], .none, rfl⟩, conn, alone⟩
    rw [quiet]
    exact unsent l.toClient
  | @serverMoves e server notes own step =>
    have opens : ∀ b, e ≠ .opens b := by
      rintro b rfl
      cases own
    obtain ⟨same, still⟩ := (Server.effect_of_step? step).stays_alone opens alone
    rw [clientNotes_server, serverNotes_server]
    refine ⟨⟨[], .none, fun _ => ?_⟩, ⟨[e], .single step, ?_⟩, still⟩
    · rw [same]
      rfl
    · rw [Server.arrivedOn_singleton, bytesOn_of_own own]
      exact unasked l.toServer
  | @serverGets n server step =>
    have still := ((Server.effect_of_step? step).stays_alone (by simp) alone).2
    refine ⟨⟨[], .none, fun _ => unsent l.toClient⟩, ⟨[_], .single step, ?_⟩, still⟩
    rw [Server.arrivedOn_singleton, Server.Event.bytesOn, if_pos rfl, List.take_append_drop]
    exact unasked l.toServer
  | @clientGets n client step =>
    refine ⟨⟨[_], .single step, fun _ => ?_⟩, ⟨[], .none, unasked l.toServer⟩, conn, alone⟩
    rw [Client.arrived_arrive, List.take_append_drop]
    exact unsent l.toClient
  | clientDrops ended =>
    exact ⟨⟨[], .none, fun running => absurd running ended⟩, ⟨[], .none, unasked l.toServer⟩, conn,
      alone⟩
  | serverSeesEnd ended step | serverLosesReader ended step =>
    have still := ((Server.effect_of_step? step).stays_alone (by simp) alone).2
    exact ⟨⟨[], .none, fun running => absurd running ended⟩,
      ⟨[_], .single step, unasked l.toServer⟩, still⟩
  | clientSeesEnd _ step | clientLosesReader _ step =>
    exact ⟨⟨[_], .single step, fun _ => unsent l.toClient⟩, ⟨[], .none, unasked l.toServer⟩, conn,
      alone⟩

theorem piped_of_steps
    (steps : Steps step? (join { limit := clientLimit, handles }
      (Server.ofWorkers table limit workers)) es l notes) :
    (∃ ces, Steps Client.step? { limit := clientLimit, handles } ces l.client (clientNotes notes) ∧
        (l.client.result = none → Client.arrived ces ++ l.toClient =
          (Server.writtenOn wire (serverNotes notes)).flatMap Frame.bytes)) ∧
      (∃ ses, Steps Server.step? (Server.ofWorkers table limit workers) ses l.server
          (serverNotes notes) ∧
        Server.arrivedOn wire ses ++ l.toServer =
          (Client.written (clientNotes notes)).flatMap Frame.bytes) ∧
      ∃ conn, l.server.connections = [(wire, conn)] := by
  induction steps with
  | none =>
    have opens : (Server.ofWorkers table limit workers).step? (.opens wire) =
        some ((Server.ofWorkers table limit workers).openNew wire, []) := rfl
    exact ⟨⟨[], .none, fun _ => rfl⟩, ⟨_, .single opens, rfl⟩, {}, rfl⟩
  | @snoc es l l' e notes more before step ih =>
    obtain ⟨⟨ces, client, heard⟩, ⟨ses, server, asked⟩, conn, alone⟩ := ih
    have effect := effect_of_step? step
    obtain ⟨⟨ces', client', heard'⟩, ⟨ses', server', asked'⟩, still⟩ := effect.piped alone
    rw [clientNotes_append, serverNotes_append]
    refine ⟨⟨_, client.trans client', fun running => ?_⟩, ⟨_, server.trans server', ?_⟩, still⟩
    · rw [Client.arrived_append, List.append_assoc, heard' running, ← List.append_assoc,
        heard (effect.running running), Server.writtenOn_append, List.flatMap_append]
    · rw [Server.arrivedOn_append, List.append_assoc, asked', ← List.append_assoc, asked,
        Client.written_append, List.flatMap_append]

/-! ## What each end knows -/

/-- Each end keeps to its part, and the wires lose nothing. -/
structure Parts (table : MethodTable) (limit clientLimit : UInt32) (l : Link) (notes : List Note)
    (conn : Server.Connection) : Prop where
  clientLimit_eq : l.client.limit = clientLimit
  limit_eq : l.server.limit = limit
  sends : l.client.Sends (clientNotes notes)
  owed : ∀ i, (Client.callersUnder i (clientNotes notes)).length ≤
    (Client.repliesUnder i (clientNotes notes)).length + l.client.outstanding[i]?.toList.length
  takes : ∃ heard, Frame.Takes clientLimit heard (Client.got (clientNotes notes)) l.client.inbound ∧
    heard ++ l.toClient = (Server.writtenOn wire (serverNotes notes)).flatMap Frame.bytes
  serves : ∃ asked, Server.History table limit wire asked (Server.notesOn wire (serverNotes notes))
      conn ∧
    asked ++ l.toServer = (Client.written (clientNotes notes)).flatMap Frame.bytes

theorem parts_of_steps
    (steps : Steps step? (join { limit := clientLimit, handles }
      (Server.ofWorkers table limit workers)) es l notes)
    (running : l.client.result = none) (alone : l.server.connections = [(wire, conn)]) :
    Parts table limit clientLimit l notes conn := by
  obtain ⟨⟨ces, client, heard⟩, ⟨ses, server, asked⟩, -⟩ := piped_of_steps steps
  obtain ⟨clientLimit_eq, takes⟩ := Client.takes_of_steps client running
  obtain ⟨-, limit_eq, recorded⟩ := Server.recorded_of_steps server
  have found : l.server.get? wire = some conn := by simp [Server.get?, alone]
  exact ⟨clientLimit_eq, limit_eq, Client.sends_of_steps client running,
    Client.owed_of_steps client running, ⟨_, takes, heard running⟩,
    ⟨_, (recorded wire).1 conn found, asked⟩⟩

/-- Each frame that the client sent is a call, whole and within its limit. -/
theorem Parts.call (h : Parts table limit clientLimit l notes conn) {f : Frame}
    (sent : f ∈ Client.written (clientNotes notes)) :
    (∃ i method payload, f = .call i method payload) ∧ f.WellFormed clientLimit := by
  obtain ⟨i, method, payload, rfl, within, short⟩ := h.sends.written f sent
  rw [h.clientLimit_eq] at within
  exact ⟨⟨i, method, payload, rfl⟩, Frame.wellFormed_call i within short⟩

/-- Each frame that the server sent is a reply, whole and within the client's limit. -/
theorem Parts.reply (h : Parts table limit clientLimit l notes conn) {f : Frame}
    (sent : f ∈ Server.writtenOn wire (serverNotes notes))
    (fits : f.payload.length ≤ clientLimit.toNat) :
    (∃ i status payload, f = .reply i status payload) ∧ f.WellFormed clientLimit := by
  obtain ⟨asked, history, -⟩ := h.serves
  obtain ⟨i, status, payload, rfl⟩ := history.answers.replies sent
  exact ⟨⟨i, status, payload, rfl⟩, Frame.wellFormed_reply i status fits⟩

/-- The calls that began, and the one that the server's reader holds, are those of the frames that
the client sent; the others are still to be read. -/
theorem Parts.toServer (h : Parts table limit clientLimit l notes conn)
    (within : clientLimit ≤ limit) (goes : ¬conn.reading.Stopped) :
    ∃ taken, taken.map Server.Call.ofFrame? =
        (Server.begunOn wire (serverNotes notes) ++ conn.reading.pending).map some ∧
      Frame.Flows limit (Client.written (clientNotes notes)) taken
        (conn.inbound ++ l.toServer) := by
  obtain ⟨asked, history, pipe⟩ := h.serves
  obtain ⟨taken, rest, takes, -, calls⟩ := history.accepts
  obtain ⟨rfl, same⟩ := calls goes
  have carries : Frame.Carries limit (Client.written (clientNotes notes)) (asked ++ l.toServer) :=
    ⟨pipe, fun f sent => (h.call sent).2.mono within⟩
  have flows := carries.flows takes
  refine ⟨taken, ?_, flows⟩
  obtain ⟨left, whole, -⟩ := flows
  have all : ∀ call ∈ taken.map Server.Call.ofFrame?, call.isSome := by
    intro call member
    obtain ⟨f, sent, rfl⟩ := List.mem_map.1 member
    have here : f ∈ Client.written (clientNotes notes) := by
      rw [whole]
      exact List.mem_append_left _ sent
    obtain ⟨i, method, payload, rfl⟩ := (h.call here).1
    rfl
  rw [Server.begunOn, same, List.map_filterMap_some_eq_filter_map_isSome, List.filter_eq_self.2 all]

/-- The frames that the client took are those that the server sent; the others are still to come. -/
theorem Parts.toClient (h : Parts table limit clientLimit l notes conn)
    (fits : ∀ f ∈ Server.writtenOn wire (serverNotes notes), f.payload.length ≤ clientLimit.toNat) :
    Frame.Flows clientLimit (Server.writtenOn wire (serverNotes notes))
      (Client.got (clientNotes notes)) (l.client.inbound ++ l.toClient) := by
  obtain ⟨heard, takes, pipe⟩ := h.takes
  have carries : Frame.Carries clientLimit (Server.writtenOn wire (serverNotes notes))
      (heard ++ l.toClient) :=
    ⟨pipe, fun f sent => (h.reply sent (fits f sent)).2⟩
  exact carries.flows takes

/-- Under no id has the server written more replies than the client has sent calls. -/
theorem Parts.count_le (h : Parts table limit clientLimit l notes conn)
    (within : clientLimit ≤ limit) (goes : ¬conn.reading.Stopped) (i : SendId) :
    ((Server.writtenOn wire (serverNotes notes)).map Frame.sendId).count i ≤
      ((Client.written (clientNotes notes)).map Frame.sendId).count i := by
  obtain ⟨taken, calls, left, sent, -⟩ := h.toServer within goes
  obtain ⟨asked, history, -⟩ := h.serves
  calc ((Server.writtenOn wire (serverNotes notes)).map Frame.sendId).count i
      ≤ ((Server.begunOn wire (serverNotes notes)).map Server.Call.sendId).count i :=
        history.answers.count_le i
    _ ≤ (taken.map Frame.sendId).count i := by
        rw [← Server.Call.map_sendId calls, List.map_append, List.count_append]
        exact Nat.le_add_right ..
    _ ≤ ((Client.written (clientNotes notes)).map Frame.sendId).count i := by
        rw [sent, List.map_append, List.count_append]
        exact Nat.le_add_right ..

/-- The next frame that the client takes is a reply to an outstanding call: it is one more under its
id than those that the client took, and still no more than the calls that it sent. -/
theorem Parts.known (h : Parts table limit clientLimit l notes conn) (within : clientLimit ≤ limit)
    (goes : ¬conn.reading.Stopped)
    (fits : ∀ f ∈ Server.writtenOn wire (serverNotes notes), f.payload.length ≤ clientLimit.toNat)
    {f : Frame} {rest : Bytes} (item : Frame.read clientLimit l.client.inbound = .item f rest) :
    ∃ i status payload, f = .reply i status payload ∧ i ∈ l.client.outstanding := by
  have next := (h.toClient fits).next item
  have member : f ∈ Server.writtenOn wire (serverNotes notes) := next.subset (by simp)
  obtain ⟨i, status, payload, rfl⟩ := (h.reply member (fits f member)).1
  have one_more : ((Client.got (clientNotes notes)).map Frame.sendId).count i + 1 ≤
      ((Server.writtenOn wire (serverNotes notes)).map Frame.sendId).count i := by
    have more := (next.sublist.map Frame.sendId).count_le i
    simpa [Frame.reply, Frame.sendId, Head.sendId] using more
  have sent := h.count_le within goes i
  have owed := h.owed i
  have answered := Client.length_repliesUnder_le i (clientNotes notes)
  rw [Client.length_callersUnder] at owed
  have some : 0 < l.client.outstanding[i]?.toList.length := by omega
  refine ⟨i, status, payload, rfl, ?_⟩
  rw [Std.TreeMap.mem_iff_isSome_getElem?, Option.isSome_iff_ne_none]
  intro none
  simp [none] at some

/-! ## A link that can move no more -/

/-- The server has taken all calls, unless it waits for a worker. -/
theorem Parts.all_taken (h : Parts table limit clientLimit l notes conn) {taken : List Frame}
    (flows : Frame.Flows limit (Client.written (clientNotes notes)) taken
      (conn.inbound ++ l.toServer))
    (settled : l.Settled) (found : l.server.get? wire = some conn) (isOpen : conn.Open) :
    taken = Client.written (clientNotes notes) ∨
      ∃ i method payload, conn.reading = .waiting i method payload := by
  obtain ⟨asked, history, -⟩ := h.serves
  have resting := (settled.server.on wire).resting found isOpen.isOpen history.closes
  refine resting.reads.imp (fun waits => ?_) id
  rw [settled.toServer_eq_nil found isOpen.sends, List.append_nil] at flows
  exact flows.eq_of_unfinished (h.limit_eq ▸ waits.2.1)

/-- The client has taken all replies. -/
theorem Parts.all_got (h : Parts table limit clientLimit l notes conn)
    (flows : Frame.Flows clientLimit (Server.writtenOn wire (serverNotes notes))
      (Client.got (clientNotes notes)) (l.client.inbound ++ l.toClient))
    (settled : l.Settled) (isOpen : l.client.Open) :
    Client.got (clientNotes notes) = Server.writtenOn wire (serverNotes notes) := by
  rw [settled.toClient_eq_nil isOpen.runs isOpen.listens, List.append_nil] at flows
  exact flows.eq_of_unfinished (h.clientLimit_eq ▸ settled.read_eq_unfinished isOpen.runs)

/-! ## Runs -/

/-- Neither end ends the other. -/
theorem open_of_steps
    (steps : Steps step? (join { limit := clientLimit, handles }
      (Server.ofWorkers table limit workers)) es l notes)
    (within : clientLimit ≤ limit)
    (fits : ∀ f ∈ Server.writtenOn wire (serverNotes notes), f.payload.length ≤ clientLimit.toNat)
    (unclosed : .client .close ∉ es) (held : 0 < l.client.handles) :
    l.client.Open ∧ ∃ conn, l.server.connections = [(wire, conn)] ∧ conn.Open := by
  induction steps with
  | none => exact ⟨⟨rfl, rfl, rfl, List.not_mem_nil⟩, {}, rfl, rfl, rfl, rfl, rfl, id⟩
  | @snoc es l l' e notes more before step ih =>
    have effect := effect_of_step? step
    rw [serverNotes_append, Server.writtenOn_append] at fits
    have early : ∀ f ∈ Server.writtenOn wire (serverNotes notes),
        f.payload.length ≤ clientLimit.toNat :=
      fun f sent => fits f (List.mem_append_left _ sent)
    obtain ⟨client, conn, alone, server⟩ :=
      ih early (fun closed => unclosed (List.mem_append_left _ closed)) (effect.handles_pos held)
    have parts := parts_of_steps before client.runs alone
    obtain ⟨taken, -, flows⟩ := parts.toServer within server.goes
    refine effect.stays_open client alone server ?_ ?_ held ?_
    · rw [parts.clientLimit_eq]
      exact fun rest => (parts.toClient early).sound
    · rw [parts.limit_eq]
      exact fun rest => flows.sound
    · rintro rfl
      simp at unclosed

/-- Whatever is called, and whatever comes of it, neither end breaks the other one's stream, if the
server's limit is no less than the client's, the replies are within the client's limit and nobody
closes the channel. The calls that the server began or holds are, in their order, the frames that
the client sent, but for those whose bytes are still to be read; the frames that the client took are
those that the server sent, but for those whose bytes are still to be read. Once the link can move
no more all are taken, unless the server waits for a worker. All frames that were sent announce the
payload they carry. Neither reader finds an error, the server finds nothing but calls, and the
client nothing but replies to outstanding calls. Both ends stay open. -/
theorem ends_keep_streams_whole
    (run : (join { limit := clientLimit, handles } (Server.ofWorkers table limit workers)).run? es =
      some (l, notes))
    (within : clientLimit ≤ limit)
    (fits : ∀ f ∈ Server.writtenOn wire (serverNotes notes), f.payload.length ≤ clientLimit.toNat)
    (unclosed : .client .close ∉ es) (held : 0 < l.client.handles) :
    ∃ conn taken, l.client.Open ∧ l.server.get? wire = some conn ∧ conn.Open ∧
      taken.map Server.Call.ofFrame? =
        (Server.begunOn wire (serverNotes notes) ++ conn.reading.pending).map some ∧
      Frame.Flows limit (Client.written (clientNotes notes)) taken (conn.inbound ++ l.toServer) ∧
      Frame.Flows clientLimit (Server.writtenOn wire (serverNotes notes))
        (Client.got (clientNotes notes)) (l.client.inbound ++ l.toClient) ∧
      (l.Settled →
        (taken = Client.written (clientNotes notes) ∨
          ∃ i method payload, conn.reading = .waiting i method payload) ∧
        Client.got (clientNotes notes) = Server.writtenOn wire (serverNotes notes)) ∧
      (∀ f ∈ Client.written (clientNotes notes),
        (∃ i method payload, f = .call i method payload) ∧ f.WellFormed clientLimit) ∧
      (∀ f ∈ Server.writtenOn wire (serverNotes notes),
        (∃ i status payload, f = .reply i status payload) ∧ f.WellFormed clientLimit) ∧
      (∀ rest, Frame.read l.server.limit conn.inbound ≠ .invalid rest) ∧
      (∀ rest, Frame.read l.client.limit l.client.inbound ≠ .invalid rest) ∧
      (∀ f rest, Frame.read l.server.limit conn.inbound = .item f rest →
        ∃ i method payload, f = .call i method payload) ∧
      ∀ f rest, Frame.read l.client.limit l.client.inbound = .item f rest →
        ∃ i status payload, f = .reply i status payload ∧ i ∈ l.client.outstanding := by
  have steps := run?_eq_some_iff.1 run
  obtain ⟨client, conn, alone, server⟩ := open_of_steps steps within fits unclosed held
  have parts := parts_of_steps steps client.runs alone
  obtain ⟨taken, calls, toServer⟩ := parts.toServer within server.goes
  have toClient := parts.toClient fits
  have found : l.server.get? wire = some conn := by simp [Server.get?, alone]
  rw [parts.limit_eq, parts.clientLimit_eq]
  refine ⟨conn, taken, client, found, server, calls, toServer, toClient,
    fun settled => ⟨parts.all_taken toServer settled found server,
      parts.all_got toClient settled client⟩,
    fun f sent => parts.call sent, fun f sent => parts.reply sent (fits f sent),
    fun rest => toServer.sound, fun rest => toClient.sound, ?_,
    fun f rest item => parts.known within server.goes fits item⟩
  intro f rest item
  have sent : f ∈ Client.written (clientNotes notes) := (toServer.next item).subset (by simp)
  exact (parts.call sent).1

end

/-- A call that is begun and answered, and one of a method that the server does not know, which it
holds when the reply to the first one has come. -/
theorem unknown_call_breaks_no_stream : ∃ l notes conn taken,
    (join { limit := 100, handles := 1 }
      (Server.ofWorkers { format := .json, rows := [("", .ok)] } 200 1)).run?
        [.client (.start "" (.ok [7]) none), .client (.start "x" (.ok []) none), .client .pick,
          .client .pick, .serverGets 10, .server (.reads 0), .server (.begins 0),
          .server (.finishes 0 0), .server (.writes 0), .serverGets 100, .clientGets 3,
          .server (.reads 0), .clientGets 100] = some (l, notes) ∧
    l.client.Open ∧ l.server.get? wire = some conn ∧ conn.Open ∧
    Client.written (clientNotes notes) = [.call 0 "" [7], .call 1 "x" []] ∧
    taken.map Server.Call.ofFrame? = [some ⟨0, "", [7]⟩, some ⟨1, "x", []⟩] ∧
    Frame.Flows 200 [.call 0 "" [7], .call 1 "x" []] taken (conn.inbound ++ l.toServer) ∧
    Frame.read l.client.limit l.client.inbound = .item (.reply 0 .ok [7]) [] ∧
    0 ∈ l.client.outstanding := by
  obtain ⟨l, notes, conn, run, found, held, asked, begun, told, pending, next⟩ :
      ∃ l notes conn, (join { limit := 100, handles := 1 }
        (Server.ofWorkers { format := .json, rows := [("", .ok)] } 200 1)).run?
          [.client (.start "" (.ok [7]) none), .client (.start "x" (.ok []) none), .client .pick,
            .client .pick, .serverGets 10, .server (.reads 0), .server (.begins 0),
            .server (.finishes 0 0), .server (.writes 0), .serverGets 100, .clientGets 3,
            .server (.reads 0), .clientGets 100] = some (l, notes) ∧
      l.server.get? wire = some conn ∧ 0 < l.client.handles ∧
      Client.written (clientNotes notes) = [.call 0 "" [7], .call 1 "x" []] ∧
      Server.begunOn wire (serverNotes notes) = [⟨0, "", [7]⟩] ∧
      Server.writtenOn wire (serverNotes notes) = [.reply 0 .ok [7]] ∧
      conn.reading.pending = [⟨1, "x", []⟩] ∧
      Frame.read l.client.limit l.client.inbound = .item (.reply 0 .ok [7]) [] :=
    ⟨_, _, _, rfl, rfl, by decide, rfl, rfl, rfl, rfl, rfl⟩
  have fits : ∀ f ∈ Server.writtenOn wire (serverNotes notes),
      f.payload.length ≤ (100 : UInt32).toNat := by
    rw [told]
    decide
  obtain ⟨now, taken, client, here, server, calls, toServer, -, -, -, -, -, -, -, known⟩ :=
    ends_keep_streams_whole run (by decide) fits (by simp) held
  obtain rfl := Option.some.inj (found.symm.trans here)
  rw [asked] at toServer
  rw [begun, pending] at calls
  obtain ⟨i, status, payload, same, outstanding⟩ := known _ _ next
  obtain ⟨⟨rfl, -⟩, -⟩ := by simpa [Frame.reply] using same
  exact ⟨l, notes, conn, taken, run, client, found, server, asked, calls, toServer, next,
    outstanding⟩

end RemoteCall.Link
