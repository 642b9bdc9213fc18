import RemoteCall.Proofs.Link.Ends
import RemoteCall.Proofs.Server.Serving
import RemoteCall.Proofs.Server.Workers

/-!
# Between the ends of a link

For each outstanding call there is one promise between the ends, and for no other id there is any:
in a call frame on its way to the server, with the server, or in a reply on its way back
(`Transit.conserved`). Every event moves promises along and keeps this true (`Transit.effect`), and
in a link that can move no more there are none (`Transit.settled`).
-/

namespace RemoteCall

namespace Link

/-! ## Promises and commands -/

/-- What is promised under an id. -/
def under (i : SendId) (promises : List (SendId × Outcome)) : List Outcome :=
  promises.filterMap fun p => if p.1 = i then some p.2 else none

@[simp] theorem under_append (i : SendId) (ps qs : List (SendId × Outcome)) :
    under i (ps ++ qs) = under i ps ++ under i qs := by
  simp [under]

theorem under_cons (i : SendId) (p : SendId × Outcome) (ps : List (SendId × Outcome)) :
    under i (p :: ps) = if p.1 = i then p.2 :: under i ps else under i ps := by
  by_cases h : p.1 = i <;> simp [under, h]

theorem under_perm {ps qs : List (SendId × Outcome)} (h : ps.Perm qs) (i : SendId) :
    (under i ps).Perm (under i qs) :=
  h.filterMap _

/-- The call fits in a frame for either end, its reply fits in one for the client, and its caller
wants to see what the server's table says. -/
structure Sendable (table : MethodTable) (limit clientLimit : UInt32) (prompt : Prop)
    (wanted : Outcome) (method : String) (payload : Bytes) : Prop where
  heard : payload.length ≤ limit.toNat
  accepted : payload.length ≤ clientLimit.toNat
  named : (Utf8.encode method).length ≤ 255
  answered : ∀ i, Server.Call.Answerable table clientLimit prompt ⟨i, method, payload⟩
  answer : wanted = Outcome.hop (table.dispatch method payload).outcome

/-! ## The invariant -/

/-- The client runs, the server has one connection and serves it, and what is promised between them
is what the outstanding calls want: `calls` are on their way to the server, or there and not read,
and `replies` are on their way back. -/
structure Transit (wanted : Nat → Outcome) (prompt : Prop) (workers : Nat) (l : Link)
    (conn : Server.Connection) (calls replies : List Frame) : Prop where
  runs : l.client.result = none
  listens : l.client.peerEnded = false
  speaks : l.client.peerDeaf = false
  pool : Server.Pool workers l.server
  alone : l.server.connections = [(wire, conn)]
  serving : conn.Serving l.server.table l.server.limit l.client.limit prompt calls l.toServer
  told : Frame.Carries l.client.limit replies (l.client.inbound ++ l.toClient)
  conserved : ∀ i, (under i (conn.promises l.server.table calls ++
    replies.filterMap Frame.told?)).Perm (l.client.outstanding[i]?.toList.map wanted)
  queued : ∀ caller method payload, .call caller method payload ∈ l.client.commands →
    Sendable l.server.table l.server.limit l.client.limit prompt (wanted caller) method payload

/-- A call that an event starts is sendable and its caller waits for ever. -/
def Event.Sends (wanted : Nat → Outcome) (prompt : Prop) (l : Link) (e : Event) : Prop :=
  ∀ method argument patience, e = .client (.start method argument patience) → patience = none ∧
    ∃ payload, argument = .ok payload ∧ Sendable l.server.table l.server.limit l.client.limit prompt
      (wanted l.client.started) method payload

section
variable {wanted : Nat → Outcome} {prompt : Prop} {workers : Nat} {l : Link}
  {conn : Server.Connection} {calls replies : List Frame}

theorem Transit.found (h : Transit wanted prompt workers l conn calls replies) :
    l.server.get? wire = some conn := by
  simp [Server.get?, h.alone]

theorem Transit.eq_wire (h : Transit wanted prompt workers l conn calls replies)
    {c : ConnectionId} {other : Server.Connection} (found : l.server.get? c = some other) :
    c = wire ∧ other = conn :=
  Server.eq_of_alone h.alone found

/-- What is promised to the outstanding call. -/
theorem Transit.promised (h : Transit wanted prompt workers l conn calls replies) {i : SendId}
    {caller : Nat} (known : l.client.outstanding[i]? = some caller) {r : Outcome}
    (here : (i, r) ∈ conn.promises l.server.table calls ++ replies.filterMap Frame.told?) :
    r = wanted caller := by
  have member : r ∈ under i (conn.promises l.server.table calls ++ replies.filterMap Frame.told?) :=
    List.mem_filterMap.2 ⟨(i, r), here, if_pos rfl⟩
  have one := (h.conserved i).subset member
  rw [known] at one
  simpa using one

/-! ### The server's part -/

/-- The connection changes, and may then be granted a worker. -/
theorem Transit.changes (h : Transit wanted prompt workers l conn calls replies)
    {server : Server} {conn' : Server.Connection} {d : Server.Demand} {bs more : Bytes}
    {notes : List Server.Note}
    (change : Server.Change l.server.table l.server.limit wire conn d bs notes conn')
    (meets : Server.Meets l.server wire conn' d server) (pool : Server.Pool workers server)
    (sends : conn'.hungUp = conn.hungUp) (hears : conn'.deaf = conn.deaf)
    (arrived : l.toServer = bs ++ more) :
    ∃ conn' left, Transit wanted prompt workers
      { l with
        server
        toServer := more
        toClient := l.toClient ++ (Server.written notes).flatMap Frame.bytes }
      conn' left (replies ++ Server.written notes) := by
  have serving := h.serving
  rw [arrived] at serving
  obtain ⟨left, serving', fits, moved⟩ :=
    change.serving (h.pool.numbered wire conn h.found) serving sends hears
  have told : Frame.Carries l.client.limit (replies ++ Server.written notes)
      (l.client.inbound ++ (l.toClient ++ (Server.written notes).flatMap Frame.bytes)) := by
    rw [← List.append_assoc]
    exact h.told.append ⟨rfl, fits⟩
  have conserved : ∀ i, (under i (conn'.promises l.server.table left ++
      (replies ++ Server.written notes).filterMap Frame.told?)).Perm
        (l.client.outstanding[i]?.toList.map wanted) := by
    intro i
    refine (under_perm ?_ i).trans (h.conserved i)
    rw [List.filterMap_append]
    refine List.Perm.trans ?_ (moved.append_right _)
    rw [List.append_assoc]
    exact List.Perm.append_left _ List.perm_append_comm
  -- what does not mention the connection
  have rest : ∀ now : Server.Connection, server.connections = [(wire, now)] →
      now.Serving server.table server.limit l.client.limit prompt left more →
      now.promises server.table left = conn'.promises server.table left →
      Transit wanted prompt workers
        { l with
          server
          toServer := more
          toClient := l.toClient ++ (Server.written notes).flatMap Frame.bytes }
        now left (replies ++ Server.written notes) := by
    intro now alone serves same
    refine ⟨h.runs, h.listens, h.speaks, pool, alone, serves, told, ?_, ?_⟩
    · intro i
      show (under i (now.promises server.table left ++ _)).Perm _
      rw [same, meets.table_eq]
      exact conserved i
    · show ∀ caller method payload, _ → Sendable server.table server.limit _ _ _ _ _
      rw [meets.table_eq, meets.limit_eq]
      exact h.queued
  rw [← meets.table_eq, ← meets.limit_eq] at serving'
  rcases meets.alone h.alone with alone | alone
  · exact ⟨conn', left, rest conn' alone serving' rfl⟩
  · obtain ⟨granted, same⟩ := serving'.granted
    exact ⟨conn'.granted, left, rest conn'.granted alone granted same⟩

theorem Transit.serverMoves (h : Transit wanted prompt workers l conn calls replies)
    {e : Server.Event} {server : Server} {notes : List Server.Note} (more : Bytes)
    (step : l.server.step? e = some (server, notes)) (opens : ∀ c, e ≠ .opens c)
    (hangsUp : ∀ c, e ≠ .hangsUp c) (deafens : ∀ c, e ≠ .deafens c)
    (arrived : l.toServer = e.bytesOn wire ++ more) :
    ∃ conn' left, Transit wanted prompt workers
      { l with
        server
        toServer := more
        toClient := l.toClient ++ (Server.written notes).flatMap Frame.bytes }
      conn' left (replies ++ Server.written notes) := by
  have effect := Server.effect_of_step? step
  have pool := h.pool.effect effect
  cases effect with
  | opens => exact absurd rfl (opens _)
  | releasesNobody holds =>
    refine ⟨conn, calls, h.runs, h.listens, h.speaks, pool, h.alone, ?_, ?_, ?_, h.queued⟩
    · have serving := h.serving
      rw [arrived] at serving
      exact serving
    · simpa [Server.written] using h.told
    · simpa [Server.written] using h.conserved
  | releases found change meets concerns =>
    obtain ⟨rfl, rfl⟩ := h.eq_wire found
    have moved := h.changes change meets pool (concerns.hungUp hangsUp) (concerns.deaf deafens)
      arrived
    exact moved
  | moves found change meets concerns =>
    obtain ⟨rfl, rfl⟩ := h.eq_wire found
    exact h.changes change meets pool (concerns.hungUp hangsUp) (concerns.deaf deafens) arrived

/-! ### The client's part -/

/-- Nothing is written, nothing is read, and no id is given out or given back. -/
theorem Transit.still (h : Transit wanted prompt workers l conn calls replies) {client : Client}
    {notes : List Client.Note} (runs : client.result = none)
    (limit : client.limit = l.client.limit) (listens : client.peerEnded = l.client.peerEnded)
    (speaks : client.peerDeaf = l.client.peerDeaf) (inbound : client.inbound = l.client.inbound)
    (outstanding : client.outstanding = l.client.outstanding) (quiet : Client.written notes = [])
    (queued : ∀ caller method payload, .call caller method payload ∈ client.commands →
      .call caller method payload ∈ l.client.commands ∨
        Sendable l.server.table l.server.limit l.client.limit prompt (wanted caller) method
          payload) :
    ∃ calls' replies', Transit wanted prompt workers
      { l with client, toServer := l.toServer ++ (Client.written notes).flatMap Frame.bytes }
      conn calls' replies' := by
  rw [quiet, List.flatMap_nil, List.append_nil]
  refine ⟨calls, replies, runs, listens.trans h.listens, speaks.trans h.speaks, h.pool, h.alone,
    ?_, ?_, ?_, ?_⟩
  · show conn.Serving _ _ client.limit _ _ _
    rw [limit]
    exact h.serving
  · show Frame.Carries client.limit _ (client.inbound ++ _)
    rw [limit, inbound]
    exact h.told
  · show ∀ i, (under i _).Perm (client.outstanding[i]?.toList.map wanted)
    rw [outstanding]
    exact h.conserved
  · intro caller method payload member
    show Sendable _ _ client.limit _ _ _ _
    rw [limit]
    exact (queued caller method payload member).elim (h.queued caller method payload) id

/-- A call is picked up and written. -/
theorem Transit.writes (h : Transit wanted prompt workers l conn calls replies) {caller : Nat}
    {method : String} {payload : Bytes} {rest : List Command} {i next : SendId}
    (queue : l.client.commands = .call caller method payload :: rest)
    (free : SendId.allocate? l.client.outstanding l.client.next = some (i, next)) :
    Transit wanted prompt workers
      { l with
        client := { l.client with
          commands := rest, outstanding := l.client.outstanding.insert i caller, next }
        toServer := l.toServer ++ (Frame.call i method payload).bytes }
      conn (calls ++ [.call i method payload]) replies := by
  have sendable := h.queued caller method payload (by simp [queue])
  have taken := SendId.getElem?_of_allocate? free
  obtain ⟨serving, more⟩ := h.serving.sent ⟨i, method, payload⟩ rfl
    (Frame.wellFormed_call i sendable.heard sendable.named) (sendable.answered i)
  refine ⟨h.runs, h.listens, h.speaks, h.pool, h.alone, serving, h.told, ?_, ?_⟩
  · intro j
    refine (under_perm (more.append_right _) j).trans ?_
    have old := h.conserved j
    rw [List.cons_append, under_cons]
    show List.Perm _ ((l.client.outstanding.insert i caller)[j]?.toList.map wanted)
    by_cases same : i = j
    · subst same
      rw [taken] at old
      have nothing := old.eq_nil
      simp [nothing, Server.Call.promise, sendable.answer]
    · simpa [Server.Call.promise, same, Std.TreeMap.getElem?_insert] using old
  · intro c m p member
    exact h.queued c m p (by simp [queue, member])

/-- A reply that is taken is the one that its caller wants. -/
theorem Transit.answers (h : Transit wanted prompt workers l conn calls replies) {f : Frame}
    {rest : Bytes} {i : SendId} {status : ReplyStatus} {n : UInt32} {caller : Nat}
    (item : Frame.read l.client.limit l.client.inbound = .item f rest)
    (head : f.head = .reply i status n) (known : l.client.outstanding[i]? = some caller) :
    Outcome.ofReply status f.payload = wanted caller ∧ ∃ left,
      (∀ j, (under j (conn.promises l.server.table calls ++ left.filterMap Frame.told?)).Perm
        ((l.client.outstanding.erase i)[j]?.toList.map wanted)) ∧
      Frame.Carries l.client.limit left (rest ++ l.toClient) := by
  obtain ⟨left, rfl, carries⟩ := h.told.take item
  have tells : f.told? = some (i, .ofReply status f.payload) := by rw [Frame.told?, head]
  have order : (conn.promises l.server.table calls ++ (f :: left).filterMap Frame.told?).Perm
      ((i, .ofReply status f.payload) ::
        (conn.promises l.server.table calls ++ left.filterMap Frame.told?)) := by
    rw [List.filterMap_cons_some tells]
    exact List.perm_middle
  refine ⟨h.promised known (order.symm.subset List.mem_cons_self), left, ?_, carries⟩
  intro j
  have old := (under_perm order.symm j).trans (h.conserved j)
  rw [under_cons] at old
  by_cases same : i = j
  · subst same
    rw [if_pos rfl, known] at old
    have one := old.length_eq
    have none :
        under i (conn.promises l.server.table calls ++ left.filterMap Frame.told?) = [] := by
      simpa using one
    simp [none]
  · rw [if_neg same] at old
    simpa [same, Std.TreeMap.getElem?_erase] using old

theorem Transit.clientMoves (h : Transit wanted prompt workers l conn calls replies)
    {e : Client.Event} {client : Client} {notes : List Client.Note} (own : ownOfClient e = true)
    (effect : l.client.Effect e client notes) (sends : Event.Sends wanted prompt l (.client e))
    (runs : client.result = none) :
    ∃ calls' replies', Transit wanted prompt workers
      { l with client, toServer := l.toServer ++ (Client.written notes).flatMap Frame.bytes }
      conn calls' replies' := by
  cases effect with
  | refuses | awaits | closesLate | clones | givesUp =>
    exact h.still runs rfl rfl rfl rfl rfl rfl fun _ _ _ member => .inl member
  | ticks =>
    exact h.still runs rfl rfl rfl rfl rfl (by simp [Client.tick]) fun _ _ _ member => .inl member
  | releases =>
    have kept :=
      Client.dropQueue_of_running { l.client with handles := l.client.handles - 1 } h.runs
    rw [kept] at runs ⊢
    exact h.still runs rfl rfl rfl rfl rfl rfl fun _ _ _ member => .inl member
  | closes =>
    refine h.still runs rfl rfl rfl rfl rfl rfl fun caller method payload member => .inl ?_
    simpa using member
  | @accepts method argument patience payload held passed =>
    obtain ⟨-, started, rfl, sendable⟩ := sends method argument patience rfl
    obtain rfl := Client.eq_of_check passed
    refine h.still runs rfl rfl rfl rfl rfl rfl ?_
    intro c m p member
    rcases List.mem_append.1 member with old | new
    · exact .inl old
    · obtain ⟨rfl, rfl, rfl⟩ := by simpa using new
      exact .inr sendable
  | arrives | peerEnds | peerDeafens => cases own
  | picksClose | failsToWrite | breaks | ends | retires => simp at runs
  | @exhausts caller method payload rest _ queue _ =>
    refine h.still runs rfl rfl rfl rfl rfl (by simp) fun c m p member => .inl ?_
    rw [queue]
    exact List.mem_cons_of_mem _ member
  | writes _ queue free _ =>
    have sent := h.writes queue free
    exact ⟨_, _, by simpa [Client.written] using sent⟩
  | @skipsCall f rest i method n _ item head =>
    obtain ⟨left, rfl, told⟩ := h.told.take item
    have untold : f.told? = none := by rw [Frame.told?, head]
    have conserved := h.conserved
    rw [List.filterMap_cons_none untold] at conserved
    refine ⟨calls, left, ?_⟩
    rw [show Client.written [.got f] = [] from rfl, List.flatMap_nil, List.append_nil]
    exact ⟨runs, h.listens, h.speaks, h.pool, h.alone, h.serving, told, conserved, h.queued⟩
  | @skipsReply f rest i status n _ item head unknown =>
    obtain ⟨left, rfl, -⟩ := h.told.take item
    have tells : f.told? = some (i, .ofReply status f.payload) := by rw [Frame.told?, head]
    have none := h.conserved i
    rw [unknown, List.filterMap_cons_some tells, under_append, under_cons, if_pos rfl] at none
    have empty := none.eq_nil
    simp at empty
  | @answers f rest i status n caller _ item head known =>
    obtain ⟨-, left, conserved, told⟩ := h.answers item head known
    refine ⟨calls, left, ?_⟩
    have quiet : Client.written (.got f ::
        ({ l.client with
          inbound := rest, outstanding := l.client.outstanding.erase i }.resolve caller
            (.ofReply status f.payload)).2) = [] :=
      Client.written_resolveAll ..
    rw [quiet, List.flatMap_nil, List.append_nil]
    exact ⟨runs, h.listens, h.speaks, h.pool, h.alone, h.serving, told, conserved, h.queued⟩

/-! ### Every event -/

theorem Transit.effect (h : Transit wanted prompt workers l conn calls replies) {l' : Link}
    {e : Event} {notes : List Note} (effect : l.Effect e l' notes) (sends : e.Sends wanted prompt l)
    (runs : l'.client.result = none) :
    ∃ conn' calls' replies', Transit wanted prompt workers l' conn' calls' replies' := by
  have unserved : ¬l.served.isSome := by
    simp [served, h.found, h.serving.isOpen]
  cases effect with
  | clientMoves own step =>
    exact ⟨conn, h.clientMoves own (Client.effect_of_step? step) sends runs⟩
  | @serverMoves e server notes own step =>
    have bytes : e.bytesOn wire = [] := bytesOn_of_own own wire
    obtain ⟨conn', left, moved⟩ := h.serverMoves l.toServer step (by rintro c rfl; cases own)
      (by rintro c rfl; cases own) (by rintro c rfl; cases own) (by simp [bytes])
    exact ⟨conn', left, _, moved⟩
  | @serverGets n server step =>
    obtain ⟨conn', left, moved⟩ := h.serverMoves (l.toServer.drop n) step (by simp) (by simp)
      (by simp) (by simp [Server.Event.bytesOn])
    rw [show Server.written [] = [] from rfl, List.flatMap_nil, List.append_nil] at moved
    exact ⟨conn', left, _, moved⟩
  | @clientGets n client step =>
    cases Client.effect_of_step? step with
    | arrives =>
      have told := h.told
      rw [← List.take_append_drop n l.toClient, ← List.append_assoc] at told
      exact ⟨conn, calls, replies, runs, h.listens, h.speaks, h.pool, h.alone, h.serving, told,
        h.conserved, h.queued⟩
  | clientDrops ended | serverSeesEnd ended | serverLosesReader ended => exact absurd h.runs ended
  | clientSeesEnd ended | clientLosesReader ended => exact absurd ended unserved

/-! ## A link that can move no more -/

theorem Settled.client (settled : l.Settled) : l.client.Settled := by
  intro e he
  have move := settled (.client e) (by simp [moves, he])
  have own : ownOfClient e = true := by
    simp only [Client.moves, List.mem_cons, List.not_mem_nil, or_false] at he
    rcases he with rfl | rfl | rfl <;> rfl
  simpa [step?, own] using move

theorem Settled.server (settled : l.Settled) : l.server.Settled := by
  intro e he
  have move := settled (.server e) (by simp [moves, he])
  have own : ownOfServer e = true := by
    obtain ⟨⟨c, conn⟩, -, he⟩ := List.mem_flatMap.1 he
    simp only [Server.Connection.moves, List.mem_append, List.mem_cons, List.not_mem_nil, or_false,
      List.mem_flatMap] at he
    rcases he with (rfl | rfl | rfl | rfl | rfl) | ⟨r, -, rfl | rfl⟩ <;> rfl
  simpa [step?, own] using move

/-- The server got all that is on its way to it. -/
theorem Settled.toServer_eq_nil (settled : l.Settled) (found : l.server.get? wire = some conn)
    (sends : conn.hungUp = false) : l.toServer = [] := by
  have move := settled (.serverGets l.toServer.length) (by simp [moves])
  simpa [step?, Server.step?, found, sends] using move

theorem Settled.toClient_eq_nil (settled : l.Settled) (runs : l.client.result = none)
    (listens : l.client.peerEnded = false) : l.toClient = [] := by
  have move := settled (.clientGets l.toClient.length) (by simp [moves])
  simpa [step?, Client.step?, Client.isOver, runs, listens] using move

/-- The driver waits for more bytes. -/
theorem Settled.read_eq_unfinished (settled : l.Settled) (runs : l.client.result = none) :
    Frame.read l.client.limit l.client.inbound = .unfinished := by
  have takes : l.client.take? = none := by
    simpa [Client.step?, Client.isOver, runs] using settled.client .take (by simp [Client.moves])
  unfold Client.take? at takes
  split at takes
  next => cases takes
  next => cases takes
  next unfinished => exact unfinished

theorem Settled.commands_eq_nil (settled : l.Settled) (runs : l.client.result = none) :
    l.client.commands = [] :=
  settled.client.commands_eq_nil runs

/-- The driver has taken all replies. -/
theorem Transit.replies_eq_nil (h : Transit wanted prompt workers l conn calls replies)
    (settled : l.Settled) : replies = [] := by
  have told := h.told
  rw [settled.toClient_eq_nil h.runs h.listens, List.append_nil] at told
  exact told.eq_nil (settled.read_eq_unfinished h.runs)

/-- If calls wait for no values then the server has begun, finished and answered them all: a
connection that waits for a worker would find one, since no call runs. -/
theorem Transit.promises_eq_nil (h : Transit wanted prompt workers l conn calls replies)
    (busy : 0 < workers) (now : prompt) (settled : l.Settled) :
    conn.promises l.server.table calls = [] := by
  have resting := (settled.server.on wire).resting h.found h.serving.isOpen
    ⟨fun failed => by simp [h.serving.fine] at failed, fun stopped => absurd stopped h.serving.goes⟩
  have nobody : conn.running = [] := by
    cases running : conn.running with
    | nil => rfl
    | cons r rest =>
      have runs : r ∈ conn.running := by simp [running]
      have ready := (h.serving.running r runs).2 now
      rw [resting.held r runs] at ready
      cases ready
  rcases resting.reads with ⟨going, unfinished, -⟩ | ⟨i, method, payload, waiting⟩
  · have carries := h.serving.carries
    rw [settled.toServer_eq_nil h.found h.serving.sends, List.append_nil] at carries
    simp [Server.Connection.promises, carries.eq_nil unfinished, going, Server.Reading.pending,
      nobody, resting.written]
  · have queued : wire ∈ l.server.queue := by
      rw [h.pool.queued]
      exact ⟨conn, h.found, by rw [waiting]; trivial⟩
    have none := h.pool.busy (List.ne_nil_of_mem queued)
    have total := h.pool.total
    simp [none, Server.hired, h.alone, Server.Connection.hired, nobody, waiting,
      Server.Reading.workers] at total
    omega

/-- No call is outstanding. -/
theorem Transit.settled (h : Transit wanted prompt workers l conn calls replies)
    (busy : 0 < workers) (now : prompt) (settled : l.Settled) (i : SendId) :
    l.client.outstanding[i]? = none := by
  have none := (h.conserved i).symm
  rw [h.promises_eq_nil busy now settled, h.replies_eq_nil settled] at none
  have empty := none.eq_nil
  simpa using empty

end

end Link

end RemoteCall
