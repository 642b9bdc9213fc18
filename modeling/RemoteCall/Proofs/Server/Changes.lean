import RemoteCall.Server

/-!
# What the events of a server do

`Server.Change` lists, case by case, what a move of a connection does to that connection, and what
it asks of the workers (`Demand`). `Server.Effect` says what an event does to the whole server: it
changes one connection and meets the demand. A worker that is given back may in turn be granted to
another connection. Every step is one of these cases (`effect_of_step?`).
-/

namespace RemoteCall.Server

/-! ## The cases of one connection -/

/-- What a change of a connection asks of the workers. -/
inductive Demand
  | nothing
  /-- A free worker is taken. -/
  | takes
  /-- The connection joins the queue. -/
  | joins
  /-- The connection leaves the queue without a worker. -/
  | leaves
  /-- A worker is given back. -/
  | givesBack

/-- The running call that begins with the dispatch of a request. -/
def Running.begun (table : MethodTable) (serial : Nat) (i : SendId) (method : String)
    (payload : Bytes) : Running where
  serial := serial
  sendId := i
  outcome := (table.dispatch method payload).outcome
  heldBy := (table.dispatch method payload).heldBy
  ready := (table.dispatch method payload).heldBy.isNone

/-- The reply that a finished call puts into the queue. -/
def Connection.reply? (conn : Connection) (call : Running) : Option Frame :=
  if conn.writeError.isSome then none else Outcome.frame? call.sendId call.outcome

/-- How a connection ends after its reader did. -/
def Connection.verdict (conn : Connection) (r : Except CallError Unit) : Except CallError Unit :=
  match r, conn.writeError with
  | .ok (), some e => .error e
  | r, _ => r

/-- What a move of connection `c` does to it: the demand, the bytes that arrive, what is shown. -/
inductive Change (table : MethodTable) (limit : UInt32) (c : ConnectionId) (conn : Connection) :
    Demand → Bytes → List Note → Connection → Prop
  | arrives {bs : Bytes} : conn.hungUp = false →
    Change table limit c conn .nothing bs [] { conn with inbound := conn.inbound ++ bs }
  | hangsUp : conn.hungUp = false →
    Change table limit c conn .nothing [] [] { conn with hungUp := true }
  | deafens : conn.deaf = false →
    Change table limit c conn .nothing [] [] { conn with deaf := true }
  /-- A call waits no more. -/
  | readies (serial : Nat) :
    Change table limit c conn .nothing [] []
      { conn with running := makeReady serial conn.running }
  /-- A reply means nothing to a server. -/
  | skips {f : Frame} {rest : Bytes} {i : SendId} {status : ReplyStatus} {n : UInt32} :
    conn.reading = .going → Frame.read limit conn.inbound = .item f rest →
    f.head = .reply i status n →
    Change table limit c conn .nothing [] [] { conn with inbound := rest }
  | hires {f : Frame} {rest : Bytes} {i : SendId} {method : String} {n : UInt32} :
    conn.reading = .going → Frame.read limit conn.inbound = .item f rest →
    f.head = .call i method n →
    Change table limit c conn .takes [] []
      { conn with inbound := rest, reading := .granted i method f.payload }
  | queues {f : Frame} {rest : Bytes} {i : SendId} {method : String} {n : UInt32} :
    conn.reading = .going → Frame.read limit conn.inbound = .item f rest →
    f.head = .call i method n →
    Change table limit c conn .joins [] []
      { conn with inbound := rest, reading := .waiting i method f.payload }
  /-- What comes next is no frame. -/
  | breaks {rest : Bytes} :
    conn.reading = .going → Frame.read limit conn.inbound = .invalid rest →
    Change table limit c conn .nothing [] []
      ({ conn with inbound := rest }.close (.error .invalidFrame))
  /-- The bytes have come to their end. -/
  | runsOut {r : Except CallError Unit} : conn.reading = .going →
    Frame.read limit conn.inbound = .unfinished → conn.hungUp = true →
    r = (if conn.inbound.isEmpty then .ok () else .error (.io .unexpectedEof)) →
    Change table limit c conn .nothing [] [] (conn.close r)
  | begins {i : SendId} {method : String} {payload : Bytes} :
    conn.reading = .granted i method payload →
    Change table limit c conn .nothing []
      [.began c i method payload (table.dispatch method payload).heldBy]
      { conn with
        reading := .going
        begun := conn.begun + 1
        running := conn.running ++ [.begun table conn.begun i method payload] }
  | stops : conn.closing = true → conn.reading = .going →
    Change table limit c conn .nothing [] [] (conn.close (.ok ()))
  | stopsWaiting {i : SendId} {method : String} {payload : Bytes} : conn.closing = true →
    conn.reading = .waiting i method payload →
    Change table limit c conn .leaves [] [] (conn.close (.ok ()))
  | stopsGranted {i : SendId} {method : String} {payload : Bytes} : conn.closing = true →
    conn.reading = .granted i method payload →
    Change table limit c conn .givesBack [] [] (conn.close (.ok ()))
  | finishes {serial : Nat} {call : Running} :
    (conn.running.find? fun call => call.serial = serial && call.ready) = some call →
    Change table limit c conn .givesBack [] []
      { conn.without serial with replies := conn.replies ++ (conn.reply? call).toList }
  | abandons {serial : Nat} {call : Running} : conn.closing = true →
    conn.running.find? (·.serial = serial) = some call →
    Change table limit c conn .givesBack [] [.abandoned c call.sendId call.heldBy]
      (conn.without serial)
  | writes {f : Frame} {replies : List Frame} :
    conn.replies = f :: replies → conn.deaf = false →
    Change table limit c conn .nothing [] [.wrote c f] { conn with replies }
  | failsToWrite {f : Frame} {replies : List Frame} :
    conn.replies = f :: replies → conn.deaf = true →
    Change table limit c conn .nothing [] []
      { conn with replies := [], writeError := some (.io .brokenPipe), closing := true }
  | isOver {r : Except CallError Unit} : conn.reading = .stopped r → conn.running = [] →
    conn.replies = [] → conn.result = none →
    Change table limit c conn .nothing [] [.ended c (conn.verdict r)]
      { conn with result := some (conn.verdict r) }

/-- The worker that a connection waited for is granted. -/
def Connection.granted (conn : Connection) : Connection :=
  { conn with reading := conn.reading.grant }

/-! ### Calls that a move finds -/

section
variable {calls : List Running} {serial : Nat} {call : Running}

theorem mem_of_find_ready
    (h : (calls.find? fun call => call.serial = serial && call.ready) = some call) :
    call ∈ calls ∧ call.serial = serial := by
  have fits := List.find?_some h
  simp only [Bool.and_eq_true, decide_eq_true_eq] at fits
  exact ⟨List.mem_of_find?_eq_some h, fits.1⟩

theorem mem_of_find_serial (h : calls.find? (·.serial = serial) = some call) :
    call ∈ calls ∧ call.serial = serial := by
  have fits := List.find?_some h
  exact ⟨List.mem_of_find?_eq_some h, by simpa using fits⟩

end

/-! ## The cases of the server -/

/-- The server in which connection `c` has changed to `conn` and its demand was met. -/
inductive Meets (s : Server) (c : ConnectionId) (conn : Connection) : Demand → Server → Prop
  | nothing (holds : List Hold) : Meets s c conn .nothing ({ s with holds }.set c conn)
  | takes {free : Nat} : s.free = free + 1 → Meets s c conn .takes ({ s with free }.set c conn)
  | joins : s.free = 0 → Meets s c conn .joins ({ s with queue := s.queue ++ [c] }.set c conn)
  | leaves : Meets s c conn .leaves ({ s with queue := s.queue.filter (· ≠ c) }.set c conn)
  | givesBack : Meets s c conn .givesBack (s.set c conn).giveBack

/-- The bytes that an event brings to a connection. -/
def Event.bytesOn (c : ConnectionId) : Event → Bytes
  | .arrives d bs => if d = c then bs else []
  | _ => []

/-- The event is about that connection: no bytes arrive on any other one, and only the client ends
its own sending and its own reading. -/
structure Event.Concerns (e : Event) (c : ConnectionId) (conn conn' : Connection) : Prop where
  bytes : ∀ b, b ≠ c → e.bytesOn b = []
  hungUp : (∀ b, e ≠ .hangsUp b) → conn'.hungUp = conn.hungUp
  deaf : (∀ b, e ≠ .deafens b) → conn'.deaf = conn.deaf

/-- An event that brings no bytes and leaves the client's part alone. -/
theorem Event.Concerns.own {e : Event} {c : ConnectionId} {conn conn' : Connection}
    (bytes : ∀ b, e.bytesOn b = []) (hungUp : conn'.hungUp = conn.hungUp)
    (deaf : conn'.deaf = conn.deaf) : e.Concerns c conn conn' where
  bytes b _ := bytes b
  hungUp _ := hungUp
  deaf _ := deaf

/-- What an event does to the server, and what it shows. -/
inductive Effect (s : Server) : Event → Server → List Note → Prop
  | opens {c : ConnectionId} : s.get? c = none → Effect s (.opens c) (s.openNew c) []
  /-- A value is released that nobody waits for any more. -/
  | releasesNobody {key : Int64} (holds : List Hold) :
    Effect s (.releases key) { s with holds } [.released false]
  | releases {key : Int64} {c : ConnectionId} {conn conn' : Connection} {s' : Server} :
    s.get? c = some conn → Change s.table s.limit c conn .nothing [] [] conn' →
    Meets s c conn' .nothing s' → Event.Concerns (.releases key) c conn conn' →
    Effect s (.releases key) s' [.released true]
  | moves {e : Event} {c : ConnectionId} {conn conn' : Connection} {d : Demand} {s' : Server}
      {notes : List Note} : s.get? c = some conn →
    Change s.table s.limit c conn d (e.bytesOn c) notes conn' → Meets s c conn' d s' →
    e.Concerns c conn conn' → Effect s e s' notes

/-! ## Every step is one of the cases -/

section
variable {s s' : Server} {c : ConnectionId} {conn : Connection} {notes : List Note}

theorem effect_of_release (s : Server) (key : Int64) :
    Effect s (.releases key) (s.release key).1 (s.release key).2 := by
  unfold release
  cases taken : takeHold key s.holds with
  | none => exact .releasesNobody s.holds
  | some p =>
    obtain ⟨h, holds⟩ := p
    simp only
    cases found : get? { s with holds } h.connection with
    | none => exact .releasesNobody holds
    | some conn =>
      simp only
      split
      next =>
        exact .releases found (.readies h.serial) (.nothing holds)
          (.own (fun _ => rfl) rfl rfl)
      next => exact .releasesNobody holds

theorem effect_of_read? (found : s.get? c = some conn) (h : s.read? c conn = some (s', notes)) :
    Effect s (.reads c) s' notes := by
  unfold read? at h
  split at h
  next going =>
    split at h
    next f rest item =>
      simp only at h
      split at h
      next head =>
        obtain ⟨rfl, rfl⟩ := by simpa using h
        exact .moves found (.skips going item head) (.nothing s.holds)
          (.own (fun _ => rfl) rfl rfl)
      next i method n head =>
        obtain ⟨rfl, rfl⟩ := by simpa using h
        unfold hire
        split
        next free some =>
          exact .moves found (.hires going item head) (.takes some)
            (.own (fun _ => rfl) rfl rfl)
        next none =>
          exact .moves found (.queues going item head) (.joins none)
            (.own (fun _ => rfl) rfl rfl)
    next rest invalid =>
      obtain ⟨rfl, rfl⟩ := by simpa using h
      exact .moves found (.breaks going invalid) (.nothing s.holds)
        (.own (fun _ => rfl) rfl rfl)
    next unfinished =>
      split at h
      next hungUp =>
        obtain ⟨rfl, rfl⟩ := by simpa only [Option.some.injEq, Prod.mk.injEq] using h
        exact .moves found (.runsOut going unfinished hungUp rfl) (.nothing s.holds)
          (.own (fun _ => rfl) rfl rfl)
      next => cases h
  next => cases h

theorem effect_of_begin? (found : s.get? c = some conn) (h : s.begin? c conn = some (s', notes)) :
    Effect s (.begins c) s' notes := by
  unfold begin? at h
  split at h
  next i method payload granted =>
    obtain ⟨rfl, rfl⟩ := by simpa only [Option.some.injEq, Prod.mk.injEq] using h
    exact .moves found (.begins granted) (.nothing _) (.own (fun _ => rfl) rfl rfl)
  next => cases h

theorem effect_of_stop? (found : s.get? c = some conn) (h : s.stop? c conn = some (s', notes)) :
    Effect s (.stops c) s' notes := by
  unfold stop? at h
  split at h
  next => cases h
  next closing =>
    have closing : conn.closing = true := by simpa using closing
    split at h
    next => cases h
    next going =>
      obtain ⟨rfl, rfl⟩ := by simpa using h
      exact .moves found (.stops closing going) (.nothing s.holds)
        (.own (fun _ => rfl) rfl rfl)
    next waits =>
      obtain ⟨rfl, rfl⟩ := by simpa only [Option.some.injEq, Prod.mk.injEq] using h
      exact .moves found (.stopsWaiting closing waits) .leaves
        (.own (fun _ => rfl) rfl rfl)
    next granted =>
      obtain ⟨rfl, rfl⟩ := by simpa using h
      exact .moves found (.stopsGranted closing granted) .givesBack
        (.own (fun _ => rfl) rfl rfl)

theorem effect_of_finish? {serial : Nat} (found : s.get? c = some conn)
    (h : s.finish? c conn serial = some (s', notes)) : Effect s (.finishes c serial) s' notes := by
  unfold finish? at h
  split at h
  next => cases h
  next call ready =>
    obtain ⟨rfl, rfl⟩ := by simpa only [Option.some.injEq, Prod.mk.injEq] using h
    exact .moves found (.finishes ready) .givesBack (.own (fun _ => rfl) rfl rfl)

theorem effect_of_abandon? {serial : Nat} (found : s.get? c = some conn)
    (h : s.abandon? c conn serial = some (s', notes)) : Effect s (.abandons c serial) s' notes := by
  unfold abandon? at h
  split at h
  next => cases h
  next closing =>
    split at h
    next => cases h
    next call running =>
      obtain ⟨rfl, rfl⟩ := by simpa only [Option.some.injEq, Prod.mk.injEq] using h
      exact .moves found (.abandons (by simpa using closing) running) .givesBack
        (.own (fun _ => rfl) rfl rfl)

theorem effect_of_write? (found : s.get? c = some conn) (h : s.write? c conn = some (s', notes)) :
    Effect s (.writes c) s' notes := by
  unfold write? at h
  split at h
  next => cases h
  next f replies queue =>
    split at h
    next deaf =>
      obtain ⟨rfl, rfl⟩ := by simpa using h
      exact .moves found (.failsToWrite queue deaf) (.nothing s.holds)
        (.own (fun _ => rfl) rfl rfl)
    next hears =>
      obtain ⟨rfl, rfl⟩ := by simpa using h
      exact .moves found (.writes queue (by simpa using hears)) (.nothing s.holds)
        (.own (fun _ => rfl) rfl rfl)

theorem effect_of_end? (found : s.get? c = some conn) (h : s.end? c conn = some (s', notes)) :
    Effect s (.ends c) s' notes := by
  unfold end? at h
  split at h
  next r stopped idle written open_ =>
    obtain ⟨rfl, rfl⟩ := by simpa only [Option.some.injEq, Prod.mk.injEq] using h
    exact .moves found (.isOver stopped idle written open_) (.nothing s.holds)
      (.own (fun _ => rfl) rfl rfl)
  next => cases h

theorem effect_of_step? {e : Event} (h : s.step? e = some (s', notes)) : Effect s e s' notes := by
  cases e with
  | opens c =>
    simp only [step?] at h
    split at h
    next => cases h
    next unknown =>
      obtain ⟨rfl, rfl⟩ := by simpa using h
      exact .opens (by simpa using unknown)
  | arrives c bs =>
    obtain ⟨conn, found, h⟩ := Option.bind_eq_some_iff.1 h
    split at h
    next => cases h
    next open_ =>
      obtain ⟨rfl, rfl⟩ := by simpa using h
      refine .moves found ?_ (.nothing s.holds)
        ⟨fun b ne => if_neg (Ne.symm ne), fun _ => rfl, fun _ => rfl⟩
      rw [Event.bytesOn, if_pos rfl]
      exact .arrives (by simpa using open_)
  | hangsUp c =>
    obtain ⟨conn, found, h⟩ := Option.bind_eq_some_iff.1 h
    split at h
    next => cases h
    next open_ =>
      obtain ⟨rfl, rfl⟩ := by simpa using h
      exact .moves found (.hangsUp (by simpa using open_)) (.nothing s.holds)
        ⟨fun _ _ => rfl, fun other => absurd rfl (other c), fun _ => rfl⟩
  | deafens c =>
    obtain ⟨conn, found, h⟩ := Option.bind_eq_some_iff.1 h
    split at h
    next => cases h
    next hears =>
      obtain ⟨rfl, rfl⟩ := by simpa using h
      exact .moves found (.deafens (by simpa using hears)) (.nothing s.holds)
        ⟨fun _ _ => rfl, fun _ => rfl, fun other => absurd rfl (other c)⟩
  | releases key =>
    obtain ⟨rfl, rfl⟩ := by simpa only [step?, Option.some.injEq, Prod.ext_iff] using h
    exact effect_of_release s key
  | reads c =>
    obtain ⟨conn, found, h⟩ := Option.bind_eq_some_iff.1 h
    exact effect_of_read? found h
  | begins c =>
    obtain ⟨conn, found, h⟩ := Option.bind_eq_some_iff.1 h
    exact effect_of_begin? found h
  | stops c =>
    obtain ⟨conn, found, h⟩ := Option.bind_eq_some_iff.1 h
    exact effect_of_stop? found h
  | finishes c serial =>
    obtain ⟨conn, found, h⟩ := Option.bind_eq_some_iff.1 h
    exact effect_of_finish? found h
  | abandons c serial =>
    obtain ⟨conn, found, h⟩ := Option.bind_eq_some_iff.1 h
    exact effect_of_abandon? found h
  | writes c =>
    obtain ⟨conn, found, h⟩ := Option.bind_eq_some_iff.1 h
    exact effect_of_write? found h
  | ends c =>
    obtain ⟨conn, found, h⟩ := Option.bind_eq_some_iff.1 h
    exact effect_of_end? found h

end

/-! ## Workers that come back -/

section
variable {s s' : Server} {c : ConnectionId} {conn : Connection}

theorem giveBack_of_nobody (h : s.queue = []) : s.giveBack = { s with free := s.free + 1 } := by
  simp [giveBack, h]

theorem giveBack_of_first {queue : List ConnectionId} (first : s.queue = c :: queue)
    (found : s.get? c = some conn) : s.giveBack = { s with queue }.set c conn.granted := by
  have found : get? { s with queue } c = some conn := found
  simp [giveBack, first, found, Connection.granted]

@[simp] theorem set_table : (s.set c conn).table = s.table := rfl

@[simp] theorem set_limit : (s.set c conn).limit = s.limit := rfl

@[simp] theorem set_free : (s.set c conn).free = s.free := rfl

@[simp] theorem set_queue : (s.set c conn).queue = s.queue := rfl

/-- A worker that comes back is nothing to the table, the limit and the holds. -/
theorem giveBack_eq (s : Server) :
    ∃ free queue connections, s.giveBack = { s with free, queue, connections } := by
  unfold giveBack
  split
  · exact ⟨_, _, _, rfl⟩
  · dsimp only
    split
    · exact ⟨_, _, _, rfl⟩
    · exact ⟨_, _, _, rfl⟩

@[simp] theorem giveBack_table : s.giveBack.table = s.table := by
  obtain ⟨free, queue, connections, same⟩ := s.giveBack_eq
  rw [same]

@[simp] theorem giveBack_limit : s.giveBack.limit = s.limit := by
  obtain ⟨free, queue, connections, same⟩ := s.giveBack_eq
  rw [same]

@[simp] theorem giveBack_holds : s.giveBack.holds = s.holds := by
  obtain ⟨free, queue, connections, same⟩ := s.giveBack_eq
  rw [same]

/-- Each connection stays as it is, or is granted what it waits for. -/
theorem get?_giveBack (s : Server) (d : ConnectionId) :
    s.giveBack.get? d = s.get? d ∨ s.giveBack.get? d = (s.get? d).map .granted := by
  cases waiting : s.queue with
  | nil =>
    rw [giveBack_of_nobody waiting]
    exact .inl rfl
  | cons c queue =>
    cases found : s.get? c with
    | none =>
      have found : get? { s with queue } c = none := found
      simp only [giveBack, waiting, found]
      exact .inl rfl
    | some conn =>
      rw [giveBack_of_first waiting found]
      by_cases same : d = c
      · subst same
        have isOpen : (get? { s with queue } d).isSome := by
          rw [show get? { s with queue } d = some conn from found]
          rfl
        rw [get?_set_self _ isOpen, found]
        exact .inr rfl
      · exact .inl (get?_set_of_ne _ _ same)

/-- The connection that changed may have been granted a worker at once. -/
theorem Meets.get?_self {old : Connection} {d : Demand} (h : Meets s c conn d s')
    (found : s.get? c = some old) : s'.get? c = some conn ∨ s'.get? c = some conn.granted := by
  have isOpen : (s.get? c).isSome := by simp [found]
  cases h with
  | nothing | takes | joins | leaves => exact .inl (get?_set_self conn isOpen)
  | givesBack =>
    have here := get?_set_self conn isOpen
    rcases get?_giveBack (s.set c conn) c with same | granted
    · exact .inl (same.trans here)
    · exact .inr (by rw [granted, here]; rfl)

theorem Meets.get?_of_ne {b : ConnectionId} {d : Demand} (h : Meets s c conn d s') (ne : b ≠ c) :
    s'.get? b = s.get? b ∨ s'.get? b = (s.get? b).map .granted := by
  cases h with
  | nothing | takes | joins | leaves => exact .inl (get?_set_of_ne _ conn ne)
  | givesBack =>
    have here := get?_set_of_ne s conn ne
    rcases get?_giveBack (s.set c conn) b with same | granted
    · exact .inl (same.trans here)
    · exact .inr (by rw [granted, here])

theorem Meets.table_eq {d : Demand} (h : Meets s c conn d s') : s'.table = s.table := by
  cases h <;> simp

theorem Meets.limit_eq {d : Demand} (h : Meets s c conn d s') : s'.limit = s.limit := by
  cases h <;> simp

theorem Effect.fixed {e : Event} {notes : List Note} (h : Effect s e s' notes) :
    s'.table = s.table ∧ s'.limit = s.limit := by
  cases h with
  | opens | releasesNobody => exact ⟨rfl, rfl⟩
  | releases _ _ meets | moves _ _ meets => exact ⟨meets.table_eq, meets.limit_eq⟩

theorem giveBack_of_alone (alone : s.connections = [(c, conn)]) :
    s.giveBack.connections = [(c, conn)] ∨ s.giveBack.connections = [(c, conn.granted)] := by
  cases waiting : s.queue with
  | nil =>
    rw [giveBack_of_nobody waiting]
    exact .inl alone
  | cons d queue =>
    by_cases same : d = c
    · subst same
      have found : s.get? d = some conn := by simp [get?, alone]
      rw [giveBack_of_first waiting found]
      exact .inr (by simp [set, alone])
    · have unknown : get? { s with queue } d = none := by
        simp [get?, alone, List.lookup_cons, beq_false_of_ne same]
      simp only [giveBack, waiting, unknown]
      exact .inl alone

theorem eq_of_alone {d : ConnectionId} {other : Connection} (alone : s.connections = [(c, conn)])
    (found : s.get? d = some other) : d = c ∧ other = conn := by
  rw [get?, alone, List.lookup_cons] at found
  cases same : d == c with
  | true =>
    simp only [same, Option.some.injEq] at found
    exact ⟨eq_of_beq same, found.symm⟩
  | false => simp [same] at found

/-- The only connection stays the only one. -/
theorem Meets.alone {old : Connection} {d : Demand} (h : Meets s c conn d s')
    (alone : s.connections = [(c, old)]) :
    s'.connections = [(c, conn)] ∨ s'.connections = [(c, conn.granted)] := by
  have here : (s.set c conn).connections = [(c, conn)] := by simp [set, alone]
  cases h with
  | nothing | takes | joins | leaves => exact .inl here
  | givesBack => exact giveBack_of_alone here

theorem get?_openNew_self (h : s.get? c = none) : (s.openNew c).get? c = some {} := by
  simp only [get?, openNew, List.lookup_append] at h ⊢
  simp [h]

theorem get?_openNew_of_ne {d : ConnectionId} (ne : d ≠ c) :
    (s.openNew c).get? d = s.get? d := by
  simp [get?, openNew, List.lookup_append, List.lookup_cons, beq_false_of_ne ne]

end

end RemoteCall.Server
