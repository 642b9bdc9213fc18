import RemoteCall.Proofs.Server.History

/-!
# Connections that cannot move

A connection that is not over but cannot move is not closing and has written all its replies. Its
reader waits for more bytes or for a worker, and its running calls are all held (`Resting`).
-/

namespace RemoteCall.Server

/-- The connection cannot move. -/
def SettledOn (s : Server) (c : ConnectionId) : Prop :=
  ∀ conn, s.get? c = some conn → ∀ e ∈ conn.moves c, s.step? e = none

theorem Settled.on {s : Server} (settled : s.Settled) (c : ConnectionId) : s.SettledOn c := by
  intro conn found e he
  obtain ⟨front, back, rows, -⟩ := List.lookup_eq_some_iff.1 found
  exact settled e (List.mem_flatMap.2 ⟨(c, conn), by simp [rows], he⟩)

/-! ## When a connection closes -/

def Reading.Stopped : Reading → Prop
  | .stopped _ => True
  | _ => False

theorem Reading.stopped_grant (r : Reading) : r.grant.Stopped ↔ r.Stopped := by
  cases r <;> exact Iff.rfl

/-- A connection whose writing failed is closing, and so is one whose reader has stopped. -/
structure Connection.Closes (conn : Connection) : Prop where
  deaf : conn.writeError.isSome → conn.closing = true
  stopped : conn.reading.Stopped → conn.closing = true

theorem Change.closes {table : MethodTable} {limit : UInt32} {c : ConnectionId}
    {conn conn' : Connection} {d : Demand} {bs : Bytes} {notes : List Note}
    (h : Change table limit c conn d bs notes conn') (closes : conn.Closes) : conn'.Closes := by
  cases h with
  | arrives | hangsUp | deafens | readies | skips | finishes | abandons | writes | isOver =>
    exact ⟨closes.deaf, closes.stopped⟩
  | hires | queues | begins => exact ⟨closes.deaf, False.elim⟩
  | breaks | runsOut | stops | stopsWaiting | stopsGranted | failsToWrite =>
    exact ⟨fun _ => rfl, fun _ => rfl⟩

theorem History.closes {table : MethodTable} {limit : UInt32} {c : ConnectionId}
    {conn : Connection} {arrived : Bytes} {notes : List Note}
    (h : History table limit c arrived notes conn) : conn.Closes := by
  induction h with
  | opens => exact ⟨fun failed => by simp at failed, False.elim⟩
  | change _ change ih => exact change.closes ih
  | granted _ ih =>
    exact ⟨ih.deaf, fun stopped => ih.stopped ((Reading.stopped_grant _).1 stopped)⟩

/-! ## A connection at rest -/

/-- A connection that is neither over nor closing, and waits for its client, for a worker or for
values that are not released. -/
structure Connection.Resting (limit : UInt32) (conn : Connection) : Prop where
  stays : conn.closing = false
  written : conn.replies = []
  held : ∀ r ∈ conn.running, r.ready = false
  reads : (conn.reading = .going ∧ Frame.read limit conn.inbound = .unfinished ∧
      conn.hungUp = false) ∨
    ∃ i method payload, conn.reading = .waiting i method payload

section
variable {s : Server} {c : ConnectionId} {conn : Connection}

theorem SettledOn.replies_eq_nil (settled : s.SettledOn c) (found : s.get? c = some conn) :
    conn.replies = [] := by
  have writes : s.write? c conn = none := by
    simpa [step?, found] using settled conn found (.writes c) (by simp [Connection.moves])
  cases queue : conn.replies with
  | nil => rfl
  | cons f replies =>
    rw [write?, queue] at writes
    simp only at writes
    split at writes <;> cases writes

theorem SettledOn.held (settled : s.SettledOn c) (found : s.get? c = some conn) :
    ∀ r ∈ conn.running, r.ready = false := by
  intro r hr
  have finishes : s.finish? c conn r.serial = none := by
    have move := settled conn found (.finishes c r.serial)
      (List.mem_append_right _ (List.mem_flatMap.2 ⟨r, hr, by simp⟩))
    simpa [step?, found] using move
  cases ready : r.ready with
  | false => rfl
  | true =>
    unfold finish? at finishes
    split at finishes
    next none =>
      have here := List.find?_eq_none.1 none r hr
      simp [ready] at here
    next => cases finishes

/-- A closing connection can do all that is left and then end. -/
theorem SettledOn.stays (settled : s.SettledOn c) (found : s.get? c = some conn)
    (isOpen : conn.result = none) : conn.closing = false := by
  have stops : s.stop? c conn = none := by
    simpa [step?, found] using settled conn found (.stops c) (by simp [Connection.moves])
  have ends : s.end? c conn = none := by
    simpa [step?, found] using settled conn found (.ends c) (by simp [Connection.moves])
  cases closing : conn.closing with
  | false => rfl
  | true =>
    have idle : conn.running = [] := by
      cases running : conn.running with
      | nil => rfl
      | cons r rest =>
        have runs : r ∈ conn.running := by simp [running]
        have abandons := settled conn found (.abandons c r.serial)
          (List.mem_append_right _ (List.mem_flatMap.2 ⟨r, runs, by simp⟩))
        simp [step?, found, abandon?, closing, running] at abandons
    cases reading : conn.reading with
    | stopped r => simp [end?, reading, idle, settled.replies_eq_nil found, isOpen] at ends
    | going | waiting | granted => simp [stop?, closing, reading] at stops

theorem SettledOn.resting (settled : s.SettledOn c) (found : s.get? c = some conn)
    (isOpen : conn.result = none) (closes : conn.Closes) : conn.Resting s.limit := by
  have stays := settled.stays found isOpen
  refine ⟨stays, settled.replies_eq_nil found, settled.held found, ?_⟩
  have reads : s.read? c conn = none := by
    simpa [step?, found] using settled conn found (.reads c) (by simp [Connection.moves])
  have begins : s.begin? c conn = none := by
    simpa [step?, found] using settled conn found (.begins c) (by simp [Connection.moves])
  cases reading : conn.reading with
  | waiting i method payload => exact .inr ⟨i, method, payload, rfl⟩
  | granted => simp [begin?, reading] at begins
  | stopped =>
    have closing := closes.stopped (by simp [reading, Reading.Stopped])
    simp [stays] at closing
  | going =>
    refine .inl ⟨rfl, ?_⟩
    simp only [read?, reading] at reads
    split at reads
    next => split at reads <;> cases reads
    next => cases reads
    next unfinished =>
      split at reads
      next => cases reads
      next isOpen => exact ⟨unfinished, by simpa using isOpen⟩

end

end RemoteCall.Server
