import RemoteCall.Proofs.Frame.Stream
import RemoteCall.Proofs.Server.Settled
import RemoteCall.Proofs.Server.Workers

/-!
# Clients that went away

A connection that is over runs no call and has no worker (`Connection.Finished`). One whose client
sends no more comes to its end by itself, with one exception: while its reader waits for a worker it
reads nothing, so it does not notice that the client is gone, and its calls run on.

    s.SettledOn c → conn.hungUp = true →
      (conn.result.isSome ∧ conn.running = [] ∧ conn.hired = 0 ↔ ¬s.Waits c)
                                                        (over_iff_not_waits_of_hungUp)
-/

namespace RemoteCall.Server

/-! ## Connections that are over -/

/-- A connection that is over has a reader that stopped and runs no call. -/
structure Connection.Finished (conn : Connection) : Prop where
  stopped : conn.result.isSome → conn.reading.Stopped
  idle : conn.result.isSome → conn.running = []

theorem Reading.Stopped.not_going {r : Reading} (h : r.Stopped) : r ≠ .going := by
  rintro rfl
  exact h

theorem Change.finished {table : MethodTable} {limit : UInt32} {c : ConnectionId}
    {conn conn' : Connection} {d : Demand} {bs : Bytes} {notes : List Note}
    (h : Change table limit c conn d bs notes conn') (finished : conn.Finished) :
    conn'.Finished := by
  obtain ⟨stopped, idle⟩ := finished
  cases h with
  | arrives | hangsUp | deafens | skips | writes | failsToWrite => exact ⟨stopped, idle⟩
  | readies serial =>
    refine ⟨stopped, fun halted => ?_⟩
    have none : conn.running = [] := idle halted
    show makeReady serial conn.running = []
    rw [none]
    rfl
  | hires going | queues going =>
    exact ⟨fun halted => absurd going (stopped halted).not_going,
      fun halted => absurd going (stopped halted).not_going⟩
  | breaks | runsOut | stops | stopsWaiting | stopsGranted => exact ⟨fun _ => trivial, idle⟩
  | begins granted =>
    have open_ : ¬conn.result.isSome := by
      intro halted
      have still := stopped halted
      rw [granted] at still
      exact still
    exact ⟨fun halted => absurd halted open_, fun halted => absurd halted open_⟩
  | finishes | abandons =>
    refine ⟨stopped, fun halted => ?_⟩
    have none : conn.running = [] := idle halted
    simp [Connection.without, none]
  | isOver reader none => exact ⟨fun _ => by simp [reader, Reading.Stopped], fun _ => none⟩

theorem History.finished {table : MethodTable} {limit : UInt32} {c : ConnectionId}
    {conn : Connection} {arrived : Bytes} {notes : List Note}
    (h : History table limit c arrived notes conn) : conn.Finished := by
  induction h with
  | opens => exact ⟨fun halted => by simp at halted, fun _ => rfl⟩
  | change _ change ih => exact change.finished ih
  | granted _ ih =>
    exact ⟨fun halted => (Reading.stopped_grant _).2 (ih.stopped halted), ih.idle⟩

section
variable {limit : UInt32} {conn : Connection}

theorem Connection.Finished.hired_eq_zero (h : conn.Finished) (halted : conn.result.isSome) :
    conn.hired = 0 := by
  have stopped := h.stopped halted
  rw [Connection.hired, h.idle halted]
  cases reading : conn.reading with
  | stopped => rfl
  | going | waiting | granted =>
    rw [reading] at stopped
    cases stopped

theorem Connection.Finished.not_waits (h : conn.Finished) (halted : conn.result.isSome) :
    ¬conn.reading.Waits := by
  intro waits
  have stopped := h.stopped halted
  cases reading : conn.reading with
  | waiting => simp [reading, Reading.Stopped] at stopped
  | going | granted | stopped => simp [reading, Reading.Waits] at waits

/-- A connection at rest whose client sends no more waits for a worker. -/
theorem Connection.Resting.waits_of_hungUp (h : conn.Resting limit) (gone : conn.hungUp = true) :
    conn.reading.Waits := by
  rcases h.reads with ⟨-, -, sends⟩ | ⟨i, method, payload, waiting⟩
  · simp [gone] at sends
  · simp [waiting, Reading.Waits]

end

/-! ## The whole run -/

/-- At any time of any run, take a connection that cannot move and whose client sends no more. It is
over, runs no call and has no worker, exactly if its reader does not wait for a worker. -/
theorem over_iff_not_waits_of_hungUp {table : MethodTable} {limit : UInt32} {workers : Nat}
    {es : List Event} {s : Server} {notes : List Note} {c : ConnectionId} {conn : Connection}
    (run : (ofWorkers table limit workers).run? es = some (s, notes))
    (settled : s.SettledOn c) (found : s.get? c = some conn) (gone : conn.hungUp = true) :
    conn.result.isSome ∧ conn.running = [] ∧ conn.hired = 0 ↔ ¬s.Waits c := by
  obtain ⟨-, rfl, recorded⟩ := recorded_of_steps (run?_eq_some_iff.1 run)
  have history := (recorded c).1 conn found
  have finished := history.finished
  have here : s.Waits c ↔ conn.reading.Waits := by simp [Waits, found]
  rw [here]
  constructor
  · rintro ⟨halted, -, -⟩
    exact finished.not_waits halted
  · intro reads
    have halted : conn.result.isSome := by
      cases isOpen : conn.result with
      | some => rfl
      | none =>
        have resting := settled.resting found isOpen history.closes
        exact absurd (resting.waits_of_hungUp gone) reads
    exact ⟨halted, finished.idle halted, finished.hired_eq_zero halted⟩

/-- The call of a client that leaves is given up, and its worker is free again. -/
theorem call_of_gone_client_is_abandoned : ∃ s notes conn,
    (ofWorkers { format := .json, rows := [("", fun p => .held 0 p)] } 100 1).run?
      [.opens 1, .arrives 1 (Frame.call 5 "" [7]).bytes, .reads 1, .begins 1, .hangsUp 1, .reads 1,
        .abandons 1 0, .ends 1] = some (s, notes) ∧
    s.SettledOn 1 ∧ s.get? 1 = some conn ∧ conn.hungUp = true ∧ ¬s.Waits 1 ∧
    conn.result.isSome ∧ conn.running = [] ∧ conn.hired = 0 := by
  obtain ⟨s, notes, conn, run, found, gone, settled, reads⟩ : ∃ s notes conn,
      (ofWorkers { format := .json, rows := [("", fun p => .held 0 p)] } 100 1).run?
        [.opens 1, .arrives 1 (Frame.call 5 "" [7]).bytes, .reads 1, .begins 1, .hangsUp 1,
          .reads 1, .abandons 1 0, .ends 1] = some (s, notes) ∧
      s.get? 1 = some conn ∧ conn.hungUp = true ∧ s.Settled ∧ conn.reading = .stopped (.ok ()) := by
    refine ⟨_, _, _, rfl, rfl, rfl, ?_, rfl⟩
    decide
  have idle : ¬s.Waits 1 := by
    rintro ⟨now, here, waits⟩
    obtain rfl := Option.some.inj (found.symm.trans here)
    simp [reads, Reading.Waits] at waits
  have ended := (over_iff_not_waits_of_hungUp run (settled.on 1) found gone).2 idle
  exact ⟨s, notes, conn, run, settled.on 1, found, gone, idle, ended⟩

/-- A connection that waits for a worker does not notice that its client is gone: its first call has
the only worker, its second call waits for it, and so does another client for ever. -/
theorem waiting_connection_keeps_its_worker : ∃ s notes conn,
    (ofWorkers { format := .json, rows := [("", fun p => .held 0 p)] } 100 1).run?
      [.opens 1, .arrives 1 ((Frame.call 5 "" [7]).bytes ++ (Frame.call 6 "" [8]).bytes), .reads 1,
        .begins 1, .reads 1, .hangsUp 1, .opens 2, .arrives 2 (Frame.call 7 "" [9]).bytes,
        .reads 2] = some (s, notes) ∧
    s.Settled ∧ s.get? 1 = some conn ∧ conn.hungUp = true ∧
    conn.result = none ∧ conn.running.length = 1 ∧ conn.hired = 1 ∧ s.free = 0 ∧ s.Waits 2 := by
  refine ⟨_, _, _, rfl, ?_, rfl, rfl, rfl, rfl, rfl, rfl, _, rfl, trivial⟩
  decide

end RemoteCall.Server
