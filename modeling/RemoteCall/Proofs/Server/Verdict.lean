import RemoteCall.Proofs.Frame.Pieces
import RemoteCall.Proofs.Server.Departure
import RemoteCall.Proofs.Server.Replies

/-!
# A connection ends as its bytes do

A reader takes frames until its bytes stop being frames: with what is no frame, or at the end, which
is a clean one only between two frames (`Frame.Stops`). As long as the client reads, a connection
ends for no other reason and drops no call before that (`Connection.Obeys`). So once such a
connection has come to rest after its client, its calls and its end are those that a plain reader of
the same bytes tells, however they were cut (`connection_ends_as_its_bytes`).
-/

namespace RemoteCall

/-! ## Where the frames stop -/

/-- How a reader ends that stops at this entry; at a frame it goes on. -/
def Entry.verdict? : Entry → Option (Except CallError Unit)
  | .frame _ => none
  | .failed e => some (.error e)
  | .ended => some (.ok ())

/-- No frame stands at the front of the bytes, which are all that there is; `r` says why. -/
inductive Frame.Stops (limit : UInt32) (bs : Bytes) : Except CallError Unit → Prop
  | invalid {rest : Bytes} : Frame.read limit bs = .invalid rest →
    Stops limit bs (.error .invalidFrame)
  | clean : bs = [] → Stops limit bs (.ok ())
  /-- The bytes end inside an item. -/
  | cut : bs ≠ [] → Frame.read limit bs = .unfinished → Stops limit bs (.error (.io .unexpectedEof))

section
variable {limit : UInt32} {bs rest : Bytes} {fs : List Frame} {r : Except CallError Unit}

/-- A plain reader tells at that place what stopped the frames. -/
theorem Frame.Stops.entries_eq (h : Frame.Stops limit bs r) :
    ∃ stop later, Frame.entries limit bs = stop :: later ∧ stop.verdict? = some r := by
  cases h with
  | invalid found =>
    have full : bs ≠ [] := by
      rintro rfl
      simp [Frame.read_nil] at found
    rw [Source.entries_of_ne_nil limit full, found]
    exact ⟨_, _, rfl, rfl⟩
  | clean empty =>
    rw [empty, Frame.entries, if_pos rfl]
    exact ⟨_, _, rfl, rfl⟩
  | cut full found =>
    rw [Source.entries_of_ne_nil limit full, found]
    exact ⟨_, _, rfl, rfl⟩

/-- The frames before that place come first. -/
theorem Frame.Takes.entries_stop (takes : Frame.Takes limit bs fs rest)
    (stops : Frame.Stops limit rest r) :
    ∃ stop later, Frame.entries limit bs = fs.map .frame ++ stop :: later ∧
      stop.verdict? = some r := by
  obtain ⟨stop, later, told, verdict⟩ := stops.entries_eq
  exact ⟨stop, later, by rw [takes.entries_eq, told], verdict⟩

/-- At the end of the bytes. -/
theorem Frame.Stops.of_unfinished (unfinished : Frame.read limit bs = .unfinished)
    (is : r = if bs.isEmpty then .ok () else .error (.io .unexpectedEof)) :
    Frame.Stops limit bs r := by
  by_cases empty : bs = []
  · rw [is, empty]
    exact .clean rfl
  · have full : bs.isEmpty = false := by simpa using empty
    rw [is, full]
    exact .cut empty unfinished

end

namespace Server

/-! ## While the client reads -/

/-- The reader has stopped where the frames stopped, and all calls before that place have begun. If
more bytes may come then the place stays where it is. -/
def Connection.StoppedAt (limit : UInt32) (arrived : Bytes) (notes : List Note) (conn : Connection)
    (r : Except CallError Unit) : Prop :=
  ∃ fs rest, Frame.Takes limit arrived fs rest ∧ Server.begun notes = fs.filterMap Call.ofFrame? ∧
    Frame.Stops limit rest r ∧
    (conn.hungUp = false → ∃ behind, Frame.read limit rest = .invalid behind)

/-- The connection closes because of its bytes and for no other reason. -/
structure Connection.Obeys (limit : UInt32) (arrived : Bytes) (notes : List Note)
    (conn : Connection) : Prop where
  writes : conn.writeError = none
  closes : conn.closing = true → conn.reading.Stopped
  stops : ∀ r, conn.reading = .stopped r → conn.StoppedAt limit arrived notes r
  ends : ∀ r, conn.result = some r → conn.reading = .stopped r

section
variable {table : MethodTable} {limit : UInt32} {c : ConnectionId} {conn conn' : Connection}
  {d : Demand} {arrived arrived' bs : Bytes} {notes notes' more : List Note}
  {r : Except CallError Unit}

/-- Whoever reads no more never reads again. -/
theorem Change.hears (h : Change table limit c conn d bs more conn') (hears : conn'.deaf = false) :
    conn.deaf = false := by
  cases h with
  | deafens free => exact free
  | arrives | hangsUp | readies | skips | hires | queues | breaks | runsOut | begins | stops
  | stopsWaiting | stopsGranted | finishes | abandons | writes | failsToWrite | isOver =>
    exact hears

/-- The verdict on a connection whose writing went well is that of its reader. -/
theorem Connection.verdict_eq (h : conn.writeError = none) : conn.verdict r = r := by
  cases r <;> simp [Connection.verdict, h]

/-- A stopped reader stays where it is when no call begins. -/
theorem Connection.StoppedAt.still (h : conn.StoppedAt limit arrived notes r)
    (hungUp : conn.hungUp = true → conn'.hungUp = true) (none : Server.begun more = []) :
    conn'.StoppedAt limit (arrived ++ []) (notes ++ more) r := by
  obtain ⟨fs, rest, takes, calls, stops, stays⟩ := h
  refine ⟨fs, rest, by simpa using takes, by simp [none, calls], stops, fun sends => stays ?_⟩
  cases before : conn.hungUp with
  | false => rfl
  | true => simp [hungUp before] at sends

/-- More bytes come behind the place where the reader stopped. -/
theorem Connection.StoppedAt.arrives (h : conn.StoppedAt limit arrived notes r)
    (sends : conn.hungUp = false) :
    StoppedAt limit (arrived ++ bs) notes { conn with inbound := conn.inbound ++ bs } r := by
  obtain ⟨fs, rest, takes, calls, stops, stays⟩ := h
  obtain ⟨behind, invalid⟩ := stays sends
  have later : Frame.read limit (rest ++ bs) = .invalid (behind ++ bs) := by
    rw [Frame.read_append bs (by simp [invalid]), invalid]
    rfl
  have same : r = .error .invalidFrame := by
    cases stops with
    | invalid => rfl
    | clean empty => simp [empty, Frame.read_nil] at invalid
    | cut _ unfinished => simp [unfinished] at invalid
  exact ⟨fs, rest ++ bs, takes.append bs, calls, same ▸ .invalid later, fun _ => ⟨_, later⟩⟩

/-- The reader stops at what stands at the front of its bytes. -/
theorem Accepts.stoppedAt (h : Accepts limit arrived notes conn) (going : conn.reading = .going)
    (stops : Frame.Stops limit conn.inbound r)
    (stays : conn'.hungUp = false → ∃ behind, Frame.read limit conn.inbound = .invalid behind) :
    conn'.StoppedAt limit (arrived ++ []) (notes ++ []) r := by
  obtain ⟨fs, rest, takes, -, exact_⟩ := h
  obtain ⟨rfl, calls⟩ := exact_ (by rw [going]; exact id)
  simp only [going, Reading.pending, List.append_nil] at calls
  exact ⟨fs, conn.inbound, by simpa using takes, by simpa using calls, stops, stays⟩

/-- The reader is at what it was at, and no call begins. -/
theorem Connection.Obeys.still (h : conn.Obeys limit arrived notes)
    (reading : conn'.reading = conn.reading) (writes : conn'.writeError = conn.writeError)
    (closing : conn'.closing = conn.closing) (result : conn'.result = conn.result)
    (hungUp : conn.hungUp = true → conn'.hungUp = true) (none : Server.begun more = []) :
    conn'.Obeys limit (arrived ++ []) (notes ++ more) where
  writes := writes.trans h.writes
  closes closed := by
    rw [reading]
    exact h.closes (closing ▸ closed)
  stops r stopped := (h.stops r (reading ▸ stopped)).still hungUp none
  ends r halted := by
    rw [reading]
    exact h.ends r (result ▸ halted)

/-- A reader that has not stopped leaves the connection open. -/
theorem Connection.Obeys.of_going (h : conn.Obeys limit arrived notes)
    (before : ¬conn.reading.Stopped) (after : ¬conn'.reading.Stopped)
    (writes : conn'.writeError = conn.writeError) (closing : conn'.closing = conn.closing)
    (result : conn'.result = conn.result) : conn'.Obeys limit arrived' notes' where
  writes := writes.trans h.writes
  closes closed := absurd (h.closes (closing ▸ closed)) before
  stops r stopped := absurd (by simp [stopped, Reading.Stopped]) after
  ends r halted := absurd (by simp [h.ends r (result ▸ halted), Reading.Stopped]) before

/-- The reader stops. -/
theorem Connection.Obeys.stop (h : conn.Obeys limit arrived notes) (going : conn.reading = .going)
    (reading : conn'.reading = .stopped r) (writes : conn'.writeError = conn.writeError)
    (result : conn'.result = conn.result)
    (stopped : conn'.StoppedAt limit arrived' notes' r) : conn'.Obeys limit arrived' notes' where
  writes := writes.trans h.writes
  closes _ := by simp [reading, Reading.Stopped]
  stops q same := by
    rw [reading] at same
    obtain rfl := Reading.stopped.inj same
    exact stopped
  ends q halted := by
    have still := h.ends q (result ▸ halted)
    rw [going] at still
    cases still

theorem Change.obeys (h : Change table limit c conn d bs more conn')
    (accepts : Accepts limit arrived notes conn) (obeys : conn.Obeys limit arrived notes)
    (hears : conn'.deaf = false) : conn'.Obeys limit (arrived ++ bs) (notes ++ more) := by
  cases h with
  | arrives sends =>
    rw [List.append_nil]
    exact ⟨obeys.writes, obeys.closes, fun r stopped => (obeys.stops r stopped).arrives sends,
      obeys.ends⟩
  | hangsUp => exact obeys.still rfl rfl rfl rfl (fun _ => rfl) rfl
  | deafens | readies | finishes | abandons | writes | skips =>
    exact obeys.still rfl rfl rfl rfl id rfl
  | hires going | queues going =>
    exact obeys.of_going (by rw [going]; exact id) id rfl rfl rfl
  | begins granted =>
    exact obeys.of_going (by rw [granted]; exact id) id rfl rfl
      rfl
  | breaks going invalid =>
    exact obeys.stop going rfl rfl rfl
      (accepts.stoppedAt going (.invalid invalid) fun _ => ⟨_, invalid⟩)
  | runsOut going unfinished gone is =>
    refine obeys.stop going rfl rfl rfl
      (accepts.stoppedAt going (.of_unfinished unfinished is) fun sends => ?_)
    have now : conn.hungUp = false := sends
    rw [gone] at now
    cases now
  | stops closing reading | stopsWaiting closing reading | stopsGranted closing reading =>
    have stopped := obeys.closes closing
    rw [reading] at stopped
    exact stopped.elim
  | failsToWrite _ deaf =>
    have now : conn.deaf = false := hears
    rw [deaf] at now
    cases now
  | isOver stopped =>
    refine ⟨obeys.writes, obeys.closes, fun q at_ => (obeys.stops q at_).still id rfl, ?_⟩
    intro q halted
    rw [Connection.verdict_eq obeys.writes] at halted
    obtain rfl := Option.some.inj halted
    exact stopped

theorem History.obeys (h : History table limit c arrived notes conn) (hears : conn.deaf = false) :
    conn.Obeys limit arrived notes := by
  induction h with
  | opens =>
    exact ⟨rfl, fun closed => by simp at closed, fun r stopped => by simp at stopped,
      fun r halted => by simp at halted⟩
  | change past change ih => exact change.obeys past.accepts (ih (change.hears hears)) hears
  | @granted conn arrived notes _ ih =>
    have before := ih hears
    have same : ∀ r, conn.granted.reading = .stopped r → conn.reading = .stopped r := by
      intro r stopped
      cases reading : conn.reading <;> simp_all [Connection.granted, Reading.grant]
    refine ⟨before.writes, fun closed => ?_, fun r stopped => before.stops r (same r stopped), ?_⟩
    · exact (Reading.stopped_grant _).2 (before.closes closed)
    · intro r halted
      simp [Connection.granted, before.ends r halted, Reading.grant]

end

/-! ## The whole run -/

/-- A connection has come to rest after its client, which sends no more but still reads, and it does
not wait for a worker. Take what a source tells that hands out the same bytes, in pieces of any
size: frames, then an entry that is none. The calls that began on the connection are the calls
among those frames, no more and no less, and the connection is over as that entry says. -/
theorem connection_ends_as_its_bytes {table : MethodTable} {limit : UInt32} {workers : Nat}
    {es : List Event} {s : Server} {notes : List Note} {c : ConnectionId} {conn : Connection}
    {source : Source} {told : List Entry}
    (run : (ofWorkers table limit workers).run? es = some (s, notes))
    (settled : s.SettledOn c) (found : s.get? c = some conn) (gone : conn.hungUp = true)
    (hears : conn.deaf = false) (served : ¬s.Waits c) (bytes : source.rest = arrivedOn c es)
    (steady : source.failAt = none) (reads : source.Reads limit told) :
    ∃ fs rest stop later r, told = fs.map .frame ++ stop :: later ∧ stop.verdict? = some r ∧
      Frame.Takes limit (arrivedOn c es) fs rest ∧ Frame.Stops limit rest r ∧
      begunOn c notes = fs.filterMap Call.ofFrame? ∧ conn.result = some r := by
  obtain ⟨-, rfl, recorded⟩ := recorded_of_steps (run?_eq_some_iff.1 run)
  have history := (recorded c).1 conn found
  have obeys := history.obeys hears
  rw [Source.reads_iff steady, bytes] at reads
  cases halted : conn.result with
  | none =>
    have resting := settled.resting found halted history.closes
    exact absurd ⟨conn, found, resting.waits_of_hungUp gone⟩ served
  | some r =>
    obtain ⟨fs, rest, takes, calls, stops, -⟩ := obeys.stops r (obeys.ends r halted)
    obtain ⟨stop, later, entries, verdict⟩ := takes.entries_stop stops
    exact ⟨fs, rest, stop, later, r, reads.symm.trans entries, verdict, takes, stops, calls, rfl⟩

/-- A call, cut inside its head, and a reply; then comes what is no frame, and behind it a call that
does not begin. -/
theorem no_call_begins_behind_an_invalid_frame : ∃ s notes conn bs told,
    (ofWorkers { format := .json, rows := [("", .ok)] } 100 1).run?
      [.opens 1, .arrives 1 ((Frame.call 5 "" [7]).bytes.take 3),
        .arrives 1 ((Frame.call 5 "" [7]).bytes.drop 3 ++ (Frame.reply 5 .ok [2]).bytes), .reads 1,
        .begins 1, .reads 1, .arrives 1 (List.replicate 8 0 ++ (Frame.call 6 "" [8]).bytes),
        .reads 1, .hangsUp 1, .finishes 1 0, .writes 1, .ends 1] = some (s, notes) ∧
    bs = (Frame.call 5 "" [7]).bytes ++ (Frame.reply 5 .ok [2]).bytes ++ List.replicate 8 0 ++
      (Frame.call 6 "" [8]).bytes ∧
    s.SettledOn 1 ∧ s.get? 1 = some conn ∧ conn.hungUp = true ∧ conn.deaf = false ∧
    ¬s.Waits 1 ∧ Source.Reads 100 { rest := bs, chunks := [3, 1] } told ∧
    ∃ fs rest stop later, told = fs.map .frame ++ stop :: later ∧
      stop.verdict? = some (.error .invalidFrame) ∧
      Frame.Takes 100 bs fs rest ∧ Frame.Stops 100 rest (.error .invalidFrame) ∧
      fs.filterMap Call.ofFrame? = [⟨5, "", [7]⟩] := by
  obtain ⟨s, notes, conn, run, found, gone, hears, settled, reading, result, began⟩ :
      ∃ s notes conn,
        (ofWorkers { format := .json, rows := [("", .ok)] } 100 1).run?
          [.opens 1, .arrives 1 ((Frame.call 5 "" [7]).bytes.take 3),
            .arrives 1 ((Frame.call 5 "" [7]).bytes.drop 3 ++ (Frame.reply 5 .ok [2]).bytes),
            .reads 1, .begins 1, .reads 1,
            .arrives 1 (List.replicate 8 0 ++ (Frame.call 6 "" [8]).bytes), .reads 1, .hangsUp 1,
            .finishes 1 0, .writes 1, .ends 1] = some (s, notes) ∧
        s.get? 1 = some conn ∧ conn.hungUp = true ∧ conn.deaf = false ∧ s.Settled ∧
        conn.reading = .stopped (.error .invalidFrame) ∧
        conn.result = some (.error .invalidFrame) ∧ begunOn 1 notes = [⟨5, "", [7]⟩] := by
    refine ⟨_, _, _, rfl, rfl, rfl, rfl, ?_, rfl, rfl, rfl⟩
    decide
  have served : ¬s.Waits 1 := by
    rintro ⟨now, here, waits⟩
    obtain rfl := Option.some.inj (found.symm.trans here)
    simp [reading, Reading.Waits] at waits
  have reads (bs : Bytes) : Source.Reads 100 { rest := bs, chunks := [3, 1] }
      (Frame.entries 100 bs) := (Source.reads_iff rfl).2 rfl
  obtain ⟨fs, rest, stop, later, r, told, verdict, takes, stops, calls, same⟩ :=
    connection_ends_as_its_bytes run (settled.on 1) found gone hears served rfl rfl (reads _)
  obtain rfl := Option.some.inj (result.symm.trans same)
  exact ⟨s, notes, conn, _, _, run, rfl, settled.on 1, found, gone, hears, served, reads _,
    fs, rest, stop, later, told, verdict, takes, stops, calls.symm.trans began⟩

end Server

end RemoteCall
