import Mathlib.Data.List.Basic
import RemoteCall.Proofs.Frame.Stream
import RemoteCall.Proofs.Server.Settled

/-!
# Every call is answered once

The calls of a connection begin in the order in which they stand in its bytes (`Accepts`). Each call
that has begun runs, or is done, or is lost because the connection closes; and the replies are those
of the calls that are done, in the order in which they finished (`Answers`). A connection at rest
has lost none, so all that are done have their replies, but for those whose outcome is too long for
any frame (`each_call_answered_once`).
-/

namespace RemoteCall

namespace Server

/-! ## Calls and their replies -/

/-- What a frame asks for. -/
structure Call where
  sendId : SendId
  method : String
  payload : Bytes
  deriving Repr, DecidableEq

namespace Call

/-- The call that a frame is. -/
def ofFrame? (f : Frame) : Option Call :=
  match f.head with
  | .call i method _ => some ⟨i, method, f.payload⟩
  | .reply .. => none

/-- The frame that tells the outcome of the dispatched call; none if that is too long for it. -/
def reply? (table : MethodTable) (call : Call) : Option Frame :=
  Outcome.frame? call.sendId (table.dispatch call.method call.payload).outcome

/-- What the dispatched call says is too long for any frame. -/
def Overlong (table : MethodTable) (call : Call) : Prop :=
  0x100000000 ≤ (Outcome.toReply (table.dispatch call.method call.payload).outcome).2.length

/-- The calls among the outcomes of reading a stream. -/
def among (entries : List Entry) : List Call :=
  entries.filterMap fun
    | .frame f => ofFrame? f
    | _ => none

end Call

/-- The call of that number, if it has a reply. -/
def answer? (table : MethodTable) (calls : List Call) (serial : Nat) : Option Frame :=
  calls[serial]?.bind (·.reply? table)

/-- The calls that began. -/
def begun (notes : List Note) : List Call :=
  notes.filterMap fun
    | .began _ i method payload _ => some ⟨i, method, payload⟩
    | _ => none

/-- The frames that were written. -/
def written (notes : List Note) : List Frame :=
  notes.filterMap fun
    | .wrote _ f => some f
    | _ => none

/-- The call that the reader holds until it begins. -/
def Reading.pending : Reading → List Call
  | .waiting i method payload | .granted i method payload => [⟨i, method, payload⟩]
  | _ => []

@[simp] theorem begun_append (notes more : List Note) :
    begun (notes ++ more) = begun notes ++ begun more := by
  simp [begun]

@[simp] theorem written_append (notes more : List Note) :
    written (notes ++ more) = written notes ++ written more := by
  simp [written]

@[simp] theorem Reading.pending_grant (r : Reading) : r.grant.pending = r.pending := by
  cases r <;> rfl

theorem Call.overlong_of_reply? {table : MethodTable} {call : Call}
    (unframed : call.reply? table = none) : call.Overlong table := by
  unfold reply? Outcome.frame? at unframed
  exact Nat.le_of_not_lt fun fits => Option.some_ne_none _ (ite_eq_right_iff.1 unframed fits)

theorem Call.among_append (entries more : List Entry) :
    among (entries ++ more) = among entries ++ among more := by
  simp [among]

@[simp] theorem Call.among_frames (fs : List Frame) :
    among (fs.map .frame) = fs.filterMap ofFrame? := by
  simp [among, List.filterMap_map]

/-! ## Calls begin in their order -/

/-- The calls that began, and then the one that the reader holds, are those of the frames taken off
the bytes that arrived; a reader that has stopped may have dropped the last one. -/
def Accepts (limit : UInt32) (arrived : Bytes) (notes : List Note) (conn : Connection) : Prop :=
  ∃ fs rest, Frame.Takes limit arrived fs rest ∧
    begun notes ++ conn.reading.pending <+: fs.filterMap Call.ofFrame? ∧
    (¬conn.reading.Stopped → rest = conn.inbound ∧
      begun notes ++ conn.reading.pending = fs.filterMap Call.ofFrame?)

section
variable {table : MethodTable} {limit : UInt32} {c : ConnectionId} {conn conn' : Connection}
  {d : Demand} {arrived bs : Bytes} {notes more : List Note}

/-- The reader is at what it was at, and no call begins. -/
theorem Accepts.still (h : Accepts limit arrived notes conn)
    (reading : conn'.reading = conn.reading) (inbound : conn'.inbound = conn.inbound)
    (none : begun more = []) :
    Accepts limit (arrived ++ []) (notes ++ more) conn' := by
  rw [Accepts, reading, inbound, begun_append, none, List.append_nil, List.append_nil]
  exact h

/-- A reader that stops drops the call that it holds. -/
theorem Accepts.stop (h : Accepts limit arrived notes conn) (stopped : conn'.reading.Stopped) :
    Accepts limit (arrived ++ []) (notes ++ []) conn' := by
  obtain ⟨fs, rest, takes, order, -⟩ := h
  have none : conn'.reading.pending = [] := by
    cases reading : conn'.reading with
    | stopped => rfl
    | going | waiting | granted => simp [reading, Reading.Stopped] at stopped
  rw [Accepts, none, List.append_nil, List.append_nil, List.append_nil]
  exact ⟨fs, rest, takes, (List.prefix_append _ _).trans order, fun goes => absurd stopped goes⟩

/-- One more frame is taken. -/
theorem Accepts.take {f : Frame} {rest : Bytes} (h : Accepts limit arrived notes conn)
    (going : conn.reading = .going) (item : Frame.read limit conn.inbound = .item f rest)
    (inbound : conn'.inbound = rest) (pending : conn'.reading.pending = (Call.ofFrame? f).toList) :
    Accepts limit (arrived ++ []) (notes ++ []) conn' := by
  obtain ⟨fs, mid, takes, -, exact_⟩ := h
  obtain ⟨rfl, calls⟩ := exact_ (by simp [going, Reading.Stopped])
  have one : begun notes ++ conn'.reading.pending = (fs ++ [f]).filterMap Call.ofFrame? := by
    rw [List.filterMap_append, ← calls, going, pending]
    cases frame : Call.ofFrame? f <;> simp [Reading.pending, frame]
  rw [Accepts, List.append_nil, List.append_nil, one, inbound]
  exact ⟨fs ++ [f], rest, takes.snoc item, List.prefix_rfl, fun _ => ⟨rfl, rfl⟩⟩

theorem Change.accepts (h : Change table limit c conn d bs more conn')
    (accepts : Accepts limit arrived notes conn) :
    Accepts limit (arrived ++ bs) (notes ++ more) conn' := by
  cases h with
  | arrives =>
    obtain ⟨fs, rest, takes, order, exact_⟩ := accepts
    rw [Accepts, List.append_nil]
    refine ⟨fs, rest ++ bs, takes.append bs, order, ?_⟩
    intro goes
    obtain ⟨rfl, calls⟩ := exact_ goes
    exact ⟨rfl, calls⟩
  | hangsUp | deafens | readies | finishes | abandons | writes | failsToWrite | isOver =>
    exact accepts.still rfl rfl rfl
  | skips going item head =>
    exact accepts.take going item rfl (by simp [Call.ofFrame?, head, going, Reading.pending])
  | hires going item head | queues going item head =>
    exact accepts.take going item rfl (by simp [Call.ofFrame?, head, Reading.pending])
  | breaks | runsOut | stops | stopsWaiting | stopsGranted => exact accepts.stop trivial
  | @begins i method payload granted =>
    obtain ⟨fs, rest, takes, order, exact_⟩ := accepts
    have moved : ∀ h, begun (notes ++ [.began c i method payload h]) ++ Reading.going.pending =
        begun notes ++ conn.reading.pending := by
      intro h
      simp [begun, granted, Reading.pending]
    rw [Accepts, List.append_nil, moved]
    exact ⟨fs, rest, takes, order, fun _ => exact_ (by simp [granted, Reading.Stopped])⟩

theorem History.accepts (h : History table limit c arrived notes conn) :
    Accepts limit arrived notes conn := by
  induction h with
  | opens => exact ⟨[], [], .none [], List.prefix_rfl, fun _ => ⟨rfl, rfl⟩⟩
  | change _ change ih => exact change.accepts ih
  | granted _ ih =>
    rw [Accepts, Connection.granted, Reading.pending_grant, Reading.stopped_grant]
    exact ih

end

/-! ## Every call has one end -/

/-- The running call is the one of that number. -/
def Running.Tells (table : MethodTable) (calls : List Call) (r : Running) : Prop :=
  ∃ call, calls[r.serial]? = some call ∧ r.sendId = call.sendId ∧
    r.outcome = (table.dispatch call.method call.payload).outcome

/-- Each call that began runs, is done or is lost, by its number; the replies that were written and
those in the queue are those of the ones that are done. -/
structure Answers (table : MethodTable) (notes : List Note) (conn : Connection) : Prop where
  count : (begun notes).length = conn.begun
  runs : ∀ r ∈ conn.running, r.Tells table (begun notes)
  once : ∃ done lost, (conn.running.map (·.serial) ++ (done ++ lost)).Perm (List.range conn.begun) ∧
    written notes ++ conn.replies = done.filterMap (answer? table (begun notes)) ∧
    (lost ≠ [] → conn.closing = true)

section
variable {table : MethodTable} {limit : UInt32} {c : ConnectionId} {conn conn' : Connection}
  {d : Demand} {arrived bs : Bytes} {notes more : List Note}

theorem Running.Tells.answer?_eq {calls : List Call} {r : Running} (h : r.Tells table calls) :
    answer? table calls r.serial = Outcome.frame? r.sendId r.outcome := by
  obtain ⟨call, found, id, outcome⟩ := h
  rw [answer?, found, id, outcome]
  rfl

/-- More calls change nothing about the first ones. -/
theorem answer?_append {calls : List Call} {k : Nat} (more : List Call) (h : k < calls.length) :
    answer? table (calls ++ more) k = answer? table calls k := by
  rw [answer?, List.getElem?_append_left h, answer?]

/-- No call begins or ends. -/
theorem Answers.still (h : Answers table notes conn) (running : conn'.running = conn.running)
    (begun_eq : conn'.begun = conn.begun) (closing : conn.closing = true → conn'.closing = true)
    (none : begun more = []) (replies : written more ++ conn'.replies = conn.replies) :
    Answers table (notes ++ more) conn' := by
  obtain ⟨count, runs, done, lost, perm, told, closes⟩ := h
  have calls : begun (notes ++ more) = begun notes := by simp [none]
  refine ⟨?_, ?_, done, lost, ?_, ?_, fun some => closing (closes some)⟩
  · rw [calls, begun_eq]
    exact count
  · rw [calls, running]
    exact runs
  · rw [running, begun_eq]
    exact perm
  · rw [calls, written_append, List.append_assoc, replies]
    exact told

/-- A number that is taken out of the running ones may join the others anywhere. -/
theorem perm_leave {serials rest done lost all : List Nat} {k : Nat}
    (out : serials.Perm (k :: rest)) (perm : (serials ++ (done ++ lost)).Perm all) :
    (rest ++ (done ++ k :: lost)).Perm all := by
  have first : (k :: (rest ++ (done ++ lost))).Perm all := (out.append_right _).symm.trans perm
  rw [← List.append_assoc]
  refine List.perm_middle.trans ?_
  rw [List.append_assoc]
  exact first

/-- A running call ends without a reply. -/
theorem Answers.lose (h : Answers table notes conn) (numbered : conn.Numbered) {call : Running}
    (runs : call ∈ conn.running) (running : conn'.running = (conn.without call.serial).running)
    (begun_eq : conn'.begun = conn.begun) (closing : conn'.closing = true) (none : begun more = [])
    (replies : written more ++ conn'.replies = conn.replies) :
    Answers table (notes ++ more) conn' := by
  obtain ⟨count, tell, done, lost, perm, told, -⟩ := h
  have calls : begun (notes ++ more) = begun notes := by simp [none]
  have out := (numbered.perm_without runs).map (·.serial)
  refine ⟨?_, ?_, done, call.serial :: lost, ?_, ?_, fun _ => closing⟩
  · rw [calls, begun_eq]
    exact count
  · intro r hr
    rw [calls]
    rw [running] at hr
    exact tell r (List.mem_filter.1 hr).1
  · rw [running, begun_eq]
    exact perm_leave out perm
  · rw [calls, written_append, List.append_assoc, replies]
    exact told

/-- A running call ends with its reply, which joins the queue. -/
theorem Answers.reply (h : Answers table notes conn) (numbered : conn.Numbered) {call : Running}
    (runs : call ∈ conn.running) :
    Answers table notes
      { conn.without call.serial with
        replies := conn.replies ++ (Outcome.frame? call.sendId call.outcome).toList } := by
  obtain ⟨count, tell, done, lost, perm, told, closes⟩ := h
  have out := (numbered.perm_without runs).map (·.serial)
  refine ⟨count, fun r hr => tell r (List.mem_filter.1 hr).1, done ++ [call.serial], lost, ?_, ?_,
    closes⟩
  · rw [List.append_assoc]
    exact perm_leave out perm
  · rw [← List.append_assoc, told, List.filterMap_append, ← (tell call runs).answer?_eq]
    cases answer : answer? table (begun notes) call.serial <;> simp [answer]

/-- The queue finds no reader: the calls whose replies it held are lost. -/
theorem Answers.drop (h : Answers table notes conn) (replies : conn'.replies = [])
    (running : conn'.running = conn.running) (begun_eq : conn'.begun = conn.begun)
    (closing : conn'.closing = true) : Answers table notes conn' := by
  obtain ⟨count, runs, done, lost, perm, told, -⟩ := h
  obtain ⟨sent, dropped, rfl, first, -⟩ := List.filterMap_eq_append_iff.1 told.symm
  refine ⟨begun_eq ▸ count, running ▸ runs, sent, dropped ++ lost, ?_, ?_, fun _ => closing⟩
  · rw [running, begun_eq]
    rw [List.append_assoc] at perm
    exact perm
  · rw [replies, List.append_nil, first]

theorem Answers.begin (h : Answers table notes conn) {i : SendId} {method : String}
    {payload : Bytes} {heldBy : Option Int64} :
    Answers table (notes ++ [.began c i method payload heldBy])
      { conn with
        reading := .going
        begun := conn.begun + 1
        running := conn.running ++ [.begun table conn.begun i method payload] } := by
  obtain ⟨count, runs, done, lost, perm, told, closes⟩ := h
  have calls : begun (notes ++ [.began c i method payload heldBy]) =
      begun notes ++ [⟨i, method, payload⟩] := by simp [begun]
  refine ⟨by simp [calls, count], ?_, done, lost, ?_, ?_, closes⟩
  · intro r hr
    rw [calls]
    rcases List.mem_append.1 hr with old | new
    · obtain ⟨call, found, rest⟩ := runs r old
      obtain ⟨within, -⟩ := List.getElem?_eq_some_iff.1 found
      exact ⟨call, by rw [List.getElem?_append_left within, found], rest⟩
    · obtain rfl := List.mem_singleton.1 new
      exact ⟨⟨i, method, payload⟩, by simp [Running.begun, ← count], rfl, rfl⟩
  · have last : ((conn.running ++ [Running.begun table conn.begun i method payload]).map
        (·.serial) ++ (done ++ lost)).Perm
          ((conn.running.map (·.serial) ++ (done ++ lost)) ++ [conn.begun]) := by
      rw [List.map_append, List.append_assoc, List.append_assoc]
      exact List.perm_append_comm.append_left _
    rw [List.range_succ]
    exact last.trans (perm.append_right _)
  · rw [calls, written_append]
    have none : written [.began c i method payload heldBy] = [] := rfl
    rw [none, List.append_nil, told]
    refine List.filterMap_congr fun k hk => (answer?_append _ ?_).symm
    have member : k ∈ List.range conn.begun := perm.subset (by simp [hk])
    rw [count]
    exact List.mem_range.1 member

theorem Change.answers (h : Change table limit c conn d bs more conn') (numbered : conn.Numbered)
    (closes : conn.Closes) (answers : Answers table notes conn) :
    Answers table (notes ++ more) conn' := by
  cases h with
  | arrives | hangsUp | deafens | skips | hires | queues | isOver =>
    exact answers.still rfl rfl id rfl rfl
  | breaks | runsOut | stops | stopsWaiting | stopsGranted =>
    exact answers.still rfl rfl (fun _ => rfl) rfl rfl
  | writes queue => exact answers.still rfl rfl id rfl queue.symm
  | failsToWrite =>
    rw [List.append_nil]
    exact answers.drop rfl rfl rfl rfl
  | begins => exact answers.begin
  | readies serial =>
    rw [List.append_nil]
    obtain ⟨count, runs, done, lost, perm, told, closes⟩ := answers
    refine ⟨count, ?_, done, lost, ?_, told, closes⟩
    · intro r hr
      obtain ⟨old, ran, rfl⟩ := List.mem_map.1 hr
      split <;> exact runs old ran
    · rw [map_serial_makeReady]
      exact perm
  | @finishes serial call ready =>
    obtain ⟨runs, rfl⟩ := mem_of_find_ready ready
    cases failed : conn.writeError with
    | none =>
      rw [List.append_nil, Connection.reply?, failed]
      exact answers.reply numbered runs
    | some e =>
      refine answers.lose numbered runs rfl rfl (closes.deaf (by simp [failed])) rfl ?_
      simp [Connection.reply?, failed, written]
  | @abandons serial call closing found =>
    obtain ⟨runs, rfl⟩ := mem_of_find_serial found
    exact answers.lose numbered runs rfl rfl closing rfl rfl

theorem History.answers (h : History table limit c arrived notes conn) :
    Answers table notes conn := by
  induction h with
  | opens =>
    exact ⟨rfl, fun r hr => by simp at hr, [], [], by simp, rfl, fun some => absurd rfl some⟩
  | change past change ih => exact change.answers past.numbered past.closes ih
  | @granted conn arrived notes _ ih =>
    have same : Answers table (notes ++ []) conn.granted := ih.still rfl rfl id rfl rfl
    rwa [List.append_nil] at same

end

/-! ## The whole run -/

/-- The calls of a connection that began. -/
def begunOn (c : ConnectionId) (notes : List Note) : List Call := begun (notesOn c notes)

/-- The frames that were written on a connection. -/
def writtenOn (c : ConnectionId) (notes : List Note) : List Frame := written (notesOn c notes)

section
variable {table : MethodTable} {limit : UInt32} {c : ConnectionId} {conn : Connection}
  {arrived : Bytes} {notes : List Note}

theorem Accepts.isPrefix (h : Accepts limit arrived notes conn) :
    begun notes <+: Call.among (Frame.entries limit arrived) := by
  obtain ⟨fs, rest, takes, order, -⟩ := h
  rw [takes.entries_eq, Call.among_append, Call.among_frames]
  exact ((List.prefix_append _ _).trans order).trans (List.prefix_append _ _)

/-- The replies to the calls that are done, those that have none left out. -/
theorem map_some_filterMap_answer? (calls : List Call) (done : List Nat) :
    (done.filterMap (answer? table calls)).map some =
      (done.filter fun k => (answer? table calls k).isSome).map (answer? table calls) := by
  induction done with
  | nil => rfl
  | cons k done ih => cases answer : answer? table calls k <;> simp [answer, ih]

/-- Each frame that was written answers a call of its own. -/
theorem Answers.distinct (h : Answers table notes conn) : ∃ answered : List Nat,
    answered.Nodup ∧ (written notes).map some = answered.map (answer? table (begun notes)) := by
  obtain ⟨-, -, done, lost, perm, told, -⟩ := h
  obtain ⟨sent, dropped, rfl, first, -⟩ := List.filterMap_eq_append_iff.1 told.symm
  have nodup : sent.Nodup := by
    have all := perm.nodup_iff.2 List.nodup_range
    have ends := (List.nodup_append.1 all).2.1
    exact (List.nodup_append.1 (List.nodup_append.1 ends).1).1
  refine ⟨sent.filter fun k => (answer? table (begun notes) k).isSome, nodup.filter _, ?_⟩
  rw [← first, map_some_filterMap_answer?]

theorem Answers.exists_call (h : Answers table notes conn) {f : Frame} (wrote : f ∈ written notes) :
    ∃ call : Call, call.reply? table = some f := by
  obtain ⟨answered, -, told⟩ := h.distinct
  have member : some f ∈ answered.map (answer? table (begun notes)) := by
    rw [← told]
    exact List.mem_map.2 ⟨f, wrote, rfl⟩
  obtain ⟨k, -, answer⟩ := List.mem_map.1 member
  obtain ⟨call, -, reply⟩ := Option.bind_eq_some_iff.1 answer
  exact ⟨call, reply⟩

theorem Answers.wellFormed (h : Answers table notes conn) :
    ∀ f ∈ written notes, f.WellFormed 0xFFFFFFFF := by
  intro f wrote
  obtain ⟨call, reply⟩ := h.exists_call wrote
  exact Outcome.wellFormed_of_frame? reply

/-- A connection that stays open has lost no call, and has answered all that are done but those
whose outcome no frame can carry. -/
theorem Answers.complete (h : Answers table notes conn) (stays : conn.closing = false)
    (queue : conn.replies = []) : ∃ answered overlong,
      (conn.running.map (·.serial) ++ (answered ++ overlong)).Perm
          (List.range (begun notes).length) ∧
        (written notes).map some = answered.map (answer? table (begun notes)) ∧
        ∀ k ∈ overlong, ∃ call, (begun notes)[k]? = some call ∧ call.Overlong table := by
  obtain ⟨count, -, done, lost, perm, told, closes⟩ := h
  obtain rfl : lost = [] := Decidable.byContradiction fun some => by simp [closes some] at stays
  rw [queue, List.append_nil] at told
  rw [List.append_nil, ← count] at perm
  have split := List.filter_append_perm (fun k => (answer? table (begun notes) k).isSome) done
  refine ⟨_, _, (split.append_left _).trans perm, ?_, fun k hk => ?_⟩
  · rw [told, map_some_filterMap_answer?]
  · obtain ⟨finished, none⟩ := List.mem_filter.1 hk
    have within : k < (begun notes).length := List.mem_range.1 (perm.subset (by simp [finished]))
    have found := List.getElem?_eq_getElem within
    rw [answer?, found, Option.bind_some, Bool.not_eq_true', Option.isSome_eq_false_iff,
      Option.isNone_iff_eq_none] at none
    exact ⟨_, found, Call.overlong_of_reply? none⟩

end

/-- At any time of any run, the calls that began on a connection stand first among those of the
bytes that arrived on it; the frames written on it are whole, and each answers a call of its own
that began there, with that call's id and what its dispatch says. While a connection that cannot
move is not over, it has taken all whole frames or waits for a worker, and each call among the
frames taken has been answered, once, or runs and waits for a value, or is the last one and waits
for a worker, or has an outcome that is too long for any frame: such a call is never answered. -/
theorem each_call_answered_once {table : MethodTable} {limit : UInt32} {workers : Nat}
    {es : List Event} {s : Server} {notes : List Note} {c : ConnectionId} {conn : Connection}
    (run : (ofWorkers table limit workers).run? es = some (s, notes))
    (found : s.get? c = some conn) :
    begunOn c notes <+: Call.among (Frame.entries limit (arrivedOn c es)) ∧
      (∃ answered : List Nat, answered.Nodup ∧
        (writtenOn c notes).map some = answered.map (answer? table (begunOn c notes))) ∧
      Frame.entries 0xFFFFFFFF ((writtenOn c notes).flatMap Frame.bytes) =
        (writtenOn c notes).map .frame ++ [.ended] ∧
      (s.SettledOn c → conn.result = none →
        (∃ taken, Frame.Takes limit (arrivedOn c es) taken conn.inbound ∧
          taken.filterMap Call.ofFrame? = begunOn c notes ++ conn.reading.pending) ∧
        (conn.reading = .going ∧ Frame.read limit conn.inbound = .unfinished ∨
          ∃ i method payload, conn.reading = .waiting i method payload) ∧
        (∀ r ∈ conn.running, r.Tells table (begunOn c notes) ∧ r.ready = false) ∧
        ∃ answered overlong, (conn.running.map (·.serial) ++ (answered ++ overlong)).Perm
            (List.range (begunOn c notes).length) ∧
          (writtenOn c notes).map some = answered.map (answer? table (begunOn c notes)) ∧
          ∀ k ∈ overlong, ∃ call, (begunOn c notes)[k]? = some call ∧ call.Overlong table) := by
  obtain ⟨-, rfl, recorded⟩ := recorded_of_steps (run?_eq_some_iff.1 run)
  have history := (recorded c).1 conn found
  have accepts := history.accepts
  have answers := history.answers
  refine ⟨accepts.isPrefix, answers.distinct, ?_, ?_⟩
  · have whole := Frame.takes_bytes answers.wellFormed []
    rw [List.append_nil] at whole
    rw [writtenOn, whole.entries_eq, Frame.entries, if_pos rfl]
  · intro settled isOpen
    have resting := settled.resting found isOpen history.closes
    have waits : conn.reading = .going ∧ Frame.read s.limit conn.inbound = .unfinished ∨
        ∃ i method payload, conn.reading = .waiting i method payload :=
      resting.reads.imp (fun rest => ⟨rest.1, rest.2.1⟩) id
    have goes : ¬conn.reading.Stopped := by
      rcases waits with ⟨going, -⟩ | ⟨i, method, payload, waiting⟩
      · simp [going, Reading.Stopped]
      · simp [waiting, Reading.Stopped]
    obtain ⟨taken, rest, takes, -, exact_⟩ := accepts
    obtain ⟨rfl, calls⟩ := exact_ goes
    refine ⟨⟨taken, takes, calls.symm⟩, waits, ?_, answers.complete resting.stays resting.written⟩
    intro r hr
    exact ⟨answers.runs r hr, resting.held r hr⟩

/-- Two calls under one id, of which the second one finishes first. -/
theorem two_calls_under_one_id : ∃ table s notes conn,
    (ofWorkers table 100 2).run?
      [.opens 1, .arrives 1 ((Frame.call 5 "" [7]).bytes ++ (Frame.call 5 "" [8]).bytes), .reads 1,
        .begins 1, .reads 1, .begins 1, .finishes 1 1, .writes 1, .finishes 1 0, .writes 1] =
      some (s, notes) ∧
    s.get? 1 = some conn ∧ conn.result = none ∧ s.SettledOn 1 ∧
    begunOn 1 notes = [⟨5, "", [7]⟩, ⟨5, "", [8]⟩] ∧
    writtenOn 1 notes = [.reply 5 .ok [8], .reply 5 .ok [7]] ∧
    ∃ answered overlong : List Nat, (answered ++ overlong).Perm [0, 1] ∧
      (writtenOn 1 notes).map some = answered.map (answer? table (begunOn 1 notes)) := by
  obtain ⟨s, conn, run, found, isOpen, idle, settled⟩ : ∃ s conn,
      (ofWorkers { format := .json, rows := [("", .ok)] } 100 2).run?
        [.opens 1, .arrives 1 ((Frame.call 5 "" [7]).bytes ++ (Frame.call 5 "" [8]).bytes),
          .reads 1, .begins 1, .reads 1, .begins 1, .finishes 1 1, .writes 1, .finishes 1 0,
          .writes 1] =
        some (s, [.began 1 5 "" [7] none, .began 1 5 "" [8] none, .wrote 1 (.reply 5 .ok [8]),
          .wrote 1 (.reply 5 .ok [7])]) ∧
      s.get? 1 = some conn ∧ conn.result = none ∧ conn.running = [] ∧
      ∀ e ∈ conn.moves 1, s.step? e = none := by
    refine ⟨_, _, rfl, rfl, by rfl, by rfl, ?_⟩
    intro e he
    have moves : e ∈ [Event.reads 1, .begins 1, .stops 1, .writes 1, .ends 1] := he
    simp only [List.mem_cons, List.not_mem_nil, or_false] at moves
    obtain rfl | rfl | rfl | rfl | rfl := moves <;> rfl
  obtain ⟨-, -, -, rest⟩ := each_call_answered_once run found
  have settledOn : s.SettledOn 1 := by
    intro now here
    obtain rfl := Option.some.inj (found.symm.trans here)
    exact settled
  obtain ⟨-, -, -, answered, overlong, perm, told, -⟩ := rest settledOn isOpen
  rw [idle] at perm
  exact ⟨_, s, _, conn, run, found, isOpen, settledOn, by rfl, by rfl, answered, overlong, perm,
    told⟩

/-- With a payload that no frame can carry the only call of a connection ends without a reply. -/
theorem run_of_overlong (payload : Bytes) (long : 0x100000000 ≤ payload.length) : ∃ s conn,
    (ofWorkers { format := .json, rows := [("", fun _ => .ok payload)] } 100 1).run?
      [.opens 1, .arrives 1 (Frame.call 5 "" [7]).bytes, .reads 1, .begins 1, .finishes 1 0] =
      some (s, [.began 1 5 "" [7] none]) ∧
    s.get? 1 = some conn ∧ conn.result = none ∧ conn.deaf = false ∧ s.SettledOn 1 ∧
    conn.running = [] ∧ conn.reading.pending = [] := by
  let table : MethodTable := { format := .json, rows := [("", fun _ => .ok payload)] }
  let call : Running := ⟨0, 5, .ok payload, none, true⟩
  let busy : Server :=
    { table, limit := 100, free := 0, connections := [(1, { begun := 1, running := [call] })] }
  let idle : Server := { table, limit := 100, free := 1, connections := [(1, { begun := 1 })] }
  have before : (ofWorkers table 100 1).run?
      [.opens 1, .arrives 1 (Frame.call 5 "" [7]).bytes, .reads 1, .begins 1] =
      some (busy, [.began 1 5 "" [7] none]) := rfl
  have last : busy.step? (.finishes 1 0) = some (idle, []) := by
    have found : busy.get? 1 = some { begun := 1, running := [call] } := rfl
    have unframed : Outcome.frame? 5 (.ok payload) = none := if_neg (Nat.not_lt.2 long)
    simp [step?, found, finish?, call, unframed, Connection.without, set, giveBack, busy, idle]
  refine ⟨idle, { begun := 1 }, ?_, rfl, rfl, rfl, ?_, rfl, rfl⟩
  · exact run?_eq_some_iff.2 (.snoc (run?_eq_some_iff.1 before) last)
  · intro conn found e he
    obtain rfl : { begun := 1 } = conn := Option.some.inj found
    have moves : e ∈ [Event.reads 1, .begins 1, .stops 1, .writes 1, .ends 1] := he
    simp only [List.mem_cons, List.not_mem_nil, or_false] at moves
    obtain rfl | rfl | rfl | rfl | rfl := moves <;> rfl

/-- The outcome of the only call of a connection is too long for any frame. The connection stays
open, its client reads and it cannot move, but the call is not answered and does not run or wait. -/
theorem overlong_outcome_is_not_answered : ∃ table s notes conn,
    (ofWorkers table 100 1).run?
      [.opens 1, .arrives 1 (Frame.call 5 "" [7]).bytes, .reads 1, .begins 1, .finishes 1 0] =
      some (s, notes) ∧
    s.get? 1 = some conn ∧ conn.result = none ∧ conn.deaf = false ∧ s.SettledOn 1 ∧
    begunOn 1 notes = [⟨5, "", [7]⟩] ∧ writtenOn 1 notes = [] ∧ conn.running = [] ∧
    conn.reading.pending = [] := by
  have long : 0x100000000 ≤ (List.replicate 0x100000000 (0 : UInt8)).length :=
    Nat.le_of_eq List.length_replicate.symm
  obtain ⟨s, conn, run, found, isOpen, hears, settled, idle, free⟩ := run_of_overlong _ long
  exact ⟨_, s, _, conn, run, found, isOpen, hears, settled, rfl, rfl, idle, free⟩

end Server

end RemoteCall
