import RemoteCall.Proofs.Server.Replies

/-!
# Calls on their way to their replies

A call that was sent is a promise to its caller: what its reply will tell. The promise is first in a
frame on the wire, then with the reader, then with a running call, then in a reply that waits to be
written. As long as the client sends whole calls and reads their replies, every change of a
connection only moves promises along (`Change.serving`).
-/

namespace RemoteCall

/-- The reply that tells the outcome is within the limit. -/
def Outcome.Fits (limit : UInt32) (r : Outcome) : Prop := r.toReply.2.length ≤ limit.toNat

/-- The outcome that a reply tells, and the id of its call. -/
def Frame.told? (f : Frame) : Option (SendId × Outcome) :=
  match f.head with
  | .reply i status _ => some (i, .ofReply status f.payload)
  | .call .. => none

theorem Outcome.Fits.frame?_eq {limit : UInt32} {r : Outcome} (h : r.Fits limit) (i : SendId) :
    Outcome.frame? i r = some (.reply i r.toReply.1 r.toReply.2) := by
  have small : r.toReply.2.length < 0x100000000 := Nat.lt_of_le_of_lt h limit.toNat_lt
  rw [Outcome.frame?]
  exact if_pos small

theorem Frame.told?_reply (i : SendId) (r : Outcome) :
    (Frame.reply i r.toReply.1 r.toReply.2).told? = some (i, r.hop) :=
  rfl

namespace Server

/-- What the call's caller will see. -/
def Call.promise (table : MethodTable) (call : Call) : SendId × Outcome :=
  (call.sendId, Outcome.hop (table.dispatch call.method call.payload).outcome)

def Running.promise (r : Running) : SendId × Outcome := (r.sendId, Outcome.hop r.outcome)

/-- The call's reply is within the limit, and in a `prompt` service it waits for no value. -/
structure Call.Answerable (table : MethodTable) (limit : UInt32) (prompt : Prop) (call : Call) :
    Prop where
  fits : Outcome.Fits limit (table.dispatch call.method call.payload).outcome
  free : prompt → (table.dispatch call.method call.payload).heldBy = none

/-- The promises of the frames on the wire and of the connection. -/
def Connection.promises (table : MethodTable) (calls : List Frame) (conn : Connection) :
    List (SendId × Outcome) :=
  (calls.filterMap Call.ofFrame? ++ conn.reading.pending).map (Call.promise table) ++
    (conn.running.map Running.promise ++ conn.replies.filterMap Frame.told?)

/-- The connection is alive, its client too, and all that it has to do can be done: the bytes that
it has, with `more` that will follow, are those of `calls`, and the replies are within the client's
limit. -/
structure Connection.Serving (table : MethodTable) (limit clientLimit : UInt32) (prompt : Prop)
    (calls : List Frame) (more : Bytes) (conn : Connection) : Prop where
  sends : conn.hungUp = false
  hears : conn.deaf = false
  stays : conn.closing = false
  goes : ¬conn.reading.Stopped
  isOpen : conn.result = none
  fine : conn.writeError = none
  carries : Frame.Carries limit calls (conn.inbound ++ more)
  asked : ∀ call ∈ calls.filterMap Call.ofFrame? ++ conn.reading.pending,
    call.Answerable table clientLimit prompt
  running : ∀ r ∈ conn.running, Outcome.Fits clientLimit r.outcome ∧ (prompt → r.ready = true)
  replies : ∀ f ∈ conn.replies, f.WellFormed clientLimit

section
variable {table : MethodTable} {limit clientLimit : UInt32} {prompt : Prop} {calls : List Frame}
  {more bs : Bytes} {c : ConnectionId} {conn conn' : Connection} {d : Demand} {notes : List Note}

theorem Connection.Serving.granted
    (h : conn.Serving table limit clientLimit prompt calls more) :
    conn.granted.Serving table limit clientLimit prompt calls more ∧
      conn.granted.promises table calls = conn.promises table calls := by
  refine ⟨⟨h.sends, h.hears, h.stays, ?_, h.isOpen, h.fine, h.carries, ?_, h.running, h.replies⟩,
    ?_⟩
  · rw [Connection.granted, Reading.stopped_grant]
    exact h.goes
  · rw [Connection.granted, Reading.pending_grant]
    exact h.asked
  · simp [Connection.promises, Connection.granted]

/-- The client sends one call more. -/
theorem Connection.Serving.sent {f : Frame}
    (h : conn.Serving table limit clientLimit prompt calls more) (call : Call)
    (is : Call.ofFrame? f = some call) (fits : f.WellFormed limit)
    (answerable : call.Answerable table clientLimit prompt) :
    conn.Serving table limit clientLimit prompt (calls ++ [f]) (more ++ f.bytes) ∧
      (conn.promises table (calls ++ [f])).Perm
        (call.promise table :: conn.promises table calls) := by
  have one : Frame.Carries limit [f] f.bytes :=
    ⟨by simp, fun g hg => by simpa [List.mem_singleton.1 hg] using fits⟩
  have order : ((calls ++ [f]).filterMap Call.ofFrame? ++ conn.reading.pending).Perm
      (call :: (calls.filterMap Call.ofFrame? ++ conn.reading.pending)) := by
    rw [List.filterMap_append, List.filterMap_cons_some is, List.filterMap_nil, List.append_assoc]
    exact List.perm_middle
  refine ⟨⟨h.sends, h.hears, h.stays, h.goes, h.isOpen, h.fine, ?_, ?_, h.running, h.replies⟩, ?_⟩
  · rw [← List.append_assoc]
    exact h.carries.append one
  · intro asked member
    rcases List.mem_cons.1 (order.subset member) with rfl | old
    · exact answerable
    · exact h.asked asked old
  · exact (order.map _).append_right _

/-- The reader takes a frame that is a call. -/
theorem Connection.Serving.take {f : Frame} {rest : Bytes} {call : Call}
    (h : conn.Serving table limit clientLimit prompt calls more) (reading : Reading)
    (going : conn.reading = .going) (item : Frame.read limit conn.inbound = .item f rest)
    (is : Call.ofFrame? f = some call) (pending : reading.pending = [call])
    (goes : ¬reading.Stopped) :
    ∃ left,
      { conn with inbound := rest, reading }.Serving table limit clientLimit prompt left more ∧
      ({ conn with inbound := rest, reading }.promises table left).Perm
        (conn.promises table calls) := by
  obtain ⟨left, rfl, carries⟩ := h.carries.take item
  have order : (left.filterMap Call.ofFrame? ++ reading.pending).Perm
      ((f :: left).filterMap Call.ofFrame? ++ conn.reading.pending) := by
    rw [pending, going, List.filterMap_cons_some is]
    simp only [Reading.pending, List.append_nil]
    exact List.perm_append_singleton call _
  refine ⟨left, ⟨h.sends, h.hears, h.stays, goes, h.isOpen, h.fine, carries, ?_, h.running,
    h.replies⟩, ?_⟩
  · intro asked member
    exact h.asked asked (order.subset member)
  · exact (order.map _).append_right _

/-- A running call finishes, and its reply joins the queue. -/
theorem Connection.Serving.finish {call : Running} (numbered : conn.Numbered)
    (h : conn.Serving table limit clientLimit prompt calls more) (runs : call ∈ conn.running) :
    { conn.without call.serial with
        replies := conn.replies ++ (conn.reply? call).toList }.Serving table limit clientLimit
          prompt calls more ∧
      ({ conn.without call.serial with
        replies := conn.replies ++ (conn.reply? call).toList }.promises table calls).Perm
          (conn.promises table calls) := by
  have fits := (h.running call runs).1
  have reply : conn.reply? call =
      some (.reply call.sendId call.outcome.toReply.1 call.outcome.toReply.2) := by
    rw [Connection.reply?, h.fine, ← fits.frame?_eq]
    rfl
  have out := (numbered.perm_without runs).map Running.promise
  rw [reply]
  refine ⟨⟨h.sends, h.hears, h.stays, h.goes, h.isOpen, h.fine, h.carries, h.asked, ?_, ?_⟩, ?_⟩
  · intro r hr
    exact h.running r (List.mem_filter.1 hr).1
  · intro f hf
    rcases List.mem_append.1 hf with old | new
    · exact h.replies f old
    · obtain rfl := List.mem_singleton.1 new
      exact Frame.wellFormed_reply _ _ fits
  · rw [Connection.promises, Connection.promises, List.filterMap_append]
    refine List.Perm.append_left _ ?_
    rw [Option.toList_some, List.filterMap_cons_some (Frame.told?_reply _ _), List.filterMap_nil,
      ← List.append_assoc]
    refine (List.perm_append_singleton _ _).trans ?_
    exact out.symm.append_right _

/-- A call that waits no more makes the same promise. -/
theorem map_promise_makeReady (serial : Nat) (running : List Running) :
    (makeReady serial running).map Running.promise = running.map Running.promise := by
  rw [makeReady, List.map_map]
  apply List.map_congr_left
  intro r _
  simp only [Function.comp_apply]
  split <;> rfl

theorem Connection.Serving.ready (h : conn.Serving table limit clientLimit prompt calls more)
    (serial : Nat) :
    { conn with running := makeReady serial conn.running }.Serving table limit clientLimit prompt
      calls more := by
  refine ⟨h.sends, h.hears, h.stays, h.goes, h.isOpen, h.fine, h.carries, h.asked, ?_, h.replies⟩
  intro r hr
  obtain ⟨old, ran, rfl⟩ := List.mem_map.1 hr
  split
  · exact ⟨(h.running old ran).1, fun _ => rfl⟩
  · exact h.running old ran

/-- The reader drops a frame that is no call. -/
theorem Connection.Serving.skip {f : Frame} {rest : Bytes}
    (h : conn.Serving table limit clientLimit prompt calls more)
    (item : Frame.read limit conn.inbound = .item f rest) (noCall : Call.ofFrame? f = none) :
    ∃ left, { conn with inbound := rest }.Serving table limit clientLimit prompt left more ∧
      { conn with inbound := rest }.promises table left = conn.promises table calls := by
  obtain ⟨left, rfl, carries⟩ := h.carries.take item
  have asked := h.asked
  rw [List.filterMap_cons_none noCall] at asked
  refine ⟨left, ?_, ?_⟩
  · exact ⟨h.sends, h.hears, h.stays, h.goes, h.isOpen, h.fine, carries, asked, h.running,
      h.replies⟩
  · rw [Connection.promises, Connection.promises, List.filterMap_cons_none noCall]

/-- The call that the reader holds begins. -/
theorem Connection.Serving.begin {i : SendId} {method : String} {payload : Bytes}
    (h : conn.Serving table limit clientLimit prompt calls more)
    (granted : conn.reading = .granted i method payload) :
    { conn with
        reading := .going
        begun := conn.begun + 1
        running := conn.running ++ [Running.begun table conn.begun i method payload] }.Serving
          table limit clientLimit prompt calls more ∧
      ({ conn with
        reading := .going
        begun := conn.begun + 1
        running := conn.running ++ [Running.begun table conn.begun i method payload] }.promises
          table calls).Perm (conn.promises table calls) := by
  have pending : conn.reading.pending = [⟨i, method, payload⟩] := by rw [granted, Reading.pending]
  have answerable := h.asked ⟨i, method, payload⟩ (by simp [pending])
  refine ⟨⟨h.sends, h.hears, h.stays, id, h.isOpen, h.fine, h.carries, ?_, ?_, h.replies⟩, ?_⟩
  · intro call hc
    simp only [Reading.pending, List.append_nil] at hc
    exact h.asked call (List.mem_append_left _ hc)
  · intro r hr
    rcases List.mem_append.1 hr with old | new
    · exact h.running r old
    · obtain rfl := List.mem_singleton.1 new
      refine ⟨answerable.fits, ?_⟩
      intro now
      simp [Running.begun, answerable.free now]
  · rw [Connection.promises, Connection.promises, pending]
    simp only [Reading.pending, List.append_nil, List.map_append, List.map_cons, List.map_nil,
      List.append_assoc]
    apply List.Perm.append_left
    exact List.perm_append_comm_assoc _ [_] _

/-- The first reply in the queue is written. -/
theorem Connection.Serving.write {f : Frame} {replies : List Frame}
    (h : conn.Serving table limit clientLimit prompt calls more)
    (queue : conn.replies = f :: replies) :
    { conn with replies }.Serving table limit clientLimit prompt calls more ∧
      f.WellFormed clientLimit ∧
      ({ conn with replies }.promises table calls ++ [f].filterMap Frame.told?).Perm
        (conn.promises table calls) := by
  have first : f.WellFormed clientLimit := h.replies f (by simp [queue])
  refine ⟨?_, first, ?_⟩
  · refine ⟨h.sends, h.hears, h.stays, h.goes, h.isOpen, h.fine, h.carries, h.asked, h.running, ?_⟩
    intro g hg
    exact h.replies g (by simp [queue, hg])
  · rw [Connection.promises, Connection.promises, queue, List.append_assoc, List.append_assoc]
    apply List.Perm.append_left
    apply List.Perm.append_left
    rw [← List.filterMap_append]
    exact (List.perm_append_singleton f replies).filterMap _

/-- Every change of a connection moves promises along, and what it writes is within the client's
limit. -/
theorem Change.serving (h : Change table limit c conn d bs notes conn') (numbered : conn.Numbered)
    (serving : conn.Serving table limit clientLimit prompt calls (bs ++ more))
    (sends : conn'.hungUp = conn.hungUp) (hears : conn'.deaf = conn.deaf) :
    ∃ left, conn'.Serving table limit clientLimit prompt left more ∧
      (∀ f ∈ written notes, f.WellFormed clientLimit) ∧
      (conn'.promises table left ++ (written notes).filterMap Frame.told?).Perm
        (conn.promises table calls) := by
  -- most changes write nothing
  have quiet : ∀ {left : List Frame}, conn'.Serving table limit clientLimit prompt left more →
      (conn'.promises table left).Perm (conn.promises table calls) → written notes = [] →
      ∃ left, conn'.Serving table limit clientLimit prompt left more ∧
        (∀ f ∈ written notes, f.WellFormed clientLimit) ∧
        (conn'.promises table left ++ (written notes).filterMap Frame.told?).Perm
          (conn.promises table calls) := by
    intro left alive moved none
    refine ⟨left, alive, by simp [none], ?_⟩
    rw [none, List.filterMap_nil, List.append_nil]
    exact moved
  cases h with
  | arrives =>
    have carries := serving.carries
    rw [← List.append_assoc] at carries
    refine quiet ?_ (List.Perm.refl _) rfl
    exact ⟨serving.sends, serving.hears, serving.stays, serving.goes, serving.isOpen,
      serving.fine, carries, serving.asked, serving.running, serving.replies⟩
  | hangsUp =>
    have gone := serving.sends
    rw [← sends] at gone
    cases gone
  | deafens =>
    have gone := serving.hears
    rw [← hears] at gone
    cases gone
  | readies serial =>
    refine quiet (serving.ready serial) ?_ rfl
    rw [Connection.promises, Connection.promises, map_promise_makeReady]
  | @skips f rest i status n going item head =>
    obtain ⟨left, alive, same⟩ := serving.skip item (by rw [Call.ofFrame?, head])
    exact quiet alive (List.Perm.of_eq same) rfl
  | @hires f rest i method n going item head =>
    have is : Call.ofFrame? f = some ⟨i, method, f.payload⟩ := by
      rw [Call.ofFrame?, head]
    obtain ⟨left, alive, moved⟩ := serving.take (.granted i method f.payload) going item is rfl id
    exact quiet alive moved rfl
  | @queues f rest i method n going item head =>
    have is : Call.ofFrame? f = some ⟨i, method, f.payload⟩ := by
      rw [Call.ofFrame?, head]
    obtain ⟨left, alive, moved⟩ := serving.take (.waiting i method f.payload) going item is rfl id
    exact quiet alive moved rfl
  | breaks _ invalid => exact absurd invalid serving.carries.sound
  | runsOut _ _ hungUp =>
    rw [serving.sends] at hungUp
    cases hungUp
  | stops closing | stopsWaiting closing | stopsGranted closing | abandons closing =>
    rw [serving.stays] at closing
    cases closing
  | begins granted =>
    obtain ⟨alive, moved⟩ := serving.begin granted
    exact quiet alive moved rfl
  | finishes ready =>
    obtain ⟨runs, rfl⟩ := mem_of_find_ready ready
    obtain ⟨alive, moved⟩ := serving.finish numbered runs
    exact quiet alive moved rfl
  | @writes f replies queue =>
    obtain ⟨alive, first, moved⟩ := serving.write queue
    refine ⟨calls, alive, ?_, moved⟩
    intro g hg
    obtain rfl : g = f := by simpa [written] using hg
    exact first
  | failsToWrite _ deaf =>
    rw [serving.hears] at deaf
    cases deaf
  | isOver stopped =>
    have goes := serving.goes
    rw [stopped] at goes
    exact absurd trivial goes

end

end Server

end RemoteCall
