import RemoteCall.Proofs.Server.Locality
import RemoteCall.Proofs.Server.Verdict

/-!
# No call outlives its connection

A connection ends when its reader stops or its writing fails (`Connection.Ended`), whatever its
calls are at. From then on it goes the same way in each case: when it cannot move any more it runs
no call and has no worker, the replies that were in its queue are written if the client still reads,
and nothing is shown of it ever again. Other connections lose nothing by that
(`no_call_outlives_its_connection`).
-/

namespace RemoteCall.Server

/-! ## From some moment on -/

/-- What becomes of connection `c` from some moment on, and what is shown of it. -/
inductive Course (table : MethodTable) (limit : UInt32) (c : ConnectionId) (conn : Connection) :
    List Note → Connection → Prop
  | stays : Course table limit c conn [] conn
  | change {mid conn' : Connection} {d : Demand} {bs : Bytes} {notes more : List Note} :
    Course table limit c conn notes mid → Change table limit c mid d bs more conn' →
      Course table limit c conn (notes ++ more) conn'
  | granted {mid : Connection} {notes : List Note} :
    Course table limit c conn notes mid → Course table limit c conn notes mid.granted

section
variable {s t : Server} {c : ConnectionId} {conn : Connection} {es : List Event}
  {notes : List Note}

/-- Each connection of a run goes its course. -/
theorem course_of_steps (steps : Steps step? s es t notes) (found : s.get? c = some conn) :
    (t.table = s.table ∧ t.limit = s.limit) ∧ ∃ conn', t.get? c = some conn' ∧
      Course s.table s.limit c conn (notesOn c notes) conn' := by
  induction steps with
  | none => exact ⟨⟨rfl, rfl⟩, conn, found, .stays⟩
  | @snoc es u t e notes more _ step ih =>
    obtain ⟨⟨table, limit⟩, mid, here, course⟩ := ih
    have effect := effect_of_step? step
    obtain ⟨table', limit'⟩ := effect.fixed
    refine ⟨⟨table'.trans table, limit'.trans limit⟩, ?_⟩
    rw [← table, ← limit] at course ⊢
    have moved : ∀ {b old conn' d bs}, u.get? b = some old →
        Change u.table u.limit b old d bs (notesOn b more) conn' → Meets u b conn' d t →
        (c ≠ b → notesOn c more = []) →
        ∃ conn', t.get? c = some conn' ∧
          Course u.table u.limit c conn (notesOn c (notes ++ more)) conn' := by
      intro b old conn' d bs there change meets unseen
      rw [notesOn_append]
      by_cases same : c = b
      · subst same
        obtain rfl := Option.some.inj (here.symm.trans there)
        -- the worker that its call gives back may be granted to it at once
        rcases meets.get?_self there with now | now
        · exact ⟨_, now, course.change change⟩
        · exact ⟨_, now, (course.change change).granted⟩
      · rw [unseen same, List.append_nil]
        rcases meets.get?_of_ne same with now | now
        · exact ⟨mid, now.trans here, course⟩
        · exact ⟨mid.granted, by rw [now, here]; rfl, course.granted⟩
    cases effect with
    | @opens b unknown =>
      have ne : c ≠ b := fun same => by simp [← same, here] at unknown
      exact ⟨mid, (get?_openNew_of_ne ne).trans here, by simpa [notesOn] using course⟩
    | releasesNobody =>
      exact ⟨mid, here, by simpa [notesOn, Note.connection?] using course⟩
    | releases there change meets => exact moved there change meets fun _ => rfl
    | moves there change meets =>
      exact moved there (change.notesOn_self ▸ change) meets change.notesOn_of_ne

end

/-! ## Ends -/

/-- The reader has stopped, or the writing has failed. A client that hangs up comes to that when the
reader is at the end of the bytes; a reader that waits for a worker does not get there. -/
def Connection.Ended (conn : Connection) : Prop := conn.reading.Stopped ∨ conn.writeError.isSome

/-- The connection is over, with that result, and nothing is left of it. -/
structure Connection.Over (conn : Connection) (r : Except CallError Unit) : Prop where
  result : conn.result = some r
  stopped : conn.reading.Stopped
  idle : conn.running = []
  written : conn.replies = []

section
variable {table : MethodTable} {limit : UInt32} {c : ConnectionId} {conn conn' : Connection}
  {d : Demand} {bs arrived : Bytes} {notes : List Note} {r : Except CallError Unit}

theorem Connection.Ended.failed (h : conn.Ended) (goes : ¬conn.reading.Stopped) :
    conn.writeError.isSome :=
  h.resolve_left goes

/-- A change ends the connection, or it has not ended before and is not made to close now. -/
theorem Change.ended_or (h : Change table limit c conn d bs notes conn') :
    conn'.Ended ∨ ¬conn.Ended ∧ conn'.closing = conn.closing := by
  by_cases ended : conn.Ended
  · left
    cases h with
    | arrives | hangsUp | deafens | readies | skips | finishes | abandons | writes | isOver =>
      exact ended
    | hires going | queues going | begins going =>
      exact .inr (ended.failed (by simp [going, Reading.Stopped]))
    | breaks | runsOut | stops | stopsWaiting | stopsGranted => exact .inl trivial
    | failsToWrite => exact .inr rfl
  · cases h with
    | arrives | hangsUp | deafens | readies | skips | hires | queues | begins | finishes
    | abandons | writes | isOver => exact .inr ⟨ended, rfl⟩
    | breaks | runsOut | stops | stopsWaiting | stopsGranted => exact .inl (.inl trivial)
    | failsToWrite => exact .inl (.inr rfl)

theorem Connection.ended_granted (conn : Connection) : conn.granted.Ended ↔ conn.Ended := by
  rw [Connection.Ended, Connection.granted, Reading.stopped_grant]
  rfl

theorem Course.ended (h : Course table limit c conn notes conn') (ended : conn.Ended) :
    conn'.Ended := by
  induction h with
  | stays => exact ended
  | change _ change ih => exact change.ended_or.resolve_right fun goes => goes.1 ih
  | granted _ ih => exact (Connection.ended_granted _).2 ih

/-- Nothing else makes a connection close. -/
theorem History.ended_of_closing (h : History table limit c arrived notes conn)
    (closing : conn.closing = true) : conn.Ended := by
  induction h with
  | opens => cases closing
  | change _ change ih =>
    rcases change.ended_or with ended | ⟨goes, same⟩
    · exact ended
    · exact absurd (ih (same ▸ closing)) goes
  | granted _ ih => exact (Connection.ended_granted _).2 (ih closing)

/-- A connection that is over stays so, and nothing more is shown of it. -/
theorem Change.stays_over (h : Change table limit c conn d bs notes conn') (gone : conn.Over r) :
    conn'.Over r ∧ notes = [] := by
  have stopped := gone.stopped
  obtain ⟨result, -, idle, written⟩ := gone
  cases h with
  | arrives | hangsUp | deafens => exact ⟨⟨result, stopped, idle, written⟩, rfl⟩
  | readies serial => exact ⟨⟨result, stopped, by simp [idle, makeReady], written⟩, rfl⟩
  | skips going | hires going | queues going | breaks going | runsOut going | begins going
  | stops _ going | stopsWaiting _ going | stopsGranted _ going =>
    simp [going, Reading.Stopped] at stopped
  | finishes runs | abandons _ runs => simp [idle] at runs
  | writes queue | failsToWrite queue => simp [written] at queue
  | isOver _ _ _ isOpen => simp [result] at isOpen

theorem Course.stays_over (h : Course table limit c conn notes conn') (gone : conn.Over r) :
    conn'.Over r ∧ notes = [] := by
  induction h with
  | stays => exact ⟨gone, rfl⟩
  | change _ change ih =>
    obtain ⟨mid, rfl⟩ := ih
    exact change.stays_over mid
  | granted _ ih =>
    obtain ⟨⟨result, stopped, idle, written⟩, none⟩ := ih
    exact ⟨⟨result, (Reading.stopped_grant _).2 stopped, idle, written⟩, none⟩

/-! ## Replies in the queue -/

/-- The replies in the queue, and those that join it, are written in their order or still in the
queue; none is lost but by a writing that failed, as the client does not read. -/
theorem Course.replies (h : Course table limit c conn notes conn') : ∃ new lost,
    conn.replies ++ new = written notes ++ (conn'.replies ++ lost) ∧
      (lost ≠ [] → conn'.replies = [] ∧ conn'.writeError.isSome ∧ conn'.deaf = true) := by
  -- `lost` grows where a writing fails, and from then on the queue stays empty
  induction h with
  | stays => exact ⟨[], [], by simp [written], fun some => absurd rfl some⟩
  | granted _ ih => exact ih
  | @change mid conn' d bs notes more _ change ih =>
    obtain ⟨new, lost, order, fails⟩ := ih
    have same : ∀ more : List Note, written more = [] →
        conn.replies ++ new = written (notes ++ more) ++ (mid.replies ++ lost) := by
      intro more none
      rw [written_append, none, List.append_nil]
      exact order
    cases change with
    | arrives | hangsUp | readies | skips | hires | queues | breaks | runsOut | begins | stops
    | stopsWaiting | stopsGranted | abandons | isOver =>
      exact ⟨new, lost, same _ rfl, fails⟩
    | deafens =>
      refine ⟨new, lost, same _ rfl, fun some => ?_⟩
      obtain ⟨empty, failed, -⟩ := fails some
      exact ⟨empty, failed, rfl⟩
    | @writes f replies queue hears =>
      refine ⟨new, lost, ?_, fun some => ?_⟩
      · rw [order, queue, written_append]
        simp [written]
      · simp [queue] at fails
        exact absurd fails some
    | failsToWrite _ deaf =>
      refine ⟨new, mid.replies ++ lost, same _ rfl, fun _ => ⟨rfl, rfl, deaf⟩⟩
    | @finishes serial call ready =>
      by_cases none : lost = []
      · subst none
        refine ⟨new ++ (mid.reply? call).toList, [], ?_, fun some => absurd rfl some⟩
        rw [← List.append_assoc, order]
        simp
      · -- after a writing that failed no reply joins the queue
        obtain ⟨empty, failed, deaf⟩ := fails none
        have unanswered : mid.reply? call = Option.none := by simp [Connection.reply?, failed]
        refine ⟨new, lost, ?_, fun _ => ⟨?_, failed, deaf⟩⟩
        · simpa [unanswered] using same [] rfl
        · simp [unanswered, empty]

end

/-! ## When it cannot move any more -/

section
variable {table : MethodTable} {limit : UInt32} {s : Server} {c : ConnectionId} {conn : Connection}
  {arrived : Bytes} {notes : List Note} {r : Except CallError Unit}

theorem Connection.Ended.closing (h : conn.Ended) (closes : conn.Closes) : conn.closing = true :=
  h.elim closes.stopped closes.deaf

theorem SettledOn.isOver (settled : s.SettledOn c) (found : s.get? c = some conn)
    (history : History table limit c arrived notes conn) (ended : conn.Ended) :
    ∃ r, conn.Over r := by
  have closing := ended.closing history.closes
  cases halted : conn.result with
  | none => simp [settled.stays found halted] at closing
  | some r =>
    have halts : conn.result.isSome := by simp [halted]
    exact ⟨r, halted, history.finished.stopped halts, history.finished.idle halts,
      settled.replies_eq_nil found⟩

theorem Connection.Over.isSome (h : conn.Over r) : conn.result.isSome := by
  simp [h.result]

theorem Connection.Over.finished (h : conn.Over r) : conn.Finished where
  stopped _ := h.stopped
  idle _ := h.idle

theorem Connection.Over.hired_eq_zero (h : conn.Over r) : conn.hired = 0 :=
  h.finished.hired_eq_zero h.isSome

/-- A connection that has not ended has lost no call. -/
theorem History.none_lost (h : History table limit c arrived notes conn) (goes : ¬conn.Ended) :
    ∃ done, (conn.running.map (·.serial) ++ done).Perm (List.range (begun notes).length) ∧
      written notes ++ conn.replies = done.filterMap (answer? table (begun notes)) := by
  obtain ⟨count, -, done, lost, perm, told, closes⟩ := h.answers
  obtain rfl : lost = [] := by
    by_contra some
    exact goes (h.ended_of_closing (closes some))
  rw [List.append_nil, ← count] at perm
  exact ⟨done, perm, told⟩

end

/-! ## The whole run -/

/-- Take a connection whose reader has stopped, for whatever reason, or whose writing has failed,
whatever its calls and its reader are at; and any time after that at which it cannot move. Then it
is over: none of its calls runs, it has no worker and waits for none, and all workers are free or
have calls of other connections. The replies that were in its queue come first of what was written
since, in their order, and all are written if the client still reads; and all that was ever written
on it are whole frames. Whatever happens later, nothing is written on it any more, nor shown of it,
and it stays as it is. Meanwhile each connection only changes by events about itself, but that it
may be granted a worker that it waits for; and one that has not ended has lost no call: each of
those that began runs or has finished, and then its reply is written or in the queue if there is a
frame for it (`answer?`). -/
theorem no_call_outlives_its_connection {table : MethodTable} {limit : UInt32} {workers : Nat}
    {es more : List Event} {s t : Server} {notes shown : List Note} {c : ConnectionId}
    {conn : Connection} (run : (ofWorkers table limit workers).run? es = some (s, notes))
    (found : s.get? c = some conn) (ended : conn.Ended) (later : s.run? more = some (t, shown))
    (settled : t.SettledOn c) :
    (∃ gone, t.get? c = some gone ∧ gone.result.isSome ∧ gone.running = [] ∧ gone.hired = 0 ∧
      ¬t.Waits c ∧ t.free + t.hiredBesides c = max workers 1 ∧
      (∃ new lost, conn.replies ++ new = writtenOn c shown ++ lost ∧
        (gone.deaf = false → lost = [])) ∧
      Frame.entries 0xFFFFFFFF ((writtenOn c (notes ++ shown)).flatMap Frame.bytes) =
        (writtenOn c (notes ++ shown)).map .frame ++ [.ended] ∧
      ∀ after u told, t.run? after = some (u, told) → notesOn c told = [] ∧
        ∃ still, u.get? c = some still ∧ still.result = gone.result ∧ still.running = [] ∧
          still.hired = 0) ∧
    (∀ early u told e v seen d, early <+: more → s.run? early = some (u, told) →
      u.step? e = some (v, seen) → u.target? e ≠ some d →
      (v.get? d = u.get? d ∨ v.get? d = (u.get? d).map .granted) ∧ notesOn d seen = []) ∧
    ∀ d other, t.get? d = some other → ¬other.Ended →
      ∃ done, (other.running.map (·.serial) ++ done).Perm
          (List.range (begunOn d (notes ++ shown)).length) ∧
        writtenOn d (notes ++ shown) ++ other.replies =
          done.filterMap (answer? table (begunOn d (notes ++ shown))) := by
  have steps := run?_eq_some_iff.1 run
  have further := run?_eq_some_iff.1 later
  have whole := steps.trans further
  have pool := pool_of_steps whole
  obtain ⟨-, -, recorded⟩ := recorded_of_steps whole
  refine ⟨?_, ?_, ?_⟩
  · obtain ⟨-, gone, here, course⟩ := course_of_steps further found
    have history := (recorded c).1 gone here
    obtain ⟨r, isOver⟩ := settled.isOver here history (course.ended ended)
    have unhired := isOver.hired_eq_zero
    refine ⟨gone, here, isOver.isSome, isOver.idle, unhired, ?_, ?_, ?_, ?_, ?_⟩
    · rintro ⟨still, now, waits⟩
      obtain rfl := Option.some.inj (here.symm.trans now)
      exact isOver.finished.not_waits isOver.isSome waits
    · have total := pool.total
      have split := pool.hired_eq c
      simp only [here, Option.map_some, Option.getD_some] at split
      omega
    · obtain ⟨new, lost, order, fails⟩ := course.replies
      refine ⟨new, lost, by rw [writtenOn, order, isOver.written]; rfl, fun hears => ?_⟩
      by_contra some
      simp [hears] at fails
      exact some fails
    · have frames := Frame.takes_bytes history.answers.wellFormed []
      rw [List.append_nil] at frames
      rw [writtenOn, frames.entries_eq, Frame.entries, if_pos rfl]
    · intro after u told run'
      obtain ⟨-, still, now, rest⟩ := course_of_steps (run?_eq_some_iff.1 run') here
      obtain ⟨stays, none⟩ := rest.stays_over isOver
      exact ⟨none, still, now, stays.result.trans isOver.result.symm, stays.idle,
        stays.hired_eq_zero⟩
  · intro early u told e v seen d _ _ step away
    have spared := spares_of_step? away step
    exact ⟨spared.row, spared.unseen⟩
  · intro d other there goes
    exact ((recorded d).1 other there).none_lost goes

/-- What is no frame comes while a reply is in the queue and another call is held: the reply is
written and the call is given up. Its worker is free, and a second connection keeps the other
one. -/
theorem reply_of_ended_connection_is_written : ∃ s notes conn t shown gone,
    (ofWorkers { format := .json, rows := [("", .ok), ("h", .held 0)] } 100 2).run?
      [.opens 1, .opens 2,
        .arrives 1 ((Frame.call 5 "" [7]).bytes ++ (Frame.call 6 "h" [8]).bytes ++
          List.replicate 8 0),
        .reads 1, .begins 1, .reads 1, .begins 1, .arrives 2 (Frame.call 7 "h" [9]).bytes,
        .reads 2, .finishes 1 0, .reads 1, .begins 2] = some (s, notes) ∧
    s.get? 1 = some conn ∧ conn.Ended ∧ conn.replies = [.reply 5 .ok [7]] ∧
    conn.running.length = 1 ∧
    s.run? [.abandons 1 1, .writes 1, .ends 1] = some (t, shown) ∧ t.SettledOn 1 ∧
    t.get? 1 = some gone ∧ gone.result = some (.error .invalidFrame) ∧ gone.running = [] ∧
    gone.hired = 0 ∧ t.hiredBesides 1 = 1 ∧ t.free = 1 ∧
    ∃ new, writtenOn 1 shown = .reply 5 .ok [7] :: new := by
  obtain ⟨s, notes, conn, t, shown, run, found, ended, queue, one, later, settled, free, last⟩ :
      ∃ s notes conn t shown,
        (ofWorkers { format := .json, rows := [("", .ok), ("h", .held 0)] } 100 2).run?
          [.opens 1, .opens 2,
            .arrives 1 ((Frame.call 5 "" [7]).bytes ++ (Frame.call 6 "h" [8]).bytes ++
              List.replicate 8 0),
            .reads 1, .begins 1, .reads 1, .begins 1, .arrives 2 (Frame.call 7 "h" [9]).bytes,
            .reads 2, .finishes 1 0, .reads 1, .begins 2] = some (s, notes) ∧
        s.get? 1 = some conn ∧ conn.Ended ∧ conn.replies = [.reply 5 .ok [7]] ∧
        conn.running.length = 1 ∧
        s.run? [.abandons 1 1, .writes 1, .ends 1] = some (t, shown) ∧ t.Settled ∧
        t.free = 1 ∧ ∀ gone, t.get? 1 = some gone →
          gone.result = some (.error .invalidFrame) ∧ gone.deaf = false := by
    refine ⟨_, _, _, _, _, rfl, rfl, .inl trivial, rfl, rfl, rfl, ?_, rfl, ?_⟩
    · decide
    · rintro gone here
      obtain rfl := Option.some.inj here
      exact ⟨rfl, rfl⟩
  obtain ⟨⟨gone, here, -, idle, unhired, -, total, ⟨new, lost, order, fails⟩, -⟩, -⟩ :=
    no_call_outlives_its_connection run found ended later (settled.on 1)
  obtain ⟨result, hears⟩ := last gone here
  rw [fails hears, queue, List.append_nil] at order
  exact ⟨s, notes, conn, t, shown, gone, run, found, ended, queue, one, later, settled.on 1, here,
    result, idle, unhired, by omega, free, new, order.symm⟩

end RemoteCall.Server
