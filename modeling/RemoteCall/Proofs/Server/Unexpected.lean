import RemoteCall.Proofs.Frame.Woven
import RemoteCall.Proofs.Server.Locality

/-!
# Replies that come to a server

A reader takes a reply and goes on. So foreign replies between the frames of a client change
nothing: the server that gets them differs from the one that does not in the bytes that wait on the
connection (`Beside`), and both can do the same at any moment, but that the first reads the replies
in between (`Beside.without`, `Beside.along`).
-/

namespace RemoteCall.Server

/-! ## Other bytes on a connection -/

/-- The connection `d`, which has other bytes that wait if it is `c`. -/
def fill (c : ConnectionId) (bs : Bytes) (d : ConnectionId) (conn : Connection) : Connection :=
  { conn with inbound := if d = c then bs else conn.inbound }

/-- The server with other bytes that wait on connection `c`. -/
def withInbound (s : Server) (c : ConnectionId) (bs : Bytes) : Server :=
  { s with connections := s.connections.map fun (d, conn) => (d, fill c bs d conn) }

/-- What a step makes of it, with other bytes on connection `c`. -/
def answerWith (c : ConnectionId) (bs : Bytes) (answer : Server × List Note) :
    Server × List Note :=
  (answer.1.withInbound c bs, answer.2)

/-- The event neither brings bytes to connection `c` nor reads there. -/
def Event.Elsewhere (c : ConnectionId) : Event → Prop
  | .arrives d _ | .reads d => d ≠ c
  | _ => True

section
variable (s : Server) (c d : ConnectionId) (bs cs : Bytes) (conn : Connection)

@[simp] theorem fill_self : fill c bs c conn = { conn with inbound := bs } := by simp [fill]

theorem fill_of_ne {c d : ConnectionId} (ne : d ≠ c) : fill c bs d conn = conn := by
  simp [fill, ne]

@[simp] theorem fill_fill : fill c cs d (fill c bs d conn) = fill c cs d conn := by
  unfold fill
  split <;> rfl

@[simp] theorem withInbound_withInbound :
    (s.withInbound c bs).withInbound c cs = s.withInbound c cs := by
  simp [withInbound, Function.comp_def]

theorem get?_withInbound : (s.withInbound c bs).get? d = (s.get? d).map (fill c bs d) := by
  simp only [get?, withInbound]
  induction s.connections with
  | nil => rfl
  | cons row rows ih =>
    obtain ⟨e, conn⟩ := row
    simp only [List.map_cons, List.lookup_cons]
    cases same : d == e with
    | false => exact ih
    | true => rw [eq_of_beq same]; rfl

theorem withInbound_set :
    (s.withInbound c bs).set d (fill c bs d conn) = (s.set d conn).withInbound c bs := by
  simp only [set, withInbound, List.map_map]
  congr 1
  refine List.map_congr_left fun row _ => ?_
  by_cases here : row.1 = d
  · simp [here]
  · simp [here]

/-- What waits on the connection that is put there does not matter. -/
theorem withInbound_set_self :
    (s.withInbound c bs).set c (fill c cs c conn) = (s.set c conn).withInbound c cs := by
  simp only [set, withInbound, List.map_map]
  congr 1
  refine List.map_congr_left fun row _ => ?_
  by_cases here : row.1 = c
  · simp [here]
  · simp [here, fill_of_ne]

theorem withInbound_giveBack : (s.withInbound c bs).giveBack = s.giveBack.withInbound c bs := by
  cases waiting : s.queue with
  | nil =>
    have waiting' : (s.withInbound c bs).queue = [] := waiting
    rw [giveBack_of_nobody waiting, giveBack_of_nobody waiting']
    rfl
  | cons d queue =>
    have waiting' : (s.withInbound c bs).queue = d :: queue := waiting
    have filled := s.get?_withInbound c d bs
    cases found : s.get? d with
    | none =>
      rw [found] at filled
      have found : get? { s with queue } d = none := found
      have filled : get? { s.withInbound c bs with queue } d = none := filled
      simp only [giveBack, waiting, waiting', found, filled]
      rfl
    | some conn =>
      rw [found] at filled
      rw [giveBack_of_first waiting found, giveBack_of_first waiting' filled]
      exact withInbound_set { s with queue } c d bs conn.granted

theorem withInbound_hire (i : SendId) (method : String) (payload : Bytes) :
    (s.withInbound c bs).hire d (fill c bs d conn) i method payload =
      (s.hire d conn i method payload).withInbound c bs := by
  have same : (s.withInbound c bs).free = s.free := rfl
  simp only [hire, same]
  cases s.free with
  | zero =>
    exact withInbound_set { s with free := 0, queue := s.queue ++ [d] } c d bs
      { conn with reading := .waiting i method payload }
  | succ free =>
    exact withInbound_set { s with free } c d bs { conn with reading := .granted i method payload }

/-! ### Each move -/

variable {s c d bs conn}

theorem withInbound_read? (ne : d ≠ c) :
    (s.withInbound c bs).read? d conn = (s.read? d conn).map (answerWith c bs) := by
  have set (conn : Connection) :
      (s.withInbound c bs).set d conn = (s.set d conn).withInbound c bs := by
    rw [← withInbound_set, fill_of_ne bs conn ne]
  have same : (s.withInbound c bs).limit = s.limit := rfl
  simp only [read?, same]
  cases conn.reading with
  | waiting | granted | stopped => rfl
  | going =>
    cases Frame.read s.limit conn.inbound with
    | invalid rest => exact congrArg (fun s => some (s, [])) (set _)
    | unfinished =>
      simp only
      split
      · exact congrArg (fun s => some (s, [])) (set _)
      · rfl
    | item f rest =>
      simp only
      cases f.head with
      | reply => exact congrArg (fun s => some (s, [])) (set _)
      | call i method n =>
        have hires := s.withInbound_hire c d bs { conn with inbound := rest } i method f.payload
        rw [fill_of_ne bs _ ne] at hires
        exact congrArg (fun s => some (s, [])) hires

theorem withInbound_begin? : (s.withInbound c bs).begin? d (fill c bs d conn) =
    (s.begin? d conn).map (answerWith c bs) := by
  have same : (fill c bs d conn).reading = conn.reading := rfl
  simp only [begin?, same]
  cases conn.reading with
  | going | waiting | stopped => rfl
  | granted i method payload =>
    have begins (holds : List Hold) (call : Running) := withInbound_set { s with holds } c d bs
      { conn with reading := .going, begun := conn.begun + 1, running := conn.running ++ [call] }
    have table : (s.withInbound c bs).table = s.table := rfl
    simp only [table]
    cases (s.table.dispatch method payload).heldBy with
    | none => exact congrArg (fun s => some (s, _)) (begins s.holds _)
    | some key =>
      have holds := begins (s.holds ++ [⟨key, d, conn.begun⟩])
      exact congrArg (fun s => some (s, _)) (holds _)

theorem withInbound_stop? : (s.withInbound c bs).stop? d (fill c bs d conn) =
    (s.stop? d conn).map (answerWith c bs) := by
  have closing : (fill c bs d conn).closing = conn.closing := rfl
  have reading : (fill c bs d conn).reading = conn.reading := rfl
  have stopped := s.withInbound_set c d bs (conn.close (.ok ()))
  simp only [stop?, closing, reading]
  split
  · rfl
  · cases conn.reading with
    | stopped => rfl
    | going => exact congrArg (fun s => some (s, [])) stopped
    | waiting =>
      exact congrArg (fun s => some (s, []))
        (withInbound_set { s with queue := s.queue.filter (· ≠ d) } c d bs (conn.close (.ok ())))
    | granted =>
      have back := (s.set d (conn.close (.ok ()))).withInbound_giveBack c bs
      rw [← stopped] at back
      exact congrArg (fun s => some (s, [])) back

theorem withInbound_finish? (serial : Nat) :
    (s.withInbound c bs).finish? d (fill c bs d conn) serial =
      (s.finish? d conn serial).map (answerWith c bs) := by
  have running : (fill c bs d conn).running = conn.running := rfl
  simp only [finish?, running]
  cases conn.running.find? fun call => call.serial = serial && call.ready with
  | none => rfl
  | some call =>
    have finished := s.withInbound_set c d bs
      { conn.without serial with replies := conn.replies ++ (conn.reply? call).toList }
    have back := withInbound_giveBack (s.set d
      { conn.without serial with replies := conn.replies ++ (conn.reply? call).toList }) c bs
    rw [← finished] at back
    exact congrArg (fun s => some (s, [])) back

theorem withInbound_abandon? (serial : Nat) :
    (s.withInbound c bs).abandon? d (fill c bs d conn) serial =
      (s.abandon? d conn serial).map (answerWith c bs) := by
  have closing : (fill c bs d conn).closing = conn.closing := rfl
  have running : (fill c bs d conn).running = conn.running := rfl
  simp only [abandon?, closing, running]
  split
  · rfl
  · cases conn.running.find? (·.serial = serial) with
    | none => rfl
    | some call =>
      have back := (s.set d (conn.without serial)).withInbound_giveBack c bs
      rw [← withInbound_set] at back
      exact congrArg (fun s => some (s, _)) back

theorem withInbound_write? : (s.withInbound c bs).write? d (fill c bs d conn) =
    (s.write? d conn).map (answerWith c bs) := by
  have replies : (fill c bs d conn).replies = conn.replies := rfl
  have deaf : (fill c bs d conn).deaf = conn.deaf := rfl
  simp only [write?, replies, deaf]
  cases conn.replies with
  | nil => rfl
  | cons f replies =>
    simp only
    split
    · exact congrArg (fun s => some (s, [])) (s.withInbound_set c d bs { conn with
        replies := []
        writeError := some (.io .brokenPipe)
        closing := true })
    · exact congrArg (fun s => some (s, _)) (s.withInbound_set c d bs { conn with replies })

theorem withInbound_end? : (s.withInbound c bs).end? d (fill c bs d conn) =
    (s.end? d conn).map (answerWith c bs) := by
  have reading : (fill c bs d conn).reading = conn.reading := rfl
  have running : (fill c bs d conn).running = conn.running := rfl
  have replies : (fill c bs d conn).replies = conn.replies := rfl
  have result : (fill c bs d conn).result = conn.result := rfl
  simp only [end?, reading, running, replies, result]
  split
  next r _ _ _ _ =>
    exact congrArg (fun s => some (s, _))
      (s.withInbound_set c d bs { conn with result := some (conn.verdict r) })
  next => rfl

theorem withInbound_release (key : Int64) :
    (s.withInbound c bs).release key = answerWith c bs (s.release key) := by
  have same : (s.withInbound c bs).holds = s.holds := rfl
  simp only [release, same]
  cases takeHold key s.holds with
  | none => rfl
  | some p =>
    obtain ⟨h, holds⟩ := p
    have filled : get? { s.withInbound c bs with holds } h.connection = _ :=
      get?_withInbound { s with holds } c h.connection bs
    simp only [filled]
    cases get? { s with holds } h.connection with
    | none => rfl
    | some conn =>
      have running : (fill c bs h.connection conn).running = conn.running := rfl
      simp only [Option.map_some, running]
      split
      · exact congrArg (·, _) (withInbound_set { s with holds } c h.connection bs
          { conn with running := makeReady h.serial conn.running })
      · rfl

theorem withInbound_openNew (new : d = c → bs = []) :
    (s.withInbound c bs).openNew d = (s.openNew d).withInbound c bs := by
  have fresh : fill c bs d {} = {} := by
    by_cases same : d = c
    · subst same
      rw [fill_self, new rfl]
    · exact fill_of_ne bs {} same
  simp [openNew, withInbound, fresh]

theorem withInbound_bind {f g : Connection → Option (Server × List Note)}
    (same : ∀ conn, f (fill c bs d conn) = (g conn).map (answerWith c bs)) :
    ((s.withInbound c bs).get? d).bind f = ((s.get? d).bind g).map (answerWith c bs) := by
  rw [get?_withInbound]
  cases s.get? d with
  | none => rfl
  | some conn => exact same conn

/-- All other events are what they are, whatever bytes wait. -/
theorem withInbound_step? {e : Event} (elsewhere : e.Elsewhere c)
    (new : s.get? c = none → bs = []) :
    (s.withInbound c bs).step? e = (s.step? e).map (answerWith c bs) := by
  cases e with
  | opens d =>
    simp only [step?, get?_withInbound, Option.isSome_map]
    cases unknown : s.get? d with
    | some => rfl
    | none =>
      refine congrArg (fun s => some (s, [])) (withInbound_openNew fun same => new ?_)
      rw [← same, unknown]
  | releases key => exact congrArg some (withInbound_release key)
  | arrives d more =>
    refine withInbound_bind fun conn => ?_
    show (if conn.hungUp = true then _ else _) = Option.map _ (if conn.hungUp = true then _ else _)
    split
    · rfl
    · have put := s.withInbound_set c d bs { conn with inbound := conn.inbound ++ more }
      rw [fill_of_ne _ _ elsewhere] at put ⊢
      exact congrArg (fun s => some (s, [])) put
  | hangsUp d =>
    refine withInbound_bind fun conn => ?_
    show (if conn.hungUp = true then _ else _) = Option.map _ (if conn.hungUp = true then _ else _)
    split
    · rfl
    · exact congrArg (fun s => some (s, [])) (s.withInbound_set c d bs { conn with hungUp := true })
  | deafens d =>
    refine withInbound_bind fun conn => ?_
    show (if conn.deaf = true then _ else _) = Option.map _ (if conn.deaf = true then _ else _)
    split
    · rfl
    · exact congrArg (fun s => some (s, [])) (s.withInbound_set c d bs { conn with deaf := true })
  | reads d =>
    refine withInbound_bind fun conn => ?_
    rw [fill_of_ne bs conn elsewhere]
    exact withInbound_read? elsewhere
  | begins d => exact withInbound_bind fun conn => withInbound_begin?
  | stops d => exact withInbound_bind fun conn => withInbound_stop?
  | finishes d serial => exact withInbound_bind fun conn => withInbound_finish? serial
  | abandons d serial => exact withInbound_bind fun conn => withInbound_abandon? serial
  | writes d => exact withInbound_bind fun conn => withInbound_write?
  | ends d => exact withInbound_bind fun conn => withInbound_end?

end

/-! ## The connection itself -/

section
variable {s s' : Server} {c : ConnectionId} {conn : Connection} {e : Event} {notes : List Note}
  {f : Frame} {bs cs rest : Bytes} {n : Nat}

/-- Only the client ends its sending, and no connection is forgotten. -/
theorem hungUp_of_step? (step : s.step? e = some (s', notes)) (other : e ≠ .hangsUp c) :
    (s'.get? c).map (·.hungUp) = (s.get? c).map (·.hungUp) ∨
      (s'.get? c).map (·.hungUp) = some false := by
  have granted (found : Option Connection) :
      (found.map Connection.granted).map (·.hungUp) = found.map (·.hungUp) := by
    cases found <;> rfl
  by_cases away : s.target? e = some c
  · have none : ∀ b, e ≠ .hangsUp b := by
      rintro b rfl
      exact other (congrArg _ (Option.some.inj away))
    cases effect_of_step? step with
    | @opens d unknown =>
      obtain rfl := Option.some.inj away
      exact .inr (by rw [get?_openNew_self unknown]; rfl)
    | releasesNobody => exact .inl rfl
    | @releases key d old conn' _ found _ meets concerns
    | @moves _ d old conn' _ _ _ found _ meets concerns =>
      refine .inl ?_
      by_cases here : c = d
      · subst here
        rw [found]
        rcases meets.get?_self found with now | now
        · simp [now, concerns.hungUp none]
        · simp [now, Connection.granted, concerns.hungUp none]
      · rcases meets.get?_of_ne here with same | same
        · rw [same]
        · rw [same, granted]
  · rcases (spares_of_step? away step).row with same | same
    · exact .inl (by rw [same])
    · exact .inl (by rw [same, granted])

theorem isSome_of_hangsUp (step : s.step? (.hangsUp c) = some (s', notes)) :
    (s'.get? c).isSome := by
  obtain ⟨conn, found, step⟩ := Option.bind_eq_some_iff.1 step
  split at step
  next => cases step
  next =>
    obtain ⟨rfl, -⟩ := by simpa using step
    simp [get?_set, found]

theorem Pool.map_connections (pool : Pool n s) {f : ConnectionId × Connection → _}
    (same : ∀ d conn, s.get? d = some conn → f (d, conn) = (d, conn)) :
    s.connections.map f = s.connections := by
  conv => rhs; rw [← List.map_id s.connections]
  exact List.map_congr_left fun row member => same _ _ (pool.get?_of_mem member)

theorem Pool.set_of_get? (pool : Pool n s) (found : s.get? c = some conn) : s.set c conn = s := by
  have same := pool.map_connections (f := fun (d, old) => (d, if d = c then conn else old)) ?_
  · rw [set, same]
  · intro d old there
    by_cases here : d = c
    · subst here
      simp [Option.some.inj (found.symm.trans there)]
    · simp [here]

theorem Pool.withInbound_of_get? (pool : Pool n s) (found : s.get? c = some conn) :
    s.withInbound c conn.inbound = s := by
  have same := pool.map_connections (f := fun (d, old) => (d, fill c conn.inbound d old)) ?_
  · rw [withInbound, same]
  · intro d old there
    by_cases here : d = c
    · subst here
      simp [Option.some.inj (found.symm.trans there)]
    · simp [fill_of_ne, here]

theorem withInbound_arrives (pool : Pool n s) (found : s.get? c = some conn)
    (sends : conn.hungUp = false) : (s.withInbound c cs).step? (.arrives c bs) =
      some (s.withInbound c (cs ++ bs), []) := by
  have put := s.withInbound_set_self c cs (cs ++ bs) conn
  rw [pool.set_of_get? found] at put
  simp [step?, get?_withInbound, found, sends, ← put]

theorem withInbound_reads_reply {i : SendId} {status : ReplyStatus} {k : UInt32} (pool : Pool n s)
    (found : s.get? c = some conn) (going : conn.reading = .going)
    (read : Frame.read s.limit cs = .item f rest) (head : f.head = .reply i status k) :
    (s.withInbound c cs).step? (.reads c) = some (s.withInbound c rest, []) := by
  have limit : (s.withInbound c cs).limit = s.limit := rfl
  have put := s.withInbound_set_self c cs rest conn
  rw [pool.set_of_get? found] at put
  simp [step?, read?, get?_withInbound, found, going, limit, read, head, ← put]

theorem withInbound_reads_call {i : SendId} {method : String} {k : UInt32}
    (found : s.get? c = some conn) (going : conn.reading = .going)
    (read : Frame.read s.limit cs = .item f rest) (head : f.head = .call i method k) :
    (s.withInbound c cs).step? (.reads c) =
      some ((s.hire c conn i method f.payload).withInbound c rest, []) := by
  have limit : (s.withInbound c cs).limit = s.limit := rfl
  have free : (s.withInbound c cs).free = s.free := rfl
  simp only [step?, read?, get?_withInbound, found, limit, hire, free, bind, Option.map_some,
    Option.bind_some, fill_self, going, read, head]
  cases s.free with
  | zero =>
    have put := withInbound_set_self { s with free := 0, queue := s.queue ++ [c] } c cs rest
      { conn with reading := .waiting i method f.payload }
    rw [fill_self] at put
    exact congrArg (fun s => some (s, [])) put
  | succ free =>
    have put := withInbound_set_self { s with free } c cs rest
      { conn with reading := .granted i method f.payload }
    rw [fill_self] at put
    exact congrArg (fun s => some (s, [])) put

/-- A reader that is at something else takes no frame. -/
theorem withInbound_reads_busy (busy : ∀ conn, s.get? c = some conn → conn.reading ≠ .going) :
    (s.withInbound c cs).step? (.reads c) = none := by
  simp only [step?, get?_withInbound]
  cases found : s.get? c with
  | none => rfl
  | some conn =>
    have busy := busy conn found
    simp only [bind, Option.map_some, Option.bind_some, fill_self, read?]

/-- A part of a frame is waited for. -/
theorem withInbound_reads_part (found : s.get? c = some conn) (sends : conn.hungUp = false)
    (part : Frame.read s.limit cs = .unfinished) :
    (s.withInbound c cs).step? (.reads c) = none := by
  have limit : (s.withInbound c cs).limit = s.limit := rfl
  simp only [step?, get?_withInbound, found, bind, Option.map_some, Option.bind_some, fill_self,
    read?, limit, part, sends]
  cases conn.reading <;> rfl

end

/-! ## Foreign replies -/

/-- All foreign frames are replies. -/
def Replies (items : List (Frame × Bool)) : Prop :=
  ∀ f, (f, false) ∈ items → ∃ i status n, f.head = .reply i status n

/-- The second server has got foreign replies on connection `c`, too; `m` are the bytes that wait
there, and `more` are to come. -/
structure Beside (c : ConnectionId) (items : List (Frame × Bool)) (m more : Marked)
    (s t : Server) : Prop where
  eq : t = s.withInbound c m.all
  own : s.withInbound c m.own = s
  pool : ∃ n, Pool n s
  woven : Woven s.limit items (m ++ more)
  new : s.get? c = none → m = []
  replies : Replies items
  ended : ∀ conn, s.get? c = some conn → conn.hungUp = true → more = []

section
variable {s s' t t' : Server} {c : ConnectionId} {e e' : Event} {notes : List Note}
  {items items' : List (Frame × Bool)} {m m' more more' : Marked}

/-- After a step of the first one it is a question of the bytes alone. -/
theorem Beside.after (h : Beside c items m more s t) (step : s.step? e = some (s', notes))
    (eq : t' = s'.withInbound c m'.all) (own : s'.withInbound c m'.own = s')
    (woven : Woven s.limit items' (m' ++ more')) (fewer : items' ⊆ items)
    (new : s.get? c = none → m' = []) (less : more = [] → more' = [])
    (last : e = .hangsUp c → more' = []) :
    Beside c items' m' more' s' t' where
  eq := eq
  own := own
  pool := h.pool.imp fun n pool => pool.effect (effect_of_step? step)
  woven := (effect_of_step? step).fixed.2 ▸ woven
  replies f member := h.replies f (fewer member)
  new none := by
    refine new ?_
    by_cases is : e = .hangsUp c
    · subst is
      exact absurd (isSome_of_hangsUp step) (by simp [none])
    · rcases hungUp_of_step? step is with same | opened
      · simpa [none] using same.symm
      · simp [none] at opened
  ended conn found gone := by
    by_cases is : e = .hangsUp c
    · exact last is
    · rcases hungUp_of_step? step is with same | opened
      · obtain ⟨old, there, before⟩ := Option.map_eq_some_iff.1 (same.symm.trans (congrArg _ found))
        exact less (h.ended old there (before.trans gone))
      · simp [found, gone] at opened

/-- What an event makes of both: they are beside each other and show the same. -/
def Pair (c : ConnectionId) (items : List (Frame × Bool)) (m more : Marked)
    (p q : Server × List Note) : Prop :=
  Beside c items m more p.1 q.1 ∧ p.2 = q.2

/-- If the first one can answer, so can the second. -/
theorem Pair.second (step : s.step? e = some (s', notes))
    (both : Option.Rel (Pair c items m more) (s.step? e) (t.step? e')) :
    ∃ t', t.step? e' = some (t', notes) ∧ Beside c items m more s' t' := by
  rw [step] at both
  obtain ⟨⟨t', told⟩, second, beside, same⟩ := exists_of_rel both
  cases same
  exact ⟨t', second, beside⟩

/-- If the second one can answer, so can the first. -/
theorem Pair.first (step : t.step? e' = some (t', notes))
    (both : Option.Rel (Pair c items m more) (s.step? e) (t.step? e')) :
    ∃ s', s.step? e = some (s', notes) ∧ Beside c items m more s' t' := by
  rw [step] at both
  obtain ⟨⟨s', told⟩, first, beside, same⟩ := exists_of_rel_right both
  cases same
  exact ⟨s', first, beside⟩

/-- Events that leave the bytes alone are the same for both. -/
theorem Beside.elsewhere (h : Beside c items m more s t) (elsewhere : e.Elsewhere c)
    (last : e = .hangsUp c → more = []) :
    Option.Rel (Pair c items m more) (s.step? e) (t.step? e) := by
  have all : (s.withInbound c m.all).step? e = _ :=
    withInbound_step? elsewhere fun none => by rw [h.new none]; rfl
  have own : (s.withInbound c m.own).step? e = _ :=
    withInbound_step? elsewhere fun none => by rw [h.new none]; rfl
  rw [← h.eq] at all
  rw [h.own] at own
  cases step : s.step? e with
  | none =>
    rw [all, step]
    exact .none
  | some answer =>
    obtain ⟨s', notes⟩ := answer
    rw [step] at own
    rw [all, step]
    have same : s'.withInbound c m.own = s' := (congrArg (·.1) (Option.some.inj own)).symm
    exact .some ⟨h.after step rfl same h.woven (fun _ => id) h.new id last, rfl⟩

/-- Bytes arrive, the foreign ones only at the second server. -/
theorem Beside.arrive {n : Marked} (h : Beside c items m (n ++ more) s t) :
    Option.Rel (Pair c items (m ++ n) more) (s.step? (.arrives c n.own))
      (t.step? (.arrives c n.all)) := by
  cases found : s.get? c with
  | none => simp [step?, h.eq, get?_withInbound, found]
  | some conn =>
    cases sends : conn.hungUp with
    | true => simp [step?, h.eq, get?_withInbound, found, sends]
    | false =>
      obtain ⟨k, pool⟩ := h.pool
      have own : (s.withInbound c m.own).step? (.arrives c n.own) = _ :=
        withInbound_arrives pool found sends
      have all : (s.withInbound c m.all).step? (.arrives c n.all) = _ :=
        withInbound_arrives pool found sends
      rw [h.own] at own
      rw [← h.eq] at all
      rw [own, all]
      refine .some ⟨h.after own ?_ ?_ ?_ (fun _ => id) ?_ ?_ (by simp), rfl⟩
      · simp
      · simp
      · simpa using h.woven
      · simp [found]
      · exact fun none => (List.append_eq_nil_iff.1 none).2

/-- What a read is for both. -/
inductive Reads (c : ConnectionId) (items : List (Frame × Bool)) (m more : Marked) (s t : Server) :
    Prop
  /-- The second server has a foreign reply before it. -/
  | foreign {f : Frame} {later : List (Frame × Bool)} {m' : Marked} {t' : Server} :
    items = (f, false) :: later → t.step? (.reads c) = some (t', []) →
    Beside c later m' more s t' → Reads c items m more s t
  | own {f : Frame} {later : List (Frame × Bool)} {m' : Marked} {s' t' : Server} :
    items = (f, true) :: later → s.step? (.reads c) = some (s', []) →
    t.step? (.reads c) = some (t', []) → Beside c later m' more s' t' → Reads c items m more s t
  | neither : s.step? (.reads c) = none → t.step? (.reads c) = none → Reads c items m more s t
  | rest {bs cs : Bytes} : items = [] → m = .mark true bs → more = .mark true cs → t = s →
    Reads c items m more s t

theorem Beside.reads (h : Beside c items m more s t) : Reads c items m more s t := by
  by_cases going : ∃ conn, s.get? c = some conn ∧ conn.reading = .going
  · obtain ⟨conn, found, going⟩ := going
    obtain ⟨n, pool⟩ := h.pool
    have opened {later : Marked} : s.get? c = none → later = [] := by simp [found]
    cases h.woven.front with
    | @foreign f later _ m' _ read own _ woven =>
      obtain ⟨i, status, k, head⟩ := h.replies f List.mem_cons_self
      have all := withInbound_reads_reply pool found going read head
      rw [← h.eq] at all
      refine .foreign rfl all ⟨rfl, ?_, h.pool, woven, opened, fun g other => ?_, h.ended⟩
      · rw [own, h.own]
      · exact h.replies g (List.mem_cons_of_mem _ other)
    | @own f later _ m' _ read read' woven =>
      -- the server after the read, but for the bytes that are left
      obtain ⟨u, own, all⟩ : ∃ u, (s.withInbound c m.own).step? (.reads c) =
          some (withInbound u c m'.own, []) ∧
          (s.withInbound c m.all).step? (.reads c) = some (u.withInbound c m'.all, []) := by
        cases head : f.head with
        | reply =>
          exact ⟨s, withInbound_reads_reply pool found going read' head,
            withInbound_reads_reply pool found going read head⟩
        | call i method k =>
          exact ⟨s.hire c conn i method f.payload, withInbound_reads_call found going read' head,
            withInbound_reads_call found going read head⟩
      rw [h.own] at own
      rw [← h.eq] at all
      refine .own rfl own all
        (h.after own ?_ ?_ woven (List.subset_cons_self _ _) opened id (by simp))
      · simp
      · simp
    | part read read' missing =>
      have sends : conn.hungUp = false :=
        Bool.eq_false_iff.2 fun gone => missing (h.ended conn found gone)
      have own := withInbound_reads_part found sends read'
      have all := withInbound_reads_part found sends read
      rw [h.own] at own
      rw [← h.eq] at all
      exact .neither own all
    | @rest bs cs =>
      refine .rest rfl rfl rfl ?_
      rw [h.eq, Marked.all_mark, ← Marked.own_mark_true bs, h.own]
  · have busy : ∀ conn, s.get? c = some conn → conn.reading ≠ .going :=
      fun conn found reads => going ⟨conn, found, reads⟩
    have own : (s.withInbound c m.own).step? (.reads c) = none := withInbound_reads_busy busy
    have all : (s.withInbound c m.all).step? (.reads c) = none := withInbound_reads_busy busy
    rw [h.own] at own
    rw [← h.eq] at all
    exact .neither own all

/-- Own bytes alone are the same for both, whatever a read makes of them. -/
theorem Beside.of_rest {bs cs : Bytes} (h : Beside c [] (.mark true bs) (.mark true cs) s s)
    (step : s.step? (.reads c) = some (s', notes)) :
    ∃ bs', Beside c [] (.mark true bs') (.mark true cs) s' s' := by
  obtain ⟨n, pool⟩ := h.pool
  have pool' := pool.effect (effect_of_step? step)
  obtain ⟨old, found, -⟩ := Option.bind_eq_some_iff.1 step
  have stays : (s'.get? c).isSome := by
    rcases hungUp_of_step? (c := c) step (by simp) with same | opened
    · simpa [found] using congrArg Option.isSome same
    · simpa using congrArg Option.isSome opened
  obtain ⟨conn, found'⟩ := Option.isSome_iff_exists.1 stays
  have same := pool'.withInbound_of_get? found'
  refine ⟨conn.inbound, h.after step ?_ ?_ ?_ (fun _ => id) ?_ id (by simp)⟩
  · rw [Marked.all_mark, same]
  · rw [Marked.own_mark_true, same]
  · rw [← Marked.mark_append]
    exact .rest _
  · exact fun none => by simp [none] at found

/-- If the second server cannot move, no more can the first. -/
theorem Beside.settled (h : Beside c items m more s t) (settled : t.Settled) : s.Settled := by
  intro e move
  have same : t.moves = s.moves := by
    rw [h.eq, moves, withInbound, List.flatMap_map]
    rfl
  have stuck := settled e (same ▸ move)
  have elsewhere (elsewhere : e.Elsewhere c) (other : e ≠ .hangsUp c) : s.step? e = none := by
    have both := h.elsewhere elsewhere fun is => absurd is other
    exact (none_iff_of_rel both).1 stuck
  obtain ⟨⟨d, conn⟩, -, move⟩ := List.mem_flatMap.1 move
  simp only [Connection.moves, List.mem_append, List.mem_cons, List.not_mem_nil, or_false,
    List.mem_flatMap] at move
  obtain (rfl | rfl | rfl | rfl | rfl) | ⟨call, -, rfl | rfl⟩ := move
  · by_cases here : d = c
    · subst here
      cases h.reads with
      | foreign _ step | own _ _ step => simp [step] at stuck
      | neither none => exact none
      | rest _ _ _ same => rw [← same]; exact stuck
    · exact elsewhere here (by simp)
  all_goals exact elsewhere trivial (by simp)

end

/-! ## Runs -/

def Event.isReadOn (c : ConnectionId) : Event → Bool
  | .reads d => d = c
  | _ => false

section
variable {s s' t t' : Server} {c : ConnectionId} {e : Event} {es fs : List Event}
  {shown notes : List Note}
  {items : List (Frame × Bool)} {m more : Marked}

/-- The first server comes beside `t'` with the events `es`, or all of them but some reads of
`c`. -/
def Without (c : ConnectionId) (s : Server) (es : List Event) (notes : List Note) (t' : Server) :
    Prop :=
  ∃ gs s' items' m' more', Fewer (·.isReadOn c) gs es ∧ s.run? gs = some (s', notes) ∧
    Beside c items' m' more' s' t'

/-- A step of both. -/
theorem Without.cons (step : s.step? e = some (s', shown)) (h : Without c s' es notes t') :
    Without c s (e :: es) (shown ++ notes) t' := by
  obtain ⟨gs, s'', items', m', more', fewer, run, beside⟩ := h
  refine ⟨e :: gs, s'', items', m', more', fewer.cons e, ?_, beside⟩
  rw [run?_cons gs step, run]
  rfl

/-- A step of the second one alone. -/
theorem Without.skip (h : Without c s es notes t') : Without c s (.reads c :: es) notes t' := by
  obtain ⟨gs, s', items', m', more', fewer, run, beside⟩ := h
  exact ⟨gs, s', items', m', more', fewer.skip (by simp [Event.isReadOn]), run, beside⟩

theorem elsewhere_of_ne (arrives : ∀ bs, e ≠ .arrives c bs) (reads : e ≠ .reads c) :
    e.Elsewhere c := by
  cases e with
  | arrives d bs => exact fun same => arrives bs (same ▸ rfl)
  | reads d => exact fun same => reads (same ▸ rfl)
  | _ => trivial

/-- What the server does that gets foreign replies, the other one does as well, but for the reads of
those replies. -/
theorem Beside.without (h : Beside c items m more s t)
    (padded : Padded (.arrives c) (.hangsUp c) more es fs) (run : t.run? fs = some (t', notes)) :
    Without c s es notes t' := by
  induction padded generalizing items m s t notes with
  | none =>
    obtain ⟨rfl, rfl⟩ := by simpa [run?] using run
    exact ⟨[], s, items, m, _, .refl _ [], rfl, h⟩
  | bytes _ ih =>
    obtain ⟨u, shown, later, step, rest, rfl⟩ := exists_of_run?_cons run
    obtain ⟨s₁, first, beside⟩ := Pair.first step h.arrive
    exact (ih beside rest).cons first
  | ends _ ih =>
    obtain ⟨u, shown, later, step, rest, rfl⟩ := exists_of_run?_cons run
    obtain ⟨s₁, first, beside⟩ := Pair.first step (h.elsewhere trivial fun _ => rfl)
    exact (ih beside rest).cons first
  | @other more e es fs arrives last _ ih =>
    obtain ⟨u, shown, later, step, rest, rfl⟩ := exists_of_run?_cons run
    by_cases reads : e = .reads c
    · subst reads
      cases h.reads with
      | foreign _ step' beside =>
        obtain ⟨rfl, rfl⟩ := by simpa [step] using step'
        exact (ih beside rest).skip
      | own _ first step' beside =>
        obtain ⟨rfl, rfl⟩ := by simpa [step] using step'
        exact (ih beside rest).cons first
      | neither _ none => simp [none] at step
      | @rest bs cs none here coming same =>
        subst none here coming same
        obtain ⟨bs', beside⟩ := h.of_rest step
        exact (ih beside rest).cons step
    · have both := h.elsewhere (elsewhere_of_ne arrives reads) fun is => absurd is last
      obtain ⟨s₁, first, beside⟩ := Pair.first step both
      exact (ih beside rest).cons first

/-- The second server comes beside `s'` with the events `fs`, and some reads of `c` in between. -/
def Along (c : ConnectionId) (t : Server) (fs : List Event) (notes : List Note) (s' : Server) :
    Prop :=
  ∃ gs t' items' m' more', Fewer (·.isReadOn c) fs gs ∧ t.run? gs = some (t', notes) ∧
    Beside c items' m' more' s' t'

/-- A step of both. -/
theorem Along.cons (step : t.step? e = some (t', shown)) (h : Along c t' fs notes s') :
    Along c t (e :: fs) (shown ++ notes) s' := by
  obtain ⟨gs, t'', items', m', more', fewer, run, beside⟩ := h
  refine ⟨e :: gs, t'', items', m', more', fewer.cons e, ?_, beside⟩
  rw [run?_cons gs step, run]
  rfl

/-- A step of the second one alone. -/
theorem Along.skip (step : t.step? (.reads c) = some (t', [])) (h : Along c t' fs notes s') :
    Along c t fs notes s' := by
  obtain ⟨gs, t'', items', m', more', fewer, run, beside⟩ := h
  refine ⟨.reads c :: gs, t'', items', m', more', fewer.skip (by simp [Event.isReadOn]), ?_, beside⟩
  rw [run?_cons gs step, run]
  rfl

/-- Before the second server reads what the first one reads, it reads the foreign replies that stand
there. -/
theorem Beside.reads_along (h : Beside c items m more s t)
    (step : s.step? (.reads c) = some (s', shown)) :
    ∃ items' m' t', Beside c items' m' more s' t' ∧ ∀ fs notes s'', Along c t' fs notes s'' →
      Along c t (.reads c :: fs) (shown ++ notes) s'' := by
  induction items generalizing m t with
  | nil =>
    cases h.reads with
    | foreign none | own none => cases none
    | neither none => simp [none] at step
    | rest _ here coming same =>
      subst here coming same
      obtain ⟨bs, beside⟩ := h.of_rest step
      exact ⟨[], _, s', beside, fun _ _ _ => .cons step⟩
  | cons item items ih =>
    cases h.reads with
    | foreign front skips beside =>
      cases front
      obtain ⟨items', m', t', beside', follows⟩ := ih beside
      exact ⟨items', m', t', beside', fun fs notes s'' h => .skip skips (follows fs notes s'' h)⟩
    | own front first second beside =>
      obtain ⟨rfl, rfl⟩ := by simpa [step] using first
      exact ⟨_, _, _, beside, fun _ _ _ => .cons second⟩
    | neither none => simp [none] at step
    | rest none => cases none

/-- What the server does that gets the client's own frames alone, the other one can do as well; it
reads the foreign replies in between. -/
theorem Beside.along (h : Beside c items m more s t)
    (padded : Padded (.arrives c) (.hangsUp c) more es fs) (run : s.run? es = some (s', notes)) :
    Along c t fs notes s' := by
  induction padded generalizing items m s t notes with
  | none =>
    obtain ⟨rfl, rfl⟩ := by simpa [run?] using run
    exact ⟨[], t, items, m, _, .refl _ [], rfl, h⟩
  | bytes _ ih =>
    obtain ⟨u, shown, later, step, rest, rfl⟩ := exists_of_run?_cons run
    obtain ⟨t₁, second, beside⟩ := Pair.second step h.arrive
    exact (ih beside rest).cons second
  | ends _ ih =>
    obtain ⟨u, shown, later, step, rest, rfl⟩ := exists_of_run?_cons run
    obtain ⟨t₁, second, beside⟩ := Pair.second step (h.elsewhere trivial fun _ => rfl)
    exact (ih beside rest).cons second
  | @other more e es fs arrives last _ ih =>
    obtain ⟨u, shown, later, step, rest, rfl⟩ := exists_of_run?_cons run
    by_cases reads : e = .reads c
    · subst reads
      obtain ⟨items', m', t₁, beside, second⟩ := h.reads_along step
      exact second _ _ _ (ih beside rest)
    · have both := h.elsewhere (elsewhere_of_ne arrives reads) fun is => absurd is last
      obtain ⟨t₁, second, beside⟩ := Pair.second step both
      exact (ih beside rest).cons second

end

end RemoteCall.Server
