import RemoteCall.Proofs.Server.Workers

/-!
# First come, first served

A connection that waits is passed by no other one: as long as it waits, whoever did not stand before
it in the queue (`Behind`) gets no worker. With the sum over all workers this is what the pool
promises (`workers_free_or_hired`).
-/

namespace RemoteCall.Server

/-! ## Workers that were got -/

/-- How many calls of a connection have got a worker so far, but for those that never began. -/
def Connection.hires (conn : Connection) : Nat := conn.begun + conn.reading.workers

/-- How many calls of that connection have got a worker so far. -/
def hires (s : Server) (c : ConnectionId) : Nat := ((s.get? c).map (·.hires)).getD 0

/-- The connection waits after each of the events. -/
def WaitsThroughout (s : Server) (c : ConnectionId) (es : List Event) : Prop :=
  ∀ early t notes, early <+: es → s.run? early = some (t, notes) → t.Waits c

/-- Only a free worker that is taken is one more. -/
theorem Change.hires_le {table : MethodTable} {limit : UInt32} {c : ConnectionId}
    {conn conn' : Connection} {d : Demand} {bs : Bytes} {notes : List Note}
    (h : Change table limit c conn d bs notes conn') :
    conn'.hires ≤ conn.hires + d.taken := by
  cases h with
  | arrives | hangsUp | deafens | readies | skips | finishes | abandons | writes | failsToWrite
  | isOver => exact Nat.le_refl _
  | hires going | queues going | breaks going | runsOut going | stops _ going
  | stopsWaiting _ going | stopsGranted _ going =>
    simp [Connection.hires, Connection.close, going, Reading.workers, Demand.taken]
  | begins granted => simp [Connection.hires, granted, Reading.workers, Demand.taken]

/-! ## Places in the queue -/

/-- In the queue `d` does not stand before `c`. -/
def Behind (queue : List ConnectionId) (c d : ConnectionId) : Prop :=
  ∃ front back, queue = front ++ c :: back ∧ d ∉ front

section
variable {s s' : Server} {b c d : ConnectionId} {old conn : Connection}

theorem hires_set_self (found : s.get? c = some old) : (s.set c conn).hires c = conn.hires := by
  have isOpen : (s.get? c).isSome := by simp [found]
  simp [hires, get?_set_self conn isOpen]

theorem hires_set_of_ne (ne : d ≠ c) : (s.set c conn).hires d = s.hires d := by
  simp [hires, get?_set_of_ne s conn ne]

theorem hires_of_get? (found : s.get? c = some conn) : s.hires c = conn.hires := by
  simp [hires, found]

/-- The connection that changes hires nobody, and no other one does. -/
theorem hires_set_le (found : s.get? b = some old) (less : conn.hires ≤ old.hires) :
    (s.set b conn).hires d ≤ s.hires d := by
  by_cases same : d = b
  · subst same
    rw [hires_set_self found, hires_of_get? found]
    exact less
  · exact Nat.le_of_eq (hires_set_of_ne same)

/-- A worker that is given back does not go to `d` before it goes to `c`. -/
theorem Behind.giveBack (behind : Behind s.queue c d) (waits : s.Waits c)
    (still : s.giveBack.Waits c) :
    Behind s.giveBack.queue c d ∧ s.giveBack.hires d = s.hires d := by
  obtain ⟨front, back, order, first⟩ := behind
  cases front with
  | nil =>
    obtain ⟨now, found, -⟩ := waits
    rw [giveBack_of_first order found] at still
    exact absurd ((waits_set_self (s := { s with queue := back }) found).1 still)
      (Reading.not_waits_grant _)
  | cons h front =>
    simp only [List.mem_cons, not_or] at first
    obtain ⟨ne, first⟩ := first
    cases found : s.get? h with
    | none =>
      have gone : get? { s with queue := front ++ c :: back } h = none := found
      have rest : s.giveBack = { s with queue := front ++ c :: back } := by
        simp [Server.giveBack, order, gone]
      rw [rest]
      exact ⟨⟨front, back, rfl, first⟩, rfl⟩
    | some now =>
      rw [giveBack_of_first order found]
      exact ⟨⟨front, back, rfl, first⟩, hires_set_of_ne ne⟩

theorem Behind.changes {n : Nat} {k : Demand} {bs : Bytes} {notes : List Note} (pool : Pool n s)
    (found : s.get? b = some old) (change : Change s.table s.limit b old k bs notes conn)
    (meets : Meets s b conn k s') (behind : Behind s.queue c d) (waits : s.Waits c)
    (still : s'.Waits c) : Behind s'.queue c d ∧ s'.hires d ≤ s.hires d := by
  have less := change.hires_le
  have inQueue : c ∈ s.queue := (pool.queued c).2 waits
  cases meets with
  | nothing holds => exact ⟨behind, hires_set_le (s := { s with holds }) found less⟩
  | takes some =>
    have none := pool.busy (List.ne_nil_of_mem inQueue)
    omega
  | joins =>
    obtain ⟨front, back, order, first⟩ := behind
    refine ⟨⟨front, back ++ [b], ?_, first⟩,
      hires_set_le (s := { s with queue := s.queue ++ [b] }) found less⟩
    simp [order]
  | leaves =>
    have ne : c ≠ b := by
      rintro rfl
      exact change.fits.2
        ((waits_set_self (s := { s with queue := s.queue.filter (· ≠ c) }) found).1 still)
    obtain ⟨front, back, order, first⟩ := behind
    refine ⟨⟨front.filter (· ≠ b), back.filter (· ≠ b), ?_, ?_⟩,
      hires_set_le (s := { s with queue := s.queue.filter (· ≠ b) }) found less⟩
    · simp [order, List.filter_append, ne]
    · intro early
      exact first (List.mem_filter.1 early).1
  | givesBack =>
    have here : (s.set b conn).Waits c := by
      by_cases same : c = b
      · subst same
        rw [waits_set_self found]
        exact change.fits.2 ((pool.waits_iff found).1 inQueue)
      · exact (waits_set_of_ne same).2 waits
    obtain ⟨order, same⟩ := Behind.giveBack (s := s.set b conn) behind here still
    exact ⟨order, same ▸ hires_set_le found less⟩

theorem Behind.effect {n : Nat} {e : Event} {notes : List Note} (pool : Pool n s)
    (effect : Effect s e s' notes) (behind : Behind s.queue c d) (waits : s.Waits c)
    (still : s'.Waits c) : Behind s'.queue c d ∧ s'.hires d ≤ s.hires d := by
  cases effect with
  | @opens b unknown =>
    refine ⟨behind, ?_⟩
    by_cases same : d = b
    · subst same
      simp [hires, get?_openNew_self unknown, Connection.hires, Reading.workers]
    · simp [hires, get?_openNew_of_ne same]
  | releasesNobody => exact ⟨behind, Nat.le_refl _⟩
  | releases found change meets | moves found change meets =>
    exact behind.changes pool found change meets waits still

/-- As long as `c` waits, nobody gets a worker that began to wait later or does not wait. -/
theorem Behind.steps {n : Nat} {later : List Event} {notes : List Note} (pool : Pool n s)
    (behind : Behind s.queue c d) (steps : Steps step? s later s' notes)
    (throughout : s.WaitsThroughout c later) :
    Pool n s' ∧ Behind s'.queue c d ∧ s'.hires d ≤ s.hires d := by
  induction steps with
  | none => exact ⟨pool, behind, Nat.le_refl _⟩
  | @snoc es t t' e notes more before step ih =>
    have effect := effect_of_step? step
    have earlier : s.WaitsThroughout c es := fun early u shown start =>
      throughout early u shown (start.trans (List.prefix_append es [e]))
    obtain ⟨pool, behind, less⟩ := ih earlier
    have waits := earlier es t notes (List.prefix_refl es) (run?_eq_some_iff.2 before)
    have still := throughout (es ++ [e]) t' (notes ++ more) (List.prefix_refl _)
      (run?_eq_some_iff.2 (before.snoc step))
    obtain ⟨behind, fewer⟩ := behind.effect pool effect waits still
    exact ⟨pool.effect effect, behind, Nat.le_trans fewer less⟩

theorem Pool.behind {n : Nat} (pool : Pool n s) (waits : s.Waits c) (idle : ¬s.Waits d) :
    Behind s.queue c d := by
  obtain ⟨front, back, order⟩ := List.append_of_mem ((pool.queued c).2 waits)
  refine ⟨front, back, order, fun early => idle ((pool.queued d).1 ?_)⟩
  rw [order]
  exact List.mem_append_left _ early

end

/-! ## The whole run -/

/-- At any time of any run, each of the workers is free or has one call. While a connection waits
nobody is free; and from then on, as long as it waits, no worker goes to a connection that did not
wait when it did already. -/
theorem workers_free_or_hired {table : MethodTable} {limit : UInt32} {workers : Nat}
    {es : List Event} {s : Server} {notes : List Note}
    (run : (ofWorkers table limit workers).run? es = some (s, notes)) :
    s.free + s.hired = max workers 1 ∧ s.running ≤ max workers 1 ∧
      (∀ c, s.Waits c → s.free = 0) ∧
      ∀ c d later s' more, s.run? later = some (s', more) → s.WaitsThroughout c later →
        ¬s.Waits d → s'.hires d ≤ s.hires d := by
  have pool := pool_of_steps (run?_eq_some_iff.1 run)
  refine ⟨pool.total, ?_, ?_, ?_⟩
  · have total := pool.total
    have fewer := running_le_hired s
    omega
  · intro c waits
    exact pool.busy (List.ne_nil_of_mem ((pool.queued c).2 waits))
  · intro c d later s' more after throughout idle
    have waits : s.Waits c := throughout [] s [] List.nil_prefix rfl
    exact ((pool.behind waits idle).steps pool (run?_eq_some_iff.1 after) throughout).2.2

/-- The only worker is taken, a second connection waits for it, and a third one comes later. -/
theorem third_connection_gets_no_worker : ∃ bs s notes s',
    (ofWorkers { format := .json } 100 0).run?
      [.opens 1, .opens 2, .opens 3, .arrives 1 bs, .reads 1, .begins 1, .arrives 2 bs, .reads 2] =
        some (s, notes) ∧
    s.Waits 2 ∧ s.free = 0 ∧ s.running = 1 ∧
    s.run? [.arrives 3 bs, .reads 3] = some (s', []) ∧ s'.Waits 3 ∧ s'.hires 3 = 0 := by
  obtain ⟨bs, s, s', notes, run, one, waits, after, third, idle, none, throughout⟩ :
      ∃ bs s s' notes, (ofWorkers { format := .json } 100 0).run?
        [.opens 1, .opens 2, .opens 3, .arrives 1 bs, .reads 1, .begins 1, .arrives 2 bs,
          .reads 2] = some (s, notes) ∧ s.running = 1 ∧ s.Waits 2 ∧
      s.run? [.arrives 3 bs, .reads 3] = some (s', []) ∧ s'.Waits 3 ∧ ¬s.Waits 3 ∧
      s.hires 3 = 0 ∧ s.WaitsThroughout 2 [.arrives 3 bs, .reads 3] := by
    refine ⟨[0, 0, 0, 0, 0, 0, 0, 1], _, _, _, rfl, by rfl, ?_, rfl, ?_, ?_, by rfl, ?_⟩
    · exact ⟨_, rfl, trivial⟩
    · exact ⟨_, rfl, trivial⟩
    · rintro ⟨conn, found, waits⟩
      obtain rfl := Option.some.inj found
      exact waits
    · intro early t shown first start
      simp only [List.prefix_cons_iff, List.prefix_nil] at first
      obtain rfl | ⟨_, rfl, rfl | ⟨_, rfl, rfl⟩⟩ := first
      all_goals
        obtain rfl := congrArg Prod.fst (Option.some.inj start)
        exact ⟨_, rfl, trivial⟩
  obtain ⟨-, -, busy, order⟩ := workers_free_or_hired run
  have kept := order 2 3 _ s' [] after throughout idle
  exact ⟨bs, s, notes, s', run, waits, busy 2 waits, one, after, third, by omega⟩

end RemoteCall.Server
