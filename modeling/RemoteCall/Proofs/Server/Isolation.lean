import Mathlib.Data.List.Infix
import RemoteCall.Proofs.Frame.Stream
import RemoteCall.Proofs.Server.Locality
import RemoteCall.Proofs.Server.Settled

/-!
# Connections do not touch each other

Of a run keep the events that are about one connection (`eventsOn`): its bytes, its moves, and the
releases that let its own calls go on. As long as the connection never waits for a worker, these are
a run of their own, of a server that has no other connection (`Mirrors`), and the connection comes
to the same there (`connection_runs_as_if_alone`).
-/

namespace RemoteCall.Server

/-! ## Connections that need not wait -/

/-- The connection waits for no worker, at no time of the run. -/
def NeverWaits (s : Server) (c : ConnectionId) (es : List Event) : Prop :=
  ∀ early t notes, early <+: es → s.run? early = some (t, notes) → ¬t.Waits c

instance (r : Reading) : Decidable r.Waits :=
  match r with
  | .waiting .. => isTrue trivial
  | .going | .granted .. | .stopped _ => isFalse id

instance (s : Server) (c : ConnectionId) : Decidable (s.Waits c) :=
  inferInstanceAs (Decidable (∃ conn ∈ s.get? c, conn.reading.Waits))

instance (s : Server) (c : ConnectionId) (es : List Event) : Decidable (s.NeverWaits c es) :=
  decidable_of_iff (∀ early ∈ es.inits, ∀ p ∈ s.run? early, ¬p.1.Waits c) <| by
    simp only [List.mem_inits, NeverWaits]
    constructor
    · intro h early t notes first run
      exact h early first (t, notes) run
    · intro h early first p run
      exact h early p.1 p.2 first run

section
variable {s t : Server} {c : ConnectionId} {es fs : List Event} {notes : List Note}

theorem NeverWaits.early (h : s.NeverWaits c (es ++ fs)) : s.NeverWaits c es :=
  fun early t shown first => h early t shown (first.trans (List.prefix_append es fs))

theorem NeverWaits.last (h : s.NeverWaits c es) (steps : Steps step? s es t notes) : ¬t.Waits c :=
  h es t notes (List.prefix_refl es) (run?_eq_some_iff.2 steps)

end

/-! ## A server with that connection alone -/

/-- The second server has of the first one the connection `c` and its holds, and no other one. -/
structure Mirrors (c : ConnectionId) (s t : Server) : Prop where
  table : t.table = s.table
  limit : t.limit = s.limit
  row : t.get? c = s.get? c
  alone : ∀ d, d ≠ c → t.get? d = none
  holds : t.holds = s.holds.filter (·.connection = c)

/-- What a step makes of two such servers: they are such servers again and show the same. -/
def Twins (c : ConnectionId) (p q : Server × List Note) : Prop :=
  Mirrors c p.1 q.1 ∧ q.2 = p.2

section
variable {s t : Server} {c d : ConnectionId} {conn : Connection}

theorem Mirrors.queue_eq_nil {n : Nat} (m : Mirrors c s t) (pool : Pool n t) (idle : ¬s.Waits c) :
    t.queue = [] := by
  refine List.eq_nil_iff_forall_not_mem.2 fun d member => ?_
  obtain ⟨conn, found, waits⟩ := (pool.queued d).1 member
  by_cases same : d = c
  · subst same
    exact idle ⟨conn, m.row.symm.trans found, waits⟩
  · simp [m.alone d same] at found

theorem Mirrors.eq_of_mem {n : Nat} (m : Mirrors c s t) (pool : Pool n t)
    (member : (d, conn) ∈ t.connections) : d = c := by
  by_contra other
  have found := pool.get?_of_mem member
  simp [m.alone d other] at found

/-- Its calls have no more workers than all calls have. -/
theorem Mirrors.hired_le {n k : Nat} (m : Mirrors c s t) (pool : Pool n s) (alone : Pool k t) :
    t.hired ≤ s.hired := by
  have none : t.hiredBesides c = 0 := by
    have nobody : t.connections.filter (·.1 ≠ c) = [] :=
      List.filter_eq_nil_iff.2 fun row member => by simp [m.eq_of_mem alone member]
    rw [hiredBesides, nobody]
    rfl
  have here := pool.hired_eq c
  have there := alone.hired_eq c
  rw [m.row] at there
  omega

/-! ### The parts of a step -/

theorem Mirrors.set (m : Mirrors c s t) (conn : Connection) :
    Mirrors c (s.set c conn) (t.set c conn) where
  table := m.table
  limit := m.limit
  row := by rw [get?_set, get?_set, m.row]
  alone d ne := (get?_set_of_ne t conn ne).trans (m.alone d ne)
  holds := m.holds

/-- A worker that comes back never goes to a connection that is not in the queue. -/
theorem get?_giveBack_of_not_mem (out : c ∉ s.queue) : s.giveBack.get? c = s.get? c := by
  cases waiting : s.queue with
  | nil =>
    rw [giveBack_of_nobody waiting]
    rfl
  | cons d queue =>
    have ne : c ≠ d := by
      rintro rfl
      exact out (by simp [waiting])
    cases found : s.get? d with
    | none =>
      have found : get? { s with queue } d = none := found
      simp only [Server.giveBack, waiting, found]
      rfl
    | some conn =>
      rw [giveBack_of_first waiting found]
      exact get?_set_of_ne _ _ ne

theorem Mirrors.giveBack (m : Mirrors c s t) (out : c ∉ s.queue) (empty : t.queue = []) :
    Mirrors c s.giveBack t.giveBack := by
  rw [giveBack_of_nobody empty]
  refine ⟨?_, ?_, ?_, m.alone, ?_⟩
  · rw [giveBack_table, ← m.table]
  · rw [giveBack_limit, ← m.limit]
  · rw [get?_giveBack_of_not_mem out, ← m.row]
    rfl
  · rw [giveBack_holds, ← m.holds]

/-! ### Events of the connection -/

theorem Mirrors.begin (m : Mirrors c s t) :
    Option.Rel (Twins c) (s.begin? c conn) (t.begin? c conn) := by
  unfold begin?
  cases conn.reading with
  | granted i method payload =>
    simp only [m.table]
    refine .some ⟨Mirrors.set ?_ _, rfl⟩
    refine ⟨rfl, m.limit, m.row, m.alone, ?_⟩
    cases (s.table.dispatch method payload).heldBy <;> simp [m.holds]
  | going | waiting | stopped => exact .none

theorem Mirrors.stop (m : Mirrors c s t) (out : c ∉ s.queue) (empty : t.queue = [])
    (idle : ¬conn.reading.Waits) :
    Option.Rel (Twins c) (s.stop? c conn) (t.stop? c conn) := by
  unfold stop?
  refine rel_ite .none ?_
  cases reading : conn.reading with
  | going => exact .some ⟨m.set _, rfl⟩
  | granted => exact .some ⟨(m.set _).giveBack out empty, rfl⟩
  | waiting => exact absurd (by simp [reading, Reading.Waits]) idle
  | stopped => exact .none

theorem Mirrors.finish (m : Mirrors c s t) (out : c ∉ s.queue) (empty : t.queue = [])
    (serial : Nat) :
    Option.Rel (Twins c) (s.finish? c conn serial) (t.finish? c conn serial) := by
  unfold finish?
  cases conn.running.find? fun call => call.serial = serial && call.ready with
  | none => exact .none
  | some => exact .some ⟨(m.set _).giveBack out empty, rfl⟩

theorem Mirrors.abandon (m : Mirrors c s t) (out : c ∉ s.queue) (empty : t.queue = [])
    (serial : Nat) :
    Option.Rel (Twins c) (s.abandon? c conn serial) (t.abandon? c conn serial) := by
  unfold abandon?
  refine rel_ite .none ?_
  cases conn.running.find? (·.serial = serial) with
  | none => exact .none
  | some => exact .some ⟨(m.set _).giveBack out empty, rfl⟩

theorem Mirrors.write (m : Mirrors c s t) :
    Option.Rel (Twins c) (s.write? c conn) (t.write? c conn) := by
  unfold write?
  cases conn.replies with
  | nil => exact .none
  | cons => exact rel_ite (.some ⟨m.set _, rfl⟩) (.some ⟨m.set _, rfl⟩)

theorem Mirrors.end (m : Mirrors c s t) :
    Option.Rel (Twins c) (s.end? c conn) (t.end? c conn) := by
  unfold end?
  split
  · exact .some ⟨m.set _, rfl⟩
  · exact .none

/-- A call gets a worker at once in both servers. -/
theorem Mirrors.hire (m : Mirrors c s t) (some : s.free ≠ 0) (more : s.free ≤ t.free)
    (i : SendId) (method : String) (payload : Bytes) :
    Mirrors c (s.hire c conn i method payload) (t.hire c conn i method payload) := by
  obtain ⟨n, here⟩ := Nat.exists_eq_succ_of_ne_zero some
  obtain ⟨k, there⟩ := Nat.exists_eq_succ_of_ne_zero (n := t.free) (by omega)
  unfold Server.hire
  rw [here, there]
  refine Mirrors.set ?_ _
  exact ⟨m.table, m.limit, m.row, m.alone, m.holds⟩

/-- The reader goes on in both servers, as it need not wait. -/
theorem Mirrors.read (m : Mirrors c s t) (more : s.free ≤ t.free)
    (found : s.get? c = some conn)
    (served : ∀ s' notes, s.read? c conn = some (s', notes) → ¬s'.Waits c) :
    Option.Rel (Twins c) (s.read? c conn) (t.read? c conn) := by
  unfold read? at served ⊢
  cases reading : conn.reading with
  | waiting | granted | stopped => exact .none
  | going =>
    simp only [reading, m.limit] at served ⊢
    cases item : Frame.read s.limit conn.inbound with
    | invalid rest => exact .some ⟨m.set _, rfl⟩
    | unfinished => exact rel_ite (.some ⟨m.set _, rfl⟩) .none
    | item f rest =>
      simp only [item] at served ⊢
      cases head : f.head with
      | reply => exact .some ⟨m.set _, rfl⟩
      | call i method n =>
        simp only [head] at served ⊢
        refine .some ⟨m.hire ?_ more i method f.payload, rfl⟩
        intro none
        refine served _ _ rfl ?_
        simp only [Server.hire, none]
        exact (waits_set_self (s := { s with queue := s.queue ++ [c] }) found).2 trivial

theorem takeHold_filter {key : Int64} {holds rest : List Hold} {h : Hold}
    (taken : takeHold key holds = some (h, rest)) (mine : h.connection = c) :
    takeHold key (holds.filter (·.connection = c)) = some (h, rest.filter (·.connection = c)) := by
  induction holds generalizing rest with
  | nil => cases taken
  | cons g holds ih =>
    rw [takeHold] at taken
    split at taken
    next first =>
      obtain ⟨rfl, rfl⟩ := by simpa using taken
      simp [mine, takeHold, first]
    next later =>
      obtain ⟨⟨h', rest'⟩, further, same⟩ := Option.map_eq_some_iff.1 taken
      obtain ⟨rfl, rfl⟩ := by simpa using same
      by_cases own : g.connection = c
      · simp [own, takeHold, later, ih further]
      · simp [own, ih further]

/-- The release takes the same hold in both servers. -/
theorem Mirrors.release (m : Mirrors c s t) {key : Int64}
    (here : s.target? (.releases key) = some c) : Twins c (s.release key) (t.release key) := by
  obtain ⟨⟨h, rest⟩, taken, rfl⟩ := Option.map_eq_some_iff.1 here
  have taken' : takeHold key t.holds =
      some (h, rest.filter (·.connection = h.connection)) := by
    rw [m.holds]
    exact takeHold_filter taken rfl
  have m' : Mirrors h.connection { s with holds := rest }
      { t with holds := rest.filter (·.connection = h.connection) } :=
    ⟨m.table, m.limit, m.row, m.alone, rfl⟩
  simp only [Server.release, taken, taken', m'.row]
  cases get? { s with holds := rest } h.connection with
  | none => exact ⟨m', rfl⟩
  | some conn => exact rel_ite ⟨m'.set _, rfl⟩ ⟨m', rfl⟩

/-- An event about the connection is possible in both servers or in neither. -/
theorem Mirrors.step {n : Nat} {e : Event} (m : Mirrors c s t) (pool : Pool n s) (alone : Pool n t)
    (idle : ¬s.Waits c) (here : s.target? e = some c)
    (served : ∀ s' notes, s.step? e = some (s', notes) → ¬s'.Waits c) :
    Option.Rel (Twins c) (s.step? e) (t.step? e) := by
  have out : c ∉ s.queue := fun member => idle ((pool.queued c).1 member)
  have empty := m.queue_eq_nil alone idle
  -- both have `n` workers, and fewer are at work in the second server
  have more : s.free ≤ t.free := by
    have less := m.hired_le pool alone
    have here := pool.total
    have there := alone.total
    omega
  have same := m.row
  have unwaiting : ∀ conn, s.get? c = some conn → ¬conn.reading.Waits :=
    fun conn found waits => idle ⟨conn, found, waits⟩
  cases e with
  | opens d =>
    obtain rfl := Option.some.inj here
    simp only [step?, same]
    cases unknown : s.get? d with
    | some => exact .none
    | none =>
      refine .some ⟨⟨m.table, m.limit, ?_, fun b ne => ?_, m.holds⟩, rfl⟩
      · rw [get?_openNew_self unknown, get?_openNew_self (same.trans unknown)]
      · exact (get?_openNew_of_ne ne).trans (m.alone b ne)
  | arrives d | hangsUp d | deafens d =>
    obtain rfl := Option.some.inj here
    simp only [step?, same]
    exact rel_bind fun conn found => rel_ite .none (.some ⟨m.set _, rfl⟩)
  | releases key => exact .some (m.release here)
  | reads d =>
    obtain rfl := Option.some.inj here
    simp only [step?, same] at served ⊢
    refine rel_bind fun conn found => m.read more found fun s' notes step => ?_
    exact served s' notes (by simpa [found] using step)
  | begins d =>
    obtain rfl := Option.some.inj here
    simp only [step?, same]
    exact rel_bind fun conn _ => m.begin
  | stops d =>
    obtain rfl := Option.some.inj here
    simp only [step?, same]
    exact rel_bind fun conn found => m.stop out empty (unwaiting conn found)
  | finishes d serial =>
    obtain rfl := Option.some.inj here
    simp only [step?, same]
    exact rel_bind fun conn _ => m.finish out empty serial
  | abandons d serial =>
    obtain rfl := Option.some.inj here
    simp only [step?, same]
    exact rel_bind fun conn _ => m.abandon out empty serial
  | writes d =>
    obtain rfl := Option.some.inj here
    simp only [step?, same]
    exact rel_bind fun conn _ => m.write
  | ends d =>
    obtain rfl := Option.some.inj here
    simp only [step?, same]
    exact rel_bind fun conn _ => m.end

/-- What happens elsewhere is nothing to the server that has the connection alone. -/
theorem Mirrors.spared {p : Server × List Note} (m : Mirrors c s t) (idle : ¬s.Waits c)
    (fixed : p.1.table = s.table ∧ p.1.limit = s.limit) (spared : Spares c s p) :
    Mirrors c p.1 t where
  table := m.table.trans fixed.1.symm
  limit := m.limit.trans fixed.2.symm
  row := m.row.trans (spared.get?_eq idle).symm
  alone := m.alone
  holds := m.holds.trans spared.holds.symm

/-! ### Servers that cannot move -/

/-- Whether the reader can go on does not depend on workers. -/
theorem Mirrors.read_none_iff (m : Mirrors c s t) :
    t.read? c conn = none ↔ s.read? c conn = none := by
  unfold read?
  rw [m.limit]
  cases conn.reading with
  | waiting | granted | stopped => exact Iff.rfl
  | going =>
    cases Frame.read s.limit conn.inbound with
    | invalid => simp
    | unfinished => exact rel_ite (R := fun x y => x = none ↔ y = none) (by simp) (by simp)
    | item f rest =>
      simp only
      cases f.head <;> simp

/-- The connection cannot move exactly if the server that has it alone cannot. -/
theorem Mirrors.settled_iff {n : Nat} (m : Mirrors c s t) (pool : Pool n s) (alone : Pool n t)
    (idle : ¬s.Waits c) : t.Settled ↔ s.SettledOn c := by
  have out : c ∉ s.queue := fun member => idle ((pool.queued c).1 member)
  have empty := m.queue_eq_nil alone idle
  have same : ∀ conn, s.get? c = some conn → ∀ e ∈ conn.moves c,
      (t.step? e = none ↔ s.step? e = none) := by
    intro conn found e he
    have found' : t.get? c = some conn := m.row.trans found
    have still : ¬conn.reading.Waits := fun waits => idle ⟨conn, found, waits⟩
    simp only [Connection.moves, List.mem_append, List.mem_cons, List.not_mem_nil, or_false,
      List.mem_flatMap] at he
    obtain (rfl | rfl | rfl | rfl | rfl) | ⟨call, -, rfl | rfl⟩ := he
    · simpa [step?, found, found'] using m.read_none_iff
    · simpa [step?, found, found'] using none_iff_of_rel m.begin
    · simpa [step?, found, found'] using none_iff_of_rel (m.stop out empty still)
    · simpa [step?, found, found'] using none_iff_of_rel m.write
    · simpa [step?, found, found'] using none_iff_of_rel m.end
    · simpa [step?, found, found'] using none_iff_of_rel (m.finish out empty call.serial)
    · simpa [step?, found, found'] using none_iff_of_rel (m.abandon out empty call.serial)
  constructor
  · intro settled conn found e he
    exact (same conn found e he).1 (settled.on c conn (m.row.trans found) e he)
  · intro settled e he
    obtain ⟨⟨d, conn⟩, row, he⟩ := List.mem_flatMap.1 he
    obtain rfl := m.eq_of_mem alone row
    have found := m.row.symm.trans (alone.get?_of_mem row)
    exact (same conn found e he).2 (settled conn found e he)

end

/-! ## The whole run -/

section
variable {table : MethodTable} {limit : UInt32} {workers : Nat} {c : ConnectionId}
  {es : List Event} {s : Server} {notes : List Note}

/-- The events about a connection are a run of a server that has it alone. -/
theorem mirrors_of_steps (steps : Steps step? (ofWorkers table limit workers) es s notes)
    (served : (ofWorkers table limit workers).NeverWaits c es) : ∃ t told,
    Steps step? (ofWorkers table limit workers) ((ofWorkers table limit workers).eventsOn c es)
      t told ∧
    Mirrors c s t ∧ notesOn c told = notesOn c notes := by
  -- on the events: the second server takes those about `c` and stays where it is at all others
  induction steps with
  | none => exact ⟨_, _, .none, ⟨rfl, rfl, rfl, fun _ _ => rfl, rfl⟩, rfl⟩
  | @snoc es u s' e notes more before step ih =>
    obtain ⟨t, told, alone, m, same⟩ := ih served.early
    have idle := served.early.last before
    have pool := pool_of_steps before
    rw [eventsOn_append c (run?_eq_some_iff.2 before), eventsOn_singleton c step, notesOn_append,
      ← same]
    by_cases here : u.target? e = some c
    · have both := m.step pool (pool_of_steps alone) idle here fun v shown other =>
        served.last (before.snoc other)
      rw [step] at both
      obtain ⟨⟨t', told'⟩, step', m', shown⟩ := exists_of_rel both
      obtain rfl : told' = more := shown
      rw [if_pos here]
      exact ⟨t', told ++ told', alone.snoc step', m', notesOn_append ..⟩
    · have spared := spares_of_step? here step
      rw [if_neg here, List.append_nil, spared.unseen, List.append_nil]
      exact ⟨t, told, alone, m.spared idle (effect_of_step? step).fixed spared, rfl⟩

/-- Take a connection that never waits for a worker in a run, whatever happens on the others. The
events about it alone are a run of the same server without any other connection. There the
connection comes to the same state, down to how it ended and what its reader is at, with the same
calls begun and the same replies written in the same order. And it can move there exactly if it can
move here. -/
theorem connection_runs_as_if_alone
    (run : (ofWorkers table limit workers).run? es = some (s, notes))
    (served : (ofWorkers table limit workers).NeverWaits c es) : ∃ t told,
    (ofWorkers table limit workers).run? ((ofWorkers table limit workers).eventsOn c es) =
      some (t, told) ∧
    t.get? c = s.get? c ∧ (∀ d, d ≠ c → t.get? d = none) ∧
    notesOn c told = notesOn c notes ∧ (t.Settled ↔ s.SettledOn c) := by
  have steps := run?_eq_some_iff.1 run
  obtain ⟨t, told, alone, m, same⟩ := mirrors_of_steps steps served
  exact ⟨t, told, run?_eq_some_iff.2 alone, m.row, m.alone, same,
    m.settled_iff (pool_of_steps steps) (pool_of_steps alone) (served.last steps)⟩

/-- On the second connection a call is held for ever, and then comes what is no frame. -/
theorem answered_beside_a_broken_connection : ∃ es s notes t told other,
    (ofWorkers { format := .json, rows := [("", .ok), ("h", .held 0)] } 100 2).run? es =
      some (s, notes) ∧
    (ofWorkers { format := .json, rows := [("", .ok), ("h", .held 0)] } 100 2).NeverWaits 1 es ∧
    s.get? 2 = some other ∧ other.result = some (.error .invalidFrame) ∧
    (ofWorkers { format := .json, rows := [("", .ok), ("h", .held 0)] } 100 2).run?
      [.opens 1, .arrives 1 (Frame.call 5 "" [7]).bytes, .reads 1, .begins 1, .finishes 1 0,
        .writes 1] = some (t, told) ∧
    t.get? 1 = s.get? 1 ∧ t.get? 2 = none ∧ notesOn 1 told = notesOn 1 notes ∧
    notesOn 1 notes = [.began 1 5 "" [7] none, .wrote 1 (.reply 5 .ok [7])] := by
  obtain ⟨es, served, own, s, notes, other, run, found, ended, shown⟩ : ∃ es : List Event,
      (ofWorkers { format := .json, rows := [("", .ok), ("h", .held 0)] } 100 2).NeverWaits 1 es ∧
      (ofWorkers { format := .json, rows := [("", .ok), ("h", .held 0)] } 100 2).eventsOn 1 es =
        [.opens 1, .arrives 1 (Frame.call 5 "" [7]).bytes, .reads 1, .begins 1, .finishes 1 0,
          .writes 1] ∧
      ∃ s notes other,
        (ofWorkers { format := .json, rows := [("", .ok), ("h", .held 0)] } 100 2).run? es =
          some (s, notes) ∧
        s.get? 2 = some other ∧ other.result = some (.error .invalidFrame) ∧
        notesOn 1 notes = [.began 1 5 "" [7] none, .wrote 1 (.reply 5 .ok [7])] := by
    refine ⟨[.opens 1, .opens 2, .arrives 2 (Frame.call 6 "h" [8]).bytes, .reads 2, .begins 2,
      .arrives 1 (Frame.call 5 "" [7]).bytes, .reads 1, .arrives 2 (List.replicate 8 0), .reads 2,
      .begins 1, .abandons 2 0, .finishes 1 0, .ends 2, .writes 1], ?_, rfl, _, _, _, rfl, rfl, rfl,
      rfl⟩
    decide
  obtain ⟨t, told, alone, same, none, seen, -⟩ := connection_runs_as_if_alone run served
  rw [own] at alone
  exact ⟨es, s, notes, t, told, other, run, served, found, ended, alone, same, none 2 (by decide),
    seen, shown⟩

/-- What else happens makes no difference: two runs that have the same events about a connection
that never waits bring it to the same state and show the same of it. -/
theorem runs_agree_on_connection {es' : List Event} {s' : Server} {notes' : List Note}
    (run : (ofWorkers table limit workers).run? es = some (s, notes))
    (run' : (ofWorkers table limit workers).run? es' = some (s', notes'))
    (served : (ofWorkers table limit workers).NeverWaits c es)
    (served' : (ofWorkers table limit workers).NeverWaits c es')
    (own : (ofWorkers table limit workers).eventsOn c es =
      (ofWorkers table limit workers).eventsOn c es') :
    s'.get? c = s.get? c ∧ notesOn c notes' = notesOn c notes := by
  obtain ⟨t, told, alone, m, same⟩ := mirrors_of_steps (run?_eq_some_iff.1 run) served
  obtain ⟨t', told', alone', m', same'⟩ := mirrors_of_steps (run?_eq_some_iff.1 run') served'
  rw [← run?_eq_some_iff, own] at alone
  rw [← run?_eq_some_iff] at alone'
  obtain ⟨rfl, rfl⟩ : t = t' ∧ told = told' := by simpa using alone.symm.trans alone'
  exact ⟨m'.row.symm.trans m.row, same'.symm.trans same⟩

end

end RemoteCall.Server
