import RemoteCall.Proofs.Server.Workers

/-!
# An event is about one connection

Each event is about one connection (`target?`), a release about the one whose hold it takes. Of any
other connection it leaves all there is, and it shows nothing of it; but a worker that comes back
may be granted to it if it waits (`spares_of_step?`).
-/

namespace RemoteCall.Server

/-! ## The events of one connection -/

/-- The connection that the event is about; a release is about the one whose hold it takes. -/
def target? (s : Server) : Event → Option ConnectionId
  | .opens c | .arrives c _ | .hangsUp c | .deafens c | .reads c | .begins c | .stops c
  | .finishes c _ | .abandons c _ | .writes c | .ends c => some c
  | .releases key => (takeHold key s.holds).map (·.1.connection)

/-- The events of a run that are about `c`. -/
def eventsOn (c : ConnectionId) (s : Server) : List Event → List Event
  | [] => []
  | e :: es =>
    (if s.target? e = some c then [e] else []) ++ match s.step? e with
      | some (s', _) => s'.eventsOn c es
      | none => []

theorem eventsOn_append {s t : Server} {es : List Event} {notes : List Note} (c : ConnectionId)
    (run : s.run? es = some (t, notes)) (more : List Event) :
    s.eventsOn c (es ++ more) = s.eventsOn c es ++ t.eventsOn c more := by
  induction es generalizing s notes with
  | nil =>
    obtain ⟨rfl, -⟩ := by simpa [run?] using run
    rfl
  | cons e es ih =>
    obtain ⟨⟨u, first⟩, step, run⟩ := Option.bind_eq_some_iff.1 run
    obtain ⟨⟨v, later⟩, rest, run⟩ := Option.bind_eq_some_iff.1 run
    obtain ⟨rfl, -⟩ := by simpa using run
    simp only [List.cons_append, eventsOn, step, ih rest, List.append_assoc]

theorem eventsOn_singleton {s t : Server} {e : Event} {notes : List Note} (c : ConnectionId)
    (step : s.step? e = some (t, notes)) :
    s.eventsOn c [e] = if s.target? e = some c then [e] else [] := by
  simp [eventsOn, step]

/-! ## What an event leaves of the others -/

/-- What a step makes of a server leaves the connection as it is, or granted the worker that it
waits for; and it leaves the connection's holds, and shows nothing of it. -/
structure Spares (c : ConnectionId) (s : Server) (p : Server × List Note) : Prop where
  row : p.1.get? c = s.get? c ∨ p.1.get? c = (s.get? c).map .granted
  holds : p.1.holds.filter (·.connection = c) = s.holds.filter (·.connection = c)
  unseen : notesOn c p.2 = []

section
variable {s s' : Server} {c d : ConnectionId} {conn : Connection} {p : Server × List Note}
  {notes : List Note}

theorem Connection.granted_of_not_waits (idle : ¬conn.reading.Waits) : conn.granted = conn := by
  cases reading : conn.reading with
  | waiting => exact absurd (by simp [reading, Reading.Waits]) idle
  | going | granted | stopped =>
    rw [Connection.granted, reading, Reading.grant]
    · rw [← reading]
    all_goals simp

/-- A connection that does not wait stays as it is. -/
theorem Spares.get?_eq (h : Spares c s p) (idle : ¬s.Waits c) : p.1.get? c = s.get? c := by
  rcases h.row with same | granted
  · exact same
  · rw [granted]
    cases found : s.get? c with
    | none => rfl
    | some conn =>
      have still : ¬conn.reading.Waits := fun waits => idle ⟨conn, found, waits⟩
      rw [Option.map_some, Connection.granted_of_not_waits still]

theorem Spares.set (ne : c ≠ d) {free : Nat} {queue : List ConnectionId} {holds : List Hold}
    (kept : holds.filter (·.connection = c) = s.holds.filter (·.connection = c))
    (unseen : notesOn c notes = []) :
    Spares c s ({ s with free, queue, holds }.set d conn, notes) where
  row := .inl (get?_set_of_ne _ conn ne)
  holds := kept
  unseen := unseen

theorem Spares.giveBack (ne : c ≠ d) (unseen : notesOn c notes = []) :
    Spares c s ((s.set d conn).giveBack, notes) where
  row := by
    have same : (s.set d conn).get? c = s.get? c := get?_set_of_ne s conn ne
    rw [← same]
    exact get?_giveBack ..
  holds := congrArg _ giveBack_holds
  unseen := unseen

theorem spares_of_read? (ne : c ≠ d) (h : s.read? d conn = some p) : Spares c s p := by
  unfold read? at h
  split at h
  next =>
    split at h
    next f rest item =>
      simp only at h
      split at h
      next =>
        obtain rfl := Option.some.inj h
        exact .set ne rfl rfl
      next =>
        obtain rfl := Option.some.inj h
        unfold hire
        split
        · exact .set ne rfl rfl
        · exact .set ne rfl rfl
    next =>
      obtain rfl := Option.some.inj h
      exact .set ne rfl rfl
    next =>
      split at h
      next =>
        obtain rfl := Option.some.inj h
        exact .set ne rfl rfl
      next => cases h
  next => cases h

theorem spares_of_begin? (ne : c ≠ d) (h : s.begin? d conn = some p) : Spares c s p := by
  unfold begin? at h
  split at h
  next i method payload granted =>
    obtain rfl := Option.some.inj h
    refine .set ne ?_ (by simp [notesOn, Note.connection?, ne.symm])
    cases (s.table.dispatch method payload).heldBy <;> simp [ne.symm]
  next => cases h

theorem spares_of_stop? (ne : c ≠ d) (h : s.stop? d conn = some p) : Spares c s p := by
  unfold stop? at h
  split at h
  next => cases h
  next =>
    split at h
    next => cases h
    next =>
      obtain rfl := Option.some.inj h
      exact .set ne rfl rfl
    next =>
      obtain rfl := Option.some.inj h
      exact .set ne rfl rfl
    next =>
      obtain rfl := Option.some.inj h
      exact .giveBack ne rfl

theorem spares_of_finish? {serial : Nat} (ne : c ≠ d) (h : s.finish? d conn serial = some p) :
    Spares c s p := by
  unfold finish? at h
  split at h
  next => cases h
  next =>
    obtain rfl := Option.some.inj h
    exact .giveBack ne rfl

theorem spares_of_abandon? {serial : Nat} (ne : c ≠ d) (h : s.abandon? d conn serial = some p) :
    Spares c s p := by
  unfold abandon? at h
  split at h
  next => cases h
  next =>
    split at h
    next => cases h
    next =>
      obtain rfl := Option.some.inj h
      exact .giveBack ne (by simp [notesOn, Note.connection?, ne.symm])

theorem spares_of_write? (ne : c ≠ d) (h : s.write? d conn = some p) : Spares c s p := by
  unfold write? at h
  split at h
  next => cases h
  next =>
    split at h
    next =>
      obtain rfl := Option.some.inj h
      exact .set ne rfl rfl
    next =>
      obtain rfl := Option.some.inj h
      exact .set ne rfl (by simp [notesOn, Note.connection?, ne.symm])

theorem spares_of_end? (ne : c ≠ d) (h : s.end? d conn = some p) : Spares c s p := by
  unfold end? at h
  split at h
  next =>
    obtain rfl := Option.some.inj h
    exact .set ne rfl (by simp [notesOn, Note.connection?, ne.symm])
  next => cases h

/-! ### Releases -/

/-- Of another connection's holds none is taken. -/
theorem filter_of_takeHold {key : Int64} {holds rest : List Hold} {h : Hold}
    (taken : takeHold key holds = some (h, rest)) (other : h.connection ≠ c) :
    rest.filter (·.connection = c) = holds.filter (·.connection = c) := by
  induction holds generalizing rest with
  | nil => cases taken
  | cons g holds ih =>
    rw [takeHold] at taken
    split at taken
    next =>
      obtain ⟨rfl, rfl⟩ := by simpa using taken
      simp [other]
    next =>
      obtain ⟨⟨h', rest'⟩, further, same⟩ := Option.map_eq_some_iff.1 taken
      obtain ⟨rfl, rfl⟩ := by simpa using same
      simp [List.filter_cons, ih further]

theorem spares_of_release {key : Int64} (away : s.target? (.releases key) ≠ some c) :
    Spares c s (s.release key) := by
  unfold release
  cases taken : takeHold key s.holds with
  | none => exact ⟨.inl rfl, rfl, rfl⟩
  | some found =>
    obtain ⟨h, rest⟩ := found
    have ne : h.connection ≠ c := fun same => away (by simp [target?, taken, same])
    have kept := filter_of_takeHold taken ne
    simp only
    cases get? { s with holds := rest } h.connection with
    | none => exact ⟨.inl rfl, kept, rfl⟩
    | some conn =>
      simp only
      split
      · exact .set ne.symm kept rfl
      · exact ⟨.inl rfl, kept, rfl⟩

/-! ### Every event -/

/-- An event spares every connection that it is not about. -/
theorem spares_of_step? {e : Event} (away : s.target? e ≠ some c) (step : s.step? e = some p) :
    Spares c s p := by
  cases e with
  | opens d =>
    have ne : c ≠ d := fun same => away (congrArg some same.symm)
    simp only [step?] at step
    split at step
    next => cases step
    next =>
      obtain rfl := Option.some.inj step
      exact ⟨.inl (get?_openNew_of_ne ne), rfl, rfl⟩
  | releases key =>
    obtain rfl := Option.some.inj step
    exact spares_of_release away
  | arrives d | hangsUp d | deafens d =>
    have ne : c ≠ d := fun same => away (congrArg some same.symm)
    obtain ⟨conn, found, step⟩ := Option.bind_eq_some_iff.1 step
    split at step
    next => cases step
    next =>
      obtain rfl := Option.some.inj step
      exact .set ne rfl rfl
  | reads d =>
    obtain ⟨conn, -, step⟩ := Option.bind_eq_some_iff.1 step
    exact spares_of_read? (fun same => away (congrArg some same.symm)) step
  | begins d =>
    obtain ⟨conn, -, step⟩ := Option.bind_eq_some_iff.1 step
    exact spares_of_begin? (fun same => away (congrArg some same.symm)) step
  | stops d =>
    obtain ⟨conn, -, step⟩ := Option.bind_eq_some_iff.1 step
    exact spares_of_stop? (fun same => away (congrArg some same.symm)) step
  | finishes d serial =>
    obtain ⟨conn, -, step⟩ := Option.bind_eq_some_iff.1 step
    exact spares_of_finish? (fun same => away (congrArg some same.symm)) step
  | abandons d serial =>
    obtain ⟨conn, -, step⟩ := Option.bind_eq_some_iff.1 step
    exact spares_of_abandon? (fun same => away (congrArg some same.symm)) step
  | writes d =>
    obtain ⟨conn, -, step⟩ := Option.bind_eq_some_iff.1 step
    exact spares_of_write? (fun same => away (congrArg some same.symm)) step
  | ends d =>
    obtain ⟨conn, -, step⟩ := Option.bind_eq_some_iff.1 step
    exact spares_of_end? (fun same => away (congrArg some same.symm)) step

/-! ## Workers of the other connections -/

/-- How many workers the calls of all other connections have. -/
def hiredBesides (s : Server) (c : ConnectionId) : Nat :=
  (s.connections.filter (·.1 ≠ c)).foldr (fun row n => row.2.hired + n) 0

theorem foldr_hired_eq {rows : List (ConnectionId × Connection)}
    (distinct : (rows.map (·.1)).Nodup) :
    rows.foldr (fun row n => row.2.hired + n) 0 = ((rows.lookup c).map (·.hired)).getD 0 +
      (rows.filter (·.1 ≠ c)).foldr (fun row n => row.2.hired + n) 0 := by
  induction rows with
  | nil => rfl
  | cons row rows ih =>
    obtain ⟨d, conn⟩ := row
    obtain ⟨new, distinct⟩ := List.nodup_cons.1 distinct
    by_cases same : d = c
    · subst same
      have others : ∀ row ∈ rows, row.1 ≠ d := by
        rintro row member rfl
        exact new (List.mem_map.2 ⟨row, member, rfl⟩)
      rw [List.filter_cons_of_neg (by simp), List.filter_eq_self.2 (by simpa using others)]
      simp
    · rw [List.filter_cons_of_pos (by simpa using same), List.lookup_cons,
        beq_false_of_ne (Ne.symm same), List.foldr_cons, List.foldr_cons, ih distinct]
      simp only
      omega

theorem Pool.hired_eq {n : Nat} (pool : Pool n s) (c : ConnectionId) :
    s.hired = ((s.get? c).map (·.hired)).getD 0 + s.hiredBesides c :=
  foldr_hired_eq pool.distinct

theorem Pool.get?_of_mem {n : Nat} (pool : Pool n s) (member : (d, conn) ∈ s.connections) :
    s.get? d = some conn := by
  obtain ⟨front, back, rows⟩ := List.append_of_mem member
  refine List.lookup_eq_some_iff.2 ⟨front, back, rows, ?_⟩
  intro row early
  have distinct := pool.distinct
  rw [rows, List.map_append, List.nodup_append] at distinct
  have ne := distinct.2.2 row.1 (List.mem_map.2 ⟨row, early, rfl⟩) d (by simp)
  simpa using ne.symm

end

end RemoteCall.Server
