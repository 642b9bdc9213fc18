import RemoteCall.Proofs.Server.History

/-!
# The pool of workers

Each worker is free or hired by one call, at any time (`Pool`): a change of a connection that hires
nobody keeps the sum, and one that gives a worker back leaves one worker too few, which `giveBack`
makes free again or grants to the first in the queue. While the queue is not empty nobody is free.
-/

namespace RemoteCall.Server

/-! ## Who has a worker -/

/-- Whether a reader has a worker for the call that it is at. -/
def Reading.workers : Reading → Nat
  | .granted .. => 1
  | _ => 0

def Reading.Waits : Reading → Prop
  | .waiting .. => True
  | _ => False

/-- How many workers the calls of a connection have. -/
def Connection.hired (conn : Connection) : Nat := conn.running.length + conn.reading.workers

/-- How many workers all calls have. -/
def hired (s : Server) : Nat := s.connections.foldr (fun row n => row.2.hired + n) 0

/-- How many calls run. -/
def running (s : Server) : Nat :=
  s.connections.foldr (fun row n => row.2.running.length + n) 0

/-- The connection waits for a worker. -/
def Waits (s : Server) (c : ConnectionId) : Prop :=
  ∃ conn, s.get? c = some conn ∧ conn.reading.Waits

/-! ### What changes and grants do to it -/

section
variable {conn conn' : Connection}

theorem Reading.workers_of_waits {r : Reading} (h : r.Waits) : r.workers = 0 := by
  cases r with
  | waiting => rfl
  | going | granted | stopped => cases h

theorem Reading.workers_grant {r : Reading} (h : r.Waits) : r.grant.workers = 1 := by
  cases r with
  | waiting => rfl
  | going | granted | stopped => cases h

theorem Reading.not_waits_grant (r : Reading) : ¬r.grant.Waits := by
  cases r <;> exact id

theorem Connection.hired_granted (h : conn.reading.Waits) :
    conn.granted.hired = conn.hired + 1 := by
  simp [Connection.hired, Connection.granted, Reading.workers_grant h, Reading.workers_of_waits h]

@[simp] theorem length_makeReady (serial : Nat) (calls : List Running) :
    (makeReady serial calls).length = calls.length := by
  simp [makeReady]

end

/-- How many workers a demand takes. -/
def Demand.taken : Demand → Nat
  | .takes => 1
  | _ => 0

/-- How many workers a demand gives back. -/
def Demand.back : Demand → Nat
  | .givesBack => 1
  | _ => 0

section
variable {table : MethodTable} {limit : UInt32} {c : ConnectionId} {conn conn' : Connection}
  {d : Demand} {bs : Bytes} {notes : List Note}

theorem Change.hired_eq (h : Change table limit c conn d bs notes conn')
    (numbered : conn.Numbered) : conn'.hired + d.back = conn.hired + d.taken := by
  cases h with
  | arrives | hangsUp | deafens | skips | writes | failsToWrite | isOver => rfl
  | readies serial => simp [Connection.hired, Demand.back, Demand.taken]
  | hires going | queues going =>
    simp [Connection.hired, going, Reading.workers, Demand.back, Demand.taken]
  | breaks going | runsOut going | stops _ going =>
    simp [Connection.hired, Connection.close, going, Reading.workers, Demand.back, Demand.taken]
  | begins granted =>
    simp [Connection.hired, granted, Reading.workers, Demand.back, Demand.taken]
  | stopsWaiting _ waits | stopsGranted _ waits =>
    simp [Connection.hired, Connection.close, waits, Reading.workers, Demand.back, Demand.taken]
  | @finishes serial call ready =>
    obtain ⟨runs, rfl⟩ := mem_of_find_ready ready
    have one := (numbered.perm_without runs).length_eq
    simp only [Connection.hired, Connection.without, Demand.back, Demand.taken,
      List.length_cons] at one ⊢
    omega
  | @abandons serial call _ found =>
    obtain ⟨runs, rfl⟩ := mem_of_find_serial found
    have one := (numbered.perm_without runs).length_eq
    simp only [Connection.hired, Connection.without, Demand.back, Demand.taken,
      List.length_cons] at one ⊢
    omega

/-- What a demand says about who waits before and after it. -/
def Demand.Fits (before after : Prop) : Demand → Prop
  | .nothing | .givesBack => after ↔ before
  | .takes => ¬before ∧ ¬after
  | .joins => ¬before ∧ after
  | .leaves => before ∧ ¬after

theorem Change.fits (h : Change table limit c conn d bs notes conn') :
    d.Fits conn.reading.Waits conn'.reading.Waits := by
  cases h with
  | arrives | hangsUp | deafens | readies | skips | finishes | abandons | writes | failsToWrite
  | isOver => exact Iff.rfl
  | hires going | queues going | breaks going | runsOut going | begins going | stops _ going
  | stopsWaiting _ going | stopsGranted _ going =>
    simp [Demand.Fits, Connection.close, going, Reading.Waits]

end

/-! ## The invariant -/

/-- The sum over all connections, one of which is replaced. -/
theorem foldr_map_ite {rows : List (ConnectionId × Connection)} {c : ConnectionId}
    {old conn : Connection} (f : Connection → Nat) (distinct : (rows.map (·.1)).Nodup)
    (found : rows.lookup c = some old) :
    (rows.map fun row => (row.1, if row.1 = c then conn else row.2)).foldr (f ·.2 + ·) 0 + f old =
      rows.foldr (f ·.2 + ·) 0 + f conn := by
  induction rows with
  | nil => simp at found
  | cons row rows ih =>
    obtain ⟨e, x⟩ := row
    obtain ⟨new, distinct⟩ := List.nodup_cons.1 distinct
    rw [List.lookup_cons] at found
    simp only [List.map_cons, List.foldr_cons]
    cases same : c == e with
    | true =>
      obtain rfl := eq_of_beq same
      obtain rfl : x = old := by simpa using found
      have others : (rows.map fun row => (row.1, if row.1 = c then conn else row.2)) = rows := by
        refine (List.map_congr_left ?_).trans (List.map_id rows)
        intro row hr
        have ne : row.1 ≠ c := by
          rintro rfl
          exact new (List.mem_map.2 ⟨_, hr, rfl⟩)
        rw [if_neg ne]
        rfl
      rw [others, if_pos rfl]
      omega
    | false =>
      have rest := ih distinct (by simpa [same] using found)
      have ne : e ≠ c := fun eq => by simp [eq] at same
      rw [if_neg ne]
      omega

section
variable {s s' : Server} {c : ConnectionId} {old conn : Connection}

theorem hired_set (conn : Connection) (distinct : (s.connections.map (·.1)).Nodup)
    (found : s.get? c = some old) :
    (s.set c conn).hired + old.hired = s.hired + conn.hired :=
  foldr_map_ite _ distinct found

theorem waits_set_self (found : s.get? c = some old) :
    (s.set c conn).Waits c ↔ conn.reading.Waits := by
  have isOpen : (s.get? c).isSome := by simp [found]
  simp [Waits, get?_set_self conn isOpen]

theorem waits_set_of_ne {b : ConnectionId} (ne : b ≠ c) : (s.set c conn).Waits b ↔ s.Waits b := by
  simp [Waits, get?_set_of_ne s conn ne]

/-- So many workers are there, each of them free or hired; those who wait are in the queue, and
while anyone waits nobody is free. -/
structure Pool (workers : Nat) (s : Server) : Prop where
  distinct : (s.connections.map (·.1)).Nodup
  numbered : ∀ c conn, s.get? c = some conn → conn.Numbered
  queued : ∀ c, c ∈ s.queue ↔ s.Waits c
  once : s.queue.Nodup
  busy : s.queue ≠ [] → s.free = 0
  total : s.free + s.hired = workers

/-- One connection changes, and with it who is free and who waits. -/
theorem Pool.update {n m free : Nat} {queue : List ConnectionId} (pool : Pool n s)
    (found : s.get? c = some old) (numbered : conn.Numbered)
    (queued : ∀ b, b ∈ queue ↔ if b = c then conn.reading.Waits else b ∈ s.queue)
    (once : queue.Nodup) (busy : queue ≠ [] → free = 0)
    (total : free + conn.hired + n = m + s.free + old.hired) (holds : List Hold) :
    Pool m ({ s with free, queue, holds }.set c conn) where
  distinct := by simpa [Server.set, Function.comp_def] using pool.distinct
  numbered b now h := by
    rw [get?_set] at h
    obtain ⟨before, there, rfl⟩ := Option.map_eq_some_iff.1 h
    by_cases same : b = c
    · rw [if_pos same]
      exact numbered
    · rw [if_neg same]
      exact pool.numbered b before there
  queued b := by
    show b ∈ queue ↔ _
    rw [queued b]
    by_cases same : b = c
    · subst same
      have found : get? { s with free, queue, holds } b = some old := found
      rw [if_pos rfl, waits_set_self found]
    · rw [if_neg same, waits_set_of_ne same]
      exact pool.queued b
  once := once
  busy := busy
  total := by
    have sum := hired_set conn
      (s := { s with free, queue, holds }) pool.distinct found
    have before := pool.total
    have same : hired { s with free, queue, holds } = s.hired := rfl
    rw [set_free]
    show free + _ = m
    omega

/-- The queue is as it was if the same connections wait. -/
theorem Pool.mem_queue_iff {n : Nat} (pool : Pool n s) (found : s.get? c = some old)
    (same : conn.reading.Waits ↔ old.reading.Waits) (b : ConnectionId) :
    b ∈ s.queue ↔ if b = c then conn.reading.Waits else b ∈ s.queue := by
  by_cases here : b = c
  · subst here
    rw [if_pos rfl, pool.queued, same]
    simp [Waits, found]
  · rw [if_neg here]

theorem Pool.waits_iff {n : Nat} (pool : Pool n s) (found : s.get? c = some old) :
    c ∈ s.queue ↔ old.reading.Waits := by
  rw [pool.queued]
  simp [Waits, found]

/-- One worker more. -/
theorem Pool.giveBack {n : Nat} (pool : Pool n s) : Pool (n + 1) s.giveBack := by
  cases waiting : s.queue with
  | nil =>
    rw [giveBack_of_nobody waiting]
    refine ⟨pool.distinct, pool.numbered, pool.queued, pool.once, ?_, ?_⟩
    · intro some
      exact absurd waiting some
    · have before := pool.total
      show s.free + 1 + s.hired = n + 1
      omega
  | cons c queue =>
    obtain ⟨conn, found, waits⟩ := (pool.queued c).1 (by simp [waiting])
    obtain ⟨first, once⟩ := List.nodup_cons.1 (waiting ▸ pool.once)
    rw [giveBack_of_first waiting found]
    have none : s.free = 0 := pool.busy (by simp [waiting])
    have gain := Connection.hired_granted waits
    refine pool.update found ?_ ?_ once (fun _ => none) (by omega) s.holds
    · exact (pool.numbered c conn found).fewer (List.Sublist.refl _) rfl
    · intro b
      by_cases same : b = c
      · subst same
        rw [if_pos rfl]
        exact iff_of_false first (Reading.not_waits_grant _)
      · rw [if_neg same, waiting, List.mem_cons]
        simp [same]

theorem Pool.changes {n : Nat} {d : Demand} {bs : Bytes} {notes : List Note} (pool : Pool n s)
    (found : s.get? c = some old) (change : Change s.table s.limit c old d bs notes conn)
    (meets : Meets s c conn d s') : Pool n s' := by
  have numbered := change.numbered (pool.numbered c old found)
  have sum := change.hired_eq (pool.numbered c old found)
  have fits := change.fits
  have total := pool.total
  have waits := pool.waits_iff found
  cases meets with
  | nothing holds =>
    exact pool.update found numbered (pool.mem_queue_iff found fits) pool.once pool.busy
      (by simp only [Demand.back, Demand.taken] at sum; omega) holds
  | @takes free some =>
    have nobody : s.queue = [] := Decidable.byContradiction fun full => by
      have none := pool.busy full
      omega
    have same : conn.reading.Waits ↔ old.reading.Waits := iff_of_false fits.2 fits.1
    exact pool.update found numbered (pool.mem_queue_iff found same) pool.once
      (fun full => absurd nobody full)
      (by simp only [Demand.back, Demand.taken] at sum; omega) s.holds
  | joins none =>
    refine pool.update found numbered ?_ ?_ (fun _ => none)
      (by simp only [Demand.back, Demand.taken] at sum; omega) s.holds
    · intro b
      by_cases same : b = c
      · simp [same, fits.2]
      · simp [same]
    · have new : c ∉ s.queue := fun before => fits.1 (waits.1 before)
      exact List.nodup_append.2 ⟨pool.once, by simp, fun a ha b hb => by
        obtain rfl := List.mem_singleton.1 hb
        exact fun same => new (same ▸ ha)⟩
  | leaves =>
    refine pool.update found numbered ?_ (pool.once.filter _) ?_
      (by simp only [Demand.back, Demand.taken] at sum; omega) s.holds
    · intro b
      by_cases same : b = c
      · simp [same, fits.2]
      · simp [same]
    · intro full
      exact pool.busy (List.ne_nil_of_mem (waits.2 fits.1))
  | givesBack =>
    obtain ⟨m, rfl⟩ : ∃ m, n = m + 1 := by
      have one : 1 ≤ old.hired := by
        simp only [Demand.back, Demand.taken] at sum
        omega
      have all := hired_set conn pool.distinct found
      simp only [Demand.back, Demand.taken] at sum
      exact ⟨n - 1, by omega⟩
    exact (pool.update found numbered (pool.mem_queue_iff found fits) pool.once pool.busy
      (by simp only [Demand.back, Demand.taken] at sum; omega) s.holds).giveBack

end

/-! ### Runs -/

theorem Pool.opens {n : Nat} {s : Server} {c : ConnectionId} (pool : Pool n s)
    (unknown : s.get? c = none) : Pool n (s.openNew c) where
  distinct := by
    have new : ∀ row ∈ s.connections, row.1 ≠ c := by
      intro row hr same
      have other := List.lookup_eq_none_iff.1 unknown row hr
      simp [same] at other
    simp only [openNew, List.map_append, List.map_cons, List.map_nil]
    refine List.nodup_append.2 ⟨pool.distinct, by simp, ?_⟩
    intro a ha b hb
    obtain ⟨row, hr, rfl⟩ := List.mem_map.1 ha
    obtain rfl := List.mem_singleton.1 hb
    exact new row hr
  numbered b conn h := by
    by_cases same : b = c
    · subst same
      obtain rfl := Option.some.inj ((get?_openNew_self unknown).symm.trans h)
      exact ⟨List.nodup_nil, fun r hr => by simp at hr⟩
    · exact pool.numbered b conn (get?_openNew_of_ne same ▸ h)
  queued b := by
    show b ∈ s.queue ↔ _
    rw [pool.queued]
    by_cases same : b = c
    · subst same
      simp [Waits, unknown, get?_openNew_self unknown, Reading.Waits]
    · simp [Waits, get?_openNew_of_ne same]
  once := pool.once
  busy := pool.busy
  total := by
    have none : (s.openNew c).hired = s.hired := by
      simp [hired, openNew, Connection.hired, Reading.workers]
    rw [none]
    exact pool.total

theorem Pool.effect {n : Nat} {s s' : Server} {e : Event} {notes : List Note} (pool : Pool n s)
    (effect : Effect s e s' notes) : Pool n s' := by
  cases effect with
  | opens unknown => exact pool.opens unknown
  | releasesNobody =>
    exact ⟨pool.distinct, pool.numbered, pool.queued, pool.once, pool.busy, pool.total⟩
  | releases found change meets | moves found change meets => exact pool.changes found change meets

theorem Pool.ofWorkers (table : MethodTable) (limit : UInt32) (workers : Nat) :
    Pool (max workers 1) (Server.ofWorkers table limit workers) where
  distinct := List.nodup_nil
  numbered c conn h := by simp [get?, Server.ofWorkers] at h
  queued c := by simp [Waits, get?, Server.ofWorkers]
  once := List.nodup_nil
  busy some := absurd rfl some
  total := rfl

theorem pool_of_steps {table : MethodTable} {limit : UInt32} {workers : Nat} {es : List Event}
    {s : Server} {notes : List Note}
    (steps : Steps step? (ofWorkers table limit workers) es s notes) :
    Pool (max workers 1) s := by
  induction steps with
  | none => exact .ofWorkers table limit workers
  | snoc _ step ih => exact ih.effect (effect_of_step? step)

theorem running_le_hired (s : Server) : s.running ≤ s.hired := by
  unfold running hired
  induction s.connections with
  | nil => exact Nat.le_refl 0
  | cons row rows ih =>
    have here : row.2.running.length ≤ row.2.hired := Nat.le_add_right ..
    simp only [List.foldr_cons]
    omega

end RemoteCall.Server
