import RemoteCall.Client

/-!
# What the events of a client do

`Client.Effect s e s' notes` lists, case by case, what each event does to a client: which part of
the state it needs, which part it changes and what it shows. Every step is one of these cases
(`effect_of_step?`); later proofs look at the cases and not at the step itself.
-/

namespace RemoteCall

/-- No call holds the id of the next one. -/
theorem SendId.getElem?_of_allocate? {taken : Outstanding} {next i next' : SendId}
    (h : allocate? taken next = some (i, next')) : taken[i]? = none :=
  Std.TreeMap.getElem?_eq_none_of_contains_eq_false (not_contains_of_allocate? h)

namespace Client

/-! ## The parts that an ending leaves alone -/

section
variable (s : Client) (callers : List Nat) (caller : Nat) (r : Outcome) (e : Except CallError Unit)

@[simp] theorem resolveAll_outstanding : (s.resolveAll callers r).1.outstanding = s.outstanding :=
  rfl

@[simp] theorem resolveAll_result : (s.resolveAll callers r).1.result = s.result := rfl

@[simp] theorem resolveAll_started : (s.resolveAll callers r).1.started = s.started := rfl

@[simp] theorem resolveAll_limit : (s.resolveAll callers r).1.limit = s.limit := rfl

@[simp] theorem resolveAll_handles : (s.resolveAll callers r).1.handles = s.handles := rfl

@[simp] theorem resolveAll_peerDeaf : (s.resolveAll callers r).1.peerDeaf = s.peerDeaf := rfl

@[simp] theorem resolveAll_next : (s.resolveAll callers r).1.next = s.next := rfl

@[simp] theorem resolve_eq : s.resolve caller r = s.resolveAll [caller] r := rfl

@[simp] theorem dropQueue_outstanding : s.dropQueue.1.outstanding = s.outstanding := by
  unfold dropQueue
  split <;> rfl

@[simp] theorem dropQueue_result : s.dropQueue.1.result = s.result := by
  unfold dropQueue
  split <;> rfl

@[simp] theorem dropQueue_started : s.dropQueue.1.started = s.started := by
  unfold dropQueue
  split <;> rfl

@[simp] theorem dropQueue_limit : s.dropQueue.1.limit = s.limit := by
  unfold dropQueue
  split <;> rfl

@[simp] theorem dropQueue_handles : s.dropQueue.1.handles = s.handles := by
  unfold dropQueue
  split <;> rfl

@[simp] theorem dropQueue_peerDeaf : s.dropQueue.1.peerDeaf = s.peerDeaf := by
  unfold dropQueue
  split <;> rfl

@[simp] theorem dropQueue_next : s.dropQueue.1.next = s.next := by
  unfold dropQueue
  split <;> rfl

/-- A driver that runs will pick up what is in the queue. -/
theorem dropQueue_of_running (h : s.result = none) : s.dropQueue = (s, []) := by
  simp [dropQueue, isOver, h]

@[simp] theorem finish_outstanding : (s.finish e).1.outstanding = {} := by simp [finish]

@[simp] theorem finish_started : (s.finish e).1.started = s.started := by simp [finish]

@[simp] theorem finish_result : (s.finish e).1.result = some e := by simp [finish]

@[simp] theorem finish_limit : (s.finish e).1.limit = s.limit := by simp [finish]

@[simp] theorem finish_handles : (s.finish e).1.handles = s.handles := by simp [finish]

@[simp] theorem finish_peerDeaf : (s.finish e).1.peerDeaf = s.peerDeaf := by simp [finish]

@[simp] theorem finish_next : (s.finish e).1.next = s.next := by simp [finish]

end

theorem isOver_eq_false_iff (s : Client) : s.isOver = false ↔ s.result = none := by
  simp [isOver]

/-! ## The cases -/

/-- What an event does to the client, and what it shows. -/
inductive Effect (s : Client) : Event → Client → List Note → Prop
  /-- A call fails before the driver hears of it. -/
  | refuses {method : String} {argument : Except IoError Bytes} {patience : Option Nat}
      {e : CallError} : 0 < s.handles → s.check method argument = .error e →
    Effect s (.start method argument patience) { s with started := s.started + 1 }
      [.resolved s.started (.error e)]
  /-- A call joins the queue. -/
  | accepts {method : String} {argument : Except IoError Bytes} {patience : Option Nat}
      {payload : Bytes} : 0 < s.handles → s.check method argument = .ok payload →
    Effect s (.start method argument patience)
      { s with
        started := s.started + 1
        commands := s.commands ++ [.call s.started method payload]
        callers := s.callers.insert s.started { patience } } []
  | awaits (caller : Nat) : Effect s (.await caller) (s.await caller) []
  | closesLate : 0 < s.handles → s.result ≠ none → Effect s .close s []
  | closes : 0 < s.handles → s.result = none →
    Effect s .close { s with commands := s.commands ++ [.close] } []
  | clones : 0 < s.handles → Effect s .clone { s with handles := s.handles + 1 } []
  | releases : 0 < s.handles →
    Effect s .release { s with handles := s.handles - 1 }.dropQueue.1
      { s with handles := s.handles - 1 }.dropQueue.2
  | givesUp (caller : Nat) :
    Effect s (.giveUp caller) { s with callers := s.callers.erase caller } []
  | arrives {bs : Bytes} : s.result = none → s.peerEnded = false →
    Effect s (.arrive bs) { s with inbound := s.inbound ++ bs } []
  | peerEnds : s.peerEnded = false → Effect s .peerEnds { s with peerEnded := true } []
  | peerDeafens : s.peerDeaf = false → Effect s .peerDeafens { s with peerDeaf := true } []
  | ticks (ms : Nat) : Effect s (.tick ms) (s.tick ms).1 (s.tick ms).2
  | picksClose {rest : List Command} : s.result = none → s.commands = .close :: rest →
    Effect s .pick ({ s with commands := rest }.finish (.ok ())).1
      ({ s with commands := rest }.finish (.ok ())).2
  /-- No id is free for the call that was picked up. -/
  | exhausts {caller : Nat} {method : String} {payload : Bytes} {rest : List Command} :
    s.result = none → s.commands = .call caller method payload :: rest →
    SendId.allocate? s.outstanding s.next = none →
    Effect s .pick ({ s with commands := rest }.resolve caller (.error .tooManyCalls)).1
      ({ s with commands := rest }.resolve caller (.error .tooManyCalls)).2
  /-- The frame of the call cannot be written. -/
  | failsToWrite {caller : Nat} {method : String} {payload : Bytes} {rest : List Command}
      {i next : SendId} : s.result = none → s.commands = .call caller method payload :: rest →
    SendId.allocate? s.outstanding s.next = some (i, next) → s.peerDeaf = true →
    Effect s .pick
      ({ s with
        commands := rest
        outstanding := s.outstanding.insert i caller
        next }.finish (.error (.io .brokenPipe))).1
      ({ s with
        commands := rest
        outstanding := s.outstanding.insert i caller
        next }.finish (.error (.io .brokenPipe))).2
  | writes {caller : Nat} {method : String} {payload : Bytes} {rest : List Command}
      {i next : SendId} : s.result = none → s.commands = .call caller method payload :: rest →
    SendId.allocate? s.outstanding s.next = some (i, next) → s.peerDeaf = false →
    Effect s .pick
      { s with commands := rest, outstanding := s.outstanding.insert i caller, next }
      [.wrote caller (.call i method payload)]
  /-- A call from the peer means nothing. -/
  | skipsCall {f : Frame} {rest : Bytes} {i : SendId} {method : String} {n : UInt32} :
    s.result = none → Frame.read s.limit s.inbound = .item f rest → f.head = .call i method n →
    Effect s .take { s with inbound := rest } [.got f]
  /-- Nor does a reply that nobody waits for. -/
  | skipsReply {f : Frame} {rest : Bytes} {i : SendId} {status : ReplyStatus} {n : UInt32} :
    s.result = none → Frame.read s.limit s.inbound = .item f rest → f.head = .reply i status n →
    s.outstanding[i]? = none →
    Effect s .take { s with inbound := rest } [.got f]
  | answers {f : Frame} {rest : Bytes} {i : SendId} {status : ReplyStatus} {n : UInt32}
      {caller : Nat} : s.result = none → Frame.read s.limit s.inbound = .item f rest →
    f.head = .reply i status n → s.outstanding[i]? = some caller →
    Effect s .take
      ({ s with inbound := rest, outstanding := s.outstanding.erase i }.resolve caller
        (.ofReply status f.payload)).1
      (.got f :: ({ s with inbound := rest, outstanding := s.outstanding.erase i }.resolve caller
        (.ofReply status f.payload)).2)
  | breaks {rest : Bytes} : s.result = none → Frame.read s.limit s.inbound = .invalid rest →
    Effect s .take ({ s with inbound := rest }.finish (.error .invalidFrame)).1
      ({ s with inbound := rest }.finish (.error .invalidFrame)).2
  | ends {r : Except CallError Unit} : s.result = none →
    Frame.read s.limit s.inbound = .unfinished → s.peerEnded = true →
    r = (if s.inbound.isEmpty then .ok () else .error (.io .unexpectedEof)) →
    Effect s .take (s.finish r).1 (s.finish r).2
  | retires : s.result = none → s.handles = 0 → s.commands = [] →
    Effect s .retire (s.finish (.ok ())).1 (s.finish (.ok ())).2

theorem start_of_error {s : Client} {method : String} {argument : Except IoError Bytes}
    {patience : Option Nat} {e : CallError} (h : s.check method argument = .error e) :
    s.start method argument patience =
      ({ s with started := s.started + 1 }, [.resolved s.started (.error e)]) := by
  have same : { s with started := s.started + 1 }.check method argument = .error e := h
  simp only [Client.start, same]

theorem start_of_ok {s : Client} {method : String} {argument : Except IoError Bytes}
    {patience : Option Nat} {payload : Bytes} (h : s.check method argument = .ok payload) :
    s.start method argument patience =
      ({ s with
        started := s.started + 1
        commands := s.commands ++ [.call s.started method payload]
        callers := s.callers.insert s.started { patience } }, []) := by
  have same : { s with started := s.started + 1 }.check method argument = .ok payload := h
  simp only [Client.start, same]

theorem effect_of_start (s : Client) (method : String) (argument : Except IoError Bytes)
    (patience : Option Nat) (h : 0 < s.handles) :
    s.Effect (.start method argument patience) (s.start method argument patience).1
      (s.start method argument patience).2 := by
  cases checked : s.check method argument with
  | error e =>
    rw [start_of_error checked]
    exact .refuses h checked
  | ok payload =>
    rw [start_of_ok checked]
    exact .accepts h checked

theorem effect_of_pick? {s s' : Client} {notes : List Note} (running : s.result = none)
    (h : s.pick? = some (s', notes)) : s.Effect .pick s' notes := by
  unfold pick? at h
  split at h
  next => cases h
  next rest queue =>
    obtain ⟨rfl, rfl⟩ := by simpa [Prod.ext_iff] using h
    exact .picksClose running queue
  next caller method payload rest queue =>
    simp only [send] at h
    split at h
    next full =>
      obtain ⟨rfl, rfl⟩ := by simpa only [Option.some.injEq, Prod.ext_iff] using h
      exact .exhausts running queue full
    next i next free =>
      split at h
      next deaf =>
        obtain ⟨rfl, rfl⟩ := by simpa only [Option.some.injEq, Prod.ext_iff] using h
        exact .failsToWrite running queue free deaf
      next hears =>
        obtain ⟨rfl, rfl⟩ := by simpa only [Option.some.injEq, Prod.mk.injEq] using h
        exact .writes running queue free (by simpa using hears)

theorem effect_of_take? {s s' : Client} {notes : List Note} (running : s.result = none)
    (h : s.take? = some (s', notes)) : s.Effect .take s' notes := by
  unfold take? at h
  split at h
  next f rest found =>
    unfold handle at h
    split at h
    next head =>
      obtain ⟨rfl, rfl⟩ := by simpa using h
      exact .skipsCall running found head
    next i status n head =>
      split at h
      next unknown =>
        obtain ⟨rfl, rfl⟩ := by simpa using h
        exact .skipsReply running found head unknown
      next caller known =>
        obtain ⟨rfl, rfl⟩ := by simpa only [Option.some.injEq, Prod.mk.injEq] using h
        exact .answers running found head known
  next rest found =>
    obtain ⟨rfl, rfl⟩ := by simpa only [Option.some.injEq, Prod.ext_iff] using h
    exact .breaks running found
  next found =>
    split at h
    next ended =>
      obtain ⟨rfl, rfl⟩ := by simpa only [Option.some.injEq, Prod.ext_iff] using h
      exact .ends running found ended rfl
    next => cases h

/-- Every step is one of the cases. -/
theorem effect_of_step? {s s' : Client} {e : Event} {notes : List Note}
    (h : s.step? e = some (s', notes)) : s.Effect e s' notes := by
  cases e with
  | start method argument patience =>
    simp only [step?] at h
    split at h
    next held =>
      obtain ⟨rfl, rfl⟩ := by simpa only [Option.some.injEq, Prod.ext_iff] using h
      exact effect_of_start s method argument patience held
    next => cases h
  | await caller =>
    obtain ⟨rfl, rfl⟩ := by simpa [step?] using h
    exact .awaits caller
  | close =>
    simp only [step?] at h
    split at h
    next => cases h
    next held =>
      split at h
      next ended =>
        obtain ⟨rfl, rfl⟩ := by simpa using h
        exact .closesLate (by omega) (by simpa [isOver, Option.isSome_iff_ne_none] using ended)
      next running =>
        obtain ⟨rfl, rfl⟩ := by simpa using h
        exact .closes (by omega) (by simpa [isOver] using running)
  | clone =>
    simp only [step?] at h
    split at h
    next => cases h
    next held =>
      obtain ⟨rfl, rfl⟩ := by simpa using h
      exact .clones (by omega)
  | release =>
    simp only [step?] at h
    split at h
    next => cases h
    next held =>
      obtain ⟨rfl, rfl⟩ := by simpa only [Option.some.injEq, Prod.ext_iff] using h
      exact .releases (by omega)
  | giveUp caller =>
    obtain ⟨rfl, rfl⟩ := by simpa [step?] using h
    exact .givesUp caller
  | arrive bs =>
    simp only [step?] at h
    split at h
    next => cases h
    next free =>
      obtain ⟨rfl, rfl⟩ := by simpa using h
      simp only [Bool.or_eq_true, not_or, Bool.not_eq_true] at free
      exact .arrives ((isOver_eq_false_iff s).1 free.1) free.2
  | peerEnds =>
    simp only [step?] at h
    split at h
    next => cases h
    next free =>
      obtain ⟨rfl, rfl⟩ := by simpa using h
      exact .peerEnds (by simpa using free)
  | peerDeafens =>
    simp only [step?] at h
    split at h
    next => cases h
    next free =>
      obtain ⟨rfl, rfl⟩ := by simpa using h
      exact .peerDeafens (by simpa using free)
  | tick ms =>
    simp only [step?, Option.some.injEq, Prod.ext_iff] at h
    obtain ⟨rfl, rfl⟩ := h
    exact .ticks ms
  | pick =>
    simp only [step?] at h
    split at h
    next => cases h
    next running => exact effect_of_pick? (by simpa [isOver] using running) h
  | take =>
    simp only [step?] at h
    split at h
    next => cases h
    next running => exact effect_of_take? (by simpa [isOver] using running) h
  | retire =>
    simp only [step?] at h
    split at h
    next => cases h
    next idle =>
      obtain ⟨rfl, rfl⟩ := by simpa only [Option.some.injEq, Prod.ext_iff] using h
      simp only [Bool.or_eq_true, not_or, Bool.not_eq_true, decide_eq_true_eq,
        Bool.not_eq_eq_eq_not, Bool.not_true] at idle
      obtain ⟨⟨running, none⟩, empty⟩ := idle
      exact .retires ((isOver_eq_false_iff s).1 running) (by omega) (by simpa using empty)

/-! ## What no event changes -/

section
variable {s s' : Client} {e : Event} {notes : List Note}

theorem Effect.limit_eq (h : s.Effect e s' notes) : s'.limit = s.limit := by
  cases h <;> simp [tick, await]

/-- A driver that has ended stays so. -/
theorem Effect.running (h : s.Effect e s' notes) (running : s'.result = none) :
    s.result = none := by
  cases h with
  | refuses | accepts | awaits | closesLate | clones | givesUp | peerEnds | peerDeafens | ticks =>
    exact running
  | releases => simpa using running
  | closes _ before | arrives before | exhausts before | writes before | skipsCall before
  | skipsReply before | answers before => exact before
  | picksClose | failsToWrite | breaks | ends | retires => simp at running

theorem Effect.close_mem (h : s.Effect e s' notes) (running : s'.result = none) (other : e ≠ .close)
    (queued : .close ∈ s'.commands) : .close ∈ s.commands := by
  cases h with
  | closes => exact absurd rfl other
  | accepts => simpa using queued
  | releases =>
    have kept := dropQueue_of_running { s with handles := s.handles - 1 } (by simpa using running)
    rw [kept] at queued
    exact queued
  | exhausts _ queue | writes _ queue =>
    rw [queue]
    exact List.mem_cons_of_mem _ queued
  | picksClose | failsToWrite | breaks | ends | retires => simp at running
  | refuses | awaits | closesLate | clones | givesUp | arrives | peerEnds | peerDeafens | ticks
  | skipsCall | skipsReply | answers => exact queued

/-- Once the last handle is gone there never is one again. -/
theorem Effect.handles_pos (h : s.Effect e s' notes) (held : 0 < s'.handles) : 0 < s.handles := by
  cases h with
  | refuses some | accepts some | closesLate some | closes some | clones some | releases some =>
    exact some
  | awaits | givesUp | arrives | peerEnds | peerDeafens | ticks | picksClose | exhausts
  | failsToWrite | writes | skipsCall | skipsReply | answers | breaks | ends | retires =>
    simpa [tick, await] using held

/-- A payload within the limit is accepted under a short name while the driver runs. -/
theorem check_of_fits {method : String} {payload : Bytes} (running : s.result = none)
    (within : payload.length ≤ s.limit.toNat) (short : (Utf8.encode method).length ≤ 255) :
    s.check method (.ok payload) = .ok payload := by
  have fits : ¬(s.limit.toNat < payload.length ∨ 255 < (Utf8.encode method).length) := by omega
  simp [check, fits, isOver, running]

theorem eq_of_check {method : String} {payload sent : Bytes}
    (h : s.check method (.ok payload) = .ok sent) : sent = payload := by
  simp only [check] at h
  split at h
  next => cases h
  next =>
    split at h
    next => cases h
    next => exact (Except.ok.inj h).symm

/-- A driver that runs and cannot move has picked up all commands. -/
theorem Settled.commands_eq_nil (settled : s.Settled) (running : s.result = none) :
    s.commands = [] := by
  have runs : ¬s.isOver = true := by simp [isOver, running]
  have picks : s.pick? = none := (if_neg runs).symm.trans (settled .pick (by simp [moves]))
  unfold pick? at picks
  split at picks
  next empty => exact empty
  next => cases picks
  next => cases picks

end

end Client

end RemoteCall
