import RemoteCall.Proofs.Client.Refusals
import RemoteCall.Proofs.Client.Renumbering
import RemoteCall.Proofs.Link.Frames
import RemoteCall.Proofs.Server.Verdict

/-!
# Calls become frames

A call is checked where it starts (`prepare`). One that passes is a `Request`, which the driver
picks up later. The requests of a run, but for those that are refused as no id is free, are at any
moment those whose frames were written and then those in the queue (`requests_of_run?`):

    requests that were not refused = requests of the frames written ++ pending

A call that does not pass is as good as one that never was (`run?_without`), and whatever passes,
the driver ends with an error only if the peer no longer reads, or the bytes from the peer stop
being frames (`stops_of_steps`). `calls_become_frames_in_order` is all of this at once.
-/

namespace RemoteCall.Client

/-! ## The checks -/

/-- What the checks make of a call before the driver hears of it. -/
def prepare (limit : UInt32) (method : String) (argument : Except IoError Bytes) : Outcome :=
  match argument with
  | .error e => .error (.serialization e)
  | .ok payload =>
    if limit.toNat < payload.length || 255 < (Utf8.encode method).length then .error .invalidFrame
    else .ok payload

section
variable {s : Client} {method : String} {argument : Except IoError Bytes}

/-- Only a call that passes the checks asks whether there still is a driver. -/
theorem check_eq (s : Client) (method : String) (argument : Except IoError Bytes) :
    s.check method argument = (prepare s.limit method argument).bind fun payload =>
      if s.isOver then .error .channelClosed else .ok payload := by
  cases argument with
  | error e => rfl
  | ok payload =>
    simp only [check, prepare]
    split <;> rfl

theorem check_of_running (running : s.result = none) :
    s.check method argument = prepare s.limit method argument := by
  rw [check_eq, (isOver_eq_false_iff s).2 running]
  cases prepare s.limit method argument <;> rfl

theorem check_of_prepare {e : CallError} (failed : prepare s.limit method argument = .error e) :
    s.check method argument = .error e := by
  rw [check_eq, failed]
  rfl

end

/-! ## Requests -/

/-- A call that passed the checks. -/
structure Request where
  caller : Nat
  method : String
  payload : Bytes

/-- The request that the event makes; `n` is the number of the call that it may start. -/
def Event.request? (limit : UInt32) (n : Nat) : Event → Option Request
  | .start method argument _ => (prepare limit method argument).toOption.map (⟨n, method, ·⟩)
  | _ => none

/-- The requests that the events make, the first call that is started being number `n`. -/
def requests (limit : UInt32) (n : Nat) : List Event → List Request
  | [] => []
  | e :: es => (e.request? limit n).toList ++ requests limit (n + e.starts) es

/-- The requests in the queue. -/
def pending (s : Client) : List Request :=
  s.commands.filterMap fun
    | .call caller method payload => some ⟨caller, method, payload⟩
    | .close => none

/-- The frames that were written, each with the caller whose call it is. -/
def wroteBy (notes : List Note) : List (Nat × Frame) :=
  notes.filterMap fun
    | .wrote c f => some (c, f)
    | _ => none

/-- The frame is the caller's call, with the request's method and payload. -/
def Request.Becomes (r : Request) (w : Nat × Frame) : Prop :=
  w.1 = r.caller ∧ ∃ i, w.2 = .call i r.method r.payload

section
variable {s s' u : Client} {e : Event} {es : List Event} {notes shown more : List Note} {c : Nat}
  {r : Request} {limit : UInt32} {handles : Nat}

theorem map_caller_pending (s : Client) : s.pending.map (·.caller) = s.queued := by
  rw [pending, queued, List.map_filterMap]
  refine List.filterMap_congr fun command _ => ?_
  cases command <;> rfl

theorem written_eq (notes : List Note) : written notes = (wroteBy notes).map (·.2) := by
  rw [written, wroteBy, List.map_filterMap]
  refine List.filterMap_congr fun note _ => ?_
  cases note <;> rfl

@[simp] theorem wroteBy_append (notes more : List Note) :
    wroteBy (notes ++ more) = wroteBy notes ++ wroteBy more :=
  List.filterMap_append

@[simp] theorem wroteBy_resolveAll (s : Client) (cs : List Nat) (o : Outcome) :
    wroteBy (s.resolveAll cs o).2 = [] := by
  simp [wroteBy, resolveAll]

theorem le_of_mem_requests {n : Nat} (member : r ∈ requests limit n es) : n ≤ r.caller := by
  induction es generalizing n with
  | nil => cases member
  | cons e es ih =>
    rcases List.mem_append.1 member with now | later
    · cases e with
      | start method argument patience =>
        obtain ⟨payload, -, rfl⟩ := Option.map_eq_some_iff.1 (Option.mem_toList.1 now)
        exact Nat.le_refl n
      | _ => cases now
    · exact Nat.le_trans (Nat.le_add_right n e.starts) (ih later)

/-! ### One step -/

/-- What is started waits behind the others. -/
theorem Effect.pending_eq (h : s.Effect e s' shown) (running : s'.result = none)
    (other : e ≠ .pick) :
    s.pending ++ (e.request? s.limit s.started).toList = s'.pending ∧ wroteBy shown = [] := by
  have checked : ∀ method argument, s.check method argument = prepare s.limit method argument :=
    fun _ _ => check_of_running (h.running running)
  cases h with
  | awaits | closesLate | clones | givesUp | arrives | peerEnds | peerDeafens | skipsCall
  | skipsReply =>
    exact ⟨List.append_nil _, rfl⟩
  | ticks | answers => exact ⟨List.append_nil _, by simp [tick, wroteBy, resolveAll]⟩
  | refuses _ failed =>
    rw [checked] at failed
    refine ⟨?_, rfl⟩
    rw [Event.request?, failed]
    exact List.append_nil _
  | accepts _ passed =>
    rw [checked] at passed
    refine ⟨?_, rfl⟩
    rw [Event.request?, passed, pending, pending, List.filterMap_append]
    rfl
  | closes =>
    refine ⟨?_, rfl⟩
    rw [pending, pending, List.filterMap_append]
    rfl
  | releases =>
    rw [dropQueue_of_running { s with handles := s.handles - 1 } (by simpa using running)]
    exact ⟨List.append_nil _, rfl⟩
  | picksClose | exhausts | failsToWrite | writes => exact absurd rfl other
  | breaks | ends | retires => simp at running

/-- The first request that waits is refused, or its frame is written. -/
theorem Effect.picks_request (h : s.Effect .pick s' shown) (running : s'.result = none) :
    ∃ r, s.pending = r :: s'.pending ∧
      (s.refused? .pick = some r.caller ∧ wroteBy shown = [] ∨
        s.refused? .pick = none ∧ ∃ w, wroteBy shown = [w] ∧ r.Becomes w) := by
  have runs : s.isOver = false := (isOver_eq_false_iff s).2 (h.running running)
  cases h with
  | picksClose => simp at running
  | failsToWrite => simp at running
  | @exhausts caller method payload rest _ queue full =>
    refine ⟨⟨caller, method, payload⟩, by rw [pending, queue]; rfl, .inl ⟨?_, by simp⟩⟩
    simp [Client.refused?, queue, runs, full]
  | @writes caller method payload rest i next _ queue free =>
    refine ⟨⟨caller, method, payload⟩, by rw [pending, queue]; rfl, .inr ⟨?_, _, rfl, rfl, i, rfl⟩⟩
    simp [Client.refused?, queue, free]

/-! ### A whole run -/

/-- The request that is picked up is refused at that moment or never, and no other request is that
caller's. -/
theorem Apart.first_alone (limit : UInt32) (es : List Event) (apart : s.Apart)
    (first : s.pending = r :: u.pending) (started : u.started = s.started) :
    r.caller ∉ u.refusals es ∧
      ∀ x ∈ u.pending ++ requests limit u.started es, x.caller ≠ r.caller := by
  have order : s.queued = r.caller :: u.queued := by
    rw [← map_caller_pending, first, List.map_cons, map_caller_pending]
  obtain ⟨alone, -⟩ := List.nodup_cons.1 (order ▸ apart.nodup)
  have known : r.caller < u.started := by
    rw [started]
    exact apart.known _ (.inl (by simp [order]))
  refine ⟨fun refused => ?_, fun x member same => ?_⟩
  · rcases refusals_known refused with queued | later
    · exact alone queued
    · exact absurd known (Nat.not_lt.2 later)
  · rcases List.mem_append.1 member with waits | later
    · refine alone (same ▸ ?_)
      rw [← map_caller_pending]
      exact List.mem_map_of_mem waits
    · exact absurd (same ▸ le_of_mem_requests later) (Nat.not_le.2 known)

/-- What waits now and what starts later, but for the calls that are refused, is what is written and
what waits in the end. -/
theorem requests_of_run? (apart : s.Apart) (run : s.run? es = some (s', notes))
    (running : s'.result = none) :
    ∃ sent, (s.pending ++ requests s.limit s.started es).filter (·.caller ∉ s.refusals es) =
        sent ++ s'.pending ∧
      List.Forall₂ Request.Becomes sent (wroteBy notes) := by
  -- on the events, the first one first: the callers that it has done with do not come again
  induction es generalizing s notes with
  | nil =>
    obtain ⟨rfl, rfl⟩ := by simpa [run?] using run
    exact ⟨[], by simp [requests, refusals], .nil⟩
  | cons e es ih =>
    obtain ⟨u, shown, more, step, rest, rfl⟩ := exists_of_run?_cons run
    have effect := effect_of_step? step
    have runs := running_of_run? rest running
    obtain ⟨sent, order, become⟩ := ih (apart.effect effect) rest
    rw [refusals_cons es step, requests, ← effect.started_eq, wroteBy_append]
    rw [effect.limit_eq] at order
    by_cases picks : e = .pick
    · subst picks
      obtain ⟨r, first, fate⟩ := effect.picks_request runs
      obtain ⟨unrefused, others⟩ := apart.first_alone s.limit es first effect.started_eq
      rw [first]
      rcases fate with ⟨refused, quiet⟩ | ⟨spared, w, wrote, becomes⟩
      · refine ⟨sent, ?_, by simpa [quiet] using become⟩
        rw [refused, ← order]
        show (r :: (u.pending ++ requests s.limit u.started es)).filter
          (·.caller ∉ r.caller :: u.refusals es) = _
        rw [List.filter_cons_of_neg (by simp)]
        refine List.filter_congr fun x member => ?_
        simp [others x member]
      · refine ⟨r :: sent, ?_, by simpa [wrote] using ⟨becomes, become⟩⟩
        rw [spared, List.cons_append, List.cons_append, ← order]
        exact List.filter_cons_of_pos (decide_eq_true unrefused)
    · obtain ⟨same, quiet⟩ := effect.pending_eq runs picks
      refine ⟨sent, ?_, by simpa [quiet] using become⟩
      rw [refused?_of_ne picks, ← List.append_assoc, same]
      exact order

/-! ## What ends the driver -/

theorem got_dropQueue (s : Client) : got s.dropQueue.2 = [] := by
  unfold dropQueue
  split
  · exact got_resolveAll _ _ _
  · rfl

theorem got_finish (s : Client) (r : Except CallError Unit) : got (s.finish r).2 = [] := by
  have closed : got (s.closed r).2 = [] := got_resolveAll ..
  rw [finish_eq]
  show got ((s.closed r).2 ++ (s.closed r).1.dropQueue.2) = []
  rw [got_append, closed, got_dropQueue]
  rfl

theorem Effect.hears (h : s.Effect e s' shown) (hears : s'.peerDeaf = false) :
    s.peerDeaf = false := by
  cases h with
  | peerDeafens before => exact before
  | refuses | accepts | awaits | closesLate | closes | clones | releases | givesUp | arrives
  | peerEnds | ticks | picksClose | exhausts | failsToWrite | writes | skipsCall | skipsReply
  | answers | breaks | ends | retires => simpa [tick, await] using hears

/-- A driver that can write fails as the bytes that it has not taken are no frame. -/
theorem Effect.stops {err : CallError} (h : s.Effect e s' shown) (running : s.result = none)
    (hears : s.peerDeaf = false) (failed : s'.result = some (.error err)) :
    Frame.Stops s.limit s.inbound (.error err) ∧ arrived [e] = [] ∧ got shown = [] := by
  cases h with
  | refuses | accepts | awaits | closesLate | closes | clones | givesUp | arrives | peerEnds
  | peerDeafens | ticks | exhausts | writes | skipsCall | skipsReply | answers | releases =>
    simp [tick, await, running] at failed
  | picksClose | retires => simp at failed
  | failsToWrite _ _ _ deaf => simp [hears] at deaf
  | breaks _ found =>
    obtain rfl : .invalidFrame = err := by simpa using failed
    exact ⟨.invalid found, rfl, got_finish _ _⟩
  | ends _ unfinished _ is =>
    rw [finish_result] at failed
    obtain rfl := Option.some.inj failed
    exact ⟨.of_unfinished unfinished is, rfl, got_finish _ _⟩

/-- Once the driver has ended, nothing is read any more. -/
theorem Effect.unread_of_over (h : s.Effect e s' shown) (halted : s.result ≠ none) :
    s'.result = s.result ∧ arrived [e] = [] ∧ got shown = [] := by
  cases h with
  | refuses | awaits | closesLate | clones | givesUp | peerEnds | peerDeafens =>
    exact ⟨rfl, rfl, rfl⟩
  | ticks => exact ⟨rfl, rfl, got_resolveAll ..⟩
  | releases => exact ⟨dropQueue_result _, rfl, got_dropQueue _⟩
  | accepts _ passed => exact absurd (running_of_check passed) halted
  | closes _ running | arrives running | picksClose running | exhausts running
  | failsToWrite running | writes running | skipsCall running | skipsReply running
  | answers running | breaks running | ends running | retires running =>
    exact absurd running halted

/-- A driver that can write fails only where the bytes from the peer stop being frames. -/
theorem stops_of_steps {err : CallError} (steps : Steps step? { limit, handles } es s notes)
    (failed : s.result = some (.error err)) (hears : s.peerDeaf = false) :
    ∃ rest, Frame.Takes limit (arrived es) (got notes) rest ∧
      Frame.Stops limit rest (.error err) := by
  induction steps with
  | none => cases failed
  | @snoc es s s' e notes more before step ih =>
    have effect := effect_of_step? step
    rw [arrived_append, got_append]
    by_cases running : s.result = none
    · obtain ⟨fits, takes⟩ := takes_of_steps before running
      obtain ⟨stops, quiet, untaken⟩ := effect.stops running (effect.hears hears) failed
      rw [quiet, untaken, List.append_nil, List.append_nil]
      exact ⟨_, takes, fits ▸ stops⟩
    · obtain ⟨same, quiet, untaken⟩ := effect.unread_of_over running
      rw [quiet, untaken, List.append_nil, List.append_nil]
      exact ih (same ▸ failed) (effect.hears hears)

/-! ## Calls that do not pass -/

theorem started_of_steps (steps : Steps step? { limit, handles } es s notes) :
    s.started = es.countP (·.starts = 1) := by
  induction steps with
  | none => rfl
  | @snoc es s s' e notes more _ step ih =>
    rw [(effect_of_step? step).started_eq, ih, List.countP_append]
    cases e <;> rfl

/-- A call that does not pass may as well be left out: all that is shown stays as it is but for the
numbers of the later callers, and for what the caller sees at once. -/
theorem run?_without {before after : List Event} {method : String}
    {argument : Except IoError Bytes} {patience : Option Nat} {err : CallError} {n : Nat}
    (run : ({ limit, handles } : Client).run? (before ++ .start method argument patience :: after) =
      some (s, notes))
    (failed : prepare limit method argument = .error err)
    (count : n = before.countP (·.starts = 1)) :
    ∃ t past more, ({ limit, handles } : Client).run? (before ++ without n after) =
        some (t, past ++ more) ∧
      Renumbered n t s ∧
      notes = past ++ .resolved n (.error err) :: more.map (Note.renumber n) ∧
      ∀ c, n ≤ c → outcomes c past = [] := by
  obtain ⟨u, past, late, early, onward, rfl⟩ := exists_of_run?_append run
  obtain ⟨v, shown, rest, step, further, rfl⟩ := exists_of_run?_cons onward
  have steps := run?_eq_some_iff.1 early
  obtain ⟨waiting, apart, -⟩ := inPlace_of_steps steps
  obtain rfl : n = u.started := count.trans (started_of_steps steps).symm
  have check : u.check method argument = .error err :=
    check_of_prepare (limit_of_steps steps ▸ failed)
  obtain ⟨-, begun⟩ := Option.ite_none_right_eq_some.1 step
  obtain ⟨rfl, rfl⟩ := Prod.mk.inj ((start_of_error check).symm.trans (Option.some.inj begun))
  have both := (Renumbered.of_count waiting apart).run after
  rw [further] at both
  generalize later : u.run? (without u.started after) = there at both
  cases both with
  | @some q _ same =>
    have whole := steps.trans (run?_eq_some_iff.1 later)
    refine ⟨q.1, past, q.2, run?_eq_some_iff.2 whole, same.1, ?_, waiting.unstarted⟩
    rw [← same.2]
    rfl

theorem outcomes_renumber (n c : Nat) (notes : List Note) :
    outcomes (skip n c) (notes.map (Note.renumber n)) = outcomes c notes := by
  rw [outcomes, outcomes, List.filterMap_map]
  refine List.filterMap_congr fun note _ => ?_
  cases note with
  | resolved d o => simp [Note.renumber, skip_inj]
  | wrote | got | ended => rfl

theorem outcomes_renumber_self (n : Nat) (notes : List Note) :
    outcomes n (notes.map (Note.renumber n)) = [] := by
  rw [outcomes, List.filterMap_map, List.filterMap_eq_nil_iff]
  intro note _
  cases note with
  | resolved d o => simp [Note.renumber, skip_ne]
  | wrote | got | ended => rfl

theorem written_renumber (n : Nat) (notes : List Note) :
    written (notes.map (Note.renumber n)) = written notes := by
  rw [written, written, List.filterMap_map]
  refine List.filterMap_congr fun note _ => ?_
  cases note <;> rfl

theorem got_renumber (n : Nat) (notes : List Note) :
    got (notes.map (Note.renumber n)) = got notes := by
  rw [got, got, List.filterMap_map]
  refine List.filterMap_congr fun note _ => ?_
  cases note <;> rfl

/-- Each other caller sees the same; `past` is what was shown before call `n` started. -/
theorem outcomes_without {n : Nat} {past : List Note}
    (unstarted : ∀ c, n ≤ c → outcomes c past = []) (o : Outcome) (more : List Note) (c : Nat) :
    outcomes c (past ++ more) =
      outcomes (skip n c) (past ++ .resolved n o :: more.map (Note.renumber n)) := by
  have early : outcomes c past = outcomes (skip n c) past := by
    by_cases before : c < n
    · rw [skip_of_lt before]
    · have later : n ≤ c := Nat.not_lt.1 before
      rw [skip_of_le later, unstarted c later, unstarted _ (Nat.le_succ_of_le later)]
  rw [outcomes_append, outcomes_append, early, outcomes_resolved, if_neg (skip_ne n c).symm,
    outcomes_renumber]

/-! ## Any run of a new client -/

theorem wellFormed_of_steps (steps : Steps step? { limit, handles } es s notes)
    (running : s.result = none) : ∀ f ∈ written notes, f.WellFormed limit := by
  intro f member
  obtain ⟨i, method, payload, rfl, fits⟩ := (sends_of_steps steps running).written f member
  rw [limit_of_steps steps] at fits
  exact Frame.wellFormed_call i fits.1 fits.2

/-- At any moment of any run of a new client, with calls of all kinds, whatever the peer sends and
whoever gives up: while the driver runs, the requests so far, but for those that were refused as no
id was free, are those whose frames were written and then those that wait in the queue, in the order
in which their calls started; in the queue there is none once the driver cannot move. Each of the
frames fits, and a sink that takes bytes takes all of them whole. A call was refused if it hears
that there are too many calls; and if it was refused then it hears that, unless it gives up or its
time was over before. A driver that can write fails only where the bytes from the peer stop being
frames.

A call that does not pass the checks sees at once why, and may as well be left out: the driver and
the handles go through the same states, the same frames are written, under the same ids, and the
same frames are taken, and each other caller sees the same, under its number without that call. -/
theorem calls_become_frames_in_order
    (run : ({ limit, handles } : Client).run? es = some (s, notes)) :
    (s.result = none →
      (∃ sent, (requests limit 0 es).filter
            (·.caller ∉ ({ limit, handles } : Client).refusals es) = sent ++ s.pending ∧
          List.Forall₂ Request.Becomes sent (wroteBy notes)) ∧
        (s.Settled → s.pending = []) ∧ (∀ f ∈ written notes, f.WellFormed limit) ∧
        ∀ sink : Sink, sink.Willing →
          sink.sendAll (written notes) = ((written notes).map fun f => (.ok (), f.bytes)) ∧
          sink.written (written notes) = (wroteBy notes).flatMap (·.2.bytes)) ∧
    (∀ c, .resolved c (.error .tooManyCalls) ∈ notes →
      c ∈ ({ limit, handles } : Client).refusals es) ∧
    (∀ c ∈ ({ limit, handles } : Client).refusals es, .giveUp c ∉ es →
      outcomes c notes = [.error .tooManyCalls] ∨ outcomes c notes = [.error .timeout]) ∧
    (∀ err, s.result = some (.error err) → s.peerDeaf = false →
      ∃ rest, Frame.Takes limit (arrived es) (got notes) rest ∧
        Frame.Stops limit rest (.error err)) ∧
    ∀ before method argument patience after err n,
      es = before ++ .start method argument patience :: after →
      n = before.countP (·.starts = 1) → prepare limit method argument = .error err →
      ∃ t told, ({ limit, handles } : Client).run? (before ++ without n after) = some (t, told) ∧
        Renumbered n t s ∧ t.result = s.result ∧ (t.Settled ↔ s.Settled) ∧
        written told = written notes ∧ got told = got notes ∧ outcomes n notes = [.error err] ∧
        ∀ c, outcomes c told = outcomes (skip n c) notes := by
  have steps := run?_eq_some_iff.1 run
  refine ⟨fun running => ⟨?_, ?_, ?_, ?_⟩, fun c => refused_of_run? run, ?_, ?_, ?_⟩
  · exact requests_of_run? (.fresh limit handles) run running
  · intro settled
    rw [pending, settled.commands_eq_nil running]
    rfl
  · exact wellFormed_of_steps steps running
  · intro sink willing
    have short : ∀ f ∈ written notes, f.head.methodBytes.length ≤ 255 := fun f member =>
      (wellFormed_of_steps steps running f member).2.2
    refine ⟨willing.sendAll_eq short, ?_⟩
    rw [willing.written_eq short, written_eq, List.flatMap_map]
  · intro c refused stays
    exact outcomes_of_refused (.fresh limit handles) (.fresh limit handles) run refused stays
      (.inr (Nat.zero_le c))
  · exact fun err failed hears => stops_of_steps steps failed hears
  · rintro before method argument patience after err n rfl count failed
    obtain ⟨t, past, more, other, same, rfl, unstarted⟩ := run?_without run failed count
    refine ⟨t, _, other, same, same.result_eq.symm, same.settled_iff.symm, ?_, ?_, ?_, ?_⟩
    · rw [written_append, written_append, ← written_renumber n more]
      rfl
    · rw [got_append, got_append, ← got_renumber n more]
      rfl
    · rw [outcomes_append, unstarted n (Nat.le_refl n), outcomes_resolved, if_pos rfl,
        outcomes_renumber_self, List.nil_append]
    · exact outcomes_without unstarted (.error err) more

/-- The payload of the second of three calls is longer than any frame may carry. -/
theorem long_call_leaves_no_trace : ∃ s notes t told,
    ({ limit := 1, handles := 1 } : Client).run? [.start "a" (.ok [7]) none,
      .start "b" (.ok [8, 9]) none, .pick, .start "c" (.ok []) none, .pick] = some (s, notes) ∧
    s.result = none ∧ s.pending = [] ∧ outcomes 1 notes = [.error .invalidFrame] ∧
    List.Forall₂ Request.Becomes [⟨0, "a", [7]⟩, ⟨2, "c", []⟩] (wroteBy notes) ∧
    ({ limit := 1, handles := 1 } : Client).run? [.start "a" (.ok [7]) none, .pick,
      .start "c" (.ok []) none, .pick] = some (t, told) ∧ written told = written notes := by
  obtain ⟨s, notes, run, running, settled⟩ : ∃ s notes,
      ({ limit := 1, handles := 1 } : Client).run? [.start "a" (.ok [7]) none,
        .start "b" (.ok [8, 9]) none, .pick, .start "c" (.ok []) none, .pick] = some (s, notes) ∧
      s.result = none ∧ s.Settled := by
    refine ⟨_, _, rfl, rfl, ?_⟩
    simp only [Settled, moves, List.forall_mem_cons]
    exact ⟨rfl, rfl, rfl, List.forall_mem_nil _⟩
  obtain ⟨sending, -, -, -, leaving⟩ := calls_become_frames_in_order run
  obtain ⟨⟨sent, order, become⟩, empty, -⟩ := sending running
  obtain ⟨t, told, other, -, -, -, same, -, alone, -⟩ :=
    leaving [.start "a" (.ok [7]) none] "b" (.ok [8, 9]) none _ .invalidFrame 1 rfl rfl rfl
  have unrefused : (requests 1 0 [.start "a" (.ok [7]) none, .start "b" (.ok [8, 9]) none, .pick,
      .start "c" (.ok []) none, .pick]).filter (·.caller ∉ ({ limit := 1, handles := 1 } :
        Client).refusals [.start "a" (.ok [7]) none, .start "b" (.ok [8, 9]) none, .pick,
          .start "c" (.ok []) none, .pick]) = [⟨0, "a", [7]⟩, ⟨2, "c", []⟩] := rfl
  rw [empty settled, List.append_nil, unrefused] at order
  exact ⟨s, notes, t, told, run, running, empty settled, alone, order ▸ become, other, same⟩

end

end RemoteCall.Client
