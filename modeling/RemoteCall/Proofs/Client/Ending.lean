import RemoteCall.Proofs.Client.Places
import RemoteCall.Proofs.Run

/-!
# After the end of the driver

The end of the driver, however it comes, tells each outstanding call that the channel is closed, and
a call that is started later hears so at once. Only the calls that the driver had not picked up yet
hear nothing: they wait in the queue as long as there is a handle, and the last one that goes away
closes them too (`ended_driver_leaves_only_the_queue`).
-/

namespace RemoteCall.Client

/-! ## Runs of a new client -/

theorem Apart.fresh (limit : UInt32) (handles : Nat) : Apart { limit, handles } where
  nodup := List.nodup_nil
  apart c member := by cases member
  once i j c here := by simp at here
  known c placed := by
    rcases placed with member | ⟨i, holds⟩
    · cases member
    · simp at holds

theorem InPlace.fresh (limit : UInt32) (handles : Nat) : InPlace { limit, handles } :=
  .of_running rfl fun c waits => by simp at waits

section
variable {limit : UInt32} {handles : Nat} {es : List Event} {s : Client} {notes : List Note}

theorem inPlace_of_steps (steps : Steps step? { limit, handles } es s notes) :
    Waiting s notes ∧ s.Apart ∧ s.InPlace := by
  induction steps with
  | none => exact ⟨.fresh limit handles, .fresh limit handles, .fresh limit handles⟩
  | snoc _ step ih =>
    obtain ⟨waiting, apart, inPlace⟩ := ih
    have effect := effect_of_step? step
    exact ⟨waiting.effect effect, apart.effect effect, inPlace.effect effect⟩

theorem limit_of_steps (steps : Steps step? { limit, handles } es s notes) : s.limit = limit := by
  induction steps with
  | none => rfl
  | snoc _ step ih => exact (effect_of_step? step).limit_eq.trans ih

/-- A driver that still runs was never over. -/
theorem running_of_run? {t : Client} (run : s.run? es = some (t, notes))
    (running : t.result = none) : s.result = none := by
  have steps := run?_eq_some_iff.1 run
  clear run
  induction steps with
  | none => exact running
  | snoc _ step ih => exact ih ((effect_of_step? step).running running)

/-- A call that was started and not given up waits, or has seen one outcome. -/
theorem waits_or_resolved_of_steps (steps : Steps step? { limit, handles } es s notes) {c : Nat}
    (known : c < s.started) (stays : .giveUp c ∉ es) :
    c ∈ s.callers ∨ ∃ r, outcomes c notes = [r] := by
  induction steps with
  | none => exact absurd known (Nat.not_lt_zero c)
  | @snoc es s s' e notes more steps step ih =>
    obtain ⟨waiting, apart, inPlace⟩ := inPlace_of_steps steps
    have effect := effect_of_step? step
    obtain ⟨early, now⟩ : .giveUp c ∉ es ∧ e ≠ .giveUp c := by simpa [eq_comm] using stays
    rw [outcomes_append]
    by_cases before : c < s.started
    · rcases ih before early with waits | ⟨r, seen⟩
      · rw [waiting.unresolved c waits, List.nil_append]
        exact effect.resolves apart inPlace now waits
      · have gone : c ∉ s.callers := fun waits => by simp [waiting.unresolved c waits] at seen
        rw [seen, effect.outcomes_eq_nil before gone]
        exact .inr ⟨r, rfl⟩
    · -- the event starts this call
      rw [waiting.unstarted c (Nat.le_of_not_lt before), List.nil_append]
      rcases effect.start_or_narrows with ⟨method, argument, patience, rfl⟩ | ⟨-, go⟩
      · cases effect with
        | refuses =>
          have last : s.started = c := by
            have : c < s.started + 1 := known
            omega
          exact .inr ⟨_, (outcomes_resolved c _ _ []).trans (if_pos last)⟩
        | accepts =>
          have last : s.started = c := by
            have : c < s.started + 1 := known
            omega
          exact .inl (Std.TreeMap.mem_insert.2 (.inl (by simp [last])))
      · rw [go.started] at known
        exact absurd known before

end

/-! ## Calls whose frames were written -/

section
variable {s s' : Client} {e : Event} {notes more : List Note} {c : Nat} {f : Frame}

/-- Only a call that is started joins the queue. -/
theorem Effect.queued_cases (h : s.Effect e s' notes) (queued : c ∈ s'.queued) :
    c ∈ s.queued ∨ c = s.started := by
  cases h with
  | refuses | awaits | closesLate | clones | givesUp | arrives | peerEnds | peerDeafens | ticks
  | skipsCall | skipsReply | answers => exact .inl queued
  | accepts =>
    obtain ⟨method, payload, member⟩ := mem_queued_iff.1 queued
    rcases List.mem_append.1 member with before | last
    · exact .inl (mem_queued_iff.2 ⟨method, payload, before⟩)
    · obtain ⟨rfl, -, -⟩ := by simpa using last
      exact .inr rfl
  | closes =>
    obtain ⟨method, payload, member⟩ := mem_queued_iff.1 queued
    exact .inl (mem_queued_iff.2 ⟨method, payload, by simpa using member⟩)
  | releases =>
    have before := (queued_dropQueue_sublist { s with handles := s.handles - 1 }).subset queued
    exact .inl before
  | picksClose _ queue =>
    rw [queued_of_close queue]
    exact .inl ((queued_finish_sublist _ _).subset queued)
  | breaks | ends | retires =>
    have before := (queued_finish_sublist _ _).subset queued
    exact .inl before
  | failsToWrite _ queue =>
    have later := (queued_finish_sublist _ _).subset queued
    rw [queued_of_call queue]
    exact .inl (List.mem_cons_of_mem _ later)
  | exhausts _ queue | writes _ queue =>
    rw [queued_of_call queue]
    exact .inl (List.mem_cons_of_mem _ queued)

@[simp] theorem wrote_not_mem_resolveAll (s : Client) (cs : List Nat) (r : Outcome) :
    .wrote c f ∉ (s.resolveAll cs r).2 := by simp [resolveAll]

@[simp] theorem wrote_not_mem_dropQueue (s : Client) : .wrote c f ∉ s.dropQueue.2 := by
  unfold dropQueue
  split
  · exact wrote_not_mem_resolveAll _ _ _
  · exact List.not_mem_nil

@[simp] theorem wrote_not_mem_finish (s : Client) (r : Except CallError Unit) :
    .wrote c f ∉ (s.finish r).2 := by simp [finish]

/-- The call whose frame is written was the first one in the queue. -/
theorem Effect.wrote (h : s.Effect e s' notes) (wrote : .wrote c f ∈ notes) :
    s.queued = c :: s'.queued := by
  cases h with
  | writes _ queue =>
    obtain ⟨rfl, -⟩ := by simpa using wrote
    exact queued_of_call queue
  | refuses | accepts | awaits | closesLate | closes | clones | releases | givesUp | arrives
  | peerEnds | peerDeafens | picksClose | exhausts | failsToWrite | skipsCall | skipsReply | answers
  | breaks | ends | retires => simp at wrote
  | ticks => simp [tick] at wrote

/-- A call whose frame was written was started, and is not in the queue. -/
def OffQueue (s : Client) (notes : List Note) : Prop :=
  ∀ c f, .wrote c f ∈ notes → c < s.started ∧ c ∉ s.queued

theorem OffQueue.effect (h : s.OffQueue notes) (apart : s.Apart) (effect : s.Effect e s' more) :
    s'.OffQueue (notes ++ more) := by
  intro c f wrote
  rcases List.mem_append.1 wrote with before | now
  · obtain ⟨known, off⟩ := h c f before
    refine ⟨Nat.lt_of_lt_of_le known effect.started_le, fun queued => ?_⟩
    rcases effect.queued_cases queued with still | rfl
    · exact off still
    · exact Nat.lt_irrefl _ known
  · have first := effect.wrote now
    have nodup := first ▸ apart.nodup
    have known : c < s.started := apart.known c (.inl (by simp [first]))
    exact ⟨Nat.lt_of_lt_of_le known effect.started_le, (List.nodup_cons.1 nodup).1⟩

theorem offQueue_of_steps {limit : UInt32} {handles : Nat} {es : List Event}
    (steps : Steps step? { limit, handles } es s notes) : s.OffQueue notes := by
  induction steps with
  | none => exact fun c f wrote => absurd wrote List.not_mem_nil
  | snoc steps step ih =>
    exact ih.effect (inPlace_of_steps steps).2.1 (effect_of_step? step)

end

/-! ## What happens after the end -/

section
variable {s s' t u : Client} {e : Event} {later : List Event} {notes more : List Note} {c : Nat}

/-- Nothing joins the queue of an ended driver, and it goes away with the last handle. -/
theorem Effect.queued_of_over (h : s.Effect e s' notes) (inPlace : s.InPlace)
    (halted : s.result ≠ none) : s'.queued = if s'.handles = 0 then [] else s.queued := by
  have kept : s.queued = if s.handles = 0 then [] else s.queued := by
    split
    next released => exact inPlace.dropped halted released
    next => rfl
  cases h with
  | refuses | awaits | closesLate | givesUp | peerEnds | peerDeafens | ticks => exact kept
  | accepts _ passed => exact absurd (running_of_check passed) halted
  | clones => exact (if_neg (Nat.succ_ne_zero _)).symm
  | releases =>
    rw [dropQueue_handles]
    exact dropQueue_queued (s := { s with handles := s.handles - 1 }) halted
  | closes _ running | arrives running | picksClose running | exhausts running
  | failsToWrite running | writes running | skipsCall running | skipsReply running
  | answers running | breaks running | ends running | retires running =>
    exact absurd running halted

theorem mem_callers_of_getElem? {w : Wait} (waits : s.callers[c]? = some w) : c ∈ s.callers := by
  rw [← Std.TreeMap.isSome_getElem?_iff_mem, waits]
  rfl

/-- The caller waits, and has all the time. -/
def WaitsForEver (s : Client) (c : Nat) : Prop :=
  ∃ w, s.callers[c]? = some w ∧ w.patience = none

theorem WaitsForEver.mem_callers (h : s.WaitsForEver c) : c ∈ s.callers := by
  obtain ⟨w, waits, -⟩ := h
  exact mem_callers_of_getElem? waits

/-- Who still waits has all the time that it had. -/
theorem Narrows.waitsForEver (h : Narrows e s s' notes) (waits : s.WaitsForEver c)
    (still : c ∈ s'.callers) : s'.WaitsForEver c := by
  obtain ⟨w, before, patient⟩ := waits
  obtain ⟨w', holds⟩ : ∃ w', s'.callers[c]? = some w' :=
    Option.isSome_iff_exists.1 (Std.TreeMap.isSome_getElem?_iff_mem.2 still)
  obtain ⟨v, was, rfl⟩ := h.wait c w' holds
  obtain rfl : w = v := Option.some.inj (before.symm.trans was)
  exact ⟨_, holds, by rw [Wait.after_patience, patient]⟩

/-- A caller that waits for ever and does not give up waits on for an ended driver, up to the moment
when the last handle goes away. -/
theorem Effect.waits_of_over (h : s.Effect e s' notes) (apart : s.Apart) (inPlace : s.InPlace)
    (halted : s.result ≠ none) (waits : s.WaitsForEver c) (stays : e ≠ .giveUp c) :
    (0 < s'.handles → s'.WaitsForEver c) ∧
      outcomes c notes = if 0 < s'.handles then [] else [.error .channelClosed] := by
  have member := waits.mem_callers
  obtain ⟨queued, held⟩ := inPlace.queued halted member
  cases h with
  | awaits d =>
    have still := (mem_callers_await s d c).2 member
    exact ⟨fun _ => (Narrows.await s d).waitsForEver waits still, (if_pos held).symm⟩
  | refuses =>
    have other : s.started ≠ c := Nat.ne_of_gt (apart.known c (.inl queued))
    exact ⟨fun _ => waits, by simp [held, other]⟩
  | closesLate | peerEnds | peerDeafens => exact ⟨fun _ => waits, (if_pos held).symm⟩
  | clones => exact ⟨fun _ => waits, (if_pos (Nat.succ_pos _)).symm⟩
  | givesUp caller =>
    have other : caller ≠ c := fun same => stays (by rw [same])
    refine ⟨fun _ => ?_, (if_pos held).symm⟩
    obtain ⟨w, before, patient⟩ := waits
    refine ⟨w, ?_, patient⟩
    rw [Std.TreeMap.getElem?_erase, if_neg (by simpa using other)]
    exact before
  | ticks ms =>
    have go := LetsGo.resolveAll { s with now := s.now + ms } (due { s with now := s.now + ms })
      (.error .timeout)
    have early : c ∉ due { s with now := s.now + ms } := by
      rw [mem_due_iff]
      rintro ⟨v, d, holds, deadline, -⟩
      obtain ⟨w, before, patient⟩ := waits
      obtain rfl : w = v := Option.some.inj (before.symm.trans holds)
      simp [Wait.deadline_eq_none patient] at deadline
    have still := (mem_callers_resolveAll { s with now := s.now + ms } _ (.error .timeout) c).2
      ⟨member, early⟩
    have waits' : WaitsForEver { s with now := s.now + ms } c := waits
    exact ⟨fun _ => (go.narrows (e := .tick ms) (by simp)).waitsForEver waits' still,
      ((go.waits c still).2).trans (if_pos held).symm⟩
  | releases =>
    by_cases left : 0 < s.handles - 1
    · rw [dropQueue_of_held (s := { s with handles := s.handles - 1 }) (Nat.ne_of_gt left)]
      exact ⟨fun _ => waits, (if_pos left).symm⟩
    · have last : handles { s with handles := s.handles - 1 } = 0 := Nat.eq_zero_of_not_pos left
      have once : s.queued.count c = 1 := apart.nodup.count.trans (if_pos queued)
      have told := outcomes_dropQueue (s := { s with handles := s.handles - 1 }) halted member
      rw [if_pos last] at told
      rw [dropQueue_handles]
      refine ⟨fun more => absurd more left, ?_⟩
      rw [if_neg left, told]
      exact congrArg (List.replicate · _) once
  | accepts _ passed => exact absurd (running_of_check passed) halted
  | closes _ running | arrives running | picksClose running | exhausts running
  | failsToWrite running | writes running | skipsCall running | skipsReply running
  | answers running | breaks running | ends running | retires running =>
    exact absurd running halted

/-- The client some time after its driver has ended: nothing was added to the queue. -/
structure After (t u : Client) : Prop where
  halted : u.result ≠ none
  limit : u.limit = t.limit
  started : t.started ≤ u.started
  queue : u.queued = if u.handles = 0 then [] else t.queued

theorem After.effect (h : After t s) (effect : s.Effect e s' notes) (inPlace : s.InPlace) :
    After t s' where
  halted running := h.halted (effect.running running)
  limit := effect.limit_eq.trans h.limit
  started := Nat.le_trans h.started effect.started_le
  queue := by
    rw [effect.queued_of_over inPlace h.halted]
    split
    next => rfl
    next left =>
      have held := effect.handles_pos (Nat.pos_of_ne_zero left)
      rw [h.queue, if_neg (Nat.ne_of_gt held)]

/-- The driver of an ended client does not move. -/
theorem settled_of_over (halted : s.result ≠ none) : s.Settled := by
  have ended := isOver_of_result halted
  intro e move
  simp only [moves, List.mem_cons, List.not_mem_nil, or_false] at move
  rcases move with rfl | rfl | rfl <;> simp [step?, ended]

/-- A call that is started after the end sees at once that the channel is closed. -/
theorem step?_start_of_over (halted : s.result ≠ none) (held : 0 < s.handles) {method : String}
    {payload : Bytes} {patience : Option Nat} (within : payload.length ≤ s.limit.toNat)
    (short : (Utf8.encode method).length ≤ 255) :
    s.step? (.start method (.ok payload) patience) =
      some ({ s with started := s.started + 1 },
        [.resolved s.started (.error .channelClosed)]) := by
  have ended : isOver { s with started := s.started + 1 } = true := isOver_of_result halted
  have fits : ¬(s.limit.toNat < payload.length ∨ 255 < (Utf8.encode method).length) := by omega
  simp [step?, held, start, check, fits, ended]

theorem after_of_steps (steps : Steps step? t later u more) (halted : t.result ≠ none)
    (apart : t.Apart) (inPlace : t.InPlace) : After t u ∧ u.Apart ∧ u.InPlace := by
  induction steps with
  | none =>
    refine ⟨⟨halted, rfl, Nat.le_refl _, ?_⟩, apart, inPlace⟩
    split
    next released => exact inPlace.dropped halted released
    next => rfl
  | snoc _ step ih =>
    obtain ⟨after, apart, inPlace⟩ := ih
    have effect := effect_of_step? step
    exact ⟨after.effect effect inPlace, apart.effect effect, inPlace.effect effect⟩

/-- A caller that waits for ever for an ended driver sees nothing as long as there is a handle, and
then that the channel is closed. -/
theorem waits_of_steps (steps : Steps step? t later u more) (halted : t.result ≠ none)
    (apart : t.Apart) (inPlace : t.InPlace) (waits : t.WaitsForEver c)
    (stays : .giveUp c ∉ later) :
    (0 < u.handles → u.WaitsForEver c) ∧
      outcomes c more = if 0 < u.handles then [] else [.error .channelClosed] := by
  have member := waits.mem_callers
  induction steps with
  | none => exact ⟨fun _ => waits, (if_pos (inPlace.queued halted member).2).symm⟩
  | @snoc later s s' e before last steps step ih =>
    obtain ⟨early, now⟩ : .giveUp c ∉ later ∧ e ≠ .giveUp c := by simpa [eq_comm] using stays
    obtain ⟨after, apart', inPlace'⟩ := after_of_steps steps halted apart inPlace
    have effect := effect_of_step? step
    obtain ⟨still, told⟩ := ih early
    rw [outcomes_append, told]
    by_cases held : 0 < s.handles
    · rw [if_pos held, List.nil_append]
      exact effect.waits_of_over apart' inPlace' after.halted (still held) now
    · -- the last handle was gone before, and the caller with it
      have none : ¬0 < s'.handles := fun some => held (effect.handles_pos some)
      have gone : c ∉ s.callers := fun waits => held (inPlace'.queued after.halted waits).2
      have known : c < s.started :=
        Nat.lt_of_lt_of_le (apart.known c (inPlace.placed c member)) after.started
      rw [if_neg held, if_neg none, effect.outcomes_eq_nil known gone]
      exact ⟨fun some => absurd some none, rfl⟩

/-- Whoever was started and does not wait never waits again, and sees nothing more. -/
theorem gone_of_steps (steps : Steps step? t later u more) (known : c < t.started)
    (gone : c ∉ t.callers) : (c < u.started ∧ c ∉ u.callers) ∧ outcomes c more = [] := by
  induction steps with
  | none => exact ⟨⟨known, gone⟩, rfl⟩
  | @snoc later s s' e before last _ step ih =>
    obtain ⟨⟨known, gone⟩, quiet⟩ := ih
    have effect := effect_of_step? step
    refine ⟨⟨Nat.lt_of_lt_of_le known effect.started_le, ?_⟩, ?_⟩
    · rcases effect.start_or_narrows with ⟨method, argument, patience, rfl⟩ | ⟨-, go⟩
      · cases effect with
        | refuses => exact gone
        | accepts =>
          have other : s.started ≠ c := Nat.ne_of_gt known
          simpa [other] using gone
      · exact fun waits => gone (go.waits c waits).1
    · rw [outcomes_append, quiet, effect.outcomes_eq_nil known gone, List.nil_append]

/-- The driver does not end when a call is started. -/
theorem Effect.narrows_of_ending (h : s.Effect e s' notes) (running : s.result = none)
    (ended : s'.result ≠ none) : Narrows e s s' notes := by
  rcases h.start_or_narrows with ⟨method, argument, patience, rfl⟩ | ⟨-, go⟩
  · cases h with
    | refuses | accepts => exact absurd running ended
  · exact go

/-- The end of the driver tells each call that waits, but for those in the queue, that the channel
is closed. A call in the queue, whose frame never was written, waits on for as long as there is a
handle; when the last handle goes away it sees the same. So does, at once, whoever starts a call
later. From then on nobody else waits, and nothing moves any more. -/
theorem ended_driver_leaves_only_the_queue {limit : UInt32} {handles : Nat} {es : List Event}
    {past shown : List Note}
    (run : ({ limit, handles } : Client).run? es = some (s, past)) (running : s.result = none)
    (step : s.step? e = some (t, shown)) (ended : t.result ≠ none)
    (rest : t.run? later = some (u, more)) :
    u.Settled ∧
      (∀ c ∈ s.callers, c ∉ t.queued → outcomes c (past ++ shown) = [.error .channelClosed]) ∧
      (∀ c f, .wrote c f ∈ past ++ shown → c ∉ t.queued) ∧
      (∀ c, s.WaitsForEver c → .giveUp c ∉ later →
        outcomes c (past ++ shown ++ more) =
          if c ∈ t.queued ∧ 0 < u.handles then [] else [.error .channelClosed]) ∧
      (∀ c ∈ u.callers, c ∈ t.queued ∧ 0 < u.handles) ∧
      (∀ c < u.started, .giveUp c ∉ es ++ e :: later →
        c ∈ u.callers ∨ ∃ r, outcomes c (past ++ shown ++ more) = [r]) ∧
      (0 < u.handles → ∀ method payload patience,
        payload.length ≤ limit.toNat → (Utf8.encode method).length ≤ 255 →
          u.step? (.start method (.ok payload) patience) =
            some ({ u with started := u.started + 1 },
              [.resolved u.started (.error .channelClosed)])) := by
  have before := run?_eq_some_iff.1 run
  have upTo := before.snoc step
  have onward := run?_eq_some_iff.1 rest
  have effect := effect_of_step? step
  obtain ⟨waiting, apart, inPlace⟩ := inPlace_of_steps before
  obtain ⟨-, apart', inPlace'⟩ := inPlace_of_steps upTo
  obtain ⟨state, -, inPlace''⟩ := after_of_steps onward ended apart' inPlace'
  have told : ∀ c ∈ s.callers, outcomes c (past ++ shown) =
      if c ∈ t.queued then [] else [.error .channelClosed] := by
    intro c waits
    rw [outcomes_append, waiting.unresolved c waits, List.nil_append]
    exact (effect.outcomes_of_ending apart inPlace running ended waits).1
  refine ⟨settled_of_over state.halted, ?_, ?_, ?_, ?_, ?_, ?_⟩
  · intro c waits out
    rw [told c waits, if_neg out]
  · intro c f wrote
    exact (offQueue_of_steps upTo c f wrote).2
  · intro c waits stays
    have member := waits.mem_callers
    rw [outcomes_append, told c member]
    have go := effect.narrows_of_ending running ended
    by_cases queued : c ∈ t.queued
    · -- the call is left in the queue, and what becomes of it is up to the handles
      have left := (effect.outcomes_of_ending apart inPlace running ended member).2 queued
      have state := waits_of_steps onward ended apart' inPlace' (go.waitsForEver waits left) stays
      simp [queued, state.2]
    · have gone : c ∉ t.callers := fun waits => queued (inPlace'.queued ended waits).1
      have known : c < t.started := go.started ▸ waiting.started c member
      simp [queued, (gone_of_steps onward known gone).2]
  · intro c waits
    obtain ⟨queued, held⟩ := inPlace''.queued state.halted waits
    rw [state.queue, if_neg (Nat.ne_of_gt held)] at queued
    exact ⟨queued, held⟩
  · intro c known stays
    refine waits_or_resolved_of_steps (upTo.trans onward) known ?_
    rw [List.append_assoc]
    exact stays
  · intro held method payload patience within short
    refine step?_start_of_over state.halted held ?_ short
    rw [state.limit, limit_of_steps upTo]
    exact within

/-- The frame of the first of two calls cannot be written, and then the only handle goes away. -/
theorem last_handle_closes_queued_call : ∃ s past t shown u more,
    ({ limit := 100 } : Client).run? [.start "" (.ok [7]) none, .start "" (.ok [8]) none,
      .peerDeafens] = some (s, past) ∧ s.result = none ∧
    s.step? .pick = some (t, shown) ∧ t.result = some (.error (.io .brokenPipe)) ∧
    t.run? [.release] = some (u, more) ∧ 0 ∉ t.queued ∧ 1 ∈ t.queued ∧
    outcomes 0 (past ++ shown) = [.error .channelClosed] ∧
    outcomes 1 (past ++ shown ++ more) = [.error .channelClosed] := by
  obtain ⟨s, past, t, shown, u, more, run, running, step, ended, rest, out, queued, waits, left,
      none⟩ :
      ∃ s past t shown u more, ({ limit := 100 } : Client).run? [.start "" (.ok [7]) none,
        .start "" (.ok [8]) none, .peerDeafens] = some (s, past) ∧ s.result = none ∧
      s.step? .pick = some (t, shown) ∧ t.result = some (.error (.io .brokenPipe)) ∧
      t.run? [.release] = some (u, more) ∧ 0 ∉ t.queued ∧ 1 ∈ t.queued ∧ 0 ∈ s.callers ∧
      s.WaitsForEver 1 ∧ u.handles = 0 :=
    ⟨_, _, _, _, _, _, rfl, rfl, rfl, rfl, rfl, by decide, by decide, by decide, ⟨_, rfl, rfl⟩, rfl⟩
  obtain ⟨-, first, -, second, -⟩ :=
    ended_driver_leaves_only_the_queue run running step (by simp [ended]) rest
  refine ⟨s, past, t, shown, u, more, run, running, step, ended, rest, out, queued,
    first 0 waits out, ?_⟩
  simpa [none] using second 1 left (by simp)

/-- With the handle still there, the second of these calls waits for ever. -/
theorem queued_call_outlives_driver : ∃ s notes,
    ({ limit := 100 } : Client).run? [.start "" (.ok [7]) none, .start "" (.ok [8]) none,
      .peerDeafens, .pick] = some (s, notes) ∧
    s.result = some (.error (.io .brokenPipe)) ∧ s.Settled ∧ s.WaitsForEver 1 ∧
    outcomes 0 notes = [.error .channelClosed] ∧ outcomes 1 notes = [] :=
  ⟨_, _, rfl, rfl, settled_of_over (by decide), ⟨_, rfl, rfl⟩, by decide, by decide⟩

end

end RemoteCall.Client
