import RemoteCall.Proofs.Client.Leaving

/-!
# Calls that are refused

A call is refused when it is picked up and no id is free. Only its caller hears of it: who hears
that there are too many calls has been refused (`refused_of_run?`), and who has been refused hears
that, unless it has given up or its time is over (`outcomes_of_refused`).
-/

namespace RemoteCall.Client

section
variable {s s' u : Client} {e : Event} {es : List Event} {notes shown : List Note} {c : Nat}

/-! ## Which calls are refused -/

theorem refused?_of_ne (other : e ≠ .pick) : s.refused? e = none := by
  cases e with
  | pick => exact absurd rfl other
  | _ => rfl

theorem mem_queued_of_refused? (refused : s.refused? e = some c) : c ∈ s.queued := by
  cases e with
  | pick =>
    rw [Client.refused?] at refused
    split at refused
    next caller method payload rest queue =>
      obtain ⟨-, rfl⟩ : _ ∧ caller = c := by simpa using refused
      rw [queued_of_call queue]
      exact List.mem_cons_self
    next => cases refused
  | _ => cases refused

/-- Only a call in the queue, or one that starts later, is refused. -/
theorem refusals_known (refused : c ∈ s.refusals es) : c ∈ s.queued ∨ s.started ≤ c := by
  induction es generalizing s with
  | nil => cases refused
  | cons e es ih =>
    rw [refusals] at refused
    rcases List.mem_append.1 refused with now | later
    · exact .inl (mem_queued_of_refused? (Option.mem_toList.1 now))
    · cases step : s.step? e with
      | none => simp [step] at later
      | some p =>
        have effect := effect_of_step? step
        simp only [step] at later
        rcases ih later with queued | started
        · exact (effect.queued_cases queued).imp_right fun new => Nat.le_of_eq new.symm
        · exact .inr (Nat.le_trans effect.started_le started)

/-! ## What their callers hear -/

theorem check_ne_tooManyCalls (s : Client) (method : String) (argument : Except IoError Bytes) :
    s.check method argument ≠ .error .tooManyCalls := by
  unfold check
  split
  · simp
  · split
    · simp
    · split <;> simp

/-- Nobody but the caller of a refused call hears that there are too many calls. -/
theorem Effect.refused_of_told (h : s.Effect e s' shown)
    (told : .resolved c (.error .tooManyCalls) ∈ shown) : s.refused? e = some c := by
  cases h with
  | @refuses method argument patience e _ failed =>
    obtain ⟨-, rfl⟩ : _ ∧ CallError.tooManyCalls = e := by simpa using told
    exact (check_ne_tooManyCalls s method argument failed).elim
  | accepts | awaits | closesLate | closes | clones | givesUp | arrives | peerEnds | peerDeafens =>
    cases told
  | writes | skipsCall | skipsReply => simp at told
  | releases => cases resolved_mem_dropQueue told
  | ticks => cases resolved_mem_resolveAll told
  | picksClose | failsToWrite | breaks | ends | retires => cases resolved_mem_finish told
  | @exhausts caller method payload rest running queue full =>
    obtain ⟨rfl, -⟩ : c = caller ∧ _ := by simpa [resolveAll] using told
    simp [Client.refused?, queue, isOver, running, full]
  | @answers f rest i status n caller =>
    have answer := resolved_mem_resolveAll (by simpa using told)
    cases status <;> cases answer

theorem refused_of_run? (run : s.run? es = some (s', notes))
    (told : .resolved c (.error .tooManyCalls) ∈ notes) : c ∈ s.refusals es := by
  induction es generalizing s notes with
  | nil =>
    obtain ⟨-, rfl⟩ := by simpa [run?] using run
    cases told
  | cons e es ih =>
    obtain ⟨u, shown, more, step, rest, rfl⟩ := exists_of_run?_cons run
    rw [refusals_cons es step]
    rcases List.mem_append.1 told with now | later
    · have refused := (effect_of_step? step).refused_of_told now
      exact List.mem_append_left _ (Option.mem_toList.2 refused)
    · exact List.mem_append_right _ (ih rest later)

/-- A caller that does not give up waits as long as its call is in the queue, or sees that its time
is over. -/
theorem Effect.waits_or_times_out (h : s.Effect e u shown) (apart : s.Apart) (inPlace : s.InPlace)
    (stays : e ≠ .giveUp c) (waits : c ∈ s.callers) (queued : c ∈ u.queued) :
    c ∈ u.callers ∧ outcomes c shown = [] ∨
      c ∉ u.callers ∧ outcomes c shown = [.error .timeout] := by
  by_cases ending : s.result = none ∧ u.result ≠ none
  · obtain ⟨told, left⟩ := h.outcomes_of_ending apart inPlace ending.1 ending.2 waits
    exact .inl ⟨left queued, told.trans (if_pos queued)⟩
  have known := apart.known c (inPlace.placed c waits)
  -- who is not named waits on
  have unnamed : ∀ (t : Client) (cs : List Nat) (o : Outcome), c ∈ t.callers → c ∉ cs →
      c ∈ (t.resolveAll cs o).1.callers ∧ outcomes c (t.resolveAll cs o).2 = [] := by
    intro t cs o waits other
    have still := (mem_callers_resolveAll t cs o c).2 ⟨waits, other⟩
    exact ⟨still, ((LetsGo.resolveAll t cs o).waits c still).2⟩
  cases h with
  | closesLate | closes | clones | arrives | peerEnds | peerDeafens | writes | skipsCall
  | skipsReply =>
    exact .inl ⟨waits, rfl⟩
  | refuses =>
    have other : s.started ≠ c := Nat.ne_of_gt known
    exact .inl ⟨waits, by simp [other]⟩
  | accepts => exact .inl ⟨Std.TreeMap.mem_insert.2 (.inr waits), rfl⟩
  | awaits => exact .inl ⟨(mem_callers_await _ _ _).2 waits, rfl⟩
  | givesUp caller =>
    have other : caller ≠ c := fun same => stays (by rw [same])
    exact .inl ⟨Std.TreeMap.mem_erase.2 ⟨by simpa using other, waits⟩, rfl⟩
  | releases =>
    by_cases running : s.result = none
    · rw [dropQueue_of_running { s with handles := s.handles - 1 } running]
      exact .inl ⟨waits, rfl⟩
    have halted : result { s with handles := s.handles - 1 } ≠ none := running
    rw [dropQueue_queued halted] at queued
    by_cases last : handles { s with handles := s.handles - 1 } = 0
    · rw [if_pos last] at queued
      cases queued
    · rw [dropQueue_of_held last]
      exact .inl ⟨waits, rfl⟩
  | ticks ms =>
    by_cases late : c ∈ due { s with now := s.now + ms }
    · right
      rw [tick, mem_callers_resolveAll, outcomes_resolveAll, if_pos waits, (nodup_due _).count,
        if_pos late]
      exact ⟨fun still => still.2 late, rfl⟩
    · exact .inl (unnamed _ _ _ waits late)
  | @exhausts caller method payload rest _ queue =>
    have order : s.queued = caller :: Client.queued { s with commands := rest } :=
      queued_of_call queue
    obtain ⟨alone, -⟩ := List.nodup_cons.1 (order ▸ apart.nodup)
    have other : c ∉ [caller] := fun same => alone (List.mem_singleton.1 same ▸ queued)
    exact .inl (unnamed _ _ _ waits other)
  | @answers f rest i status n caller _ _ _ holds =>
    have other : c ∉ [caller] := fun same =>
      apart.apart c queued i (List.mem_singleton.1 same ▸ holds)
    exact .inl (unnamed _ _ _ waits other)
  | picksClose running | failsToWrite running | breaks running | ends running
  | retires running => simp [running] at ending

theorem Effect.hears_of_refusal (h : s.Effect e u shown) (refused : s.refused? e = some c)
    (waits : c ∈ s.callers) :
    c ∉ u.callers ∧ outcomes c shown = [.error .tooManyCalls] := by
  cases h with
  | @exhausts caller method payload rest running queue full =>
    obtain rfl : caller = c := by
      simpa [Client.refused?, queue, isOver, running, full] using refused
    rw [resolve_eq, mem_callers_resolveAll, outcomes_resolveAll, if_pos waits]
    exact ⟨by simp, by simp⟩
  | picksClose _ queue => simp [Client.refused?, queue] at refused
  | failsToWrite _ queue free | writes _ queue free =>
    simp [Client.refused?, queue, free] at refused
  | refuses | accepts | awaits | closesLate | closes | clones | releases | givesUp | arrives
  | peerEnds | peerDeafens | ticks | skipsCall | skipsReply | answers | breaks | ends | retires =>
    cases refused

/-- A call that comes into the queue has a caller that waits. -/
theorem Effect.waits_of_new (h : s.Effect e u shown) (apart : s.Apart) (new : s.started ≤ c)
    (queued : c ∈ u.queued) : c ∈ u.callers ∧ outcomes c shown = [] := by
  have known := (apart.effect h).known c (.inl queued)
  have before : c ∉ s.queued := fun member =>
    absurd (apart.known c (.inl member)) (Nat.not_lt.2 new)
  rcases h.start_or_narrows with ⟨method, argument, patience, rfl⟩ | ⟨-, go⟩
  · cases h with
    | refuses => exact absurd queued before
    | accepts =>
      obtain rfl : c = s.started := Nat.le_antisymm (Nat.le_of_lt_succ known) new
      exact ⟨by simp, rfl⟩
  · rw [go.started] at known
    exact absurd known (Nat.not_lt.2 new)

/-- A caller whose call is refused hears that there are too many calls, unless it has given up or
its time is over. -/
theorem outcomes_of_refused (apart : s.Apart) (inPlace : s.InPlace)
    (run : s.run? es = some (s', notes)) (refused : c ∈ s.refusals es) (stays : .giveUp c ∉ es)
    (ready : c ∈ s.callers ∨ s.started ≤ c) :
    outcomes c notes = [.error .tooManyCalls] ∨ outcomes c notes = [.error .timeout] := by
  -- on the events: the caller is not there yet, then it waits, then it has heard all
  induction es generalizing s notes with
  | nil => cases refused
  | cons e es ih =>
    obtain ⟨u, shown, more, step, rest, rfl⟩ := exists_of_run?_cons run
    have effect := effect_of_step? step
    have apart' := apart.effect effect
    have inPlace' := inPlace.effect effect
    obtain ⟨now, later⟩ : e ≠ .giveUp c ∧ .giveUp c ∉ es := by simpa [eq_comm] using stays
    have gone : c < u.started → c ∉ u.callers → outcomes c more = [] := fun known out =>
      (gone_of_steps (run?_eq_some_iff.1 rest) known out).2
    rw [outcomes_append]
    rw [refusals_cons es step] at refused
    rcases List.mem_append.1 refused with here | there
    · have is := Option.mem_toList.1 here
      have known := apart.known c (.inl (mem_queued_of_refused? is))
      have waits := ready.resolve_right (Nat.not_le.2 known)
      obtain ⟨out, told⟩ := effect.hears_of_refusal is waits
      left
      rw [told, gone (Nat.lt_of_lt_of_le known effect.started_le) out]
      rfl
    · rcases refusals_known there with queued | new
      · rcases ready with waits | new
        · rcases effect.waits_or_times_out apart inPlace now waits queued with
            ⟨still, quiet⟩ | ⟨out, told⟩
          · rw [quiet]
            exact ih apart' inPlace' rest there later (.inl still)
          · right
            rw [told, gone (apart'.known c (.inl queued)) out]
            rfl
        · obtain ⟨waits, quiet⟩ := effect.waits_of_new apart new queued
          rw [quiet]
          exact ih apart' inPlace' rest there later (.inl waits)
      · have waiting : Waiting s [] :=
          ⟨fun d hd => apart.known d (inPlace.placed d hd), fun _ _ => rfl, fun _ _ => rfl⟩
        have quiet : outcomes c shown = [] := (waiting.effect effect).unstarted c new
        rw [quiet]
        exact ih apart' inPlace' rest there later (.inr new)

end

end RemoteCall.Client
