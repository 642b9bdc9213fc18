import RemoteCall.Proofs.Client.Correlation
import RemoteCall.Proofs.Client.Requests

/-!
# The earliest event decides

Several events can decide a call: what stands in its way at the start, that no id is free for it,
its reply, the end of the driver, and its deadline, which is set when its caller first awaits it
(`Answers`). In each step whoever waits hears what the event decides (`Effect.told_of_answers`), and
nothing else, unless its call was left in the queue of an ended driver and has gone with it
(`Effect.answers_or_left_of_told`). So the outcome of a call is the one of the first event that
decides it, and there is no other (`earliest_event_decides`).
-/

namespace RemoteCall.Client

/-! ## Time -/

/-- How much time passes in the event. -/
def Event.duration : Event → Nat
  | .tick ms => ms
  | _ => 0

/-- What the events make of the wait of the caller `c`, from that time on. -/
def Wait.behind (c : Nat) : Wait → Nat → List Event → Wait
  | w, _, [] => w
  | w, now, e :: es => (w.after c now e).behind c (now + e.duration) es

/-- A deadline that is set stays. -/
theorem Wait.deadline_after {c now d : Nat} {w : Wait} (e : Event) (set : w.deadline = some d) :
    (w.after c now e).deadline = some d := by
  unfold after
  split
  next =>
    split
    · obtain ⟨patience, since⟩ := w
      cases since with
      | none => cases set
      | some since => exact set
    · exact set
  next => exact set

theorem Wait.deadline_behind {c d : Nat} {w : Wait} (es : List Event) :
    ∀ now, w.deadline = some d → (w.behind c now es).deadline = some d := by
  induction es generalizing w with
  | nil => exact fun _ set => set
  | cons e es ih => exact fun now set => ih _ (deadline_after e set)

/-- An event sets a deadline that is still to come. -/
theorem Wait.deadline_after_cases {c now d : Nat} {w : Wait} {e : Event}
    (set : (w.after c now e).deadline = some d) : w.deadline = some d ∨ now ≤ d := by
  unfold after at set
  split at set
  next =>
    split at set
    · obtain ⟨patience, since⟩ := w
      cases since with
      | some since => exact .inl set
      | none =>
        cases patience with
        | none => cases set
        | some ms => exact .inr (Option.some.inj set ▸ Nat.le_add_right now ms)
    · exact .inl set
  next => exact .inl set

/-! ## Deciding a call -/

/-- The event decides the call `c`, whose caller waits like that, with this outcome. -/
inductive Answers (c : Nat) (w : Wait) (s : Client) : Event → Client → Outcome → Prop
  /-- The argument of the call is no payload. -/
  | unserialized {s' : Client} {method : String} {e : IoError} {patience : Option Nat} :
    s.started = c → Answers c w s (.start method (.error e) patience) s'
      (.error (.serialization e))
  /-- The call makes no frame. -/
  | unfit {s' : Client} {method : String} {payload : Bytes} {patience : Option Nat} :
    s.started = c → s.limit.toNat < payload.length ∨ 255 < (Utf8.encode method).length →
    Answers c w s (.start method (.ok payload) patience) s' (.error .invalidFrame)
  /-- The driver has ended already. -/
  | shut {s' : Client} {method : String} {payload : Bytes} {patience : Option Nat} :
    s.started = c → payload.length ≤ s.limit.toNat → (Utf8.encode method).length ≤ 255 →
    s.result ≠ none →
    Answers c w s (.start method (.ok payload) patience) s' (.error .channelClosed)
  /-- The call is picked up, and no id is free. -/
  | full {s' : Client} {method : String} {payload : Bytes} {rest : List Command} :
    s.result = none → s.commands = .call c method payload :: rest →
    SendId.allocate? s.outstanding s.next = none →
    Answers c w s .pick s' (.error .tooManyCalls)
  /-- A reply comes under the id of the call. -/
  | replied {s' : Client} {f : Frame} {rest : Bytes} {i : SendId} {status : ReplyStatus}
      {n : UInt32} : s.result = none → Frame.read s.limit s.inbound = .item f rest →
    f.head = .reply i status n → s.outstanding[i]? = some c →
    Answers c w s .take s' (.ofReply status f.payload)
  /-- The driver ends while the call is outstanding. -/
  | ended {e : Event} {s' : Client} {i : SendId} : s.outstanding[i]? = some c →
    s.result = none → s'.result ≠ none → Answers c w s e s' (.error .channelClosed)
  /-- The driver ends as the call has got its id and its frame cannot be written. -/
  | unwritten {s' : Client} {method : String} {payload : Bytes} {rest : List Command}
      {i next : SendId} : s.result = none → s.commands = .call c method payload :: rest →
    SendId.allocate? s.outstanding s.next = some (i, next) → s.peerDeaf = true →
    Answers c w s .pick s' (.error .channelClosed)
  /-- The deadline comes. -/
  | overdue {s' : Client} {ms d : Nat} : w.deadline = some d → d ≤ s.now + ms →
    Answers c w s (.tick ms) s' (.error .timeout)

/-- The first of the events that decides the call, before its caller gives up, does so with this
outcome. The wait is the one before the events. -/
inductive First (c : Nat) (decides : Wait → Client → Event → Client → Outcome → Prop) :
    Wait → Client → List Event → Outcome → Prop
  | here {w : Wait} {s s' : Client} {e : Event} {es : List Event} {notes : List Note}
      {r : Outcome} : s.step? e = some (s', notes) → decides w s e s' r →
    First c decides w s (e :: es) r
  | later {w : Wait} {s s' : Client} {e : Event} {es : List Event} {notes : List Note}
      {r : Outcome} : s.step? e = some (s', notes) → e ≠ .giveUp c → (∀ q, ¬decides w s e s' q) →
    First c decides (w.after c s.now e) s' es r → First c decides w s (e :: es) r

/-- The callers whose commands are in the queue and not picked up by the event. -/
def left (s : Client) : Event → List Nat
  | .pick => queued { s with commands := s.commands.tail }
  | _ => s.queued

/-- At one of the events the driver ends and leaves the call in the queue, while its caller
waits. -/
inductive Strands (c : Nat) : Client → List Event → Prop
  | here {s s' : Client} {e : Event} {es : List Event} {notes : List Note} :
    s.step? e = some (s', notes) → s.result = none → s'.result ≠ none → c ∈ s.callers →
    c ∈ s.left e → Strands c s (e :: es)
  | later {s s' : Client} {e : Event} {es : List Event} {notes : List Note} :
    s.step? e = some (s', notes) → Strands c s' es → Strands c s (e :: es)

/-! ## Each step -/

section
variable {s s' : Client} {e : Event} {shown : List Note} {c : Nat} {w : Wait} {r : Outcome}

theorem Apart.waiting (h : s.Apart) (inPlace : s.InPlace) : Waiting s [] :=
  ⟨fun c waits => h.known c (inPlace.placed c waits), fun _ _ => rfl, fun _ _ => rfl⟩

/-- Whoever waits after the step has heard nothing in it. -/
theorem Effect.outcomes_of_waits (h : s.Effect e s' shown) (apart : s.Apart) (inPlace : s.InPlace)
    (waits : c ∈ s'.callers) : outcomes c shown = [] :=
  ((apart.waiting inPlace).effect h).unresolved c waits

/-- Who is told by a list is named in it. -/
theorem eq_of_mem_outcomes_resolveAll {t : Client} {cs : List Nat} {q : Outcome}
    (told : r ∈ outcomes c (t.resolveAll cs q).2) : c ∈ cs ∧ r = q := by
  rw [outcomes_resolveAll] at told
  split at told
  next =>
    obtain ⟨some, same⟩ := List.mem_replicate.1 told
    exact ⟨List.count_pos_iff.1 (Nat.pos_of_ne_zero some), same⟩
  next => cases told

/-! ### The end of the driver -/

/-- Of the calls in the queue the driver leaves those there that it did not just pick up. -/
theorem Effect.mem_left_of_queued (h : s.Effect e s' shown) (running : s.result = none)
    (ended : s'.result ≠ none) (queued : c ∈ s'.queued) : c ∈ s.left e := by
  cases h with
  | refuses | accepts | awaits | closes | clones | givesUp | arrives | peerEnds | peerDeafens
  | ticks | writes | skipsCall | skipsReply => exact absurd running ended
  | exhausts | answers => exact absurd running (by simpa using ended)
  | closesLate _ before => exact absurd running before
  | releases => exact absurd running (by simpa using ended)
  | picksClose _ queue | failsToWrite _ queue =>
    have later := (queued_finish_sublist _ _).subset queued
    rw [left, queue]
    exact later
  | breaks | ends | retires =>
    have before := (queued_finish_sublist _ _).subset queued
    exact before

/-- A call that the end of the driver does not leave in the queue was outstanding, or got an id just
then. -/
theorem Effect.answers_of_ending (h : s.Effect e s' shown) (running : s.result = none)
    (ended : s'.result ≠ none) (placed : s.Placed c) (out : c ∉ s.left e) :
    Answers c w s e s' (.error .channelClosed) := by
  rcases placed with queued | ⟨i, holds⟩
  case inr => exact .ended holds running ended
  cases h with
  | refuses | accepts | awaits | closes | clones | givesUp | arrives | peerEnds | peerDeafens
  | ticks | writes | skipsCall | skipsReply => exact absurd running ended
  | exhausts | answers => exact absurd running (by simpa using ended)
  | closesLate _ before => exact absurd running before
  | releases => exact absurd running (by simpa using ended)
  | picksClose _ queue =>
    rw [queued_of_close queue] at queued
    rw [left, queue] at out
    exact absurd queued out
  | failsToWrite _ queue free deaf =>
    rw [queued_of_call queue] at queued
    rw [left, queue] at out
    obtain rfl := (List.mem_cons.1 queued).resolve_right out
    exact .unwritten running queue free deaf
  | breaks | ends | retires => exact absurd queued out

/-! ### What a caller hears -/

/-- What a caller hears is what the event decides, or that its call was left in the queue of an
ended driver and has gone with it. -/
theorem Effect.answers_or_left_of_told (h : s.Effect e s' shown) (apart : s.Apart)
    (inPlace : s.InPlace) (waits : s.callers[c]? = some w) (told : outcomes c shown = [r]) :
    Answers c w s e s' r ∨
      (s.result ≠ none ∨ s'.result ≠ none ∧ c ∈ s.left e) ∧ r = .error .channelClosed := by
  have member := mem_callers_of_getElem? waits
  have placed := inPlace.placed c member
  have known := apart.known c placed
  have named : ∀ (t : Client) (cs : List Nat) (q : Outcome),
      outcomes c (t.resolveAll cs q).2 = [r] → c ∈ cs ∧ r = q := fun t cs q told =>
    eq_of_mem_outcomes_resolveAll (told ▸ List.mem_singleton_self r)
  by_cases ending : s.result = none ∧ s'.result ≠ none
  · obtain ⟨running, ended⟩ := ending
    obtain ⟨heard, -⟩ := h.outcomes_of_ending apart inPlace running ended member
    rw [told] at heard
    split at heard
    next => cases heard
    next =>
      obtain rfl := List.singleton_inj.1 heard
      by_cases out : c ∈ s.left e
      · exact .inr ⟨.inr ⟨ended, out⟩, rfl⟩
      · exact .inl (h.answers_of_ending running ended placed out)
  cases h with
  | accepts | awaits | closesLate | closes | clones | arrives | peerEnds | peerDeafens | writes
  | givesUp | skipsCall | skipsReply => cases told
  | refuses =>
    have other : s.started ≠ c := Nat.ne_of_gt known
    simp [other] at told
  | releases =>
    by_cases running : s.result = none
    · rw [dropQueue_of_running { s with handles := s.handles - 1 } running] at told
      cases told
    · unfold dropQueue at told
      split at told
      · exact .inr ⟨.inl running, (named _ _ _ told).2⟩
      · cases told
  | ticks ms =>
    obtain ⟨late, rfl⟩ := named _ _ _ told
    obtain ⟨v, d, holds, deadline, past⟩ := mem_due_iff.1 late
    obtain rfl : w = v := Option.some.inj (waits.symm.trans holds)
    exact .inl (.overdue deadline past)
  | exhausts running queue none =>
    obtain ⟨is, rfl⟩ := named _ _ _ told
    obtain rfl := List.mem_singleton.1 is
    exact .inl (.full running queue none)
  | answers running item head holds =>
    obtain ⟨is, rfl⟩ := named _ _ _ told
    obtain rfl := List.mem_singleton.1 is
    exact .inl (.replied running item head holds)
  | picksClose running | failsToWrite running | breaks running | ends running | retires running =>
    exact absurd ⟨running, by simp⟩ ending

/-! ### What the step does with the call -/

theorem Effect.of_full (h : s.Effect .pick s' shown) {method : String} {payload : Bytes}
    {rest : List Command} (queue : s.commands = .call c method payload :: rest)
    (none : SendId.allocate? s.outstanding s.next = none) :
    s' = ({ s with commands := rest }.resolve c (.error .tooManyCalls)).1 ∧
      shown = ({ s with commands := rest }.resolve c (.error .tooManyCalls)).2 := by
  cases h with
  | picksClose _ queue' => simp [queue] at queue'
  | failsToWrite _ _ free | writes _ _ free => simp [none] at free
  | exhausts _ queue' =>
    obtain ⟨⟨rfl, rfl, rfl⟩, rfl⟩ := by simpa [queue] using queue'
    exact ⟨rfl, rfl⟩

theorem Effect.of_unwritten (h : s.Effect .pick s' shown) {method : String} {payload : Bytes}
    {rest : List Command} {i next : SendId} (queue : s.commands = .call c method payload :: rest)
    (free : SendId.allocate? s.outstanding s.next = some (i, next)) (deaf : s.peerDeaf = true) :
    s'.result ≠ none ∧ s'.queued.Sublist (queued { s with commands := rest }) := by
  cases h with
  | picksClose _ queue' => simp [queue] at queue'
  | exhausts _ _ full => simp [free] at full
  | writes _ _ _ hears => simp [deaf] at hears
  | failsToWrite _ queue' =>
    obtain ⟨⟨rfl, rfl, rfl⟩, rfl⟩ := by simpa [queue] using queue'
    exact ⟨by simp, queued_finish_sublist _ _⟩

theorem Effect.of_replied (h : s.Effect .take s' shown) {f : Frame} {rest : Bytes} {i : SendId}
    {status : ReplyStatus} {n : UInt32} (item : Frame.read s.limit s.inbound = .item f rest)
    (head : f.head = .reply i status n) (holds : s.outstanding[i]? = some c) :
    s' = ({ s with inbound := rest, outstanding := s.outstanding.erase i }.resolve c
        (.ofReply status f.payload)).1 ∧
      shown = .got f :: ({ s with inbound := rest, outstanding := s.outstanding.erase i }.resolve c
        (.ofReply status f.payload)).2 := by
  cases h with
  | skipsCall _ item' head' =>
    obtain ⟨rfl, rfl⟩ := by simpa [item] using item'
    simp [head] at head'
  | skipsReply _ item' head' free =>
    obtain ⟨rfl, rfl⟩ := by simpa [item] using item'
    obtain ⟨rfl, rfl, rfl⟩ := by simpa [head] using head'
    simp [holds] at free
  | breaks _ item' | ends _ item' => simp [item] at item'
  | answers _ item' head' holds' =>
    obtain ⟨rfl, rfl⟩ := by simpa [item] using item'
    obtain ⟨rfl, rfl, rfl⟩ := by simpa [head] using head'
    obtain rfl := by simpa [holds] using holds'
    exact ⟨rfl, rfl⟩

/-- A caller that waits hears what the event decides. -/
theorem Effect.told_of_answers (h : s.Effect e s' shown) (apart : s.Apart) (inPlace : s.InPlace)
    (waits : s.callers[c]? = some w) (answers : Answers c w s e s' r) : outcomes c shown = [r] := by
  have member := mem_callers_of_getElem? waits
  have known := apart.known c (inPlace.placed c member)
  -- the end of the driver is heard by all but those that it leaves in the queue
  have closing : s.result = none → s'.result ≠ none → c ∉ s'.queued →
      outcomes c shown = [.error .channelClosed] := fun running ended out =>
    (h.outcomes_of_ending apart inPlace running ended member).1.trans (if_neg out)
  have alone : ∀ (t : Client) (q : Outcome), t.callers = s.callers →
      outcomes c (t.resolve c q).2 = [q] := by
    intro t q callers
    rw [resolve_eq, outcomes_resolveAll, callers, if_pos member]
    simp
  cases answers with
  | unserialized new | unfit new | shut new => exact absurd new (Nat.ne_of_gt known)
  | full _ queue none =>
    obtain ⟨-, rfl⟩ := h.of_full queue none
    exact alone _ _ rfl
  | replied _ item head holds =>
    obtain ⟨-, rfl⟩ := h.of_replied item head holds
    exact alone _ _ rfl
  | ended holds running halted =>
    refine closing running halted fun left => ?_
    rcases h.queued_cases left with queued | new
    · exact apart.apart c queued _ holds
    · exact Nat.ne_of_lt known new
  | unwritten running queue free deaf =>
    obtain ⟨halted, left⟩ := h.of_unwritten queue free deaf
    obtain ⟨gone, -⟩ := List.nodup_cons.1 (queued_of_call queue ▸ apart.nodup)
    exact closing running halted fun queued => gone (left.subset queued)
  | @overdue _ ms d same past =>
    cases h with
    | ticks =>
      have late : c ∈ due { s with now := s.now + ms } := mem_due_iff.2 ⟨w, d, waits, same, past⟩
      rw [tick, outcomes_resolveAll, if_pos member, (nodup_due _).count, if_pos late]
      rfl

/-- Only an outstanding call whose deadline comes keeps its place when it is decided. -/
theorem Effect.late_of_placed (h : s.Effect e s' shown) (apart : s.Apart) (inPlace : s.InPlace)
    (waits : s.callers[c]? = some w) (answers : Answers c w s e s' r) (still : s'.Placed c) :
    r = .error .timeout ∧ ∃ d, w.deadline = some d ∧ d ≤ s'.now := by
  have known := apart.known c (inPlace.placed c (mem_callers_of_getElem? waits))
  -- an ended driver has but its queue
  have left : s'.result ≠ none → c ∈ s'.queued := fun halted => still.resolve_right (by
    simp [(inPlace.effect h).idle halted])
  cases answers with
  | unserialized new | unfit new | shut new => exact absurd new (Nat.ne_of_gt known)
  | full _ queue none =>
    obtain ⟨rfl, -⟩ := h.of_full queue none
    have order := queued_of_call queue
    obtain ⟨gone, -⟩ := List.nodup_cons.1 (order ▸ apart.nodup)
    rcases still with later | ⟨i, holds⟩
    · exact absurd later gone
    · exact absurd holds (apart.apart c (order ▸ List.mem_cons_self) i)
  | @replied _ f rest i _ _ _ item head holds =>
    obtain ⟨rfl, -⟩ := h.of_replied item head holds
    rcases still with queued | ⟨j, holds'⟩
    · exact absurd holds (apart.apart c queued i)
    · rw [resolve_eq, resolveAll_outstanding, Std.TreeMap.getElem?_erase] at holds'
      obtain ⟨other, holds'⟩ := Option.ite_none_left_eq_some.1 holds'
      exact absurd (apart.once i j c holds holds') (by simpa using other)
  | ended holds running halted =>
    rcases h.queued_cases (left halted) with queued | new
    · exact absurd holds (apart.apart c queued _)
    · exact absurd new (Nat.ne_of_lt known)
  | unwritten running queue free deaf =>
    obtain ⟨halted, shorter⟩ := h.of_unwritten queue free deaf
    obtain ⟨gone, -⟩ := List.nodup_cons.1 (queued_of_call queue ▸ apart.nodup)
    exact absurd (shorter.subset (left halted)) gone
  | @overdue _ ms d same past =>
    cases h with
    | ticks => exact ⟨rfl, d, same, past⟩

/-- No call comes back to a place. -/
theorem Effect.placed_of_placed (h : s.Effect e s' shown) (known : c < s.started)
    (placed : s'.Placed c) : s.Placed c := by
  rcases placed with queued | ⟨i, holds⟩
  · rcases h.queued_cases queued with before | rfl
    · exact .inl before
    · exact absurd known (Nat.lt_irrefl _)
  cases h with
  | refuses | accepts | awaits | closesLate | closes | clones | givesUp | arrives | peerEnds
  | peerDeafens | ticks | skipsCall | skipsReply | exhausts => exact .inr ⟨i, holds⟩
  | releases => exact .inr ⟨i, by simpa using holds⟩
  | picksClose | failsToWrite | breaks | ends | retires => simp at holds
  | @writes caller method payload rest j next _ queue free =>
    rw [Std.TreeMap.getElem?_insert] at holds
    split at holds
    next =>
      obtain rfl := Option.some.inj holds
      exact .inl (by simp [queued_of_call queue])
    next => exact .inr ⟨i, holds⟩
  | answers =>
    rw [resolve_eq, resolveAll_outstanding, Std.TreeMap.getElem?_erase] at holds
    exact .inr ⟨i, (Option.ite_none_left_eq_some.1 holds).2⟩

/-! ### Time in a step -/

@[simp] theorem resolveAll_now (s : Client) (callers : List Nat) (r : Outcome) :
    (s.resolveAll callers r).1.now = s.now := rfl

@[simp] theorem dropQueue_now (s : Client) : s.dropQueue.1.now = s.now := by
  unfold dropQueue
  split <;> rfl

@[simp] theorem finish_now (s : Client) (r : Except CallError Unit) : (s.finish r).1.now = s.now :=
  dropQueue_now _

theorem Effect.now_eq (h : s.Effect e s' shown) : s'.now = s.now + e.duration := by
  cases h with
  | ticks => rfl
  | _ => simp [Event.duration, await]

/-- Who waits on waits as it did, but for what the event changes. -/
theorem Effect.keeps_wait (h : s.Effect e s' shown) (known : c < s.started)
    (waits : s.callers[c]? = some w) (still : c ∈ s'.callers) :
    s'.callers[c]? = some (w.after c s.now e) := by
  rcases h.start_or_narrows with ⟨method, argument, patience, rfl⟩ | ⟨-, go⟩
  · cases h with
    | refuses => exact waits
    | accepts =>
      rw [Std.TreeMap.getElem?_insert, if_neg (by simpa using Nat.ne_of_gt known)]
      exact waits
  · obtain ⟨w', holds⟩ : ∃ w', s'.callers[c]? = some w' :=
      Option.isSome_iff_exists.1 (Std.TreeMap.isSome_getElem?_iff_mem.2 still)
    obtain ⟨v, before, rfl⟩ := go.wait c w' holds
    obtain rfl : w = v := Option.some.inj (waits.symm.trans before)
    exact holds

/-- Who waits on has time left. -/
theorem Effect.now_le_deadline (h : s.Effect e s' shown) (waits : s.callers[c]? = some w)
    (early : ∀ d, w.deadline = some d → s.now ≤ d) (still : c ∈ s'.callers) :
    ∀ d, (w.after c s.now e).deadline = some d → s'.now ≤ d := by
  intro d set
  cases h with
  | ticks ms =>
    by_contra late
    refine ((mem_callers_resolveAll _ _ _ c).1 still).2 (mem_due_iff.2 ⟨w, d, waits, set, ?_⟩)
    exact Nat.le_of_not_le late
  | _ =>
    refine Nat.le_trans (Nat.le_of_eq ?_) ((Wait.deadline_after_cases set).elim (early d) id)
    simp [await]

/-- Only the deadline of a call makes it time out. -/
theorem Effect.overdue_of_timeout (h : s.Effect e s' shown)
    (told : .error .timeout ∈ outcomes c shown) :
    ∃ v d, s.callers[c]? = some v ∧ v.deadline = some d := by
  have closed : ∀ (t : Client) (q : Except CallError Unit),
      .error .timeout ∉ outcomes c (t.finish q).2 := by
    intro t q told
    rw [finish_eq, List.cons_append, outcomes_ended, outcomes_append, List.mem_append] at told
    rcases told with told | told
    · cases (eq_of_mem_outcomes_resolveAll told).2
    · unfold dropQueue at told
      split at told
      · cases (eq_of_mem_outcomes_resolveAll told).2
      · cases told
  cases h with
  | accepts | awaits | closesLate | closes | clones | arrives | peerEnds | peerDeafens | writes
  | givesUp | skipsCall | skipsReply => cases told
  | @refuses method argument patience err _ failed =>
    have other : err ≠ .timeout := by
      rintro rfl
      unfold check at failed
      repeat' split at failed
      all_goals cases failed
    simp only [outcomes_resolved, outcomes_nil] at told
    split at told
    · exact absurd (Except.error.inj (List.mem_singleton.1 told)).symm other
    · cases told
  | releases =>
    unfold dropQueue at told
    split at told
    · cases (eq_of_mem_outcomes_resolveAll told).2
    · cases told
  | ticks =>
    obtain ⟨v, d, holds, deadline, -⟩ := mem_due_iff.1 (eq_of_mem_outcomes_resolveAll told).1
    exact ⟨v, d, holds, deadline⟩
  | exhausts => cases (eq_of_mem_outcomes_resolveAll told).2
  | @answers f _ _ status =>
    rw [outcomes_got] at told
    have same := (eq_of_mem_outcomes_resolveAll told).2
    cases status <;> cases same
  | picksClose | failsToWrite | breaks | ends | retires => exact absurd told (closed _ _)

/-! ### The start of the call -/

/-- A call that cannot start is decided at once, and one that can is not decided by its start. -/
theorem answers_start_iff {method : String} {argument : Except IoError Bytes}
    {patience : Option Nat} (apart : s.Apart) :
    Answers s.started w s (.start method argument patience) s' r ↔
      s.check method argument = r ∧ ∃ e, r = .error e := by
  have fresh : ¬s.Placed s.started := fun placed => Nat.lt_irrefl _ (apart.known _ placed)
  constructor
  · intro answers
    cases answers with
    | unserialized => exact ⟨rfl, _, rfl⟩
    | unfit _ long => exact ⟨by simp [check, long], _, rfl⟩
    | shut _ fits short halted =>
      refine ⟨?_, _, rfl⟩
      simp only [check, isOver_of_result halted, Bool.or_eq_true, decide_eq_true_eq]
      rw [if_neg (by omega), if_pos trivial]
    | ended holds => exact absurd (.inr ⟨_, holds⟩) fresh
  · rintro ⟨checked, e, rfl⟩
    unfold check at checked
    split at checked
    next => cases checked; exact .unserialized rfl
    next payload =>
      simp only [Bool.or_eq_true, decide_eq_true_eq] at checked
      split at checked
      next long => cases checked; exact .unfit rfl long
      next inside =>
        split at checked
        next halted =>
          cases checked
          exact .shut rfl (by omega) (by omega) (Option.isSome_iff_ne_none.1 halted)
        next => cases checked

end

/-! ## Runs -/

section
variable {s t : Client} {e : Event} {es : List Event} {notes shown : List Note} {c : Nat}
  {w : Wait} {r : Outcome} {decides : Wait → Client → Event → Client → Outcome → Prop}

theorem first_cons_iff (step : s.step? e = some (t, shown)) :
    First c decides w s (e :: es) r ↔ decides w s e t r ∨
      e ≠ .giveUp c ∧ (∀ q, ¬decides w s e t q) ∧ First c decides (w.after c s.now e) t es r := by
  constructor
  · rintro (⟨step', is⟩ | ⟨step', stays, none, rest⟩)
    all_goals
      obtain ⟨rfl, rfl⟩ := by simpa [step] using step'
    · exact .inl is
    · exact .inr ⟨stays, none, rest⟩
  · rintro (is | ⟨stays, none, rest⟩)
    · exact .here step is
    · exact .later step stays none rest

/-- A call is told once at most, and not that its time is over if it has all the time. -/
theorem once_of_run? (apart : s.Apart) (inPlace : s.InPlace) (waits : s.callers[c]? = some w)
    (run : s.run? es = some (t, notes)) :
    (outcomes c notes).length ≤ 1 ∧ (w.patience = none → .error .timeout ∉ outcomes c notes) := by
  induction es generalizing s w notes with
  | nil =>
    obtain ⟨-, rfl⟩ := by simpa [run?] using run
    exact ⟨Nat.zero_le _, fun _ => List.not_mem_nil⟩
  | cons e es ih =>
    obtain ⟨u, shown, more, step, rest, rfl⟩ := exists_of_run?_cons run
    have effect := effect_of_step? step
    have member := mem_callers_of_getElem? waits
    have known := apart.known c (inPlace.placed c member)
    rw [outcomes_append]
    by_cases still : c ∈ u.callers
    · rw [effect.outcomes_of_waits apart inPlace still, List.nil_append]
      have onward := ih (apart.effect effect) (inPlace.effect effect)
        (effect.keeps_wait known waits still) rest
      rwa [Wait.after_patience] at onward
    have quiet : outcomes c more = [] :=
      (gone_of_steps (run?_eq_some_iff.1 rest)
        (Nat.lt_of_lt_of_le known effect.started_le) still).2
    rw [quiet, List.append_nil]
    constructor
    · by_cases stays : e = .giveUp c
      · subst stays
        cases effect
        exact Nat.zero_le _
      · obtain ⟨q, told⟩ := (effect.resolves apart inPlace stays member).resolve_left still
        rw [told]
        exact Nat.le_refl _
    · intro patient told
      obtain ⟨v, d, holds, deadline⟩ := effect.overdue_of_timeout told
      obtain rfl : w = v := Option.some.inj (waits.symm.trans holds)
      simp [Wait.deadline_eq_none patient] at deadline

/-- Whoever waits hears in a run what the first event decides, if its call was not left in the queue
of an ended driver and has gone with it. -/
theorem first_iff_or_left_of_run? (apart : s.Apart) (inPlace : s.InPlace)
    (waits : s.callers[c]? = some w) (run : s.run? es = some (t, notes)) :
    (∀ r, outcomes c notes = [r] ↔ First c (Answers c) w s es r) ∨
      (s.result ≠ none ∨ Strands c s es) ∧ outcomes c notes = [.error .channelClosed] := by
  induction es generalizing s w notes with
  | nil =>
    obtain ⟨-, rfl⟩ := by simpa [run?] using run
    refine .inl fun r => ⟨fun heard => ?_, fun first => ?_⟩
    · cases heard
    · cases first
  | cons e es ih =>
    obtain ⟨u, shown, more, step, rest, rfl⟩ := exists_of_run?_cons run
    have effect := effect_of_step? step
    have member := mem_callers_of_getElem? waits
    have known := apart.known c (inPlace.placed c member)
    have heard : ∀ {q}, Answers c w s e u q → outcomes c shown = [q] :=
      effect.told_of_answers apart inPlace waits
    simp only [first_cons_iff step, outcomes_append]
    by_cases still : c ∈ u.callers
    · have silent := effect.outcomes_of_waits apart inPlace still
      have stays : e ≠ .giveUp c := by
        rintro rfl
        cases effect
        simp at still
      have open_ : ∀ q, ¬Answers c w s e u q := fun q answers => by simp [heard answers] at silent
      rw [silent, List.nil_append]
      refine (ih (apart.effect effect) (inPlace.effect effect)
        (effect.keeps_wait known waits still) rest).imp ?_ ?_
      · intro first r
        simp [first r, stays, open_]
      · rintro ⟨left, closed⟩
        refine ⟨?_, closed⟩
        by_cases running : s.result = none
        · refine .inr (left.elim (fun ended => ?_) (.later step))
          -- an ended driver is waited for by those alone that it left in the queue
          have queued := ((inPlace.effect effect).queued ended still).1
          exact .here step running ended member (effect.mem_left_of_queued running ended queued)
        · exact .inl running
    have quiet : outcomes c more = [] :=
      (gone_of_steps (run?_eq_some_iff.1 rest)
        (Nat.lt_of_lt_of_le known effect.started_le) still).2
    rw [quiet, List.append_nil]
    by_cases stays : e = .giveUp c
    · subst stays
      cases effect
      refine .inl fun r => ⟨fun heard => ?_, fun first => ?_⟩
      · cases heard
      · exact first.elim heard fun later => absurd rfl later.1
    · obtain ⟨q, told⟩ := (effect.resolves apart inPlace stays member).resolve_left still
      rcases effect.answers_or_left_of_told apart inPlace waits told with answers | ⟨left, rfl⟩
      · refine .inl fun r => ⟨fun heard => .inl ?_, fun first => ?_⟩
        · obtain rfl := List.singleton_inj.1 (told.symm.trans heard)
          exact answers
        · exact first.elim heard fun later => absurd answers (later.2.1 q)
      · refine .inr ⟨?_, told⟩
        by_cases running : s.result = none
        · obtain ⟨ended, left⟩ := left.resolve_left fun halted => halted running
          exact .inr (.here step running ended member left)
        · exact .inl running

theorem now_le_of_run? (run : s.run? es = some (t, notes)) : s.now ≤ t.now := by
  induction es generalizing s notes with
  | nil =>
    obtain ⟨rfl, -⟩ := by simpa [run?] using run
    exact Nat.le_refl _
  | cons e es ih =>
    obtain ⟨u, shown, more, step, rest, -⟩ := exists_of_run?_cons run
    have first := (effect_of_step? step).now_eq
    exact Nat.le_trans (first ▸ Nat.le_add_right ..) (ih rest)

theorem placed_of_steps (steps : Steps step? s es t notes) (known : c < s.started) :
    c < t.started ∧ (t.Placed c → s.Placed c) := by
  induction steps with
  | none => exact ⟨known, id⟩
  | snoc _ step ih =>
    have effect := effect_of_step? step
    exact ⟨Nat.lt_of_lt_of_le ih.1 effect.started_le, fun placed =>
      ih.2 (effect.placed_of_placed ih.1 placed)⟩

theorem apart_of_steps (steps : Steps step? s es t notes) (apart : s.Apart) (inPlace : s.InPlace) :
    t.Apart ∧ t.InPlace := by
  induction steps with
  | none => exact ⟨apart, inPlace⟩
  | snoc _ step ih =>
    have effect := effect_of_step? step
    exact ⟨ih.1.effect effect, ih.2.effect effect⟩

/-- As long as the call has its place and the driver runs, its caller waits and has time left, or
has given up, or has heard that its time is over. -/
theorem waits_or_late_of_run? (apart : s.Apart) (inPlace : s.InPlace)
    (waits : s.callers[c]? = some w) (early : ∀ d, w.deadline = some d → s.now ≤ d)
    (run : s.run? es = some (t, notes)) (placed : t.Placed c) (running : t.result = none) :
    c ∈ t.callers ∧ (∀ d, (w.behind c s.now es).deadline = some d → t.now ≤ d) ∧
        outcomes c notes = [] ∨
      c ∉ t.callers ∧ (.giveUp c ∉ es → outcomes c notes = [.error .timeout] ∧
        ∃ d, (w.behind c s.now es).deadline = some d ∧ d ≤ t.now) := by
  induction es generalizing s w notes with
  | nil =>
    obtain ⟨rfl, rfl⟩ := by simpa [run?] using run
    exact .inl ⟨mem_callers_of_getElem? waits, early, rfl⟩
  | cons e es ih =>
    obtain ⟨u, shown, more, step, rest, rfl⟩ := exists_of_run?_cons run
    have effect := effect_of_step? step
    have member := mem_callers_of_getElem? waits
    have known := apart.known c (inPlace.placed c member)
    have known' := Nat.lt_of_lt_of_le known effect.started_le
    have onward := running_of_run? rest running
    rw [outcomes_append, Wait.behind, ← effect.now_eq]
    by_cases still : c ∈ u.callers
    · rw [effect.outcomes_of_waits apart inPlace still, List.nil_append]
      have later := ih (apart.effect effect) (inPlace.effect effect)
        (effect.keeps_wait known waits still) (effect.now_le_deadline waits early still) rest
      refine later.imp_right (And.imp_right fun late stays => late fun gave => ?_)
      exact stays (List.mem_cons_of_mem _ gave)
    · obtain ⟨⟨-, gone⟩, quiet⟩ := gone_of_steps (run?_eq_some_iff.1 rest) known' still
      refine .inr ⟨gone, fun stays => ?_⟩
      obtain ⟨now, -⟩ : e ≠ .giveUp c ∧ .giveUp c ∉ es := by simpa [eq_comm] using stays
      obtain ⟨q, told⟩ := (effect.resolves apart inPlace now member).resolve_left still
      have answers := (effect.answers_or_left_of_told apart inPlace waits told).resolve_right
        fun left => left.1.elim (absurd (effect.running onward)) fun ended => ended.1 onward
      obtain ⟨rfl, d, set, past⟩ := effect.late_of_placed apart inPlace waits answers
        ((placed_of_steps (run?_eq_some_iff.1 rest) known').2 placed)
      rw [told, quiet]
      refine ⟨rfl, d, Wait.deadline_behind es _ (Wait.deadline_after e set), past.trans ?_⟩
      exact now_le_of_run? rest

/-! ## Every call of every run -/

variable {limit : UInt32} {handles : Nat} {before after : List Event} {u : Client}
  {past : List Note} {method : String} {argument : Except IoError Bytes} {patience : Option Nat}

/-- The caller of a call that has just been started waits, or has been told at once what stood in
its way. -/
theorem Effect.waits_of_start (h : u.Effect (.start method argument patience) t shown) :
    (∃ payload, u.check method argument = .ok payload ∧ outcomes u.started shown = [] ∧
        t.callers[u.started]? = some { patience } ∧ t.now = u.now ∧ t.result = none) ∨
      ∃ q, u.check method argument = .error q ∧ outcomes u.started shown = [.error q] ∧
        t.callers = u.callers ∧ (t.Placed u.started → u.Placed u.started) := by
  cases h with
  | refuses _ failed => exact .inr ⟨_, failed, by simp, rfl, id⟩
  | accepts _ passed => exact .inl ⟨_, passed, rfl, by simp, rfl, running_of_check passed⟩

theorem Effect.started_lt_of_start (h : u.Effect (.start method argument patience) t shown) :
    u.started < t.started := by
  rw [h.started_eq]
  exact Nat.lt_succ_self _

/-- Nobody waits for a call that has not been started. -/
theorem Apart.unstarted (apart : u.Apart) (inPlace : u.InPlace) : u.started ∉ u.callers :=
  fun waits => Nat.lt_irrefl _ (apart.known _ (inPlace.placed _ waits))

/-- Whoever has been told at the start what stood in the way of its call hears nothing more. -/
theorem Effect.quiet_of_start (h : u.Effect (.start method argument patience) t shown)
    (apart : u.Apart) (inPlace : u.InPlace) (kept : t.callers = u.callers)
    (rest : t.run? after = some (s, notes)) : outcomes u.started notes = [] := by
  refine (gone_of_steps (run?_eq_some_iff.1 rest) h.started_lt_of_start ?_).2
  rw [kept]
  exact apart.unstarted inPlace

theorem once_of_start (apart : u.Apart) (inPlace : u.InPlace)
    (run : u.run? (.start method argument patience :: after) = some (s, notes)) :
    (outcomes u.started notes).length ≤ 1 ∧
      (patience = none → .error .timeout ∉ outcomes u.started notes) := by
  obtain ⟨t, shown, more, step, rest, rfl⟩ := exists_of_run?_cons run
  have effect := effect_of_step? step
  rw [outcomes_append]
  rcases effect.waits_of_start with ⟨-, -, quiet, waits, -⟩ | ⟨q, -, told, kept, -⟩
  · rw [quiet, List.nil_append]
    exact once_of_run? (apart.effect effect) (inPlace.effect effect) waits rest
  · rw [effect.quiet_of_start apart inPlace kept rest, List.append_nil]
    refine ⟨Nat.le_of_eq (congrArg List.length told), fun _ timeout => ?_⟩
    obtain ⟨v, -, waits, -⟩ := effect.overdue_of_timeout timeout
    exact apart.unstarted inPlace (mem_callers_of_getElem? waits)

theorem first_iff_or_left_of_start (apart : u.Apart) (inPlace : u.InPlace)
    (run : u.run? (.start method argument patience :: after) = some (s, notes)) :
    (∀ r, outcomes u.started notes = [r] ↔ First u.started (Answers u.started) { patience } u
        (.start method argument patience :: after) r) ∨
      Strands u.started u (.start method argument patience :: after) ∧
        outcomes u.started notes = [.error .channelClosed] := by
  obtain ⟨t, shown, more, step, rest, rfl⟩ := exists_of_run?_cons run
  have effect := effect_of_step? step
  simp only [first_cons_iff step, answers_start_iff apart, outcomes_append]
  rcases effect.waits_of_start with ⟨payload, passed, quiet, waits, -, running⟩ |
    ⟨q, failed, told, kept, -⟩
  · have none : ∀ r : Outcome, ¬(.ok payload = r ∧ ∃ e, r = .error e) := by
      rintro r ⟨rfl, e, same⟩
      cases same
    have later := first_iff_or_left_of_run? (apart.effect effect) (inPlace.effect effect) waits rest
    refine later.imp (fun first r => ?_) fun ⟨left, closed⟩ => ⟨?_, by rw [quiet, closed]; rfl⟩
    · simp [first r, passed, quiet, none, Wait.after]
    · exact .later step (left.resolve_left fun ended => ended running)
  · refine .inl fun r => ?_
    simp [failed, told, effect.quiet_of_start apart inPlace kept rest, eq_comm]
    exact fun same => ⟨q, same⟩

/-- As long as the call has its place and the driver runs, its caller waits and has time left, or
has given up, or has heard that its time is over. -/
theorem waits_or_late_of_start (apart : u.Apart) (inPlace : u.InPlace)
    (run : u.run? (.start method argument patience :: es) = some (t, notes))
    (placed : t.Placed u.started) (running : t.result = none) :
    u.started ∈ t.callers ∧
        (∀ d, (({ patience } : Wait).behind u.started u.now es).deadline = some d → t.now ≤ d) ∧
        outcomes u.started notes = [] ∨
      u.started ∉ t.callers ∧ (.giveUp u.started ∉ es →
        outcomes u.started notes = [.error .timeout] ∧
          ∃ d, (({ patience } : Wait).behind u.started u.now es).deadline = some d ∧
            d ≤ t.now) := by
  obtain ⟨v, shown, more, step, rest, rfl⟩ := exists_of_run?_cons run
  have effect := effect_of_step? step
  rcases effect.waits_of_start with ⟨payload, -, quiet, waits, same, -⟩ | ⟨-, -, -, -, kept⟩
  · rw [outcomes_append, quiet, List.nil_append, ← same]
    exact waits_or_late_of_run? (apart.effect effect) (inPlace.effect effect) waits
      (fun d set => by cases set) rest placed running
  · -- a call that did not start never has a place
    have fresh : ¬u.Placed u.started := fun placed => Nat.lt_irrefl _ (apart.known _ placed)
    exact absurd (kept ((placed_of_steps (run?_eq_some_iff.1 rest)
      effect.started_lt_of_start).2 placed)) fresh

/-- Take any call of any run: `u` is the client as it starts, and `c` its number. The call hears one
outcome at most, and unless the driver ends and leaves it in its queue, the one of the first event
that decides it before its caller gives up. Without patience it does not time out. Its deadline is
set when its caller first awaits it. A reply that is handled under its id frees the id; handled
before a deadline, or when none is set, it is what the call hears, if its caller has not given up,
and handled after the deadline nobody hears it: the call has timed out. -/
theorem earliest_event_decides {c : Nat}
    (early : ({ limit, handles } : Client).run? before = some (u, past)) (new : c = u.started)
    (run : ({ limit, handles } : Client).run?
      (before ++ .start method argument patience :: after) = some (s, notes)) :
    (outcomes c notes).length ≤ 1 ∧
      ((∀ r, outcomes c notes = [r] ↔
          First c (Answers c) { patience } u (.start method argument patience :: after) r) ∨
        Strands c u (.start method argument patience :: after) ∧
          outcomes c notes = [.error .channelClosed]) ∧
      (∀ {β : Type} [Payload β] (format : Format) r, outcomes c notes = [r] →
        seen format c notes = [(decode format r : Except CallError β)]) ∧
      (patience = none → .error .timeout ∉ outcomes c notes) ∧
      ∀ (during later : List Event) (v : Client) (told : List Note) (f : Frame) (rest : Bytes)
        (i : SendId) (status : ReplyStatus) (n : UInt32) (deadline : Option Nat),
        after = during ++ .take :: later →
        u.run? (.start method argument patience :: during) = some (v, told) → v.result = none →
        Frame.read v.limit v.inbound = .item f rest → f.head = .reply i status n →
        v.outstanding[i]? = some c →
        deadline = (({ patience } : Wait).behind c u.now during).deadline →
          ∃ w shown, v.step? .take = some (w, shown) ∧ w.outstanding[i]? = none ∧
            (.giveUp c ∉ during → (∀ d, deadline = some d → v.now < d) →
              outcomes c notes = [.ofReply status f.payload]) ∧
            ∀ d, deadline = some d → d < v.now → outcomes c shown = [] ∧
              (.giveUp c ∉ during → outcomes c notes = [.error .timeout]) := by
  subst new
  obtain ⟨waiting, apart, inPlace⟩ := inPlace_of_steps (run?_eq_some_iff.1 early)
  obtain ⟨u', past', more, early', onward, rfl⟩ := exists_of_run?_append run
  obtain ⟨rfl, rfl⟩ : u = u' ∧ past = past' := by simpa [early] using early'
  obtain ⟨once, inTime⟩ := once_of_start apart inPlace onward
  rw [outcomes_append, waiting.unstarted _ (Nat.le_refl _), List.nil_append]
  refine ⟨once, first_iff_or_left_of_start apart inPlace onward, ?_, inTime, ?_⟩
  · intro β _ format r heard
    rw [seen, outcomes_append, waiting.unstarted _ (Nat.le_refl _), List.nil_append, heard,
      List.map_singleton]
  · rintro during later v told f rest i status n deadline rfl run' running item head holds rfl
    rw [← List.cons_append] at onward
    obtain ⟨v', told', more, again, late, rfl⟩ := exists_of_run?_append onward
    obtain ⟨rfl, rfl⟩ : v = v' ∧ told = told' := by simpa [run'] using again
    obtain ⟨w, shown, final, step, rest', rfl⟩ := exists_of_run?_cons late
    have effect := effect_of_step? step
    obtain ⟨rfl, rfl⟩ := effect.of_replied item head holds
    have placed : v.Placed u.started := .inr ⟨i, holds⟩
    obtain ⟨apart', -⟩ := apart_of_steps (run?_eq_some_iff.1 run') apart inPlace
    have known := apart'.known _ placed
    have quiet : outcomes u.started final = [] := by
      refine (gone_of_steps (run?_eq_some_iff.1 rest') known ?_).2
      rw [resolve_eq, mem_callers_resolveAll]
      simp
    have standing := waits_or_late_of_start apart inPlace run' placed running
    refine ⟨_, _, step, by simp [resolve_eq], fun stays time => ?_, fun d is past => ?_⟩
    · rcases standing with ⟨waits, -, silent⟩ | ⟨-, late⟩
      · rw [outcomes_append, outcomes_append, silent, quiet, outcomes_got, resolve_eq,
          outcomes_resolveAll, if_pos waits]
        simp
      · obtain ⟨-, d, is, past⟩ := late stays
        exact absurd (time d is) (Nat.not_lt.2 past)
    · rcases standing with ⟨-, inTime, -⟩ | ⟨gone, late⟩
      · exact absurd past (Nat.not_lt.2 (inTime d is))
      · have nothing := effect.outcomes_eq_nil known gone
        refine ⟨nothing, fun stays => ?_⟩
        rw [outcomes_append, outcomes_append, (late stays).1, nothing, quiet]
        rfl

end

/-- Two callers with the same patience await their calls a while after the start. The second one has
its reply before the deadline and the first behind it. -/
theorem reply_or_deadline_decides : ∃ s notes,
    ({ limit := 100 } : Client).run? ([] ++ .start "" (.ok [7]) (some 30) ::
      [.start "" (.ok [8]) (some 30), .pick, .pick, .tick 20, .await 0, .await 1,
        .arrive ((Frame.reply 1 .ok [2]).bytes ++ (Frame.reply 0 .ok [1]).bytes), .tick 20, .take,
        .tick 20, .take]) = some (s, notes) ∧
    outcomes 0 notes = [.error .timeout] ∧ outcomes 1 notes = [.ok [2]] ∧
    s.outstanding[(0 : SendId)]? = none := by
  obtain ⟨s, notes, run, free⟩ : ∃ s notes, ({ limit := 100 } : Client).run?
      ([] ++ .start "" (.ok [7]) (some 30) :: [.start "" (.ok [8]) (some 30), .pick, .pick,
        .tick 20, .await 0, .await 1,
        .arrive ((Frame.reply 1 .ok [2]).bytes ++ (Frame.reply 0 .ok [1]).bytes), .tick 20, .take,
        .tick 20, .take]) = some (s, notes) ∧ s.outstanding[(0 : SendId)]? = none :=
    ⟨_, _, rfl, rfl⟩
  obtain ⟨-, -, -, -, first⟩ := earliest_event_decides rfl rfl run
  have run' : ({ limit := 100 } : Client).run? ([.start "" (.ok [7]) (some 30)] ++
      .start "" (.ok [8]) (some 30) :: [.pick, .pick, .tick 20, .await 0, .await 1,
        .arrive ((Frame.reply 1 .ok [2]).bytes ++ (Frame.reply 0 .ok [1]).bytes), .tick 20, .take,
        .tick 20, .take]) = some (s, notes) := run
  obtain ⟨-, -, -, -, second⟩ := earliest_event_decides rfl rfl run'
  obtain ⟨w, shown, -, -, -, late⟩ := first [.start "" (.ok [8]) (some 30), .pick, .pick, .tick 20,
    .await 0, .await 1,
    .arrive ((Frame.reply 1 .ok [2]).bytes ++ (Frame.reply 0 .ok [1]).bytes), .tick 20, .take,
    .tick 20] [] _ _ (Frame.reply 0 .ok [1]) [] 0 .ok 1 (some 50) rfl rfl rfl rfl rfl rfl rfl
  obtain ⟨w', shown', -, -, inTime, -⟩ := second [.pick, .pick, .tick 20, .await 0, .await 1,
    .arrive ((Frame.reply 1 .ok [2]).bytes ++ (Frame.reply 0 .ok [1]).bytes), .tick 20]
    [.tick 20, .take] _ _ (Frame.reply 1 .ok [2]) (Frame.reply 0 .ok [1]).bytes 1 .ok 1 (some 50)
    rfl rfl rfl rfl rfl rfl rfl
  exact ⟨s, notes, run, (late 50 rfl (by decide)).2 (by simp),
    inTime (by simp) (by rintro d ⟨⟩; decide), free⟩

/-- With the deadline counted from the start, the events would decide otherwise. In the first run
that deadline comes before the reply, but the caller awaits its call later, and the reply decides.
In the second one the frame of the first of two calls cannot be written, and then the only handle
goes: of the events that decide a call only the deadline of the second one comes, but before that
the call has gone with the queue. -/
theorem deadline_from_start_decides_otherwise :
    (∃ s notes,
      ({ limit := 100 } : Client).run? (.start "" (.ok [7]) (some 100) :: [.pick, .tick 60,
        .await 0, .tick 60, .arrive (Frame.reply 0 .ok [1]).bytes, .take]) = some (s, notes) ∧
      First 0 (Answers 0) { patience := some 100, since := some 0 } { limit := 100 }
        (.start "" (.ok [7]) (some 100) :: [.pick, .tick 60, .await 0, .tick 60,
          .arrive (Frame.reply 0 .ok [1]).bytes, .take]) (.error .timeout) ∧
      outcomes 0 notes = [.ok [1]]) ∧
    ∃ u past s notes,
      ({ limit := 100 } : Client).run? [.peerDeafens, .start "" (.ok [7]) (some 100), .await 0] =
        some (u, past) ∧ u.started = 1 ∧ u.now = 0 ∧
      u.run? (.start "" (.ok [8]) (some 100) :: [.await 1, .pick, .release, .tick 100]) =
        some (s, notes) ∧
      First 1 (Answers 1) { patience := some 100, since := some 0 } u
        (.start "" (.ok [8]) (some 100) :: [.await 1, .pick, .release, .tick 100])
        (.error .timeout) ∧
      outcomes 1 notes = [.error .channelClosed] := by
  constructor
  · obtain ⟨t, v, w, x, y, s, a, b, c, d, e, notes, run, told, start, accepted, free, hears, pick,
        written, clock, tick, early, await, same, late, expire⟩ :
        ∃ t v w x y s a b c d e notes,
        ({ limit := 100 } : Client).run? (.start "" (.ok [7]) (some 100) :: [.pick, .tick 60,
          .await 0, .tick 60, .arrive (Frame.reply 0 .ok [1]).bytes, .take]) = some (s, notes) ∧
        outcomes 0 notes = [.ok [1]] ∧
        ({ limit := 100 } : Client).step? (.start "" (.ok [7]) (some 100)) = some (t, a) ∧
        t.result = none ∧ SendId.allocate? t.outstanding t.next = some (0, 1) ∧
        t.peerDeaf = false ∧ t.step? .pick = some (v, b) ∧ v.result = none ∧ v.now = 0 ∧
        v.step? (.tick 60) = some (w, c) ∧ w.result = none ∧ w.step? (.await 0) = some (x, d) ∧
        x.result = none ∧ x.now = 60 ∧ x.step? (.tick 60) = some (y, e) :=
      ⟨_, _, _, _, _, _, _, _, _, _, _, _, rfl, by decide, rfl, rfl, rfl, rfl, rfl, rfl, rfl, rfl,
        rfl, rfl, rfl, rfl, rfl⟩
    refine ⟨s, notes, run, ?_, told⟩
    refine .later start (by simp) ?_ <| .later pick (by simp) ?_ <| .later tick (by simp) ?_ <|
      .later await (by simp) ?_ <| .here expire (.overdue rfl ?_)
    · intro q answers
      cases answers with
      | unfit _ long => exact absurd long (by decide)
      | shut _ _ _ halted => exact halted rfl
      | ended _ _ halted => exact halted accepted
    · intro q answers
      cases answers with
      | full _ _ none => simp [free] at none
      | ended _ _ halted => exact halted written
      | unwritten _ _ _ deaf => simp [hears] at deaf
    · intro q answers
      cases answers with
      | ended _ _ halted => exact halted early
      | overdue set past =>
        cases set
        simp [clock] at past
    · intro q answers
      cases answers with
      | ended _ _ halted => exact halted same
    · simp [late]
  · obtain ⟨u, past, t, v, w, x, y, a, b, c, d, e, notes, before, new, time, run, told, limit,
        running, start, accepted, await, asked, queue, free, pick, halted, release, tick⟩ :
        ∃ u past t v w x y a b c d e notes, ({ limit := 100 } : Client).run?
          [.peerDeafens, .start "" (.ok [7]) (some 100), .await 0] = some (u, past) ∧
        u.started = 1 ∧ u.now = 0 ∧
        u.run? (.start "" (.ok [8]) (some 100) :: [.await 1, .pick, .release, .tick 100]) =
          some (y, notes) ∧
        outcomes 1 notes = [.error .channelClosed] ∧ u.limit = 100 ∧ u.result = none ∧
        u.step? (.start "" (.ok [8]) (some 100)) = some (t, a) ∧ t.result = none ∧
        t.step? (.await 1) = some (v, b) ∧ v.result = none ∧
        v.commands = [.call 0 "" [7], .call 1 "" [8]] ∧ v.outstanding = {} ∧
        v.step? .pick = some (w, c) ∧ w.result ≠ none ∧ w.step? .release = some (x, d) ∧
        x.step? (.tick 100) = some (y, e) :=
      ⟨_, _, _, _, _, _, _, _, _, _, _, _, _, rfl, rfl, rfl, rfl, by decide, rfl, rfl, rfl, rfl,
        rfl, rfl, rfl, rfl, rfl, by decide, rfl, rfl⟩
    refine ⟨u, past, y, notes, before, new, time, run, ?_, told⟩
    refine .later start (by simp) ?_ <| .later await (by simp) ?_ <| .later pick (by simp) ?_ <|
      .later release (by simp) ?_ <| .here tick (.overdue rfl (Nat.le_add_left ..))
    · intro q answers
      cases answers with
      | unfit _ long =>
        rw [limit] at long
        exact absurd long (by decide)
      | shut _ _ _ ended => exact ended running
      | ended _ _ ended => exact ended accepted
    · intro q answers
      cases answers with
      | ended _ _ ended => exact ended asked
    · intro q answers
      cases answers with
      | full _ queue' => simp [queue] at queue'
      | ended holds => simp [free] at holds
      | unwritten _ queue' => simp [queue] at queue'
    · intro q answers
      cases answers with
      | ended _ running => exact halted running

end RemoteCall.Client
