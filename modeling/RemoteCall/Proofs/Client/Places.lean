import RemoteCall.Proofs.Client.Fates

/-!
# Where calls are

A call is in the queue or outstanding under one id, and never both (`Apart`). Whoever waits has a
call in one of these places; once the driver has ended only the queue is left, and that only while
there is a handle (`InPlace`). So each call that was started and not given up waits, or has seen one
outcome (`Effect.resolves`).
-/

namespace RemoteCall

/-! ## Outstanding calls as a list -/

theorem Outstanding.values_eq (taken : Outstanding) : taken.values = taken.toList.map (·.2) := by
  have fold : taken.values = taken.foldr (fun _ c cs => c :: cs) [] := rfl
  rw [fold, Std.TreeMap.foldr_eq_foldr_toList, List.map_eq_foldr]

theorem Outstanding.mem_values_iff {taken : Outstanding} {c : Nat} :
    c ∈ taken.values ↔ ∃ i : SendId, taken[i]? = some c := by
  rw [values_eq, List.mem_map]
  constructor
  · rintro ⟨⟨i, d⟩, member, rfl⟩
    exact ⟨i, Std.TreeMap.mem_toList_iff_getElem?_eq_some.1 member⟩
  · rintro ⟨i, holds⟩
    exact ⟨(i, c), Std.TreeMap.mem_toList_iff_getElem?_eq_some.2 holds, rfl⟩

theorem Outstanding.nodup_values {taken : Outstanding}
    (once : ∀ (i j : SendId) (c : Nat), taken[i]? = some c → taken[j]? = some c → i = j) :
    taken.values.Nodup := by
  rw [values_eq, List.Nodup, List.pairwise_map]
  refine Std.TreeMap.distinct_keys_toList.imp_of_mem ?_
  rintro ⟨i, c⟩ ⟨j, d⟩ first second differ same
  have here := Std.TreeMap.mem_toList_iff_getElem?_eq_some.1 first
  have there := Std.TreeMap.mem_toList_iff_getElem?_eq_some.1 second
  obtain rfl : c = d := same
  exact differ (by simpa using once i j c here there)

namespace Client

/-! ## What the end of the driver leaves -/

section
variable {s : Client} {c : Nat}

theorem isOver_of_result (halted : s.result ≠ none) : s.isOver = true :=
  Option.isSome_iff_ne_none.2 halted

theorem dropQueue_of_held (held : s.handles ≠ 0) : s.dropQueue = (s, []) := by
  simp [dropQueue, held]

theorem dropQueue_of_released (halted : s.result ≠ none) (released : s.handles = 0) :
    s.dropQueue = { s with commands := [] }.resolveAll s.queued (.error .channelClosed) := by
  simp [dropQueue, released, isOver_of_result halted]

theorem dropQueue_queued (halted : s.result ≠ none) :
    s.dropQueue.1.queued = if s.handles = 0 then [] else s.queued := by
  by_cases released : s.handles = 0
  · rw [dropQueue_of_released halted released, if_pos released]
    rfl
  · rw [dropQueue_of_held released, if_neg released]

theorem mem_callers_dropQueue (halted : s.result ≠ none) :
    c ∈ s.dropQueue.1.callers ↔ c ∈ s.callers ∧ (s.handles = 0 → c ∉ s.queued) := by
  by_cases released : s.handles = 0
  · rw [dropQueue_of_released halted released, mem_callers_resolveAll]
    simp [released]
  · rw [dropQueue_of_held released]
    simp [released]

theorem outcomes_dropQueue (halted : s.result ≠ none) (waits : c ∈ s.callers) :
    outcomes c s.dropQueue.2 =
      if s.handles = 0 then List.replicate (s.queued.count c) (.error .channelClosed) else [] := by
  by_cases released : s.handles = 0
  · rw [dropQueue_of_released halted released, outcomes_resolveAll, if_pos waits, if_pos released]
  · rw [dropQueue_of_held released, if_neg released]
    rfl

/-- The client after the end of its driver, before the callers in the queue hear of it. -/
def closed (s : Client) (r : Except CallError Unit) : Client × List Note :=
  { s with result := some r, outstanding := {} }.resolveAll s.outstanding.values
    (.error .channelClosed)

theorem finish_eq (s : Client) (r : Except CallError Unit) :
    s.finish r =
      ((s.closed r).1.dropQueue.1, .ended r :: (s.closed r).2 ++ (s.closed r).1.dropQueue.2) :=
  rfl

theorem finish_queued (s : Client) (r : Except CallError Unit) :
    (s.finish r).1.queued = if s.handles = 0 then [] else s.queued :=
  dropQueue_queued (s := (s.closed r).1) (Option.some_ne_none r)

theorem queued_finish_sublist (s : Client) (r : Except CallError Unit) :
    (s.finish r).1.queued.Sublist s.queued :=
  queued_dropQueue_sublist (s.closed r).1

theorem mem_callers_finish (r : Except CallError Unit) :
    c ∈ (s.finish r).1.callers ↔
      (c ∈ s.callers ∧ c ∉ s.outstanding.values) ∧ (s.handles = 0 → c ∉ s.queued) := by
  rw [← mem_callers_resolveAll { s with result := some r, outstanding := {} }
    s.outstanding.values (.error .channelClosed)]
  exact mem_callers_dropQueue (s := (s.closed r).1) (Option.some_ne_none r)

end

/-! ## One place for each call -/

/-- A call is in one place at most, and it was started. -/
structure Apart (s : Client) : Prop where
  nodup : s.queued.Nodup
  apart : ∀ c ∈ s.queued, ∀ i : SendId, s.outstanding[i]? ≠ some c
  once : ∀ (i j : SendId) (c : Nat),
    s.outstanding[i]? = some c → s.outstanding[j]? = some c → i = j
  known : ∀ c, s.Placed c → c < s.started

section
variable {s t : Client} {c : Nat}

/-- The end of the driver tells its end to all that wait, but for those in the queue while there is
a handle. -/
theorem Apart.outcomes_finish (h : s.Apart) (r : Except CallError Unit) (waits : c ∈ s.callers)
    (placed : s.Placed c) :
    outcomes c (s.finish r).2 =
      if c ∈ (s.finish r).1.queued then [] else [.error .channelClosed] := by
  have first : outcomes c (s.closed r).2 =
      List.replicate (s.outstanding.values.count c) (.error .channelClosed) :=
    (outcomes_resolveAll ..).trans (if_pos waits)
  have split : outcomes c (s.finish r).2 =
      outcomes c (s.closed r).2 ++ outcomes c (s.closed r).1.dropQueue.2 := by
    rw [finish_eq, List.cons_append, outcomes_ended, outcomes_append]
  have halted : (s.closed r).1.result ≠ none := Option.some_ne_none r
  rw [split, first, finish_queued]
  by_cases queued : c ∈ s.queued
  · -- the call stays in the queue, or goes away with it
    have none : c ∉ s.outstanding.values := by
      rw [Outstanding.mem_values_iff]
      rintro ⟨i, holds⟩
      exact h.apart c queued i holds
    have still : c ∈ (s.closed r).1.callers :=
      (mem_callers_resolveAll _ _ _ c).2 ⟨waits, none⟩
    have one : s.queued.count c = 1 := by rw [h.nodup.count, if_pos queued]
    have same : (s.closed r).1.queued = s.queued := rfl
    have held : (s.closed r).1.handles = s.handles := rfl
    rw [outcomes_dropQueue halted still, List.count_eq_zero.2 none, same, held, one]
    by_cases released : s.handles = 0 <;> simp [released, queued]
  · -- the call was outstanding
    obtain ⟨i, holds⟩ := placed.resolve_left queued
    have member : c ∈ s.outstanding.values := Outstanding.mem_values_iff.2 ⟨i, holds⟩
    have one : s.outstanding.values.count c = 1 := by
      rw [(Outstanding.nodup_values h.once).count, if_pos member]
    have gone : c ∉ (s.closed r).1.callers := fun still =>
      ((mem_callers_resolveAll _ _ _ c).1 still).2 member
    have quiet : outcomes c (s.closed r).1.dropQueue.2 = [] :=
      (LetsGo.dropQueue (s.closed r).1).others c gone
    rw [quiet, one]
    by_cases released : s.handles = 0 <;> simp [released, queued]

/-- Whoever the end of the driver leaves in the queue waits on. -/
theorem Apart.mem_callers_of_queued (h : s.Apart) {r : Except CallError Unit}
    (waits : c ∈ s.callers) (left : c ∈ (s.finish r).1.queued) : c ∈ (s.finish r).1.callers := by
  have held : s.handles ≠ 0 := by
    intro none
    simp [finish_queued, none] at left
  rw [finish_queued, if_neg held] at left
  refine (mem_callers_finish r).2 ⟨⟨waits, ?_⟩, fun none => absurd none held⟩
  rw [Outstanding.mem_values_iff]
  rintro ⟨i, holds⟩
  exact h.apart c left i holds

/-- There are fewer calls. -/
theorem Apart.fewer (h : s.Apart) (queued : t.queued.Sublist s.queued)
    (outstanding : ∀ (i : SendId) (c : Nat), t.outstanding[i]? = some c →
      s.outstanding[i]? = some c)
    (started : s.started ≤ t.started) : t.Apart where
  nodup := h.nodup.sublist queued
  apart c hc i holds := h.apart c (queued.subset hc) i (outstanding i c holds)
  once i j c here there := h.once i j c (outstanding i c here) (outstanding j c there)
  known c placed := by
    refine Nat.lt_of_lt_of_le (h.known c ?_) started
    rcases placed with member | ⟨i, holds⟩
    · exact .inl (queued.subset member)
    · exact .inr ⟨i, outstanding i c holds⟩

theorem Apart.finish (h : s.Apart) (r : Except CallError Unit) : (s.finish r).1.Apart := by
  refine h.fewer (queued_finish_sublist s r) ?_ (Nat.le_of_eq (finish_started s r).symm)
  intro i c holds
  simp at holds

/-- A call that is started joins the queue. -/
theorem Apart.accepts (h : s.Apart) {method : String} {payload : Bytes}
    {callers : Std.TreeMap Nat Wait} :
    Apart { s with
      started := s.started + 1
      commands := s.commands ++ [.call s.started method payload]
      callers } := by
  have queue : queued { s with
      started := s.started + 1
      commands := s.commands ++ [.call s.started method payload]
      callers } = s.queued ++ [s.started] := by simp [queued]
  have fresh : ¬s.Placed s.started := fun placed => Nat.lt_irrefl _ (h.known _ placed)
  refine ⟨?_, ?_, h.once, ?_⟩
  · rw [queue, List.nodup_append]
    refine ⟨h.nodup, by simp, ?_⟩
    rintro a member b last rfl
    obtain rfl := List.mem_singleton.1 last
    exact fresh (.inl member)
  · intro c member i holds
    rw [queue, List.mem_append, List.mem_singleton] at member
    rcases member with before | rfl
    · exact h.apart c before i holds
    · exact fresh (.inr ⟨i, holds⟩)
  · intro c placed
    rw [Placed, queue, List.mem_append, List.mem_singleton] at placed
    rcases placed with (before | rfl) | outstanding
    · exact Nat.lt_succ_of_lt (h.known c (.inl before))
    · exact Nat.lt_succ_self _
    · exact Nat.lt_succ_of_lt (h.known c (.inr outstanding))

/-- A call moves from the queue to an id that was free. -/
theorem Apart.writes (h : s.Apart) {caller : Nat} {method : String} {payload : Bytes}
    {rest : List Command} {i next : SendId}
    (queue : s.commands = .call caller method payload :: rest)
    (free : SendId.allocate? s.outstanding s.next = some (i, next)) :
    Apart { s with commands := rest, outstanding := s.outstanding.insert i caller, next } := by
  have order := queued_of_call queue
  have taken := SendId.getElem?_of_allocate? free
  have first : caller ∈ s.queued := by simp [order]
  obtain ⟨new, nodup⟩ := List.nodup_cons.1 (order ▸ h.nodup)
  -- what an id holds after the insertion
  have cases : ∀ (j : SendId) (c : Nat), (s.outstanding.insert i caller)[j]? = some c →
      j = i ∧ c = caller ∨ s.outstanding[j]? = some c := by
    intro j c holds
    rw [Std.TreeMap.getElem?_insert] at holds
    split at holds
    next same =>
      obtain rfl : i = j := by simpa using same
      exact .inl ⟨rfl, (Option.some.inj holds).symm⟩
    next => exact .inr holds
  refine ⟨nodup, ?_, ?_, ?_⟩
  · intro c later j holds
    rcases cases j c holds with ⟨-, rfl⟩ | before
    · exact new later
    · exact h.apart c (by rw [order]; exact List.mem_cons_of_mem _ later) j before
  · intro j k c here there
    rcases cases j c here with ⟨rfl, rfl⟩ | before
    · rcases cases k c there with ⟨rfl, -⟩ | other
      · rfl
      · exact absurd other (h.apart c first k)
    · rcases cases k c there with ⟨rfl, rfl⟩ | other
      · exact absurd before (h.apart c first j)
      · exact h.once j k c before other
  · intro c placed
    apply h.known
    rcases placed with later | ⟨j, holds⟩
    · exact .inl (by rw [order]; exact List.mem_cons_of_mem _ later)
    · rcases cases j c holds with ⟨-, rfl⟩ | before
      · exact .inl first
      · exact .inr ⟨j, before⟩

end

/-! ## Every event -/

section
variable {s s' : Client} {e : Event} {notes : List Note} {c : Nat}

/-- The driver ends by `finish`. Just before that all callers still wait, and their calls are where
they were, but that one of them may have got an id. -/
theorem Effect.ending (h : s.Effect e s' notes) (running : s.result = none)
    (ended : s'.result ≠ none) :
    ∃ (t : Client) (r : Except CallError Unit), s' = (t.finish r).1 ∧ notes = (t.finish r).2 ∧
      t.callers = s.callers ∧ (s.Apart → t.Apart) ∧ ∀ c, s.Placed c → t.Placed c := by
  cases h with
  | refuses | accepts | awaits | closes | clones | givesUp | arrives | peerEnds | peerDeafens
  | ticks | writes | skipsCall | skipsReply => exact absurd running ended
  | exhausts | answers => exact absurd running (by simpa using ended)
  | closesLate _ before => exact absurd running before
  | releases => exact absurd running (by simpa using ended)
  | @picksClose rest _ queue =>
    have same := queued_of_close queue
    refine ⟨{ s with commands := rest }, _, rfl, rfl, rfl, fun apart => ?_, fun c placed => ?_⟩
    · exact apart.fewer (by simp [same]) (fun _ _ holds => holds) (Nat.le_refl _)
    · rw [Placed, same] at placed
      exact placed
  | @failsToWrite caller method payload rest i next _ queue free =>
    exact ⟨{ s with commands := rest, outstanding := s.outstanding.insert i caller, next }, _, rfl,
      rfl, rfl, fun apart => apart.writes queue free, fun c placed => placed.writes queue free⟩
  | @breaks rest =>
    exact ⟨{ s with inbound := rest }, _, rfl, rfl, rfl,
      fun apart => ⟨apart.nodup, apart.apart, apart.once, apart.known⟩, fun c placed => placed⟩
  | ends | retires =>
    exact ⟨s, _, rfl, rfl, rfl, fun apart => apart, fun c placed => placed⟩

/-! ### Calls stay apart -/

theorem Apart.dropQueue (h : s.Apart) : s.dropQueue.1.Apart :=
  h.fewer (queued_dropQueue_sublist s) (fun i c holds => by simpa using holds)
    (Nat.le_of_eq s.dropQueue_started.symm)

theorem Apart.effect (h : s.Apart) (effect : s.Effect e s' notes) : s'.Apart := by
  by_cases ending : s.result = none ∧ s'.result ≠ none
  · obtain ⟨t, r, rfl, -, -, apart, -⟩ := effect.ending ending.1 ending.2
    exact (apart h).finish r
  have same : ∀ t : Client, t.queued = s.queued → t.outstanding = s.outstanding →
      s.started ≤ t.started → t.Apart := by
    intro t queued outstanding started
    exact h.fewer (by simp [queued]) (fun i c holds => by rw [← outstanding]; exact holds) started
  cases effect with
  | refuses => exact same _ rfl rfl (Nat.le_succ _)
  | accepts => exact h.accepts
  | awaits | closesLate | clones | givesUp | arrives | peerEnds | peerDeafens | ticks | skipsCall
  | skipsReply => exact same _ rfl rfl (Nat.le_refl _)
  | closes => exact same _ (by simp [queued]) rfl (Nat.le_refl _)
  | releases =>
    exact (same { s with handles := s.handles - 1 } rfl rfl (Nat.le_refl _)).dropQueue
  | @exhausts caller method payload rest _ queue =>
    refine h.fewer ?_ (fun _ _ holds => holds) (Nat.le_refl _)
    rw [queued_of_call queue]
    exact List.sublist_cons_self _ _
  | writes _ queue free => exact h.writes queue free
  | @answers f rest i =>
    refine h.fewer (List.Sublist.refl _) ?_ (Nat.le_refl _)
    intro j c holds
    simp only [resolve_eq, resolveAll_outstanding, Std.TreeMap.getElem?_erase] at holds
    split at holds
    next => cases holds
    next => exact holds
  | picksClose running | failsToWrite running | breaks running | ends running
  | retires running => simp [running] at ending

/-! ### Callers that wait have a call -/

/-- Whoever waits has a call in its place. An ended driver knows no ids, and without a handle it has
no queue. -/
structure InPlace (s : Client) : Prop where
  placed : ∀ c ∈ s.callers, s.Placed c
  idle : s.result ≠ none → s.outstanding = {}
  dropped : s.result ≠ none → s.handles = 0 → s.queued = []

theorem InPlace.of_running (running : s.result = none) (placed : ∀ c ∈ s.callers, s.Placed c) :
    s.InPlace :=
  ⟨placed, fun halted => absurd running halted, fun halted => absurd running halted⟩

/-- After the end there is no place but the queue. -/
theorem InPlace.queued (h : s.InPlace) (halted : s.result ≠ none) (waits : c ∈ s.callers) :
    c ∈ s.queued ∧ 0 < s.handles := by
  have member : c ∈ s.queued := by
    rcases h.placed c waits with queued | ⟨i, holds⟩
    · exact queued
    · simp [h.idle halted] at holds
  refine ⟨member, Nat.pos_of_ne_zero fun none => ?_⟩
  simp [h.dropped halted none] at member

theorem InPlace.finish (placed : ∀ c ∈ s.callers, s.Placed c) (r : Except CallError Unit) :
    (s.finish r).1.InPlace := by
  refine ⟨fun c waits => .inl ?_, fun _ => finish_outstanding s r, fun _ released => ?_⟩
  · obtain ⟨⟨before, known⟩, kept⟩ := (mem_callers_finish r).1 waits
    have queued : c ∈ s.queued := (placed c before).resolve_right fun outstanding =>
      known (Outstanding.mem_values_iff.2 outstanding)
    have held : s.handles ≠ 0 := fun none => kept none queued
    rw [finish_queued, if_neg held]
    exact queued
  · rw [finish_handles] at released
    rw [finish_queued, if_pos released]

theorem running_of_check {method : String} {argument : Except IoError Bytes} {payload : Bytes}
    (h : s.check method argument = .ok payload) : s.result = none := by
  rw [← isOver_eq_false_iff]
  cases halted : s.isOver with
  | false => rfl
  | true => cases argument <;> simp [check, halted] at h; split at h <;> cases h

theorem InPlace.effect (h : s.InPlace) (effect : s.Effect e s' notes) : s'.InPlace := by
  by_cases ending : s.result = none ∧ s'.result ≠ none
  · obtain ⟨t, r, rfl, -, callers, -, placed⟩ := effect.ending ending.1 ending.2
    exact .finish (fun c waits => placed c (h.placed c (callers ▸ waits))) r
  cases effect with
  | refuses | closesLate | peerEnds | peerDeafens => exact ⟨h.placed, h.idle, h.dropped⟩
  | accepts _ passed =>
    have running := running_of_check passed
    refine .of_running running fun c waits => ?_
    rcases Std.TreeMap.mem_insert.1 waits with new | before
    · obtain rfl : s.started = c := by simpa using new
      exact .inl (by simp [Client.queued])
    · exact (h.placed c before).mono (fun _ member => List.mem_append_left _ member) rfl
  | closes _ running =>
    refine .of_running running fun c waits => ?_
    exact (h.placed c waits).mono (fun _ member => List.mem_append_left _ member) rfl
  | clones => exact ⟨h.placed, h.idle, fun _ none => absurd none (Nat.succ_ne_zero _)⟩
  | releases =>
    by_cases running : s.result = none
    · rw [dropQueue_of_running { s with handles := s.handles - 1 } running]
      exact .of_running running h.placed
    have halted : result { s with handles := s.handles - 1 } ≠ none := running
    refine ⟨fun c waits => .inl ?_, fun _ => ?_, fun _ released => ?_⟩
    · obtain ⟨before, kept⟩ := (mem_callers_dropQueue halted).1 waits
      have member := (h.queued running before).1
      rw [dropQueue_queued halted, if_neg fun none => kept none member]
      exact member
    · rw [dropQueue_outstanding]
      exact h.idle running
    · rw [dropQueue_handles] at released
      rw [dropQueue_queued halted, if_pos released]
  | awaits =>
    exact ⟨fun c waits => h.placed c ((mem_callers_await _ _ _).1 waits), h.idle, h.dropped⟩
  | givesUp caller =>
    exact ⟨fun c waits => h.placed c (Std.TreeMap.mem_of_mem_erase waits), h.idle, h.dropped⟩
  | ticks ms =>
    refine ⟨fun c waits => ?_, h.idle, h.dropped⟩
    rw [tick, mem_callers_resolveAll] at waits
    exact h.placed c waits.1
  | arrives running | skipsCall running | skipsReply running =>
    exact .of_running running h.placed
  | exhausts running queue =>
    refine .of_running running fun c waits => ?_
    obtain ⟨before, other⟩ := (mem_callers_resolveAll _ _ _ c).1 waits
    exact (h.placed c before).exhausts queue fun same => other (by simp [same])
  | writes running queue free =>
    refine .of_running running fun c waits => ?_
    exact (h.placed c waits).writes queue free
  | answers running _ _ known =>
    refine .of_running running fun c waits => ?_
    obtain ⟨before, other⟩ := (mem_callers_resolveAll _ _ _ c).1 waits
    exact (h.placed c before).answers known fun same => other (by simp [same])
  | picksClose running | failsToWrite running | breaks running | ends running
  | retires running => simp [running] at ending

/-! ## One outcome for each caller -/

theorem mem_due_iff :
    c ∈ s.due ↔ ∃ w d, s.callers[c]? = some w ∧ w.deadline = some d ∧ d ≤ s.now := by
  rw [due, List.mem_filterMap]
  constructor
  · rintro ⟨⟨caller, wait⟩, member, late⟩
    have holds := Std.TreeMap.mem_toList_iff_getElem?_eq_some.1 member
    simp only at late
    split at late
    next d deadline =>
      split at late
      next past =>
        obtain rfl := Option.some.inj late
        exact ⟨wait, d, holds, deadline, past⟩
      next => cases late
    next => cases late
  · rintro ⟨w, d, holds, deadline, past⟩
    refine ⟨(c, w), Std.TreeMap.mem_toList_iff_getElem?_eq_some.2 holds, ?_⟩
    simp [deadline, past]

theorem filterMap_sublist_map {α β : Type} {f : α → Option β} {g : α → β}
    (same : ∀ a b, f a = some b → b = g a) (list : List α) :
    (list.filterMap f).Sublist (list.map g) := by
  induction list with
  | nil => exact .slnil
  | cons a list ih =>
    cases found : f a with
    | none => simpa [found] using ih.cons (g a)
    | some b => simpa [found, same a b found] using ih

/-- The callers whose deadline has come stand in the order of their numbers. -/
theorem due_pairwise (s : Client) : s.due.Pairwise (· < ·) := by
  have keys : s.due.Sublist (s.callers.toList.map (·.1)) := by
    refine filterMap_sublist_map ?_ _
    rintro ⟨caller, wait⟩ x found
    simp only at found
    split at found
    next =>
      obtain ⟨-, same⟩ := Option.ite_none_right_eq_some.1 found
      exact (Option.some.inj same).symm
    next => cases found
  refine List.Pairwise.sublist keys (List.pairwise_map.2 ?_)
  exact Std.TreeMap.ordered_keys_toList.imp Nat.compare_eq_lt.1

theorem nodup_due (s : Client) : s.due.Nodup :=
  (due_pairwise s).imp Nat.ne_of_lt

/-- Who is let go by a list without doubles sees one outcome. -/
theorem resolveAll_resolves (t : Client) {cs : List Nat} (r : Outcome) (nodup : cs.Nodup)
    (waits : c ∈ t.callers) :
    c ∈ (t.resolveAll cs r).1.callers ∨ outcomes c (t.resolveAll cs r).2 = [r] := by
  by_cases member : c ∈ cs
  · right
    rw [outcomes_resolveAll, if_pos waits, nodup.count, if_pos member]
    rfl
  · exact .inl ((mem_callers_resolveAll t cs r c).2 ⟨waits, member⟩)

/-- Whoever waits when the driver ends is left in the queue, or sees that the channel is closed. -/
theorem Effect.outcomes_of_ending (h : s.Effect e s' notes) (apart : s.Apart) (inPlace : s.InPlace)
    (running : s.result = none) (ended : s'.result ≠ none) (waits : c ∈ s.callers) :
    outcomes c notes = (if c ∈ s'.queued then [] else [.error .channelClosed]) ∧
      (c ∈ s'.queued → c ∈ s'.callers) := by
  obtain ⟨t, r, rfl, rfl, callers, apart', placed⟩ := h.ending running ended
  have waits' : c ∈ t.callers := callers ▸ waits
  exact ⟨(apart' apart).outcomes_finish r waits' (placed c (inPlace.placed c waits)),
    (apart' apart).mem_callers_of_queued waits'⟩

/-- Whoever waits and does not give up waits on, or sees one outcome. -/
theorem Effect.resolves (h : s.Effect e s' notes) (apart : s.Apart) (inPlace : s.InPlace)
    (stays : e ≠ .giveUp c) (waits : c ∈ s.callers) :
    c ∈ s'.callers ∨ ∃ r, outcomes c notes = [r] := by
  by_cases ending : s.result = none ∧ s'.result ≠ none
  · obtain ⟨told, left⟩ := h.outcomes_of_ending apart inPlace ending.1 ending.2 waits
    by_cases queued : c ∈ s'.queued
    · exact .inl (left queued)
    · exact .inr ⟨_, told.trans (if_neg queued)⟩
  cases h with
  | refuses | closesLate | closes | clones | arrives | peerEnds | peerDeafens | writes | skipsCall
  | skipsReply => exact .inl waits
  | accepts => exact .inl (Std.TreeMap.mem_insert.2 (.inr waits))
  | awaits => exact .inl ((mem_callers_await _ _ _).2 waits)
  | releases =>
    by_cases running : s.result = none
    · rw [dropQueue_of_running { s with handles := s.handles - 1 } running]
      exact .inl waits
    have halted : result { s with handles := s.handles - 1 } ≠ none := running
    have still : c ∈ callers { s with handles := s.handles - 1 } := waits
    rw [mem_callers_dropQueue halted, outcomes_dropQueue halted still]
    by_cases last : handles { s with handles := s.handles - 1 } = 0
    · have one : (queued { s with handles := s.handles - 1 }).count c = 1 :=
        apart.nodup.count.trans (if_pos (inPlace.queued running waits).1)
      rw [if_pos last, one]
      exact .inr ⟨_, rfl⟩
    · exact .inl ⟨waits, fun none => absurd none last⟩
  | givesUp caller =>
    have other : caller ≠ c := fun same => stays (by rw [same])
    exact .inl (Std.TreeMap.mem_erase.2 ⟨by simpa using other, waits⟩)
  | ticks ms =>
    exact (resolveAll_resolves _ _ (nodup_due _) waits).imp_right fun told => ⟨_, told⟩
  | exhausts =>
    exact (resolveAll_resolves _ _ (by simp) waits).imp_right fun told => ⟨_, told⟩
  | answers =>
    exact (resolveAll_resolves _ _ (by simp) waits).imp_right fun told => ⟨_, told⟩
  | picksClose running | failsToWrite running | breaks running | ends running
  | retires running => simp [running] at ending

end

end Client

end RemoteCall
