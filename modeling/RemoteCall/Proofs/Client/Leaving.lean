import Mathlib.Data.List.Sort
import RemoteCall.Proofs.Client.Ledger

/-!
# Callers that leave early

Whether a caller waits for its reply or leaves before, because it gives up or its deadline comes, is
nothing to the driver. Take a run and any set `G` of its callers, and let these callers wait for
ever (`patient`): the driver goes through the same states (`Alike`), refuses the same calls
(`refusals`) and shows the same to everyone else (`besides`), at every moment of the run
(`giving_up_disturbs_nobody_else`).
-/

namespace RemoteCall.Client

/-! ## The run in which they wait -/

/-- How many calls the event starts. -/
def Event.starts : Event → Nat
  | .start .. => 1
  | _ => 0

section
variable (G : Nat → Prop) [DecidablePred G]

/-- The event in which the callers of `G` neither give up nor have a deadline; `n` is the number of
the call that it may start. -/
def Event.patient? (n : Nat) : Event → Option Event
  | .start method argument patience =>
    some (.start method argument (if G n then none else patience))
  | .giveUp caller => if G caller then none else some (.giveUp caller)
  | e => some e

/-- The events in which the callers of `G` wait for ever, the first call that is started being
number `n`. -/
def patient (n : Nat) : List Event → List Event
  | [] => []
  | e :: es => (e.patient? G n).toList ++ patient (n + e.starts) es

/-- Of two callers the second gives up; the first has a deadline no more. -/
example : patient (· = 0) 0
    [.start "a" (.ok []) (some 5), .start "b" (.ok []) (some 5), .tick 5, .giveUp 0, .giveUp 1] =
    [.start "a" (.ok []) none, .start "b" (.ok []) (some 5), .tick 5, .giveUp 1] := rfl

/-- All that is shown but the outcomes that callers of `G` see. -/
def besides (notes : List Note) : List Note :=
  notes.filter fun
    | .resolved c _ => ¬G c
    | _ => True

end

/-- The caller whose call the event makes the driver refuse, as no id is free. -/
def refused? (s : Client) : Event → Option Nat
  | .pick =>
    match s.commands with
    | .call caller _ _ :: _ =>
      if s.isOver || (SendId.allocate? s.outstanding s.next).isSome then none else some caller
    | _ => none
  | _ => none

/-- The callers whose calls a run refuses as no id is free, in that order. -/
def refusals (s : Client) : List Event → List Nat
  | [] => []
  | e :: es =>
    (s.refused? e).toList ++ match s.step? e with
      | some (s', _) => s'.refusals es
      | none => []

/-- The call of the first caller in the queue counts as refused exactly if the step refuses it. -/
theorem refused?_pick_iff {s s' : Client} {c : Nat} {method : String} {payload : Bytes}
    {rest : List Command} {shown : List Note} (queue : s.commands = .call c method payload :: rest)
    (step : s.step? .pick = some (s', shown)) :
    s.refused? .pick = some c ↔ Refused s c s' shown := by
  have running : s.isOver = false := by
    by_contra halted
    simp [step?, halted] at step
  rw [refused?, queue]
  simp only [running]
  rcases (effect_of_step? step).pick_cases queue with ⟨full, refused⟩ | ⟨free, -, fate⟩
  · simp [full, refused]
  · obtain ⟨next, found⟩ := Option.ne_none_iff_exists'.1 free
    have unrefused : ¬Refused s c s' shown := by
      intro refused
      rcases fate with ⟨f, rfl, -⟩ | ⟨-, ended⟩
      · exact refused.not_written (List.mem_singleton_self _)
      · simp [refused.runs] at ended
    simp [found, unrefused]

/-! ## Clients that differ in who waits -/

/-- The second client is the first one, but that other callers of `G` may wait. -/
inductive Alike (G : Nat → Prop) (s : Client) : Client → Prop
  | intro (callers : Std.TreeMap Nat Wait) :
    (∀ c, ¬G c → callers[c]? = s.callers[c]?) → Alike G s { s with callers }

/-- What a step makes of two such clients: they are such clients again, and all but the callers of
`G` see the same. -/
def AlikeAfter (G : Nat → Prop) [DecidablePred G] (p q : Client × List Note) : Prop :=
  Alike G p.1 q.1 ∧ besides G q.2 = besides G p.2

section
variable {G : Nat → Prop} {s t : Client}

theorem Alike.refl (s : Client) : Alike G s s :=
  .intro s.callers fun _ _ => rfl

theorem Alike.result_eq (h : Alike G s t) : t.result = s.result := by
  obtain ⟨callers, others⟩ := h
  rfl

variable [DecidablePred G]

theorem besides_append (notes more : List Note) :
    besides G (notes ++ more) = besides G notes ++ besides G more :=
  List.filter_append ..

theorem besides_resolved (cs : List Nat) (r : Outcome) :
    besides G (cs.map (.resolved · r)) = (cs.filter (¬G ·)).map (.resolved · r) := by
  rw [besides, List.filter_map]
  rfl

@[simp] theorem besides_got (f : Frame) (notes : List Note) :
    besides G (.got f :: notes) = .got f :: besides G notes := rfl

@[simp] theorem besides_ended (r : Except CallError Unit) (notes : List Note) :
    besides G (.ended r :: notes) = .ended r :: besides G notes := rfl

/-! ### Whoever resolves callers -/

/-- The callers of `G` may differ among those that are resolved. -/
theorem Alike.resolveAll (h : Alike G s t) {cs ds : List Nat}
    (same : cs.filter (¬G ·) = ds.filter (¬G ·)) (r : Outcome) :
    AlikeAfter G (s.resolveAll cs r) (t.resolveAll ds r) := by
  obtain ⟨callers, others⟩ := h
  have named : ∀ c, ¬G c → (c ∈ cs ↔ c ∈ ds) := by
    intro c outside
    have both : c ∈ cs.filter (¬G ·) ↔ c ∈ ds.filter (¬G ·) := by rw [same]
    simpa [outside] using both
  constructor
  · refine .intro _ fun c outside => ?_
    have left := getElem?_callers_resolveAll s cs r c
    have right := getElem?_callers_resolveAll { s with callers } ds r c
    rw [left]
    refine right.trans ?_
    simp only [named c outside, others c outside]
  · -- whether a caller waits matters only outside `G`, where both clients say the same
    simp only [Client.resolveAll, besides_resolved, List.filter_filter]
    have filtered : ∀ (list : List Nat) (waits : Nat → Bool),
        list.filter (fun c => decide ¬G c && waits c) =
          (list.filter (¬G ·)).filter waits := by
      intro list waits
      rw [List.filter_filter]
      exact List.filter_congr fun c _ => Bool.and_comm ..
    rw [filtered, filtered, same]
    congr 1
    refine List.filter_congr fun c member => ?_
    have outside : ¬G c := by simpa using (List.mem_filter.1 member).2
    rw [Std.TreeMap.contains_eq_isSome_getElem?, Std.TreeMap.contains_eq_isSome_getElem?,
      others c outside]

theorem Alike.due (h : Alike G s t) : s.due.filter (¬G ·) = t.due.filter (¬G ·) := by
  obtain ⟨callers, others⟩ := h
  refine List.Pairwise.eq_of_mem_iff ((due_pairwise _).filter _) ((due_pairwise _).filter _) ?_
  intro c
  simp only [List.mem_filter, mem_due_iff, decide_eq_true_eq]
  constructor
  all_goals
    rintro ⟨late, outside⟩
    simp only [others c outside] at late ⊢
    exact ⟨late, outside⟩

/-! ### The parts of a step -/

theorem Alike.dropQueue (h : Alike G s t) : AlikeAfter G s.dropQueue t.dropQueue := by
  obtain ⟨callers, others⟩ := h
  simp only [Client.dropQueue]
  refine rel_ite ?_ ⟨.intro callers others, rfl⟩
  refine Alike.resolveAll ?_ rfl _
  exact .intro callers others

theorem Alike.finish (h : Alike G s t) (r : Except CallError Unit) :
    AlikeAfter G (s.finish r) (t.finish r) := by
  have closed : AlikeAfter G (s.closed r) (t.closed r) := by
    obtain ⟨callers, others⟩ := h
    refine Alike.resolveAll ?_ rfl _
    exact .intro callers others
  have dropped := closed.1.dropQueue
  rw [finish_eq, finish_eq]
  refine ⟨dropped.1, ?_⟩
  simp only [List.cons_append, besides_ended, besides_append, closed.2, dropped.2]

/-- Only a caller of `G` may have another patience. -/
theorem Alike.start (h : Alike G s t) (method : String) (argument : Except IoError Bytes)
    (patience : Option Nat) :
    AlikeAfter G (s.start method argument patience)
      (t.start method argument (if G s.started then none else patience)) := by
  obtain ⟨callers, others⟩ := h
  have checked : { s with started := s.started + 1, callers }.check method argument =
      { s with started := s.started + 1 }.check method argument := rfl
  simp only [Client.start, checked]
  split
  next => exact ⟨.intro callers others, rfl⟩
  next =>
    refine ⟨.intro _ fun c outside => ?_, rfl⟩
    simp only [Std.TreeMap.getElem?_insert, others c outside]
    split
    next new =>
      obtain rfl : s.started = c := by simpa using new
      rw [if_neg outside]
    next => rfl

theorem Alike.send (h : Alike G s t) (caller : Nat) (method : String) (payload : Bytes) :
    AlikeAfter G (s.send caller method payload) (t.send caller method payload) := by
  obtain ⟨callers, others⟩ := h
  simp only [Client.send]
  split
  next => exact Alike.resolveAll (.intro callers others) rfl _
  next i next free =>
    refine rel_ite (Alike.finish ?_ _) ⟨.intro callers others, rfl⟩
    exact .intro callers others

theorem Alike.handle (h : Alike G s t) (f : Frame) : AlikeAfter G (s.handle f) (t.handle f) := by
  obtain ⟨callers, others⟩ := h
  simp only [Client.handle]
  split
  next => exact ⟨.intro callers others, rfl⟩
  next i status n head =>
    split
    next => exact ⟨.intro callers others, rfl⟩
    next caller known =>
      have freed : Alike G { s with outstanding := s.outstanding.erase i }
          { s with outstanding := s.outstanding.erase i, callers } := .intro callers others
      have told := freed.resolveAll (rfl : [caller].filter (¬G ·) = _)
        (.ofReply status f.payload)
      exact ⟨told.1, by simpa using told.2⟩

theorem Alike.pick (h : Alike G s t) : Option.Rel (AlikeAfter G) s.pick? t.pick? := by
  obtain ⟨callers, others⟩ := h
  simp only [pick?]
  split
  next => exact .none
  next =>
    refine .some (Alike.finish ?_ _)
    exact .intro callers others
  next =>
    refine .some (Alike.send ?_ ..)
    exact .intro callers others

theorem Alike.take (h : Alike G s t) : Option.Rel (AlikeAfter G) s.take? t.take? := by
  obtain ⟨callers, others⟩ := h
  simp only [take?]
  split
  next =>
    refine .some (Alike.handle ?_ _)
    exact .intro callers others
  next =>
    refine .some (Alike.finish ?_ _)
    exact .intro callers others
  next =>
    refine rel_ite (.some (Alike.finish ?_ _)) .none
    exact .intro callers others

theorem Alike.tick (h : Alike G s t) (ms : Nat) : AlikeAfter G (s.tick ms) (t.tick ms) := by
  have later : Alike G { s with now := s.now + ms } { t with now := t.now + ms } := by
    obtain ⟨callers, others⟩ := h
    exact .intro callers others
  exact later.resolveAll later.due _

/-! ## One event -/

/-- An event is possible in both clients or in neither. -/
theorem Alike.step (h : Alike G s t) {e e' : Event} (given : e.patient? G s.started = some e') :
    Option.Rel (AlikeAfter G) (s.step? e) (t.step? e') := by
  cases e with
  | start method argument patience =>
    obtain rfl := Option.some.inj given
    have begun := h.start method argument patience
    obtain ⟨callers, others⟩ := h
    exact rel_ite (.some begun) .none
  | await caller =>
    obtain rfl := Option.some.inj given
    obtain ⟨callers, others⟩ := h
    refine .some ⟨.intro _ fun c outside => ?_, rfl⟩
    refine (getElem?_callers_await { s with callers } caller c).trans ?_
    rw [getElem?_callers_await, others c outside]
  | giveUp caller =>
    simp only [Event.patient?, Option.ite_none_left_eq_some, Option.some.injEq] at given
    obtain ⟨-, rfl⟩ := given
    obtain ⟨callers, others⟩ := h
    refine .some ⟨.intro _ fun c outside => ?_, rfl⟩
    simp only [Std.TreeMap.getElem?_erase, others c outside]
  | close =>
    obtain rfl := Option.some.inj given
    obtain ⟨callers, others⟩ := h
    exact rel_ite .none (rel_ite (.some ⟨.intro callers others, rfl⟩)
      (.some ⟨.intro callers others, rfl⟩))
  | release =>
    obtain rfl := Option.some.inj given
    obtain ⟨callers, others⟩ := h
    refine rel_ite .none (.some (Alike.dropQueue ?_))
    exact .intro callers others
  | tick ms =>
    obtain rfl := Option.some.inj given
    exact .some (h.tick ms)
  | pick =>
    obtain rfl := Option.some.inj given
    have picked := h.pick
    obtain ⟨callers, others⟩ := h
    exact rel_ite .none picked
  | take =>
    obtain rfl := Option.some.inj given
    have taken := h.take
    obtain ⟨callers, others⟩ := h
    exact rel_ite .none taken
  | retire =>
    obtain rfl := Option.some.inj given
    have ended := h.finish (.ok ())
    obtain ⟨callers, others⟩ := h
    exact rel_ite .none (.some ended)
  | clone | arrive | peerEnds | peerDeafens =>
    obtain rfl := Option.some.inj given
    obtain ⟨callers, others⟩ := h
    exact rel_ite .none (.some ⟨.intro callers others, rfl⟩)

/-- The event that is left out is a caller of `G` that gives up. -/
theorem Alike.left_out (h : Alike G s t) {e : Event} (left : e.patient? G s.started = none)
    {s' : Client} {notes : List Note} (step : s.step? e = some (s', notes)) :
    AlikeAfter G (s', notes) (t, []) := by
  cases e with
  | giveUp caller =>
    have member : G caller := by
      by_contra outside
      simp [Event.patient?, outside] at left
    obtain ⟨rfl, rfl⟩ := by simpa [step?] using step
    obtain ⟨callers, others⟩ := h
    refine ⟨.intro callers fun c outside => ?_, rfl⟩
    have other : caller ≠ c := fun same => outside (same ▸ member)
    simp [Std.TreeMap.getElem?_erase, other, others c outside]
  | _ => cases left

theorem Alike.refused? (h : Alike G s t) {e e' : Event} (given : e.patient? G s.started = some e') :
    t.refused? e' = s.refused? e := by
  obtain ⟨callers, others⟩ := h
  cases e with
  | giveUp caller =>
    simp only [Event.patient?, Option.ite_none_left_eq_some, Option.some.injEq] at given
    obtain ⟨-, rfl⟩ := given
    rfl
  | _ =>
    obtain rfl := Option.some.inj given
    rfl

theorem Effect.started_eq {e : Event} {s' : Client} {notes : List Note}
    (h : s.Effect e s' notes) : s'.started = s.started + e.starts := by
  rcases h.start_or_narrows with ⟨method, argument, patience, rfl⟩ | ⟨other, go⟩
  · cases h <;> rfl
  · have none : e.starts = 0 := by
      cases e with
      | start => exact absurd rfl (other _ _ _)
      | _ => rfl
    rw [go.started, none, Nat.add_zero]

/-! ## A whole run -/

theorem run?_cons {e : Event} {u : Client} {notes : List Note} (es : List Event)
    (step : s.step? e = some (u, notes)) :
    s.run? (e :: es) = (u.run? es).map fun r => (r.1, notes ++ r.2) := by
  simp only [run?, step, Option.bind_eq_bind, Option.bind_some]
  cases u.run? es <;> rfl

theorem refusals_cons {e : Event} {u : Client} {notes : List Note} (es : List Event)
    (step : s.step? e = some (u, notes)) :
    s.refusals (e :: es) = (s.refused? e).toList ++ u.refusals es := by
  simp only [refusals, step]

theorem AlikeAfter.followed {p q : Client × List Note} (first : AlikeAfter G p q)
    {a b : Option (Client × List Note)} (rest : Option.Rel (AlikeAfter G) a b) :
    Option.Rel (AlikeAfter G) (a.map fun r => (r.1, p.2 ++ r.2))
      (b.map fun r => (r.1, q.2 ++ r.2)) := by
  cases rest with
  | none => exact .none
  | some later =>
    refine .some ⟨later.1, ?_⟩
    rw [besides_append, besides_append, first.2, later.2]

/-- Clients that are alike stay so, and refuse the same calls; or neither run is possible. -/
theorem Alike.run (h : Alike G s t) (es : List Event) :
    Option.Rel (AlikeAfter G) (s.run? es) (t.run? (patient G s.started es)) ∧
      t.refusals (patient G s.started es) = s.refusals es := by
  -- on the events: one that is left out moves the first client only, any other one moves both
  induction es generalizing s t with
  | nil => exact ⟨.some ⟨h, rfl⟩, rfl⟩
  | cons e es ih =>
    rw [patient]
    cases given : e.patient? G s.started with
    | none =>
      obtain ⟨caller, rfl⟩ : ∃ caller, e = .giveUp caller := by
        cases e with
        | giveUp caller => exact ⟨caller, rfl⟩
        | _ => cases given
      have step : s.step? (.giveUp caller) =
        some ({ s with callers := s.callers.erase caller }, []) := rfl
      have same := h.left_out given step
      obtain ⟨rest, refused⟩ := ih same.1
      rw [run?_cons es step, refusals_cons es step]
      refine ⟨?_, refused⟩
      simpa [Event.starts] using same.followed rest
    | some e' =>
      have both := h.step given
      have refuses := h.refused? given
      generalize step : s.step? e = here at both
      generalize step' : t.step? e' = there at both
      cases both with
      | none => simp [run?, refusals, step, step', refuses]
      | @some p q same =>
        obtain ⟨rest, refused⟩ := ih same.1
        have started := (effect_of_step? step).started_eq
        rw [Option.toList_some, List.singleton_append, ← started, run?_cons es step,
          run?_cons _ step', refusals_cons es step, refusals_cons _ step', refuses, refused]
        exact ⟨same.followed rest, rfl⟩

theorem patient_append (n : Nat) (es fs : List Event) :
    ∃ m, patient G n (es ++ fs) = patient G n es ++ patient G m fs := by
  induction es generalizing n with
  | nil => exact ⟨n, rfl⟩
  | cons e es ih =>
    obtain ⟨m, rest⟩ := ih (n + e.starts)
    exact ⟨m, by simp [patient, rest]⟩

theorem outcomes_besides {c : Nat} (outside : ¬G c) (notes : List Note) :
    outcomes c (besides G notes) = outcomes c notes := by
  rw [outcomes, besides, List.filterMap_filter]
  refine List.filterMap_congr fun note _ => ?_
  cases note with
  | resolved d r =>
    by_cases same : d = c
    · simp [same, outside]
    · simp [same]
  | wrote | got | ended => rfl

end

/-! ## Any run of a new client -/

/-- Take any events of a new client and any callers, and let these callers wait for ever, with all
other events as they are. Then both are runs or neither is. At their ends the two clients are the
same, down to the send ids that are taken, the id that is tried next and how the driver ended; but
for which of these callers wait. Up to there both showed the same to everyone else, in the same
order: every frame that was written, with its id, every frame that was taken, the end of the driver
and what each other caller saw. They refused the calls of the same callers for want of an id. As
this holds for every run, it holds at each moment of a run. -/
theorem giving_up_disturbs_nobody_else (limit : UInt32) (handles : Nat) (es : List Event)
    (G : Nat → Prop) [DecidablePred G] :
    Option.Rel
        (fun (s, notes) (t, told) =>
          Alike G s t ∧ t.result = s.result ∧ besides G told = besides G notes ∧
            ∀ c, ¬G c → outcomes c told = outcomes c notes)
        (({ limit, handles } : Client).run? es)
        (({ limit, handles } : Client).run? (patient G 0 es)) ∧
      ({ limit, handles } : Client).refusals (patient G 0 es) =
        ({ limit, handles } : Client).refusals es ∧
      ∀ early late, es = early ++ late → patient G 0 early <+: patient G 0 es := by
  obtain ⟨both, refused⟩ := (Alike.refl (G := G) ({ limit, handles } : Client)).run es
  refine ⟨?_, refused, ?_⟩
  · generalize Client.run? _ es = here at both ⊢
    generalize Client.run? _ (patient G 0 es) = there at both ⊢
    cases both with
    | none => exact .none
    | @some p q same =>
      refine .some ⟨same.1, same.1.result_eq, same.2, fun c outside => ?_⟩
      rw [← outcomes_besides outside, same.2, outcomes_besides outside]
  · rintro early late rfl
    obtain ⟨m, split⟩ := patient_append (G := G) 0 early late
    exact split ▸ List.prefix_append ..

end RemoteCall.Client
