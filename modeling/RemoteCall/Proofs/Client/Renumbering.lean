import RemoteCall.Proofs.Client.Leaving

/-!
# Callers under other numbers

Callers are numbered in the order in which they start. If a call is left out then all later callers
have a number less (`skip n` is the way back), and that is the only difference it makes to a client
that knows nothing of that call: `Renumbered n t s` says that `s` is `t` but for these numbers. Both
go on alike, whatever happens:

    Renumbered n t s → Option.Rel (RenumberedAfter n) (t.run? (without n es)) (s.run? es)
                                                                              (Renumbered.run)
-/

namespace RemoteCall

/-! ## Numbers with a gap -/

/-- The numbers but for `n`, in their order. -/
def skip (n c : Nat) : Nat := if c < n then c else c + 1

section
variable {n b c : Nat}

theorem skip_lt_iff : skip n b < skip n c ↔ b < c := by
  unfold skip
  split <;> split <;> omega

theorem skip_inj : skip n b = skip n c ↔ b = c := by
  unfold skip
  split <;> split <;> omega

theorem skip_injective (n : Nat) : Function.Injective (skip n) := fun _ _ => skip_inj.1

theorem skip_ne (n c : Nat) : skip n c ≠ n := by
  unfold skip
  split <;> omega

theorem skip_of_lt (h : c < n) : skip n c = c := if_pos h

theorem skip_of_le (h : n ≤ c) : skip n c = c + 1 := if_neg (Nat.not_lt.2 h)

theorem exists_skip (h : c ≠ n) : ∃ b, skip n b = c := by
  by_cases less : c < n
  · exact ⟨c, skip_of_lt less⟩
  · refine ⟨c - 1, ?_⟩
    rw [skip_of_le (by omega)]
    omega

end

namespace Outstanding

/-- The same ids are taken, by the same callers under their other numbers. -/
def Renumbered (n : Nat) (t s : Outstanding) : Prop := ∀ i : SendId, s[i]? = t[i]?.map (skip n)

section
variable {n : Nat} {t s : Outstanding}

/-- The ids stand in their order. -/
theorem toList_pairwise (taken : Outstanding) :
    taken.toList.Pairwise fun p q => p.1 < q.1 :=
  Std.TreeMap.ordered_keys_toList.imp Std.compare_eq_lt.1

theorem Renumbered.toList_eq (h : Renumbered n t s) :
    s.toList = t.toList.map fun p => (p.1, skip n p.2) := by
  have asymm : Std.Antisymm fun p q : SendId × Nat => p.1 < q.1 :=
    ⟨fun p q less more => absurd less (UInt16.lt_asymm more)⟩
  have irrefl : Std.Irrefl fun p q : SendId × Nat => p.1 < q.1 := ⟨fun p => UInt16.lt_irrefl p.1⟩
  have ordered : (t.toList.map fun p => (p.1, skip n p.2)).Pairwise fun p q => p.1 < q.1 :=
    List.pairwise_map.2 (toList_pairwise t)
  refine List.Pairwise.eq_of_mem_iff (toList_pairwise s) ordered ?_
  rintro ⟨i, c⟩
  rw [Std.TreeMap.mem_toList_iff_getElem?_eq_some, h i, Option.map_eq_some_iff, List.mem_map]
  constructor
  · rintro ⟨b, holds, rfl⟩
    exact ⟨(i, b), Std.TreeMap.mem_toList_iff_getElem?_eq_some.2 holds, rfl⟩
  · rintro ⟨⟨j, b⟩, member, same⟩
    obtain ⟨rfl, rfl⟩ := Prod.mk.inj same
    exact ⟨b, Std.TreeMap.mem_toList_iff_getElem?_eq_some.1 member, rfl⟩

theorem Renumbered.size_eq (h : Renumbered n t s) : s.size = t.size := by
  rw [← Std.TreeMap.length_toList, ← Std.TreeMap.length_toList, h.toList_eq, List.length_map]

theorem Renumbered.values_eq (h : Renumbered n t s) : s.values = t.values.map (skip n) := by
  rw [Outstanding.values_eq, Outstanding.values_eq, h.toList_eq, List.map_map, List.map_map]
  rfl

theorem Renumbered.contains_eq (h : Renumbered n t s) (i : SendId) :
    s.contains i = t.contains i := by
  rw [Std.TreeMap.contains_eq_isSome_getElem?, Std.TreeMap.contains_eq_isSome_getElem?, h i,
    Option.isSome_map]

theorem Renumbered.firstFree_eq (h : Renumbered n t s) (fuel : Nat) (next : SendId) :
    SendId.firstFree s fuel next = SendId.firstFree t fuel next := by
  simp only [SendId.firstFree_eq_find?, h.contains_eq]

/-- The same id comes next. -/
theorem Renumbered.allocate?_eq (h : Renumbered n t s) (next : SendId) :
    SendId.allocate? s next = SendId.allocate? t next := by
  rw [SendId.allocate?, SendId.allocate?, h.size_eq, h.firstFree_eq]

theorem Renumbered.insert (h : Renumbered n t s) (i : SendId) (c : Nat) :
    Renumbered n (t.insert i c) (s.insert i (skip n c)) := by
  intro j
  rw [Std.TreeMap.getElem?_insert, Std.TreeMap.getElem?_insert, h j]
  split <;> rfl

theorem Renumbered.erase (h : Renumbered n t s) (i : SendId) :
    Renumbered n (t.erase i) (s.erase i) := by
  intro j
  rw [Std.TreeMap.getElem?_erase, Std.TreeMap.getElem?_erase, h j]
  split <;> rfl

end

end Outstanding

/-- The command of the caller under its other number. -/
def Command.renumber (n : Nat) : Command → Command
  | .call c method payload => .call (skip n c) method payload
  | .close => .close

namespace Client

/-- The note about the caller under its other number. -/
def Note.renumber (n : Nat) : Note → Note
  | .wrote c f => .wrote (skip n c) f
  | .resolved c r => .resolved (skip n c) r
  | .got f => .got f
  | .ended r => .ended r

/-- The second client is the first one, but that it has counted one call more, number `n`, and knows
no more of it. -/
inductive Renumbered (n : Nat) (t : Client) : Client → Prop
  | intro (taken : Outstanding) (callers : Std.TreeMap Nat Wait) :
    n ≤ t.started → Outstanding.Renumbered n t.outstanding taken →
    (∀ c, callers[skip n c]? = t.callers[c]?) → callers[n]? = none →
    Renumbered n t
      { t with
        started := t.started + 1
        commands := t.commands.map (Command.renumber n)
        outstanding := taken
        callers }

/-- What a step makes of two such clients. -/
def RenumberedAfter (n : Nat) (q p : Client × List Note) : Prop :=
  Renumbered n q.1 p.1 ∧ p.2 = q.2.map (Note.renumber n)

section
variable {n : Nat} {s t : Client}

theorem Renumbered.result_eq (h : Renumbered n t s) : s.result = t.result := by
  obtain ⟨taken, callers, later, outstanding, waits, unknown⟩ := h
  rfl

theorem Renumbered.queued_eq (h : Renumbered n t s) : s.queued = t.queued.map (skip n) := by
  obtain ⟨taken, callers, later, outstanding, waits, unknown⟩ := h
  simp only [queued, List.filterMap_map, List.map_filterMap]
  apply List.filterMap_congr
  intro command _
  cases command <;> rfl

theorem Renumbered.resolveAll (h : Renumbered n t s) (cs : List Nat) (r : Outcome) :
    RenumberedAfter n (t.resolveAll cs r) (s.resolveAll (cs.map (skip n)) r) := by
  obtain ⟨taken, callers, later, outstanding, waits, unknown⟩ := h
  constructor
  · refine .intro taken _ later outstanding (fun c => ?_) ?_
    · refine (getElem?_callers_resolveAll { t with callers } (cs.map (skip n)) r
        (skip n c)).trans ?_
      rw [getElem?_callers_resolveAll]
      simp only [waits, List.mem_map_of_injective (skip_injective n)]
    · refine (getElem?_callers_resolveAll { t with callers } (cs.map (skip n)) r n).trans ?_
      simp only [unknown, ite_self]
  · simp only [Client.resolveAll, List.filter_map, List.map_map]
    have same : callers.contains ∘ skip n = t.callers.contains := by
      funext c
      simp only [Function.comp_apply, Std.TreeMap.contains_eq_isSome_getElem?, waits]
    rw [same]
    rfl

theorem Renumbered.due_eq (h : Renumbered n t s) : s.due = t.due.map (skip n) := by
  obtain ⟨taken, callers, later, outstanding, waits, unknown⟩ := h
  have ordered : (t.due.map (skip n)).Pairwise (· < ·) :=
    List.pairwise_map.2 ((due_pairwise t).imp skip_lt_iff.2)
  refine List.Pairwise.eq_of_mem_iff (due_pairwise _) ordered ?_
  intro c
  rw [mem_due_iff, List.mem_map]
  constructor
  · rintro ⟨w, d, holds, deadline, past⟩
    have other : c ≠ n := by
      rintro rfl
      simp [unknown] at holds
    obtain ⟨b, rfl⟩ := exists_skip other
    exact ⟨b, mem_due_iff.2 ⟨w, d, (waits b).symm.trans holds, deadline, past⟩, rfl⟩
  · rintro ⟨b, late, rfl⟩
    obtain ⟨w, d, holds, deadline, past⟩ := mem_due_iff.1 late
    exact ⟨w, d, (waits b).trans holds, deadline, past⟩

/-! ### The parts of a step -/

theorem Renumbered.dropQueue (h : Renumbered n t s) :
    RenumberedAfter n t.dropQueue s.dropQueue := by
  have queued := h.queued_eq
  unfold Client.dropQueue
  rw [queued]
  obtain ⟨taken, callers, later, outstanding, waits, unknown⟩ := h
  have empty : Renumbered n { t with commands := [] }
      { t with
        started := t.started + 1
        commands := []
        outstanding := taken
        callers } := .intro taken callers later outstanding waits unknown
  refine rel_ite (R := RenumberedAfter n) (empty.resolveAll _ _) ⟨?_, rfl⟩
  exact .intro taken callers later outstanding waits unknown

theorem Renumbered.finish (h : Renumbered n t s) (r : Except CallError Unit) :
    RenumberedAfter n (t.finish r) (s.finish r) := by
  have closed : RenumberedAfter n (t.closed r) (s.closed r) := by
    obtain ⟨taken, callers, later, outstanding, waits, unknown⟩ := h
    unfold Client.closed
    rw [outstanding.values_eq]
    refine Renumbered.resolveAll ?_ _ _
    exact .intro {} callers later (fun i => by simp) waits unknown
  have dropped := closed.1.dropQueue
  rw [finish_eq, finish_eq]
  refine ⟨dropped.1, ?_⟩
  simp only [List.map_append, List.map_cons, closed.2, dropped.2]
  rfl

/-- The new call has a number more in the second client, as all calls behind the gap. -/
theorem Renumbered.start (h : Renumbered n t s) (method : String)
    (argument : Except IoError Bytes) (patience : Option Nat) :
    RenumberedAfter n (t.start method argument patience) (s.start method argument patience) := by
  have checked : s.check method argument = t.check method argument := by
    obtain ⟨taken, callers, later, outstanding, waits, unknown⟩ := h
    rfl
  obtain ⟨taken, callers, later, outstanding, waits, unknown⟩ := h
  have number : skip n t.started = t.started + 1 := skip_of_le later
  cases passed : t.check method argument with
  | error e =>
    rw [start_of_error passed, start_of_error (checked.trans passed)]
    refine ⟨.intro taken callers (Nat.le_succ_of_le later) outstanding waits unknown, ?_⟩
    simp only [List.map_cons, List.map_nil, Note.renumber, number]
  | ok payload =>
    rw [start_of_ok passed, start_of_ok (checked.trans passed)]
    have joined : t.commands.map (Command.renumber n) ++
          [Command.call (t.started + 1) method payload] =
        (t.commands ++ [Command.call t.started method payload]).map (Command.renumber n) := by
      rw [List.map_append, ← number]
      rfl
    refine ⟨?_, rfl⟩
    simp only [joined]
    refine Renumbered.intro (t := { t with
      started := t.started + 1
      commands := t.commands ++ [Command.call t.started method payload]
      callers := t.callers.insert t.started { patience } }) taken _
      (Nat.le_succ_of_le later) outstanding (fun c => ?_) ?_
    · rw [← number]
      simp only [Std.TreeMap.getElem?_insert, waits, Std.LawfulEqCmp.compare_eq_iff_eq, skip_inj]
    · have other : t.started + 1 ≠ n := by omega
      simp [Std.TreeMap.getElem?_insert, other, unknown]

theorem Renumbered.send (h : Renumbered n t s) (caller : Nat) (method : String) (payload : Bytes) :
    RenumberedAfter n (t.send caller method payload) (s.send (skip n caller) method payload) := by
  obtain ⟨taken, callers, later, outstanding, waits, unknown⟩ := h
  simp only [Client.send, outstanding.allocate?_eq]
  split
  next =>
    refine Renumbered.resolveAll ?_ [caller] _
    exact .intro taken callers later outstanding waits unknown
  next i next free =>
    refine rel_ite (R := RenumberedAfter n) (Renumbered.finish ?_ _) ⟨?_, rfl⟩
    · exact .intro _ callers later (outstanding.insert i caller) waits unknown
    · exact .intro _ callers later (outstanding.insert i caller) waits unknown

theorem Renumbered.handle (h : Renumbered n t s) (f : Frame) :
    RenumberedAfter n (t.handle f) (s.handle f) := by
  have still : RenumberedAfter n (t, [.got f]) (s, [.got f]) := ⟨h, rfl⟩
  obtain ⟨taken, callers, later, outstanding, waits, unknown⟩ := h
  simp only [Client.handle]
  split
  next => exact still
  next i status _ head =>
    have known := outstanding i
    cases here : t.outstanding[i]? with
    | none =>
      rw [here] at known
      simp only [known, Option.map_none]
      exact still
    | some caller =>
      rw [here] at known
      simp only [known, Option.map_some]
      have freed : Renumbered n { t with outstanding := t.outstanding.erase i }
          { t with
            started := t.started + 1
            commands := t.commands.map (Command.renumber n)
            outstanding := taken.erase i
            callers } := .intro _ callers later (outstanding.erase i) waits unknown
      have told := freed.resolveAll [caller] (.ofReply status f.payload)
      exact ⟨told.1, congrArg (Note.got f :: ·) told.2⟩

theorem Renumbered.pick (h : Renumbered n t s) :
    Option.Rel (RenumberedAfter n) t.pick? s.pick? := by
  obtain ⟨taken, callers, later, outstanding, waits, unknown⟩ := h
  simp only [pick?]
  cases queue : t.commands with
  | nil => exact .none
  | cons command rest =>
    have fewer : Renumbered n { t with commands := rest }
        { t with
          started := t.started + 1
          commands := rest.map (Command.renumber n)
          outstanding := taken
          callers } := .intro taken callers later outstanding waits unknown
    cases command with
    | close => exact .some (fewer.finish _)
    | call caller method payload => exact .some (fewer.send caller method payload)

theorem Renumbered.take (h : Renumbered n t s) :
    Option.Rel (RenumberedAfter n) t.take? s.take? := by
  obtain ⟨taken, callers, later, outstanding, waits, unknown⟩ := h
  simp only [take?]
  split
  next =>
    refine .some (Renumbered.handle ?_ _)
    exact .intro taken callers later outstanding waits unknown
  next =>
    refine .some (Renumbered.finish ?_ _)
    exact .intro taken callers later outstanding waits unknown
  next =>
    refine rel_ite (.some (Renumbered.finish ?_ _)) .none
    exact .intro taken callers later outstanding waits unknown

theorem Renumbered.tick (h : Renumbered n t s) (ms : Nat) :
    RenumberedAfter n (t.tick ms) (s.tick ms) := by
  have later : Renumbered n { t with now := t.now + ms } { s with now := s.now + ms } := by
    obtain ⟨taken, callers, later, outstanding, waits, unknown⟩ := h
    exact .intro taken callers later outstanding waits unknown
  unfold Client.tick
  simp only [later.due_eq]
  exact later.resolveAll _ _

/-! ### One event -/

theorem Renumbered.giveUp (h : Renumbered n t s) (c : Nat) :
    Renumbered n { t with callers := t.callers.erase c }
      { s with callers := s.callers.erase (skip n c) } := by
  obtain ⟨taken, callers, later, outstanding, waits, unknown⟩ := h
  refine .intro taken _ later outstanding (fun b => ?_) ?_
  · simp only [Std.TreeMap.getElem?_erase, waits, Std.LawfulEqCmp.compare_eq_iff_eq, skip_inj]
  · simp only [Std.TreeMap.getElem?_erase, unknown, ite_self]

theorem Renumbered.await (h : Renumbered n t s) (c : Nat) :
    Renumbered n (t.await c) (s.await (skip n c)) := by
  obtain ⟨taken, callers, later, outstanding, waits, unknown⟩ := h
  refine .intro taken _ later outstanding (fun b => ?_) ?_
  · refine (getElem?_callers_await { t with callers } _ _).trans ?_
    rw [getElem?_callers_await, waits]
    simp only [Wait.after, skip_inj]
  · refine (getElem?_callers_await { t with callers } _ _).trans ?_
    simp only [unknown, Option.map_none]

/-- The caller that is not known does not wait. -/
theorem Renumbered.giveUp_unknown (h : Renumbered n t s) :
    Renumbered n t { s with callers := s.callers.erase n } := by
  obtain ⟨taken, callers, later, outstanding, waits, unknown⟩ := h
  refine .intro taken _ later outstanding (fun b => ?_) ?_
  · have other : ¬n = skip n b := fun same => skip_ne n b same.symm
    simp only [Std.TreeMap.getElem?_erase, Std.LawfulEqCmp.compare_eq_iff_eq, if_neg other, waits]
  · simp only [Std.TreeMap.getElem?_erase, unknown, ite_self]

theorem Renumbered.await_unknown (h : Renumbered n t s) : Renumbered n t (s.await n) := by
  obtain ⟨taken, callers, later, outstanding, waits, unknown⟩ := h
  refine .intro taken _ later outstanding (fun b => ?_) ?_
  · have other : ¬n = skip n b := fun same => skip_ne n b same.symm
    refine (getElem?_callers_await { t with callers } _ _).trans ?_
    simp only [Wait.after, if_neg other, Option.map_id', waits]
  · refine (getElem?_callers_await { t with callers } _ _).trans ?_
    simp only [unknown, Option.map_none]

end

/-- The number of the caller if call `n` is left out. -/
def unskip (n c : Nat) : Nat := if c < n then c else c - 1

theorem skip_unskip {n c : Nat} (other : c ≠ n) : skip n (unskip n c) = c := by
  by_cases less : c < n
  · rw [unskip, if_pos less, skip_of_lt less]
  · rw [unskip, if_neg less, skip_of_le (by omega)]
    omega

/-- The event if call `n` is left out; none, if it is that caller who awaits it or gives up. -/
def Event.without? (n : Nat) : Event → Option Event
  | .await c => if c = n then none else some (.await (unskip n c))
  | .giveUp c => if c = n then none else some (.giveUp (unskip n c))
  | e => some e

/-- The events behind the start of call `n`, if that is left out. -/
def without (n : Nat) (es : List Event) : List Event := es.filterMap (Event.without? n)

section
variable {n : Nat} {s t : Client}

/-- An event is possible for both clients or for neither. -/
theorem Renumbered.step (h : Renumbered n t s) {e e' : Event} (given : e.without? n = some e') :
    Option.Rel (RenumberedAfter n) (t.step? e') (s.step? e) := by
  cases e with
  | await c =>
    simp only [Event.without?, Option.ite_none_left_eq_some, Option.some.injEq] at given
    obtain ⟨other, rfl⟩ := given
    have awaited := h.await (unskip n c)
    rw [skip_unskip other] at awaited
    exact .some ⟨awaited, rfl⟩
  | giveUp c =>
    simp only [Event.without?, Option.ite_none_left_eq_some, Option.some.injEq] at given
    obtain ⟨other, rfl⟩ := given
    have gone := h.giveUp (unskip n c)
    rw [skip_unskip other] at gone
    exact .some ⟨gone, rfl⟩
  | start method argument patience =>
    obtain rfl := Option.some.inj given
    have begun := h.start method argument patience
    obtain ⟨taken, callers, later, outstanding, waits, unknown⟩ := h
    exact rel_ite (.some begun) .none
  | close =>
    obtain rfl := Option.some.inj given
    obtain ⟨taken, callers, later, outstanding, waits, unknown⟩ := h
    have queued : Renumbered n { t with commands := t.commands ++ [Command.close] }
        { t with
          started := t.started + 1
          commands := t.commands.map (Command.renumber n) ++ [Command.close]
          outstanding := taken
          callers } := by
      have joined : t.commands.map (Command.renumber n) ++ [Command.close] =
          (t.commands ++ [Command.close]).map (Command.renumber n) := by
        rw [List.map_append]
        rfl
      rw [joined]
      exact .intro taken callers later outstanding waits unknown
    refine rel_ite .none (rel_ite (.some ⟨?_, rfl⟩) (.some ⟨queued, rfl⟩))
    exact .intro taken callers later outstanding waits unknown
  | release =>
    obtain rfl := Option.some.inj given
    obtain ⟨taken, callers, later, outstanding, waits, unknown⟩ := h
    refine rel_ite .none (.some (Renumbered.dropQueue ?_))
    exact .intro taken callers later outstanding waits unknown
  | tick ms =>
    obtain rfl := Option.some.inj given
    exact .some (h.tick ms)
  | pick =>
    obtain rfl := Option.some.inj given
    have picked := h.pick
    obtain ⟨taken, callers, later, outstanding, waits, unknown⟩ := h
    exact rel_ite .none picked
  | take =>
    obtain rfl := Option.some.inj given
    have taken' := h.take
    obtain ⟨taken, callers, later, outstanding, waits, unknown⟩ := h
    exact rel_ite .none taken'
  | retire =>
    obtain rfl := Option.some.inj given
    have ended := h.finish (.ok ())
    obtain ⟨taken, callers, later, outstanding, waits, unknown⟩ := h
    have empty : (t.commands.map (Command.renumber n)).isEmpty = t.commands.isEmpty :=
      List.isEmpty_map
    simp only [step?, empty]
    exact rel_ite .none (.some ended)
  | clone | arrive | peerEnds | peerDeafens =>
    obtain rfl := Option.some.inj given
    obtain ⟨taken, callers, later, outstanding, waits, unknown⟩ := h
    refine rel_ite .none (.some ⟨?_, rfl⟩)
    exact .intro taken callers later outstanding waits unknown

/-! ### A whole run -/

theorem RenumberedAfter.followed {q p : Client × List Note} (first : RenumberedAfter n q p)
    {a b : Option (Client × List Note)} (rest : Option.Rel (RenumberedAfter n) a b) :
    Option.Rel (RenumberedAfter n) (a.map fun r => (r.1, q.2 ++ r.2))
      (b.map fun r => (r.1, p.2 ++ r.2)) := by
  cases rest with
  | none => exact .none
  | @some q' p' later =>
    refine .some ⟨later.1, ?_⟩
    show p.2 ++ p'.2 = (q.2 ++ q'.2).map (Note.renumber n)
    rw [List.map_append, first.2, later.2]

/-- An event that is left out changes nothing but what is not known of its caller. -/
theorem Renumbered.left_out (h : Renumbered n t s) {e : Event} (left : e.without? n = none) :
    ∃ u, s.step? e = some (u, []) ∧ Renumbered n t u := by
  cases e with
  | await c =>
    obtain rfl : c = n := by simpa [Event.without?] using left
    exact ⟨_, rfl, h.await_unknown⟩
  | giveUp c =>
    obtain rfl : c = n := by simpa [Event.without?] using left
    exact ⟨_, rfl, h.giveUp_unknown⟩
  | _ => cases left

/-- Both go on alike; or neither run is possible. -/
theorem Renumbered.run (h : Renumbered n t s) (es : List Event) :
    Option.Rel (RenumberedAfter n) (t.run? (without n es)) (s.run? es) := by
  induction es generalizing s t with
  | nil => exact .some ⟨h, rfl⟩
  | cons e es ih =>
    cases given : e.without? n with
    | none =>
      obtain ⟨u, step, same⟩ := h.left_out given
      have rest := ih same
      rw [without] at rest ⊢
      rw [List.filterMap_cons_none given, run?_cons es step]
      simpa using rest
    | some e' =>
      have both := h.step given
      rw [without, List.filterMap_cons_some given]
      generalize step : t.step? e' = here at both
      generalize step' : s.step? e = there at both
      cases both with
      | none => simp [run?, step, step']
      | @some q p same =>
        rw [run?_cons _ step, run?_cons _ step']
        exact same.followed (ih same.1)

/-- Both have moves, or neither has. -/
theorem Renumbered.settled_iff (h : Renumbered n t s) : s.Settled ↔ t.Settled := by
  have moves_eq : ∀ e ∈ moves, (s.step? e = none ↔ t.step? e = none) := by
    intro e move
    simp only [moves, List.mem_cons, List.not_mem_nil, or_false] at move
    rcases move with rfl | rfl | rfl <;> exact none_iff_of_rel (h.step rfl)
  exact forall₂_congr moves_eq

/-! ### Where the two begin -/

theorem Waiting.getElem?_callers {notes : List Note} (h : Waiting s notes) {c : Nat}
    (later : s.started ≤ c) : s.callers[c]? = none := by
  refine Std.TreeMap.getElem?_eq_none fun waits => ?_
  exact absurd (h.started c waits) (Nat.not_lt.2 later)

/-- A client that counts a call and knows no more of it. -/
theorem Renumbered.of_count {notes : List Note} (waiting : Waiting s notes) (apart : s.Apart) :
    Renumbered s.started s { s with started := s.started + 1 } := by
  have known : ∀ c, s.Placed c → skip s.started c = c := fun c placed =>
    skip_of_lt (apart.known c placed)
  have queue : s.commands.map (Command.renumber s.started) = s.commands := by
    refine (List.map_congr_left fun command member => ?_).trans (List.map_id _)
    cases command with
    | close => rfl
    | call c method payload =>
      have placed : s.Placed c := .inl (mem_queued_iff.2 ⟨method, payload, member⟩)
      rw [Command.renumber, known c placed]
      rfl
  have taken : Outstanding.Renumbered s.started s.outstanding s.outstanding := by
    intro i
    cases holds : s.outstanding[i]? with
    | none => rfl
    | some c => rw [Option.map_some, known c (.inr ⟨i, holds⟩)]
  have waits : ∀ c, s.callers[skip s.started c]? = s.callers[c]? := by
    intro c
    by_cases before : c < s.started
    · rw [skip_of_lt before]
    · have later : s.started ≤ c := Nat.not_lt.1 before
      rw [skip_of_le later, waiting.getElem?_callers later,
        waiting.getElem?_callers (Nat.le_succ_of_le later)]
  have same := Renumbered.intro s.outstanding s.callers (Nat.le_refl _) taken waits
    (waiting.getElem?_callers (Nat.le_refl _))
  rw [queue] at same
  exact same

end

end Client

end RemoteCall
