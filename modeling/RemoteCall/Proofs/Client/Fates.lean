import RemoteCall.Proofs.Client.Callers
import RemoteCall.Proofs.Client.Ids

/-!
# What becomes of callers

As long as the driver runs and no deadline comes, a caller that does not give up waits for a call
that is in the queue or outstanding, or has seen one outcome (`Fair`). Every event keeps it so
(`Fair.effect`).
-/

namespace RemoteCall.Client

/-- Every caller waits for ever. -/
def Patient (s : Client) : Prop :=
  ∀ (c : Nat) (w : Wait), s.callers[c]? = some w → w.patience = none

/-- Without patience to run out there is no deadline. -/
theorem Wait.deadline_eq_none {w : Wait} (h : w.patience = none) : w.deadline = none := by
  cases since : w.since <;> simp [deadline, h, since]

theorem Wait.after_patience (c now : Nat) (w : Wait) (e : Event) :
    (w.after c now e).patience = w.patience := by
  unfold after
  split
  · split <;> rfl
  · rfl

/-- The call is in the queue or outstanding. -/
def Placed (s : Client) (c : Nat) : Prop := c ∈ s.queued ∨ ∃ i : SendId, s.outstanding[i]? = some c

/-- The caller waits, and its call is in the queue or outstanding; or it has seen one outcome, the
one it wants or that there was no id for its call, as more calls were started than there are ids. -/
def Fair (wanted : Nat → Outcome) (s : Client) (notes : List Note) (c : Nat) : Prop :=
  (c ∈ s.callers ∧ s.Placed c) ∨
    ∃ r, outcomes c notes = [r] ∧ (r = wanted c ∨ r = .error .tooManyCalls ∧ 65536 < s.started)

theorem mem_queued_iff {s : Client} {c : Nat} :
    c ∈ s.queued ↔ ∃ method payload, .call c method payload ∈ s.commands := by
  rw [queued, List.mem_filterMap]
  constructor
  · rintro ⟨command, member, is⟩
    cases command with
    | call caller method payload =>
      obtain rfl := Option.some.inj is
      exact ⟨method, payload, member⟩
    | close => cases is
  · rintro ⟨method, payload, member⟩
    exact ⟨_, member, rfl⟩

theorem Patient.due_eq_nil {s : Client} (h : s.Patient) : s.due = [] := by
  rw [due, List.filterMap_eq_nil_iff]
  rintro ⟨caller, wait⟩ member
  have patient := h caller wait (Std.TreeMap.mem_toList_iff_getElem?_eq_some.1 member)
  simp only [Wait.deadline_eq_none patient]

theorem Patient.effect {s s' : Client} {e : Event} {notes : List Note} (h : s.Patient)
    (effect : s.Effect e s' notes)
    (starts : ∀ method argument patience, e = .start method argument patience → patience = none) :
    s'.Patient := by
  intro c w waits
  rcases effect.start_or_narrows with ⟨method, argument, patience, rfl⟩ | ⟨-, go⟩
  · obtain rfl := starts method argument patience rfl
    cases effect with
    | refuses => exact h c w waits
    | accepts =>
      rw [Std.TreeMap.getElem?_insert] at waits
      split at waits
      next => exact (Option.some.inj waits) ▸ rfl
      next => exact h c w waits
  · obtain ⟨v, before, rfl⟩ := go.wait c w waits
    rw [Wait.after_patience]
    exact h c v before

/-! ## Where a call is -/

section
variable {s : Client} {c caller : Nat} {method : String} {payload : Bytes} {rest : List Command}
  {i next : SendId}

theorem Placed.mono {t : Client} (h : s.Placed c)
    (commands : ∀ command ∈ s.commands, command ∈ t.commands)
    (outstanding : t.outstanding = s.outstanding) : t.Placed c := by
  rcases h with queued | known
  · obtain ⟨method, payload, member⟩ := mem_queued_iff.1 queued
    left
    exact mem_queued_iff.2 ⟨method, payload, commands _ member⟩
  · right
    rw [outstanding]
    exact known

/-- Another call is picked up, and there is no id for it. -/
theorem Placed.exhausts (h : s.Placed c) (queue : s.commands = .call caller method payload :: rest)
    (other : caller ≠ c) : Placed { s with commands := rest } c := by
  rcases h with queued | known
  · obtain ⟨m, p, member⟩ := mem_queued_iff.1 queued
    rw [queue] at member
    have later : .call c m p ∈ rest := by simpa [Ne.symm other] using member
    left
    exact mem_queued_iff.2 ⟨m, p, later⟩
  · exact .inr known

/-- A call is picked up and written, this one or another one. -/
theorem Placed.writes (h : s.Placed c) (queue : s.commands = .call caller method payload :: rest)
    (free : SendId.allocate? s.outstanding s.next = some (i, next)) :
    Placed { s with commands := rest, outstanding := s.outstanding.insert i caller, next } c := by
  rcases h with queued | ⟨j, known⟩
  · obtain ⟨m, p, member⟩ := mem_queued_iff.1 queued
    rw [queue] at member
    rcases List.mem_cons.1 member with first | later
    · obtain ⟨rfl, -, -⟩ := by simpa using first
      exact .inr ⟨i, Std.TreeMap.getElem?_insert_self⟩
    · exact .inl (mem_queued_iff.2 ⟨m, p, later⟩)
  · have taken := SendId.getElem?_of_allocate? free
    have other : i ≠ j := by
      rintro rfl
      simp [taken] at known
    refine .inr ⟨j, ?_⟩
    rw [Std.TreeMap.getElem?_insert, if_neg (by simpa using other)]
    exact known

/-- The reply to another call is taken. -/
theorem Placed.answers (h : s.Placed c) (outstanding : s.outstanding[i]? = some caller)
    (other : caller ≠ c) : Placed { s with outstanding := s.outstanding.erase i } c := by
  rcases h with queued | ⟨j, known⟩
  · exact .inl queued
  · have apart : i ≠ j := by
      rintro rfl
      rw [outstanding] at known
      exact other (Option.some.inj known)
    refine .inr ⟨j, ?_⟩
    rw [Std.TreeMap.getElem?_erase, if_neg (by simpa using apart)]
    exact known

end

/-! ## Every event -/

section
variable {wanted : Nat → Outcome} {s s' : Client} {notes more : List Note} {c : Nat}

/-- A caller that does not wait sees nothing more. -/
theorem Effect.outcomes_eq_nil {e : Event} (effect : s.Effect e s' more) (known : c < s.started)
    (gone : c ∉ s.callers) : outcomes c more = [] := by
  rcases effect.start_or_narrows with ⟨method, argument, patience, rfl⟩ | ⟨-, go⟩
  · cases effect with
    | refuses => simp [Nat.ne_of_gt known]
    | accepts => rfl
  · exact go.others c gone

/-- The caller is the one that is resolved. -/
theorem Fair.resolves (unresolved : outcomes c notes = []) {t : Client} {r : Outcome}
    (waits : c ∈ t.callers)
    (right : r = wanted c ∨ r = .error .tooManyCalls ∧ 65536 < s'.started) :
    Fair wanted s' (notes ++ (t.resolveAll [c] r).2) c := by
  refine .inr ⟨r, ?_, right⟩
  rw [outcomes_append, unresolved, outcomes_resolveAll, if_pos waits]
  simp

/-- Another one is resolved. -/
theorem mem_callers_of_ne {caller : Nat} {t : Client} (r : Outcome) (waits : c ∈ t.callers)
    (other : caller ≠ c) : c ∈ (t.resolveAll [caller] r).1.callers := by
  rw [mem_callers_resolveAll]
  exact ⟨waits, by simpa using Ne.symm other⟩

theorem Fair.effect {e : Event} (h : Fair wanted s notes c) (waiting : Waiting s notes)
    (patient : s.Patient) (roomy : s.Roomy) (known : c < s.started) (stays : e ≠ .giveUp c)
    (runs : s'.result = none)
    (told : ∀ f rest i status n caller, Frame.read s.limit s.inbound = .item f rest →
      f.head = .reply i status n → s.outstanding[i]? = some caller →
        Outcome.ofReply status f.payload = wanted caller)
    (effect : s.Effect e s' more) : Fair wanted s' (notes ++ more) c := by
  rcases h with ⟨waits, placed⟩ | ⟨r, seen, right⟩
  · have unresolved := waiting.unresolved c waits
    cases effect with
    | refuses | closesLate | clones | arrives | peerEnds | peerDeafens | skipsCall | skipsReply =>
      exact .inl ⟨waits, placed⟩
    | closes =>
      exact .inl ⟨waits, placed.mono (fun _ member => List.mem_append_left _ member) rfl⟩
    | accepts =>
      refine .inl ⟨Std.TreeMap.mem_insert.2 (.inr waits), ?_⟩
      exact placed.mono (fun _ member => List.mem_append_left _ member) rfl
    | releases =>
      have kept := dropQueue_of_running { s with handles := s.handles - 1 } (by simpa using runs)
      rw [kept]
      exact .inl ⟨waits, placed⟩
    | awaits => exact .inl ⟨(mem_callers_await _ _ _).2 waits, placed⟩
    | givesUp caller =>
      have other : caller ≠ c := fun same => stays (by rw [same])
      exact .inl ⟨Std.TreeMap.mem_erase.2 ⟨by simpa using other, waits⟩, placed⟩
    | ticks ms =>
      have late : due { s with now := s.now + ms } = [] := Patient.due_eq_nil patient
      refine .inl ⟨?_, placed⟩
      rw [tick, mem_callers_resolveAll, late]
      exact ⟨waits, List.not_mem_nil⟩
    | picksClose | failsToWrite | breaks | ends | retires => simp at runs
    | @exhausts caller method payload rest _ queue full =>
      by_cases same : caller = c
      · subst same
        exact .resolves unresolved waits (.inr ⟨rfl, roomy.exhausted queue full⟩)
      · exact .inl ⟨mem_callers_of_ne _ waits same, placed.exhausts queue same⟩
    | writes _ queue free _ => exact .inl ⟨waits, placed.writes queue free⟩
    | @answers f rest i status n caller _ item head outstanding =>
      by_cases same : caller = c
      · subst same
        have right := told f rest i status n caller item head outstanding
        rw [List.append_cons]
        exact .resolves (by simp [unresolved]) waits (.inl right)
      · exact .inl ⟨mem_callers_of_ne _ waits same, placed.answers outstanding same⟩
  · refine .inr ⟨r, ?_, right.imp id ?_⟩
    · have gone : c ∉ s.callers := fun waits => by simp [waiting.unresolved c waits] at seen
      rw [outcomes_append, seen, effect.outcomes_eq_nil known gone, List.append_nil]
    · rintro ⟨refused, many⟩
      exact ⟨refused, Nat.lt_of_lt_of_le many effect.started_le⟩

end

end RemoteCall.Client
