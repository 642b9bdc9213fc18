import RemoteCall.Proofs.Client.Correlation
import RemoteCall.Proofs.Client.Ending

/-!
# Who holds a send id

What a driver shows is a ledger of its send ids: the caller of the last call under an id holds it
until a reply under it is taken (`Holds`). Whatever the peer sends, and whoever gives up, these are
the outstanding calls (`Booked`). A call is written under an id that nobody holds, and refused only
when all ids are held (`ids_are_held_until_their_reply`).
-/

namespace RemoteCall.Client

/-- The caller's call was written under the id, and no reply under the id was taken since. -/
def Holds (i : SendId) (c : Nat) (notes : List Note) : Prop :=
  ∃ before f after, notes = before ++ .wrote c f :: after ∧ f.sendId = i ∧
    repliesUnder i after = []

/-- While the driver runs, the outstanding calls are those that hold an id. -/
def Booked (s : Client) (notes : List Note) : Prop :=
  s.result = none → ∀ (i : SendId) (c : Nat), s.outstanding[i]? = some c ↔ Holds i c notes

/-- The call of that caller, first in the queue, is refused: only the caller hears of it, if it
still waits. -/
structure Refused (s : Client) (caller : Nat) (s' : Client) (shown : List Note) : Prop where
  tells : shown = if caller ∈ s.callers then [.resolved caller (.error .tooManyCalls)] else []
  runs : s'.result = none
  commands : s'.commands = s.commands.tail
  outstanding : s'.outstanding = s.outstanding
  next : s'.next = s.next

/-- The frame of that caller's call is written, under an id that nobody held and it holds now. -/
def Written (s : Client) (caller : Nat) (s' : Client) (shown : List Note) : Prop :=
  ∃ f, shown = [.wrote caller f] ∧ s.outstanding[f.sendId]? = none ∧
    s'.outstanding = s.outstanding.insert f.sendId caller

/-! ## Reading the ledger -/

section
variable {i : SendId} {c : Nat} {notes more : List Note}

theorem not_holds_nil : ¬Holds i c [] := by
  rintro ⟨before, f, after, split, -⟩
  simp at split

theorem Holds.mem_callersUnder (h : Holds i c notes) : c ∈ callersUnder i notes := by
  obtain ⟨before, f, after, rfl, under, -⟩ := h
  simp [under]

theorem holds_wrote {d : Nat} {f : Frame} :
    Holds i d [.wrote c f] ↔ f.sendId = i ∧ c = d := by
  constructor
  · intro holds
    have member := holds.mem_callersUnder
    rw [callersUnder_wrote] at member
    split at member
    next under => exact ⟨under, by simpa [eq_comm] using member⟩
    next => cases member
  · rintro ⟨under, rfl⟩
    exact ⟨[], f, [], rfl, under, rfl⟩

/-- Whoever holds an id got it lately, or before and no reply came lately. -/
theorem holds_append :
    Holds i c (notes ++ more) ↔ Holds i c more ∨ Holds i c notes ∧ repliesUnder i more = [] := by
  constructor
  · rintro ⟨before, f, after, split, under, quiet⟩
    rcases List.append_eq_append_iff.1 split with ⟨late, -, rfl⟩ | ⟨early, rfl, tail⟩
    · exact .inl ⟨late, f, after, rfl, under, quiet⟩
    · rcases List.cons_eq_append_iff.1 tail with ⟨-, rfl⟩ | ⟨between, rfl, rfl⟩
      · exact .inl ⟨[], f, after, rfl, under, quiet⟩
      · rw [repliesUnder_append, List.append_eq_nil_iff] at quiet
        exact .inr ⟨⟨before, f, between, rfl, under, quiet.1⟩, quiet.2⟩
  · rintro (⟨before, f, after, rfl, under, quiet⟩ | ⟨⟨before, f, after, rfl, under, quiet⟩, none⟩)
    · exact ⟨notes ++ before, f, after, by simp, under, quiet⟩
    · exact ⟨before, f, after ++ more, by simp, under, by simp [quiet, none]⟩

end

/-! ## What a step does to ids -/

section
variable {s s' : Client} {e : Event} {notes more : List Note} {c : Nat} {f : Frame}
  {method : String} {payload : Bytes} {rest : List Command}

/-- A step that leaves the driver running gives no id away and takes none back, or it writes a call
under a free id, or it takes a reply, which frees its id. -/
theorem Effect.ids (h : s.Effect e s' more) (running : s'.result = none) :
    (s'.outstanding = s.outstanding ∧ (∀ i, callersUnder i more = []) ∧
        ∀ i, repliesUnder i more = []) ∨
      (∃ caller, Written s caller s' more) ∨
      ∃ f i status n, f.head = .reply i status n ∧
        (∀ j, s'.outstanding[j]? = if i = j then none else s.outstanding[j]?) ∧
        (∀ j, callersUnder j more = []) ∧ ∀ j, repliesUnder j more = if i = j then [f] else [] := by
  cases h with
  | refuses | accepts | awaits | closesLate | closes | clones | givesUp | arrives | peerEnds
  | peerDeafens =>
    exact .inl ⟨rfl, fun _ => rfl, fun _ => rfl⟩
  | ticks => exact .inl ⟨rfl, by simp [tick], by simp [tick]⟩
  | exhausts => exact .inl ⟨rfl, by simp, by simp⟩
  | skipsCall _ _ head => exact .inl ⟨rfl, fun _ => rfl, fun i => repliesUnder_call i [] head⟩
  | releases =>
    have kept := dropQueue_of_running { s with handles := s.handles - 1 } (by simpa using running)
    rw [kept]
    exact .inl ⟨rfl, fun _ => rfl, fun _ => rfl⟩
  | picksClose | failsToWrite | breaks | ends | retires => simp at running
  | writes _ _ free =>
    exact .inr (.inl ⟨_, _, rfl, SendId.getElem?_of_allocate? free, rfl⟩)
  | @skipsReply f rest i status n _ _ head free =>
    refine .inr (.inr ⟨f, i, status, n, head, fun j => ?_, fun _ => rfl, fun j => ?_⟩)
    · split
      next same => exact same ▸ free
      next => rfl
    · exact repliesUnder_reply j [] head
  | @answers f rest i status n caller _ _ head =>
    refine .inr (.inr ⟨f, i, status, n, head, fun j => ?_, by simp, fun j => ?_⟩)
    · simp [Std.TreeMap.getElem?_erase]
    · rw [repliesUnder_reply j _ head, resolve_eq, repliesUnder_resolveAll]

/-- A call that is written holds its id; the others hold what they held. -/
theorem Written.getElem?_iff (h : Written s c s' more) {i : SendId} {d : Nat} :
    s'.outstanding[i]? = some d ↔ Holds i d more ∨ s.outstanding[i]? = some d := by
  obtain ⟨f, rfl, free, taken⟩ := h
  rw [taken, Std.TreeMap.getElem?_insert, holds_wrote]
  by_cases same : f.sendId = i
  · subst same
    simp [free]
  · simp [same]

theorem Written.untaken (h : Written s c s' more) (i : SendId) : repliesUnder i more = [] := by
  obtain ⟨f, rfl, -⟩ := h
  rfl

theorem Booked.effect (h : Booked s notes) (effect : s.Effect e s' more) :
    Booked s' (notes ++ more) := by
  intro running i c
  have booked := h (effect.running running) i c
  rw [holds_append]
  rcases effect.ids running with ⟨same, unwritten, untaken⟩ | ⟨caller, written⟩ |
      ⟨f, j, status, n, -, freed, unwritten, untaken⟩
  · have none : ¬Holds i c more := fun holds => by simpa [unwritten] using holds.mem_callersUnder
    simp [same, booked, none, untaken]
  · rw [written.getElem?_iff, booked]
    simp [written.untaken]
  · have none : ¬Holds i c more := fun holds => by simpa [unwritten] using holds.mem_callersUnder
    by_cases same : j = i
    · simp [freed, same, none, untaken]
    · simp [freed, same, none, untaken, booked]

theorem booked_of_steps {limit : UInt32} {handles : Nat} {es : List Event}
    (steps : Steps step? { limit, handles } es s notes) : Booked s notes := by
  induction steps with
  | none => exact fun _ i c => by simp [not_holds_nil]
  | snoc _ step ih => exact ih.effect (effect_of_step? step)

/-- Whoever writes gets a free id. -/
theorem Effect.written (h : s.Effect e s' more) (wrote : .wrote c f ∈ more) :
    Written s c s' more := by
  cases h with
  | writes _ _ free =>
    obtain ⟨rfl, rfl⟩ := by simpa using wrote
    exact ⟨_, rfl, SendId.getElem?_of_allocate? free, rfl⟩
  | refuses | accepts | awaits | closesLate | closes | clones | releases | givesUp | arrives
  | peerEnds | peerDeafens | picksClose | exhausts | failsToWrite | skipsCall | skipsReply | answers
  | breaks | ends | retires => simp at wrote
  | ticks => simp [tick] at wrote

/-! ## Calls that are picked up -/

theorem Refused.not_written (h : Refused s c s' more) {d : Nat} : .wrote d f ∉ more := by
  rw [h.tells]
  split <;> simp

theorem resolved_mem_resolveAll {cs : List Nat} {r o : Outcome} {d : Nat}
    (told : .resolved d o ∈ (s.resolveAll cs r).2) : o = r := by
  obtain ⟨_, -, same⟩ := List.mem_map.1 told
  exact (Note.resolved.inj same).2.symm

theorem resolved_mem_dropQueue {o : Outcome} {d : Nat} (told : .resolved d o ∈ s.dropQueue.2) :
    o = .error .channelClosed := by
  unfold dropQueue at told
  split at told
  next => exact resolved_mem_resolveAll told
  next => cases told

/-- The end of a driver tells callers only that the channel is closed. -/
theorem resolved_mem_finish {r : Except CallError Unit} {o : Outcome} {d : Nat}
    (told : .resolved d o ∈ (s.finish r).2) : o = .error .channelClosed := by
  rw [finish_eq] at told
  rcases List.mem_cons.1 told with ended | told
  · cases ended
  rcases List.mem_append.1 told with closed | dropped
  · exact resolved_mem_resolveAll closed
  · exact resolved_mem_dropQueue dropped

/-- With no id free the call is refused; else it is written, or the driver ends as it cannot be
written. -/
theorem Effect.pick_cases (h : s.Effect .pick s' more)
    (queue : s.commands = .call c method payload :: rest) :
    (SendId.allocate? s.outstanding s.next = none ∧ Refused s c s' more) ∨
      SendId.allocate? s.outstanding s.next ≠ none ∧
        (∀ d, .resolved d (.error .tooManyCalls) ∉ more) ∧
        (Written s c s' more ∨
          s.peerDeaf = true ∧ s'.result = some (.error (.io .brokenPipe))) := by
  cases h with
  | picksClose _ queue' => simp [queue] at queue'
  | exhausts running queue' full =>
    obtain ⟨⟨rfl, rfl, rfl⟩, rfl⟩ := by simpa [queue] using queue'
    refine .inl ⟨full, ?_, running, by rw [queue]; rfl, rfl, rfl⟩
    by_cases waits : c ∈ s.callers <;> simp [resolveAll, waits]
  | failsToWrite _ _ free deaf =>
    refine .inr ⟨by simp [free], fun d told => ?_, .inr ⟨deaf, by simp⟩⟩
    cases resolved_mem_finish told
  | writes _ queue' free =>
    obtain ⟨⟨rfl, rfl, rfl⟩, rfl⟩ := by simpa [queue] using queue'
    exact .inr ⟨by simp [free], by simp,
      .inl ⟨_, rfl, SendId.getElem?_of_allocate? free, rfl⟩⟩

/-- A call that is picked up is refused exactly if all ids are taken. -/
theorem refused_iff (running : s.result = none)
    (queue : s.commands = .call c method payload :: rest) :
    ∃ s' shown, s.step? .pick = some (s', shown) ∧
      (Refused s c s' shown ↔ ∀ i, i ∈ s.outstanding) ∧
      (¬Refused s c s' shown → (∀ d, .resolved d (.error .tooManyCalls) ∉ shown) ∧
        (Written s c s' shown ∨
          s.peerDeaf = true ∧ s'.result = some (.error (.io .brokenPipe)))) := by
  have possible : s.step? .pick = some ({ s with commands := rest }.send c method payload) := by
    simp [step?, isOver, running, pick?, queue]
  obtain ⟨s', shown, step⟩ : ∃ s' shown, s.step? .pick = some (s', shown) := ⟨_, _, possible⟩
  refine ⟨s', shown, step, ?_⟩
  rw [← SendId.allocate?_eq_none_iff s.next]
  rcases (effect_of_step? step).pick_cases queue with ⟨full, refused⟩ | ⟨free, quiet, fate⟩
  · exact ⟨iff_of_true refused full, fun no => absurd refused no⟩
  · have no : ¬Refused s c s' shown := by
      intro refused
      rcases fate with ⟨f, rfl, -⟩ | ⟨-, ended⟩
      · exact refused.not_written List.mem_cons_self
      · simp [refused.runs] at ended
    exact ⟨iff_of_false no free, fun _ => ⟨quiet, fate⟩⟩

end

/-! ## A run that takes all ids -/

/-- The driver is at rest, and can write. -/
structure Ready (s : Client) : Prop where
  running : s.result = none
  commands : s.commands = []
  hears : s.peerDeaf = false
  held : 0 < s.handles

/-- So many calls, picked up one by one. -/
def flood (n : Nat) : List Event :=
  (List.replicate n [Event.start "" (.ok []) none, .pick]).flatten

section
variable {s : Client}

/-- A call is started. -/
def begun (s : Client) : Client :=
  { s with
    started := s.started + 1
    commands := [.call s.started "" []]
    callers := s.callers.insert s.started { patience := none } }

theorem Ready.starts (h : s.Ready) : s.step? (.start "" (.ok []) none) = some (s.begun, []) := by
  have passes : check { s with started := s.started + 1 } "" (.ok []) = .ok [] :=
    check_of_fits h.running (Nat.zero_le _) (Nat.zero_le _)
  simp only [step?, start, h.held, if_true, passes]
  simp [begun, h.commands]

/-- One more call takes one more id. -/
theorem Ready.takes (h : s.Ready) (room : s.outstanding.size ≤ 65535) :
    ∃ s' notes, Steps step? s [.start "" (.ok []) none, .pick] s' notes ∧ s'.Ready ∧
      s'.outstanding.size = s.outstanding.size + 1 := by
  have possible : s.begun.step? .pick =
      some ({ s.begun with commands := [] }.send s.started "" []) := by
    simp [step?, isOver, pick?, begun, h.running]
  obtain ⟨s', notes, step⟩ : ∃ s' notes, s.begun.step? .pick = some (s', notes) :=
    ⟨_, _, possible⟩
  refine ⟨s', _, (Steps.single h.starts).snoc step, ?_⟩
  cases effect_of_step? step with
  | picksClose _ queue => cases queue
  | exhausts _ _ full => exact absurd full (SendId.allocate?_ne_none room)
  | failsToWrite _ _ _ deaf => exact absurd (h.hears.symm.trans deaf) Bool.false_ne_true
  | @writes caller method payload rest i next _ queue free _ =>
    obtain ⟨⟨rfl, rfl, rfl⟩, rfl⟩ := by simpa [begun] using queue
    have unheld : s.outstanding.contains i = false := SendId.not_contains_of_allocate? free
    have grown : (s.outstanding.insert i s.started).size = s.outstanding.size + 1 := by
      rw [Std.TreeMap.size_insert, unheld]
      rfl
    exact ⟨⟨h.running, rfl, h.hears, h.held⟩, grown⟩

end

/-- Any number of ids can be outstanding, and all of them. -/
theorem flood_takes_ids (limit : UInt32) {n : Nat} (few : n ≤ 65536) : ∃ s notes,
    Steps step? { limit } (flood n) s notes ∧ s.Ready ∧ s.outstanding.size = n := by
  induction n with
  | zero => exact ⟨_, _, .none, ⟨rfl, rfl, rfl, Nat.one_pos⟩, rfl⟩
  | succ n ih =>
    obtain ⟨s, notes, steps, ready, size⟩ := ih (Nat.le_of_lt few)
    obtain ⟨s', more, further, ready', grown⟩ := ready.takes (by omega)
    have longer : flood (n + 1) = flood n ++ [.start "" (.ok []) none, .pick] := by
      simp [flood, List.replicate_succ']
    rw [longer]
    exact ⟨s', _, steps.trans further, ready', by omega⟩

/-! ## The whole run -/

/-- At any time of any run of a new client, whatever the peer sent and whoever gave up: at most
65536 ids are outstanding, and while the driver runs an id is outstanding for a caller exactly if
that caller holds it; an ended driver holds none. No step writes a call under an id that is
outstanding. A call that the driver picks up is refused exactly if all ids are outstanding. -/
theorem ids_are_held_until_their_reply {limit : UInt32} {handles : Nat} {es : List Event}
    {s : Client} {notes : List Note}
    (run : ({ limit, handles } : Client).run? es = some (s, notes)) :
    s.outstanding.size ≤ 65536 ∧
      (s.result = none → ∀ (i : SendId) (c : Nat), s.outstanding[i]? = some c ↔ Holds i c notes) ∧
      (s.result ≠ none → s.outstanding = {}) ∧
      (∀ e s' shown c f, s.step? e = some (s', shown) → .wrote c f ∈ shown →
        Written s c s' shown) ∧
      ∀ c method payload rest, s.result = none →
        s.commands = .call c method payload :: rest →
          ∃ s' shown, s.step? .pick = some (s', shown) ∧
            (Refused s c s' shown ↔ ∀ i, i ∈ s.outstanding) ∧
            (¬Refused s c s' shown → (∀ d, .resolved d (.error .tooManyCalls) ∉ shown) ∧
              (Written s c s' shown ∨
                s.peerDeaf = true ∧ s'.result = some (.error (.io .brokenPipe)))) := by
  have steps := run?_eq_some_iff.1 run
  refine ⟨Outstanding.size_le _, booked_of_steps steps, (inPlace_of_steps steps).2.2.idle, ?_, ?_⟩
  · intro e s' shown c f step wrote
    exact (effect_of_step? step).written wrote
  · intro c method payload rest running queue
    exact refused_iff running queue

/-- With 65536 calls outstanding one more is refused. -/
theorem call_is_refused_when_all_ids_are_taken : ∃ s notes s' shown,
    ({ limit := 100 } : Client).run? (flood 65536 ++ [.start "" (.ok []) none]) =
      some (s, notes) ∧
    s.result = none ∧ (∃ caller, s.commands = [.call caller "" []] ∧
      s.step? .pick = some (s', shown) ∧ (∀ i, i ∈ s.outstanding) ∧ Refused s caller s' shown) := by
  obtain ⟨s, notes, steps, ready, size⟩ := flood_takes_ids 100 (Nat.le_refl 65536)
  have run := run?_eq_some_iff.2 (steps.snoc ready.starts)
  have full : 65535 < s.begun.outstanding.size := size ▸ Nat.lt_succ_self 65535
  have all : ∀ i, i ∈ s.begun.outstanding := Outstanding.full_iff.1 full
  obtain ⟨-, -, -, -, picks⟩ := ids_are_held_until_their_reply run
  obtain ⟨s', shown, step, refused, -⟩ := picks s.started "" [] [] ready.running rfl
  exact ⟨s.begun, _, s', shown, run, ready.running, s.started, rfl, step, all, refused.2 all⟩

end RemoteCall.Client
