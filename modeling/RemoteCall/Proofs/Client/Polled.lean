import RemoteCall.Proofs.Client.Places
import RemoteCall.Proofs.Frame.Polls
import RemoteCall.Proofs.Run

/-!
# A client that polls

The driver waits for a frame and for a command at once. When a command comes first it leaves the
frame, and what has been read of it stays with the reader. `Polled` is a client with such a reader:
its polls may come at any time, and one that completes no item shows nothing and keeps how far it
has come. Such a client does what a client does that leaves the bytes of an item where they are
until it is complete (`Stands`); its other polls change nothing:

    Stands p s → Follows e s (s.step? e) (p.step? e)                              (Stands.step)
-/

namespace RemoteCall.Client

/-! ## The bytes that wait -/

/-- The client with other bytes from the peer. -/
def withInbound (s : Client) (bs : Bytes) : Client := { s with inbound := bs }

/-- What a step makes of it, with other bytes from the peer. -/
def answerWith (bs : Bytes) (answer : Client × List Note) : Client × List Note :=
  (answer.1.withInbound bs, answer.2)

/-- The event is neither the arrival of bytes nor the reading of them. -/
def Event.Elsewhere : Event → Prop
  | .arrive _ | .take => False
  | _ => True

section
variable (s : Client) (bs : Bytes)

@[simp] theorem withInbound_inbound : (s.withInbound bs).inbound = bs := rfl

@[simp] theorem withInbound_self : s.withInbound s.inbound = s := rfl

@[simp] theorem withInbound_withInbound (cs : Bytes) :
    (s.withInbound bs).withInbound cs = s.withInbound cs := rfl

theorem withInbound_dropQueue : (s.withInbound bs).dropQueue = answerWith bs s.dropQueue := by
  by_cases last : (s.handles = 0 && s.isOver) = true
  · have last' : ((s.withInbound bs).handles = 0 && (s.withInbound bs).isOver) = true := last
    simp only [dropQueue, if_pos last, if_pos last']
    rfl
  · have last' : ¬((s.withInbound bs).handles = 0 && (s.withInbound bs).isOver) = true := last
    simp only [dropQueue, if_neg last, if_neg last']
    rfl

theorem withInbound_finish (r : Except CallError Unit) :
    (s.withInbound bs).finish r = answerWith bs (s.finish r) := by
  have dropped := (s.closed r).1.withInbound_dropQueue bs
  rw [finish_eq, finish_eq]
  show (((s.closed r).1.withInbound bs).dropQueue.1,
    .ended r :: (s.closed r).2 ++ ((s.closed r).1.withInbound bs).dropQueue.2) = _
  rw [dropped]
  rfl

theorem withInbound_start (method : String) (argument : Except IoError Bytes)
    (patience : Option Nat) : (s.withInbound bs).start method argument patience =
      answerWith bs (s.start method argument patience) := by
  have checked : (s.withInbound bs).check method argument = s.check method argument := rfl
  cases passed : s.check method argument with
  | error e =>
    rw [start_of_error passed, start_of_error (checked.trans passed)]
    rfl
  | ok payload =>
    rw [start_of_ok passed, start_of_ok (checked.trans passed)]
    rfl

theorem withInbound_send (caller : Nat) (method : String) (payload : Bytes) :
    (s.withInbound bs).send caller method payload =
      answerWith bs (s.send caller method payload) := by
  have same : SendId.allocate? (s.withInbound bs).outstanding (s.withInbound bs).next =
      SendId.allocate? s.outstanding s.next := rfl
  simp only [send, same]
  cases SendId.allocate? s.outstanding s.next with
  | none => rfl
  | some free =>
    obtain ⟨i, next⟩ := free
    dsimp only
    by_cases deaf : s.peerDeaf = true
    · have deaf' : (s.withInbound bs).peerDeaf = true := deaf
      rw [if_pos deaf, if_pos deaf']
      exact withInbound_finish { s with outstanding := s.outstanding.insert i caller, next } bs _
    · have deaf' : ¬(s.withInbound bs).peerDeaf = true := deaf
      rw [if_neg deaf, if_neg deaf']
      rfl

theorem withInbound_handle (f : Frame) :
    (s.withInbound bs).handle f = answerWith bs (s.handle f) := by
  simp only [handle]
  cases f.head with
  | call => rfl
  | reply i status n =>
    dsimp only [withInbound]
    cases s.outstanding[i]? <;> rfl

/-- All other events are what they are, whatever bytes wait. -/
theorem withInbound_step? {e : Event} (elsewhere : e.Elsewhere) :
    (s.withInbound bs).step? e = (s.step? e).map (answerWith bs) := by
  cases e with
  | arrive | take => exact elsewhere.elim
  | start method argument patience =>
    show (if 0 < s.handles then _ else _) = Option.map _ (if 0 < s.handles then _ else _)
    split
    · exact congrArg some (withInbound_start s bs method argument patience)
    · rfl
  | release =>
    show (if s.handles = 0 then _ else _) = Option.map _ (if s.handles = 0 then _ else _)
    split
    · rfl
    · exact congrArg some (withInbound_dropQueue { s with handles := s.handles - 1 } bs)
  | pick =>
    show (if s.isOver = true then _ else _) = Option.map _ (if s.isOver = true then _ else _)
    split
    · rfl
    · have same : (s.withInbound bs).commands = s.commands := rfl
      simp only [pick?, same]
      cases s.commands with
      | nil => rfl
      | cons command rest =>
        cases command with
        | close => exact congrArg some (withInbound_finish { s with commands := rest } bs _)
        | call caller method payload =>
          exact congrArg some
            (withInbound_send { s with commands := rest } bs caller method payload)
  | retire =>
    show (if (s.isOver || 0 < s.handles || !s.commands.isEmpty) = true then _ else _) =
      Option.map _ (if (s.isOver || 0 < s.handles || !s.commands.isEmpty) = true then _ else _)
    split
    · rfl
    · exact congrArg some (withInbound_finish s bs _)
  | close =>
    show (if s.handles = 0 then _ else if s.isOver = true then _ else _) =
      Option.map _ (if s.handles = 0 then _ else if s.isOver = true then _ else _)
    split
    · rfl
    · split <;> rfl
  | clone =>
    show (if s.handles = 0 then _ else _) = Option.map _ (if s.handles = 0 then _ else _)
    split <;> rfl
  | await caller => rfl
  | giveUp caller => rfl
  | tick ms => rfl
  | peerEnds =>
    show (if s.peerEnded = true then _ else _) = Option.map _ (if s.peerEnded = true then _ else _)
    split <;> rfl
  | peerDeafens =>
    show (if s.peerDeaf = true then _ else _) = Option.map _ (if s.peerDeaf = true then _ else _)
    split <;> rfl

end

/-! ## Polls -/

/-- A client whose reader keeps how far it has come; `client.inbound` are the bytes that no poll has
taken. -/
structure Polled where
  client : Client
  stage : Stage := .fresh

namespace Polled

/-- The reader is polled, and the driver takes what it comes to. -/
def poll (p : Polled) : Polled × List Note :=
  match p.stage.poll p.client.limit p.client.inbound with
  | .frame f rest =>
    let (s, notes) := (p.client.withInbound rest).handle f
    ({ client := s }, notes)
  | .invalid rest =>
    let (s, notes) := (p.client.withInbound rest).finish (.error .invalidFrame)
    ({ client := s }, notes)
  | .pending stage =>
    let s := p.client.withInbound []
    if s.peerEnded then
      let (s, notes) := s.finish (if stage.isFresh then .ok () else .error (.io .unexpectedEof))
      ({ client := s, stage }, notes)
    else ({ client := s, stage }, [])

/-- One event. A poll is possible as long as the driver runs. -/
def step? (p : Polled) : Event → Option (Polled × List Note)
  | .take => if p.client.isOver then none else some p.poll
  | e => (p.client.step? e).map fun (s, notes) => ({ p with client := s }, notes)

def run? (p : Polled) : List Event → Option (Polled × List Note)
  | [] => some (p, [])
  | e :: es => do
    let (p, notes) ← p.step? e
    let (p, more) ← p.run? es
    return (p, notes ++ more)

/-- The driver waits: it has no command, and a poll brings it nothing. -/
def Settled (p : Polled) : Prop :=
  p.step? .pick = none ∧ p.step? .retire = none ∧ p.step? .take = some (p, [])

end Polled

/-- The second client is the first one with the bytes put back that its reader has taken of an item
which is not complete. -/
def Stands (p : Polled) (s : Client) : Prop :=
  ∃ held, p.stage.Holds p.client.limit held ∧ s = p.client.withInbound (held ++ p.client.inbound)

/-- How a client that polls answers an event to which the other one answers so. -/
inductive Follows (e : Event) (s : Client) :
    Option (Client × List Note) → Option (Polled × List Note) → Prop
  | both {s' : Client} {p' : Polled} {notes : List Note} : Stands p' s' →
    Follows e s (some (s', notes)) (some (p', notes))
  /-- A poll completes no item. -/
  | waits {p' : Polled} : e = .take → s.result = none → Stands p' s →
    Follows e s none (some (p', []))
  | neither : Follows e s none none

section
variable {p : Polled} {s : Client}

/-- The reader has nothing but what is there. -/
theorem Stands.fresh (s : Client) : Stands { client := s } s :=
  ⟨[], Stage.Holds.fresh s.limit, rfl⟩

/-- An item that is not complete stays with the reader; all bytes were taken. -/
theorem Stands.kept {s : Client} {stage : Stage} {held : Bytes} (holds : stage.Holds s.limit held) :
    Stands { client := s.withInbound [], stage } (s.withInbound held) :=
  ⟨held, holds, by rw [withInbound_inbound, List.append_nil]; rfl⟩

theorem Stands.poll (h : Stands p s) (running : s.result = none) :
    Follows .take s s.take? (some p.poll) := by
  obtain ⟨held, holds, rfl⟩ := h
  have told := holds.poll p.client.inbound
  have limit : (p.client.withInbound (held ++ p.client.inbound)).limit = p.client.limit := rfl
  simp only [take?, Polled.poll, limit, withInbound_inbound]
  generalize held ++ p.client.inbound = bs at told running ⊢
  generalize Frame.read p.client.limit bs = found at told
  generalize p.stage.poll p.client.limit p.client.inbound = polled at told
  cases told with
  | frame f rest => exact .both (Stands.fresh _)
  | invalid rest => exact .both (Stands.fresh _)
  | @pending stage holds' =>
    show Follows _ _ (if p.client.peerEnded = true then _ else none)
      (some (if p.client.peerEnded = true then _ else _))
    by_cases ended : p.client.peerEnded = true
    · rw [if_pos ended, if_pos ended]
      have clean : bs.isEmpty = stage.isFresh := by
        rw [Bool.eq_iff_iff, holds'.isFresh_iff, List.isEmpty_iff]
      simp only [clean, withInbound_finish]
      refine .both ?_
      exact Stands.kept (by rw [finish_limit]; exact holds')
    · rw [if_neg ended, if_neg ended]
      exact .waits rfl running (Stands.kept holds')

/-- Other events leave the bytes where they are. -/
theorem inbound_of_step? {s s' : Client} {e : Event} {notes : List Note}
    (elsewhere : e.Elsewhere) (step : s.step? e = some (s', notes)) : s'.inbound = s.inbound := by
  have same := s.withInbound_step? s.inbound elsewhere
  rw [withInbound_self, step] at same
  have kept : s' = s'.withInbound s.inbound := (Prod.mk.inj (Option.some.inj same)).1
  rw [kept, withInbound_inbound]

theorem Stands.elsewhere (h : Stands p s) {e : Event} (elsewhere : e.Elsewhere)
    (plain : p.step? e = (p.client.step? e).map fun (s, notes) => ({ p with client := s }, notes)) :
    Follows e s (s.step? e) (p.step? e) := by
  obtain ⟨held, holds, rfl⟩ := h
  rw [plain, withInbound_step? _ _ elsewhere]
  cases step : p.client.step? e with
  | none => exact .neither
  | some answer =>
    obtain ⟨s', notes⟩ := answer
    refine .both ⟨held, ?_, ?_⟩
    · exact (effect_of_step? step).limit_eq ▸ holds
    · rw [← inbound_of_step? elsewhere step]

/-- Every event does to the one what it does to the other; but for polls that bring nothing. -/
theorem Stands.step (h : Stands p s) (e : Event) : Follows e s (s.step? e) (p.step? e) := by
  cases e with
  | take =>
    have polled := h.poll
    obtain ⟨held, holds, rfl⟩ := h
    show Follows _ _ (if p.client.isOver = true then none else _)
      (if p.client.isOver = true then none else _)
    by_cases halted : p.client.isOver = true
    · rw [if_pos halted, if_pos halted]
      exact .neither
    · rw [if_neg halted, if_neg halted]
      exact polled ((isOver_eq_false_iff p.client).1 (Bool.eq_false_iff.2 halted))
  | arrive bs =>
    obtain ⟨held, holds, rfl⟩ := h
    show Follows _ _ (if (p.client.isOver || p.client.peerEnded) = true then none else _)
      (Option.map _ (if (p.client.isOver || p.client.peerEnded) = true then none else _))
    split
    · exact .neither
    · refine .both ⟨held, holds, ?_⟩
      simp only [withInbound_inbound, List.append_assoc]
      rfl
  | start | await | close | clone | release | giveUp | peerEnds | peerDeafens | tick | pick
  | retire =>
    exact h.elsewhere trivial rfl

end

/-! ## Runs -/

/-- The event is a poll. -/
def Event.isTake : Event → Bool
  | .take => true
  | _ => false

section
variable {p p' : Polled} {s s' : Client} {es : List Event} {notes : List Note}

/-- A run with polls is a run of the other client, but for the polls that brought nothing. -/
theorem Stands.run (h : Stands p s) (run : p.run? es = some (p', notes)) :
    ∃ fs s', fs.Sublist es ∧ fs.filter (!·.isTake) = es.filter (!·.isTake) ∧
      s.run? fs = some (s', notes) ∧ Stands p' s' := by
  induction es generalizing p s notes with
  | nil =>
    obtain ⟨rfl, rfl⟩ := by simpa [Polled.run?] using run
    exact ⟨[], s, List.Sublist.refl _, rfl, rfl, h⟩
  | cons e es ih =>
    obtain ⟨p₁, shown, more, first, rest, rfl⟩ := exists_of_run_cons (fun _ _ _ => rfl) run
    have both := h.step e
    rw [first] at both
    generalize step : s.step? e = answer at both
    cases both with
    | @both s₁ _ _ stands =>
      obtain ⟨fs, s', sub, others, run, stands'⟩ := ih stands rest
      refine ⟨e :: fs, s', sub.cons_cons e, ?_, ?_, stands'⟩
      · rw [List.filter_cons, List.filter_cons, others]
      · simp [run?, step, run]
    | waits is _ stands =>
      obtain ⟨fs, s', sub, others, run, stands'⟩ := ih stands rest
      refine ⟨fs, s', sub.cons e, ?_, by simpa using run, stands'⟩
      rw [others, is]
      rfl

/-- A client that leaves the bytes where they are until an item is complete does what a client can
do that polls. -/
theorem Stands.run_of_run? (h : Stands p s) (run : s.run? es = some (s', notes)) :
    ∃ p', p.run? es = some (p', notes) ∧ Stands p' s' := by
  induction es generalizing p s notes with
  | nil =>
    obtain ⟨rfl, rfl⟩ := by simpa [run?] using run
    exact ⟨p, rfl, h⟩
  | cons e es ih =>
    obtain ⟨s₁, shown, more, first, rest, rfl⟩ := exists_of_run?_cons run
    have both := h.step e
    rw [first] at both
    generalize step : p.step? e = answer at both
    cases both with
    | both stands =>
      obtain ⟨p', run, stands'⟩ := ih stands rest
      exact ⟨p', by simp [Polled.run?, step, run], stands'⟩

theorem Stands.result_eq (h : Stands p s) : s.result = p.client.result := by
  obtain ⟨held, -, rfl⟩ := h
  rfl

end

end RemoteCall.Client
