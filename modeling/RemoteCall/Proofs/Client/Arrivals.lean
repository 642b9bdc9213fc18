import RemoteCall.Proofs.Client.Polled
import RemoteCall.Proofs.Frame.Whole
import RemoteCall.Proofs.Link.Frames

/-!
# Frames that arrive in pieces

The bytes from the peer may be cut anywhere, and calls may start between the pieces. Nothing of a
frame is lost by that: let all the bytes of an item arrive together with its last one (`gather`),
with all other events as they are, and the client does the same in every step (`Gathered.run`).
A driver that waits has taken the frames that stand whole in the bytes that have arrived, and its
reader keeps what has come of the next one (`half_received_frames_survive_commands`).
-/

namespace RemoteCall.Client

/-! ## Bytes held back -/

/-- The event with those bytes only that complete items, and the bytes that are held back. -/
def Event.gathered (limit : UInt32) (held : Bytes) : Event → Event × Bytes
  | .arrive bs => (.arrive (Frame.whole limit (held ++ bs)), Frame.left limit (held ++ bs))
  | e => (e, held)

/-- The events when each item arrives in one piece, at the moment of its last byte. -/
def gather (limit : UInt32) : (held : Bytes) → List Event → List Event
  | _, [] => []
  | held, e :: es =>
    (e.gathered limit held).1 :: gather limit (e.gathered limit held).2 es

/-- The first client has got the bytes, too, that are held back from the second one. -/
structure Gathered (held : Bytes) (s t : Client) : Prop where
  same : s = t.withInbound (t.inbound ++ held)
  parted : Frame.Parted t.limit t.inbound held

section
variable {s s' t : Client} {e : Event} {es : List Event} {held : Bytes} {notes : List Note}

theorem Effect.item_of_running (h : s.Effect .take s' notes) (running : s'.result = none) :
    ∃ f rest, Frame.read s.limit s.inbound = .item f rest := by
  cases h with
  | skipsCall _ item | skipsReply _ item | answers _ item => exact ⟨_, _, item⟩
  | breaks | ends => simp at running

/-- The driver takes a frame that is there. -/
theorem step?_take_of_item {f : Frame} {rest : Bytes} (running : s.result = none)
    (item : Frame.read s.limit s.inbound = .item f rest) :
    s.step? .take = some ((s.withInbound rest).handle f) := by
  have runs : ¬s.isOver = true := by simp [isOver, running]
  show (if s.isOver = true then none else s.take?) = _
  rw [if_neg runs, take?, item]
  rfl

theorem Gathered.elsewhere (h : Gathered held s t) (elsewhere : e.Elsewhere)
    (step : s.step? e = some (s', notes)) :
    ∃ t', t.step? e = some (t', notes) ∧ Gathered held s' t' := by
  obtain ⟨rfl, parted⟩ := h
  rw [withInbound_step? _ _ elsewhere] at step
  obtain ⟨⟨t', shown⟩, step', same⟩ := Option.map_eq_some_iff.1 step
  obtain ⟨rfl, rfl⟩ := Prod.mk.inj same
  have inbound := inbound_of_step? elsewhere step'
  refine ⟨t', step', by rw [inbound], ?_⟩
  rw [inbound, (effect_of_step? step').limit_eq]
  exact parted

theorem Gathered.arrive (h : Gathered held s t) {bs : Bytes}
    (step : s.step? (.arrive bs) = some (s', notes)) :
    ∃ t', t.step? (.arrive (Frame.whole t.limit (held ++ bs))) = some (t', notes) ∧
      Gathered (Frame.left t.limit (held ++ bs)) s' t' := by
  obtain ⟨rfl, parted⟩ := h
  have free : ¬(t.isOver || t.peerEnded) = true := by
    intro closed
    have none : (t.withInbound (t.inbound ++ held)).step? (.arrive bs) = none := if_pos closed
    rw [none] at step
    cases step
  obtain ⟨rfl, rfl⟩ := Prod.mk.inj (Option.some.inj ((if_neg free).symm.trans step))
  refine ⟨_, if_neg free, ?_, parted.append bs⟩
  have bytes := (Frame.whole_append_left t.limit (held ++ bs)).1
  show t.withInbound (t.inbound ++ held ++ bs) = t.withInbound
    (t.inbound ++ Frame.whole t.limit (held ++ bs) ++ Frame.left t.limit (held ++ bs))
  rw [List.append_assoc, List.append_assoc, bytes]

theorem Gathered.take (h : Gathered held s t) (step : s.step? .take = some (s', notes))
    (running : s'.result = none) :
    ∃ t', t.step? .take = some (t', notes) ∧ Gathered held s' t' := by
  obtain ⟨rfl, parted⟩ := h
  have effect := effect_of_step? step
  have runs : t.result = none := effect.running running
  obtain ⟨f, rest, item⟩ := effect.item_of_running running
  obtain ⟨mid, rfl, first, parted'⟩ := parted.read item
  have taken := step?_take_of_item runs first
  rw [step?_take_of_item (s := t.withInbound (t.inbound ++ held)) runs item,
    withInbound_withInbound, withInbound_handle] at step
  rw [withInbound_handle] at taken
  obtain ⟨rfl, rfl⟩ := Prod.mk.inj (Option.some.inj step)
  have limit : ((t.handle f).1.withInbound mid).limit = t.limit :=
    (effect_of_step? taken).limit_eq
  exact ⟨_, taken, rfl, limit ▸ parted'⟩

/-- While the driver runs, the events do the same with the bytes that are held back. -/
theorem Gathered.step (h : Gathered held s t) (step : s.step? e = some (s', notes))
    (running : s'.result = none) :
    ∃ t', t.step? (e.gathered t.limit held).1 = some (t', notes) ∧
      Gathered (e.gathered t.limit held).2 s' t' := by
  cases e with
  | arrive bs => exact h.arrive step
  | take => exact h.take step running
  | start | await | close | clone | release | giveUp | peerEnds | peerDeafens | tick | pick
  | retire =>
    exact h.elsewhere trivial step

/-- All the bytes of an item may as well arrive with its last one: the driver does the same, and
shows the same. -/
theorem Gathered.run (h : Gathered held s t) (run : s.run? es = some (s', notes))
    (running : s'.result = none) :
    ∃ t' held', t.run? (gather t.limit held es) = some (t', notes) ∧ Gathered held' s' t' := by
  induction es generalizing s t held notes with
  | nil =>
    obtain ⟨rfl, rfl⟩ := by simpa [run?] using run
    exact ⟨t, held, rfl, h⟩
  | cons e es ih =>
    obtain ⟨s₁, shown, more, first, rest, rfl⟩ := exists_of_run?_cons run
    obtain ⟨t₁, first', h₁⟩ := h.step first (running_of_run? rest running)
    obtain ⟨t', held', rest', h'⟩ := ih h₁ rest
    have limit : t₁.limit = t.limit := (effect_of_step? first').limit_eq
    rw [limit] at rest'
    exact ⟨t', held', by simp [gather, run?, first', rest'], h'⟩

/-- A driver that waits for bytes has all that are needed for whole items, and no more. -/
theorem Gathered.inbound_eq (h : Gathered held s t)
    (unfinished : Frame.read s.limit s.inbound = .unfinished) :
    t.inbound = [] ∧ s.inbound = held := by
  obtain ⟨rfl, parted⟩ := h
  have none := parted.eq_nil unfinished
  exact ⟨none, by rw [withInbound_inbound, none, List.nil_append]⟩

end

/-! ## Whole runs -/

section
variable {p : Polled} {s : Client} {es fs : List Event} {notes : List Note} {limit : UInt32}
  {handles : Nat}

theorem handle_ne_nil (s : Client) (f : Frame) : (s.handle f).2 ≠ [] := by
  unfold handle
  split
  · simp
  · split <;> simp

/-- A poll that shows nothing and changes nothing has found no item, and no bytes to take. -/
theorem Stands.unfinished (h : Stands p s) (running : s.result = none) (settled : p.Settled) :
    p.client.inbound = [] ∧ Frame.read s.limit s.inbound = .unfinished := by
  obtain ⟨held, holds, rfl⟩ := h
  have runs : ¬p.client.isOver = true := by
    have going : p.client.result = none := running
    simp [isOver, going]
  have polled : p.poll = (p, []) := by
    have step : (if p.client.isOver = true then none else some p.poll) = some (p, []) :=
      settled.2.2
    rw [if_neg runs] at step
    exact Option.some.inj step
  have told := holds.poll p.client.inbound
  have shows : p.poll.2 = [] := congrArg Prod.snd polled
  show _ ∧ Frame.read p.client.limit (held ++ p.client.inbound) = .unfinished
  unfold Polled.poll at polled shows
  generalize Frame.read p.client.limit (held ++ p.client.inbound) = found at told ⊢
  generalize p.stage.poll p.client.limit p.client.inbound = answer at told polled shows
  cases told with
  | frame f rest => exact absurd shows (handle_ne_nil _ f)
  | invalid rest => exact absurd shows (List.cons_ne_nil _ _)
  | pending =>
    by_cases ended : p.client.peerEnded = true
    · have ended' : (p.client.withInbound []).peerEnded = true := ended
      simp only [ended', if_true] at shows
      exact absurd shows (List.cons_ne_nil _ _)
    · have ended' : ¬(p.client.withInbound []).peerEnded = true := ended
      simp only [if_neg ended'] at polled
      have same := congrArg (fun answer => answer.1.client.inbound) polled
      exact ⟨same.symm, rfl⟩

/-- Which bytes arrived does not depend on the polls. -/
theorem arrived_eq (same : fs.filter (!·.isTake) = es.filter (!·.isTake)) :
    arrived fs = arrived es := by
  have other : ∀ es, arrived es = arrived (es.filter (!·.isTake)) := by
    intro es
    induction es with
    | nil => rfl
    | cons e es ih =>
      cases e <;> simpa [arrived, Event.isTake] using ih
  rw [other fs, same, ← other es]

/-- What is left behind the last frame is the end, or an item that breaks off. -/
theorem entries_of_unfinished {rest : Bytes} (unfinished : Frame.read limit rest = .unfinished) :
    Frame.entries limit rest =
      if rest = [] then [.ended] else [.failed (.io .unexpectedEof), .ended] := by
  by_cases empty : rest = []
  · rw [if_pos empty, empty, Frame.entries, if_pos rfl]
  · rw [if_neg empty, Source.entries_of_ne_nil limit empty, unfinished, Source.entryOf,
      Frame.entries, if_pos rfl]

/-- A client polls its reader at any moments, and bytes arrive from the peer in any pieces, between
any other events. As long as the driver runs it does what a client does that takes a frame only when
it is there, and so the same as if each item had arrived in one piece with its last byte: it shows
the same, to every caller. Whenever it waits, the frames it has taken are those that a source tells
which hands out the bytes that have arrived; and the reader keeps what has come of the next one.
All runs of that other client are runs of this one, too. -/
theorem half_received_frames_survive_commands
    (run : ({ client := { limit, handles } } : Polled).run? es = some (p, notes))
    (running : p.client.result = none) :
    (p.Settled → ∃ held, Frame.Takes limit (arrived es) (got notes) held ∧
      Frame.read limit held = .unfinished ∧ p.stage.Holds limit held ∧ p.client.inbound = [] ∧
      ∀ source : Source, source.failAt = none → source.rest = arrived es →
        source.Reads limit ((got notes).map .frame ++
          if held = [] then [.ended] else [.failed (.io .unexpectedEof), .ended])) ∧
    ∃ fs s t, fs.Sublist es ∧ fs.filter (!·.isTake) = es.filter (!·.isTake) ∧
      ({ limit, handles } : Client).run? fs = some (s, notes) ∧ Stands p s ∧
      ({ limit, handles } : Client).run? (gather limit [] fs) = some (t, notes) ∧
      s = t.withInbound s.inbound ∧ (p.Settled → t.inbound = []) ∧
      ∀ es' s' notes', ({ limit, handles } : Client).run? es' = some (s', notes') →
        ∃ p', ({ client := { limit, handles } } : Polled).run? es' = some (p', notes') ∧
          Stands p' s' := by
  obtain ⟨fs, s, sub, others, plain, stands⟩ := (Stands.fresh ({ limit, handles } : Client)).run run
  have runs : s.result = none := stands.result_eq.trans running
  obtain ⟨fits, takes⟩ := takes_of_steps (run?_eq_some_iff.1 plain) runs
  have start : Gathered [] ({ limit, handles } : Client) { limit, handles } :=
    ⟨rfl, .waits (.none []) (Frame.read_nil _)⟩
  obtain ⟨t, held, gathered, same⟩ := start.run plain runs
  refine ⟨fun settled => ?_, fs, s, t, sub, others, plain, stands, gathered, ?_,
    fun settled => ?_, fun _ _ _ => (Stands.fresh _).run_of_run?⟩
  · obtain ⟨none, unfinished⟩ := stands.unfinished runs settled
    rw [fits] at unfinished
    obtain ⟨kept, holds, rfl⟩ := stands
    have within : p.client.limit = limit := fits
    rw [withInbound_inbound, none, List.append_nil] at unfinished takes
    rw [within] at holds
    rw [arrived_eq others] at takes
    refine ⟨kept, takes, unfinished, holds, none, fun source steady arrives => ?_⟩
    rw [Source.reads_iff steady, arrives, takes.entries_eq, entries_of_unfinished unfinished]
  · rw [same.same]
    rfl
  · exact (same.inbound_eq (stands.unfinished runs settled).2).1

/-- The reply to the first call is cut inside its head, and a second call starts; then comes the
rest, and five bytes of the next reply. -/
theorem call_starts_inside_a_reply : ∃ p notes,
    ({ client := { limit := 100, handles := 1 } } : Polled).run?
      [.start "" (.ok [7]) none, .pick, .arrive ((Frame.reply 0 .ok [1]).bytes.take 3), .take,
        .start "" (.ok [8]) none, .pick,
        .arrive ((Frame.reply 0 .ok [1]).bytes.drop 3 ++ (Frame.reply 1 .ok [2]).bytes.take 5),
        .take, .take] = some (p, notes) ∧
    p.client.result = none ∧ p.Settled ∧ outcomes 0 notes = [.ok [1]] ∧
    got notes = [Frame.reply 0 .ok [1]] ∧
    ∃ held, Frame.Takes 100 ((Frame.reply 0 .ok [1]).bytes ++ (Frame.reply 1 .ok [2]).bytes.take 5)
      [Frame.reply 0 .ok [1]] held ∧ p.stage.Holds 100 held := by
  obtain ⟨p, notes, run, running, settled, answered, taken⟩ : ∃ p notes,
      ({ client := { limit := 100, handles := 1 } } : Polled).run?
        [.start "" (.ok [7]) none, .pick, .arrive ((Frame.reply 0 .ok [1]).bytes.take 3), .take,
          .start "" (.ok [8]) none, .pick,
          .arrive ((Frame.reply 0 .ok [1]).bytes.drop 3 ++ (Frame.reply 1 .ok [2]).bytes.take 5),
          .take, .take] = some (p, notes) ∧
      p.client.result = none ∧ p.Settled ∧ outcomes 0 notes = [.ok [1]] ∧
      got notes = [Frame.reply 0 .ok [1]] := ⟨_, _, rfl, rfl, ⟨rfl, rfl, rfl⟩, by decide, by decide⟩
  obtain ⟨held, takes, -, holds, -⟩ :=
    (half_received_frames_survive_commands run running).1 settled
  rw [taken] at takes
  exact ⟨p, notes, run, running, settled, answered, taken, held, takes, holds⟩

end

end RemoteCall.Client
