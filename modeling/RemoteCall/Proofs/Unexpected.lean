import RemoteCall.Proofs.Client.Unexpected
import RemoteCall.Proofs.Server.Unexpected

/-!
# Unexpected frames change nothing

Replies that come to a server, and calls and replies nobody waits for that come to a client, between
the frames that the other side sends: all that happens with them also happens without them, and the
other way round (`unexpected_frames_change_nothing`).
-/

namespace RemoteCall

section
variable {limit : UInt32} {items : List (Frame × Bool)} {m : Marked}

theorem Server.Beside.start (table : MethodTable) (workers : Nat) (c : ConnectionId)
    (woven : Woven limit items m) (replies : Server.Replies items) :
    Server.Beside c items [] m (.ofWorkers table limit workers)
      (.ofWorkers table limit workers) where
  eq := rfl
  own := rfl
  pool := ⟨_, .ofWorkers table limit workers⟩
  woven := woven
  new _ := rfl
  replies := replies
  ended conn found := by cases found

theorem Client.Beside.start (handles : Nat) (woven : Woven limit items m) :
    Client.Beside items [] m { limit, handles } { limit, handles } where
  eq := rfl
  own := rfl
  woven := woven
  ended last := by cases last

/-- Foreign frames come in between the frames of a stream, and the events `es'` are `es` with the
foreign bytes arriving, too.

If the stream goes to a server and the foreign frames are replies: whatever the server does with
them it also does without them, if it leaves out some reads of the connection; and whatever it does
without them it can do with them, if it reads some more. It shows exactly the same, and is the same
at the end, but for the bytes that wait on the connection.

It is so with a client, too, for foreign calls and for replies under ids that are not outstanding
when they are taken; some takes are left out or added. -/
theorem unexpected_frames_change_nothing (woven : Woven limit items m) :
    (∀ table workers c es es', Server.Replies items → Padded (.arrives c) (.hangsUp c) m es es' →
      (∀ t notes, (Server.ofWorkers table limit workers).run? es' = some (t, notes) →
        ∃ fs s bs, Fewer (·.isReadOn c) fs es ∧
          (Server.ofWorkers table limit workers).run? fs = some (s, notes) ∧
          t = s.withInbound c bs ∧ (t.Settled → s.Settled)) ∧
      ∀ s notes, (Server.ofWorkers table limit workers).run? es = some (s, notes) →
        ∃ fs t bs, Fewer (·.isReadOn c) es' fs ∧
          (Server.ofWorkers table limit workers).run? fs = some (t, notes) ∧
          t = s.withInbound c bs) ∧
    ∀ handles es es', Padded .arrive .peerEnds m es es' →
      (Client.Unexpected items { limit, handles } es' →
        ∀ t told, ({ limit, handles } : Client).run? es' = some (t, told) →
          ∃ fs s notes bs, Fewer (·.isTake) fs es ∧
            ({ limit, handles } : Client).run? fs = some (s, notes) ∧
            Client.unread notes = Client.unread told ∧ t = s.withInbound bs ∧
            (t.Settled → s.Settled)) ∧
      (Client.Harmless items { limit, handles } es →
        ∀ s notes, ({ limit, handles } : Client).run? es = some (s, notes) →
          ∃ fs t told bs, Fewer (·.isTake) es' fs ∧
            ({ limit, handles } : Client).run? fs = some (t, told) ∧
            Client.unread told = Client.unread notes ∧ t = s.withInbound bs) := by
  refine ⟨fun table workers c es es' replies padded => ?_, fun handles es es' padded => ?_⟩
  · have start := Server.Beside.start table workers c woven replies
    refine ⟨fun t notes run => ?_, fun s notes run => ?_⟩
    · obtain ⟨fs, s, _, left, _, fewer, run, beside⟩ := start.without padded run
      exact ⟨fs, s, left.all, fewer, run, beside.eq, beside.settled⟩
    · obtain ⟨fs, t, _, left, _, fewer, run, beside⟩ := start.along padded run
      exact ⟨fs, t, left.all, fewer, run, beside.eq⟩
  · have start := Client.Beside.start handles woven
    refine ⟨fun unexpected t told run => ?_, fun harmless s notes run => ?_⟩
    · obtain ⟨fs, s, notes, _, left, _, fewer, run, shown, beside⟩ :=
        start.without padded unexpected run
      exact ⟨fs, s, notes, left.all, fewer, run, shown, beside.eq, beside.settled⟩
    · obtain ⟨fs, t, told, _, left, _, fewer, run, shown, beside⟩ :=
        start.along padded harmless run
      exact ⟨fs, t, told, left.all, fewer, run, shown, beside.eq⟩

/-- Before its call a client sends a reply; and before the reply to that call a server sends a call
and a reply under another id. -/
theorem stray_frames_are_skipped :
    (∃ t fs s bs, (Server.ofWorkers { format := .json, rows := [("", .ok)] } 100 1).run?
        [.opens 1, .arrives 1 ((Frame.reply 5 .ok [9]).bytes ++ (Frame.call 0 "" [7]).bytes),
          .reads 1, .reads 1, .begins 1, .finishes 1 0, .writes 1] =
        some (t, [.began 1 0 "" [7] none, .wrote 1 (.reply 0 .ok [7])]) ∧
      Fewer (·.isReadOn 1) fs [.opens 1, .arrives 1 (Frame.call 0 "" [7]).bytes, .reads 1,
        .reads 1, .begins 1, .finishes 1 0, .writes 1] ∧
      (Server.ofWorkers { format := .json, rows := [("", .ok)] } 100 1).run? fs =
        some (s, [.began 1 0 "" [7] none, .wrote 1 (.reply 0 .ok [7])]) ∧
      t = s.withInbound 1 bs) ∧
    ∃ t told fs s notes bs, ({ limit := 100 } : Client).run?
        [.start "" (.ok [7]) none, .pick, .arrive ((Frame.call 0 "" [8]).bytes ++
          (Frame.reply 5 .ok [9]).bytes ++ (Frame.reply 0 .ok [7]).bytes), .take, .take, .take] =
        some (t, told) ∧
      Fewer (·.isTake) fs [.start "" (.ok [7]) none, .pick,
        .arrive (Frame.reply 0 .ok [7]).bytes, .take, .take, .take] ∧
      ({ limit := 100 } : Client).run? fs = some (s, notes) ∧
      Client.unread notes = Client.unread told ∧ Client.outcomes 0 told = [.ok [7]] ∧
      t = s.withInbound bs := by
  have call (payload : UInt8) : (Frame.call 0 "" [payload]).WellFormed 100 :=
    Frame.wellFormed_call 0 (by decide : 1 ≤ (100 : UInt32).toNat) (by decide)
  have reply (i : SendId) (payload : UInt8) : (Frame.reply i .ok [payload]).WellFormed 100 :=
    Frame.wellFormed_reply i .ok (by decide : 1 ≤ (100 : UInt32).toNat)
  constructor
  · obtain ⟨m, own, all, woven⟩ : ∃ m : Marked, m.own = (Frame.call 0 "" [7]).bytes ∧
        m.all = (Frame.reply 5 .ok [9]).bytes ++ (Frame.call 0 "" [7]).bytes ∧
        Woven 100 [(.reply 5 .ok [9], false), (.call 0 "" [7], true)] m :=
      ⟨_, rfl, rfl, .of_wellFormed (by simpa using ⟨reply 5 9, call 7⟩) []⟩
    obtain ⟨t, run⟩ : ∃ t, (Server.ofWorkers { format := .json, rows := [("", .ok)] } 100 1).run?
        [.opens 1, .arrives 1 ((Frame.reply 5 .ok [9]).bytes ++ (Frame.call 0 "" [7]).bytes),
          .reads 1, .reads 1, .begins 1, .finishes 1 0, .writes 1] =
        some (t, [.began 1 0 "" [7] none, .wrote 1 (.reply 0 .ok [7])]) := ⟨_, rfl⟩
    have padded : Padded (Server.Event.arrives 1) (.hangsUp 1) m _ _ := .together m [.opens 1]
      [.reads 1, .reads 1, .begins 1, .finishes 1 0, .writes 1] (by simp)
    rw [own, all] at padded
    obtain ⟨fs, s, bs, fewer, run', same, -⟩ := ((unexpected_frames_change_nothing woven).1
      _ 1 1 _ _ (by simp [Server.Replies, Frame.reply]) padded).1 t _ run
    exact ⟨t, fs, s, bs, run, fewer, run', same⟩
  · obtain ⟨m, own, all, woven⟩ : ∃ m : Marked, m.own = (Frame.reply 0 .ok [7]).bytes ∧
        m.all = (Frame.call 0 "" [8]).bytes ++ (Frame.reply 5 .ok [9]).bytes ++
          (Frame.reply 0 .ok [7]).bytes ∧
        Woven 100 [(.call 0 "" [8], false), (.reply 5 .ok [9], false),
          (.reply 0 .ok [7], true)] m :=
      ⟨_, rfl, rfl, .of_wellFormed (by simpa using ⟨call 8, reply 5 9, reply 0 7⟩) []⟩
    obtain ⟨t, told, run, answered⟩ : ∃ t told, ({ limit := 100 } : Client).run?
        [.start "" (.ok [7]) none, .pick, .arrive ((Frame.call 0 "" [8]).bytes ++
          (Frame.reply 5 .ok [9]).bytes ++ (Frame.reply 0 .ok [7]).bytes), .take, .take, .take] =
        some (t, told) ∧ Client.outcomes 0 told = [.ok [7]] := ⟨_, _, rfl, rfl⟩
    have padded : Padded Client.Event.arrive .peerEnds m _ _ :=
      .together m [.start "" (.ok [7]) none, .pick] [.take, .take, .take] (by simp)
    rw [own, all] at padded
    have unexpected : Client.Unexpected
        [(.call 0 "" [8], false), (.reply 5 .ok [9], false), (.reply 0 .ok [7], true)]
        { limit := 100 } ([.start "" (.ok [7]) none, .pick] ++
          .arrive ((Frame.call 0 "" [8]).bytes ++ (Frame.reply 5 .ok [9]).bytes ++
            (Frame.reply 0 .ok [7]).bytes) :: [.take, .take, .take]) := by
      intro early later u shown f i status n same past front head
      -- the takes are the fourth, the fifth and the sixth event
      rcases early with _ | ⟨_, _ | ⟨_, _ | ⟨_, _ | ⟨_, _ | ⟨_, _ | ⟨_, early⟩⟩⟩⟩⟩⟩
      iterate 3 cases same
      · cases same
        cases past
        cases front
        cases head
      · cases same
        cases past
        cases front
        cases head
        rfl
      · cases same
        cases past
        cases front
      · cases early <;> cases same
    obtain ⟨fs, s, notes, bs, fewer, run', shown, same, -⟩ :=
      ((unexpected_frames_change_nothing woven).2 1 _ _ padded).1 unexpected t told run
    exact ⟨t, told, fs, s, notes, bs, run, fewer, run', shown, answered, same⟩

end

end RemoteCall
