import RemoteCall.Proofs.Link.Ends

/-!
# Ends that stay open

As long as each end is sent nothing but frames neither ends the other: the driver runs on until the
program closes the channel or lets go of its last handle, and the connection stays open as long as
the driver runs (`Link.Effect.stays_open`).
-/

namespace RemoteCall

/-! ## The client -/

/-- The driver runs and no command to end waits; its peer sends and reads. -/
structure Client.Open (s : Client) : Prop where
  runs : s.result = none
  listens : s.peerEnded = false
  speaks : s.peerDeaf = false
  unclosed : .close ∉ s.commands

namespace Client

section
variable {s s' : Client} {e : Event} {notes : List Note}

/-- Only the program ends a driver whose peer sends frames: as long as it neither closes the channel
nor lets go of its last handle, every step leaves the driver running. -/
theorem Effect.keeps_running (h : s.Effect e s' notes) (isOpen : s.Open)
    (sound : ∀ rest, Frame.read s.limit s.inbound ≠ .invalid rest) (held : 0 < s'.handles) :
    s'.result = none := by
  cases h with
  | refuses | accepts | awaits | closesLate | closes | clones | givesUp | arrives | peerEnds
  | peerDeafens | ticks | exhausts | writes | skipsCall | skipsReply | answers =>
    exact isOpen.runs
  | releases => simpa using isOpen.runs
  | picksClose _ queue =>
    have unclosed := isOpen.unclosed
    simp [queue] at unclosed
  | failsToWrite _ _ _ deaf => simp [isOpen.speaks] at deaf
  | breaks _ invalid => exact absurd invalid (sound _)
  | ends _ _ ended => simp [isOpen.listens] at ended
  | retires _ gone => simp [gone] at held

theorem Effect.stays_open (h : s.Effect e s' notes) (isOpen : s.Open)
    (sound : ∀ rest, Frame.read s.limit s.inbound ≠ .invalid rest) (held : 0 < s'.handles)
    (closes : e ≠ .close) (ends : e ≠ .peerEnds) (deafens : e ≠ .peerDeafens) : s'.Open := by
  have runs := h.keeps_running isOpen sound held
  have unclosed : .close ∉ s'.commands :=
    fun queued => isOpen.unclosed (h.close_mem runs closes queued)
  suffices same : s'.peerEnded = s.peerEnded ∧ s'.peerDeaf = s.peerDeaf from
    ⟨runs, same.1.trans isOpen.listens, same.2.trans isOpen.speaks, unclosed⟩
  cases h with
  | refuses | accepts | awaits | closesLate | closes | clones | givesUp | arrives | ticks | exhausts
  | writes | skipsCall | skipsReply | answers =>
    exact ⟨rfl, rfl⟩
  | releases =>
    rw [dropQueue_of_running { s with handles := s.handles - 1 } isOpen.runs]
    exact ⟨rfl, rfl⟩
  | peerEnds => exact absurd rfl ends
  | peerDeafens => exact absurd rfl deafens
  | picksClose | failsToWrite | breaks | ends | retires => simp at runs

end

end Client

/-! ## The server -/

/-- The connection is neither over nor closing, and its client sends and reads. -/
structure Server.Connection.Open (conn : Connection) : Prop where
  isOpen : conn.result = none
  sends : conn.hungUp = false
  hears : conn.deaf = false
  stays : conn.closing = false
  goes : ¬conn.reading.Stopped

namespace Server

section
variable {table : MethodTable} {limit : UInt32} {c : ConnectionId} {conn conn' : Connection}
  {d : Demand} {bs : Bytes} {notes : List Note} {s s' : Server} {e : Event}

theorem Connection.Open.granted (h : conn.Open) : conn.granted.Open :=
  ⟨h.isOpen, h.sends, h.hears, h.stays, fun stopped => h.goes ((Reading.stopped_grant _).1 stopped)⟩

/-- A connection whose client sends frames and reads its replies stays open. -/
theorem Change.stays_open (h : Change table limit c conn d bs notes conn') (isOpen : conn.Open)
    (sound : ∀ rest, Frame.read limit conn.inbound ≠ .invalid rest)
    (hungUp : conn'.hungUp = conn.hungUp) (deaf : conn'.deaf = conn.deaf) : conn'.Open := by
  obtain ⟨running, sends, hears, stays, goes⟩ := isOpen
  rw [sends] at hungUp
  rw [hears] at deaf
  cases h with
  | arrives | readies | skips | finishes | writes => exact ⟨running, sends, hears, stays, goes⟩
  | hires | queues | begins => exact ⟨running, sends, hears, stays, id⟩
  | hangsUp => cases hungUp
  | deafens => cases deaf
  | breaks _ invalid => exact absurd invalid (sound _)
  | runsOut _ _ gone => simp [sends] at gone
  | stops closing | stopsWaiting closing | stopsGranted closing | abandons closing =>
    simp [stays] at closing
  | failsToWrite _ gone => simp [hears] at gone
  | isOver stopped =>
    rw [stopped] at goes
    exact absurd trivial goes

/-- What an event does to a server with one connection: all that is written is written there, and
the connection stays as it is or changes. -/
theorem Effect.alone (h : Effect s e s' notes) (opens : ∀ b, e ≠ .opens b)
    (alone : s.connections = [(c, conn)]) :
    written notes = writtenOn c notes ∧ (s'.connections = [(c, conn)] ∨
      ∃ conn' d bs, Change s.table s.limit c conn d bs (notesOn c notes) conn' ∧
        e.Concerns c conn conn' ∧
        (s'.connections = [(c, conn')] ∨ s'.connections = [(c, conn'.granted)])) := by
  cases h with
  | opens => exact absurd rfl (opens _)
  | releasesNobody => exact ⟨rfl, .inl alone⟩
  | releases found change meets concerns =>
    obtain ⟨rfl, rfl⟩ := eq_of_alone alone found
    exact ⟨rfl, .inr ⟨_, _, _, change, concerns, meets.alone alone⟩⟩
  | moves found change meets concerns =>
    obtain ⟨rfl, rfl⟩ := eq_of_alone alone found
    rw [writtenOn, change.notesOn_self]
    exact ⟨rfl, .inr ⟨_, _, _, change, concerns, meets.alone alone⟩⟩

theorem Effect.stays_alone (h : Effect s e s' notes) (opens : ∀ b, e ≠ .opens b)
    (alone : s.connections = [(c, conn)]) :
    written notes = writtenOn c notes ∧ ∃ conn', s'.connections = [(c, conn')] := by
  obtain ⟨same, now⟩ := h.alone opens alone
  refine ⟨same, ?_⟩
  rcases now with still | ⟨conn', -, -, -, -, here | granted⟩
  · exact ⟨conn, still⟩
  · exact ⟨conn', here⟩
  · exact ⟨conn'.granted, granted⟩

theorem Effect.stays_open (h : Effect s e s' notes) (opens : ∀ b, e ≠ .opens b)
    (hangsUp : ∀ b, e ≠ .hangsUp b) (deafens : ∀ b, e ≠ .deafens b)
    (alone : s.connections = [(c, conn)]) (isOpen : conn.Open)
    (sound : ∀ rest, Frame.read s.limit conn.inbound ≠ .invalid rest) :
    ∃ conn', s'.connections = [(c, conn')] ∧ conn'.Open := by
  rcases (h.alone opens alone).2 with same | ⟨conn', d, bs, change, concerns, now⟩
  · exact ⟨conn, same, isOpen⟩
  · have stays := change.stays_open isOpen sound (concerns.hungUp hangsUp) (concerns.deaf deafens)
    rcases now with here | granted
    · exact ⟨conn', here, stays⟩
    · exact ⟨conn'.granted, granted, stays.granted⟩

end

end Server

/-! ## Both -/

namespace Link

theorem Effect.stays_open {l l' : Link} {e : Event} {notes : List Note} {conn : Server.Connection}
    (h : l.Effect e l' notes) (client : l.client.Open)
    (alone : l.server.connections = [(wire, conn)]) (server : conn.Open)
    (hears : ∀ rest, Frame.read l.client.limit l.client.inbound ≠ .invalid rest)
    (reads : ∀ rest, Frame.read l.server.limit conn.inbound ≠ .invalid rest)
    (held : 0 < l'.client.handles) (unclosed : e ≠ .client .close) :
    l'.client.Open ∧ ∃ conn', l'.server.connections = [(wire, conn')] ∧ conn'.Open := by
  have unserved : ¬l.served.isSome := by
    simp [served, Server.get?, alone, server.isOpen]
  cases h with
  | @clientMoves e _ _ own step =>
    refine ⟨(Client.effect_of_step? step).stays_open client hears held ?_ ?_ ?_, conn, alone,
      server⟩
    · rintro rfl
      exact unclosed rfl
    · rintro rfl
      cases own
    · rintro rfl
      cases own
  | serverMoves own step =>
    refine ⟨client, (Server.effect_of_step? step).stays_open ?_ ?_ ?_ alone server reads⟩ <;>
    · rintro b rfl
      cases own
  | serverGets step =>
    exact ⟨client, (Server.effect_of_step? step).stays_open (by simp) (by simp) (by simp) alone
      server reads⟩
  | clientGets step =>
    exact ⟨(Client.effect_of_step? step).stays_open client hears held (by simp) (by simp) (by simp),
      conn, alone, server⟩
  | clientDrops ended | serverSeesEnd ended | serverLosesReader ended =>
    exact absurd client.runs ended
  | clientSeesEnd ended | clientLosesReader ended => exact absurd ended unserved

end Link

end RemoteCall
