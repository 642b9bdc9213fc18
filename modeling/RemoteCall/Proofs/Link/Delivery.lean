import RemoteCall.Proofs.Client.Fates
import RemoteCall.Proofs.Link.Open
import RemoteCall.Proofs.Link.Transit

/-!
# Every call comes back

In a run of a link whose calls fit and have no deadlines, every caller that does not give up waits
for its call, or has seen the outcome it wants or that there was no id left (`Delivers`). Only the
program ends the driver of such a link (`runs_until_closed`), and once the link can move no more
nobody waits (`settles_all`).
-/

namespace RemoteCall.Link

/-! ## The calls of a run -/

/-- The events that start calls, in their order. -/
def starts (es : List Event) : List Client.Event :=
  es.filterMap fun
    | .client (.start method argument patience) => some (.start method argument patience)
    | _ => none

/-- The calls of the run are sendable and have no deadlines; the caller of the call number `k` wants
the outcome number `k`. -/
def Proper (table : MethodTable) (limit clientLimit : UInt32) (prompt : Prop)
    (wanted : Nat → Outcome) (es : List Event) : Prop :=
  ∀ k method argument patience, (starts es)[k]? = some (.start method argument patience) →
    patience = none ∧ ∃ payload, argument = .ok payload ∧
      Sendable table limit clientLimit prompt (wanted k) method payload

section
variable {table : MethodTable} {limit clientLimit : UInt32} {prompt : Prop} {wanted : Nat → Outcome}
  {es : List Event} {e : Event} {workers handles : Nat} {l l' : Link} {notes more : List Note}

@[simp] theorem starts_append (es more : List Event) :
    starts (es ++ more) = starts es ++ starts more := by
  simp [starts]

theorem Proper.of_append (h : Proper table limit clientLimit prompt wanted (es ++ [e])) :
    Proper table limit clientLimit prompt wanted es := by
  intro k method argument patience found
  apply h k method argument patience
  rw [starts_append, List.getElem?_append_left (List.getElem?_eq_some_iff.1 found).1]
  exact found

/-- Either the client is left alone or something happens to it, which is this event if it is not the
peer's doing. -/
theorem Effect.client_cases (h : l.Effect e l' more) :
    (l'.client = l.client ∧ clientNotes more = [] ∧ starts [e] = []) ∨
      ∃ ce, l.client.Effect ce l'.client (clientNotes more) ∧ starts [e] = starts [.client ce] ∧
        (ownOfClient ce = true → e = .client ce) := by
  cases h with
  | @clientMoves ce client notes own step =>
    refine .inr ⟨ce, ?_, rfl, fun _ => rfl⟩
    rw [clientNotes_client]
    exact Client.effect_of_step? step
  | serverMoves => exact .inl ⟨rfl, clientNotes_server _, rfl⟩
  | serverGets | clientDrops | serverSeesEnd | serverLosesReader => exact .inl ⟨rfl, rfl, rfl⟩
  | clientGets step | clientSeesEnd _ step | clientLosesReader _ step =>
    exact .inr ⟨_, Client.effect_of_step? step, rfl, fun own => by cases own⟩

/-! ## The invariant -/

/-- What is true of a run whose calls are proper, as long as the driver runs. -/
structure Delivers (table : MethodTable) (limit clientLimit : UInt32) (prompt : Prop)
    (wanted : Nat → Outcome) (workers : Nat) (es : List Event) (l : Link) (notes : List Note) :
    Prop where
  table_eq : l.server.table = table
  limit_eq : l.server.limit = limit
  clientLimit_eq : l.client.limit = clientLimit
  transit : ∃ conn calls replies, Transit wanted prompt workers l conn calls replies
  started : l.client.started = (starts es).length
  waiting : l.client.Waiting (clientNotes notes)
  patient : l.client.Patient
  roomy : l.client.Roomy
  fair : ∀ c < l.client.started, .client (.giveUp c) ∉ es →
    l.client.Fair wanted (clientNotes notes) c

/-- The call that the event starts is the next one of the run. -/
theorem Delivers.proper_start
    (h : Delivers table limit clientLimit prompt wanted workers es l notes)
    (proper : Proper table limit clientLimit prompt wanted (es ++ [e])) {method : String}
    {argument : Except IoError Bytes} {patience : Option Nat}
    (starting : starts [e] = [.start method argument patience]) :
    patience = none ∧ ∃ payload, argument = .ok payload ∧
      Sendable table limit clientLimit prompt (wanted l.client.started) method payload := by
  apply proper l.client.started method argument patience
  rw [starts_append, starting, h.started]
  simp

/-- A call that starts is one call more. -/
theorem started_of_effect {s s' : Client} {ce : Client.Event} {shown : List Client.Note}
    (h : s.Effect ce s' shown) : s'.started = s.started + (starts [.client ce]).length := by
  rcases h.start_or_narrows with ⟨method, argument, patience, rfl⟩ | ⟨other, go⟩
  · cases h with
    | refuses | accepts => rfl
  · rw [go.started]
    cases ce with
    | start method argument patience => exact absurd rfl (other method argument patience)
    | await | close | clone | release | giveUp | arrive | peerEnds | peerDeafens | tick | pick
    | take | retire => rfl

/-- An event happens to the client: the callers that were there stay well, and so does the one that
the event may have started. -/
theorem Delivers.fair_step (h : Delivers table limit clientLimit prompt wanted workers es l notes)
    (proper : Proper table limit clientLimit prompt wanted (es ++ [e])) {ce : Client.Event}
    {client : Client} {shown : List Client.Note} (effect : l.client.Effect ce client shown)
    (starting : starts [e] = starts [.client ce])
    (own : ownOfClient ce = true → e = .client ce) (runs : client.result = none) {c : Nat}
    (known : c < client.started) (stays : .client (.giveUp c) ∉ es ++ [e]) :
    client.Fair wanted (clientNotes notes ++ shown) c := by
  obtain ⟨conn, calls, replies, transit⟩ := h.transit
  by_cases before : c < l.client.started
  · have fair := h.fair c before fun gave => stays (List.mem_append_left _ gave)
    refine fair.effect h.waiting h.patient h.roomy before ?_ runs ?_ effect
    · intro gives
      obtain rfl := gives
      rw [own rfl] at stays
      simp at stays
    · intro f rest i status n caller item head outstanding
      exact (transit.answers item head outstanding).1
  · rcases effect.start_or_narrows with ⟨method, argument, patience, rfl⟩ | ⟨-, go⟩
    · obtain ⟨-, payload, rfl, sendable⟩ := h.proper_start proper starting
      have passes := Client.check_of_fits transit.runs (h.clientLimit_eq ▸ sendable.accepted)
        sendable.named
      cases effect with
      | refuses _ failed =>
        rw [passes] at failed
        cases failed
      | @accepts _ _ _ sent _ _ =>
        obtain rfl : c = l.client.started := by
          have upper : c < l.client.started + 1 := known
          omega
        refine .inl ⟨by simp, .inl ?_⟩
        exact Client.mem_queued_iff.2 ⟨method, sent, by simp⟩
    · rw [go.started] at known
      exact absurd known before

theorem Delivers.step (h : Delivers table limit clientLimit prompt wanted workers es l notes)
    (proper : Proper table limit clientLimit prompt wanted (es ++ [e]))
    (effect : l.Effect e l' more) (runs : l'.client.result = none) :
    Delivers table limit clientLimit prompt wanted workers (es ++ [e]) l' (notes ++ more) := by
  obtain ⟨conn, calls, replies, transit⟩ := h.transit
  have sends : e.Sends wanted prompt l := by
    intro method argument patience same
    rw [h.table_eq, h.limit_eq, h.clientLimit_eq]
    exact h.proper_start proper (by rw [same]; rfl)
  have fixed := effect.fixed
  have moved := transit.effect effect sends runs
  rcases effect.client_cases with ⟨same, quiet, none⟩ | ⟨ce, changed, starting, own⟩
  · refine ⟨fixed.1.trans h.table_eq, fixed.2.trans h.limit_eq, ?_, moved, ?_, ?_, ?_, ?_, ?_⟩
    · rw [same]
      exact h.clientLimit_eq
    · rw [same, starts_append, none, List.append_nil]
      exact h.started
    · rw [same, clientNotes_append, quiet, List.append_nil]
      exact h.waiting
    · rw [same]
      exact h.patient
    · rw [same]
      exact h.roomy
    · rw [same, clientNotes_append, quiet, List.append_nil]
      intro c known stays
      exact h.fair c known fun gave => stays (List.mem_append_left _ gave)
  · refine ⟨fixed.1.trans h.table_eq, fixed.2.trans h.limit_eq, ?_, moved, ?_, ?_, ?_, ?_, ?_⟩
    · exact changed.limit_eq.trans h.clientLimit_eq
    · rw [started_of_effect changed, h.started, starts_append, List.length_append, starting]
    · rw [clientNotes_append]
      exact h.waiting.effect changed
    · refine h.patient.effect changed ?_
      intro method argument patience same
      rw [same] at starting
      exact (h.proper_start proper starting).1
    · exact h.roomy.effect changed
    · rw [clientNotes_append]
      intro c known stays
      exact h.fair_step proper changed starting own runs known stays

/-- A link that has just been joined. -/
theorem Delivers.fresh : Delivers table limit clientLimit prompt wanted (max workers 1) []
    (join { limit := clientLimit, handles } (Server.ofWorkers table limit workers)) [] where
  table_eq := rfl
  limit_eq := rfl
  clientLimit_eq := rfl
  transit := by
    refine ⟨{}, [], [], rfl, rfl, rfl, (Server.Pool.ofWorkers table limit workers).opens rfl, rfl,
      ⟨rfl, rfl, rfl, id, rfl, rfl, ⟨rfl, by simp⟩, ?_, by simp, by simp⟩, ⟨rfl, by simp⟩, ?_, ?_⟩
    · intro call member
      simp [Server.Reading.pending] at member
    · intro i
      exact List.Perm.refl []
    · intro caller method payload member
      simp [join] at member
  started := rfl
  waiting := .fresh clientLimit handles
  patient c d waits := by simp [join] at waits
  roomy := .fresh clientLimit handles
  fair c known := absurd known (Nat.not_lt_zero c)

/-! ## Runs -/

/-- Only the program ends the driver: as long as it neither closes the channel nor lets go of its
last handle, every step leaves the driver running. -/
theorem Transit.keeps_running {conn : Server.Connection} {calls replies : List Frame}
    (h : Transit wanted prompt workers l conn calls replies) (effect : l.Effect e l' more)
    (held : 0 < l'.client.handles) (unclosed : .close ∉ l.client.commands) :
    l'.client.result = none := by
  rcases effect.client_cases with ⟨same, -, -⟩ | ⟨ce, changed, -, -⟩
  · rw [same]
    exact h.runs
  · exact changed.keeps_running ⟨h.runs, h.listens, h.speaks, unclosed⟩ (fun _ => h.told.sound) held

theorem Effect.handles_pos (h : l.Effect e l' more) (held : 0 < l'.client.handles) :
    0 < l.client.handles := by
  rcases h.client_cases with ⟨same, -, -⟩ | ⟨ce, changed, -, -⟩
  · exact same ▸ held
  · exact changed.handles_pos held

theorem Effect.running (h : l.Effect e l' more) (running : l'.client.result = none) :
    l.client.result = none := by
  rcases h.client_cases with ⟨same, -, -⟩ | ⟨ce, changed, -, -⟩
  · exact same ▸ running
  · exact changed.running running

theorem delivers_of_steps
    (steps : Steps step? (join { limit := clientLimit, handles }
      (Server.ofWorkers table limit workers)) es l notes)
    (proper : Proper table limit clientLimit prompt wanted es) (running : l.client.result = none) :
    Delivers table limit clientLimit prompt wanted (max workers 1) es l notes := by
  induction steps with
  | none => exact .fresh
  | snoc _ step ih =>
    have effect := effect_of_step? step
    exact (ih proper.of_append (effect.running running)).step proper effect running

/-- The driver runs until the program closes the channel or lets go of its last handle. -/
theorem runs_until_closed
    (steps : Steps step? (join { limit := clientLimit, handles }
      (Server.ofWorkers table limit workers)) es l notes)
    (proper : Proper table limit clientLimit prompt wanted es) (unclosed : .client .close ∉ es)
    (held : 0 < l.client.handles) : l.client.result = none ∧ .close ∉ l.client.commands := by
  induction steps with
  | none => exact ⟨rfl, List.not_mem_nil⟩
  | @snoc es l l' e notes more before step ih =>
    have effect := effect_of_step? step
    have early : .client .close ∉ es := fun closed => unclosed (List.mem_append_left _ closed)
    obtain ⟨running, empty⟩ := ih proper.of_append early (effect.handles_pos held)
    obtain ⟨conn, calls, replies, transit⟩ :=
      (delivers_of_steps before proper.of_append running).transit
    have runs := transit.keeps_running effect held empty
    refine ⟨runs, ?_⟩
    intro queued
    rcases effect.client_cases with ⟨same, -, -⟩ | ⟨ce, changed, -, own⟩
    · exact empty (same ▸ queued)
    · refine empty (changed.close_mem runs ?_ queued)
      intro closes
      obtain rfl := closes
      rw [own rfl] at unclosed
      simp at unclosed

/-- Once the link can move no more every caller that did not give up has seen its outcome. -/
theorem settles_all
    (steps : Steps step? (join { limit := clientLimit, handles }
      (Server.ofWorkers table limit workers)) es l notes)
    (proper : Proper table limit clientLimit True wanted es) (running : l.client.result = none)
    (settled : l.Settled) {c : Nat} (known : c < (starts es).length)
    (stays : .client (.giveUp c) ∉ es) :
    ∃ r, Client.outcomes c (clientNotes notes) = [r] ∧
      (r = wanted c ∨ r = .error .tooManyCalls ∧ 65536 < (starts es).length) := by
  have delivers := delivers_of_steps steps proper running
  obtain ⟨conn, calls, replies, transit⟩ := delivers.transit
  rcases delivers.fair c (delivers.started ▸ known) stays with ⟨-, queued | ⟨i, known⟩⟩ | seen
  · obtain ⟨method, payload, member⟩ := Client.mem_queued_iff.1 queued
    rw [settled.commands_eq_nil running] at member
    cases member
  · rw [transit.settled (Nat.lt_of_lt_of_le Nat.one_pos (Nat.le_max_right ..)) trivial settled i]
      at known
    cases known
  · rw [delivers.started] at seen
    exact seen

end

end RemoteCall.Link
