import RemoteCall.Proofs.Client.Callers
import RemoteCall.Proofs.Frame.Stream
import RemoteCall.Proofs.Run

/-!
# Replies reach their own calls

A peer that answers no call twice, and none that was not written, cannot confuse the driver: while
the driver runs, the calls written under an id are those answered under it and at most one more,
which is the outstanding call (`Correlated`). So the reply number `k` under an id always meets the
call number `k` under it (`reply_reaches_its_call`), however often ids come round again and whoever
gave up in between.
-/

namespace RemoteCall.Client

/-! ## What was written and answered under an id -/

/-- The callers whose frames were written under the id, in that order. -/
def callersUnder (i : SendId) (notes : List Note) : List Nat :=
  notes.filterMap fun
    | .wrote c f => if f.sendId = i then some c else none
    | _ => none

/-- The replies under the id that were taken from the peer, in that order. -/
def repliesUnder (i : SendId) (notes : List Note) : List Frame :=
  notes.filterMap fun
    | .got f =>
      match f.head with
      | .reply j _ _ => if j = i then some f else none
      | .call .. => none
    | _ => none

/-- The peer answers each call at most once, and only once it was written: at no moment have more
replies come under an id than calls went out under it. -/
def AnswersOnce (notes : List Note) : Prop :=
  ∀ shown, shown <+: notes →
    ∀ i, (repliesUnder i shown).length ≤ (callersUnder i shown).length

/-- The values that the notes tell a caller, read in a format. -/
def seen [Payload β] (format : Format) (caller : Nat) (notes : List Note) :
    List (Except CallError β) :=
  (outcomes caller notes).map (decode format)

section
variable (i : SendId) (notes more : List Note)

@[simp] theorem callersUnder_append :
    callersUnder i (notes ++ more) = callersUnder i notes ++ callersUnder i more := by
  simp [callersUnder]

@[simp] theorem repliesUnder_append :
    repliesUnder i (notes ++ more) = repliesUnder i notes ++ repliesUnder i more := by
  simp [repliesUnder]

@[simp] theorem callersUnder_nil : callersUnder i [] = [] := rfl

@[simp] theorem repliesUnder_nil : repliesUnder i [] = [] := rfl

@[simp] theorem callersUnder_got (f : Frame) :
    callersUnder i (.got f :: notes) = callersUnder i notes := rfl

@[simp] theorem repliesUnder_wrote (c : Nat) (f : Frame) :
    repliesUnder i (.wrote c f :: notes) = repliesUnder i notes := rfl

@[simp] theorem repliesUnder_ended (r : Except CallError Unit) :
    repliesUnder i (.ended r :: notes) = repliesUnder i notes := rfl

@[simp] theorem callersUnder_wrote (c : Nat) (f : Frame) : callersUnder i (.wrote c f :: notes) =
    if f.sendId = i then c :: callersUnder i notes else callersUnder i notes := by
  by_cases h : f.sendId = i <;> simp [callersUnder, h]

theorem repliesUnder_call {f : Frame} {j : SendId} {method : String} {n : UInt32}
    (head : f.head = .call j method n) :
    repliesUnder i (.got f :: notes) = repliesUnder i notes := by
  simp [repliesUnder, head]

theorem repliesUnder_reply {f : Frame} {j : SendId} {status : ReplyStatus} {n : UInt32}
    (head : f.head = .reply j status n) : repliesUnder i (.got f :: notes) =
      if j = i then f :: repliesUnder i notes else repliesUnder i notes := by
  by_cases h : j = i <;> simp [repliesUnder, head, h]

end

theorem AnswersOnce.of_append {notes more : List Note} (h : AnswersOnce (notes ++ more)) :
    AnswersOnce notes :=
  fun shown early => h shown (early.trans (List.prefix_append notes more))

theorem AnswersOnce.length_le {notes : List Note} (h : AnswersOnce notes) (i : SendId) :
    (repliesUnder i notes).length ≤ (callersUnder i notes).length :=
  h notes (List.prefix_refl notes) i

/-! ### Notes about callers alone -/

section
variable (s : Client) (i : SendId) (callers : List Nat) (r : Outcome)

@[simp] theorem callersUnder_resolveAll : callersUnder i (s.resolveAll callers r).2 = [] := by
  simp [callersUnder, resolveAll]

@[simp] theorem repliesUnder_resolveAll : repliesUnder i (s.resolveAll callers r).2 = [] := by
  simp [repliesUnder, resolveAll]

@[simp] theorem repliesUnder_dropQueue : repliesUnder i s.dropQueue.2 = [] := by
  unfold dropQueue
  split
  · exact repliesUnder_resolveAll ..
  · rfl

@[simp] theorem repliesUnder_finish (e : Except CallError Unit) :
    repliesUnder i (s.finish e).2 = [] := by
  simp [finish]

end

theorem mem_repliesUnder {notes : List Note} {f : Frame} {i : SendId} {status : ReplyStatus}
    {n : UInt32} (got : .got f ∈ notes) (head : f.head = .reply i status n) :
    f ∈ repliesUnder i notes :=
  List.mem_filterMap.2 ⟨_, got, by simp [head]⟩

/-! ## The outstanding calls are the unanswered ones -/

/-- While the driver runs, the calls written under each id are those that were answered under it,
and the outstanding one if there is one. -/
def Correlated (s : Client) (notes : List Note) : Prop :=
  s.result = none → ∀ i, ∃ answered, callersUnder i notes = answered ++ s.outstanding[i]?.toList ∧
    answered.length = (repliesUnder i notes).length

/-- An id without an outstanding call has had all its answers. -/
theorem Correlated.length_eq {s : Client} {notes : List Note} (h : Correlated s notes)
    (running : s.result = none) {i : SendId} (free : s.outstanding[i]? = none) :
    (repliesUnder i notes).length = (callersUnder i notes).length := by
  obtain ⟨answered, calls, answers⟩ := h running i
  rw [calls, free, ← answers]
  simp

/-- No reply comes under an id without an outstanding call: it would be one more than there were
calls. -/
theorem Correlated.no_stray {s : Client} {notes : List Note} (h : Correlated s notes)
    (running : s.result = none) {i : SendId} (free : s.outstanding[i]? = none) {f : Frame}
    {status : ReplyStatus} {n : UInt32} (head : f.head = .reply i status n)
    (peer : AnswersOnce (notes ++ [.got f])) : False := by
  have before := h.length_eq running free
  have after := peer.length_le i
  simp [repliesUnder_reply i [] head] at after
  omega

/-- Nothing written, nothing taken, and no id given out or given back. -/
theorem Correlated.still {s s' : Client} {notes more : List Note} (h : Correlated s notes)
    (result : s'.result = s.result) (outstanding : s'.outstanding = s.outstanding)
    (unwritten : ∀ i, callersUnder i more = []) (untaken : ∀ i, repliesUnder i more = []) :
    Correlated s' (notes ++ more) := by
  intro running i
  obtain ⟨answered, calls, answers⟩ := h (result ▸ running) i
  exact ⟨answered, by simp [calls, unwritten, outstanding], by simp [answers, untaken]⟩

/-- A driver that has ended has no more to do with replies. -/
theorem Correlated.ended {s : Client} {notes : List Note} (h : s.result ≠ none) :
    Correlated s notes :=
  fun running => absurd running h

theorem Correlated.effect {s s' : Client} {e : Event} {notes more : List Note}
    (h : Correlated s notes) (peer : AnswersOnce (notes ++ more)) (effect : s.Effect e s' more) :
    Correlated s' (notes ++ more) := by
  cases effect with
  | refuses | accepts | awaits | closesLate | closes | clones | givesUp | arrives | peerEnds
  | peerDeafens =>
    exact h.still rfl rfl (fun _ => rfl) (fun _ => rfl)
  | ticks => exact h.still rfl rfl (by simp [tick]) (by simp [tick])
  | exhausts => exact h.still rfl rfl (by simp) (by simp)
  | skipsCall _ _ head =>
    exact h.still rfl rfl (fun _ => rfl) (fun i => repliesUnder_call i [] head)
  | releases =>
    by_cases running : s.result = none
    · have kept := dropQueue_of_running { s with handles := s.handles - 1 } running
      rw [kept]
      exact h.still rfl rfl (fun _ => rfl) (fun _ => rfl)
    · exact .ended (by simpa using running)
  | picksClose | failsToWrite | breaks | ends | retires => exact .ended (by simp)
  | @writes caller method payload rest i next running _ free _ =>
    intro _ j
    have taken := SendId.getElem?_of_allocate? free
    obtain ⟨answered, calls, answers⟩ := h running j
    refine ⟨answered, ?_, by simp [answers]⟩
    by_cases same : i = j
    · subst same
      simp [calls, taken, Frame.call, Frame.sendId, Head.sendId]
    · simp [calls, same, Frame.call, Frame.sendId, Head.sendId, Std.TreeMap.getElem?_insert]
  | @skipsReply f rest i status n running _ head free =>
    exact (h.no_stray running free head peer).elim
  | @answers f rest i status n caller running _ head known =>
    intro _ j
    obtain ⟨answered, calls, answers⟩ := h running j
    by_cases same : i = j
    · subst same
      refine ⟨answered ++ [caller], ?_, ?_⟩
      · simp [calls, known]
      · simp [answers, repliesUnder_reply i _ head]
    · refine ⟨answered, ?_, ?_⟩
      · simp [calls, same, Std.TreeMap.getElem?_erase]
      · simp [answers, repliesUnder_reply j _ head, same]

/-! ## Runs -/

/-- A run of a new client keeps its callers and its ids in order. -/
theorem correlated_of_steps {limit : UInt32} {handles : Nat} {es : List Event} {s : Client}
    {notes : List Note} (steps : Steps step? { limit, handles } es s notes) :
    Waiting s notes ∧ (AnswersOnce notes → Correlated s notes) := by
  induction steps with
  | none => exact ⟨.fresh limit handles, fun _ _ i => ⟨[], by simp [callersUnder], rfl⟩⟩
  | snoc _ step ih =>
    have effect := effect_of_step? step
    exact ⟨ih.1.effect effect, fun peer => (ih.2 peer.of_append).effect peer effect⟩

/-- A reply that is taken answers the outstanding call under its id. -/
theorem Correlated.answers {s s' : Client} {e : Event} {past shown : List Note} {f : Frame}
    {i : SendId} {status : ReplyStatus} {n : UInt32} (h : Correlated s past)
    (effect : s.Effect e s' shown) (peer : AnswersOnce (past ++ shown)) (got : .got f ∈ shown)
    (reply : f.head = .reply i status n) :
    ∃ caller rest, s.result = none ∧ s.outstanding[i]? = some caller ∧
      s' = ({ s with inbound := rest, outstanding := s.outstanding.erase i }.resolve caller
        (.ofReply status f.payload)).1 ∧
      shown = .got f ::
        ({ s with inbound := rest, outstanding := s.outstanding.erase i }.resolve caller
          (.ofReply status f.payload)).2 := by
  have taken := mem_repliesUnder got reply
  cases effect with
  | refuses | accepts | awaits | closesLate | closes | clones | givesUp | arrives | peerEnds
  | peerDeafens =>
    simp [repliesUnder] at taken
  | ticks => simp [tick] at taken
  | releases | picksClose | exhausts | failsToWrite | breaks | ends | retires => simp at taken
  | writes => simp at taken
  | skipsCall _ _ head => simp [repliesUnder_call i [] head] at taken
  | @skipsReply g rest j status' n' running _ head free =>
    obtain rfl : f = g := by simpa using got
    obtain ⟨rfl, rfl, rfl⟩ := by simpa [reply] using head
    exact (h.no_stray running free reply peer).elim
  | @answers g rest j status' n' caller running _ head known =>
    obtain rfl : f = g := by
      have here := repliesUnder_reply i
        ({ s with inbound := rest, outstanding := s.outstanding.erase j }.resolve caller
          (.ofReply status' g.payload)).2 head
      rw [here] at taken
      by_cases same : j = i
      · simpa [same] using taken
      · simp [same] at taken
    obtain ⟨rfl, rfl, rfl⟩ := by simpa [reply] using head
    exact ⟨caller, rest, running, known, rfl, rfl⟩

/-- The reply number `k` under an id is handed to the caller of the call number `k` under it. If
that caller still waits, it sees the value that the reply tells, and nothing else ever; if it gave
up, it sees nothing of it. No other caller sees anything. -/
theorem reply_reaches_its_call {limit : UInt32} {handles : Nat} {es : List Event} {s s' : Client}
    {e : Event} {past shown : List Note} {f : Frame} {i : SendId} {status : ReplyStatus}
    {n : UInt32} (run : ({ limit, handles } : Client).run? es = some (s, past))
    (step : s.step? e = some (s', shown)) (peer : AnswersOnce (past ++ shown))
    (got : .got f ∈ shown) (reply : f.head = .reply i status n) :
    ∃ caller, (callersUnder i past)[(repliesUnder i past).length]? = some caller ∧
      (caller ∈ s.callers → caller ∉ s'.callers ∧
        outcomes caller (past ++ shown) = [.ofReply status f.payload] ∧
        ∀ {β : Type} [Payload β] (format : Format), seen format caller (past ++ shown) =
          [(decode format (.ofReply status f.payload) : Except CallError β)]) ∧
      (caller ∉ s.callers → outcomes caller shown = []) ∧
      ∀ other, other ≠ caller → outcomes other shown = [] := by
  obtain ⟨waiting, correlated⟩ := correlated_of_steps (run?_eq_some_iff.1 run)
  have correlated := correlated peer.of_append
  obtain ⟨caller, rest, running, known, rfl, rfl⟩ :=
    correlated.answers (effect_of_step? step) peer got reply
  obtain ⟨answered, calls, answers⟩ := correlated running i
  have told : ∀ c, outcomes c (.got f ::
      ({ s with inbound := rest, outstanding := s.outstanding.erase i }.resolve caller
        (.ofReply status f.payload)).2) =
      if c ∈ s.callers then List.replicate ([caller].count c) (.ofReply status f.payload)
      else [] :=
    fun c => outcomes_resolveAll _ [caller] _ c
  refine ⟨caller, ?_, ?_, ?_, ?_⟩
  · simp [calls, known, ← answers]
  · intro waits
    have once : outcomes caller (past ++ .got f ::
        ({ s with inbound := rest, outstanding := s.outstanding.erase i }.resolve caller
          (.ofReply status f.payload)).2) = [.ofReply status f.payload] := by
      rw [outcomes_append, told, if_pos waits, waiting.unresolved caller waits]
      simp
    refine ⟨?_, once, ?_⟩
    · simp [mem_callers_resolveAll]
    · intro β _ format
      rw [seen, once, List.map_singleton]
  · intro gone
    rw [told, if_neg gone]
  · intro other ne
    rw [told]
    split
    · simp [List.count_eq_zero.2 (show other ∉ [caller] by simpa using ne)]
    · rfl

/-- Two calls, the first of them given up, and a reply to the second one. -/
theorem second_reply_reaches_second_call : ∃ s past s' shown,
    ({ limit := 100, handles := 1 } : Client).run?
      [.start "" (.ok [7]) none, .start "" (.ok [8]) (some 30), .pick, .pick, .giveUp 0,
        .arrive ((Frame.reply 1 .ok [2]).bytes ++ (Frame.reply 0 .ok [1]).bytes)] =
      some (s, past) ∧
    s.step? .take = some (s', shown) ∧ AnswersOnce (past ++ shown) ∧
    .got (.reply 1 .ok [2]) ∈ shown ∧ 1 ∈ s.callers ∧ (callersUnder 1 past)[0]? = some 1 ∧
    outcomes 1 (past ++ shown) = [.ok [2]] ∧ outcomes 0 shown = [] := by
  have peer : AnswersOnce ([.wrote 0 (.call 0 "" [7]), .wrote 1 (.call 1 "" [8])] ++
      [.got (.reply 1 .ok [2]), .resolved 1 (.ok [2])]) := by
    intro shown early i
    simp only [List.cons_append, List.nil_append, List.prefix_cons_iff, List.prefix_nil] at early
    obtain rfl | ⟨_, rfl, rfl | ⟨_, rfl, rfl | ⟨_, rfl, rfl | ⟨_, rfl, rfl⟩⟩⟩⟩ := early <;>
      by_cases zero : (0 : SendId) = i <;> by_cases one : (1 : SendId) = i <;>
      simp [callersUnder, repliesUnder, Frame.call, Frame.reply, Frame.sendId, Head.sendId, zero,
        one]
  obtain ⟨s, s', run, step, waits⟩ : ∃ s s', ({ limit := 100, handles := 1 } : Client).run?
      [.start "" (.ok [7]) none, .start "" (.ok [8]) (some 30), .pick, .pick, .giveUp 0,
        .arrive ((Frame.reply 1 .ok [2]).bytes ++ (Frame.reply 0 .ok [1]).bytes)] =
      some (s, [.wrote 0 (.call 0 "" [7]), .wrote 1 (.call 1 "" [8])]) ∧
      s.step? .take = some (s', [.got (.reply 1 .ok [2]), .resolved 1 (.ok [2])]) ∧
      1 ∈ s.callers := ⟨_, _, rfl, rfl, by decide⟩
  have got : Note.got (.reply 1 .ok [2]) ∈
      [.got (.reply 1 .ok [2]), Note.resolved 1 (.ok [2])] := by decide
  obtain ⟨caller, call, answered, -, others⟩ := reply_reaches_its_call run step peer got rfl
  obtain rfl : caller = 1 := by
    have second : some 1 = some caller := call
    exact (Option.some.inj second).symm
  exact ⟨s, _, s', _, run, step, peer, got, waits, call, (answered waits).2.1, others 0 (by decide)⟩

end RemoteCall.Client
