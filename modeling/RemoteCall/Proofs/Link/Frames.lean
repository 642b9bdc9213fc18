import Mathlib.Data.List.Count
import Mathlib.Data.List.Perm.Subperm
import RemoteCall.Proofs.Client.Ledger
import RemoteCall.Proofs.Link.Ends

/-!
# The frames of each end

Each end keeps to its part, whatever the other one sends. A client writes calls that fit in frames
(`Client.sends_of_steps`), takes the frames off the bytes that arrived (`Client.takes_of_steps`),
and knows each of its calls that has had no reply (`Client.owed_of_steps`). A server writes replies,
under each id at most as many as there were calls under it (`Server.Answers.count_le`).
-/

namespace RemoteCall

/-! ## The client -/

namespace Client

/-- The bytes that came from the peer. -/
def arrived (es : List Event) : Bytes :=
  es.flatMap fun
    | .arrive bs => bs
    | _ => []

/-- The frames that were taken from the peer. -/
def got (notes : List Note) : List Frame :=
  notes.filterMap fun
    | .got f => some f
    | _ => none

@[simp] theorem arrived_append (es more : List Event) :
    arrived (es ++ more) = arrived es ++ arrived more := by
  simp [arrived]

theorem arrived_arrive (bs : Bytes) : arrived [.arrive bs] = bs := by
  simp [arrived]

@[simp] theorem got_append (notes more : List Note) :
    got (notes ++ more) = got notes ++ got more := by
  simp [got]

@[simp] theorem written_append (notes more : List Note) :
    written (notes ++ more) = written notes ++ written more := by
  simp [written]

@[simp] theorem got_resolveAll (s : Client) (callers : List Nat) (r : Outcome) :
    got (s.resolveAll callers r).2 = [] := by
  simp [got, resolveAll]

@[simp] theorem resolveAll_inbound (s : Client) (callers : List Nat) (r : Outcome) :
    (s.resolveAll callers r).1.inbound = s.inbound :=
  rfl

@[simp] theorem got_cons (f : Frame) (notes : List Note) : got (.got f :: notes) = f :: got notes :=
  rfl

@[simp] theorem written_got (f : Frame) (notes : List Note) :
    written (.got f :: notes) = written notes :=
  rfl

/-- The payload and the method's name fit in a frame. -/
def Fits (limit : UInt32) (method : String) (payload : Bytes) : Prop :=
  payload.length ≤ limit.toNat ∧ (Utf8.encode method).length ≤ 255

/-- The calls in the queue fit in frames, and those that were written are such frames. -/
structure Sends (s : Client) (notes : List Note) : Prop where
  queued : ∀ caller method payload, .call caller method payload ∈ s.commands →
    Fits s.limit method payload
  written : ∀ f ∈ written notes, ∃ i method payload, f = .call i method payload ∧
    Fits s.limit method payload

section
variable {s s' : Client} {e : Event} {es : List Event} {notes more : List Note} {limit : UInt32}
  {handles : Nat}

theorem fits_of_check {method : String} {argument : Except IoError Bytes} {payload : Bytes}
    (h : s.check method argument = .ok payload) : Fits s.limit method payload := by
  unfold check at h
  split at h
  next => cases h
  next =>
    split at h
    next => cases h
    next fits =>
      split at h
      next => cases h
      next =>
        obtain rfl := Except.ok.inj h
        simpa [Fits] using fits

/-- Nothing joins the queue and nothing is written. -/
theorem Sends.still (h : s.Sends notes) (limit : s'.limit = s.limit)
    (commands : s'.commands ⊆ s.commands) (quiet : Client.written more = []) :
    s'.Sends (notes ++ more) where
  queued caller method payload member := by
    rw [limit]
    exact h.queued caller method payload (commands member)
  written := by
    rw [written_append, quiet, List.append_nil, limit]
    exact h.written

theorem Sends.effect (h : s.Sends notes) (effect : s.Effect e s' more)
    (running : s'.result = none) : s'.Sends (notes ++ more) := by
  cases effect with
  | refuses | awaits | closesLate | clones | givesUp | arrives | peerEnds | peerDeafens | skipsCall
  | skipsReply =>
    exact h.still rfl (List.Subset.refl _) rfl
  | ticks => exact h.still rfl (List.Subset.refl _) (by simp [tick])
  | answers => exact h.still rfl (List.Subset.refl _) (by simp)
  | exhausts _ queue =>
    exact h.still rfl (by rw [queue]; exact List.subset_cons_self ..) (by simp)
  | releases =>
    have kept := dropQueue_of_running { s with handles := s.handles - 1 } (by simpa using running)
    rw [kept]
    exact h.still rfl (List.Subset.refl _) rfl
  | picksClose | failsToWrite | breaks | ends | retires => simp at running
  | accepts _ passed =>
    refine ⟨?_, by simpa [Client.written] using h.written⟩
    intro caller method payload member
    rcases List.mem_append.1 member with old | new
    · exact h.queued caller method payload old
    · obtain ⟨rfl, rfl, rfl⟩ := by simpa using new
      exact fits_of_check passed
  | closes =>
    refine ⟨?_, by simpa [Client.written] using h.written⟩
    intro caller method payload member
    exact h.queued caller method payload (by simpa using member)
  | @writes caller method payload rest i next _ queue =>
    refine ⟨?_, ?_⟩
    · intro c m p member
      exact h.queued c m p (by rw [queue]; exact List.mem_cons_of_mem _ member)
    · intro f member
      rw [written_append] at member
      rcases List.mem_append.1 member with old | new
      · exact h.written f old
      · obtain rfl : f = .call i method payload := by simpa [Client.written] using new
        exact ⟨i, method, payload, rfl, h.queued caller method payload (by simp [queue])⟩

theorem sends_of_steps (steps : Steps step? { limit, handles } es s notes)
    (running : s.result = none) : s.Sends notes := by
  induction steps with
  | none =>
    exact ⟨fun _ _ _ member => by simp at member, fun _ member => by simp [written] at member⟩
  | snoc _ step ih =>
    have effect := effect_of_step? step
    exact (ih (effect.running running)).effect effect running

/-- The frames that were taken stand first in the bytes that arrived, and the others were not read
yet. -/
theorem takes_of_steps (steps : Steps step? { limit, handles } es s notes)
    (running : s.result = none) :
    s.limit = limit ∧ Frame.Takes limit (arrived es) (got notes) s.inbound := by
  induction steps with
  | none => exact ⟨rfl, .none _⟩
  | @snoc es s s' e notes more before step ih =>
    have effect := effect_of_step? step
    obtain ⟨rfl, takes⟩ := ih (effect.running running)
    refine ⟨effect.limit_eq, ?_⟩
    rw [arrived_append, got_append]
    -- most events bring no bytes and take no frame
    have still : arrived [e] = [] → got more = [] → s'.inbound = s.inbound →
        Frame.Takes s.limit (arrived es ++ arrived [e]) (got notes ++ got more) s'.inbound := by
      intro none quiet inbound
      rw [none, quiet, inbound, List.append_nil, List.append_nil]
      exact takes
    cases effect with
    | refuses | accepts | awaits | closesLate | closes | clones | givesUp | peerEnds | peerDeafens
    | writes =>
      exact still rfl rfl rfl
    | ticks | exhausts => exact still rfl (by simp [tick]) rfl
    | releases =>
      have kept := dropQueue_of_running { s with handles := s.handles - 1 } (by simpa using running)
      rw [kept] at still ⊢
      exact still rfl rfl rfl
    | picksClose | failsToWrite | breaks | ends | retires => simp at running
    | @arrives bs =>
      have more := takes.append bs
      simpa [arrived, got] using more
    | skipsCall _ item | skipsReply _ item =>
      simpa [arrived, got] using takes.snoc item
    | answers _ item =>
      simpa [arrived] using takes.snoc item

/-! ### Calls without replies -/

theorem length_callersUnder (i : SendId) (notes : List Note) :
    (callersUnder i notes).length = ((written notes).map Frame.sendId).count i := by
  induction notes with
  | nil => rfl
  | cons n notes ih =>
    cases n with
    | wrote c f =>
      by_cases same : f.sendId = i <;> simp_all [written]
    | got | resolved | ended => exact ih

theorem length_repliesUnder_le (i : SendId) (notes : List Note) :
    (repliesUnder i notes).length ≤ ((got notes).map Frame.sendId).count i := by
  induction notes with
  | nil => exact Nat.le_refl 0
  | cons n notes ih =>
    cases n with
    | got f =>
      rw [got_cons, List.map_cons, List.count_cons]
      cases head : f.head with
      | call =>
        rw [repliesUnder_call i notes head]
        exact Nat.le_add_right_of_le ih
      | reply j status n =>
        rw [repliesUnder_reply i notes head]
        have under : f.sendId = j := by rw [Frame.sendId, head]; rfl
        by_cases same : j = i
        · simpa [under, same] using ih
        · simpa [under, same] using ih
    | wrote | resolved | ended => exact ih

/-- While the driver runs, the calls written under an id are no more than the replies that came
under it and the outstanding call. -/
theorem owed_of_steps (steps : Steps step? { limit, handles } es s notes)
    (running : s.result = none) (i : SendId) :
    (callersUnder i notes).length ≤ (repliesUnder i notes).length +
      s.outstanding[i]?.toList.length := by
  induction steps with
  | none => simp
  | @snoc es s s' e notes more _ step ih =>
    have effect := effect_of_step? step
    have before := ih (effect.running running)
    rw [callersUnder_append, repliesUnder_append, List.length_append, List.length_append]
    rcases effect.ids running with ⟨same, unwritten, -⟩ | ⟨caller, written⟩ |
        ⟨f, j, status, n, -, freed, unwritten, taken⟩
    · rw [same, unwritten, List.length_nil]
      omega
    · obtain ⟨f, rfl, free, taken⟩ := written
      rw [taken, Std.TreeMap.getElem?_insert]
      by_cases same : f.sendId = i
      · subst same
        simp only [free] at before
        simpa using before
      · simpa [same] using before
    · rw [freed, unwritten, taken]
      by_cases same : j = i
      · subst same
        have one : s.outstanding[j]?.toList.length ≤ 1 := by cases s.outstanding[j]? <;> simp
        simp only [↓reduceIte, List.length_nil, List.length_singleton, Option.toList_none]
        omega
      · simpa [same] using before

end

end Client

/-! ## The server -/

namespace Server

@[simp] theorem writtenOn_append (c : ConnectionId) (notes more : List Note) :
    writtenOn c (notes ++ more) = writtenOn c notes ++ writtenOn c more := by
  simp [writtenOn]

section
variable {table : MethodTable} {notes : List Note} {conn : Connection}

theorem Call.sendId_of_ofFrame? {f : Frame} {call : Call} (h : ofFrame? f = some call) :
    call.sendId = f.sendId := by
  unfold ofFrame? at h
  split at h
  next head =>
    obtain rfl := Option.some.inj h
    rw [Frame.sendId, head]
    rfl
  next => cases h

/-- Frames that are calls carry the ids of these calls. -/
theorem Call.map_sendId {fs : List Frame} {calls : List Call}
    (h : fs.map ofFrame? = calls.map some) : calls.map Call.sendId = fs.map Frame.sendId := by
  induction fs generalizing calls with
  | nil =>
    obtain rfl : calls = [] := by simpa using h.symm
    rfl
  | cons f fs ih =>
    obtain ⟨call, rest, rfl, first, others⟩ := List.map_eq_cons_iff.1 h.symm
    rw [List.map_cons, List.map_cons, ih others.symm, sendId_of_ofFrame? first.symm]

theorem Call.reply_of_reply? {call : Call} {f : Frame} (h : call.reply? table = some f) :
    ∃ status payload, f = .reply call.sendId status payload := by
  simp only [Call.reply?, Outcome.frame?] at h
  split at h
  next => exact ⟨_, _, (Option.some.inj h).symm⟩
  next => cases h

/-- Each frame that was written is a reply. -/
theorem Answers.replies (h : Answers table notes conn) {f : Frame} (wrote : f ∈ written notes) :
    ∃ i status payload, f = .reply i status payload := by
  obtain ⟨call, reply⟩ := h.exists_call wrote
  exact ⟨call.sendId, call.reply_of_reply? reply⟩

/-- The id of the call with that number, if it began. -/
def idOf? (calls : List Call) (serial : Nat) : Option SendId := calls[serial]?.map Call.sendId

theorem map_idOf?_range (calls : List Call) :
    (List.range calls.length).map (idOf? calls) = (calls.map Call.sendId).map some := by
  apply List.ext_getElem
  · simp
  · intro k _ early
    have known : k < calls.length := by simpa using early
    simp [idOf?, known]

/-- A reply carries the id of its call. -/
theorem map_sendId_answer? {calls : List Call} {k : Nat} {f : Frame}
    (h : answer? table calls k = some f) : k < calls.length ∧ idOf? calls k = some f.sendId := by
  obtain ⟨call, found, reply⟩ := Option.bind_eq_some_iff.1 h
  obtain ⟨status, payload, rfl⟩ := call.reply_of_reply? reply
  refine ⟨(List.getElem?_eq_some_iff.1 found).1, ?_⟩
  rw [idOf?, found]
  rfl

/-- Under no id are there more replies than calls that began. -/
theorem Answers.count_le (h : Answers table notes conn) (i : SendId) :
    ((written notes).map Frame.sendId).count i ≤ ((begun notes).map Call.sendId).count i := by
  obtain ⟨answered, distinct, told⟩ := h.distinct
  have replied : ∀ k ∈ answered, ∃ f, answer? table (begun notes) k = some f := by
    intro k hk
    have member : answer? table (begun notes) k ∈ (written notes).map some := by
      rw [told]
      exact List.mem_map_of_mem hk
    obtain ⟨f, -, answer⟩ := List.mem_map.1 member
    exact ⟨f, answer.symm⟩
  have among : answered ⊆ List.range (begun notes).length := by
    intro k hk
    obtain ⟨f, answer⟩ := replied k hk
    exact List.mem_range.2 (map_sendId_answer? answer).1
  have ids : ((written notes).map Frame.sendId).map some = answered.map (idOf? (begun notes)) := by
    calc ((written notes).map Frame.sendId).map some
        = ((written notes).map some).map (Option.map Frame.sendId) := by simp
      _ = answered.map fun k => (answer? table (begun notes) k).map Frame.sendId := by
        rw [told, List.map_map]
        rfl
      _ = answered.map (idOf? (begun notes)) := by
        apply List.map_congr_left
        intro k hk
        obtain ⟨f, answer⟩ := replied k hk
        rw [answer, (map_sendId_answer? answer).2, Option.map_some]
  have injective : Function.Injective (some : SendId → Option SendId) :=
    fun _ _ same => Option.some.inj same
  obtain ⟨ordered, perm, sublist⟩ := distinct.subperm among
  calc ((written notes).map Frame.sendId).count i
      = (answered.map (idOf? (begun notes))).count (some i) := by
        rw [← ids, List.count_map_of_injective _ _ injective]
    _ = (ordered.map (idOf? (begun notes))).count (some i) := (perm.map _).symm.count_eq _
    _ ≤ ((List.range (begun notes).length).map (idOf? (begun notes))).count (some i) :=
        (sublist.map _).count_le _
    _ = ((begun notes).map Call.sendId).count i := by
        rw [map_idOf?_range, List.count_map_of_injective _ _ injective]

end

end Server

end RemoteCall
