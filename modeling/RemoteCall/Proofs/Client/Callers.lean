import RemoteCall.Proofs.Client.Effects

/-!
# Callers that wait

A caller that waits was started and has seen no outcome, and a number that was not given out yet has
seen none either (`Waiting`). Whatever resolves callers only lets go of those that wait (`LetsGo`).
-/

namespace RemoteCall.Client

/-- The outcomes that the notes tell a caller. -/
def outcomes (caller : Nat) (notes : List Note) : List Outcome :=
  notes.filterMap fun
    | .resolved c r => if c = caller then some r else none
    | _ => none

@[simp] theorem outcomes_nil (caller : Nat) : outcomes caller [] = [] := rfl

@[simp] theorem outcomes_append (caller : Nat) (notes more : List Note) :
    outcomes caller (notes ++ more) = outcomes caller notes ++ outcomes caller more := by
  simp [outcomes]

@[simp] theorem outcomes_got (caller : Nat) (f : Frame) (notes : List Note) :
    outcomes caller (.got f :: notes) = outcomes caller notes := rfl

@[simp] theorem outcomes_ended (caller : Nat) (r : Except CallError Unit) (notes : List Note) :
    outcomes caller (.ended r :: notes) = outcomes caller notes := rfl

@[simp] theorem outcomes_resolved (caller c : Nat) (r : Outcome) (notes : List Note) :
    outcomes caller (.resolved c r :: notes) =
      if c = caller then r :: outcomes caller notes else outcomes caller notes := by
  by_cases h : c = caller <;> simp [outcomes, h]

/-! ## Resolving several callers -/

theorem getElem?_foldl_erase (cs : List Nat) (t : Std.TreeMap Nat Wait) (c : Nat) :
    (cs.foldl (·.erase ·) t)[c]? = if c ∈ cs then none else t[c]? := by
  induction cs generalizing t with
  | nil => simp
  | cons d cs ih =>
    rw [List.foldl_cons, ih, Std.TreeMap.getElem?_erase]
    by_cases same : d = c
    · simp [same]
    · simp [same, Ne.symm same]

theorem getElem?_callers_resolveAll (s : Client) (cs : List Nat) (r : Outcome) (c : Nat) :
    (s.resolveAll cs r).1.callers[c]? = if c ∈ cs then none else s.callers[c]? := by
  simp only [resolveAll, getElem?_foldl_erase, List.mem_filter,
    Std.TreeMap.contains_eq_isSome_getElem?]
  by_cases named : c ∈ cs
  · cases waits : s.callers[c]? <;> simp [named]
  · simp [named]

theorem mem_callers_resolveAll (s : Client) (cs : List Nat) (r : Outcome) (c : Nat) :
    c ∈ (s.resolveAll cs r).1.callers ↔ c ∈ s.callers ∧ c ∉ cs := by
  rw [Std.TreeMap.mem_iff_isSome_getElem?, Std.TreeMap.mem_iff_isSome_getElem?,
    getElem?_callers_resolveAll]
  by_cases named : c ∈ cs <;> simp [named]

theorem outcomes_resolveAll (s : Client) (cs : List Nat) (r : Outcome) (c : Nat) :
    outcomes c (s.resolveAll cs r).2 =
      if c ∈ s.callers then List.replicate (cs.count c) r else [] := by
  simp only [resolveAll]
  induction cs with
  | nil => simp
  | cons d cs ih =>
    rw [List.filter_cons]
    by_cases same : d = c
    · subst same
      by_cases waits : d ∈ s.callers
      · simp [waits, List.replicate_succ] at ih ⊢
        exact ih
      · simp [waits] at ih ⊢
        exact ih
    · by_cases waits : d ∈ s.callers
      · simpa [waits, same, List.count_cons_of_ne same] using ih
      · simpa [waits, List.count_cons_of_ne same] using ih

/-! ## Awaiting a call -/

/-- What the event makes of the wait of the caller `c`. -/
def Wait.after (c now : Nat) (w : Wait) : Event → Wait
  | .await d => if d = c then w.await now else w
  | _ => w

theorem getElem?_callers_await (s : Client) (d c : Nat) :
    (s.await d).callers[c]? = s.callers[c]?.map fun w => w.after c s.now (.await d) := by
  simp only [await, Wait.after, Std.TreeMap.getElem?_modify, Std.LawfulEqCmp.compare_eq_iff_eq]
  by_cases same : d = c <;> simp [same]

/-- Who awaits its call was there before. -/
@[simp] theorem mem_callers_await (s : Client) (d c : Nat) :
    c ∈ (s.await d).callers ↔ c ∈ s.callers := Std.TreeMap.mem_modify

/-! ## Letting callers go -/

/-- From the first client to the second, all that happens to callers is that some of those that wait
see an outcome; the others wait as they did. -/
structure LetsGo (s s' : Client) (notes : List Note) : Prop where
  started : s'.started = s.started
  keeps : ∀ (c : Nat) (w : Wait), s'.callers[c]? = some w → s.callers[c]? = some w
  waits : ∀ c ∈ s'.callers, c ∈ s.callers ∧ outcomes c notes = []
  others : ∀ c, c ∉ s.callers → outcomes c notes = []

theorem LetsGo.same {s s' : Client} (started : s'.started = s.started)
    (callers : s'.callers = s.callers) : LetsGo s s' [] :=
  ⟨started, fun _ _ h => callers ▸ h, fun _ h => ⟨callers ▸ h, rfl⟩, fun _ _ => rfl⟩

theorem LetsGo.resolveAll (s : Client) (cs : List Nat) (r : Outcome) :
    LetsGo s (s.resolveAll cs r).1 (s.resolveAll cs r).2 where
  started := rfl
  keeps c _ h := by
    rw [getElem?_callers_resolveAll] at h
    exact (Option.ite_none_left_eq_some.1 h).2
  waits c h := by
    obtain ⟨waits, other⟩ := (mem_callers_resolveAll s cs r c).1 h
    refine ⟨waits, ?_⟩
    rw [outcomes_resolveAll, if_pos waits, List.count_eq_zero.2 other, List.replicate_zero]
  others c h := by rw [outcomes_resolveAll, if_neg h]

theorem LetsGo.trans {s t u : Client} {notes more : List Note} (first : LetsGo s t notes)
    (second : LetsGo t u more) : LetsGo s u (notes ++ more) where
  started := second.started.trans first.started
  keeps c d h := first.keeps c d (second.keeps c d h)
  waits c h := by
    obtain ⟨then_, quiet⟩ := second.waits c h
    obtain ⟨before, silent⟩ := first.waits c then_
    exact ⟨before, by simp [quiet, silent]⟩
  others c h := by
    have gone : c ∉ t.callers := fun waits => h (first.waits c waits).1
    simp [first.others c h, second.others c gone]

/-- The first client may differ in all but its callers. -/
theorem LetsGo.from {s t u : Client} {notes : List Note} (h : LetsGo t u notes)
    (started : t.started = s.started) (callers : t.callers = s.callers) : LetsGo s u notes where
  started := h.started.trans started
  keeps c d hc := callers ▸ h.keeps c d hc
  waits c hc := callers ▸ h.waits c hc
  others c hc := h.others c (callers ▸ hc)

theorem LetsGo.dropQueue (s : Client) : LetsGo s s.dropQueue.1 s.dropQueue.2 := by
  unfold Client.dropQueue
  split
  · exact (LetsGo.resolveAll { s with commands := [] } s.queued _).from rfl rfl
  · exact .same rfl rfl

theorem LetsGo.finish (s : Client) (r : Except CallError Unit) :
    LetsGo s (s.finish r).1 (s.finish r).2 := by
  have closed := LetsGo.resolveAll { s with result := some r, outstanding := {} }
    s.outstanding.values (.error .channelClosed)
  have all := closed.trans (.dropQueue _)
  exact ⟨all.started, all.keeps, fun c h => by simpa [Client.finish] using all.waits c h,
    fun c h => by simpa [Client.finish] using all.others c h⟩

/-- An event that neither starts a call nor awaits one lets callers go. -/
theorem Effect.letsGo {s s' : Client} {e : Event} {notes : List Note} (h : s.Effect e s' notes)
    (other : ∀ method argument patience, e ≠ .start method argument patience)
    (unasked : ∀ d, e ≠ .await d) : LetsGo s s' notes := by
  cases h with
  | refuses | accepts => exact absurd rfl (other _ _ _)
  | awaits => exact absurd rfl (unasked _)
  | closesLate | closes | clones | arrives | peerEnds | peerDeafens => exact .same rfl rfl
  | releases => exact (LetsGo.dropQueue _).from rfl rfl
  | givesUp caller =>
    refine ⟨rfl, ?_, fun c hc => ⟨?_, rfl⟩, fun _ _ => rfl⟩
    · intro c d h
      rw [Std.TreeMap.getElem?_erase] at h
      exact (Option.ite_none_left_eq_some.1 h).2
    · exact Std.TreeMap.mem_of_mem_erase hc
  | ticks => exact (LetsGo.resolveAll _ _ _).from rfl rfl
  | picksClose | failsToWrite | breaks | ends | retires => exact (LetsGo.finish _ _).from rfl rfl
  | exhausts => exact (LetsGo.resolveAll _ _ _).from rfl rfl
  | writes | skipsCall | skipsReply =>
    exact ⟨rfl, fun _ _ h => h, fun _ hc => ⟨hc, rfl⟩, fun _ _ => rfl⟩
  | @answers f rest i status n caller =>
    have go := LetsGo.resolveAll
      { s with inbound := rest, outstanding := s.outstanding.erase i } [caller]
      (.ofReply status f.payload)
    exact ⟨rfl, go.keeps, go.waits, go.others⟩

/-- The event brings no new callers: those that wait after it did so before, have seen nothing in it
and wait on as they did, but for the one that awaits its call. -/
structure Narrows (e : Event) (s s' : Client) (notes : List Note) : Prop where
  started : s'.started = s.started
  wait : ∀ (c : Nat) (w : Wait), s'.callers[c]? = some w →
    ∃ v, s.callers[c]? = some v ∧ w = v.after c s.now e
  waits : ∀ c ∈ s'.callers, c ∈ s.callers ∧ outcomes c notes = []
  others : ∀ c, c ∉ s.callers → outcomes c notes = []

theorem LetsGo.narrows {s s' : Client} {e : Event} {notes : List Note} (h : LetsGo s s' notes)
    (unasked : ∀ d, e ≠ .await d) : Narrows e s s' notes where
  started := h.started
  wait c w holds := by
    refine ⟨w, h.keeps c w holds, ?_⟩
    cases e with
    | await d => exact absurd rfl (unasked d)
    | _ => rfl
  waits := h.waits
  others := h.others

theorem Narrows.await (s : Client) (d : Nat) : Narrows (.await d) s (s.await d) [] where
  started := rfl
  wait c w holds := by
    obtain ⟨v, before, after⟩ := Option.map_eq_some_iff.1 ((getElem?_callers_await s d c).symm.trans
      holds)
    exact ⟨v, before, after.symm⟩
  waits c h := ⟨(mem_callers_await s d c).1 h, rfl⟩
  others _ _ := rfl

/-- Only the start of a call brings a new caller. -/
theorem Effect.start_or_narrows {s s' : Client} {e : Event} {notes : List Note}
    (h : s.Effect e s' notes) :
    (∃ method argument patience, e = .start method argument patience) ∨
      (∀ method argument patience, e ≠ .start method argument patience) ∧
        Narrows e s s' notes := by
  cases e with
  | start method argument patience => exact .inl ⟨method, argument, patience, rfl⟩
  | await d =>
    cases h
    exact .inr ⟨by simp, .await s d⟩
  | close | clone | release | giveUp | arrive | peerEnds | peerDeafens | tick | pick | take
  | retire => exact .inr ⟨by simp, (h.letsGo (by simp) (by simp)).narrows (by simp)⟩

theorem Effect.started_le {s s' : Client} {e : Event} {notes : List Note}
    (h : s.Effect e s' notes) : s.started ≤ s'.started := by
  rcases h.start_or_narrows with ⟨method, argument, patience, rfl⟩ | ⟨-, go⟩
  · cases h with
    | refuses | accepts => exact Nat.le_succ _
  · exact Nat.le_of_eq go.started.symm

/-! ## Every step -/

/-- Who waits was started and has seen nothing; nor has who was not started. -/
structure Waiting (s : Client) (notes : List Note) : Prop where
  started : ∀ c ∈ s.callers, c < s.started
  unresolved : ∀ c ∈ s.callers, outcomes c notes = []
  unstarted : ∀ c, s.started ≤ c → outcomes c notes = []

theorem Waiting.narrows {s s' : Client} {e : Event} {notes more : List Note} (h : Waiting s notes)
    (go : Narrows e s s' more) : Waiting s' (notes ++ more) where
  started c hc := by
    rw [go.started]
    exact h.started c (go.waits c hc).1
  unresolved c hc := by
    obtain ⟨before, quiet⟩ := go.waits c hc
    simp [h.unresolved c before, quiet]
  unstarted c hc := by
    rw [go.started] at hc
    have out : c ∉ s.callers := fun waits => by
      have := h.started c waits
      omega
    simp [h.unstarted c hc, go.others c out]

theorem Waiting.effect {s s' : Client} {e : Event} {notes more : List Note} (h : Waiting s notes)
    (effect : s.Effect e s' more) : Waiting s' (notes ++ more) := by
  rcases effect.start_or_narrows with ⟨method, argument, patience, rfl⟩ | ⟨-, go⟩
  case inr => exact h.narrows go
  cases effect with
  | refuses held failed =>
    refine ⟨?_, ?_, ?_⟩
    · intro c hc
      exact Nat.lt_succ_of_lt (h.started c hc)
    · intro c hc
      have := h.started c hc
      simp [h.unresolved c hc, Nat.ne_of_gt this]
    · intro c hc
      have later : s.started < c := hc
      simp [h.unstarted c (by omega), Nat.ne_of_lt later]
  | accepts held passed =>
    refine ⟨?_, ?_, ?_⟩
    · intro c hc
      rcases Std.TreeMap.mem_insert.1 hc with new | old
      · obtain rfl : s.started = c := by simpa using new
        exact Nat.lt_succ_self _
      · exact Nat.lt_succ_of_lt (h.started c old)
    · intro c hc
      rcases Std.TreeMap.mem_insert.1 hc with new | old
      · obtain rfl : s.started = c := by simpa using new
        simpa using h.unstarted _ (Nat.le_refl _)
      · simpa using h.unresolved c old
    · intro c hc
      simpa using h.unstarted c (Nat.le_of_succ_le hc)

/-- A client that has just been made, with that limit and so many handles. -/
theorem Waiting.fresh (limit : UInt32) (handles : Nat) : Waiting { limit, handles } [] where
  started c hc := by simp at hc
  unresolved c hc := rfl
  unstarted c hc := rfl

end RemoteCall.Client
