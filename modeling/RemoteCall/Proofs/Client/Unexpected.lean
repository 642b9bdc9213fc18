import RemoteCall.Proofs.Client.Polled
import RemoteCall.Proofs.Client.Requests
import RemoteCall.Proofs.Frame.Woven

/-!
# Frames that mean nothing to a client

A driver takes a call, or a reply that nobody waits for, and goes on. So foreign frames of that kind
between the peer's own change nothing: the client that gets them differs from the one that does not
in the bytes that wait (`Beside`), and both can do the same at any moment, but that the first takes
the foreign frames in between (`Beside.without`, `Beside.along`).
-/

namespace RemoteCall.Client

/-! ## Foreign frames -/

def Note.isGot : Note → Bool
  | .got _ => true
  | _ => false

/-- All that is shown but the frames that are taken. -/
def unread (notes : List Note) : List Note := notes.filter (!·.isGot)

/-- Whenever a foreign reply is taken in the run, no call is outstanding under its id. The frames of
the stream are taken in their order. -/
def Unexpected (items : List (Frame × Bool)) (s : Client) (es : List Event) : Prop :=
  ∀ early later u shown f i status n, es = early ++ .take :: later →
    s.run? early = some (u, shown) → items[(got shown).length]? = some (f, false) →
    f.head = .reply i status n → u.outstanding[i]? = none

/-- What is behind the first frame of the stream's own. -/
def afterOwn (items : List (Frame × Bool)) : List (Frame × Bool) := (items.dropWhile (!·.2)).tail

/-- The foreign frames right before the frame number `k` of the stream's own. -/
def foreignBefore (k : Nat) (items : List (Frame × Bool)) : List Frame :=
  (((afterOwn^[k]) items).takeWhile (!·.2)).map (·.1)

/-- Whenever one of the stream's own frames is taken in the run, or its end, no call is outstanding
under the id of a foreign reply right before. -/
def Harmless (items : List (Frame × Bool)) (s : Client) (es : List Event) : Prop :=
  ∀ early later u shown f i status n, es = early ++ .take :: later →
    s.run? early = some (u, shown) → f ∈ foreignBefore (got shown).length items →
    f.head = .reply i status n → u.outstanding[i]? = none

/-- The second client has got foreign frames, too; `m` are the bytes that wait there, and `more` are
to come. -/
structure Beside (items : List (Frame × Bool)) (m more : Marked) (s t : Client) : Prop where
  eq : t = s.withInbound m.all
  own : s.inbound = m.own
  woven : Woven s.limit items (m ++ more)
  ended : s.peerEnded = true → more = []

/-! ## Lemmas -/

section
variable {s t u : Client} {e : Event} {shown notes : List Note}
  {items items' : List (Frame × Bool)} {es : List Event} {f : Frame}

@[simp] theorem unread_append (notes more : List Note) :
    unread (notes ++ more) = unread notes ++ unread more := List.filter_append ..

@[simp] theorem dropQueue_peerEnded (s : Client) : s.dropQueue.1.peerEnded = s.peerEnded := by
  unfold dropQueue
  split <;> rfl

@[simp] theorem finish_peerEnded (s : Client) (r : Except CallError Unit) :
    (s.finish r).1.peerEnded = s.peerEnded := dropQueue_peerEnded _

theorem Effect.peerEnded_eq (h : s.Effect e u shown) (other : e ≠ .peerEnds) :
    u.peerEnded = s.peerEnded := by
  cases h with
  | peerEnds => exact absurd rfl other
  | ticks | exhausts | answers | awaits => rfl
  | _ => simp

/-- Frames are taken by nothing but a take. -/
theorem Effect.got_eq_nil (h : s.Effect e u shown) (other : e ≠ .take) : got shown = [] := by
  cases h with
  | skipsCall | skipsReply | answers | breaks | ends => exact absurd rfl other
  | ticks | exhausts => exact got_resolveAll ..
  | releases => exact got_dropQueue _
  | picksClose | failsToWrite | retires => exact got_finish _ _
  | refuses | accepts | awaits | closesLate | closes | clones | givesUp | arrives | peerEnds
  | peerDeafens | writes => rfl

theorem handle_of_unexpected
    (unexpected : ∀ i status n, f.head = .reply i status n → s.outstanding[i]? = none) :
    s.handle f = (s, [.got f]) := by
  unfold handle
  split
  next => rfl
  next i status n head => simp [unexpected i status n head]

theorem got_handle (s : Client) (f : Frame) : got (s.handle f).2 = [f] := by
  unfold handle
  split
  next => rfl
  next =>
    split
    next => rfl
    next => simp

theorem Unexpected.step (h : Unexpected items s (e :: es)) (step : s.step? e = some (u, shown)) :
    Unexpected (items.drop (got shown).length) u es := by
  intro early later v past f i status n same run next
  refine h (e :: early) later v (shown ++ past) f i status n (by rw [same]; rfl) ?_ ?_
  · rw [run?_cons early step, run]
    rfl
  · rw [got_append, List.length_append, ← List.getElem?_drop]
    exact next

theorem Unexpected.untaken (h : Unexpected items s (e :: es)) (step : s.step? e = some (u, shown))
    (none : got shown = []) : Unexpected items u es := by
  simpa [none] using h.step step

theorem Harmless.step (h : Harmless items s (e :: es)) (step : s.step? e = some (u, shown))
    (left : ∀ k, foreignBefore k items' ⊆ foreignBefore ((got shown).length + k) items) :
    Harmless items' u es := by
  intro early later v past f i status n same run before
  refine h (e :: early) later v (shown ++ past) f i status n (by rw [same]; rfl) ?_ ?_
  · rw [run?_cons early step, run]
    rfl
  · rw [got_append, List.length_append]
    exact left _ before

theorem Harmless.untaken (h : Harmless items s (e :: es)) (step : s.step? e = some (u, shown))
    (none : got shown = []) : Harmless items u es :=
  h.step step fun k => by
    rw [none, List.length_nil, Nat.zero_add]
    exact List.Subset.refl _

theorem foreignBefore_foreign (k : Nat) (f : Frame) (items : List (Frame × Bool)) :
    foreignBefore k items ⊆ foreignBefore k ((f, false) :: items) := by
  cases k with
  | zero => exact List.subset_cons_self _ _
  | succ k => exact List.Subset.refl _

theorem foreignBefore_own (k : Nat) (f : Frame) (items : List (Frame × Bool)) :
    foreignBefore (1 + k) ((f, true) :: items) = foreignBefore k items := by
  rw [Nat.add_comm]
  rfl

end

/-! ## Each event -/

section
variable {s s' t t' : Client} {e e' : Event} {shown : List Note} {items : List (Frame × Bool)}
  {m more : Marked}

/-- All but the bytes is the same. -/
theorem Beside.result_eq (h : Beside items m more s t) : t.result = s.result := by
  rw [h.eq]
  rfl

/-- What an event makes of both, if it takes no frame: they are beside each other and show the
same. -/
def Pair (items : List (Frame × Bool)) (m more : Marked) (p q : Client × List Note) : Prop :=
  Beside items m more p.1 q.1 ∧ p.2 = q.2 ∧ got p.2 = []

/-- If the first one can answer, so can the second. -/
theorem Pair.second (step : s.step? e = some (s', shown))
    (both : Option.Rel (Pair items m more) (s.step? e) (t.step? e')) :
    ∃ t', t.step? e' = some (t', shown) ∧ Beside items m more s' t' ∧ got shown = [] := by
  rw [step] at both
  obtain ⟨⟨t', told⟩, second, beside, same, none⟩ := exists_of_rel both
  cases same
  exact ⟨t', second, beside, none⟩

/-- If the second one can answer, so can the first. -/
theorem Pair.first (step : t.step? e' = some (t', shown))
    (both : Option.Rel (Pair items m more) (s.step? e) (t.step? e')) :
    ∃ s', s.step? e = some (s', shown) ∧ Beside items m more s' t' ∧ got shown = [] := by
  rw [step] at both
  obtain ⟨⟨s', told⟩, first, beside, same, none⟩ := exists_of_rel_right both
  cases same
  exact ⟨s', first, beside, none⟩

/-- Events that leave the bytes alone are the same for both. -/
theorem Beside.elsewhere (h : Beside items m more s t) (elsewhere : e.Elsewhere)
    (last : e = .peerEnds → more = []) :
    Option.Rel (Pair items m more) (s.step? e) (t.step? e) := by
  have same := s.withInbound_step? m.all elsewhere
  rw [← h.eq] at same
  cases step : s.step? e with
  | none =>
    rw [same, step]
    exact .none
  | some answer =>
    obtain ⟨s', notes⟩ := answer
    rw [same, step]
    have effect := effect_of_step? step
    have other : e ≠ .take := by
      rintro rfl
      exact elsewhere
    refine .some ⟨⟨rfl, ?_, ?_, ?_⟩, rfl, effect.got_eq_nil other⟩
    · rw [inbound_of_step? elsewhere step, h.own]
    · rw [effect.limit_eq]
      exact h.woven
    · by_cases is : e = .peerEnds
      · exact fun _ => last is
      · rw [effect.peerEnded_eq is]
        exact h.ended

/-- Bytes arrive, the foreign ones only at the second client. -/
theorem Beside.arrive {n : Marked} (h : Beside items m (n ++ more) s t) :
    Option.Rel (Pair items (m ++ n) more) (s.step? (.arrive n.own))
      (t.step? (.arrive n.all)) := by
  have halted : t.isOver = s.isOver := by rw [h.eq]; rfl
  have ended : t.peerEnded = s.peerEnded := by rw [h.eq]; rfl
  simp only [step?, halted, ended]
  split
  next => exact .none
  next runs =>
    refine .some ⟨⟨?_, ?_, ?_, ?_⟩, rfl, rfl⟩
    · simp [h.eq, withInbound]
    · simp [h.own]
    · simpa using h.woven
    · intro last
      have sends : s.peerEnded = true := last
      simp [sends] at runs

/-- What a take is for both, while the driver runs. -/
inductive Takes (items : List (Frame × Bool)) (m more : Marked) (s t : Client) : Prop
  /-- The second client has a foreign frame before it. -/
  | foreign {f : Frame} {later : List (Frame × Bool)} {m' : Marked} : items = (f, false) :: later →
    t.take? = some ((s.withInbound m'.all).handle f) → m'.length < m.length →
    Beside later m' more s (s.withInbound m'.all) → Takes items m more s t
  | own {f : Frame} {later : List (Frame × Bool)} {m' : Marked} : items = (f, true) :: later →
    s.take? = some ((s.withInbound m'.own).handle f) →
    t.take? = some ((s.withInbound m'.all).handle f) → Woven s.limit later (m' ++ more) →
    Takes items m more s t
  | neither : s.take? = none → t.take? = none → Takes items m more s t
  | rest {bs cs : Bytes} : items = [] → m = .mark true bs → more = .mark true cs → t = s →
    Takes items m more s t

theorem Beside.takes (h : Beside items m more s t) : Takes items m more s t := by
  have limit : t.limit = s.limit := by rw [h.eq]; rfl
  have inbound : t.inbound = m.all := by rw [h.eq]; rfl
  have ended : t.peerEnded = s.peerEnded := by rw [h.eq]; rfl
  have woven := h.woven
  cases woven.front with
  | @foreign f later _ m' _ read own shorter woven' =>
    refine .foreign rfl ?_ shorter ⟨rfl, h.own.trans own.symm, woven', h.ended⟩
    simp only [take?, limit, inbound, read]
    rw [h.eq]
    rfl
  | @own f later _ m' _ read read' woven' =>
    refine .own rfl ?_ ?_ woven'
    · simp only [take?, h.own, read']
      rfl
    · simp only [take?, limit, inbound, read]
      rw [h.eq]
      rfl
  | part read read' missing =>
    have sends : s.peerEnded = false := Bool.eq_false_iff.2 fun last => missing (h.ended last)
    exact .neither (by simp [take?, h.own, read', sends])
      (by simp [take?, limit, inbound, ended, read, sends])
  | @rest bs cs =>
    refine .rest rfl rfl rfl ?_
    rw [h.eq, Marked.all_mark, ← Marked.own_mark_true bs, ← h.own, withInbound_self]

/-- A frame of the stream's own does the same to both. -/
theorem Beside.of_handle {f : Frame} (h : Beside items m more s t) {later : List (Frame × Bool)}
    {m' : Marked} (woven : Woven s.limit later (m' ++ more)) (running : s.result = none)
    (step : s.take? = some ((s.withInbound m'.own).handle f)) :
    Beside later m' more ((s.withInbound m'.own).handle f).1
      ((s.withInbound m'.all).handle f).1 := by
  have effect := effect_of_take? running (step.trans rfl)
  refine ⟨?_, ?_, effect.limit_eq ▸ woven, fun last => h.ended ?_⟩
  · rw [withInbound_handle, withInbound_handle]
    rfl
  · rw [withInbound_handle]
    rfl
  · exact (effect.peerEnded_eq nofun).symm.trans last

theorem notes_handle (f : Frame) (bs : Bytes) :
    ((s.withInbound bs).handle f).2 = (s.handle f).2 := by
  rw [withInbound_handle]
  rfl

/-- Own bytes alone are the same for both, whatever a take makes of them. -/
theorem Beside.of_rest {bs cs : Bytes} (h : Beside [] (.mark true bs) (.mark true cs) s s)
    (running : s.result = none) (step : s.take? = some (s', shown)) :
    ∃ bs', Beside [] (.mark true bs') (.mark true cs) s' s' := by
  have effect := effect_of_take? running step
  refine ⟨s'.inbound, ?_, by simp, ?_, fun last => h.ended ?_⟩
  · rw [Marked.all_mark, withInbound_self]
  · rw [← Marked.mark_append]
    exact .rest _
  · exact (effect.peerEnded_eq nofun).symm.trans last

/-- If the second client cannot move, no more can the first. -/
theorem Beside.settled (h : Beside items m more s t) (settled : t.Settled) : s.Settled := by
  intro e move
  have stuck := settled e move
  have elsewhere : e.Elsewhere → s.step? e = none := by
    intro elsewhere
    have other : e ≠ .peerEnds := by
      rintro rfl
      simp [moves] at move
    exact (none_iff_of_rel (h.elsewhere elsewhere fun is => absurd is other)).1 stuck
  cases e with
  | take =>
    have halted : t.isOver = s.isOver := by rw [h.eq]; rfl
    simp only [step?, halted] at stuck ⊢
    split
    next => rfl
    next running =>
      rw [if_neg running] at stuck
      cases h.takes with
      | foreign _ step | own _ _ step => simp [step] at stuck
      | neither none => exact none
      | rest _ _ _ same => rw [← same]; exact stuck
  | arrive => simp [moves] at move
  | _ => exact elsewhere trivial

end

/-! ## Runs -/

section
variable {s s' t t' : Client} {e : Event} {es fs : List Event} {shown notes told : List Note}
  {f : Frame} {items : List (Frame × Bool)} {m more : Marked}

theorem elsewhere_of_ne (arrive : ∀ bs, e ≠ .arrive bs) (take : e ≠ .take) :
    e.Elsewhere := by
  cases e with
  | arrive bs => exact arrive bs rfl
  | take => exact take rfl
  | _ => trivial

theorem take?_of_step? {s s' : Client} (step : s.step? .take = some (s', shown)) :
    s.result = none ∧ s.take? = some (s', shown) := by
  simp only [step?] at step
  split at step
  next => cases step
  next running => exact ⟨(isOver_eq_false_iff s).1 (by simpa using running), step⟩

theorem step?_take (running : s.result = none) : s.step? .take = s.take? := by
  simp [step?, isOver, running]

/-- The first client comes beside `t'` with the events `es`, or all of them but some takes. -/
def Without (s : Client) (es : List Event) (told : List Note) (t' : Client) : Prop :=
  ∃ gs s' notes items' m' more', Fewer (·.isTake) gs es ∧ s.run? gs = some (s', notes) ∧
    unread notes = unread told ∧ Beside items' m' more' s' t'

/-- A step of both. -/
theorem Without.cons (step : s.step? e = some (s', shown)) (h : Without s' es told t') :
    Without s (e :: es) (shown ++ told) t' := by
  obtain ⟨gs, s'', notes, items', m', more', fewer, run, unread, beside⟩ := h
  refine ⟨e :: gs, s'', shown ++ notes, items', m', more', fewer.cons e, ?_, ?_, beside⟩
  · rw [run?_cons gs step, run]
    rfl
  · simp [unread]

/-- A step of the second one alone. -/
theorem Without.skip (h : Without s es told t') : Without s (.take :: es) (.got f :: told) t' := by
  obtain ⟨gs, s', notes, items', m', more', fewer, run, unread, beside⟩ := h
  exact ⟨gs, s', notes, items', m', more', fewer.skip rfl, run, unread, beside⟩

/-- What the client does that gets foreign frames, the other one does as well, but for the takes of
those frames. -/
theorem Beside.without (h : Beside items m more s t) (padded : Padded .arrive .peerEnds more es fs)
    (unexpected : Unexpected items t fs) (run : t.run? fs = some (t', told)) :
    Without s es told t' := by
  induction padded generalizing items m s t told with
  | none =>
    obtain ⟨rfl, rfl⟩ := by simpa [run?] using run
    exact ⟨[], s, [], items, m, _, .refl _ [], rfl, rfl, h⟩
  | bytes _ ih =>
    obtain ⟨u, shown, later, step, rest, rfl⟩ := exists_of_run?_cons run
    obtain ⟨s₁, first, beside, none⟩ := Pair.first step h.arrive
    exact (ih beside (unexpected.untaken step none) rest).cons first
  | ends _ ih =>
    obtain ⟨u, shown, later, step, rest, rfl⟩ := exists_of_run?_cons run
    obtain ⟨s₁, first, beside, none⟩ := Pair.first step (h.elsewhere trivial fun _ => rfl)
    exact (ih beside (unexpected.untaken step none) rest).cons first
  | @other more e es fs arrive last _ ih =>
    obtain ⟨u, shown, later, step, rest, rfl⟩ := exists_of_run?_cons run
    by_cases takes : e = .take
    · subst takes
      obtain ⟨running', take⟩ := take?_of_step? step
      have running : s.result = none := h.result_eq ▸ running'
      have left := unexpected.step step
      cases h.takes with
      | @foreign f items m' front take' _ beside =>
        subst front
        obtain ⟨rfl, rfl⟩ : u = s.withInbound m'.all ∧ shown = [.got f] := by
          have idle : ∀ i status n, f.head = .reply i status n →
              (s.withInbound m'.all).outstanding[i]? = none := by
            intro i status n head
            have none := unexpected [] fs t [] f i status n rfl rfl rfl head
            rwa [h.eq] at none
          rw [handle_of_unexpected idle, take] at take'
          simpa using take'
        exact (ih beside left rest).skip
      | @own f items m' front take₁ take₂ woven =>
        subst front
        have same : (u, shown) = (s.withInbound m'.all).handle f :=
          Option.some.inj (take.symm.trans take₂)
        have beside := h.of_handle woven running take₁
        have notes : ((s.withInbound m'.own).handle f).2 = shown := by
          rw [notes_handle, ← notes_handle f m'.all, ← same]
        rw [← same] at beside
        have one : got shown = [f] := by rw [← notes, got_handle]
        refine (ih beside (by simpa [one] using left) rest).cons ?_
        rw [step?_take running, take₁, ← notes]
      | neither _ none => simp [none] at take
      | @rest bs cs none here coming same =>
        subst none here coming same
        obtain ⟨bs', beside⟩ := h.of_rest running take
        exact (ih beside (by simpa using left) rest).cons step
    · have both := h.elsewhere (elsewhere_of_ne arrive takes) fun is => absurd is last
      obtain ⟨s₁, first, beside, none⟩ := Pair.first step both
      exact (ih beside (unexpected.untaken step none) rest).cons first

/-- The second client comes beside `s'` with the events `fs`, and some takes in between. -/
def Along (t : Client) (fs : List Event) (notes : List Note) (s' : Client) : Prop :=
  ∃ gs t' told items' m' more', Fewer (·.isTake) fs gs ∧ t.run? gs = some (t', told) ∧
    unread told = unread notes ∧ Beside items' m' more' s' t'

/-- A step of both. -/
theorem Along.cons (step : t.step? e = some (t', shown)) (h : Along t' fs notes s') :
    Along t (e :: fs) (shown ++ notes) s' := by
  obtain ⟨gs, t'', told, items', m', more', fewer, run, unread, beside⟩ := h
  refine ⟨e :: gs, t'', shown ++ told, items', m', more', fewer.cons e, ?_, ?_, beside⟩
  · rw [run?_cons gs step, run]
    rfl
  · simp [unread]

/-- A step of the second one alone. -/
theorem Along.skip (step : t.step? .take = some (t', [.got f])) (h : Along t' fs notes s') :
    Along t fs notes s' := by
  obtain ⟨gs, t'', told, items', m', more', fewer, run, unread, beside⟩ := h
  refine ⟨.take :: gs, t'', .got f :: told, items', m', more', fewer.skip rfl, ?_, unread, beside⟩
  rw [run?_cons gs step, run]
  rfl

@[simp] theorem foreignBefore_nil (k : Nat) : foreignBefore k [] = [] := by
  rw [foreignBefore, Function.iterate_fixed rfl]
  rfl

/-- Before the second client takes what the first one takes, it takes the foreign frames that stand
there. -/
theorem Beside.take_along (h : Beside items m more s t) (running : s.result = none)
    (take : s.take? = some (s', shown))
    (idle : ∀ f ∈ foreignBefore 0 items, ∀ i status n, f.head = .reply i status n →
      s.outstanding[i]? = none) :
    ∃ items' m' t', Beside items' m' more s' t' ∧
      (∀ k, foreignBefore k items' ⊆ foreignBefore ((got shown).length + k) items) ∧
      ∀ es notes s'', Along t' es notes s'' → Along t (.take :: es) (shown ++ notes) s'' := by
  induction items generalizing m t with
  | nil =>
    cases h.takes with
    | foreign none | own none => cases none
    | neither none => simp [none] at take
    | rest _ here coming same =>
      subst here coming same
      obtain ⟨bs, beside⟩ := h.of_rest running take
      exact ⟨[], _, s', beside, by simp, fun _ _ _ => .cons (by rw [step?_take running, take])⟩
  | cons item items ih =>
    have running' : t.result = none := h.result_eq.trans running
    cases h.takes with
    | @foreign f _ m' front take' _ beside =>
      cases front
      have skips : t.step? .take = some (s.withInbound m'.all, [.got f]) := by
        rw [step?_take running', take', handle_of_unexpected]
        exact idle f List.mem_cons_self
      obtain ⟨items', m'', t', beside', left, follows⟩ :=
        ih beside fun g other => idle g (foreignBefore_foreign 0 f items other)
      refine ⟨items', m'', t', beside', fun k => ?_, fun es notes s'' h => ?_⟩
      · exact List.Subset.trans (left k) (foreignBefore_foreign _ f items)
      · exact .skip skips (follows es notes s'' h)
    | @own f _ m' front take₁ take₂ woven =>
      cases front
      have same : (s', shown) = (s.withInbound m'.own).handle f :=
        Option.some.inj (take.symm.trans take₁)
      have beside := h.of_handle woven running take₁
      rw [← same] at beside
      have notes : ((s.withInbound m'.all).handle f).2 = shown := by
        rw [notes_handle, ← notes_handle f m'.own, ← same]
      have one : got shown = [f] := by rw [← notes, got_handle]
      refine ⟨items, m', _, beside, fun k => ?_, fun _ _ _ => .cons ?_⟩
      · rw [one, List.length_singleton, foreignBefore_own]
        exact List.Subset.refl _
      · rw [step?_take running', take₂, ← notes]
    | neither none => simp [none] at take
    | rest none => cases none

/-- What the client does that gets the peer's own frames alone, the other one can do as well; it
takes the foreign frames in between. -/
theorem Beside.along (h : Beside items m more s t) (padded : Padded .arrive .peerEnds more es fs)
    (harmless : Harmless items s es) (run : s.run? es = some (s', notes)) :
    Along t fs notes s' := by
  induction padded generalizing items m s t notes with
  | none =>
    obtain ⟨rfl, rfl⟩ := by simpa [run?] using run
    exact ⟨[], t, [], items, m, _, .refl _ [], rfl, rfl, h⟩
  | bytes _ ih =>
    obtain ⟨u, shown, later, step, rest, rfl⟩ := exists_of_run?_cons run
    obtain ⟨t₁, second, beside, none⟩ := Pair.second step h.arrive
    exact (ih beside (harmless.untaken step none) rest).cons second
  | ends _ ih =>
    obtain ⟨u, shown, later, step, rest, rfl⟩ := exists_of_run?_cons run
    obtain ⟨t₁, second, beside, none⟩ := Pair.second step (h.elsewhere trivial fun _ => rfl)
    exact (ih beside (harmless.untaken step none) rest).cons second
  | @other more e es fs arrive last _ ih =>
    obtain ⟨u, shown, later, step, rest, rfl⟩ := exists_of_run?_cons run
    by_cases takes : e = .take
    · subst takes
      obtain ⟨running, take⟩ := take?_of_step? step
      have idle : ∀ f ∈ foreignBefore 0 items, ∀ i status n, f.head = .reply i status n →
          s.outstanding[i]? = none :=
        fun f before i status n => harmless [] es s [] f i status n rfl rfl before
      obtain ⟨items', m', t₁, beside, left, first⟩ := h.take_along running take idle
      exact first _ _ _ (ih beside (harmless.step step left) rest)
    · have both := h.elsewhere (elsewhere_of_ne arrive takes) fun is => absurd is last
      obtain ⟨t₁, second, beside, none⟩ := Pair.second step both
      exact (ih beside (harmless.untaken step none) rest).cons second

end

end RemoteCall.Client
