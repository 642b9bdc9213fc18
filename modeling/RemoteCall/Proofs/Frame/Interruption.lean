import RemoteCall.Proofs.Frame.Consumption

/-!
# A read that fails

A source that fails one read, and goes on behind it, is compared to a source that ends at that
place (`Interrupted`). Up to there both answer alike; then the one ends, between two items or inside
one, and the other fails. What the failing entry has read is lost, and the entries that follow are
those of the bytes behind:

    Interrupted e behind s t → ∃ front final, Frame.entries limit t.rest = front ++ final ∧
      s.Reads limit (front ++ .failed (.io e) :: Frame.entries limit behind)   (Interrupted.reads)

Failing or not, no read takes a byte without counting it (`next_position`).
-/

namespace RemoteCall

/-- The entry tells something that stands in the bytes, not their end. -/
def Entry.GoesOn (x : Entry) : Prop := (∃ f, x = .frame f) ∨ x = .failed .invalidFrame

/-- How the entries of a source that does not fail end. -/
def Entry.Final (es : List Entry) : Prop :=
  es = [.ended] ∨ es = [.failed (.io .unexpectedEof), .ended]

namespace Source

/-! ## Where a reader stands -/

section
variable (s : Source)

/-- The place at which the bytes end. -/
def finish : Nat := s.position + s.rest.length

theorem read_finish (n : Nat) : (s.read n).2.finish = s.finish := by
  unfold read
  split
  · rfl
  · dsimp only
    split
    · rfl
    · have size := List.length_take_le' (s.bound n) s.rest
      simp only [finish, List.length_drop]
      omega

/-- More bytes are wanted, and there is one read for them. -/
theorem fill_succ (fuel n : Nat) (acc : Bytes) :
    fill (fuel + 1) (n + 1) acc s =
      match s.read (n + 1) with
      | (.failed e, s) => (.error e, s)
      | (.ended, s) => (.error .unexpectedEof, s)
      | (.bytes bs, s) => fill fuel (n + 1 - bs.length) (bs.reverse ++ acc) s :=
  rfl

theorem fill_finish (fuel n : Nat) (acc : Bytes) : (fill fuel n acc s).2.finish = s.finish := by
  induction fuel generalizing n acc s with
  | zero => cases n <;> rfl
  | succ fuel ih =>
    cases n with
    | zero => rfl
    | succ n =>
      have kept := s.read_finish (n + 1)
      rw [fill_succ]
      generalize s.read (n + 1) = answer at kept
      obtain ⟨got, s'⟩ := answer
      cases got with
      | failed => exact kept
      | ended => exact kept
      | bytes bs => exact (ih s' _ _).trans kept

theorem readExact_finish (n : Nat) : (s.readExact n).2.finish = s.finish := s.fill_finish n n []

theorem nextPayload_finish (limit : UInt32) (h : Head) :
    (nextPayload limit h s).2.finish = s.finish := by
  unfold nextPayload
  split
  · rfl
  · have kept := s.readExact_finish h.payloadLen.toNat
    generalize s.readExact h.payloadLen.toNat = answer at kept
    obtain ⟨_ | payload, s'⟩ := answer <;> exact kept

theorem nextHead_finish (limit : UInt32) (w : Bytes) :
    (nextHead limit w s).2.finish = s.finish := by
  unfold nextHead
  cases Announced.ofWord w with
  | unknown => rfl
  | reply i st n => exact s.nextPayload_finish limit _
  | call i m n =>
    have kept := s.readExact_finish m
    dsimp only
    generalize s.readExact m = answer at kept
    obtain ⟨_ | name, s'⟩ := answer
    · exact kept
    · dsimp only
      cases Utf8.decode name with
      | error => exact kept
      | ok => exact (s'.nextPayload_finish limit _).trans kept

theorem next_finish (limit : UInt32) : (s.next limit).2.finish = s.finish := by
  have first := s.read_finish 1
  unfold next
  generalize s.read 1 = answer at first
  obtain ⟨got, s'⟩ := answer
  cases got with
  | failed => exact first
  | ended => exact first
  | bytes bs =>
    have more := (s'.readExact_finish 7).trans first
    dsimp only
    generalize s'.readExact 7 = answer at more
    obtain ⟨_ | others, s''⟩ := answer
    · exact more
    · exact (s''.nextHead_finish limit _).trans more

/-- The source once `k` entries were read. -/
def after (limit : UInt32) : Nat → Source → Source
  | 0, s => s
  | k + 1, s => after limit k (s.next limit).2

theorem after_finish (limit : UInt32) (k : Nat) : (s.after limit k).finish = s.finish := by
  induction k generalizing s with
  | zero => rfl
  | succ k ih => exact (ih (s.next limit).2).trans (s.next_finish limit)

end

section
variable {limit : UInt32} {s : Source}

/-- The entries that were read have taken their parts, the others are still to come. -/
theorem after_rest {pieces : List (Bytes × Entry)} (steady : s.failAt = none)
    (consumes : Consumes limit s.rest pieces) (k : Nat) :
    (s.after limit k).rest = (pieces.drop k).flatMap Prod.fst := by
  induction k generalizing s pieces with
  | zero => exact consumes.flatMap_eq.symm
  | succ k ih =>
    by_cases empty : s.rest = []
    · obtain ⟨s', ended, rest, steady'⟩ := next_of_nil limit steady empty
      have none : pieces = [] := by
        rw [empty] at consumes
        exact consumes.eq_nil
      have none_ : Consumes limit s'.rest [] := rest ▸ .ended
      rw [after, ended, ih steady' none_, none]
      simp
    · obtain ⟨s', entry, rest, steady'⟩ := next_gives limit steady empty
      have others : Consumes limit s'.rest pieces.tail := rest ▸ consumes.tail empty
      rw [after, entry, ih steady' others, List.drop_tail]

theorem after_position {pieces : List (Bytes × Entry)} (steady : s.failAt = none)
    (consumes : Consumes limit s.rest pieces) (k : Nat) :
    (s.after limit k).position = s.position + ((pieces.take k).flatMap Prod.fst).length := by
  have kept := s.after_finish limit k
  have all := consumes.flatMap_eq
  rw [← List.take_append_drop k pieces, List.flatMap_append] at all
  rw [finish, finish, after_rest steady consumes, ← all, List.length_append] at kept
  omega

end

/-! ## Failing and ending -/

/-- `s` fails where `t` ends: both have the same bytes before that place, and `behind` comes after
it. -/
structure Interrupted (e : IoError) (behind : Bytes) (s t : Source) : Prop where
  rest : s.rest = t.rest ++ behind
  failAt : s.failAt = some (s.position + t.rest.length)
  steady : t.failAt = none
  chunks : s.chunks = t.chunks
  turn : s.turn = t.turn
  failure : s.failure = e

/-- Both readers have the same answer and go on, or the one has come to its end and the other has
failed. -/
inductive Together {α : Type} (e : IoError) (behind : Bytes) (goes ends : α → Prop) (failed : α) :
    α × Source → α × Source → Prop
  | same {a : α} {s t : Source} : goes a → Interrupted e behind s t →
    Together e behind goes ends failed (a, s) (a, t)
  | parted {a : α} {s t : Source} : ends a → s.rest = behind → s.failAt = none →
    Together e behind goes ends failed (failed, s) (a, t)

section
variable {limit : UInt32} {e : IoError} {behind : Bytes} {s t : Source}

/-- No read goes beyond the place. -/
theorem Interrupted.bound_eq (h : Interrupted e behind s t) (some : t.rest ≠ []) (n : Nat) :
    s.bound n = min (t.bound n) t.rest.length := by
  have pos := List.length_pos_iff.2 some
  have before : s.position < s.position + t.rest.length := by omega
  simp only [bound, h.failAt, h.steady, h.chunks, h.turn, if_pos before, Nat.add_sub_cancel_left]

theorem Interrupted.read (h : Interrupted e behind s t) {n : Nat} (pos : 0 < n) :
    Together e behind (fun a => ∃ bs, a = .bytes bs) (· = .ended) (.failed e) (s.read n)
      (t.read n) := by
  have quiet : t.failAt ≠ some t.position := by simp [h.steady]
  by_cases empty : t.rest = []
  · have here : s.failAt = some s.position := by simp [h.failAt, empty]
    have nothing : (t.rest.take (t.bound n)).isEmpty = true := by simp [empty]
    unfold Source.read
    simp only [if_pos here, if_neg quiet, nothing, if_true, h.failure]
    exact .parted rfl (by simp [h.rest, empty]) rfl
  · have before : s.failAt ≠ some s.position := by
      have := List.length_pos_iff.2 empty
      simp only [h.failAt, ne_eq, Option.some.injEq]
      omega
    have got : s.rest.take (s.bound n) = t.rest.take (t.bound n) := by
      rw [h.bound_eq empty, h.rest, List.take_append_of_le_length (Nat.min_le_right ..),
        ← List.take_take, List.take_length]
    have taken : ¬ (t.rest.take (t.bound n)).isEmpty = true := by
      have := (bound_pos_le h.steady pos).1
      simp only [List.isEmpty_iff, List.take_eq_nil_iff, not_or]
      exact ⟨by omega, empty⟩
    unfold Source.read
    simp only [if_neg before, if_neg quiet, got, if_neg taken]
    have size := List.length_take_le' (t.bound n) t.rest
    refine .same ⟨_, rfl⟩ ⟨?_, ?_, h.steady, h.chunks, by simp [h.turn], h.failure⟩
    · rw [h.rest, List.drop_append_of_le_length size]
    · simp only [h.failAt, List.length_drop, Option.some.injEq]
      omega

theorem Interrupted.fill (h : Interrupted e behind s t) (fuel n : Nat) (acc : Bytes) :
    Together e behind (fun a => ∃ bs, a = .ok bs) (· = .error .unexpectedEof) (.error e)
      (Source.fill fuel n acc s) (Source.fill fuel n acc t) := by
  induction fuel generalizing n acc s t with
  | zero => cases n <;> exact .same ⟨_, rfl⟩ h
  | succ fuel ih =>
    cases n with
    | zero => exact .same ⟨_, rfl⟩ h
    | succ n =>
      have first := h.read (Nat.succ_pos n)
      rw [fill_succ, fill_succ]
      generalize s.read (n + 1) = x at first
      generalize t.read (n + 1) = y at first
      cases first with
      | parted ended rest steady =>
        subst ended
        exact .parted rfl rest steady
      | same goes still =>
        obtain ⟨bs, rfl⟩ := goes
        exact ih still _ _

theorem Interrupted.readExact (h : Interrupted e behind s t) (n : Nat) :
    Together e behind (fun a => ∃ bs, a = .ok bs) (· = .error .unexpectedEof) (.error e)
      (s.readExact n) (t.readExact n) :=
  h.fill n n []

/-- An entry of both, told at the same place. -/
abbrev Interrupted.Tells (e : IoError) (behind : Bytes) :
    Entry × Source → Entry × Source → Prop :=
  Together e behind Entry.GoesOn (· = .failed (.io .unexpectedEof)) (.failed (.io e))

theorem Interrupted.nextPayload (h : Interrupted e behind s t) (head : Head) :
    Interrupted.Tells e behind (Source.nextPayload limit head s)
      (Source.nextPayload limit head t) := by
  unfold Source.nextPayload
  split
  · exact .same (.inr rfl) h
  · have payload := h.readExact head.payloadLen.toNat
    generalize s.readExact head.payloadLen.toNat = x at payload
    generalize t.readExact head.payloadLen.toNat = y at payload
    cases payload with
    | parted ended rest steady =>
      subst ended
      exact .parted rfl rest steady
    | same goes still =>
      obtain ⟨bs, rfl⟩ := goes
      exact .same (.inl ⟨_, rfl⟩) still

theorem Interrupted.nextHead (h : Interrupted e behind s t) (limit : UInt32) (w : Bytes) :
    Interrupted.Tells e behind (Source.nextHead limit w s) (Source.nextHead limit w t) := by
  unfold Source.nextHead
  cases Announced.ofWord w with
  | unknown => exact .same (.inr rfl) h
  | reply i st n => exact h.nextPayload _
  | call i m n =>
    have method := h.readExact m
    dsimp only
    generalize s.readExact m = x at method
    generalize t.readExact m = y at method
    cases method with
    | parted ended rest steady =>
      subst ended
      exact .parted rfl rest steady
    | same goes still =>
      obtain ⟨name, rfl⟩ := goes
      dsimp only
      cases Utf8.decode name with
      | error => exact .same (.inr rfl) still
      | ok => exact still.nextPayload _

/-- The next entry is the same, or both have come to the place: between two items the one ends
cleanly, inside an item it does not. -/
theorem Interrupted.next (h : Interrupted e behind s t) (limit : UInt32) :
    Together e behind Entry.GoesOn (fun x => x = .ended ∨ x = .failed (.io .unexpectedEof))
      (.failed (.io e)) (s.next limit) (t.next limit) := by
  have first := h.read Nat.one_pos
  unfold Source.next
  generalize s.read 1 = x at first
  generalize t.read 1 = y at first
  cases first with
  | parted ended rest steady =>
    subst ended
    exact .parted (.inl rfl) rest steady
  | @same a s' t' goes still =>
    obtain ⟨bs, rfl⟩ := goes
    have more := still.readExact 7
    dsimp only
    generalize s'.readExact 7 = x at more
    generalize t'.readExact 7 = y at more
    cases more with
    | parted ended rest steady =>
      subst ended
      exact .parted (.inr rfl) rest steady
    | same goes still =>
      obtain ⟨others, rfl⟩ := goes
      have told := still.nextHead limit (bs ++ others)
      dsimp only
      generalize Source.nextHead limit (bs ++ others) _ = x at told
      generalize Source.nextHead limit (bs ++ others) _ = y at told
      cases told with
      | parted ended rest steady => exact .parted (.inr ended) rest steady
      | same goes still => exact .same goes still

/-! ## All entries -/

theorem entryOf_eq_unexpectedEof {found : Found Frame}
    (told : (entryOf found).1 = .failed (.io .unexpectedEof)) : found = .unfinished := by
  cases found with
  | unfinished => rfl
  | item | invalid => cases told

/-- What was told has taken some bytes. -/
theorem length_entryOf {bs : Bytes} (goes : (entryOf (Frame.read limit bs)).1.GoesOn) :
    (entryOf (Frame.read limit bs)).2.length < bs.length := by
  cases found : Frame.read limit bs with
  | item f rest =>
    have := Frame.length_rest_frame found
    simp only [entryOf]
    omega
  | invalid rest =>
    have := Frame.length_rest_invalid found
    simp only [entryOf]
    omega
  | unfinished =>
    rw [found] at goes
    rcases goes with ⟨f, goes⟩ | goes <;> cases goes

theorem entries_succ {x : Entry} {s' : Source} (told : s.next limit = (x, s')) (n : Nat)
    (goes : x ≠ .ended) : s.entries limit (n + 1) = x :: s'.entries limit n := by
  rw [entries, told]
  split
  next ended => exact absurd (Prod.mk.inj ended).1 goes
  next same =>
    obtain ⟨rfl, rfl⟩ := Prod.mk.inj same
    rfl

/-- The next entry of a source that does not fail is the first of its entries. -/
theorem entries_of_next {x : Entry} {t' : Source} (steady : t.failAt = none)
    (told : t.next limit = (x, t')) (goes : x.GoesOn) :
    Frame.entries limit t.rest = x :: Frame.entries limit t'.rest ∧
      t'.rest.length < t.rest.length := by
  have full : t.rest ≠ [] := by
    intro empty
    obtain ⟨_, ended, -, -⟩ := next_of_nil limit steady empty
    obtain ⟨rfl, -⟩ := Prod.mk.inj (told.symm.trans ended)
    rcases goes with ⟨f, goes⟩ | goes <;> cases goes
  obtain ⟨_, found, left, -⟩ := next_gives limit steady full
  obtain ⟨rfl, rfl⟩ := Prod.mk.inj (told.symm.trans found)
  rw [left]
  exact ⟨entries_of_ne_nil limit full, length_entryOf goes⟩

theorem final_of_next {x : Entry} {t' : Source} (steady : t.failAt = none)
    (told : t.next limit = (x, t')) (ends : x = .ended ∨ x = .failed (.io .unexpectedEof)) :
    Entry.Final (Frame.entries limit t.rest) := by
  by_cases empty : t.rest = []
  · rw [empty, Frame.entries, if_pos rfl]
    exact .inl rfl
  · obtain ⟨_, found, -, -⟩ := next_gives limit steady empty
    obtain ⟨rfl, -⟩ := Prod.mk.inj (told.symm.trans found)
    have unfinished := entryOf_eq_unexpectedEof (ends.resolve_left (entryOf_ne_ended _))
    rw [entries_of_ne_nil limit empty, unfinished, entryOf, Frame.entries, if_pos rfl]
    exact .inr rfl

/-- The entries that were told before the place, one entry for the failure, and then those of the
bytes behind. -/
theorem Interrupted.reads (h : Interrupted e behind s t) :
    ∃ front final, Frame.entries limit t.rest = front ++ final ∧ Entry.Final final ∧
      (∀ x ∈ front, Entry.GoesOn x) ∧
      s.Reads limit (front ++ .failed (.io e) :: Frame.entries limit behind) := by
  induction size : t.rest.length using Nat.strongRecOn generalizing s t with
  | ind m ih =>
    have both := h.next limit
    generalize told : s.next limit = x at both
    generalize told' : t.next limit = y at both
    cases both with
    | @parted a s' t' ends rest steady =>
      refine ⟨[], _, rfl, final_of_next h.steady told' ends, by simp, ?_⟩
      intro n
      cases n with
      | zero => rfl
      | succ n =>
        rw [entries_succ told n (by simp), entries_eq_take steady, rest]
        rfl
    | @same a s' t' goes still =>
      obtain ⟨first, less⟩ := entries_of_next h.steady told' goes
      obtain ⟨front, final, entries, last, inner, reads⟩ := ih _ (size ▸ less) still rfl
      refine ⟨a :: front, final, ?_, last, ?_, ?_⟩
      · rw [first, entries, List.cons_append]
      · intro x hx
        rcases List.mem_cons.1 hx with rfl | later
        · exact goes
        · exact inner x later
      · intro n
        have more : a ≠ .ended := by
          rintro rfl
          rcases goes with ⟨f, goes⟩ | goes <;> cases goes
        cases n with
        | zero => rfl
        | succ n =>
          rw [entries_succ told n more, reads n]
          rfl

end

end Source

end RemoteCall
