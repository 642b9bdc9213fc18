import RemoteCall.Proofs.Frame.Interruption

/-!
# Reading on

A reader that keeps one buffer for the payloads (`Buffered`) leaves in it what it has read of a
payload that broke off, and makes room for the next one over it. It tells the same entries as a
reader that starts each payload with nothing:

    b.entries limit n = b.source.entries limit n                       (Buffered.entries_eq)

So after a failure it reads on as if the bytes had begun there (`reader_takes_all_and_recovers`).
-/

namespace RemoteCall

/-! ## One buffer for all payloads -/

/-- A reader that keeps one buffer for the payloads. -/
structure Buffered where
  source : Source
  buffer : Bytes

namespace Buffered

/-- The buffer cut off at `n` bytes, or made as long as that with zeros. -/
def resize (n : Nat) (buffer : Bytes) : Bytes :=
  buffer.take n ++ List.replicate (n - buffer.length) 0

/-- The bytes put over those that stand at the place `k`. -/
def put (k : Nat) (bs buffer : Bytes) : Bytes :=
  buffer.take k ++ bs ++ buffer.drop (k + bs.length)

/-- Reads over the last `n` bytes of the buffer; what it does not reach stays as it is. -/
def overwrite : (fuel n : Nat) → Bytes → Source → Except IoError Unit × Bytes × Source
  | _, 0, buffer, s => (.ok (), buffer, s)
  | 0, _, buffer, s => (.ok (), buffer, s)
  | fuel + 1, n + 1, buffer, s =>
    match s.read (n + 1) with
    | (.failed e, s) => (.error e, buffer, s)
    | (.ended, s) => (.error .unexpectedEof, buffer, s)
    | (.bytes bs, s) =>
      overwrite fuel (n + 1 - bs.length) (put (buffer.length - (n + 1)) bs buffer) s

/-- The payload after a head. It is taken out of the buffer if it was read to its end. -/
def nextPayload (limit : UInt32) (h : Head) (b : Buffered) : Entry × Buffered :=
  if limit < h.payloadLen then (.failed .invalidFrame, b)
  else
    let n := h.payloadLen.toNat
    match overwrite n n (resize n b.buffer) b.source with
    | (.error e, buffer, s) => (.failed (.io e), ⟨s, buffer⟩)
    | (.ok (), payload, s) => (.frame ⟨h, payload⟩, ⟨s, []⟩)

def nextHead (limit : UInt32) (w : Bytes) (b : Buffered) : Entry × Buffered :=
  match Announced.ofWord w with
  | .unknown => (.failed .invalidFrame, b)
  | .reply i st n => nextPayload limit (.reply i st n) b
  | .call i m n =>
    match b.source.readExact m with
    | (.error e, s) => (.failed (.io e), { b with source := s })
    | (.ok name, s) =>
      match Utf8.decode name with
      | .error _ => (.failed .invalidFrame, { b with source := s })
      | .ok name => nextPayload limit (.call i name n) { b with source := s }

def next (limit : UInt32) (b : Buffered) : Entry × Buffered :=
  match b.source.read 1 with
  | (.failed e, s) => (.failed (.io e), { b with source := s })
  | (.ended, s) => (.ended, { b with source := s })
  | (.bytes first, s) =>
    match s.readExact 7 with
    | (.error e, s) => (.failed (.io e), { b with source := s })
    | (.ok more, s) => nextHead limit (first ++ more) { b with source := s }

def entries (limit : UInt32) : Nat → Buffered → List Entry
  | 0, _ => []
  | n + 1, b =>
    match b.next limit with
    | (.ended, _) => [.ended]
    | (e, b) => e :: entries limit n b

/-! ### The buffer does not matter -/

@[simp] theorem length_resize (n : Nat) (buffer : Bytes) : (resize n buffer).length = n := by
  simp only [resize, List.length_append, List.length_take, List.length_replicate]
  omega

theorem length_put {k : Nat} {bs buffer : Bytes} (fits : k + bs.length ≤ buffer.length) :
    (put k bs buffer).length = buffer.length := by
  simp only [put, List.length_append, List.length_take, List.length_drop]
  omega

/-- What was put there comes behind what stood before it. -/
theorem take_put {k : Nat} {bs buffer : Bytes} (fits : k ≤ buffer.length) :
    (put k bs buffer).take (k + bs.length) = buffer.take k ++ bs := by
  have size : (buffer.take k ++ bs).length = k + bs.length := by
    rw [List.length_append, List.length_take, Nat.min_eq_left fits]
  rw [put, ← size, List.take_left']
  rfl

/-- A read that brings bytes brings some, and no more than was asked for, also if the source is one
that fails. -/
theorem length_of_read {s s' : Source} {n : Nat} {bs : Bytes} (read : s.read n = (.bytes bs, s')) :
    0 < bs.length ∧ bs.length ≤ n := by
  have bound : s.bound n ≤ n := by
    cases chunk : s.chunks[s.turn % s.chunks.length]? <;> cases place : s.failAt <;>
      simp only [Source.bound, chunk, place] <;> grind
  unfold Source.read at read
  split at read
  · cases read
  · dsimp only at read
    split at read
    · cases read
    · next some =>
      obtain ⟨taken, -⟩ := Prod.mk.inj read
      rw [← Piece.bytes.inj taken]
      constructor
      · exact List.length_pos_iff.2 (by simpa using some)
      · exact Nat.le_trans (List.length_take_le ..) bound

/-- A buffer that was read over to its end holds what was read. -/
theorem read_over {acc buffer : Bytes} (size : buffer.length = acc.length)
    (front : buffer.take acc.length = acc.reverse) (payload : Bytes)
    (all : (.ok acc.reverse : Except IoError Bytes) = .ok payload) : buffer = payload := by
  obtain rfl := Except.ok.inj all
  rw [← front, List.take_of_length_le (Nat.le_of_eq size)]

/-- Reading over the buffer goes as reading does that starts with nothing; when it has come to its
end nothing of the old bytes is left. -/
theorem overwrite_eq {fuel n : Nat} {acc buffer : Bytes} {s : Source} (enough : n ≤ fuel)
    (size : buffer.length = acc.length + n) (front : buffer.take acc.length = acc.reverse) :
    ∃ left, overwrite fuel n buffer s =
        ((Source.fill fuel n acc s).1.map fun _ => (), left, (Source.fill fuel n acc s).2) ∧
      ∀ payload, (Source.fill fuel n acc s).1 = .ok payload → left = payload := by
  induction fuel generalizing n acc buffer s with
  | zero =>
    obtain rfl := Nat.eq_zero_of_le_zero enough
    exact ⟨buffer, rfl, read_over size front⟩
  | succ fuel ih =>
    cases n with
    | zero => exact ⟨buffer, rfl, read_over size front⟩
    | succ n =>
      rw [Source.fill_succ, overwrite]
      cases read : s.read (n + 1) with
      | mk got s' =>
      cases got with
      | failed e => exact ⟨buffer, rfl, by simp⟩
      | ended => exact ⟨buffer, rfl, by simp⟩
      | bytes bs =>
        obtain ⟨pos, le⟩ := length_of_read read
        -- the bytes that were read before stand in front of these
        have place : buffer.length - (n + 1) = acc.length := by omega
        rw [place]
        apply ih
        · omega
        · rw [length_put (by omega)]
          simp only [List.length_append, List.length_reverse]
          omega
        · rw [List.length_append, List.length_reverse, Nat.add_comm, take_put (by omega), front,
            List.reverse_append, List.reverse_reverse]

section
variable (limit : UInt32) (b : Buffered)

/-- The entry, and what is left of the source. -/
def plain (answer : Entry × Buffered) : Entry × Source := (answer.1, answer.2.source)

theorem nextPayload_eq (h : Head) :
    plain (nextPayload limit h b) = Source.nextPayload limit h b.source := by
  unfold nextPayload Source.nextPayload
  by_cases long : limit < h.payloadLen
  · rw [if_pos long, if_pos long]
    rfl
  · rw [if_neg long, if_neg long]
    have size : (resize h.payloadLen.toNat b.buffer).length =
        ([] : Bytes).length + h.payloadLen.toNat :=
      (length_resize ..).trans (Nat.zero_add _).symm
    obtain ⟨left, same, whole⟩ := overwrite_eq (s := b.source) (Nat.le_refl _) size rfl
    unfold Source.readExact
    dsimp only
    rw [same]
    generalize Source.fill h.payloadLen.toNat h.payloadLen.toNat [] b.source = answer at whole
    obtain ⟨e | payload, s⟩ := answer
    · rfl
    · rw [whole payload rfl]
      rfl

theorem nextHead_eq (w : Bytes) :
    plain (nextHead limit w b) = Source.nextHead limit w b.source := by
  unfold nextHead Source.nextHead
  cases Announced.ofWord w with
  | unknown => rfl
  | reply i st n => exact nextPayload_eq limit b _
  | call i m n =>
    dsimp only
    generalize b.source.readExact m = answer
    obtain ⟨e | name, s⟩ := answer
    · rfl
    · dsimp only
      cases Utf8.decode name with
      | error => rfl
      | ok name => exact nextPayload_eq limit { b with source := s } _

theorem next_eq : plain (b.next limit) = b.source.next limit := by
  unfold next Source.next
  generalize b.source.read 1 = answer
  obtain ⟨got, s⟩ := answer
  cases got with
  | failed => rfl
  | ended => rfl
  | bytes first =>
    dsimp only
    generalize s.readExact 7 = answer
    obtain ⟨e | more, s'⟩ := answer
    · rfl
    · exact nextHead_eq limit { b with source := s' } _

theorem entries_eq (n : Nat) : b.entries limit n = b.source.entries limit n := by
  induction n generalizing b with
  | zero => rfl
  | succ n ih =>
    rw [entries, Source.entries, ← next_eq]
    generalize b.next limit = answer
    obtain ⟨x, b'⟩ := answer
    cases x with
    | ended => rfl
    | frame f => simp only [plain, ih b']
    | failed e => simp only [plain, ih b']

end

end Buffered

/-! ## All bytes -/

/-- Any bytes are cut up in one way, each part told by one entry, and the end comes within
`bs.length / 8 + 2` entries. So a source that does not fail tells them, whatever the sizes of its
reads, and stands behind the parts it has told. A source that fails one read tells what it would
have told if it had ended there, with the failure for that end, and then the entries of the bytes
behind. All this is so for a reader, too, that keeps its payloads in one buffer. -/
theorem reader_takes_all_and_recovers (limit : UInt32) (bs : Bytes) :
    ∃ pieces, (∀ others, Consumes limit bs others ↔ others = pieces) ∧
      pieces.length + 1 ≤ bs.length / 8 + 2 ∧
      (∀ s : Source, s.rest = bs → s.failAt = none →
        s.Reads limit (pieces.map Prod.snd ++ [.ended]) ∧
        ∀ k, (s.after limit k).rest = (pieces.drop k).flatMap Prod.fst ∧
          (s.after limit k).position = s.position + ((pieces.take k).flatMap Prod.fst).length) ∧
      (∀ (s : Source) (p : Nat), s.rest = bs → p ≤ bs.length → s.failAt = some (s.position + p) →
        ∃ front final, Frame.entries limit (bs.take p) = front ++ final ∧ Entry.Final final ∧
          (∀ x ∈ front, Entry.GoesOn x) ∧
          s.Reads limit (front ++ .failed (.io s.failure) :: Frame.entries limit (bs.drop p))) ∧
      ∀ (b : Buffered) (n : Nat), b.entries limit n = b.source.entries limit n := by
  obtain ⟨pieces, consumes⟩ := exists_consumes limit bs
  refine ⟨pieces, fun others => ⟨consumes.unique, ?_⟩, ?_, ?_, ?_, fun b n => b.entries_eq limit n⟩
  · rintro rfl
    exact consumes
  · have few := consumes.length_le
    omega
  · rintro s rfl steady
    refine ⟨(Source.reads_iff steady).2 consumes.entries_eq, fun k => ?_⟩
    exact ⟨Source.after_rest steady consumes k, Source.after_position steady consumes k⟩
  · rintro s p rfl inside failing
    -- the source that ends where this one fails
    have interrupted : Source.Interrupted s.failure (s.rest.drop p) s
        { s with rest := s.rest.take p, failAt := none } := by
      refine ⟨(List.take_append_drop p s.rest).symm, ?_, rfl, rfl, rfl, rfl⟩
      rw [failing, List.length_take, Nat.min_eq_left inside]
    exact interrupted.reads

/-- A payload of two bytes breaks off behind the first one; the reply behind it has its own byte. -/
example : ({ rest := [0, 0, 0, 2, 0, 1, 0, 2, 7, 0, 0, 0, 1, 0, 2, 0, 2, 9], failAt := some 9 } :
    Source).entries 100 9 = [.failed (.io ⟨.connectionReset, "scripted failure"⟩),
      .frame (.reply 2 .ok [9]), .ended] := by decide

end RemoteCall
