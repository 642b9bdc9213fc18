import RemoteCall.Frame.Sink
import RemoteCall.Frame.Source
import RemoteCall.Proofs.Frame.Stream

/-!
# Frames in pieces

The sizes of reads and writes do not matter. A source that does not fail tells the entries of its
bytes, however it hands them out; a sink that is never full takes the bytes of each frame, however
many at a time:

    s.failAt = none → s.entries limit n = (Frame.entries limit s.rest).take n    (entries_eq_take)
    s.Willing → s.sendAll fs = fs.map fun f => (.ok (), f.bytes)              (Willing.sendAll_eq)
-/

namespace RemoteCall

/-! ## Reading -/

namespace Source

/-- The answer of a reader that leaves these bytes, in a source that still does not fail. -/
def Gives {α : Type} (answer : α × Source) (a : α) (rest : Bytes) : Prop :=
  ∃ s, answer = (a, s) ∧ s.rest = rest ∧ s.failAt = none

section
variable {s : Source} {n : Nat}

theorem bound_pos_le (steady : s.failAt = none) (some : 0 < n) :
    0 < s.bound n ∧ s.bound n ≤ n := by
  simp only [bound, steady]
  split
  next k _ => exact ⟨Nat.lt_min.2 ⟨some, by omega⟩, Nat.min_le_left ..⟩
  next => exact ⟨some, Nat.le_refl n⟩

theorem read_of_nil (steady : s.failAt = none) (empty : s.rest = []) (n : Nat) :
    Gives (s.read n) .ended [] := by
  have quiet : s.failAt ≠ some s.position := by simp [steady]
  have nothing : (s.rest.take (s.bound n)).isEmpty = true := by simp [empty]
  simp only [read, if_neg quiet, nothing, if_true]
  exact ⟨_, rfl, empty, steady⟩

/-- A read takes some of the bytes, if there are any. -/
theorem read_of_ne_nil (steady : s.failAt = none) (full : s.rest ≠ []) (some : 0 < n) :
    ∃ got rest, s.rest = got ++ rest ∧ got ≠ [] ∧ got.length ≤ n ∧
      Gives (s.read n) (.bytes got) rest := by
  obtain ⟨pos, le⟩ := bound_pos_le steady some
  have quiet : s.failAt ≠ .some s.position := by simp [steady]
  have taken : s.rest.take (s.bound n) ≠ [] := by
    simp only [ne_eq, List.take_eq_nil_iff, not_or]
    exact ⟨Nat.ne_of_gt pos, full⟩
  have size := List.length_take_le (s.bound n) s.rest
  refine ⟨s.rest.take (s.bound n), s.rest.drop (s.rest.take (s.bound n)).length, ?_, taken,
    Nat.le_trans size le, ?_⟩
  · exact (List.prefix_iff_eq_append.1 (List.take_prefix _ _)).symm
  · simp only [read, if_neg quiet, List.isEmpty_iff, if_neg taken]
    exact ⟨_, rfl, rfl, steady⟩

/-- Some bytes are wanted, and a read brings some. -/
theorem fill_of_read {fuel : Nat} {acc got : Bytes} {s' : Source} (some : 0 < n)
    (read : s.read n = (.bytes got, s')) :
    fill (fuel + 1) n acc s = fill fuel (n - got.length) (got.reverse ++ acc) s' := by
  rw [fill, read]
  exact Nat.ne_of_gt some

/-- All of `n` bytes are read, however many reads that takes. -/
theorem fill_gives {front rest : Bytes} {fuel : Nat} (acc : Bytes) (steady : s.failAt = none)
    (enough : n ≤ fuel) (size : front.length = n) (bytes : s.rest = front ++ rest) :
    Gives (fill fuel n acc s) (.ok (acc.reverse ++ front)) rest := by
  induction fuel generalizing n front acc s with
  | zero =>
    obtain rfl := Nat.eq_zero_of_le_zero enough
    obtain rfl := List.eq_nil_of_length_eq_zero size
    exact ⟨s, by simp [fill], bytes, steady⟩
  | succ fuel ih =>
    cases n with
    | zero =>
      obtain rfl := List.eq_nil_of_length_eq_zero size
      exact ⟨s, by simp [fill], bytes, steady⟩
    | succ n =>
      have full : s.rest ≠ [] := by
        rintro empty
        simp [empty] at bytes
        simp [bytes] at size
      obtain ⟨got, left, split, some, le, s', read, rest', steady'⟩ :=
        read_of_ne_nil steady full (Nat.succ_pos n)
      -- what was read is the first part of what is wanted
      have first : got <+: s.rest := ⟨left, split.symm⟩
      have wanted : front <+: s.rest := ⟨rest, bytes.symm⟩
      obtain ⟨more, rfl⟩ := List.prefix_of_prefix_length_le first wanted (by omega)
      have pos := List.length_pos_iff.2 some
      rw [split, List.append_assoc, List.append_cancel_left_eq] at bytes
      rw [List.length_append] at size
      rw [fill_of_read (Nat.succ_pos n) read]
      have size' : more.length = n + 1 - got.length := by omega
      have later := ih (got.reverse ++ acc) steady' (by omega) size' (rest'.trans bytes)
      simpa using later

/-- There are fewer bytes than that. -/
theorem fill_short {fuel : Nat} (acc : Bytes) (steady : s.failAt = none) (enough : n ≤ fuel)
    (short : s.rest.length < n) : Gives (fill fuel n acc s) (.error .unexpectedEof) [] := by
  induction fuel generalizing n acc s with
  | zero => omega
  | succ fuel ih =>
    obtain ⟨n, rfl⟩ : ∃ m, n = m + 1 := ⟨n - 1, by omega⟩
    by_cases full : s.rest = []
    · obtain ⟨s', read, rest, steady'⟩ := read_of_nil steady full (n + 1)
      refine ⟨s', ?_, rest, steady'⟩
      rw [fill, read]
      exact Nat.succ_ne_zero n
    · obtain ⟨got, left, split, some, le, s', read, rest, steady'⟩ :=
        read_of_ne_nil steady full (Nat.succ_pos n)
      have pos := List.length_pos_iff.2 some
      rw [split, List.length_append] at short
      rw [fill_of_read (Nat.succ_pos n) read]
      exact ih _ steady' (by omega) (by rw [rest]; omega)

theorem readExact_gives {front rest : Bytes} (steady : s.failAt = none)
    (there : Bytes.split? n s.rest = some (front, rest)) :
    Gives (s.readExact n) (.ok front) rest := by
  obtain ⟨bytes, size⟩ := Bytes.split?_eq_some_iff.1 there
  exact fill_gives [] steady (Nat.le_refl n) size bytes

theorem readExact_short (steady : s.failAt = none) (short : Bytes.split? n s.rest = none) :
    Gives (s.readExact n) (.error .unexpectedEof) [] :=
  fill_short [] steady (Nat.le_refl n) (Bytes.split?_eq_none_iff.1 short)

end

/-! ### One entry -/

/-- The entry that tells what stands at the front of a stream, and what it leaves of the stream. -/
def entryOf : Found Frame → Entry × Bytes
  | .item f rest => (.frame f, rest)
  | .invalid rest => (.failed .invalidFrame, rest)
  | .unfinished => (.failed (.io .unexpectedEof), [])

theorem entries_of_ne_nil (limit : UInt32) {bs : Bytes} (full : bs ≠ []) :
    Frame.entries limit bs = (entryOf (Frame.read limit bs)).1 ::
      Frame.entries limit (entryOf (Frame.read limit bs)).2 := by
  rw [Frame.entries, if_neg full]
  split
  next f rest found => rw [found]; rfl
  next rest found => rw [found]; rfl
  next found => rw [found, entryOf, Frame.entries, if_pos rfl]

theorem entryOf_ne_ended (found : Found Frame) : (entryOf found).1 ≠ .ended := by
  cases found <;> simp [entryOf]

/-- The answer is the entry of what was found. -/
abbrev Tells (answer : Entry × Source) (found : Found Frame) : Prop :=
  Gives answer (entryOf found).1 (entryOf found).2

section
variable (limit : UInt32) {s : Source}

/-- The head was read; what comes after it makes the entry. -/
theorem nextPayload_gives (steady : s.failAt = none) {front : Bytes} {h : Head}
    (head : Head.read (front ++ s.rest) = .item h s.rest) :
    Tells (nextPayload limit h s) (Frame.read limit (front ++ s.rest)) := by
  unfold Frame.read
  simp only [head]
  unfold nextPayload
  split
  next => exact ⟨s, rfl, rfl, steady⟩
  next =>
    cases there : Bytes.split? h.payloadLen.toNat s.rest with
    | none =>
      obtain ⟨s', read, rest, steady'⟩ := readExact_short steady there
      rw [read]
      exact ⟨s', rfl, rest, steady'⟩
    | some p =>
      obtain ⟨s', read, rest, steady'⟩ := readExact_gives steady there
      rw [read]
      exact ⟨s', rfl, rest, steady'⟩

/-- The word was read; what comes after it makes the entry. -/
theorem nextHead_gives (steady : s.failAt = none) {w : Bytes} (size : w.length = 8) :
    Tells (nextHead limit w s) (Frame.read limit (w ++ s.rest)) := by
  have word := Bytes.split?_left s.rest size
  unfold nextHead
  cases announced : Announced.ofWord w with
  | unknown =>
    have found : Frame.read limit (w ++ s.rest) = .invalid s.rest := by
      simp [Frame.read, Head.read, word, announced]
    rw [found]
    exact ⟨s, rfl, rfl, steady⟩
  | reply i status n =>
    apply nextPayload_gives limit steady
    simp [Head.read, word, announced]
  | call i m n =>
    cases there : Bytes.split? m s.rest with
    | none =>
      have found : Frame.read limit (w ++ s.rest) = .unfinished := by
        simp [Frame.read, Head.read, word, announced, there]
      obtain ⟨s', read, rest, steady'⟩ := readExact_short steady there
      rw [found]
      simp only [read]
      exact ⟨s', rfl, rest, steady'⟩
    | some p =>
      obtain ⟨name, left⟩ := p
      obtain ⟨bytes, -⟩ := Bytes.split?_eq_some_iff.1 there
      obtain ⟨s', read, rest, steady'⟩ := readExact_gives steady there
      simp only [read]
      cases text : Utf8.decode name with
      | error e =>
        have found : Frame.read limit (w ++ s.rest) = .invalid left := by
          simp [Frame.read, Head.read, word, announced, there, text]
        rw [found]
        exact ⟨s', rfl, rest, steady'⟩
      | ok method =>
        have head : Head.read ((w ++ name) ++ s'.rest) = .item (.call i method n) s'.rest := by
          rw [List.append_assoc, rest, ← bytes]
          simp [Head.read, word, announced, there, text]
        have told := nextPayload_gives limit steady' head
        rw [List.append_assoc, rest, ← bytes] at told
        exact told

/-- The next entry of a source that has bytes is what stands at their front. -/
theorem next_gives (steady : s.failAt = none) (full : s.rest ≠ []) :
    Tells (s.next limit) (Frame.read limit s.rest) := by
  obtain ⟨got, left, bytes, some, le, s₁, read, rest, steady₁⟩ :=
    read_of_ne_nil steady full Nat.one_pos
  have one : got.length = 1 := Nat.le_antisymm le (List.length_pos_iff.2 some)
  unfold next
  rw [read]
  cases there : Bytes.split? 7 s₁.rest with
  | none =>
    have few := Bytes.split?_eq_none_iff.1 there
    have found : Frame.read limit s.rest = .unfinished := by
      have short : Bytes.split? 8 s.rest = none := by
        rw [Bytes.split?_eq_none_iff, bytes, List.length_append, one, ← rest]
        omega
      simp [Frame.read, Head.read, short]
    obtain ⟨s₂, more, rest₂, steady₂⟩ := readExact_short steady₁ there
    rw [found]
    simp only [more]
    exact ⟨s₂, rfl, rest₂, steady₂⟩
  | some p =>
    obtain ⟨others, left'⟩ := p
    obtain ⟨split, size⟩ := Bytes.split?_eq_some_iff.1 there
    obtain ⟨s₂, more, rest₂, steady₂⟩ := readExact_gives steady₁ there
    have word : (got ++ others).length = 8 := by
      rw [List.length_append, one, size]
    have told := nextHead_gives limit steady₂ word
    rw [rest₂, List.append_assoc, ← split, rest, ← bytes] at told
    simp only [more]
    exact told

theorem next_of_nil (steady : s.failAt = none) (empty : s.rest = []) :
    Gives (s.next limit) .ended [] := by
  obtain ⟨s', read, rest, steady'⟩ := read_of_nil steady empty 1
  unfold next
  rw [read]
  exact ⟨s', rfl, rest, steady'⟩

/-! ### All entries -/

variable {limit}

/-- A source that does not fail tells the entries of its bytes. -/
theorem entries_eq_take (steady : s.failAt = none) (n : Nat) :
    s.entries limit n = (Frame.entries limit s.rest).take n := by
  induction n generalizing s with
  | zero => rfl
  | succ n ih =>
    by_cases empty : s.rest = []
    · obtain ⟨s', ended, -, -⟩ := next_of_nil limit steady empty
      simp [entries, ended, empty, Frame.entries]
    · obtain ⟨s', entry, rest, steady'⟩ := next_gives limit steady empty
      rw [entries_of_ne_nil limit empty, List.take_succ_cons, ← rest, ← ih steady']
      rw [entries, entry]
      split
      next ended => exact absurd (Prod.mk.inj ended).1 (entryOf_ne_ended _)
      next same =>
        obtain ⟨rfl, rfl⟩ := Prod.mk.inj same
        rfl

/-- These are the entries that the source tells, however many are asked for. -/
def Reads (limit : UInt32) (s : Source) (es : List Entry) : Prop :=
  ∀ n, s.entries limit n = es.take n

theorem reads_iff (steady : s.failAt = none) {es : List Entry} :
    s.Reads limit es ↔ Frame.entries limit s.rest = es := by
  constructor
  · intro reads
    -- so many that both lists are told to their ends
    have all := reads (max (Frame.entries limit s.rest).length es.length)
    rw [entries_eq_take steady, List.take_of_length_le (Nat.le_max_left ..),
      List.take_of_length_le (Nat.le_max_right ..)] at all
    exact all
  · rintro rfl n
    exact entries_eq_take steady n

end

end Source

/-! ## Writing -/

namespace Sink

/-- A sink that is never full: each write takes some bytes. -/
structure Willing (s : Sink) : Prop where
  chunk : s.chunk ≠ some 0
  pace : 0 ∉ s.pace
  room : s.room = none
  flushes : s.flushFails = false

section
variable {s : Sink} {n : Nat}

theorem capped_pos_le {bound : Option Nat} (some : bound ≠ some 0) (pos : 0 < n) :
    0 < capped n bound ∧ capped n bound ≤ n := by
  cases bound with
  | none => exact ⟨pos, Nat.le_refl n⟩
  | some k =>
    have positive : k ≠ 0 := by
      rintro rfl
      exact some rfl
    exact ⟨Nat.lt_min.2 ⟨pos, Nat.pos_of_ne_zero positive⟩, Nat.min_le_left ..⟩

theorem Willing.accepts_pos_le (h : s.Willing) (pos : 0 < n) :
    0 < s.accepts n ∧ s.accepts n ≤ n := by
  have turn : s.pace[s.turn % s.pace.length]? ≠ some 0 := fun zero =>
    h.pace (List.mem_of_getElem? zero)
  obtain ⟨pos₁, le₁⟩ := capped_pos_le h.chunk pos
  obtain ⟨pos₂, le₂⟩ := capped_pos_le turn pos₁
  have same : s.accepts n = capped (capped n s.chunk) s.pace[s.turn % s.pace.length]? := by
    simp [accepts, h.room, capped]
  rw [same]
  exact ⟨pos₂, Nat.le_trans le₂ le₁⟩

theorem Willing.used (h : s.Willing) (n : Nat) : (s.used n).Willing :=
  ⟨h.chunk, h.pace, by simp [Sink.used, h.room], h.flushes⟩

theorem Willing.writeAllAux_eq {bs : Bytes} (acc : Bytes) (h : s.Willing) (size : bs.length = n) :
    ∃ s', writeAllAux n bs acc s = (.ok (), bs.reverse ++ acc, s') ∧ s'.Willing := by
  fun_induction writeAllAux n bs acc s with
  | case1 bs acc s =>
    obtain rfl := List.eq_nil_of_length_eq_zero size
    exact ⟨s, rfl, h⟩
  | case2 n bs acc s some _ none =>
    exact absurd none (Nat.ne_of_gt (h.accepts_pos_le (Nat.pos_of_ne_zero some)).1)
  | case3 n bs acc s some k _ ih =>
    have le : k ≤ n := (h.accepts_pos_le (Nat.pos_of_ne_zero some)).2
    obtain ⟨s', written, h'⟩ := ih (h.used k) (by rw [List.length_drop, size])
    refine ⟨s', ?_, h'⟩
    rw [written, ← List.append_assoc, ← List.reverse_append, List.take_append_drop]

theorem Willing.writeAll_eq (h : s.Willing) (bs : Bytes) :
    ∃ s', s.writeAll bs = (.ok (), bs, s') ∧ s'.Willing := by
  obtain ⟨s', written, h'⟩ := h.writeAllAux_eq [] (rfl : bs.length = bs.length)
  exact ⟨s', by simp [writeAll, written], h'⟩

theorem Willing.writeParts_eq (h : s.Willing) (ps : List Bytes) :
    ∃ s', s.writeParts ps = (.ok (), ps.flatten, s') ∧ s'.Willing := by
  induction ps generalizing s with
  | nil => exact ⟨s, rfl, h⟩
  | cons p ps ih =>
    obtain ⟨s₁, first, h₁⟩ := h.writeAll_eq p
    obtain ⟨s₂, others, h₂⟩ := ih h₁
    exact ⟨s₂, by simp [writeParts, first, others], h₂⟩

/-- A frame is written whole, unless its method is too long. -/
theorem Willing.send_eq (h : s.Willing) {f : Frame} (short : f.head.methodBytes.length ≤ 255) :
    ∃ s', s.send f = (.ok (), f.bytes, s') ∧ s'.Willing := by
  obtain ⟨parts, cut, bytes⟩ := Frame.exists_parts short
  obtain ⟨s', written, h'⟩ := h.writeParts_eq parts
  exact ⟨s', by simp [send, cut, written, h'.flushes, bytes], h'⟩

/-- All frames are written, one behind the other. -/
theorem Willing.sendAll_eq (h : s.Willing) {fs : List Frame}
    (short : ∀ f ∈ fs, f.head.methodBytes.length ≤ 255) :
    s.sendAll fs = fs.map fun f => (.ok (), f.bytes) := by
  induction fs generalizing s with
  | nil => rfl
  | cons f fs ih =>
    obtain ⟨s', sent, h'⟩ := h.send_eq (short f List.mem_cons_self)
    simp [sendAll, sent, ih h' fun g hg => short g (List.mem_cons_of_mem f hg)]

end

/-- What stands in the sink once the frames were sent. -/
def written (s : Sink) (fs : List Frame) : Bytes := (s.sendAll fs).flatMap Prod.snd

theorem Willing.written_eq {s : Sink} (h : s.Willing) {fs : List Frame}
    (short : ∀ f ∈ fs, f.head.methodBytes.length ≤ 255) :
    s.written fs = fs.flatMap Frame.bytes := by
  rw [written, h.sendAll_eq short, List.flatMap_map]

end Sink

end RemoteCall
