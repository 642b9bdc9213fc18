import RemoteCall.Proofs.Frame.Grammar

/-!
# What a reader takes

A reader takes its bytes from left to right, each entry the bytes of its own: a frame those of an
item; an unknown tag or status the eight bytes of the word; a name that is no text, or a payload
that is announced too long, the word and the method (`Entry.Spans`). An item that breaks off takes
what is left (`Cut`). `Consumes limit bs pieces` cuts all bytes up in this way:

    ∃ pieces, Consumes limit bs pieces                              (exists_consumes, unique)
    Consumes limit bs pieces →
      Frame.entries limit bs = pieces.map Prod.snd ++ [.ended]      (Consumes.entries_eq)
    Consumes limit bs pieces → 8 * pieces.length ≤ bs.length + 7    (Consumes.length_le)
-/

namespace RemoteCall

/-! ## One entry -/

/-- The entry tells what stands in these bytes, and nothing behind them matters to it. -/
inductive Entry.Spans (limit : UInt32) : Bytes → Entry → Prop
  | frame {item : Item} {f : Frame} : item.Valid limit → f.WellFormed limit →
    f.bytes = item.canonical.bytes → Spans limit item.bytes (.frame f)
  /-- Neither a call nor a reply, or a reply of an unknown status. -/
  | unknown {w : UInt64} : Word.tag w ≠ 1 → (Word.tag w = 2 → 5 < Word.status w) →
    Spans limit (Bytes.bigEndian 8 w.toNat) (.failed .invalidFrame)
  | illegible {w : UInt64} {method : Bytes} : Word.tag w = 1 →
    Word.methodLen w = method.length → (∀ name, Utf8.encode name ≠ method) →
    Spans limit (Bytes.bigEndian 8 w.toNat ++ method) (.failed .invalidFrame)
  | longCall {w : UInt64} {name : String} : Word.tag w = 1 →
    Word.methodLen w = (Utf8.encode name).length → limit < Word.payloadLen w →
    Spans limit (Bytes.bigEndian 8 w.toNat ++ Utf8.encode name) (.failed .invalidFrame)
  | longReply {w : UInt64} : Word.tag w = 2 → Word.status w ≤ 5 → limit < Word.payloadLen w →
    Spans limit (Bytes.bigEndian 8 w.toNat) (.failed .invalidFrame)

/-- An item has begun and breaks off before its end. -/
def Cut (limit : UInt32) (taken : Bytes) : Prop :=
  taken ≠ [] ∧ ∃ more e, more ≠ [] ∧ Entry.Spans limit (taken ++ more) e

section
variable {limit : UInt32}

theorem Item.length_bytes (item : Item) : 8 ≤ item.bytes.length := by
  cases item <;> simp only [Item.bytes, List.length_append, Bytes.length_bigEndian] <;> omega

theorem Entry.Spans.length_taken {taken : Bytes} {e : Entry} (h : Entry.Spans limit taken e) :
    8 ≤ taken.length := by
  cases h with
  | frame => exact Item.length_bytes _
  | unknown | longReply => simp
  | illegible | longCall => simp

/-- How a head is read whose word is known. -/
theorem Head.read_word (w : UInt64) (rest : Bytes) :
    Head.read (Bytes.bigEndian 8 w.toNat ++ rest) =
      if Word.tag w = 1 then
        match Bytes.split? (Word.methodLen w) rest with
        | none => .unfinished
        | some (method, rest) =>
          match Utf8.decode method with
          | .ok name => .item (.call (Word.sendId w) name (Word.payloadLen w)) rest
          | .error _ => .invalid rest
      else if Word.tag w = 2 then
        match ReplyStatus.ofByte? (UInt8.ofNat (Word.status w)) with
        | some s => .item (.reply (Word.sendId w) s (Word.payloadLen w)) rest
        | none => .invalid rest
      else .invalid rest := by
  unfold Head.read
  rw [Bytes.split?_left rest (Bytes.length_bigEndian ..)]
  simp only [Word.ofWord_eq]
  by_cases call : Word.tag w = 1
  · have tag : Word.tag w = Head.callTag := call
    cases there : Bytes.split? (Word.methodLen w) rest with
    | none => simp only [if_pos call, if_pos tag, there]
    | some p => cases text : Utf8.decode p.1 <;> simp only [if_pos call, if_pos tag, there, text]
  · simp only [if_neg call, if_neg (show ¬Word.tag w = Head.callTag from call)]
    by_cases reply : Word.tag w = 2
    · have tag : Word.tag w = Head.replyTag := reply
      cases ReplyStatus.ofByte? (UInt8.ofNat (Word.status w)) <;>
        simp only [if_pos reply, if_pos tag]
    · simp only [if_neg reply, if_neg (show ¬Word.tag w = Head.replyTag from reply)]

/-- What announces too long a payload is left behind its head. -/
theorem Frame.read_of_long {bs rest : Bytes} {h : Head} (head : Head.read bs = .item h rest)
    (long : limit < h.payloadLen) : Frame.read limit bs = .invalid rest := by
  unfold Frame.read
  rw [head]
  exact if_pos long

theorem Frame.read_of_invalid {bs rest : Bytes} (head : Head.read bs = .invalid rest) :
    Frame.read limit bs = .invalid rest := by
  unfold Frame.read
  rw [head]

/-- The reader finds the entry, takes its bytes and no more. -/
theorem Entry.Spans.read {taken : Bytes} {e : Entry} (h : Entry.Spans limit taken e)
    (rest : Bytes) :
    Frame.read limit (taken ++ rest) ≠ .unfinished ∧
      Source.entryOf (Frame.read limit (taken ++ rest)) = (e, rest) := by
  have invalid : Frame.read limit (taken ++ rest) = .invalid rest →
      Frame.read limit (taken ++ rest) ≠ .unfinished ∧
        Source.entryOf (Frame.read limit (taken ++ rest)) = (.failed .invalidFrame, rest) := by
    intro found
    rw [found]
    exact ⟨by simp, rfl⟩
  cases h with
  | @frame item f valid fine bytes =>
    obtain ⟨g, fine', bytes', read⟩ := valid.exists_frame
    -- the canonical bytes leave no choice of the frame
    have same : f = g := by
      have first := Frame.read_bytes [] fine
      rw [bytes, ← bytes', Frame.read_bytes [] fine'] at first
      exact (Found.item.inj first).1.symm
    rw [read rest, same]
    exact ⟨by simp, rfl⟩
  | @unknown w notCall status =>
    apply invalid
    apply Frame.read_of_invalid
    rw [Head.read_word, if_neg notCall]
    by_cases reply : Word.tag w = 2
    · have beyond := status reply
      have none : ReplyStatus.ofByte? (UInt8.ofNat (Word.status w)) = none := by
        rw [← Option.not_isSome_iff_eq_none, ReplyStatus.isSome_ofByte? _ (Word.status_lt w)]
        omega
      rw [if_pos reply, none]
    · rw [if_neg reply]
  | @illegible w method call size noText =>
    apply invalid
    apply Frame.read_of_invalid
    rw [List.append_assoc, Head.read_word, if_pos call, Bytes.split?_left rest size.symm]
    cases text : Utf8.decode method with
    | ok name => exact absurd (Utf8.decode_eq_ok_iff.1 text) (noText name)
    | error => simp only [text]
  | @longCall w name call size long =>
    apply invalid
    refine Frame.read_of_long (h := .call (Word.sendId w) name (Word.payloadLen w)) ?_ long
    rw [List.append_assoc, Head.read_word, if_pos call, Bytes.split?_left rest size.symm]
    simp only [Utf8.decode_encode]
  | @longReply w reply code long =>
    apply invalid
    obtain ⟨s, known⟩ := Option.isSome_iff_exists.1
      ((ReplyStatus.isSome_ofByte? _ (Word.status_lt w)).2 code)
    refine Frame.read_of_long (h := .reply (Word.sendId w) s (Word.payloadLen w)) ?_ long
    rw [Head.read_word, if_neg (by omega), if_pos reply, known]

/-- What is no head is an unknown word, or a word and a name that is no text. -/
theorem Head.spans_of_invalid {bs rest : Bytes} (read : Head.read bs = .invalid rest) :
    ∃ taken, bs = taken ++ rest ∧ Entry.Spans limit taken (.failed .invalidFrame) := by
  cases front : Bytes.split? 8 bs with
  | none => simp [Head.read, front] at read
  | some p =>
    obtain ⟨word, behind⟩ := p
    obtain ⟨rfl, size⟩ := Bytes.split?_eq_some_iff.1 front
    obtain ⟨w, rfl⟩ := Bytes.exists_word size
    rw [Head.read_word] at read
    by_cases call : Word.tag w = 1
    · rw [if_pos call] at read
      cases method : Bytes.split? (Word.methodLen w) behind with
      | none => simp [method] at read
      | some q =>
        obtain ⟨spelled, behind'⟩ := q
        obtain ⟨rfl, length⟩ := Bytes.split?_eq_some_iff.1 method
        simp only [method] at read
        cases text : Utf8.decode spelled with
        | ok name => simp [text] at read
        | error =>
          simp only [text, Found.invalid.injEq] at read
          refine ⟨Bytes.bigEndian 8 w.toNat ++ spelled, by rw [read, List.append_assoc], ?_⟩
          refine .illegible call length.symm fun name same => ?_
          rw [← same, Utf8.decode_encode] at text
          cases text
    · rw [if_neg call] at read
      have behind_eq : behind = rest ∧ (Word.tag w = 2 → 5 < Word.status w) := by
        by_cases reply : Word.tag w = 2
        · rw [if_pos reply] at read
          cases known : ReplyStatus.ofByte? (UInt8.ofNat (Word.status w)) with
          | some s => simp [known] at read
          | none =>
            simp only [known, Found.invalid.injEq] at read
            refine ⟨read, fun _ => Nat.lt_of_not_le fun code => ?_⟩
            have some := (ReplyStatus.isSome_ofByte? _ (Word.status_lt w)).2 code
            simp [known] at some
        · rw [if_neg reply, Found.invalid.injEq] at read
          exact ⟨read, fun yes => absurd yes reply⟩
      obtain ⟨rfl, status⟩ := behind_eq
      exact ⟨_, rfl, .unknown call status⟩

/-- A head that is read and announces too much was taken, and nothing behind it. -/
theorem Head.spans_of_long {bs rest : Bytes} {h : Head} (read : Head.read bs = .item h rest)
    (long : limit < h.payloadLen) :
    ∃ taken, bs = taken ++ rest ∧ Entry.Spans limit taken (.failed .invalidFrame) := by
  rcases Item.word_of_read read with ⟨w, name, call, method, announced, rfl⟩ |
    ⟨w, reply, code, announced, rfl⟩
  · exact ⟨_, rfl, .longCall call method (announced ▸ long)⟩
  · exact ⟨_, rfl, .longReply reply code (announced ▸ long)⟩

/-- If a reader need not wait for more then an entry stands at the front. -/
theorem Frame.exists_spans {bs : Bytes} (finished : Frame.read limit bs ≠ .unfinished) :
    ∃ taken rest e, bs = taken ++ rest ∧ Entry.Spans limit taken e := by
  cases read : Frame.read limit bs with
  | unfinished => exact absurd read finished
  | item f rest =>
    obtain ⟨item, valid, rfl⟩ := Item.exists_of_read read
    obtain ⟨g, fine, bytes, -⟩ := valid.exists_frame
    exact ⟨item.bytes, rest, .frame g, rfl, .frame valid fine bytes⟩
  | invalid rest =>
    suffices ∃ taken, bs = taken ++ rest ∧ Entry.Spans limit taken (.failed .invalidFrame) by
      obtain ⟨taken, split, spans⟩ := this
      exact ⟨taken, rest, _, split, spans⟩
    unfold Frame.read at read
    cases head : Head.read bs with
    | unfinished => simp [head] at read
    | invalid behind =>
      simp only [head, Found.invalid.injEq] at read
      exact read ▸ Head.spans_of_invalid head
    | item h behind =>
      simp only [head] at read
      by_cases long : limit < h.payloadLen
      · rw [if_pos long, Found.invalid.injEq] at read
        exact read ▸ Head.spans_of_long head long
      · rw [if_neg long] at read
        cases payload : Bytes.split? h.payloadLen.toNat behind <;> simp [payload] at read

/-! ## Items that break off -/

/-- No head is longer than a word and the longest name. -/
theorem Head.read_of_longest {bs : Bytes} (long : 8 + 255 ≤ bs.length) :
    Head.read bs ≠ .unfinished := by
  obtain ⟨word, behind, rfl, size⟩ : ∃ word behind, bs = word ++ behind ∧ word.length = 8 :=
    ⟨bs.take 8, bs.drop 8, (List.take_append_drop 8 bs).symm, by rw [List.length_take]; omega⟩
  obtain ⟨w, rfl⟩ := Bytes.exists_word size
  rw [List.length_append, size] at long
  rw [Head.read_word]
  have method := Word.methodLen_le w
  cases there : Bytes.split? (Word.methodLen w) behind with
  | none =>
    have := Bytes.split?_eq_none_iff.1 there
    omega
  | some p =>
    split
    · cases text : Utf8.decode p.1 <;> simp [text]
    · split
      · split <;> simp
      · simp

/-- What a head leaves is all but so many bytes. -/
theorem Head.length_le_of_read {bs rest : Bytes} {h : Head} (read : Head.read bs = .item h rest) :
    bs.length ≤ 8 + 255 + rest.length := by
  rcases Item.word_of_read read with ⟨w, name, -, method, -, rfl⟩ | ⟨w, -, -, -, rfl⟩
  · have := Word.methodLen_le w
    simp only [List.length_append, Bytes.length_bigEndian]
    omega
  · simp only [List.length_append, Bytes.length_bigEndian]
    omega

/-- No item is longer than this. -/
def longestItem : Nat := 8 + 255 + 0xFFFFFFFF

theorem Frame.read_of_longest {bs : Bytes} (long : longestItem ≤ bs.length) :
    Frame.read limit bs ≠ .unfinished := by
  unfold longestItem at long
  intro unfinished
  unfold Frame.read at unfinished
  cases found : Head.read bs with
  | unfinished => exact Head.read_of_longest (by omega) found
  | invalid rest => simp [found] at unfinished
  | item h rest =>
    simp only [found] at unfinished
    split at unfinished
    · cases unfinished
    · cases there : Bytes.split? h.payloadLen.toNat rest with
      | some p => simp [there] at unfinished
      | none =>
        have few := Bytes.split?_eq_none_iff.1 there
        have most := h.payloadLen.toNat_lt
        have left := Head.length_le_of_read found
        omega

/-- A reader that waits for more has before it an item that breaks off, or nothing. -/
theorem Frame.read_eq_unfinished_iff {bs : Bytes} :
    Frame.read limit bs = .unfinished ↔ bs = [] ∨ Cut limit bs := by
  constructor
  · intro unfinished
    by_cases empty : bs = []
    · exact .inl empty
    -- behind so many more bytes the item would be complete
    obtain ⟨more, enough⟩ : ∃ more : Bytes, longestItem ≤ more.length :=
      ⟨List.replicate longestItem 0, by simp⟩
    have finished : Frame.read limit (bs ++ more) ≠ .unfinished :=
      read_of_longest (by rw [List.length_append]; omega)
    obtain ⟨taken, rest, e, split, spans⟩ := exists_spans finished
    have notWithin : ¬ taken <+: bs := by
      rintro ⟨left, rfl⟩
      exact (spans.read left).1 unfinished
    obtain ⟨left, rfl⟩ : bs <+: taken := by
      rcases List.prefix_or_prefix_of_prefix (List.prefix_append bs more)
        (split ▸ List.prefix_append taken rest) with behind | within
      · exact behind
      · exact absurd within notWithin
    refine .inr ⟨empty, left, e, ?_, spans⟩
    rintro rfl
    exact notWithin (by simp)
  · rintro (rfl | ⟨-, more, e, some, spans⟩)
    · exact read_nil limit
    · by_contra finished
      have whole := (spans.read []).2
      rw [List.append_nil, read_append more finished] at whole
      -- the bytes that are missing would be left over
      cases found : Frame.read limit bs with
      | unfinished => exact finished found
      | item f rest => simp [found, Found.extend, Source.entryOf, some] at whole
      | invalid rest => simp [found, Found.extend, Source.entryOf, some] at whole

/-! ## All entries -/

/-- The bytes in the order in which they are taken, without gap or overlap, and with each part the
entry that tells it. -/
inductive Consumes (limit : UInt32) : Bytes → List (Bytes × Entry) → Prop
  | ended : Consumes limit [] []
  | cut {taken : Bytes} : Cut limit taken →
    Consumes limit taken [(taken, .failed (.io .unexpectedEof))]
  | entry {taken rest : Bytes} {e : Entry} {pieces : List (Bytes × Entry)} :
    Entry.Spans limit taken e → Consumes limit rest pieces →
    Consumes limit (taken ++ rest) ((taken, e) :: pieces)

/-- Any bytes are taken in some way. -/
theorem exists_consumes (limit : UInt32) (bs : Bytes) : ∃ pieces, Consumes limit bs pieces := by
  induction size : bs.length using Nat.strongRecOn generalizing bs with
  | ind n ih =>
    by_cases unfinished : Frame.read limit bs = .unfinished
    · rcases Frame.read_eq_unfinished_iff.1 unfinished with rfl | cut
      · exact ⟨[], .ended⟩
      · exact ⟨_, .cut cut⟩
    · obtain ⟨taken, rest, e, rfl, spans⟩ := Frame.exists_spans unfinished
      have some := spans.length_taken
      have less : rest.length < n := by
        rw [← size, List.length_append]
        omega
      obtain ⟨pieces, consumes⟩ := ih rest.length less rest rfl
      exact ⟨(taken, e) :: pieces, .entry spans consumes⟩

theorem Consumes.flatMap_eq {bs : Bytes} {pieces : List (Bytes × Entry)}
    (h : Consumes limit bs pieces) : pieces.flatMap Prod.fst = bs := by
  induction h with
  | ended => rfl
  | cut => simp
  | entry _ _ ih => rw [List.flatMap_cons, ih]

/-- A reader tells the entry of each part, one after the other, and then the end. -/
theorem Consumes.entries_eq {bs : Bytes} {pieces : List (Bytes × Entry)}
    (h : Consumes limit bs pieces) :
    Frame.entries limit bs = pieces.map Prod.snd ++ [.ended] := by
  induction h with
  | ended => simp [Frame.entries]
  | @cut taken cut =>
    have unfinished := Frame.read_eq_unfinished_iff.2 (.inr cut)
    rw [Source.entries_of_ne_nil limit cut.1, unfinished]
    simp [Source.entryOf, Frame.entries]
  | @entry taken rest e pieces spans _ ih =>
    have some : taken ++ rest ≠ [] := by
      rintro empty
      have := spans.length_taken
      rw [(List.append_eq_nil_iff.1 empty).1, List.length_nil] at this
      omega
    rw [Source.entries_of_ne_nil limit some, (spans.read rest).2]
    simp [ih]

/-- Every part but the last one has eight bytes or more. -/
theorem Consumes.length_le {bs : Bytes} {pieces : List (Bytes × Entry)}
    (h : Consumes limit bs pieces) : 8 * pieces.length ≤ bs.length + 7 := by
  induction h with
  | ended => simp
  | cut cut =>
    have := List.length_pos_iff.2 cut.1
    simp only [List.length_singleton]
    omega
  | entry spans _ ih =>
    have := spans.length_taken
    simp only [List.length_cons, List.length_append]
    omega

theorem Consumes.eq_nil {pieces : List (Bytes × Entry)} (h : Consumes limit [] pieces) :
    pieces = [] := by
  have few := h.length_le
  rw [List.length_nil] at few
  exact List.eq_nil_of_length_eq_zero (by omega)

/-- What the first entry leaves is taken by the others. -/
theorem Consumes.tail {bs : Bytes} {pieces : List (Bytes × Entry)} (h : Consumes limit bs pieces)
    (some : bs ≠ []) :
    Consumes limit (Source.entryOf (Frame.read limit bs)).2 pieces.tail := by
  cases h with
  | ended => exact absurd rfl some
  | cut cut =>
    rw [Frame.read_eq_unfinished_iff.2 (.inr cut)]
    exact .ended
  | entry spans later =>
    rw [(spans.read _).2]
    exact later

/-- There is one way only to take the bytes. -/
theorem Consumes.unique {bs : Bytes} {pieces others : List (Bytes × Entry)}
    (first : Consumes limit bs pieces) (second : Consumes limit bs others) : others = pieces := by
  induction first generalizing others with
  | ended => exact second.eq_nil
  | cut cut =>
    have unfinished := Frame.read_eq_unfinished_iff.2 (.inr cut)
    cases second with
    | ended => exact absurd rfl cut.1
    | cut => rfl
    | entry spans => exact absurd unfinished (spans.read _).1
  | @entry taken rest e pieces spans _ ih =>
    obtain ⟨finished, told⟩ := spans.read rest
    generalize whole : taken ++ rest = bs at second finished told
    cases second with
    | ended => exact absurd (Frame.read_nil limit) finished
    | cut cut => exact absurd (Frame.read_eq_unfinished_iff.2 (.inr cut)) finished
    | @entry taken' rest' e' pieces' spans' later =>
      obtain ⟨rfl, rfl⟩ := Prod.mk.inj ((spans'.read rest').2.symm.trans told)
      rw [List.append_cancel_right whole, ih later]

end

end RemoteCall
