import RemoteCall.Frame.Decode
import RemoteCall.Outcome

/-!
# Frames off a stream

What has been read off the front of some bytes stays the same when more bytes arrive. So the frames
that a reader took one by one, while bytes arrived in pieces, are those at the front of all bytes
together: `Frame.Takes limit bs fs rest` says that `fs` stand at the front of `bs`, before `rest`.

    Frame.Takes limit bs fs rest →
      Frame.entries limit bs = fs.map .frame ++ Frame.entries limit rest     (Takes.entries_eq)
    f.WellFormed limit → Frame.read limit (f.bytes ++ rest) = .item f rest       (read_bytes)
-/

namespace RemoteCall

/-! ## More bytes -/

theorem Bytes.split?_append {n : Nat} {bs front rest : Bytes} (more : Bytes)
    (h : Bytes.split? n bs = some (front, rest)) :
    Bytes.split? n (bs ++ more) = some (front, rest ++ more) := by
  obtain ⟨rfl, size⟩ := Bytes.split?_eq_some_iff.1 h
  exact Bytes.split?_eq_some_iff.2 ⟨by simp, size⟩

/-- The front comes off at its own length. -/
theorem Bytes.split?_left {n : Nat} {front : Bytes} (rest : Bytes) (size : front.length = n) :
    Bytes.split? n (front ++ rest) = some (front, rest) :=
  Bytes.split?_eq_some_iff.2 ⟨rfl, size⟩

/-- What was found, with more bytes behind it. -/
def Found.extend (more : Bytes) : Found α → Found α
  | .item a rest => .item a (rest ++ more)
  | .invalid rest => .invalid (rest ++ more)
  | .unfinished => .unfinished

theorem Head.read_append {bs : Bytes} (more : Bytes) (h : Head.read bs ≠ .unfinished) :
    Head.read (bs ++ more) = (Head.read bs).extend more := by
  unfold Head.read at h ⊢
  cases hw : Bytes.split? 8 bs with
  | none => simp [hw] at h
  | some p =>
    obtain ⟨w, r⟩ := p
    rw [Bytes.split?_append more hw]
    simp only [hw] at h ⊢
    cases ha : Announced.ofWord w with
    | unknown => rfl
    | reply => rfl
    | call i m n =>
      simp only [ha] at h ⊢
      cases hm : Bytes.split? m r with
      | none => simp [hm] at h
      | some q =>
        obtain ⟨name, r'⟩ := q
        rw [Bytes.split?_append more hm]
        cases hd : Utf8.decode name <;> simp [Found.extend, hd]

namespace Frame

theorem read_append {limit : UInt32} {bs : Bytes} (more : Bytes)
    (h : Frame.read limit bs ≠ .unfinished) :
    Frame.read limit (bs ++ more) = (Frame.read limit bs).extend more := by
  unfold Frame.read at h ⊢
  cases hh : Head.read bs with
  | unfinished => simp [hh] at h
  | invalid r => rw [Head.read_append more (by simp [hh]), hh]; rfl
  | item a r =>
    rw [Head.read_append more (by simp [hh]), hh]
    simp only [hh, Found.extend] at h ⊢
    by_cases long : limit < a.payloadLen
    · simp [long]
    · simp only [long, if_false] at h ⊢
      cases hp : Bytes.split? a.payloadLen.toNat r with
      | none => simp [hp] at h
      | some q =>
        obtain ⟨payload, r'⟩ := q
        rw [Bytes.split?_append more hp]

theorem read_append_item {limit : UInt32} {bs rest : Bytes} {f : Frame} (more : Bytes)
    (h : Frame.read limit bs = .item f rest) :
    Frame.read limit (bs ++ more) = .item f (rest ++ more) := by
  rw [read_append more (by simp [h]), h]
  rfl

/-! ## Several frames -/

/-- The frames stand at the front of the bytes, one behind the other; the rest comes after them. -/
inductive Takes (limit : UInt32) : Bytes → List Frame → Bytes → Prop
  | none (bs : Bytes) : Takes limit bs [] bs
  | frame {bs mid rest : Bytes} {f : Frame} {fs : List Frame} :
    Frame.read limit bs = .item f mid → Takes limit mid fs rest → Takes limit bs (f :: fs) rest

theorem Takes.append {limit : UInt32} {bs rest : Bytes} {fs : List Frame} (more : Bytes)
    (h : Takes limit bs fs rest) : Takes limit (bs ++ more) fs (rest ++ more) := by
  induction h with
  | none bs => exact .none _
  | frame read _ ih => exact .frame (read_append_item more read) ih

theorem Takes.snoc {limit : UInt32} {bs mid rest : Bytes} {fs : List Frame} {f : Frame}
    (h : Takes limit bs fs mid) (read : Frame.read limit mid = .item f rest) :
    Takes limit bs (fs ++ [f]) rest := by
  induction h with
  | none bs => exact .frame read (.none _)
  | frame first _ ih => exact .frame first (ih read)

theorem read_nil (limit : UInt32) : Frame.read limit [] = .unfinished := by
  simp [Frame.read, Head.read, Bytes.split?]

/-- A reader of whole streams finds the same frames first. -/
theorem Takes.entries_eq {limit : UInt32} {bs rest : Bytes} {fs : List Frame}
    (h : Takes limit bs fs rest) :
    Frame.entries limit bs = fs.map .frame ++ Frame.entries limit rest := by
  induction h with
  | none bs => rfl
  | @frame bs mid rest f fs read _ ih =>
    have full : bs ≠ [] := by
      rintro rfl
      simp [read_nil] at read
    rw [Frame.entries, if_neg full]
    split
    next f' rest' found =>
      obtain ⟨rfl, rfl⟩ : f' = f ∧ rest' = mid := by simpa [found] using read
      simp [ih]
    next _ found => simp [found] at read
    next found => simp [found] at read

/-! ## Frames that were written -/

/-- The bytes of a frame; none at all if it cannot be written. -/
def bytes (f : Frame) : Bytes := f.encode?.getD []

end Frame

/-- A frame has parts that can be written, unless its method is too long. -/
theorem Frame.exists_parts {f : Frame} (short : f.head.methodBytes.length ≤ 255) :
    ∃ parts, f.parts? = some parts ∧ f.bytes = parts.flatten := by
  cases cut : f.parts? with
  | some parts => exact ⟨parts, rfl, by simp [Frame.bytes, Frame.encode?, cut]⟩
  | none =>
    have refused : f.encode? = none := by simp [Frame.encode?, cut]
    have long := (Frame.encode?_eq_none_iff f).1 refused
    omega

namespace Announced

/-- The word of a head is read field by field. -/
theorem ofWord_word (n : UInt32) (i : SendId) {m status tag : Nat} (small : m ≤ 255)
    (low : status * 16 + tag ≤ 255) :
    Announced.ofWord (Head.word n i m status tag) =
      if (status * 16 + tag) % 16 = Head.callTag then .call i m n
      else if (status * 16 + tag) % 16 = Head.replyTag then
        (ReplyStatus.ofByte? (UInt8.ofNat ((status * 16 + tag) / 16))).elim .unknown (.reply i · n)
      else .unknown := by
  have payload : Bytes.ofBigEndian (Bytes.bigEndian 4 n.toNat) = n.toNat := by
    rw [Bytes.ofBigEndian_bigEndian]
    exact Nat.mod_eq_of_lt n.toNat_lt
  have id : Bytes.ofBigEndian (Bytes.bigEndian 2 i.toNat) = i.toNat := by
    rw [Bytes.ofBigEndian_bigEndian]
    exact Nat.mod_eq_of_lt i.toNat_lt
  have byte : ∀ k ≤ 255, Bytes.ofBigEndian [UInt8.ofNat k] = k := by
    intro k hk
    simp only [Bytes.ofBigEndian, List.foldl_cons, List.foldl_nil, UInt8.toNat_ofNat']
    omega
  -- the four fields, cut out of the word
  have cut : ∀ (a b : Bytes) (x y : UInt8), a.length = 4 → b.length = 2 →
      (a ++ b ++ [x, y]).take 4 = a ∧ ((a ++ b ++ [x, y]).drop 4).take 2 = b ∧
        ((a ++ b ++ [x, y]).drop 6).take 1 = [x] ∧ (a ++ b ++ [x, y]).drop 7 = [y] := by
    intro a b x y ha hb
    simp [List.drop_append, ha, hb, List.drop_eq_nil_of_le]
  obtain ⟨h1, h2, h3, h4⟩ := cut (Bytes.bigEndian 4 n.toNat) (Bytes.bigEndian 2 i.toNat)
    (UInt8.ofNat m) (UInt8.ofNat (status * 16 + tag)) (by simp) (by simp)
  simp only [Announced.ofWord, Head.word, h1, h2, h3, h4, payload, id, byte m small, byte _ low,
    UInt32.ofNat_toNat, UInt16.ofNat_toNat]
  cases ReplyStatus.ofByte? (UInt8.ofNat ((status * 16 + tag) / 16)) <;> rfl

theorem ofWord_call (n : UInt32) (i : SendId) {m : Nat} (small : m ≤ 255) :
    Announced.ofWord (Head.word n i m 0 Head.callTag) = .call i m n := by
  rw [ofWord_word n i small (by decide), if_pos (by decide)]

theorem ofWord_reply (n : UInt32) (i : SendId) (s : ReplyStatus) :
    Announced.ofWord (Head.word n i 0 s.toByte.toNat Head.replyTag) = .reply i s n := by
  rw [ofWord_word n i (by decide) (by cases s <;> decide), if_neg (by cases s <;> decide),
    if_pos (by cases s <;> decide)]
  have back : UInt8.ofNat ((s.toByte.toNat * 16 + Head.replyTag) / 16) = s.toByte := by
    cases s <;> decide
  rw [back, ReplyStatus.ofByte?_toByte, Option.elim_some]

end Announced

/-- The bytes of a head: its word and the method. -/
theorem Head.read_encode {h : Head} {w : Bytes} (rest : Bytes) (e : h.encode? = some w) :
    Head.read (w ++ (h.methodBytes ++ rest)) = .item h rest := by
  cases h with
  | reply i s n =>
    obtain rfl := Option.some.inj e
    simp only [Head.methodBytes, List.nil_append]
    unfold Head.read
    rw [Bytes.split?_left rest (Head.length_word ..)]
    simp only [Announced.ofWord_reply]
  | call i m n =>
    simp only [Head.encode?] at e
    split at e
    next small =>
      obtain rfl := Option.some.inj e
      unfold Head.read
      rw [Bytes.split?_left _ (Head.length_word ..)]
      simp only [Announced.ofWord_call n i small]
      rw [Bytes.split?_left rest rfl]
      simp only [Head.methodBytes, Utf8.decode_encode]
    next => cases e

namespace Frame

theorem bytes_of_encode? {f : Frame} {w : Bytes} (e : f.head.encode? = some w) :
    f.bytes = w ++ (f.head.methodBytes ++ f.payload) := by
  simp [bytes, encode?, parts?, e]

/-- Once the head is read, the payload that it announces makes the frame. -/
theorem read_of_head {limit : UInt32} {bs payload rest : Bytes} {h : Head}
    (head : Head.read bs = .item h (payload ++ rest))
    (announced : h.payloadLen.toNat = payload.length) (within : h.payloadLen ≤ limit) :
    Frame.read limit bs = .item ⟨h, payload⟩ rest := by
  unfold Frame.read
  rw [head]
  simp only
  rw [if_neg (UInt32.not_lt.2 within), announced, Bytes.split?_left rest rfl]

/-- A frame within the limit is read back from its bytes, whatever follows them. -/
theorem read_bytes {limit : UInt32} {f : Frame} (rest : Bytes) (h : f.WellFormed limit) :
    Frame.read limit (f.bytes ++ rest) = .item f rest := by
  obtain ⟨announced, within, short⟩ := h
  obtain ⟨w, e⟩ : ∃ w, f.head.encode? = some w := by
    cases hd : f.head with
    | reply => exact ⟨_, rfl⟩
    | call i m n => exact ⟨_, if_pos (by simpa [hd] using short)⟩
  rw [bytes_of_encode? e, List.append_assoc, List.append_assoc]
  exact read_of_head (Head.read_encode _ e) announced within

theorem wellFormed_reply {limit : UInt32} (i : SendId) (status : ReplyStatus) {payload : Bytes}
    (within : payload.length ≤ limit.toNat) : (Frame.reply i status payload).WellFormed limit := by
  have small : payload.length < 0x100000000 := Nat.lt_of_le_of_lt within limit.toNat_lt
  refine ⟨?_, ?_, Nat.zero_le _⟩
  · exact Nat.mod_eq_of_lt small
  · rw [UInt32.le_iff_toNat_le]
    exact Nat.le_trans (Nat.le_of_eq (Nat.mod_eq_of_lt small)) within

theorem wellFormed_call {limit : UInt32} (i : SendId) {method : String} {payload : Bytes}
    (within : payload.length ≤ limit.toNat) (short : (Utf8.encode method).length ≤ 255) :
    (Frame.call i method payload).WellFormed limit := by
  have small : payload.length < 0x100000000 := Nat.lt_of_le_of_lt within limit.toNat_lt
  refine ⟨?_, ?_, short⟩
  · exact Nat.mod_eq_of_lt small
  · rw [UInt32.le_iff_toNat_le]
    exact Nat.le_trans (Nat.le_of_eq (Nat.mod_eq_of_lt small)) within

/-- A frame within a limit is within a higher one. -/
theorem WellFormed.mono {limit more : UInt32} {f : Frame} (h : f.WellFormed limit)
    (le : limit ≤ more) : f.WellFormed more :=
  ⟨h.1, UInt32.le_trans h.2.1 le, h.2.2⟩

/-- Frames that were written are taken one by one. -/
theorem takes_bytes {limit : UInt32} {fs : List Frame} (h : ∀ f ∈ fs, f.WellFormed limit)
    (rest : Bytes) : Takes limit (fs.flatMap Frame.bytes ++ rest) fs rest := by
  induction fs with
  | nil => exact .none rest
  | cons f fs ih =>
    rw [List.flatMap_cons, List.append_assoc]
    exact .frame (read_bytes _ (h f (by simp))) (ih fun g hg => h g (by simp [hg]))

/-! ## Bytes on their way -/

/-- The bytes are those of well-formed frames, one behind the other. -/
structure Carries (limit : UInt32) (fs : List Frame) (bs : Bytes) : Prop where
  bytes : bs = fs.flatMap Frame.bytes
  wellFormed : ∀ f ∈ fs, f.WellFormed limit

theorem Carries.append {limit : UInt32} {fs gs : List Frame} {bs cs : Bytes}
    (front : Carries limit fs bs) (back : Carries limit gs cs) :
    Carries limit (fs ++ gs) (bs ++ cs) where
  bytes := by rw [front.bytes, back.bytes, List.flatMap_append]
  wellFormed f hf := (List.mem_append.1 hf).elim (front.wellFormed f) (back.wellFormed f)

/-- What stands at the front of such bytes is the first frame. -/
theorem Carries.read_cons {limit : UInt32} {f : Frame} {fs : List Frame} {bs : Bytes}
    (h : Carries limit (f :: fs) bs) :
    Frame.read limit bs = .item f (fs.flatMap Frame.bytes) := by
  rw [h.bytes, List.flatMap_cons]
  exact read_bytes _ (h.wellFormed f List.mem_cons_self)

/-- A reader that finds a frame in those bytes that have arrived has found the first one. -/
theorem Carries.take {limit : UInt32} {f : Frame} {fs : List Frame} {bs more rest : Bytes}
    (h : Carries limit fs (bs ++ more)) (item : Frame.read limit bs = .item f rest) :
    ∃ gs, fs = f :: gs ∧ Carries limit gs (rest ++ more) := by
  have whole := read_append_item more item
  cases fs with
  | nil =>
    rw [h.bytes, List.flatMap_nil, read_nil] at whole
    cases whole
  | cons g gs =>
    obtain ⟨rfl, same⟩ : g = f ∧ gs.flatMap Frame.bytes = rest ++ more := by
      rw [h.read_cons] at whole
      simpa using whole
    exact ⟨gs, rfl, same.symm, fun f hf => h.wellFormed f (List.mem_cons_of_mem _ hf)⟩

theorem Carries.sound {limit : UInt32} {fs : List Frame} {bs more rest : Bytes}
    (h : Carries limit fs (bs ++ more)) : Frame.read limit bs ≠ .invalid rest := by
  intro invalid
  have whole : Frame.read limit (bs ++ more) = .invalid (rest ++ more) := by
    rw [read_append more (by simp [invalid]), invalid]
    rfl
  cases fs with
  | nil =>
    rw [h.bytes, List.flatMap_nil, read_nil] at whole
    cases whole
  | cons g gs =>
    rw [h.read_cons] at whole
    cases whole

/-- A reader that has all the bytes and waits for more has taken all frames. -/
theorem Carries.eq_nil {limit : UInt32} {fs : List Frame} {bs : Bytes} (h : Carries limit fs bs)
    (unfinished : Frame.read limit bs = .unfinished) : fs = [] := by
  cases fs with
  | nil => rfl
  | cons g gs =>
    rw [h.read_cons] at unfinished
    cases unfinished

/-- Of the frames that were sent the first ones were taken; the bytes are those of the others. -/
def Flows (limit : UInt32) (sent taken : List Frame) (bs : Bytes) : Prop :=
  ∃ left, sent = taken ++ left ∧ Carries limit left bs

/-- A reader takes the frames that were sent, one by one, and leaves the others whole. -/
theorem Carries.flows {limit : UInt32} {sent taken : List Frame} {bs more rest : Bytes}
    (h : Carries limit sent (bs ++ more)) (takes : Takes limit bs taken rest) :
    Flows limit sent taken (rest ++ more) := by
  induction takes generalizing sent with
  | none bs => exact ⟨sent, rfl, h⟩
  | frame read _ ih =>
    obtain ⟨others, rfl, behind⟩ := h.take read
    obtain ⟨left, same, carries⟩ := ih behind
    exact ⟨left, by rw [same, List.cons_append], carries⟩

theorem Flows.sound {limit : UInt32} {sent taken : List Frame} {bs more rest : Bytes}
    (h : Flows limit sent taken (bs ++ more)) : Frame.read limit bs ≠ .invalid rest := by
  obtain ⟨left, -, carries⟩ := h
  exact carries.sound

/-- A reader that has all the bytes and waits for more has taken what was sent. -/
theorem Flows.eq_of_unfinished {limit : UInt32} {sent taken : List Frame} {bs : Bytes}
    (h : Flows limit sent taken bs) (unfinished : Frame.read limit bs = .unfinished) :
    taken = sent := by
  obtain ⟨left, rfl, carries⟩ := h
  rw [carries.eq_nil unfinished, List.append_nil]

/-- The next frame that is taken is the next one that was sent. -/
theorem Flows.next {limit : UInt32} {sent taken : List Frame} {f : Frame} {bs more rest : Bytes}
    (h : Flows limit sent taken (bs ++ more)) (item : Frame.read limit bs = .item f rest) :
    taken ++ [f] <+: sent := by
  obtain ⟨left, rfl, carries⟩ := h
  obtain ⟨others, rfl, -⟩ := carries.take item
  exact ⟨others, by simp⟩

end Frame

/-- A reply fits in a frame or there is none. -/
theorem Outcome.wellFormed_of_frame? {i : SendId} {r : Outcome} {f : Frame}
    (h : Outcome.frame? i r = some f) : f.WellFormed 0xFFFFFFFF := by
  simp only [Outcome.frame?] at h
  split at h
  next fits =>
    obtain rfl := Option.some.inj h
    exact Frame.wellFormed_reply i _ (Nat.le_of_lt_succ fits)
  next => cases h

end RemoteCall
