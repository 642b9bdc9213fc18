import Mathlib.Algebra.Group.Nat.Defs
import Mathlib.Data.List.Induction
import RemoteCall.Proofs.Frame.Pieces

/-!
# The grammar of a stream

A stream of frames is a row of items (`Item`): a call or a reply, each with the word of its head and
the bytes that the word announces. A source tells frames and a clean end exactly if its bytes are a
row of valid items, and the frames written again are the same items without the bits that mean
nothing (`Item.canonical`):

    Frame.read limit bs = .item f rest → ∃ item, item.Valid limit ∧ bs = item.bytes ++ rest
                                                                           (Item.exists_of_read)
    item.Valid limit → ∃ f, f.bytes = item.canonical.bytes ∧ …       (Item.Valid.exists_frame)
-/

namespace RemoteCall

/-! ## Words -/

namespace Bytes

/-- The high bytes of a number, and then the low ones. -/
theorem bigEndian_add (a b n : Nat) :
    bigEndian (a + b) n = bigEndian a (n / 256 ^ b) ++ bigEndian b n := by
  induction b generalizing n with
  | zero => simp [bigEndian]
  | succ b ih =>
    rw [← Nat.add_assoc, bigEndian, bigEndian, ih, List.append_assoc, Nat.div_div_eq_div_mul,
      Nat.pow_succ']

/-- Bytes are those of the number that they spell. -/
theorem bigEndian_ofBigEndian (bs : Bytes) : bigEndian bs.length (ofBigEndian bs) = bs := by
  induction bs using List.reverseRecOn with
  | nil => rfl
  | append_singleton bs b ih =>
    have high : (ofBigEndian bs * 256 + b.toNat) / 256 = ofBigEndian bs := by
      have := b.toNat_lt
      omega
    have low : UInt8.ofNat (ofBigEndian bs * 256 + b.toNat) = b := by
      apply UInt8.toNat_inj.1
      simp
    rw [List.length_append, List.length_singleton, bigEndian, ofBigEndian_concat, high, ih, low]

theorem ofBigEndian_lt (bs : Bytes) : ofBigEndian bs < 256 ^ bs.length := by
  induction bs using List.reverseRecOn with
  | nil => simp [ofBigEndian]
  | append_singleton bs b ih =>
    have := b.toNat_lt
    rw [List.length_append, List.length_singleton, ofBigEndian_concat, Nat.pow_succ]
    omega

/-- Only the low bytes of a number are written. -/
theorem bigEndian_mod (w n : Nat) : bigEndian w (n % 256 ^ w) = bigEndian w n := by
  have same := bigEndian_ofBigEndian (bigEndian w n)
  rw [length_bigEndian, ofBigEndian_bigEndian] at same
  exact same

/-- Any eight bytes are a word. -/
theorem exists_word {bs : Bytes} (size : bs.length = 8) :
    ∃ w : UInt64, bs = bigEndian 8 w.toNat := by
  have small : ofBigEndian bs < 2 ^ 64 := by simpa [size] using ofBigEndian_lt bs
  refine ⟨UInt64.ofNat (ofBigEndian bs), ?_⟩
  rw [UInt64.toNat_ofNat_of_lt' small, ← size]
  exact (bigEndian_ofBigEndian bs).symm

end Bytes

namespace Word

section
variable (w : UInt64)

/-- The fields of a head's word. -/
def tag : Nat := (w &&& 0xF).toNat

def status : Nat := (w >>> 4 &&& 0xF).toNat

def methodLen : Nat := (w >>> 8 &&& 0xFF).toNat

def sendId : SendId := (w >>> 16).toUInt16

def payloadLen : UInt32 := (w >>> 32).toUInt32

theorem tag_eq : tag w = w.toNat % 16 := by
  rw [tag, UInt64.toNat_and]
  exact Nat.and_two_pow_sub_one_eq_mod w.toNat 4

theorem status_eq : status w = w.toNat / 16 % 16 := by
  rw [status, UInt64.toNat_and, UInt64.toNat_shiftRight, Nat.shiftRight_eq_div_pow]
  exact Nat.and_two_pow_sub_one_eq_mod _ 4

theorem methodLen_eq : methodLen w = w.toNat / 256 % 256 := by
  rw [methodLen, UInt64.toNat_and, UInt64.toNat_shiftRight, Nat.shiftRight_eq_div_pow]
  exact Nat.and_two_pow_sub_one_eq_mod _ 8

theorem sendId_eq : (sendId w).toNat = w.toNat / 65536 % 65536 := by
  rw [sendId, UInt64.toNat_toUInt16, UInt64.toNat_shiftRight, Nat.shiftRight_eq_div_pow]
  rfl

theorem payloadLen_eq : (payloadLen w).toNat = w.toNat / 4294967296 := by
  rw [payloadLen, UInt64.toNat_toUInt32, UInt64.toNat_shiftRight, Nat.shiftRight_eq_div_pow]
  have := w.toNat_lt
  have shift : UInt64.toNat 32 % 64 = 32 := rfl
  rw [shift]
  omega

/-- A word's bytes are those of its fields. -/
theorem bigEndian_eq_word : Bytes.bigEndian 8 w.toNat =
    Head.word (payloadLen w) (sendId w) (methodLen w) (status w) (tag w) := by
  have cut : Bytes.bigEndian 8 w.toNat = Bytes.bigEndian 4 (w.toNat / 4294967296) ++
      (Bytes.bigEndian 2 (w.toNat / 65536) ++
        [UInt8.ofNat (w.toNat / 256), UInt8.ofNat w.toNat]) := by
    rw [Bytes.bigEndian_add 4 4, Bytes.bigEndian_add 2 2 w.toNat]
    rfl
  have id : Bytes.bigEndian 2 (w.toNat / 65536) = Bytes.bigEndian 2 (sendId w).toNat := by
    rw [sendId_eq]
    exact (Bytes.bigEndian_mod 2 _).symm
  have method : UInt8.ofNat (w.toNat / 256) = UInt8.ofNat (methodLen w) := by
    apply UInt8.toNat_inj.1
    rw [methodLen_eq, UInt8.toNat_ofNat', UInt8.toNat_ofNat']
    omega
  have low : UInt8.ofNat w.toNat = UInt8.ofNat (status w * 16 + tag w) := by
    apply UInt8.toNat_inj.1
    rw [status_eq, tag_eq, UInt8.toNat_ofNat', UInt8.toNat_ofNat']
    omega
  rw [cut, id, method, low, Head.word, payloadLen_eq, List.append_assoc]

/-- A word that keeps its high bits and its lowest ones. -/
theorem toNat_and_mask {mask : UInt64} (high low : Nat) (le : high ≤ 64)
    (upper : mask.toNat / 2 ^ high = 2 ^ (64 - high) - 1)
    (lower : mask.toNat % 2 ^ high = 2 ^ low - 1) (less : low ≤ high) :
    (w &&& mask).toNat = w.toNat / 2 ^ high * 2 ^ high + w.toNat % 2 ^ low := by
  have whole : w.toNat / 2 ^ high < 2 ^ (64 - high) := by
    apply Nat.div_lt_of_lt_mul
    rw [← Nat.pow_add, Nat.add_sub_cancel' le]
    exact w.toNat_lt
  rw [← Nat.div_add_mod (w &&& mask).toNat (2 ^ high), UInt64.toNat_and, Nat.and_div_two_pow,
    Nat.and_mod_two_pow, upper, lower, Nat.and_two_pow_sub_one_eq_mod,
    Nat.and_two_pow_sub_one_eq_mod, Nat.mod_eq_of_lt whole,
    Nat.mod_mod_of_dvd _ (Nat.pow_dvd_pow 2 less), Nat.mul_comm]

/-- A word with the same high bits has the same payload length and the same id. -/
theorem bigEndian_of_high {v : UInt64} (high : v.toNat / 65536 = w.toNat / 65536) :
    Bytes.bigEndian 8 v.toNat =
      Head.word (payloadLen w) (sendId w) (methodLen v) (status v) (tag v) := by
  have payload : payloadLen v = payloadLen w := by
    rw [← UInt32.toNat_inj, payloadLen_eq, payloadLen_eq]
    omega
  have id : sendId v = sendId w := by
    rw [← UInt16.toNat_inj, sendId_eq, sendId_eq, high]
  rw [bigEndian_eq_word, payload, id]

theorem bigEndian_without_status : Bytes.bigEndian 8 (w &&& ~~~0xF0).toNat =
    Head.word (payloadLen w) (sendId w) (methodLen w) 0 (tag w) := by
  have kept : (w &&& ~~~0xF0).toNat = w.toNat / 256 * 256 + w.toNat % 16 :=
    toNat_and_mask w 8 4 (by decide) rfl rfl (by decide)
  have method : methodLen (w &&& ~~~0xF0) = methodLen w := by
    rw [methodLen_eq, methodLen_eq, kept]
    omega
  have none : status (w &&& ~~~0xF0) = 0 := by
    rw [status_eq, kept]
    omega
  have same : tag (w &&& ~~~0xF0) = tag w := by
    rw [tag_eq, tag_eq, kept]
    omega
  rw [bigEndian_of_high w (by omega), method, none, same]

theorem bigEndian_without_methodLen : Bytes.bigEndian 8 (w &&& ~~~0xFF00).toNat =
    Head.word (payloadLen w) (sendId w) 0 (status w) (tag w) := by
  have kept : (w &&& ~~~0xFF00).toNat = w.toNat / 65536 * 65536 + w.toNat % 256 :=
    toNat_and_mask w 16 8 (by decide) rfl rfl (by decide)
  have none : methodLen (w &&& ~~~0xFF00) = 0 := by
    rw [methodLen_eq, kept]
    omega
  have code : status (w &&& ~~~0xFF00) = status w := by
    rw [status_eq, status_eq, kept]
    omega
  have same : tag (w &&& ~~~0xFF00) = tag w := by
    rw [tag_eq, tag_eq, kept]
    omega
  rw [bigEndian_of_high w (by omega), none, code, same]

theorem tag_lt : tag w < 16 := by
  rw [tag_eq]
  omega

theorem status_lt : status w < 16 := by
  rw [status_eq]
  omega

theorem methodLen_le : methodLen w ≤ 255 := by
  rw [methodLen_eq]
  omega

/-- A word announces what its fields say. -/
theorem ofWord_eq : Announced.ofWord (Bytes.bigEndian 8 w.toNat) =
    if tag w = Head.callTag then .call (sendId w) (methodLen w) (payloadLen w)
    else if tag w = Head.replyTag then
      match ReplyStatus.ofByte? (UInt8.ofNat (status w)) with
      | some s => .reply (sendId w) s (payloadLen w)
      | none => .unknown
    else .unknown := by
  have t := tag_lt w
  have s := status_lt w
  have low : (status w * 16 + tag w) % 16 = tag w := by omega
  have high : (status w * 16 + tag w) / 16 = status w := by omega
  have announced := Announced.ofWord_word (payloadLen w) (sendId w) (methodLen_le w)
    (show status w * 16 + tag w ≤ 255 by omega)
  rw [low, high] at announced
  rw [bigEndian_eq_word, announced]
  cases ReplyStatus.ofByte? (UInt8.ofNat (status w)) <;> rfl

end

end Word

/-! ## Items -/

/-- An item of a stream: the word of its head, and the bytes that follow it. -/
inductive Item
  | call (word : UInt64) (method payload : Bytes)
  | reply (word : UInt64) (payload : Bytes)

namespace Item

/-- The word announces what follows it. A call's status and a reply's method length may be any. -/
def Valid (limit : UInt32) : Item → Prop
  | .call w method payload =>
    Word.tag w = 1 ∧ Word.methodLen w = method.length ∧ (∃ name, Utf8.encode name = method) ∧
      (Word.payloadLen w).toNat = payload.length ∧ payload.length ≤ limit.toNat
  | .reply w payload =>
    Word.tag w = 2 ∧ Word.status w ≤ 5 ∧
      (Word.payloadLen w).toNat = payload.length ∧ payload.length ≤ limit.toNat

def bytes : Item → Bytes
  | .call w method payload => Bytes.bigEndian 8 w.toNat ++ method ++ payload
  | .reply w payload => Bytes.bigEndian 8 w.toNat ++ payload

/-- The item with zeros for the bits that mean nothing: 4 to 7 of a call's word, 8 to 15 of a
reply's. -/
def canonical : Item → Item
  | .call w method payload => .call (w &&& ~~~0xF0) method payload
  | .reply w payload => .reply (w &&& ~~~0xFF00) payload

section
variable {limit : UInt32}

/-- A valid item is read as a frame, whose own bytes are those of the canonical item. -/
theorem Valid.exists_frame {item : Item} (h : item.Valid limit) :
    ∃ f : Frame, f.WellFormed limit ∧ f.bytes = item.canonical.bytes ∧
      ∀ rest, Frame.read limit (item.bytes ++ rest) = .item f rest := by
  cases item with
  | call w method payload =>
    obtain ⟨tag, size, ⟨name, rfl⟩, announced, within⟩ := h
    have short : (Utf8.encode name).length ≤ 255 := size ▸ Word.methodLen_le w
    have fits : Word.payloadLen w ≤ limit := by
      rw [UInt32.le_iff_toNat_le, announced]
      exact within
    refine ⟨⟨.call (Word.sendId w) name (Word.payloadLen w), payload⟩,
      ⟨announced, fits, short⟩, ?_, fun rest => ?_⟩
    · have word : (Head.call (Word.sendId w) name (Word.payloadLen w)).encode? =
          some (Head.word (Word.payloadLen w) (Word.sendId w) (Utf8.encode name).length 0 1) :=
        if_pos short
      rw [Frame.bytes_of_encode? word, canonical, bytes, Word.bigEndian_without_status, tag, size,
        List.append_assoc]
      rfl
    · have head : Head.read ((call w (Utf8.encode name) payload).bytes ++ rest) =
          .item (.call (Word.sendId w) name (Word.payloadLen w)) (payload ++ rest) := by
        rw [bytes, List.append_assoc, List.append_assoc]
        unfold Head.read
        rw [Bytes.split?_left _ (Bytes.length_bigEndian ..)]
        simp only [Word.ofWord_eq, if_pos (show Word.tag w = Head.callTag from tag)]
        rw [Bytes.split?_left _ size.symm]
        simp only [Utf8.decode_encode]
      exact Frame.read_of_head head announced fits
  | reply w payload =>
    obtain ⟨tag, code, announced, within⟩ := h
    have fits : Word.payloadLen w ≤ limit := by
      rw [UInt32.le_iff_toNat_le, announced]
      exact within
    obtain ⟨s, known⟩ := Option.isSome_iff_exists.1
      ((ReplyStatus.isSome_ofByte? _ (Word.status_lt w)).2 code)
    have same : s.toByte.toNat = Word.status w := by
      rw [ReplyStatus.toByte_of_ofByte? known, UInt8.toNat_ofNat']
      omega
    refine ⟨⟨.reply (Word.sendId w) s (Word.payloadLen w), payload⟩,
      ⟨announced, fits, Nat.zero_le _⟩, ?_, fun rest => ?_⟩
    · have word : (Head.reply (Word.sendId w) s (Word.payloadLen w)).encode? =
          some (Head.word (Word.payloadLen w) (Word.sendId w) 0 s.toByte.toNat 2) := rfl
      rw [Frame.bytes_of_encode? word, canonical, bytes, Word.bigEndian_without_methodLen, tag,
        same]
      rfl
    · have head : Head.read ((reply w payload).bytes ++ rest) =
          .item (.reply (Word.sendId w) s (Word.payloadLen w)) (payload ++ rest) := by
        have other : Word.tag w ≠ Head.callTag := by simp [tag, Head.callTag]
        rw [bytes, List.append_assoc]
        unfold Head.read
        rw [Bytes.split?_left _ (Bytes.length_bigEndian ..)]
        simp only [Word.ofWord_eq, if_neg other, if_pos (show Word.tag w = Head.replyTag from tag),
          known]
      exact Frame.read_of_head head announced fits

/-- What is read as a head is a word, with the method's name behind it if it is a call. -/
theorem word_of_read {bs rest : Bytes} {h : Head} (read : Head.read bs = .item h rest) :
    (∃ (w : UInt64) (name : String), Word.tag w = 1 ∧
      Word.methodLen w = (Utf8.encode name).length ∧ h.payloadLen = Word.payloadLen w ∧
      bs = Bytes.bigEndian 8 w.toNat ++ Utf8.encode name ++ rest) ∨
    ∃ w : UInt64, Word.tag w = 2 ∧ Word.status w ≤ 5 ∧ h.payloadLen = Word.payloadLen w ∧
      bs = Bytes.bigEndian 8 w.toNat ++ rest := by
  unfold Head.read at read
  cases front : Bytes.split? 8 bs with
  | none => simp [front] at read
  | some p =>
    obtain ⟨word, behind⟩ := p
    obtain ⟨rfl, size⟩ := Bytes.split?_eq_some_iff.1 front
    obtain ⟨w, rfl⟩ := Bytes.exists_word size
    simp only [front, Word.ofWord_eq] at read
    by_cases call : Word.tag w = Head.callTag
    · rw [if_pos call] at read
      cases method : Bytes.split? (Word.methodLen w) behind with
      | none => simp [method] at read
      | some q =>
        obtain ⟨spelled, behind'⟩ := q
        obtain ⟨rfl, length⟩ := Bytes.split?_eq_some_iff.1 method
        simp only [method] at read
        cases text : Utf8.decode spelled with
        | error => simp [text] at read
        | ok name =>
          obtain rfl := Utf8.decode_eq_ok_iff.1 text
          simp only [text, Found.item.injEq] at read
          obtain ⟨rfl, rfl⟩ := read
          exact .inl ⟨w, name, call, length.symm, rfl, (List.append_assoc ..).symm⟩
    · rw [if_neg call] at read
      by_cases reply : Word.tag w = Head.replyTag
      · rw [if_pos reply] at read
        cases known : ReplyStatus.ofByte? (UInt8.ofNat (Word.status w)) with
        | none => simp [known] at read
        | some s =>
          have code := (ReplyStatus.isSome_ofByte? _ (Word.status_lt w)).1 (by simp [known])
          simp only [known, Found.item.injEq] at read
          obtain ⟨rfl, rfl⟩ := read
          exact .inr ⟨w, reply, code, rfl, rfl⟩
      · simp [if_neg reply] at read

/-- What is read as a frame is a valid item. -/
theorem exists_of_read {bs rest : Bytes} {f : Frame} (read : Frame.read limit bs = .item f rest) :
    ∃ item : Item, item.Valid limit ∧ bs = item.bytes ++ rest := by
  unfold Frame.read at read
  cases head : Head.read bs with
  | unfinished => simp [head] at read
  | invalid => simp [head] at read
  | item h behind =>
    simp only [head] at read
    split at read
    next => cases read
    next fits =>
      cases payload : Bytes.split? h.payloadLen.toNat behind with
      | none => simp [payload] at read
      | some p =>
        obtain ⟨payload', rest'⟩ := p
        obtain ⟨rfl, size⟩ := Bytes.split?_eq_some_iff.1 payload
        simp only [payload, Found.item.injEq] at read
        obtain ⟨rfl, rfl⟩ := read
        have within : payload'.length ≤ limit.toNat := by
          rw [size, ← UInt32.le_iff_toNat_le]
          exact UInt32.not_lt.1 fits
        rcases word_of_read head with ⟨w, name, tag, method, announced, bytes⟩ |
          ⟨w, tag, code, announced, bytes⟩
        · refine ⟨.call w (Utf8.encode name) payload', ⟨tag, method, ⟨name, rfl⟩, ?_, within⟩, ?_⟩
          · rw [← announced, size]
          · rw [bytes, Item.bytes, List.append_assoc _ payload']
        · refine ⟨.reply w payload', ⟨tag, code, ?_, within⟩, ?_⟩
          · rw [← announced, size]
          · rw [bytes, Item.bytes, List.append_assoc]

end

end Item

/-! ## Rows of items -/

section
variable {limit : UInt32} {bs : Bytes} {fs : List Frame} {items : List Item}

/-- A reader finds nothing but frames, and a clean end, if the frames are all that there is. -/
theorem Frame.entries_eq_iff_takes :
    Frame.entries limit bs = fs.map .frame ++ [.ended] ↔ Frame.Takes limit bs fs [] := by
  constructor
  · intro told
    induction fs generalizing bs with
    | nil =>
      by_cases empty : bs = []
      · subst empty
        exact .none []
      · rw [Source.entries_of_ne_nil limit empty] at told
        exact absurd (List.cons.inj told).1 (Source.entryOf_ne_ended _)
    | cons f fs ih =>
      have full : bs ≠ [] := by
        rintro rfl
        simp [Frame.entries] at told
      rw [Source.entries_of_ne_nil limit full, List.map_cons, List.cons_append] at told
      obtain ⟨first, others⟩ := List.cons.inj told
      cases read : Frame.read limit bs with
      | unfinished => simp [read, Source.entryOf] at first
      | invalid => simp [read, Source.entryOf] at first
      | item g rest =>
        simp only [read, Source.entryOf] at first others
        obtain rfl := Entry.frame.inj first
        exact .frame read (ih others)
  · intro takes
    rw [takes.entries_eq]
    simp [Frame.entries]

theorem Frame.Takes.unique {gs : List Frame} (first : Frame.Takes limit bs fs [])
    (second : Frame.Takes limit bs gs []) : fs = gs := by
  have same : fs.map Entry.frame ++ [.ended] = gs.map Entry.frame ++ [.ended] := by
    rw [← Frame.entries_eq_iff_takes.2 first, ← Frame.entries_eq_iff_takes.2 second]
  refine List.map_inj_right (fun f g equal => ?_) |>.1 (List.append_cancel_right same)
  exact Entry.frame.inj equal

theorem Item.exists_frames (valid : ∀ i ∈ items, i.Valid limit) :
    ∃ fs : List Frame, (∀ f ∈ fs, f.WellFormed limit) ∧
      fs.flatMap Frame.bytes = items.flatMap (fun i => i.canonical.bytes) ∧
      Frame.Takes limit (items.flatMap Item.bytes) fs [] := by
  induction items with
  | nil => exact ⟨[], by simp, rfl, .none []⟩
  | cons item items ih =>
    obtain ⟨f, fine, bytes, read⟩ := (valid item List.mem_cons_self).exists_frame
    obtain ⟨fs, allFine, allBytes, takes⟩ := ih fun i hi => valid i (List.mem_cons_of_mem item hi)
    refine ⟨f :: fs, ?_, ?_, .frame (read _) takes⟩
    · intro g hg
      rcases List.mem_cons.1 hg with rfl | later
      · exact fine
      · exact allFine g later
    · rw [List.flatMap_cons, List.flatMap_cons, bytes, allBytes]

theorem Frame.Takes.exists_items {rest : Bytes} (takes : Frame.Takes limit bs fs rest) :
    ∃ items : List Item, (∀ i ∈ items, i.Valid limit) ∧ bs = items.flatMap Item.bytes ++ rest := by
  induction takes with
  | none bs => exact ⟨[], by simp, rfl⟩
  | frame read _ ih =>
    obtain ⟨item, valid, bytes⟩ := Item.exists_of_read read
    obtain ⟨items, allValid, allBytes⟩ := ih
    refine ⟨item :: items, ?_, ?_⟩
    · intro i hi
      rcases List.mem_cons.1 hi with rfl | later
      · exact valid
      · exact allValid i later
    · rw [bytes, allBytes, List.flatMap_cons, List.append_assoc]

end

/-- A source tells nothing but frames, and then a clean end, exactly if its bytes are a row of valid
items. The frames, sent again, are written as the same items in canonical form, and from these the
same frames are read. -/
theorem Source.reads_frames_iff_items {limit : UInt32} {source : Source}
    (steady : source.failAt = none) :
    ((∃ fs : List Frame, source.Reads limit (fs.map .frame ++ [.ended])) ↔
      ∃ items : List Item, (∀ i ∈ items, i.Valid limit) ∧
        source.rest = items.flatMap Item.bytes) ∧
    ∀ (fs : List Frame) (items : List Item), source.Reads limit (fs.map .frame ++ [.ended]) →
      (∀ i ∈ items, i.Valid limit) → source.rest = items.flatMap Item.bytes →
      ∀ sink : Sink, sink.Willing →
        (sink.sendAll fs).map Prod.fst = fs.map (fun _ => .ok ()) ∧
        sink.written fs = items.flatMap (fun i => i.canonical.bytes) ∧
        ∀ again : Source, again.failAt = none → again.rest = sink.written fs →
          again.Reads limit (fs.map .frame ++ [.ended]) := by
  have takes : ∀ fs : List Frame, source.Reads limit (fs.map .frame ++ [.ended]) ↔
      Frame.Takes limit source.rest fs [] := fun fs =>
    (reads_iff steady).trans Frame.entries_eq_iff_takes
  refine ⟨⟨?_, ?_⟩, ?_⟩
  · rintro ⟨fs, reads⟩
    simpa using ((takes fs).1 reads).exists_items
  · rintro ⟨items, valid, bytes⟩
    obtain ⟨fs, -, -, found⟩ := Item.exists_frames valid
    exact ⟨fs, (takes fs).2 (bytes ▸ found)⟩
  · intro fs items reads valid bytes sink willing
    obtain ⟨fs', wellFormed, canonical, found⟩ := Item.exists_frames valid
    -- the items leave no choice of frames
    obtain rfl : fs' = fs := (bytes ▸ found).unique ((takes fs).1 reads)
    have short : ∀ f ∈ fs', f.head.methodBytes.length ≤ 255 := fun f hf => (wellFormed f hf).2.2
    have written := willing.written_eq short
    refine ⟨?_, written.trans canonical, fun again steady' rest => ?_⟩
    · rw [willing.sendAll_eq short, List.map_map]
      rfl
    · rw [reads_iff steady', rest, written, Frame.entries_eq_iff_takes]
      simpa using Frame.takes_bytes wellFormed []

/-- A call whose word has a status, in a source that hands out three bytes at a time: the status is
not written again. -/
theorem Source.call_loses_its_status :
    (Item.call 0x00000001000500A1 [] [7]).Valid 100 ∧
    ({ rest := (Item.call 0x00000001000500A1 [] [7]).bytes, chunks := [3] } : Source).Reads 100
      [.frame (Frame.call 5 "" [7]), .ended] ∧
    ({} : Sink).written [Frame.call 5 "" [7]] = [0, 0, 0, 1, 0, 5, 0, 1, 7] := by
  have valid : (Item.call 0x00000001000500A1 [] [7]).Valid 100 :=
    ⟨by decide, by decide, ⟨"", by decide⟩, by decide, by decide⟩
  have reads : ({ rest := (Item.call 0x00000001000500A1 [] [7]).bytes, chunks := [3] } :
      Source).Reads 100 ([Frame.call 5 "" [7]].map .frame ++ [.ended]) := by
    rw [reads_iff rfl, Frame.entries_eq_iff_takes]
    exact .frame rfl (.none [])
  have again := (reads_frames_iff_items rfl).2 [Frame.call 5 "" [7]]
    [Item.call 0x00000001000500A1 [] [7]] reads (by simpa using valid) rfl {}
    ⟨by decide, by decide, rfl, rfl⟩
  exact ⟨valid, reads, again.2.1.trans (by decide)⟩

end RemoteCall
