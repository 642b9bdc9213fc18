import RemoteCall.Frame

/-!
# Reading frames

`Frame.read limit bs` looks at the bytes that have arrived and finds a frame, something that is no
frame, or an item that is not complete. A reader goes on after what is no frame: behind the word if
its tag or status is unknown, behind the method if that is no text or the payload is announced
longer than `limit`. `Frame.entries` reads bytes to their end. Every item takes at least its word:

    Frame.read limit bs = .frame f rest → rest.length + 8 ≤ bs.length      (length_rest_frame)
    Frame.read limit bs = .invalid rest → rest.length + 8 ≤ bs.length      (length_rest_invalid)
-/

namespace RemoteCall

/-! ## Algorithm -/

/-- What the word of a head announces. -/
inductive Announced
  | call (sendId : SendId) (methodLen : Nat) (payloadLen : UInt32)
  | reply (sendId : SendId) (status : ReplyStatus) (payloadLen : UInt32)
  | unknown

/-- Reads a word. A call's status and a reply's method length mean nothing. -/
def Announced.ofWord (w : Bytes) : Announced :=
  let payloadLen := UInt32.ofNat (Bytes.ofBigEndian (w.take 4))
  let sendId := UInt16.ofNat (Bytes.ofBigEndian ((w.drop 4).take 2))
  let methodLen := Bytes.ofBigEndian ((w.drop 6).take 1)
  let low := Bytes.ofBigEndian (w.drop 7)
  if low % 16 = Head.callTag then .call sendId methodLen payloadLen
  else if low % 16 = Head.replyTag then
    match ReplyStatus.ofByte? (UInt8.ofNat (low / 16)) with
    | some s => .reply sendId s payloadLen
    | none => .unknown
  else .unknown

/-- What stands at the front of the bytes that have arrived. -/
inductive Found (α : Type)
  | item (a : α) (rest : Bytes)
  /-- No such item; reading goes on at `rest`. -/
  | invalid (rest : Bytes)
  /-- The item is not complete. -/
  | unfinished

/-- The first `n` bytes and what follows them, if there are so many. -/
def Bytes.split? (n : Nat) (bs : Bytes) : Option (Bytes × Bytes) :=
  let front := bs.take n
  if front.length = n then some (front, bs.drop n) else none

def Head.read (bs : Bytes) : Found Head :=
  match Bytes.split? 8 bs with
  | none => .unfinished
  | some (w, rest) =>
    match Announced.ofWord w with
    | .unknown => .invalid rest
    | .reply i s n => .item (.reply i s n) rest
    | .call i m n =>
      match Bytes.split? m rest with
      | none => .unfinished
      | some (name, rest) =>
        match Utf8.decode name with
        | .ok name => .item (.call i name n) rest
        | .error _ => .invalid rest

def Frame.read (limit : UInt32) (bs : Bytes) : Found Frame :=
  match Head.read bs with
  | .unfinished => .unfinished
  | .invalid rest => .invalid rest
  | .item h rest =>
    if limit < h.payloadLen then .invalid rest
    else match Bytes.split? h.payloadLen.toNat rest with
      | none => .unfinished
      | some (payload, rest) => .item ⟨h, payload⟩ rest

/-- One outcome of reading a stream of frames. -/
inductive Entry
  | frame (f : Frame)
  | failed (e : CallError)
  /-- The stream ended between two frames. -/
  | ended
  deriving DecidableEq

/-! ## Lemmas -/

theorem Bytes.split?_eq_some_iff {n : Nat} {bs front rest : Bytes} :
    Bytes.split? n bs = some (front, rest) ↔ bs = front ++ rest ∧ front.length = n := by
  simp only [Bytes.split?]
  constructor
  · intro h
    split at h
    next hn =>
      obtain ⟨rfl, rfl⟩ := by simpa using h
      exact ⟨by simp, hn⟩
    next => simp at h
  · rintro ⟨rfl, rfl⟩
    simp

theorem Bytes.split?_eq_none_iff {n : Nat} {bs : Bytes} :
    Bytes.split? n bs = none ↔ bs.length < n := by
  simp only [Bytes.split?, ite_eq_right_iff, reduceCtorEq, imp_false, List.length_take]
  omega

theorem Head.length_rest {bs rest : Bytes}
    (h : (∃ a, Head.read bs = .item a rest) ∨ Head.read bs = .invalid rest) :
    rest.length + 8 ≤ bs.length := by
  unfold Head.read at h
  cases hw : Bytes.split? 8 bs with
  | none => simp [hw] at h
  | some p =>
    obtain ⟨w, r⟩ := p
    obtain ⟨rfl, hl⟩ := Bytes.split?_eq_some_iff.1 hw
    simp only [hw] at h
    have bound : r.length + 8 ≤ (w ++ r).length := by simp; omega
    cases ha : Announced.ofWord w with
    | unknown => simp [ha] at h; subst h; exact bound
    | reply => simp [ha] at h; subst h; exact bound
    | call i m n =>
      simp only [ha] at h
      cases hm : Bytes.split? m r with
      | none => simp [hm] at h
      | some q =>
        obtain ⟨name, r'⟩ := q
        obtain ⟨rfl, -⟩ := Bytes.split?_eq_some_iff.1 hm
        simp only [hm] at h
        have : rest = r' := by cases hd : Utf8.decode name <;> simp_all
        subst this
        simp at bound ⊢
        omega

theorem Frame.length_rest {limit : UInt32} {bs rest : Bytes}
    (h : (∃ f, Frame.read limit bs = .item f rest) ∨ Frame.read limit bs = .invalid rest) :
    rest.length + 8 ≤ bs.length := by
  unfold Frame.read at h
  cases hh : Head.read bs with
  | unfinished => simp [hh] at h
  | invalid r => simp [hh] at h; subst h; exact Head.length_rest (.inr hh)
  | item a r =>
    have bound := Head.length_rest (.inl ⟨a, hh⟩)
    simp only [hh] at h
    split at h
    next => simp at h; subst h; exact bound
    next =>
      cases hp : Bytes.split? a.payloadLen.toNat r with
      | none => simp [hp] at h
      | some q =>
        obtain ⟨payload, r'⟩ := q
        obtain ⟨rfl, -⟩ := Bytes.split?_eq_some_iff.1 hp
        simp [hp] at h
        subst h
        simp at bound
        omega

theorem Frame.length_rest_frame {limit : UInt32} {bs rest : Bytes} {f : Frame}
    (h : Frame.read limit bs = .item f rest) : rest.length + 8 ≤ bs.length :=
  Frame.length_rest (.inl ⟨f, h⟩)

theorem Frame.length_rest_invalid {limit : UInt32} {bs rest : Bytes}
    (h : Frame.read limit bs = .invalid rest) : rest.length + 8 ≤ bs.length :=
  Frame.length_rest (.inr h)

/-! ## Whole streams -/

/-- Reads bytes to their end. -/
def Frame.entries (limit : UInt32) (bs : Bytes) : List Entry :=
  if bs = [] then [.ended]
  else match _h : Frame.read limit bs with
    | .item f rest => .frame f :: Frame.entries limit rest
    | .invalid rest => .failed .invalidFrame :: Frame.entries limit rest
    | .unfinished => [.failed (.io .unexpectedEof), .ended]
termination_by bs.length
decreasing_by
  · have := Frame.length_rest_frame ‹_›; omega
  · have := Frame.length_rest_invalid ‹_›; omega

end RemoteCall
