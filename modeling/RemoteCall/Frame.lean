import RemoteCall.Error
import RemoteCall.Text.Utf8

/-!
# Frames

A frame is a head of eight bytes, the method's name if it is a call, and a payload. The head is one
big-endian word; from its highest bits to its lowest:

    payload length (32) · send id (16) · method length (8) · status (4) · tag (4)

The tag is 1 for a call, 2 for a reply. `Frame.encode?` writes a frame; only a method of more than
255 bytes stands in its way (`encode?_eq_none_iff`). `WellFormed` frames announce the payload they
carry.
-/

namespace RemoteCall

/-! ## Algorithm -/

inductive ReplyStatus
  | ok
  | unimplemented
  | invocationFailed
  | badRequest
  /-- The server could not write the reply's payload. -/
  | encodingFailed
  /-- The handler failed with an error of its own transport. -/
  | transportFailed
  deriving Repr, DecidableEq

namespace ReplyStatus

def toByte : ReplyStatus → UInt8
  | .ok => 0
  | .unimplemented => 1
  | .invocationFailed => 2
  | .badRequest => 3
  | .encodingFailed => 4
  | .transportFailed => 5

def ofByte? (b : UInt8) : Option ReplyStatus :=
  if b = 0 then some .ok
  else if b = 1 then some .unimplemented
  else if b = 2 then some .invocationFailed
  else if b = 3 then some .badRequest
  else if b = 4 then some .encodingFailed
  else if b = 5 then some .transportFailed
  else none

end ReplyStatus

/-- Ties a reply to its call. -/
abbrev SendId := UInt16

inductive Head
  | call (sendId : SendId) (method : String) (payloadLen : UInt32)
  | reply (sendId : SendId) (status : ReplyStatus) (payloadLen : UInt32)
  deriving Repr, DecidableEq

namespace Head

def sendId : Head → SendId
  | .call i _ _ => i
  | .reply i _ _ => i

def payloadLen : Head → UInt32
  | .call _ _ n => n
  | .reply _ _ n => n

/-- The bytes after the head's word. -/
def methodBytes : Head → Bytes
  | .call _ m _ => Utf8.encode m
  | .reply _ _ _ => []

def callTag : Nat := 1

def replyTag : Nat := 2

/-- The head's word; the method's length must fit in its byte. -/
def word (payloadLen : UInt32) (sendId : SendId) (methodLen status tag : Nat) : Bytes :=
  Bytes.bigEndian 4 payloadLen.toNat ++ Bytes.bigEndian 2 sendId.toNat ++
    [UInt8.ofNat methodLen, UInt8.ofNat (status * 16 + tag)]

/-- The word of eight bytes that opens the frame; none for a method of more than 255 bytes. -/
def encode? (h : Head) : Option Bytes :=
  match h with
  | .call i _ n =>
    if h.methodBytes.length ≤ 255 then some (word n i h.methodBytes.length 0 callTag) else none
  | .reply i s n => some (word n i 0 s.toByte.toNat replyTag)

end Head

structure Frame where
  head : Head
  payload : Bytes
  deriving Repr, DecidableEq

namespace Frame

def sendId (f : Frame) : SendId := f.head.sendId

/-- The call of `method` under `sendId`, announcing the payload it carries. -/
def call (sendId : SendId) (method : String) (payload : Bytes) : Frame :=
  ⟨.call sendId method (UInt32.ofNat payload.length), payload⟩

def reply (sendId : SendId) (status : ReplyStatus) (payload : Bytes) : Frame :=
  ⟨.reply sendId status (UInt32.ofNat payload.length), payload⟩

/-- The three parts of a frame, in the order in which they are written. -/
def parts? (f : Frame) : Option (List Bytes) :=
  f.head.encode?.map fun w => [w, f.head.methodBytes, f.payload]

def encode? (f : Frame) : Option Bytes := f.parts?.map List.flatten

/-- The head announces the payload, and the payload is within `limit`. -/
def WellFormed (limit : UInt32) (f : Frame) : Prop :=
  f.head.payloadLen.toNat = f.payload.length ∧ f.head.payloadLen ≤ limit ∧
    f.head.methodBytes.length ≤ 255

/-! ## Lemmas -/

theorem encode?_eq_none_iff (f : Frame) :
    f.encode? = none ↔ 255 < f.head.methodBytes.length := by
  obtain ⟨h, p⟩ := f
  cases h with
  | reply => simp [encode?, parts?, Head.encode?, Head.methodBytes]
  | call => simp only [encode?, parts?, Head.encode?]; split <;> simp <;> omega

end Frame

theorem ReplyStatus.ofByte?_toByte (s : ReplyStatus) : ofByte? s.toByte = some s := by
  cases s <;> rfl

theorem ReplyStatus.toByte_of_ofByte? {b : UInt8} {s : ReplyStatus} (h : ofByte? b = some s) :
    s.toByte = b := by
  unfold ofByte? at h
  repeat' split at h
  all_goals cases h
  all_goals
    symm
    assumption

theorem ReplyStatus.isSome_ofByte? : ∀ code < 16,
    ((ofByte? (UInt8.ofNat code)).isSome ↔ code ≤ 5) := by decide

theorem Head.length_word (n : UInt32) (i : SendId) (m s t : Nat) : (word n i m s t).length = 8 := by
  simp [word]

end RemoteCall
