import RemoteCall.Frame.Decode

/-!
# Reading frames piece by piece

A `Source` hands out bytes in reads of bounded size and may fail one read. `Source.next` reads one
entry of a stream of frames from it: the first byte alone (only an end before it is a clean one),
the rest of the word, the method, the payload. `Source.entries` reads on after errors, up to a given
number of entries.
-/

namespace RemoteCall

/-! ## Algorithm -/

/-- Bytes that arrive in pieces. -/
structure Source where
  /-- The bytes that no read has taken yet. -/
  rest : Bytes
  position : Nat := 0
  /-- The sizes of the reads, over and over; no size means no bound. -/
  chunks : List Nat := []
  /-- How many reads there were. -/
  turn : Nat := 0
  /-- The position at which one read fails. -/
  failAt : Option Nat := none
  /-- How that read fails. -/
  failure : IoError := ⟨.connectionReset, "scripted failure"⟩

/-- The outcome of one read. -/
inductive Piece
  | bytes (bs : Bytes)
  /-- The source has ended. -/
  | ended
  | failed (e : IoError)

namespace Source

/-- How many bytes the next read may take: at least one, and none beyond the failing position. -/
def bound (s : Source) (n : Nat) : Nat :=
  let size := match s.chunks[s.turn % s.chunks.length]? with
    | some k => min n (max k 1)
    | none => n
  match s.failAt with
  | some p => if s.position < p then min size (p - s.position) else size
  | none => size

/-- One read of at most `n` bytes. -/
def read (s : Source) (n : Nat) : Piece × Source :=
  if s.failAt = some s.position then
    (.failed s.failure, { s with failAt := none, turn := s.turn + 1 })
  else
    let got := s.rest.take (s.bound n)
    if got.isEmpty then (.ended, { s with turn := s.turn + 1 })
    else
      (.bytes got,
        { s with
          rest := s.rest.drop got.length
          position := s.position + got.length
          turn := s.turn + 1 })

/-- Reads until `n` bytes more are there; `acc` holds those read before, the last first. Every read
takes a byte, so `n` reads are enough. -/
def fill : (fuel n : Nat) → Bytes → Source → Except IoError Bytes × Source
  | _, 0, acc, s => (.ok acc.reverse, s)
  | 0, _, acc, s => (.ok acc.reverse, s)
  | fuel + 1, n, acc, s =>
    match s.read n with
    | (.failed e, s) => (.error e, s)
    | (.ended, s) => (.error .unexpectedEof, s)
    | (.bytes bs, s) => fill fuel (n - bs.length) (bs.reverse ++ acc) s

/-- Exactly `n` bytes; none are read for `n = 0`. -/
def readExact (s : Source) (n : Nat) : Except IoError Bytes × Source := fill n n [] s

/-- The payload after a head, and the frame. -/
def nextPayload (limit : UInt32) (h : Head) (s : Source) : Entry × Source :=
  if limit < h.payloadLen then (.failed .invalidFrame, s)
  else match s.readExact h.payloadLen.toNat with
    | (.error e, s) => (.failed (.io e), s)
    | (.ok payload, s) => (.frame ⟨h, payload⟩, s)

/-- What follows the word `w`. -/
def nextHead (limit : UInt32) (w : Bytes) (s : Source) : Entry × Source :=
  match Announced.ofWord w with
  | .unknown => (.failed .invalidFrame, s)
  | .reply i st n => nextPayload limit (.reply i st n) s
  | .call i m n =>
    match s.readExact m with
    | (.error e, s) => (.failed (.io e), s)
    | (.ok name, s) =>
      match Utf8.decode name with
      | .error _ => (.failed .invalidFrame, s)
      | .ok name => nextPayload limit (.call i name n) s

/-- One entry of the stream. What an entry that fails has read is lost. -/
def next (limit : UInt32) (s : Source) : Entry × Source :=
  match s.read 1 with
  | (.failed e, s) => (.failed (.io e), s)
  | (.ended, s) => (.ended, s)
  | (.bytes first, s) =>
    match s.readExact 7 with
    | (.error e, s) => (.failed (.io e), s)
    | (.ok more, s) => nextHead limit (first ++ more) s

/-- The entries up to the end, at most `n` of them. -/
def entries (limit : UInt32) : Nat → Source → List Entry
  | 0, _ => []
  | n + 1, s =>
    match s.next limit with
    | (.ended, _) => [.ended]
    | (e, s) => e :: entries limit n s

end Source

end RemoteCall
