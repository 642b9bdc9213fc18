import RemoteCall.Frame

/-!
# Writing frames piece by piece

A `Sink` takes bytes in writes of bounded size until it is full. `Sink.send` writes a frame: its
word, its method, its payload, each to the last byte, and then flushes. A frame whose method is too
long is refused before anything is written.
-/

namespace RemoteCall

/-! ## Algorithm -/

/-- What a sink does with a write that it has no room for. -/
inductive Sink.WhenFull
  | fails
  /-- Takes nothing and says so. -/
  | takesNothing
  deriving DecidableEq

/-- A place that bytes are written to. -/
structure Sink where
  /-- The most bytes that any write takes. -/
  chunk : Option Nat := none
  /-- The most bytes that each write takes, over and over; no size means no bound. -/
  pace : List Nat := []
  /-- How many writes there were. -/
  turn : Nat := 0
  /-- How many bytes it still takes. -/
  room : Option Nat := none
  whenFull : Sink.WhenFull := .fails
  /-- How a write fails for which there is no room. -/
  failure : IoError := ⟨.brokenPipe, "scripted failure"⟩
  flushFails : Bool := false

namespace Sink

/-- The failure of a full sink. -/
def full (s : Sink) : IoError :=
  match s.whenFull with
  | .fails => s.failure
  | .takesNothing => ⟨.writeZero, "write zero"⟩

def flushFailure : IoError := .ofText "scripted flush failure"

/-- `n`, or the bound if that is less. -/
def capped (n : Nat) : Option Nat → Nat
  | some k => min n k
  | none => n

/-- How many of `n` bytes the next write takes. -/
def accepts (s : Sink) (n : Nat) : Nat :=
  [s.chunk, s.pace[s.turn % s.pace.length]?, s.room].foldl capped n

/-- The sink after a write that took `n` bytes. -/
def used (s : Sink) (n : Nat) : Sink :=
  { s with room := s.room.map (· - n), turn := s.turn + 1 }

/-- Writes `bs`, whose length is `n`, to the last byte. The second part of the answer is what was
written, the last byte first, on top of `acc`. A write takes a byte or fails. -/
def writeAllAux (n : Nat) (bs acc : Bytes) (s : Sink) : Except IoError Unit × Bytes × Sink :=
  if n = 0 then (.ok (), acc, s)
  else
    let k := s.accepts n
    if k = 0 then (.error s.full, acc, s)
    else writeAllAux (n - k) (bs.drop k) ((bs.take k).reverse ++ acc) (s.used k)
termination_by n

def writeAll (s : Sink) (bs : Bytes) : Except IoError Unit × Bytes × Sink :=
  let (r, acc, s) := writeAllAux bs.length bs [] s
  (r, acc.reverse, s)

/-- Writes the parts one after the other, up to the first failure. -/
def writeParts : List Bytes → Sink → Except IoError Unit × Bytes × Sink
  | [], s => (.ok (), [], s)
  | p :: ps, s =>
    match s.writeAll p with
    | (.error e, out, s) => (.error e, out, s)
    | (.ok (), out, s) =>
      let (r, more, s) := writeParts ps s
      (r, out ++ more, s)

/-- Sends one frame: how it went, and the bytes that were written. -/
def send (s : Sink) (f : Frame) : Except CallError Unit × Bytes × Sink :=
  match f.parts? with
  | none => (.error .invalidFrame, [], s)
  | some parts =>
    match s.writeParts parts with
    | (.error e, out, s) => (.error (.io e), out, s)
    | (.ok (), out, s) =>
      if s.flushFails then (.error (.io flushFailure), out, s) else (.ok (), out, s)

/-- Sends frames up to the first that fails; for each, how it went and what it wrote. -/
def sendAll : List Frame → Sink → List (Except CallError Unit × Bytes)
  | [], _ => []
  | f :: fs, s =>
    match s.send f with
    | (.error e, out, _) => [(.error e, out)]
    | (.ok (), out, s) => (.ok (), out) :: sendAll fs s

end Sink

end RemoteCall
