import RemoteCall.Json.Printer
import RemoteCall.Json.Reader
import RemoteCall.MessagePack.Printer
import RemoteCall.MessagePack.Reader

/-!
# Payload formats

Both ends of a connection agree on one format; nothing in a frame says which.
-/

namespace RemoteCall

inductive Format
  /-- One compact text; the default, as payloads stay readable. -/
  | json
  /-- Smaller; records are lists of their fields. -/
  | messagePack
  deriving Repr, DecidableEq

namespace Format

/-- The payload of a value. -/
def encode [Payload α] (f : Format) (a : α) : Except IoError Bytes :=
  match f with
  | .json => Json.encode Payload.shape a
  | .messagePack => .ok (MessagePack.encode Payload.shape a)

/-- The value that a payload holds. -/
def decode [Payload α] (f : Format) (bs : Bytes) : Except IoError α :=
  match f with
  | .json =>
    match Json.decode Payload.shape bs with
    | .ok a => .ok a
    | .error e => .error e.toIo
  | .messagePack =>
    match MessagePack.decode Payload.shape bs with
    | .ok a => .ok a
    | .error e => .error e.toIo

end Format

/-! ## Plain values -/

instance : Payload Int64 := ⟨.int .int64⟩

instance : Payload UInt64 := ⟨.int .nat64⟩

instance : Payload String := ⟨.text⟩

instance : Payload Unit := ⟨.unit⟩

instance [Payload α] : Payload (Option α) := ⟨.option Payload.shape⟩

instance [Payload α] : Payload (List α) := ⟨.list Payload.shape⟩

instance [Payload α] [Payload β] : Payload (α × β) := ⟨.pair Payload.shape Payload.shape⟩

end RemoteCall
