import RemoteCall.Format

/-!
# Settings of the two ends

Settings travel as payloads too. A setting that is absent keeps its default.
-/

namespace RemoteCall

/-- A stretch of time; `nanos` is less than a second. -/
structure TimeSpan where
  secs : UInt64
  nanos : UInt32
  deriving Repr, DecidableEq

namespace TimeSpan

/-- Whole seconds among the nanoseconds count as seconds, of which at most `2 ^ 64 - 1` fit. -/
def make? (secs : UInt64) (nanos : UInt32) : Option TimeSpan :=
  let total := secs.toNat + nanos.toNat / 1000000000
  if total < 0x10000000000000000 then some ⟨UInt64.ofNat total, nanos % 1000000000⟩ else none

/-- Milliseconds, rounded up. -/
def millis (t : TimeSpan) : Nat := t.secs.toNat * 1000 + (t.nanos.toNat + 999999) / 1000000

def style : RecordStyle where
  name := "Duration"
  inFull := "struct Duration"
  key := ticked "secs" ++ " or " ++ ticked "nanos"
  numbered := false
  strict := true

instance : Payload TimeSpan where
  shape := .record style
    (.field "secs" (.int .nat64) none (.field "nanos" (.int .nat32) none .none))
    (fun (secs, nanos, _) => match make? secs nanos with
      | some t => .ok t
      | none => .error "overflow deserializing Duration")
    (fun t => (t.secs, t.nanos, ()))

end TimeSpan

/-- The longest payload that is accepted unless settings say otherwise: 16 MiB. -/
def defaultMaxFrameLen : UInt32 := 16 * 1024 * 1024

/-- The settings of a calling end. -/
structure ClientConfig where
  /-- The longest time for one call; none waits for ever. -/
  callTimeout : Option TimeSpan := some ⟨30, 0⟩
  connectTimeout : TimeSpan := ⟨5, 0⟩
  /-- The longest payload that is sent or accepted. -/
  maxFrameLen : UInt32 := defaultMaxFrameLen
  deriving Repr, DecidableEq

/-- A record whose fields may all be absent. -/
def RecordStyle.settings (name : String) : RecordStyle :=
  { RecordStyle.plain name 0 with inFull := "struct " ++ name }

instance : Payload ClientConfig where
  shape :=
    let default : ClientConfig := {}
    .record (.settings "ClientConfig")
      (.field "call_timeout" (.option Payload.shape) (some default.callTimeout)
        (.field "connect_timeout" Payload.shape (some default.connectTimeout)
          (.field "max_frame_len" (.int .nat32) (some default.maxFrameLen) .none)))
      (fun (call, connect, len, _) => .ok ⟨call, connect, len⟩)
      (fun c => (c.callTimeout, c.connectTimeout, c.maxFrameLen, ()))

/-- A number of workers. Once it is written down it is a number, so it travels as one. -/
def workerCount : IntType (Option UInt64) where
  name := IntType.count.name
  min := IntType.count.min
  max := IntType.count.max
  ofInt n := some (IntType.count.ofInt n)
  toInt n := IntType.count.toInt (n.getD 0)

/-- The settings of a serving end. -/
structure ServerConfig where
  /-- How many calls may run at once on all connections together; none leaves it to the machine. -/
  workers : Option UInt64 := none
  /-- The longest payload that is accepted. -/
  maxFrameLen : UInt32 := defaultMaxFrameLen
  deriving Repr, DecidableEq

instance : Payload ServerConfig where
  shape :=
    let default : ServerConfig := {}
    .record (.settings "ServerConfig")
      (.field "worker_pool_size" (.int workerCount) (some default.workers)
        (.field "max_frame_len" (.int .nat32) (some default.maxFrameLen) .none))
      (fun (workers, len, _) => .ok ⟨workers, len⟩)
      (fun c => (c.workers, c.maxFrameLen, ()))

end RemoteCall
