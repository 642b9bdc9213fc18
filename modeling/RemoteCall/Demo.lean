import RemoteCall.Kit.Single
import RemoteCall.Link.Session
import RemoteCall.Config
import RemoteCall.Network

/-!
# The demonstration program

The program calls the power contract twice: directly, and through a server that it starts and a
client that it connects. `Demo.run` gives the lines that it prints and its exit code: 2 for
arguments that it does not understand, 1 if something fails on the way.
-/

namespace RemoteCall.Demo

/-! ## Arguments -/

structure Options where
  bind : Address := ⟨"127.0.0.1", 0⟩
  directValue : Int64 := 2
  remoteValue : Int64 := 3
  workers : Option UInt64 := none
  format : Format := .json

inductive Flag
  | bind
  | directValue
  | remoteValue
  | workers
  | format
  deriving DecidableEq

def Flag.named? : String → Option Flag
  | "--bind" => some .bind
  | "--direct-value" => some .directValue
  | "--remote-value" => some .remoteValue
  | "--workers" => some .workers
  | "--format" => some .format
  | _ => none

def value? (t : IntType α) (n : Int) : Option α := (t.read n).toOption

/-- The options with one of them set; none if the text is no value for it. -/
def Options.set? (o : Options) (flag : Flag) (text : String) : Option Options :=
  match flag with
  | .bind => (Address.numeric? text).map fun a => { o with bind := a }
  | .directValue => do return { o with directValue := ← value? .int64 (← Decimal.readInt? text) }
  | .remoteValue => do return { o with remoteValue := ← value? .int64 (← Decimal.readInt? text) }
  | .workers => do
    let n ← value? .count ((← Decimal.readNat? text : Nat) : Int)
    return { o with workers := some n }
  | .format =>
    if text = "json" then some { o with format := .json }
    else if text = "msgpack" then some { o with format := .messagePack }
    else none

/-- A flag and the value that stands in the same argument. -/
def joined? (arg : String) : Option (Flag × String) :=
  let cs := arg.toList
  match cs.dropWhile (· ≠ '=') with
  | [] => none
  | _ :: value =>
    (Flag.named? (String.ofList (cs.takeWhile (· ≠ '=')))).map (·, String.ofList value)

/-- Reads the arguments; a flag may come once, with its value behind an equals sign or in the next
argument. A value that begins with a hyphen is a negative number, which only two flags accept. -/
def parse : List String → (seen : List Flag) → Options → Option Options
  | [], _, o => some o
  | ["--"], _, o => some o
  | arg :: rest, seen, o =>
    match joined? arg with
    | some (flag, value) =>
      if flag ∈ seen then none
      else match o.set? flag value with
        | some o => parse rest (flag :: seen) o
        | none => none
    | none =>
      match Flag.named? arg, rest with
      | some flag, value :: rest =>
        if flag ∈ seen then none
        else match o.set? flag value with
          | some o => parse rest (flag :: seen) o
          | none => none
      | _, _ => none

/-! ## Calls -/

/-- The line that shows a result. -/
def line (method : String) (value : Int64) (r : Response) : String :=
  "    " ++ method ++ "(" ++ toString value.toInt ++ ") = " ++ toString r.value.toInt ++ "\n"

/-- Both methods, one after the other, as far as they succeed: the lines, and if all is well. -/
def showBoth (two four : Except CallError Response) (value : Int64) : String × Bool :=
  match two with
  | .error _ => ("", false)
  | .ok a =>
    let first := line "powerOfTwo" value a
    match four with
    | .error _ => (first, false)
    | .ok b => (first ++ line "powerOfFour" value b, true)

/-- The answers of a server of its own to a client of its own. -/
def remote (o : Options) : Except CallError Response × Except CallError Response :=
  let table := ({ format := o.format } : MethodTable).register Power.service
  let server := Server.ofWorkers table defaultMaxFrameLen ((o.workers.map (·.toNat)).getD 8)
  let settings : ClientConfig := {}
  let client : Client := { limit := settings.maxFrameLen }
  let patience := settings.callTimeout.map (·.millis)
  let ask (method : String) : Link.Session.Ask :=
    ⟨method, o.format.encode (Request.mk o.remoteValue), true⟩
  let (t, two) := Link.Session.calls patience (.start (.join client server)) [ask "powerOfTwo"]
  let (_, four) := Link.Session.calls patience t [ask "powerOfFour"]
  let result (r : List (Option Outcome)) : Except CallError Response :=
    Client.decode o.format (r.head?.join.getD (.error .timeout))
  (result two, result four)

/-- The exit code and what the program prints, on a network where others may listen. -/
def run (net : Network) (args : List String) : Nat × String :=
  match parse args [] {} with
  | none => (2, "")
  | some o =>
    let request : Request := ⟨o.directValue⟩
    let (direct, well) :=
      showBoth (Power.powerOfTwo request) (Power.powerOfFour request) o.directValue
    let printed := "calling service directly:\n" ++ direct
    if !well then (1, printed)
    else
      let printed := printed ++ "calling service via RPC:\n"
      match net.bind o.bind with
      | .error _ => (1, printed)
      | .ok _ =>
        let (two, four) := remote o
        let (lines, well) := showBoth two four o.remoteValue
        (if well then 0 else 1, printed ++ lines)

end RemoteCall.Demo
