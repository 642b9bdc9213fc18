import RemoteCall.Server

/-!
# Whose turn it is

A server can move in many orders; this module takes one of them. Each connection has a reader and a
writer, and each call that runs goes its own way; all these are tasks. A task that has something to
do stands in one line. The first one moves until it has to wait, and whoever can go on because of
that joins the line at its end. When the line is empty nothing in the server can move.

Readers and calls that wait hear of the closing of their connection in the order in which they began
to wait.
-/

namespace RemoteCall.Server

inductive Task
  | reader (c : ConnectionId)
  | writer (c : ConnectionId)
  | call (c : ConnectionId) (serial : Nat)
  deriving DecidableEq

def Task.connection : Task → ConnectionId
  | .reader c | .writer c | .call c _ => c

structure Turns where
  server : Server
  line : List Task := []
  /-- The readers and calls that wait, in the order in which they began to. -/
  waiting : List Task := []
  /-- What was shown so far, the last first. -/
  shown : List Note := []

namespace Turns

/-! ## The line -/

def join (t : Turns) (task : Task) : Turns :=
  if task ∈ t.line then t else { t with line := t.line ++ [task] }

def joinAll (t : Turns) (tasks : List Task) : Turns := tasks.foldl join t

/-- The task waits from now on. -/
def await (t : Turns) (task : Task) : Turns :=
  { t with waiting := t.waiting.filter (· ≠ task) ++ [task] }

/-- Those who wait on a connection hear that it closes. -/
def alarm (t : Turns) (c : ConnectionId) : Turns :=
  joinAll { t with waiting := t.waiting.filter (·.connection ≠ c) }
    (t.waiting.filter (·.connection = c))

/-- The reader that gets the next worker that is given back. -/
def heir (t : Turns) : List Task := (t.server.queue.head?.map .reader).toList

def connection (t : Turns) (c : ConnectionId) : Connection := (t.server.get? c).getD {}

/-- The writer of a connection learns that no reply will come any more. -/
def windUp (t : Turns) (c : ConnectionId) : Turns :=
  match (t.connection c).reading, (t.connection c).running with
  | .stopped _, [] => t.join (.writer c)
  | _, _ => t

/-! ## Turns -/

def perform? (t : Turns) (e : Event) : Option Turns :=
  (t.server.step? e).map fun (server, notes) =>
    { t with server, shown := notes.reverse ++ t.shown }

/-- A reader takes frames and begins calls until it has to wait or stops. -/
def read (c : ConnectionId) : (fuel : Nat) → (moved : Bool) → Turns → Turns
  | 0, _, t => t
  | fuel + 1, moved, t =>
    match t.perform? (.stops c) with
    | some t' =>
      match (t.connection c).reading with
      | .granted .. => (t'.joinAll t.heir).windUp c
      | _ => t'.windUp c
    | none =>
      match t.perform? (.reads c) with
      | some t' =>
        if (t'.connection c).closing then (t'.alarm c).windUp c else read c fuel true t'
      | none =>
        match t.perform? (.begins c) with
        | some t' => read c fuel true (t'.join (.call c (t.connection c).begun))
        | none =>
          match t.perform? (.ends c) with
          | some t' => t'
          | none => if moved || .reader c ∉ t.waiting then t.await (.reader c) else t

/-- A call is given up, finishes or waits. -/
def proceed (c : ConnectionId) (serial : Nat) (t : Turns) : Turns :=
  match t.perform? (.abandons c serial) with
  | some t' => (t'.joinAll t.heir).windUp c
  | none =>
    match t.perform? (.finishes c serial) with
    | some t' => (t'.join (.writer c)).joinAll t.heir
    | none => if .call c serial ∈ t.waiting then t else t.await (.call c serial)

/-- A writer writes what there is. -/
def write (c : ConnectionId) : (fuel : Nat) → Turns → Turns
  | 0, t => t
  | fuel + 1, t =>
    match t.perform? (.writes c) with
    | some t' =>
      write c fuel (if (t'.connection c).writeError.isSome then t'.alarm c else t')
    | none => if (t.server.step? (.ends c)).isSome then t.join (.reader c) else t

/-- The task moves until it has to wait. -/
def take (t : Turns) : Task → Turns
  | .reader c => read c (t.server.work + 1) false t
  | .writer c => write c (t.server.work + 1) t
  | .call c serial => proceed c serial t

def runAux : (fuel : Nat) → Turns → Turns
  | 0, t => t
  | fuel + 1, t =>
    match t.line with
    | [] => t
    | task :: line => runAux fuel ({ t with line }.take task)

/-- Turn after turn, until the line is empty. A move brings two tasks into the line at most, and the
closing of a connection each of its tasks once. -/
def run (t : Turns) : Turns := runAux (4 * (t.server.work + t.line.length + 1)) t

/-! ## Events from outside -/

/-- The tasks that an event from outside may let go on. -/
def concerned (s : Server) : Event → List Task
  | .opens c => [.reader c]
  | .arrives c _ | .hangsUp c =>
    match s.get? c with
    | some { reading := .going, .. } => [.reader c]
    | _ => []
  | .releases key => ((takeHold key s.holds).map fun (h, _) => .call h.connection h.serial).toList
  | _ => []

/-- An event from outside; one that is not possible changes nothing. -/
def after (t : Turns) (e : Event) : Turns :=
  match t.perform? e with
  | none => t
  | some t' => t'.joinAll (concerned t.server e)

end Turns

end RemoteCall.Server
