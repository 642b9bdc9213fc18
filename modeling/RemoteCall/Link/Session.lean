import RemoteCall.Link.Turns

/-!
# Sessions over a link

A session makes calls one batch after the other and waits for each batch. Between two things that
the session does, the ends take turns until neither can move.
-/

namespace RemoteCall.Link.Session

/-- A call that the session wants to make. -/
structure Ask where
  method : String
  argument : Except IoError Bytes
  /-- A call through a contract's own client starts when it is waited for; a call by its name starts
  when it is made. -/
  typed : Bool

/-- The order in which calls that are made together start: all are made before any is waited for. -/
def starting (asks : List Ask) : List (Nat × Ask) :=
  let numbered := asks.zipIdx.map fun (a, k) => (k, a)
  numbered.filter (fun (_, a) => !a.typed) ++ numbered.filter fun (_, a) => a.typed

/-- What the caller of that number saw. -/
def outcomeOf (notes : List Note) (caller : Nat) : Option Outcome :=
  notes.findSome? fun
    | .client (.resolved c r) => if c = caller then some r else none
    | _ => none

/-- Starts calls together and waits for all of them, if need be until their deadline. A call that
nobody answers and that has no deadline has no outcome. -/
def calls (patience : Option Nat) (t : Turns) (asks : List Ask) : Turns × List (Option Outcome) :=
  let order := starting asks
  let base := t.link.client.started
  let begin (t : Turns) : (Nat × Ask) × Nat → Turns := fun ((_, a), n) =>
    (t.afterClient (.start a.method a.argument patience)).after (.client (.await (base + n))) []
  let t := order.zipIdx.foldl begin { t with shown := [] }
  -- who waits no time at all sees no reply
  let t := (t.afterClient (.tick 0)).run
  let t := match patience with
    | some ms => if t.link.client.callers.isEmpty then t else t.afterClient (.tick ms)
    | none => t
  let notes := t.shown.reverse
  let outcomes := order.zipIdx.map fun ((k, _), n) => (k, outcomeOf notes (base + n))
  (t, (List.range asks.length).map fun k => (outcomes.lookup k).join)

/-- All batches, one after the other. -/
def batches (patience : Option Nat) (t : Turns) :
    List (List Ask) → Turns × List (List (Option Outcome))
  | [] => (t, [])
  | b :: bs =>
    let (t, outcomes) := calls patience t b
    let (t, more) := batches patience t bs
    (t, outcomes :: more)

/-- What a whole session shows. -/
structure Report where
  outcomes : List (List (Option Outcome))
  /-- The call before the closing. -/
  before : Option Outcome
  /-- The call after the closing. -/
  after : Option Outcome
  driver : Option (Except CallError Unit)
  closed : Bool
  served : Option (Except CallError Unit)

/-- Makes the batches of calls and one call more, closes the channel and tries another call. -/
def run (patience : Option Nat) (l : Link) (bs : List (List Ask)) (before after : Ask) : Report :=
  let (t, outcomes) := batches patience (.start l) bs
  let (t, first) := calls patience t [before]
  let t := (t.afterClient .close).run
  let driver := t.link.client.result
  let (t, last) := calls patience t [after]
  { outcomes, before := first.head?.join, after := last.head?.join, driver,
    closed := t.link.client.isOver, served := t.link.served }

end RemoteCall.Link.Session
