import RemoteCall.Format
import RemoteCall.Outcome

/-!
# Method tables

A `Schema` lists the methods of a contract: the name by which each is registered and called, and the
names of the types that it takes and gives.

A `MethodTable` maps the names of methods to handlers. Inserting a handler wraps it in the table's
format: the handler sees a request, the table a payload. Of two handlers of one name the last one
stays. The rows stand in the order of their names.
-/

namespace RemoteCall

/-! ## Contracts -/

structure MethodInfo where
  name : String
  request : String
  response : String
  deriving Repr, DecidableEq

structure Schema where
  name : String
  methods : List MethodInfo
  deriving Repr, DecidableEq

namespace Schema

/-- The contract of an end that serves nothing. -/
def empty : Schema := ⟨"", []⟩

/-- The first method of that name. -/
def method? (s : Schema) (name : String) : Option MethodInfo := s.methods.find? (·.name = name)

end Schema

/-! ## Algorithm -/

/-- What a handler makes of a request. -/
structure Answer (α : Type) where
  outcome : Except CallError α
  /-- The answer waits until this value is released. -/
  heldBy : Option Int64 := none

namespace Answer

def ok (a : α) : Answer α := ⟨.ok a, none⟩

def fail (e : CallError) : Answer α := ⟨.error e, none⟩

/-- Says `a` once `key` is released. -/
def held (key : Int64) (a : α) : Answer α := ⟨.ok a, some key⟩

/-- The outcome of the handler alone, as an answer. -/
def ofOutcome (r : Except CallError α) : Answer α := ⟨r, none⟩

end Answer

/-- Payloads in, payloads out. -/
abbrev Handler := Bytes → Answer Bytes

namespace Handler

/-- The reply's payload, or why there is none. -/
def encodeReply [Payload β] (format : Format) : Except CallError β → Outcome
  | .error e => .error e
  | .ok b =>
    match format.encode b with
    | .ok payload => .ok payload
    | .error e => .error (.serialization e)

/-- A payload that holds no request never reaches `f`. -/
def ofFun [Payload α] [Payload β] (format : Format) (f : α → Answer β) : Handler := fun payload =>
  match format.decode payload with
  | .error e => .fail (.badRequest e.text)
  | .ok a => ⟨encodeReply format (f a).outcome, (f a).heldBy⟩

end Handler

structure MethodTable where
  format : Format
  rows : List (String × Handler) := []

namespace MethodTable

/-- Puts a row in its place, instead of the row of that name if there is one. -/
def put (name : String) (h : Handler) : List (String × Handler) → List (String × Handler)
  | [] => [(name, h)]
  | (n, g) :: rows =>
    if name = n then (name, h) :: rows
    else if name < n then (name, h) :: (n, g) :: rows
    else (n, g) :: put name h rows

def insert [Payload α] [Payload β] (t : MethodTable) (name : String) (f : α → Answer β) :
    MethodTable :=
  { t with rows := put name (.ofFun t.format f) t.rows }

def find? (t : MethodTable) (name : String) : Option Handler := t.rows.lookup name

def contains (t : MethodTable) (name : String) : Bool := (t.find? name).isSome

/-- The names of the methods, in order. -/
def methods (t : MethodTable) : List String := t.rows.map (·.1)

/-- Answers a call of the named method. -/
def dispatch (t : MethodTable) (name : String) (payload : Bytes) : Answer Bytes :=
  match t.find? name with
  | some h => h payload
  | none => .fail (.unimplemented name)

end MethodTable

/-! ## Services -/

/-- A method of a contract and the function that answers it. -/
structure Service.Method : Type 1 where
  info : MethodInfo
  {Request : Type}
  {Response : Type}
  [request : Payload Request]
  [response : Payload Response]
  answer : Request → Answer Response

/-- A contract with an answer to each of its methods. -/
structure Service where
  name : String
  methods : List Service.Method

namespace Service

def schema (s : Service) : Schema := ⟨s.name, s.methods.map (·.info)⟩

end Service

namespace MethodTable

/-- Inserts one method under its own name. -/
def insertMethod (t : MethodTable) (m : Service.Method) : MethodTable :=
  have := m.request
  have := m.response
  t.insert m.info.name m.answer

/-- Inserts every method of the service. -/
def register (t : MethodTable) (s : Service) : MethodTable := s.methods.foldl insertMethod t

/-! ## Lemmas -/

theorem lookup_cons_ite (m n : String) (g : Handler) (rows : List (String × Handler)) :
    ((m, g) :: rows).lookup n = if n = m then some g else rows.lookup n := by
  by_cases e : n = m
  · simp [e]
  · simp [List.lookup_cons, beq_false_of_ne e, e]

theorem lookup_put (name n : String) (h : Handler) (rows : List (String × Handler)) :
    (put name h rows).lookup n = if n = name then some h else rows.lookup n := by
  induction rows with
  | nil => rw [put, lookup_cons_ite]
  | cons r rows ih =>
    obtain ⟨m, g⟩ := r
    simp only [put]
    split
    next e => subst e; simp only [lookup_cons_ite]; split <;> rfl
    next ne =>
      split
      · rw [lookup_cons_ite]
      · simp only [lookup_cons_ite, ih]
        by_cases e : n = m
        · simp [e, Ne.symm ne]
        · simp [e]

/-- The last handler of a name is the one that answers. -/
theorem find?_insert [Payload α] [Payload β] (t : MethodTable) (name n : String)
    (f : α → Answer β) :
    (t.insert name f).find? n = if n = name then some (.ofFun t.format f) else t.find? n :=
  lookup_put name n _ t.rows

end MethodTable

end RemoteCall
