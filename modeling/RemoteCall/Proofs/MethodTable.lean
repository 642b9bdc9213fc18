import RemoteCall.Config
import RemoteCall.Kit.Single
import RemoteCall.Proofs.Trait.Registration

/-!
# Histories of method tables

A table is made step by step: a step inserts a handler under a name or registers a service, which
inserts every method of it. However often names come again, the table has one row for each of them,
and the last method inserted under a name answers to it (`dispatch_eq_handler`).

What a method answers to a payload is told stage by stage (`Service.Method.Gives`): a payload that
holds no request is refused and no function is asked, an error of the function passes as it is, a
reply that cannot be written is a failure of its own.

Services that share no name may be registered in any order (`dispatch_registers_perm`).
-/

namespace RemoteCall

/-! ## Stages of an answer -/

namespace Service.Method

/-- The request that a payload holds. -/
def decode (m : Service.Method) (format : Format) (payload : Bytes) : Except IoError m.Request :=
  have := m.request
  format.decode payload

/-- The payload of a reply. -/
def encode (m : Service.Method) (format : Format) (reply : m.Response) : Except IoError Bytes :=
  have := m.response
  format.encode reply

/-- What a method gives back for a payload, by the stage at which that is settled. An answer of the
function that waits is waited for, whatever it says. -/
inductive Gives (format : Format) (m : Service.Method) (payload : Bytes) : Answer Bytes → Prop
  | refused {e : IoError} (unreadable : m.decode format payload = .error e) :
      Gives format m payload (.fail (.badRequest e.text))
  | failed {r : m.Request} {e : CallError} (read : m.decode format payload = .ok r)
      (failure : (m.answer r).outcome = .error e) :
      Gives format m payload ⟨.error e, (m.answer r).heldBy⟩
  | unwritten {r : m.Request} {b : m.Response} {e : IoError}
      (read : m.decode format payload = .ok r) (success : (m.answer r).outcome = .ok b)
      (unwritable : m.encode format b = .error e) :
      Gives format m payload ⟨.error (.serialization e), (m.answer r).heldBy⟩
  | written {r : m.Request} {b : m.Response} {reply : Bytes}
      (read : m.decode format payload = .ok r) (success : (m.answer r).outcome = .ok b)
      (write : m.encode format b = .ok reply) :
      Gives format m payload ⟨.ok reply, (m.answer r).heldBy⟩

/-- The method with another function that answers, maybe with replies of another type. -/
def answering (m : Service.Method) {β : Type} [Payload β] (f : m.Request → Answer β) :
    Service.Method :=
  have := m.request
  { info := m.info, answer := f }

/-- Whatever function answers the requests of the method, the answer to this payload is the same, so
none is asked. -/
def Unasked (format : Format) (m : Service.Method) (payload : Bytes) : Prop :=
  ∀ (β : Type) [Payload β] (f : m.Request → Answer β),
    (m.answering f).handler format payload = m.handler format payload

/-! ### Lemmas -/

section
variable {format : Format} {m : Service.Method} {payload : Bytes}

theorem handler_eq_of_error {e : IoError} (unreadable : m.decode format payload = .error e) :
    m.handler format payload = .fail (.badRequest e.text) := by
  rw [decode] at unreadable
  simp only [handler, Handler.ofFun, unreadable]

theorem handler_eq_of_ok {r : m.Request} (read : m.decode format payload = .ok r) :
    m.handler format payload =
      ⟨@Handler.encodeReply _ m.response format (m.answer r).outcome, (m.answer r).heldBy⟩ := by
  rw [decode] at read
  simp only [handler, Handler.ofFun, read]

theorem encodeReply_ok (b : m.Response) :
    @Handler.encodeReply _ m.response format (.ok b) =
      match m.encode format b with
      | .ok reply => .ok reply
      | .error e => .error (.serialization e) := rfl

/-- Every payload is settled at some stage. -/
theorem gives_handler : m.Gives format payload (m.handler format payload) := by
  cases read : m.decode format payload with
  | error e =>
    rw [handler_eq_of_error read]
    exact .refused read
  | ok r =>
    rw [handler_eq_of_ok read]
    cases outcome : (m.answer r).outcome with
    | error e => exact .failed read outcome
    | ok b =>
      rw [encodeReply_ok]
      cases write : m.encode format b with
      | error e => exact .unwritten read outcome write
      | ok reply => exact .written read outcome write

/-- The stages exclude each other. -/
theorem handler_eq_iff {a : Answer Bytes} :
    m.handler format payload = a ↔ m.Gives format payload a := by
  refine ⟨fun same => same ▸ gives_handler, fun gives => ?_⟩
  cases gives with
  | refused unreadable => exact handler_eq_of_error unreadable
  | failed read failure => rw [handler_eq_of_ok read, failure]; rfl
  | unwritten read success unwritable =>
    rw [handler_eq_of_ok read, success, encodeReply_ok, unwritable]
  | written read success write => rw [handler_eq_of_ok read, success, encodeReply_ok, write]

/-- Two functions that say different things show whether a payload holds a request. -/
theorem unasked_iff : m.Unasked format payload ↔ ∃ e, m.decode format payload = .error e := by
  constructor
  · intro unasked
    cases read : m.decode format payload with
    | error e => exact ⟨e, rfl⟩
    | ok r =>
      -- a payload that holds a request tells apart functions that fail in different ways
      have tells (e : CallError) : m.handler format payload = .fail e := by
        rw [← unasked Unit fun _ => .fail e]
        exact handler_eq_of_ok (m := m.answering fun _ => (.fail e : Answer Unit)) read
      have clash := (tells .timeout).symm.trans (tells .channelClosed)
      simp [Answer.fail] at clash
  · rintro ⟨e, unreadable⟩ β _ f
    rw [handler_eq_of_error unreadable]
    exact handler_eq_of_error (m := m.answering f) unreadable

end

end Service.Method

/-! ## Histories -/

namespace MethodTable

/-- One step of the making of a table. -/
inductive Step : Type 1
  | insert {α β : Type} [Payload α] [Payload β] (name : String) (f : α → Answer β)
  | register (s : Service)

def apply (t : MethodTable) : Step → MethodTable
  | @Step.insert _ _ _ _ name f => t.insert name f
  | .register s => t.register s

/-- The table that some steps make of an empty one. -/
def ofSteps (format : Format) (steps : List Step) : MethodTable :=
  steps.foldl apply { format }

/-- The methods that a step inserts, in order; a handler on its own names no types. -/
def Step.methods : Step → List Service.Method
  | @Step.insert _ _ _ _ name f => [{ info := ⟨name, "", ""⟩, answer := f }]
  | .register s => s.methods

/-- The names under which a step inserts something. -/
def Step.names (step : Step) : List String := step.methods.map (·.info.name)

/-- The method is the last one that the steps insert under this name. -/
def IsLast (steps : List Step) (n : String) (m : Service.Method) : Prop :=
  m.info.name = n ∧ ∃ before after, steps.flatMap Step.methods = before ++ m :: after ∧
    ∀ k ∈ after, k.info.name ≠ n

/-! ### Lemmas -/

variable {format : Format} {steps : List Step} {n : String} {m : Service.Method}

theorem apply_eq (t : MethodTable) (step : Step) :
    t.apply step = step.methods.foldl insertMethod t := by
  cases step <;> rfl

/-- Some steps insert what one service of all their methods does. -/
theorem ofSteps_eq_table (format : Format) (steps : List Step) :
    ofSteps format steps = Service.table ⟨"", steps.flatMap Step.methods⟩ format := by
  rw [ofSteps, Service.table, register, List.foldl_flatMap]
  congr 1
  funext t step
  exact apply_eq t step

theorem mem_methods_ofSteps :
    n ∈ (ofSteps format steps).methods ↔ ∃ step ∈ steps, n ∈ step.names := by
  rw [ofSteps_eq_table, Service.mem_table, Service.names_eq, List.map_flatMap, List.mem_flatMap]
  rfl

theorem isLast_iff :
    IsLast steps n m ↔ (steps.flatMap Step.methods).reverse.find? (·.info.name = n) = some m := by
  rw [List.find?_eq_some_iff_append, IsLast, decide_eq_true_iff]
  refine and_congr_right fun _ => ⟨?_, ?_⟩
  · rintro ⟨before, after, split, others⟩
    exact ⟨after.reverse, before.reverse, by simp [split], by simpa using others⟩
  · rintro ⟨after, before, split, others⟩
    refine ⟨before.reverse, after.reverse, ?_, by simpa using others⟩
    simpa using congrArg List.reverse split

theorem find?_ofSteps : (ofSteps format steps).find? n =
    ((steps.flatMap Step.methods).reverse.find? (·.info.name = n)).map (·.handler format) := by
  rw [ofSteps_eq_table, Service.table, find?_register]
  exact Option.or_none

theorem exists_isLast_iff : (∃ m, IsLast steps n m) ↔ ∃ step ∈ steps, n ∈ step.names := by
  simp only [isLast_iff, ← Option.isSome_iff_exists, List.find?_isSome, List.mem_reverse,
    List.mem_flatMap, Step.names, List.mem_map, decide_eq_true_iff]
  constructor
  · rintro ⟨m, ⟨step, member, inside⟩, named⟩
    exact ⟨step, member, m, inside, named⟩
  · rintro ⟨step, member, m, inside, named⟩
    exact ⟨m, ⟨step, member, inside⟩, named⟩

theorem contains_ofSteps_iff :
    (ofSteps format steps).contains n = true ↔ ∃ step ∈ steps, n ∈ step.names := by
  rw [contains, find?_ofSteps, Option.isSome_map, ← exists_isLast_iff, Option.isSome_iff_exists]
  simp only [isLast_iff]

/-- The last method of a name answers to it. -/
theorem dispatch_eq_handler (last : IsLast steps n m) :
    (ofSteps format steps).dispatch n = m.handler format := by
  funext payload
  rw [dispatch, find?_ofSteps, isLast_iff.1 last]
  rfl

theorem dispatch_eq_unimplemented (absent : ¬∃ step ∈ steps, n ∈ step.names) (payload : Bytes) :
    (ofSteps format steps).dispatch n payload = .fail (.unimplemented n) := by
  rw [← @contains_ofSteps_iff format, contains, Option.not_isSome_iff_eq_none] at absent
  rw [dispatch, absent]

/-! ### Services in any order -/

/-- What a service adds to what a table finds. -/
def overlay (format : Format) (find : String → Option Handler) (s : Service) :
    String → Option Handler :=
  fun n => ((s.methods.reverse.find? (·.info.name = n)).map (·.handler format)).or (find n)

theorem format_register (t : MethodTable) (s : Service) : (t.register s).format = t.format := by
  unfold register
  induction s.methods generalizing t with
  | nil => rfl
  | cons m ms ih => exact ih (t.insertMethod m)

theorem find?_registers (t : MethodTable) (services : List Service) :
    (services.foldl register t).find? = services.foldl (overlay t.format) t.find? := by
  induction services generalizing t with
  | nil => rfl
  | cons s services ih =>
    rw [List.foldl_cons, List.foldl_cons, ih, format_register]
    congr 1
    funext n
    exact find?_register t s n

theorem overlay_comm {s s' : Service} (apart : s.names.Disjoint s'.names)
    (find : String → Option Handler) :
    overlay format (overlay format find s) s' = overlay format (overlay format find s') s := by
  funext n
  have absent (s : Service) (h : n ∉ s.names) :
      s.methods.reverse.find? (·.info.name = n) = none := by
    rw [List.find?_eq_none]
    intro m member here
    exact h (s.names_eq ▸ List.mem_map.2 ⟨m, List.mem_reverse.1 member, of_decide_eq_true here⟩)
  unfold overlay
  by_cases here : n ∈ s.names
  · rw [absent s' fun there => apart here there]
    rfl
  · rw [absent s here]
    rfl

theorem dispatch_registers_perm {services services' : List Service}
    (perm : services.Perm services')
    (apart : services.Pairwise fun s s' => s.names.Disjoint s'.names) (t : MethodTable) :
    (services.foldl register t).dispatch = (services'.foldl register t).dispatch := by
  have same : (services.foldl register t).find? = (services'.foldl register t).find? := by
    rw [find?_registers, find?_registers]
    refine perm.foldl_eq' (fun s member s' member' find => ?_) t.find?
    -- `apart` is about two places in the list, the swap about two services, which may be the same
    by_cases e : s = s'
    · rw [e]
    · have : Std.Symm fun s s' : Service => s.names.Disjoint s'.names :=
        ⟨fun _ _ h _ here there => h there here⟩
      exact overlay_comm (apart.forall member member' e) find
  funext n payload
  rw [dispatch, dispatch, same]

end MethodTable

/-! ## Servers -/

/-- A server before it serves: what it answers with, and its settings. -/
structure Server.Setup where
  table : MethodTable
  config : ServerConfig := {}

/-- Registers a service with the server. -/
def Server.Setup.addService (setup : Server.Setup) (s : Service) : Server.Setup :=
  { setup with table := setup.table.register s }

namespace MethodTable

theorem table_addServices (setup : Server.Setup) (services : List Service) :
    (services.foldl Server.Setup.addService setup).table =
      services.foldl register setup.table := by
  induction services generalizing setup with
  | nil => rfl
  | cons s services ih => exact ih (setup.addService s)

/-- What is added to a new server are steps of its table. -/
theorem table_eq_ofSteps (format : Format) (config : ServerConfig) (services : List Service) :
    (services.foldl Server.Setup.addService ⟨{ format }, config⟩).table =
      ofSteps format (services.map .register) := by
  rw [table_addServices, ofSteps, List.foldl_map]
  rfl

/-- A table after any steps. It has one row for each name that came up. A call by another name is
not implemented; all others depend on nothing but the payload and the last method of their name.
What that method gives back is told by stages: its function is asked exactly if the payload holds a
request, and its errors pass as they are. Services added to a server are steps of its table, and
those that share no names may be added in any order. -/
theorem last_method_answers (format : Format) (steps : List Step) :
    (∀ n, (ofSteps format steps).contains n = true ↔ ∃ step ∈ steps, n ∈ step.names) ∧
      (ofSteps format steps).methods.Nodup ∧
      (∀ n, n ∈ (ofSteps format steps).methods ↔ ∃ step ∈ steps, n ∈ step.names) ∧
      (∀ n, (∃ m, IsLast steps n m) ↔ ∃ step ∈ steps, n ∈ step.names) ∧
      (∀ n, (¬∃ step ∈ steps, n ∈ step.names) → ∀ payload,
        (ofSteps format steps).dispatch n payload = .fail (.unimplemented n)) ∧
      (∀ n m, IsLast steps n m → (ofSteps format steps).dispatch n = m.handler format ∧
        ∀ payload, (∀ a, (ofSteps format steps).dispatch n payload = a ↔ m.Gives format payload a) ∧
          (m.Unasked format payload ↔ ∃ e, m.decode format payload = .error e)) ∧
      (∀ (config : ServerConfig) (services : List Service),
        (services.foldl Server.Setup.addService ⟨{ format }, config⟩).table =
          ofSteps format (services.map .register)) ∧
      ∀ (setup : Server.Setup) (services services' : List Service), services.Perm services' →
        services.Pairwise (fun s s' => s.names.Disjoint s'.names) →
        (services.foldl Server.Setup.addService setup).table.dispatch =
          (services'.foldl Server.Setup.addService setup).table.dispatch := by
  refine ⟨fun _ => contains_ofSteps_iff, ?_, fun _ => mem_methods_ofSteps,
    fun _ => exists_isLast_iff, fun n absent => dispatch_eq_unimplemented absent, ?_,
    table_eq_ofSteps format, ?_⟩
  · rw [ofSteps_eq_table]
    exact Service.nodup_table
  · intro n m last
    have answers : (ofSteps format steps).dispatch n = m.handler format :=
      dispatch_eq_handler last
    refine ⟨answers, fun payload => ⟨fun a => ?_, Service.Method.unasked_iff⟩⟩
    rw [answers]
    exact Service.Method.handler_eq_iff
  · intro setup services services' perm apart
    rw [table_addServices, table_addServices]
    exact dispatch_registers_perm perm apart setup.table

/-- The power contract with another function under one of its names. -/
def replaced : List Step :=
  [.register Power.service, .insert "powerOfTwo" fun (r : Request) => .ok (Response.mk r.value)]

/-- The last method of its name answers, and so does the one beside it; and two contracts may be
added in any order. -/
theorem replaced_method_answers_no_more :
    (∃ m, IsLast replaced "powerOfTwo" m ∧
      (ofSteps .json replaced).dispatch "powerOfTwo" = m.handler .json) ∧
      (∀ method reply, (method, reply) ∈ [("powerOfTwo", "3"), ("powerOfFour", "81")] →
        ((ofSteps .json replaced).dispatch method (Utf8.encode "\x7b\"value\":3\x7d")).outcome =
          .ok (Utf8.encode ("\x7b\"value\":" ++ reply ++ "\x7d"))) ∧
      [Power.service, Kit.service].Pairwise (fun s s' => s.names.Disjoint s'.names) ∧
      ∀ setup : Server.Setup,
        ((setup.addService Power.service).addService Kit.service).table.dispatch =
          ((setup.addService Kit.service).addService Power.service).table.dispatch := by
  obtain ⟨-, -, -, -, -, answers, -, orders⟩ := last_method_answers .json replaced
  obtain ⟨m, last⟩ : ∃ m, IsLast replaced "powerOfTwo" m :=
    ⟨_, rfl, Power.service.methods, [], rfl, by simp⟩
  have apart : [Power.service, Kit.service].Pairwise fun s s' => s.names.Disjoint s'.names := by
    simp [List.disjoint_left, Service.names_eq, Power.service, Kit.service]
  refine ⟨⟨m, last, (answers _ m last).1⟩, ?_, apart, fun setup =>
    orders setup _ [Kit.service, Power.service] (.swap ..) apart⟩
  simp only [List.mem_cons, Prod.mk.injEq, List.not_mem_nil, or_false]
  rintro method reply (⟨rfl, rfl⟩ | ⟨rfl, rfl⟩) <;> decide +kernel

end MethodTable

end RemoteCall
