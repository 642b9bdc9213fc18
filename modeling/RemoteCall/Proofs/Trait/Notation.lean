import RemoteCall.Proofs.Trait.Acceptance
import RemoteCall.Proofs.Trait.Readback

/-!
# Asynchronous functions are notation

The mark of an asynchronous function says the same as a future of its output: contracts that differ
in this way only have the same expansion (`expand_of_desugar`). So the declaration that stays, which
has no marks, could have been given in the first place. Read back from its tokens it is accepted
again, and all that is generated is the same, exactly if no output has a lifetime among the
arguments of its last name (`async_is_only_notation`). A lifetime there comes to stand where the
reply stood (`lifetime_takes_the_place_of_the_reply`).
-/

namespace RemoteCall.Trait

/-! ## Without the mark -/

section
variable {f : Function} {m : Method} {item : Item}

theorem Function.output?_desugar (f : Function) : f.desugar.output? = f.output? := by
  unfold desugar
  split
  next marked =>
    simp only [output?, marked, if_true]
    cases f.ret <;> rfl
  next => rfl

theorem Method.ofItem_desugar (item : Item) : ofItem item.desugar = ofItem item := by
  cases item with
  | other name => rfl
  | function f =>
    have same := f.output?_desugar
    simp only [Item.desugar, ofItem, ofFunction, same]
    unfold Function.desugar
    split <;> rfl

/-- A contract may as well be written without marks, or with some of them. -/
theorem expand_of_desugar {t : Trait} {items : List Item}
    (same : items.map Item.desugar = t.items.map Item.desugar) :
    expand { t with items } = expand t := by
  have unmarked : ∀ items : List Item,
      items.mapM Method.ofItem = (items.map Item.desugar).mapM Method.ofItem := by
    intro items
    rw [List.mapM_map]
    exact congrArg (List.mapM · items) (funext fun item => (Method.ofItem_desugar item).symm)
  have found : items.mapM Method.ofItem = t.items.mapM Method.ofItem := by
    rw [unmarked, same, ← unmarked]
  simp only [expand, found, same]

/-! ## What is read back -/

theorem Arg.output?_reread (a : Arg) : a.reread.output? = a.output?.map Ty.reread := by
  cases a with
  | assoc target t => by_cases here : target.name = "Output" <;> simp [output?, reread, here]
  | _ => rfl

theorem findSome?_reread {α : Type} {read : α → α} {output? : α → Option Ty}
    (one : ∀ a, output? (read a) = (output? a).map Ty.reread) (as : List α) :
    (as.map read).findSome? output? = (as.findSome? output?).map Ty.reread := by
  induction as with
  | nil => rfl
  | cons a as ih =>
    rw [List.map_cons, List.findSome?_cons, List.findSome?_cons, one]
    cases output? a with
    | none => exact ih
    | some t => rfl

/-- No lifetime says what the output is. -/
theorem findSome?_lifetimesFirst (args : List Arg) :
    (lifetimesFirst args).findSome? Arg.output? = args.findSome? Arg.output? := by
  have none : (args.filter (·.isLifetime)).findSome? Arg.output? = .none := by
    refine List.findSome?_eq_none_iff.2 fun a member => ?_
    have is := (List.mem_filter.1 member).2
    cases a with
    | lifetime name => rfl
    | _ => cases is
  rw [lifetimesFirst, List.findSome?_append, none, Option.none_or]
  clear none
  induction args with
  | nil => rfl
  | cons a args ih =>
    cases a with
    | lifetime name => exact ih
    | _ => rw [List.filter_cons_of_pos rfl, List.findSome?_cons, List.findSome?_cons, ih]

theorem Bound.output?_reread (b : Bound) : b.reread.output? = b.output?.map Ty.reread := by
  cases b with
  | lifetime name => rfl
  | path parenthesized marks p =>
    obtain ⟨leading, segments⟩ := p
    have named : (segmentsReread segments).find? (·.name = "Future") =
        (segments.find? (·.name = "Future")).map Segment.reread := by
      rw [segmentsReread_eq, List.find?_map]
      exact congrArg (Option.map Segment.reread <| List.find? · segments)
        (funext fun s => by simp)
    simp only [reread, Path.reread, output?, Path.segments, named]
    cases segments.find? (·.name = "Future") with
    | none => rfl
    | some s =>
      cases s with
      | plain | applied => rfl
      | angled name turbofish args comma =>
        simp only [Option.map_some, Segment.reread, assocType?_eq, findSome?_lifetimesFirst,
          argsReread_eq]
        exact findSome?_reread Arg.output?_reread args

theorem Ty.future?_reread (t : Ty) : t.reread.future? = t.future?.map Ty.reread := by
  cases t with
  | impl bounds plus =>
    rw [Ty.reread, future?, future?, boundsReread_eq]
    exact findSome?_reread Bound.output?_reread bounds
  | _ => rfl

/-- The output is read back as well. -/
theorem Function.output?_reread (f : Function) : f.reread.output? = f.output?.map Ty.reread := by
  have kept : f.reread.isAsync = f.isAsync := rfl
  simp only [output?, kept]
  split
  next => rfl
  next =>
    simp only [reread]
    cases f.ret with
    | none => rfl
    | some t => exact t.future?_reread

theorem Ty.segments_reread (t : Ty) : t.reread.segments = t.segments.map Segment.reread := by
  cases t with
  | path p =>
    obtain ⟨leading, segments⟩ := p
    exact segmentsReread_eq segments
  | member owner via segments =>
    cases via with
    | none =>
      simp only [Ty.reread, Ty.segments, viaReread, Option.elim, List.nil_append, segmentsReread_eq]
    | some p =>
      obtain ⟨leading, front⟩ := p
      simp only [Ty.reread, Ty.segments, viaReread, Path.reread, Path.segments, Option.elim,
        List.map_append, segmentsReread_eq]
  | _ => rfl

/-- No lifetime stands among the arguments of the last name. -/
def Ty.KeepsReply (t : Ty) : Prop :=
  ∀ before name turbofish args comma, t.segments = before ++ [.angled name turbofish args comma] →
    ∀ a ∈ args, a.isLifetime = false

section
variable {t reply : Ty}

theorem Ty.Replies.keepsReply_iff {before : List Segment} {name : String} {turbofish comma : Bool}
    {args : List Arg} (last : t.segments = before ++ [.angled name turbofish args comma]) :
    t.KeepsReply ↔ ∀ a ∈ args, a.isLifetime = false := by
  refine ⟨fun keeps => keeps _ _ _ _ _ last, fun none => ?_⟩
  intro before' name' turbofish' args' comma' last'
  obtain ⟨-, same⟩ := List.append_inj' (last.symm.trans last') rfl
  obtain ⟨-, -, rfl, -⟩ := by simpa using same
  exact none

theorem Ty.Replies.reread (h : t.Replies reply) (keeps : t.KeepsReply) :
    t.reread.Replies reply.reread := by
  obtain ⟨before, name, turbofish, more, comma, last⟩ := h
  have none := (keepsReply_iff last).1 keeps
  have ordered : lifetimesFirst (argsReread (.type reply :: more)) =
      .type reply.reread :: more.map Arg.reread := by
    have all : ∀ a ∈ argsReread (.type reply :: more), a.isLifetime = false := by
      intro a member
      rw [argsReread_eq] at member
      obtain ⟨b, here, rfl⟩ := List.mem_map.1 member
      rw [Arg.isLifetime_reread]
      exact none b here
    rw [lifetimesFirst, List.filter_eq_nil_iff.2 (by simpa using all),
      List.filter_eq_self.2 (by simpa using all), List.nil_append, argsReread_eq]
    rfl
  refine ⟨before.map Segment.reread, name, turbofish, more.map Arg.reread,
    commaBehind (argsReread (.type reply :: more)) comma, ?_⟩
  rw [segments_reread, last, List.map_append, List.map_singleton, Segment.reread, ordered,
    commaBehind_reread]

/-- A lifetime comes to stand before the reply. -/
theorem Ty.Replies.unreplied (h : t.Replies reply) (moves : ¬t.KeepsReply) (u : Ty) :
    ¬t.reread.Replies u := by
  obtain ⟨before, name, turbofish, more, comma, last⟩ := h
  rw [keepsReply_iff last] at moves
  obtain ⟨a, member, is⟩ : ∃ a ∈ .type reply :: more, a.isLifetime = true := by
    simpa [Arg.isLifetime] using moves
  rintro ⟨before', name', turbofish', more', comma', last'⟩
  rw [segments_reread, last, List.map_append, List.map_singleton] at last'
  obtain ⟨-, same⟩ := List.append_inj' last' rfl
  have first : lifetimesFirst (argsReread (.type reply :: more)) = .type u :: more' := by
    simp only [Segment.reread, List.cons.injEq, Segment.angled.injEq, and_true] at same
    exact same.2.2.1
  have moved : a.reread ∈ (argsReread (.type reply :: more)).filter (·.isLifetime) := by
    rw [argsReread_eq]
    exact List.mem_filter.2 ⟨List.mem_map_of_mem member, (Arg.isLifetime_reread a).trans is⟩
  cases lifetimes : (argsReread (.type reply :: more)).filter (·.isLifetime) with
  | nil => simp [lifetimes] at moved
  | cons b bs =>
    have lifetime : b.isLifetime = true :=
      (List.mem_filter.1 (lifetimes ▸ List.mem_cons_self)).2
    rw [lifetimesFirst, lifetimes, List.cons_append, List.cons.injEq] at first
    rw [first.1] at lifetime
    cases lifetime

end

/-! ## What a function declares when it is read back -/

def Method.reread (m : Method) : Method :=
  { m with request := m.request.reread, output := m.output.reread, reply := m.reply.reread }

theorem Function.Gives.reread {u : Ty} (h : f.Gives u) : f.reread.Gives u.reread := by
  rw [← output?_eq_some_iff] at h ⊢
  rw [output?_reread, h, Option.map_some]

namespace Function.Declares

theorem reread (h : f.Declares m) (keeps : m.output.KeepsReply) :
    f.reread.Declares m.reread := by
  obtain ⟨pattern, args, binds⟩ := h.request
  exact {
    name := h.name
    unwritten := h.unwritten
    receiver := h.receiver
    request := ⟨pattern, congrArg (List.map Argument.reread) args, binds⟩
    output := h.output.reread
    reply := h.reply.reread keeps }

theorem desugar (h : f.Declares m) : f.desugar.Declares m := by
  rw [← Method.ofFunction_eq_ok_iff] at h ⊢
  exact (Method.ofItem_desugar (.function f)).trans h

/-- All requirements up to the last one are met. -/
theorem fails_reread (h : f.Declares m) (moves : ¬m.output.KeepsReply) :
    Fails f.reread.requirements .noReply := by
  obtain ⟨pattern, args, binds⟩ := h.request
  have args : f.reread.args = [⟨pattern, m.request.reread⟩] :=
    congrArg (List.map Argument.reread) args
  refine .later h.unwritten <| .later h.receiver <| .later (by simp [args]) <|
    .later (by simpa [args] using ⟨m.arg, binds⟩) <| .later ⟨_, h.output.reread⟩ <| .here ?_
  intro replies
  obtain ⟨reply, is⟩ := replies _ h.output.reread
  exact h.reply.unreplied moves reply is

end Function.Declares

/-- The item in the declaration that stays, read back. -/
theorem Item.Declares.reread (h : item.Declares m) (keeps : m.output.KeepsReply) :
    item.desugar.reread.Declares m.reread := by
  obtain ⟨f, rfl, declares⟩ := h
  exact ⟨_, rfl, declares.desugar.reread keeps⟩

theorem Item.Declares.fails_reread (h : item.Declares m) (moves : ¬m.output.KeepsReply) :
    Fails item.desugar.reread.requirements .noReply := by
  obtain ⟨f, rfl, declares⟩ := h
  exact declares.desugar.fails_reread moves

theorem Function.desugar_reread_desugar (f : Function) :
    f.desugar.reread.desugar = f.desugar.reread := by
  have unmarked : f.desugar.reread.isAsync = false := by
    simp only [reread]
    unfold desugar
    split
    next => rfl
    next plain => simpa using plain
  rw [desugar, if_neg (by simp [unmarked])]

/-- No mark is read back. -/
theorem Item.desugar_reread_desugar (item : Item) :
    item.desugar.reread.desugar = item.desugar.reread := by
  cases item with
  | function f => exact congrArg Item.function f.desugar_reread_desugar
  | other name => rfl

end

/-! ## The code of an expansion -/

namespace Expansion

/-- All that is generated, with the types by their tokens. -/
@[ext] structure Code where
  declaration : Tokens
  schemaName : String
  schema : Schema
  constants : List (String × String)
  registration : Tokens
  /-- The wire name, the method, the name of the request and its type. -/
  handlers : List (String × String × String × Tokens)
  /-- The signature, the wire name, the name of the request, and the types that the call is for. -/
  proxies : List (Tokens × String × String × Tokens × Tokens)
  clientName : String
  /-- The signature, the method and the name of the request. -/
  forwarders : List (Tokens × String × String)

def code (e : Expansion) : Code where
  declaration := e.declaration.tokens
  schemaName := e.schemaName
  schema := e.schema
  constants := e.constants
  registration := e.registration.tokens
  handlers := e.handlers.map fun h => (h.wire, h.method, h.arg, h.request.tokens)
  proxies := e.proxies.map fun p => (p.tokens, p.wire, p.arg, p.request.tokens, p.reply.tokens)
  clientName := e.clientName
  forwarders := e.forwarders.map fun f => (f.tokens, f.method, f.arg)

def reread (e : Expansion) : Expansion := ⟨e.declaration.reread, e.methods.map Method.reread⟩

/-- The order of arguments does not show in the code. -/
theorem code_reread (e : Expansion) : e.reread.code = e.code := by
  -- each part makes something of each method
  have listed : ∀ {α : Type} {part : Method → α}, (∀ m, part m.reread = part m) →
      e.reread.methods.map part = e.methods.map part := by
    intro α part same
    rw [reread, List.map_map]
    exact List.map_congr_left fun m _ => same m
  have declaration : e.reread.declaration.tokens = e.declaration.tokens :=
    e.declaration.tokens_reread
  have schema : e.reread.schema = e.schema := by
    refine congrArg (Schema.mk e.name) (listed fun m => ?_)
    simp only [Method.reread, Ty.tokens_reread]
    rfl
  have constants : e.reread.constants = e.constants := listed fun _ => rfl
  have handlers : e.reread.code.handlers = e.code.handlers := by
    simp only [code, Expansion.handlers, List.map_map]
    refine listed fun m => ?_
    simp only [Function.comp, Method.reread, Ty.tokens_reread]
    rfl
  have proxies : e.reread.code.proxies = e.code.proxies := by
    simp only [code, Expansion.proxies, List.map_map]
    refine listed fun m => ?_
    have future : (Ty.futureOf m.output.reread).tokens = (Ty.futureOf m.output).tokens :=
      (Ty.futureOf m.output).tokens_reread
    simp only [Function.comp, Proxy.tokens, Method.reread, Ty.tokens_reread, future]
    rfl
  have forwarders : e.reread.code.forwarders = e.code.forwarders := by
    simp only [code, Expansion.forwarders, List.map_map]
    refine listed fun m => ?_
    simp only [Function.comp, Forwarder.tokens, Method.reread, Ty.tokens_reread]
  exact Code.ext declaration rfl schema constants rfl handlers proxies rfl forwarders

end Expansion

/-! ## Expanding what stays -/

section
variable {t : Trait} {e : Expansion}

theorem declares_reread {items : List Item} {methods : List Method}
    (all : List.Forall₂ Item.Declares items methods)
    (keep : ∀ m ∈ methods, m.output.KeepsReply) :
    List.Forall₂ Item.Declares ((items.map Item.desugar).map Item.reread)
      (methods.map Method.reread) := by
  induction all with
  | nil => exact .nil
  | cons declares _ ih =>
    exact .cons (declares.reread (keep _ List.mem_cons_self))
      (ih fun m member => keep m (List.mem_cons_of_mem _ member))

theorem fails_reread {items : List Item} {methods : List Method}
    (all : List.Forall₂ Item.Declares items methods)
    (moves : ∃ m ∈ methods, ¬m.output.KeepsReply) :
    Fails (((items.map Item.desugar).map Item.reread).flatMap Item.requirements) .noReply := by
  induction all with
  | nil => simp at moves
  | @cons item m items methods declares _ ih =>
    rw [List.map_cons, List.map_cons, List.flatMap_cons, fails_append]
    by_cases keeps : m.output.KeepsReply
    · refine .inr ⟨(declares.reread keeps).meets, ih ?_⟩
      simpa [keeps] using moves
    · exact .inl (declares.fails_reread keeps)

/-- Of an accepted contract, the declaration that stays is read back with the tokens that it has. It
is accepted again, with the same code for all parts, exactly if no output has a lifetime among the
arguments of its last name; else it is refused for want of a reply. In each contract with the same
declaration the marks stand for the same: asynchronous functions may be mixed with such as give the
future themselves, and the expansion is the same. -/
theorem async_is_only_notation (accepted : expand t = .ok e) :
    e.declaration.reread.tokens = e.declaration.tokens ∧
      ((∀ m ∈ e.methods, m.output.KeepsReply) →
        ∃ again, expand e.declaration.reread = .ok again ∧ again.code = e.code) ∧
      ((∃ m ∈ e.methods, ¬m.output.KeepsReply) →
        expand e.declaration.reread = .error (.fault .noReply)) ∧
      ∀ items : List Item, items.map Item.desugar = t.items.map Item.desugar →
        expand { t with items } = .ok e := by
  obtain ⟨plain, all, named, declaration⟩ := expand_eq_ok_iff.1 accepted
  refine ⟨e.declaration.tokens_reread, fun keep => ⟨e.reread, ?_, e.code_reread⟩, fun moves => ?_,
    fun items same => (expand_of_desugar same).trans accepted⟩
  · refine expand_eq_ok_iff.2 ⟨?_, ?_, ?_, ?_⟩
    · rw [declaration]
      exact plain
    · rw [declaration]
      exact declares_reread all keep
    · intro m member
      obtain ⟨m, here, rfl⟩ := List.mem_map.1 member
      exact named m here
    · have unmarked : ((t.items.map Item.desugar).map Item.reread).map Item.desugar =
          (t.items.map Item.desugar).map Item.reread := by
        simp [Item.desugar_reread_desugar]
      simp only [Expansion.reread, declaration, reread, unmarked]
  · refine expand_eq_fault_iff.2 (.later ?_ ?_)
    · rw [declaration]
      exact plain
    · rw [declaration]
      exact fails_reread all moves

end

/-- Two functions of one output: the first one is asynchronous, the second one gives the future
itself. -/
def mixed (output : Ty) : Trait where
  name := "Calc"
  items := [
    .function
      { name := "get_item", receiver := some (.shared none), isAsync := true
        args := [⟨["request"], .named "Request"⟩], ret := some output, hasBody := false },
    .function
      { name := "put_item", receiver := some (.shared none), isAsync := false
        args := [⟨["request"], .named "Request"⟩], ret := some (.futureOf output)
        hasBody := false }]

/-- A result type with these arguments. -/
def result (args : List Arg) : Ty := .path (.mk false [.ofArgs "RpcResult" args])

theorem marks_are_read_back_as_futures : ∃ e again,
    expand (mixed (result [.type (.named "Response")])) = .ok e ∧
    (∀ m ∈ e.methods, m.output.KeepsReply) ∧
    expand e.declaration.reread = .ok again ∧ again.code = e.code ∧
    expand { mixed (result [.type (.named "Response")]) with
      items := (mixed (result [.type (.named "Response")])).items.map Item.desugar } = .ok e := by
  obtain ⟨e, accepted, methods⟩ : ∃ e,
      expand (mixed (result [.type (.named "Response")])) = .ok e ∧
      ∀ m ∈ e.methods, m.output = result [.type (.named "Response")] :=
    ⟨_, rfl, by simp⟩
  have keep : ∀ m ∈ e.methods, m.output.KeepsReply := by
    intro m member
    rw [methods m member]
    exact (Ty.Replies.keepsReply_iff (List.nil_append _).symm).2 (by simp [Arg.isLifetime])
  obtain ⟨-, again, -, mixtures⟩ := async_is_only_notation accepted
  obtain ⟨again, accepted', same⟩ := again keep
  exact ⟨e, again, accepted, keep, accepted', same,
    mixtures _ (by simp [mixed, Item.desugar, Function.desugar])⟩

/-- The lifetime behind the reply is read back before it. -/
theorem lifetime_takes_the_place_of_the_reply : ∃ e,
    expand (mixed (result [.type (.named "Response"), .lifetime "'static"])) = .ok e ∧
    e.declaration.reread.tokens = e.declaration.tokens ∧
    expand e.declaration.reread = .error (.fault .noReply) :=
  ⟨_, rfl, tokens_reread _, rfl⟩

end RemoteCall.Trait
