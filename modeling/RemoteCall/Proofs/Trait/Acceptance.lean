import Mathlib.Data.List.Forall2
import RemoteCall.Proofs.Trait.Registration

/-!
# Contracts that are accepted

The requirements for a contract are one list, in the order of its declaration: it has no parameters,
and then each item is a method, without a body, called on a shared value, and so on
(`Trait.requirements`). A contract is accepted exactly if all of them hold, and otherwise refused
with the fault of the first one that fails. What each method declares is said apart from how it is
found (`Function.Declares`), and all parts of the expansion list the methods with that
(`expands_exactly_what_is_required`).
-/

namespace RemoteCall.Trait

/-! ## What a function declares -/

/-- The text can be the name of a constant. -/
def IsIdentifier (text : String) : Prop :=
  ∃ c cs, text.toList = c :: cs ∧ Tokens.starts c = true ∧ ∀ d ∈ cs, Tokens.goesOn d = true

instance (text : String) : Decidable (IsIdentifier text) :=
  decidable_of_iff ((match text.toList with
    | [] => false
    | c :: cs => Tokens.starts c && cs.all Tokens.goesOn) = true) <| by
    unfold IsIdentifier
    cases text.toList with
    | nil => simp
    | cons c cs => simp

/-- The pattern is a name, perhaps bound by reference or to be changed, and perhaps with a pattern
below it. -/
def Binds (pattern : Tokens) (name : String) : Prop :=
  (isName name = true ∨ name = "self") ∧ ∃ shared ∈ [[], ["ref"]], ∃ changing ∈ [[], ["mut"]],
    ∃ below : Tokens, pattern = shared ++ changing ++ name :: below ∧
      (below = [] ∨ below.head? = some "@")

/-- The argument says that the output is `t`. -/
inductive Arg.SaysOutput : Arg → Ty → Prop
  | intro {target : Segment} {t : Ty} : target.name = "Output" → SaysOutput (.assoc target t) t

/-- The first of the arguments that says what the output is says that it is `t`. -/
def OutputAmong (args : List Arg) (t : Ty) : Prop :=
  ∃ before a after, args = before ++ a :: after ∧ a.SaysOutput t ∧
    ∀ b ∈ before, ∀ u, ¬b.SaysOutput u

/-- The bound names `Future`, and the arguments where it does so first say what the output is. -/
inductive Bound.Yields : Bound → Ty → Prop
  | intro {parenthesized leading turbofish comma : Bool} {marks : Tokens}
      {before after : List Segment} {args : List Arg} {t : Ty} :
    (∀ s ∈ before, s.name ≠ "Future") → OutputAmong args t →
    Yields (.path parenthesized marks
      (.mk leading (before ++ .angled "Future" turbofish args comma :: after))) t

/-- The type is given by bounds, and the first one of them that yields an output yields `t`. -/
inductive Ty.Yields : Ty → Ty → Prop
  | intro {before after : List Bound} {b : Bound} {plus : Bool} {t : Ty} : b.Yields t →
    (∀ c ∈ before, ∀ u, ¬c.Yields u) → Yields (.impl (before ++ b :: after) plus) t

/-- In the end a call of the function gives `t`. -/
inductive Function.Gives (f : Function) (t : Ty) : Prop
  | async : f.isAsync = true → f.ret = some t → Gives f t
  | future {r : Ty} : f.isAsync = false → f.ret = some r → r.Yields t → Gives f t

/-- The type is a path, and the first argument of its last name is the type `reply`. -/
def Ty.Replies (t reply : Ty) : Prop :=
  ∃ before name turbofish more comma,
    t.segments = before ++ [.angled name turbofish (.type reply :: more) comma]

/-- The function declares the method. -/
structure Function.Declares (f : Function) (m : Method) : Prop where
  name : m.name = f.name
  unwritten : f.hasBody = false
  receiver : ∃ l, f.receiver = some (.shared l)
  request : ∃ pattern, f.args = [⟨pattern, m.request⟩] ∧ Binds pattern m.arg
  output : f.Gives m.output
  reply : m.output.Replies m.reply

/-! ## Requirements -/

/-- What a function has to meet to declare a method, each with the fault otherwise. -/
def Function.requirements (f : Function) : List (Fault × Prop) :=
  [(.defaultBody, f.hasBody = false),
    (.receiver, ∃ l, f.receiver = some (.shared l)),
    (.arguments, f.args.length = 1),
    (.pattern, ∀ a ∈ f.args, ∃ name, Binds a.pattern name),
    (.noOutput, ∃ t, f.Gives t),
    (.noReply, ∀ t, f.Gives t → ∃ reply, t.Replies reply)]

def Item.requirements : Item → List (Fault × Prop)
  | .function f => f.requirements
  | .other _ => [(.notMethod, False)]

/-- The requirements for a contract, in the order of its declaration. -/
def requirements (t : Trait) : List (Fault × Prop) :=
  (.generic, t.generics = []) :: t.items.flatMap Item.requirements

/-- The first requirement that fails has this fault. -/
inductive Fails : List (Fault × Prop) → Fault → Prop
  | here {f : Fault} {p : Prop} {rs : List (Fault × Prop)} : ¬p → Fails ((f, p) :: rs) f
  | later {f g : Fault} {p : Prop} {rs : List (Fault × Prop)} : p → Fails rs f →
    Fails ((g, p) :: rs) f

section
variable {f g : Fault} {p : Prop} {rs qs : List (Fault × Prop)}

@[simp] theorem not_fails_nil : ¬Fails [] f := nofun

@[simp] theorem fails_cons : Fails ((g, p) :: rs) f ↔ ¬p ∧ g = f ∨ p ∧ Fails rs f := by
  constructor
  · rintro (fault | ⟨holds, rest⟩)
    · exact .inl ⟨fault, rfl⟩
    · exact .inr ⟨holds, rest⟩
  · rintro (⟨fault, rfl⟩ | ⟨holds, rest⟩)
    · exact .here fault
    · exact .later holds rest

theorem fails_append : Fails (rs ++ qs) f ↔ Fails rs f ∨ (∀ q ∈ rs, q.2) ∧ Fails qs f := by
  induction rs with
  | nil => simp
  | cons r rs ih =>
    obtain ⟨g, p⟩ := r
    simp only [List.cons_append, fails_cons, ih, List.forall_mem_cons]
    tauto

end

/-! ## Finding the parts -/

section
variable {pattern : Tokens} {name : String} {args : List Arg} {b : Bound} {f : Function} {t u : Ty}

/-- A mark is taken off the front if it stands there. -/
theorem exists_mark (mark : String) (ts : Tokens) :
    ∃ front ∈ [[], [mark]], ts = front ++ if ts.head? = some mark then ts.tail else ts := by
  by_cases marked : ts.head? = some mark
  · obtain ⟨rest, rfl⟩ := List.head?_eq_some_iff.1 marked
    exact ⟨[mark], by simp, by simp⟩
  · exact ⟨[], by simp, by simp [marked]⟩

/-- No mark can be taken for a name. -/
theorem ne_mark (is : isName name = true ∨ name = "self") : name ≠ "ref" ∧ name ≠ "mut" := by
  constructor
  all_goals
    rintro rfl
    revert is
    decide

theorem binding?_eq_some_iff : binding? pattern = some name ↔ Binds pattern name := by
  constructor
  · intro found
    obtain ⟨shared, isShared, same⟩ := exists_mark "ref" pattern
    obtain ⟨changing, isChanging, same'⟩ :=
      exists_mark "mut" (if pattern.head? = some "ref" then pattern.tail else pattern)
    simp only [binding?] at found
    generalize (if List.head? (if pattern.head? = some "ref" then pattern.tail else pattern) =
      some "mut" then _ else _ : Tokens) = rest at found same'
    rw [same', ← List.append_assoc] at same
    split at found
    next n =>
      obtain ⟨is, named⟩ := Option.ite_none_right_eq_some.1 found
      obtain rfl := Option.some.inj named
      exact ⟨by simpa using is, shared, isShared, changing, isChanging, [], same, .inl rfl⟩
    next n below =>
      obtain ⟨is, named⟩ := Option.ite_none_right_eq_some.1 found
      obtain rfl := Option.some.inj named
      exact ⟨by simpa using is, shared, isShared, changing, isChanging, _, same, .inr rfl⟩
    next => cases found
  · rintro ⟨is, shared, isShared, changing, isChanging, below, rfl, ends⟩
    obtain ⟨unshared, unchanging⟩ := ne_mark is
    have counts : (isName name || decide (name = "self")) = true := by simpa using is
    simp only [List.mem_cons, List.not_mem_nil, or_false] at isShared isChanging
    rcases ends with rfl | under
    · rcases isShared with rfl | rfl <;> rcases isChanging with rfl | rfl <;>
        simp [binding?, unshared, unchanging, counts]
    · obtain ⟨more, rfl⟩ := List.head?_eq_some_iff.1 under
      rcases isShared with rfl | rfl <;> rcases isChanging with rfl | rfl <;>
        simp [binding?, unshared, unchanging, counts]

/-- The output that the argument tells. -/
def Arg.output? : Arg → Option Ty
  | .assoc target t => if target.name = "Output" then some t else none
  | _ => none

theorem Arg.output?_eq_some_iff {a : Arg} : a.output? = some t ↔ a.SaysOutput t := by
  constructor
  · intro found
    unfold Arg.output? at found
    split at found
    next target u =>
      obtain ⟨here, same⟩ := Option.ite_none_right_eq_some.1 found
      obtain rfl := Option.some.inj same
      exact .intro here
    next => cases found
  · rintro ⟨here⟩
    exact if_pos here

/-- Whatever finds none finds nothing there is. -/
theorem eq_none_iff_of_eq_some_iff {α : Type} {o : Option α} {p : α → Prop}
    (found : ∀ a, o = some a ↔ p a) : o = none ↔ ∀ a, ¬p a := by
  rw [Option.eq_none_iff_forall_ne_some]
  exact forall_congr' fun a => not_congr (found a)

theorem assocType?_eq (args : List Arg) :
    assocType? "Output" args = args.findSome? Arg.output? := by
  induction args with
  | nil => rfl
  | cons a args ih =>
    cases a with
    | assoc target t =>
      by_cases here : target.name = "Output" <;> simp [assocType?, Arg.output?, here, ih]
    | _ => exact ih

theorem assocType?_eq_some_iff : assocType? "Output" args = some t ↔ OutputAmong args t := by
  simp only [assocType?_eq, List.findSome?_eq_some_iff, OutputAmong, Arg.output?_eq_some_iff,
    eq_none_iff_of_eq_some_iff fun t => Arg.output?_eq_some_iff]

theorem Bound.output?_eq_some_iff : b.output? = some t ↔ b.Yields t := by
  constructor
  · intro found
    unfold Bound.output? at found
    split at found
    next => cases found
    next parenthesized marks path =>
      split at found
      next name turbofish args comma first =>
        obtain ⟨leading, segments⟩ := path
        obtain ⟨here, before, after, same, earlier⟩ := List.find?_eq_some_iff_append.1 first
        obtain rfl : name = "Future" := of_decide_eq_true here
        obtain rfl : segments = before ++ .angled "Future" turbofish args comma :: after := same
        exact .intro (fun s member => by simpa using earlier s member)
          (assocType?_eq_some_iff.1 found)
      next => cases found
  · rintro ⟨earlier, among⟩
    rename_i parenthesized leading turbofish comma marks before after args
    have first : (before ++ .angled "Future" turbofish args comma :: after).find?
        (·.name = "Future") = some (.angled "Future" turbofish args comma) :=
      List.find?_eq_some_iff_append.2
        ⟨by simp [Segment.name], before, after, rfl,
          fun s member => by simpa using earlier s member⟩
    simp only [Bound.output?, Path.segments, first]
    exact assocType?_eq_some_iff.2 among

theorem Ty.future?_eq_some_iff : u.future? = some t ↔ u.Yields t := by
  constructor
  · intro found
    unfold Ty.future? at found
    split at found
    next bounds plus =>
      obtain ⟨before, b, after, rfl, first, earlier⟩ := List.findSome?_eq_some_iff.1 found
      refine .intro (Bound.output?_eq_some_iff.1 first) fun c member => ?_
      exact (eq_none_iff_of_eq_some_iff fun _ => Bound.output?_eq_some_iff).1 (earlier c member)
    next => cases found
  · rintro ⟨first, earlier⟩
    refine List.findSome?_eq_some_iff.2
      ⟨_, _, _, rfl, Bound.output?_eq_some_iff.2 first, fun c member => ?_⟩
    exact (eq_none_iff_of_eq_some_iff fun _ => Bound.output?_eq_some_iff).2 (earlier c member)

theorem Function.output?_eq_some_iff : f.output? = some t ↔ f.Gives t := by
  constructor
  · intro found
    unfold Function.output? at found
    split at found
    next marked => exact .async marked found
    next unmarked =>
      obtain ⟨r, returned, yields⟩ := Option.bind_eq_some_iff.1 found
      exact .future (by simpa using unmarked) returned (Ty.future?_eq_some_iff.1 yields)
  · rintro (⟨marked, returned⟩ | ⟨unmarked, returned, yields⟩)
    · simp [Function.output?, marked, returned]
    · simpa [Function.output?, unmarked, returned] using Ty.future?_eq_some_iff.2 yields

theorem Ty.reply?_eq_some_iff : t.reply? = some u ↔ t.Replies u := by
  constructor
  · intro found
    unfold Ty.reply? at found
    split at found
    next name turbofish reply more comma last =>
      obtain rfl := Option.some.inj found
      obtain ⟨before, same⟩ := List.getLast?_eq_some_iff.1 last
      exact ⟨before, name, turbofish, more, comma, same⟩
    next => cases found
  · rintro ⟨before, name, turbofish, more, comma, same⟩
    simp [Ty.reply?, same]

end

/-! ## Functions and items -/

section
variable {f : Function} {m : Method} {item : Item} {fault : Fault}

theorem Method.ofFunction_eq_ok_iff : ofFunction f = .ok m ↔ f.Declares m := by
  constructor
  · intro found
    simp only [ofFunction, bind, Except.bind, throw, throwThe, MonadExceptOf.throw, pure,
      Except.pure] at found
    split at found
    next => cases found
    next unwritten =>
      split at found
      next l receiver =>
        split at found
        next a args =>
          split at found
          next arg binds =>
            split at found
            next output gives =>
              split at found
              next reply replies =>
                obtain rfl := Except.ok.inj found
                exact ⟨rfl, by simpa using unwritten, ⟨l, receiver⟩,
                  ⟨a.pattern, args, binding?_eq_some_iff.1 binds⟩,
                  Function.output?_eq_some_iff.1 gives, Ty.reply?_eq_some_iff.1 replies⟩
              next => cases found
            next => cases found
          next => cases found
        next => cases found
      next => cases found
  · rintro ⟨name, unwritten, ⟨l, receiver⟩, ⟨pattern, args, binds⟩, output, reply⟩
    have arg := binding?_eq_some_iff.2 binds
    have output := Function.output?_eq_some_iff.2 output
    have reply := Ty.reply?_eq_some_iff.2 reply
    simp [ofFunction, pure, Except.pure, unwritten, receiver, args, arg, output, reply, ← name]

theorem Method.fails_of_ofFunction (refused : ofFunction f = .error fault) :
    Fails f.requirements fault := by
  simp only [ofFunction, bind, Except.bind, throw, throwThe, MonadExceptOf.throw, pure,
    Except.pure] at refused
  split at refused
  next written =>
    obtain rfl := Except.error.inj refused
    exact .here (by simp [written])
  next unwritten =>
    refine .later (by simpa using unwritten) ?_
    split at refused
    next l receiver =>
      refine .later ⟨l, receiver⟩ ?_
      split at refused
      next a args =>
        refine .later (by simp [args]) ?_
        split at refused
        next arg binds =>
          refine .later (by simpa [args] using ⟨arg, binding?_eq_some_iff.1 binds⟩) ?_
          split at refused
          next output gives =>
            refine .later ⟨output, Function.output?_eq_some_iff.1 gives⟩ ?_
            split at refused
            next => cases refused
            next unreplied =>
              obtain rfl := Except.error.inj refused
              refine .here fun replies => ?_
              obtain ⟨reply, is⟩ := replies output (Function.output?_eq_some_iff.1 gives)
              exact unreplied reply (Ty.reply?_eq_some_iff.2 is)
          next ungiven =>
            obtain rfl := Except.error.inj refused
            refine .here fun given => ?_
            obtain ⟨t, gives⟩ := given
            exact ungiven t (Function.output?_eq_some_iff.2 gives)
        next unbound =>
          obtain rfl := Except.error.inj refused
          refine .here fun bound => ?_
          obtain ⟨name, binds⟩ := bound a (by simp [args])
          exact unbound name (binding?_eq_some_iff.2 binds)
      next several =>
        obtain rfl := Except.error.inj refused
        exact .here fun one => (List.length_eq_one_iff.1 one).elim several
    next other =>
      obtain rfl := Except.error.inj refused
      refine .here fun referred => ?_
      obtain ⟨l, receiver⟩ := referred
      exact other l receiver

/-- A function that declares a method meets all that is required of it. -/
theorem Function.Declares.meets (h : f.Declares m) : ∀ q ∈ f.requirements, q.2 := by
  obtain ⟨pattern, args, binds⟩ := h.request
  have reply : ∀ t, f.Gives t → ∃ reply, t.Replies reply := by
    intro t gives
    have same : some t = some m.output :=
      (output?_eq_some_iff.2 gives).symm.trans (output?_eq_some_iff.2 h.output)
    obtain rfl := Option.some.inj same
    exact ⟨m.reply, h.reply⟩
  simp only [requirements, List.forall_mem_cons, List.not_mem_nil, false_imp_iff, implies_true,
    and_true]
  refine ⟨h.unwritten, h.receiver, by simp [args], ?_, ⟨m.output, h.output⟩, reply⟩
  simpa [args] using ⟨m.arg, binds⟩

/-- The item is a function that declares the method. -/
def Item.Declares (item : Item) (m : Method) : Prop := ∃ f, item = .function f ∧ f.Declares m

theorem Method.ofItem_eq_ok_iff : ofItem item = .ok m ↔ item.Declares m := by
  cases item with
  | function f => simp [ofItem, Item.Declares, ofFunction_eq_ok_iff]
  | other name => simp [ofItem, Item.Declares]

theorem Method.fails_of_ofItem (refused : ofItem item = .error fault) :
    Fails item.requirements fault := by
  cases item with
  | function f => exact fails_of_ofFunction refused
  | other name =>
    obtain rfl := Except.error.inj refused
    exact .here id

theorem Item.Declares.meets (h : item.Declares m) : ∀ q ∈ item.requirements, q.2 := by
  obtain ⟨f, rfl, declares⟩ := h
  exact declares.meets

end

/-! ## Whole contracts -/

section
variable {t : Trait} {e : Expansion} {items : List Item} {methods : List Method} {fault : Fault}

theorem mapM_eq_ok_iff :
    items.mapM Method.ofItem = .ok methods ↔ List.Forall₂ Item.Declares items methods := by
  induction items generalizing methods with
  | nil => simp [pure, Except.pure, eq_comm]
  | cons item items ih =>
    rw [List.mapM_cons, List.forall₂_cons_left_iff]
    cases first : Method.ofItem item with
    | error =>
      have none : ∀ m, ¬item.Declares m := by
        intro m declares
        simp [Method.ofItem_eq_ok_iff.2 declares] at first
      simp [bind, Except.bind, none]
    | ok m =>
      have only : ∀ k, item.Declares k ↔ k = m := by
        intro k
        rw [← Method.ofItem_eq_ok_iff, first]
        simp [eq_comm]
      cases rest : items.mapM Method.ofItem with
      | error =>
        have none : ∀ ms, ¬List.Forall₂ Item.Declares items ms := by
          intro ms all
          simp [ih.2 all] at rest
        simp [bind, Except.bind, none]
      | ok ms =>
        have all : ∀ ks, List.Forall₂ Item.Declares items ks ↔ ks = ms := by
          intro ks
          rw [← ih, rest]
          simp [eq_comm]
        simp [bind, Except.bind, pure, Except.pure, only, all, eq_comm]

theorem fails_of_mapM (refused : items.mapM Method.ofItem = .error fault) :
    Fails (items.flatMap Item.requirements) fault := by
  induction items with
  | nil => cases refused
  | cons item items ih =>
    rw [List.mapM_cons] at refused
    rw [List.flatMap_cons, fails_append]
    cases first : Method.ofItem item with
    | error g =>
      obtain rfl : g = fault := by simpa [first, bind, Except.bind] using refused
      exact .inl (Method.fails_of_ofItem first)
    | ok m =>
      refine .inr ⟨(Method.ofItem_eq_ok_iff.1 first).meets, ih ?_⟩
      cases rest : items.mapM Method.ofItem with
      | error g => simpa [first, rest, bind, Except.bind] using refused
      | ok ms => simp [first, rest, bind, Except.bind, pure, Except.pure] at refused

theorem Method.hasConstant_iff {m : Method} :
    m.hasConstant = true ↔ IsIdentifier m.constant := by
  unfold hasConstant IsIdentifier
  cases m.constant.toList with
  | nil => simp
  | cons c cs => simp

/-- What is accepted, and the expansion of it. -/
theorem expand_eq_ok_iff :
    expand t = .ok e ↔ t.generics = [] ∧ List.Forall₂ Item.Declares t.items e.methods ∧
      (∀ m ∈ e.methods, IsIdentifier m.constant) ∧
      e.declaration = { t with items := t.items.map Item.desugar } := by
  have nameless : ∀ methods : List Method,
      methods.find? (!·.hasConstant) = none ↔ ∀ m ∈ methods, IsIdentifier m.constant := by
    simp [List.find?_eq_none, Method.hasConstant_iff]
  obtain ⟨declaration, methods⟩ := e
  rw [← mapM_eq_ok_iff, ← nameless]
  unfold expand
  constructor
  · intro accepted
    split at accepted
    next => cases accepted
    next plain =>
      split at accepted
      next => cases accepted
      next found =>
        split at accepted
        next => cases accepted
        next named =>
          obtain ⟨rfl, rfl⟩ := by simpa using accepted
          exact ⟨by simpa using plain, found, named, rfl⟩
  · rintro ⟨plain, found, named, same⟩
    obtain rfl : declaration = _ := same
    simp only [plain, found, named]
    rfl

/-- A fault is that of the first requirement that fails. -/
theorem fails_of_expand (refused : expand t = .error (.fault fault)) :
    Fails t.requirements fault := by
  unfold expand at refused
  split at refused
  next generic =>
    obtain rfl : Fault.generic = fault := by simpa using refused
    exact .here generic
  next plain =>
    refine .later (by simpa using plain) ?_
    split at refused
    next g first =>
      obtain rfl : g = fault := by simpa using refused
      exact fails_of_mapM first
    next =>
      split at refused
      next => cases refused
      next => cases refused

theorem meets_of_forall₂ (all : List.Forall₂ Item.Declares items methods) :
    ∀ q ∈ items.flatMap Item.requirements, q.2 := by
  induction all with
  | nil => simp
  | cons declares _ ih =>
    rw [List.flatMap_cons, List.forall_mem_append]
    exact ⟨declares.meets, ih⟩

theorem Fails.not_all {rs : List (Fault × Prop)} (h : Fails rs fault) : ¬∀ q ∈ rs, q.2 := by
  induction h with
  | here fault => exact fun all => fault (all _ List.mem_cons_self)
  | later _ _ ih => exact fun all => ih fun q member => all q (List.mem_cons_of_mem _ member)

theorem Fails.unique {rs : List (Fault × Prop)} {other : Fault} (h : Fails rs fault)
    (again : Fails rs other) : fault = other := by
  induction h with
  | here fails =>
    rcases fails_cons.1 again with ⟨-, same⟩ | ⟨holds, -⟩
    · exact same
    · exact absurd holds fails
  | later holds _ ih =>
    rcases fails_cons.1 again with ⟨fails, -⟩ | ⟨-, rest⟩
    · exact absurd holds fails
    · exact ih rest

/-- Where a constant has no name, all requirements are met. -/
theorem declares_of_badName {name : String} (refused : expand t = .error (.badName name)) :
    t.generics = [] ∧ ∃ methods, List.Forall₂ Item.Declares t.items methods ∧
      ∃ m ∈ methods, ¬IsIdentifier m.constant := by
  unfold expand at refused
  split at refused
  next => cases refused
  next plain =>
    split at refused
    next => cases refused
    next methods found =>
      split at refused
      next m first =>
        refine ⟨by simpa using plain, methods, mapM_eq_ok_iff.1 found, m,
          List.mem_of_find?_eq_some first, fun named => ?_⟩
        simpa [Method.hasConstant_iff.2 named] using List.find?_some first
      next => cases refused

theorem meets_of_declares (plain : t.generics = [])
    (all : List.Forall₂ Item.Declares t.items methods) : ∀ q ∈ t.requirements, q.2 :=
  List.forall_mem_cons.2 ⟨plain, meets_of_forall₂ all⟩

theorem meets_of_expand (accepted : expand t = .ok e) : ∀ q ∈ t.requirements, q.2 := by
  obtain ⟨plain, all, -, -⟩ := expand_eq_ok_iff.1 accepted
  exact meets_of_declares plain all

/-- What is refused for a fault has it first. -/
theorem expand_eq_fault_iff : expand t = .error (.fault fault) ↔ Fails t.requirements fault := by
  refine ⟨fails_of_expand, fun fails => ?_⟩
  cases answer : expand t with
  | ok e => exact absurd (meets_of_expand answer) fails.not_all
  | error r =>
    cases r with
    | fault other => rw [fails.unique (fails_of_expand answer)]
    | badName name =>
      obtain ⟨plain, methods, all, -⟩ := declares_of_badName answer
      exact absurd (meets_of_declares plain all) fails.not_all

/-- No method has a name without a constant. -/
theorem expand_ne_badName (named : ∀ name ∈ t.functionNames, IsIdentifier (Casing.upperSnake name))
    (name : String) : expand t ≠ .error (.badName name) := by
  intro refused
  obtain ⟨-, methods, all, m, member, nameless⟩ := declares_of_badName refused
  have declared : m.name ∈ t.functionNames := by
    rw [functionNames, ← (names_of_mapM (mapM_eq_ok_iff.2 all)).2]
    exact List.mem_map_of_mem member
  exact nameless (named m.name declared)

end

/-! ## The parts of an expansion -/

/-- Place `k` of each part of the expansion is about the method that the function declares. -/
structure Expansion.Lists (e : Expansion) (k : Nat) (f : Function) (m : Method) : Prop where
  row : e.schema.methods[k]? = some ⟨m.wire, m.request.tokens.render, m.reply.tokens.render⟩
  constant : e.constants[k]? = some (m.constant, m.wire)
  handler : e.handlers[k]? = some ⟨m.wire, m.name, m.arg, m.request⟩
  proxy : e.proxies[k]? = some ⟨m.name, m.arg, m.request, m.output, m.reply, m.wire⟩
  forwarder : e.forwarders[k]? =
    some ⟨"call_" ++ plainName m.name, m.name, m.arg, m.request, m.output⟩
  /-- In the declaration that stays, the function gives a future if it was asynchronous. -/
  declared : e.declaration.items[k]? = some (.function
    (if f.isAsync then { f with isAsync := false, ret := some (.futureOf m.output) } else f))

section
variable {t : Trait} {e : Expansion}

theorem Function.Declares.desugar_eq {f : Function} {m : Method} (h : f.Declares m) :
    f.desugar =
      if f.isAsync then { f with isAsync := false, ret := some (.futureOf m.output) } else f := by
  unfold desugar
  refine ite_congr rfl (fun marked => ?_) fun _ => rfl
  rcases h.output with ⟨-, returned⟩ | ⟨unmarked, -, -⟩
  · rw [returned]
    rfl
  · rw [unmarked] at marked
    cases marked

theorem lists_of_expand (accepted : expand t = .ok e) {k : Nat} {item : Item}
    (here : t.items[k]? = some item) :
    ∃ f m, item = .function f ∧ f.Declares m ∧ e.Lists k f m := by
  obtain ⟨-, all, -, declaration⟩ := expand_eq_ok_iff.1 accepted
  obtain ⟨inside, rfl⟩ := List.getElem?_eq_some_iff.1 here
  have inside' : k < e.methods.length := all.length_eq ▸ inside
  obtain ⟨f, same, declares⟩ := all.get inside inside'
  have method : e.methods[k]? = some e.methods[k] := List.getElem?_eq_getElem inside'
  refine ⟨f, _, same, declares, ?_⟩
  constructor
  case declared =>
    have same : t.items[k] = .function f := same
    simp [declaration, here, same, Item.desugar, declares.desugar_eq]
  all_goals
    simp [Expansion.schema, Expansion.constants, Expansion.handlers, Expansion.proxies,
      Expansion.forwarders, method]

/-- Let no method have a name whose constant has none. A contract is accepted exactly if it meets
all requirements, and otherwise refused with the fault of the first one, in the order of its
declaration, that it does not meet. Each part of the expansion of an accepted contract lists what
its functions declare, one place for each, in their order: the schema, the constants, the handlers,
the proxies and the forwarders. The declaration that stays is the one that was given, but that a
future of the output stands in the place of the mark of each asynchronous function. -/
theorem expands_exactly_what_is_required
    (named : ∀ name ∈ t.functionNames, IsIdentifier (Casing.upperSnake name)) :
    ((∃ e, expand t = .ok e) ↔ ∀ q ∈ t.requirements, q.2) ∧
      (∀ r, expand t = .error r ↔ ∃ fault, r = .fault fault ∧ Fails t.requirements fault) ∧
      ∀ e, expand t = .ok e →
        e.name = t.name ∧ e.declaration = { t with items := e.declaration.items } ∧
        (∀ n ∈ [e.schema.methods.length, e.constants.length, e.handlers.length, e.proxies.length,
          e.forwarders.length, e.declaration.items.length], n = t.items.length) ∧
        ∀ (k : Nat) item, t.items[k]? = some item →
          ∃ f m, item = .function f ∧ f.Declares m ∧ e.Lists k f m := by
  have fails : ∀ r, expand t = .error r →
      ∃ fault, r = .fault fault ∧ Fails t.requirements fault := by
    intro r refused
    cases r with
    | fault fault => exact ⟨fault, rfl, fails_of_expand refused⟩
    | badName name => exact absurd refused (expand_ne_badName named name)
  refine ⟨⟨fun ⟨e, accepted⟩ => meets_of_expand accepted, fun all => ?_⟩,
    fun r => ⟨fails r, ?_⟩, ?_⟩
  · cases answer : expand t with
    | ok e => exact ⟨e, rfl⟩
    | error r =>
      obtain ⟨fault, -, first⟩ := fails r answer
      exact absurd all first.not_all
  · rintro ⟨fault, rfl, first⟩
    exact expand_eq_fault_iff.2 first
  · intro e accepted
    obtain ⟨-, all, -, declaration⟩ := expand_eq_ok_iff.1 accepted
    have size := all.length_eq
    refine ⟨by rw [Expansion.name, declaration], by rw [declaration], ?_,
      fun k item here => lists_of_expand accepted here⟩
    simp [Expansion.schema, Expansion.constants, Expansion.handlers, Expansion.proxies,
      Expansion.forwarders, declaration, size]

end

/-- The second function takes neither a value of its own nor a request, and the last item is no
function. -/
def faulty : Trait where
  name := "Calc"
  items := (asking ["get_item"]).items ++
    [.function
      { name := "reset", receiver := none, isAsync := true
        args := [], ret := none, hasBody := false },
      .other "LIMIT"]

theorem first_fault_refuses :
    (∀ name ∈ faulty.functionNames, IsIdentifier (Casing.upperSnake name)) ∧
    expand faulty = .error (.fault .receiver) ∧ Fails faulty.requirements .receiver ∧
    (∀ name ∈ (asking ["get_item"]).functionNames, IsIdentifier (Casing.upperSnake name)) ∧
    (∀ q ∈ (asking ["get_item"]).requirements, q.2) := by
  have named : ∀ name ∈ faulty.functionNames, IsIdentifier (Casing.upperSnake name) := by
    decide +kernel
  have named' : ∀ name ∈ (asking ["get_item"]).functionNames,
      IsIdentifier (Casing.upperSnake name) := by decide +kernel
  have refused : expand faulty = .error (.fault .receiver) := rfl
  obtain ⟨fault, same, fails⟩ := ((expands_exactly_what_is_required named).2.1 _).1 refused
  obtain rfl : Fault.receiver = fault := by simpa using same
  exact ⟨named, refused, fails, named', (expands_exactly_what_is_required named').1.1 ⟨_, rfl⟩⟩

end RemoteCall.Trait
