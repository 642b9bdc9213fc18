import Mathlib.Data.List.Basic
import RemoteCall.Trait.Expansion

/-!
# Declarations read back from their tokens

Tokens do not show in which order the arguments of a name were given: the lifetimes among them come
first (`angledTokens_eq`). A declaration whose types and bounds are read back from their tokens has
all arguments in that order (`Trait.reread`), and from there the same tokens:

    t.reread.tokens = t.tokens                                              (Trait.tokens_reread)

That the reader of types gives `Ty.reread` is proved in `Proofs.Trait.Reading`.
-/

namespace RemoteCall.Trait

/-! ## Reading back -/

def Arg.isLifetime : Arg → Bool
  | .lifetime _ => true
  | _ => false

/-- The arguments in the order of their tokens. -/
def lifetimesFirst (args : List Arg) : List Arg :=
  args.filter (·.isLifetime) ++ args.filter (!·.isLifetime)

/-- Whether a comma stands behind the last argument once the lifetimes come first. -/
def commaBehind (args : List Arg) (comma : Bool) : Bool :=
  comma || args.getLast?.any (·.isLifetime) && args.any (!·.isLifetime)

mutual

/-- The type as a reader of its tokens gets it. -/
def Ty.reread : Ty → Ty
  | .path p => .path p.reread
  | .member owner via segments => .member owner.reread (viaReread via) (segmentsReread segments)
  | .tuple items comma => .tuple (tysReread items) comma
  | .group inner => .group inner.reread
  | .pointer marks target => .pointer marks target.reread
  | .slice item => .slice item.reread
  | .array item length => .array item.reread length
  | .impl bounds plus => .impl (boundsReread bounds) plus
  | .object marked bounds plus => .object marked (boundsReread bounds) plus
  | .function opening inputs comma result =>
    .function opening (inputsReread inputs) comma (resultReread result)
  | .other ts => .other ts

def tysReread : List Ty → List Ty
  | [] => []
  | t :: ts => t.reread :: tysReread ts

def viaReread : Option Path → Option Path
  | none => none
  | some p => some p.reread

def resultReread : Option Ty → Option Ty
  | none => none
  | some t => some t.reread

def Input.reread : Input → Input
  | .mk label type => .mk label type.reread

def inputsReread : List Input → List Input
  | [] => []
  | i :: is => i.reread :: inputsReread is

def Path.reread : Path → Path
  | .mk leading segments => .mk leading (segmentsReread segments)

def segmentsReread : List Segment → List Segment
  | [] => []
  | s :: ss => s.reread :: segmentsReread ss

def Segment.reread : Segment → Segment
  | .plain name => .plain name
  | .angled name turbofish args comma =>
    .angled name turbofish (lifetimesFirst (argsReread args)) (commaBehind args comma)
  | .applied name inputs comma result =>
    .applied name (tysReread inputs) comma (resultReread result)

def argsReread : List Arg → List Arg
  | [] => []
  | a :: as => a.reread :: argsReread as

def Arg.reread : Arg → Arg
  | .type t => .type t.reread
  | .lifetime name => .lifetime name
  | .const value => .const value
  | .assoc target t => .assoc target.reread t.reread
  | .assocConst target value => .assocConst target.reread value
  | .constraint target bounds plus => .constraint target.reread (boundsReread bounds) plus

def boundsReread : List Bound → List Bound
  | [] => []
  | b :: bs => b.reread :: boundsReread bs

def Bound.reread : Bound → Bound
  | .lifetime name => .lifetime name
  | .path parenthesized marks p => .path parenthesized marks p.reread

end

/-! ## Lemmas -/

/-! ### Lists of arguments -/

theorem separated_cons {separator : String} {parts : List Tokens} (ts : Tokens) (more : parts ≠ [])
    (trailing : Bool) :
    separated separator (ts :: parts) trailing =
      ts ++ separator :: separated separator parts trailing := by
  cases parts with
  | nil => exact absurd rfl more
  | cons part parts => simp [separated]

/-- A piece behind others: a comma comes before it if none stands there yet, and behind it if it has
one. -/
def join (acc : Tokens × Bool) (piece : Bool × Tokens × Bool) : Tokens × Bool :=
  (acc.1 ++ (if acc.2 then [] else [","]) ++ piece.2.1 ++ (if piece.2.2 then [","] else []),
    piece.2.2)

/-- Between pieces there is one comma, whichever of them brings it. -/
theorem foldl_join (pieces : List (Bool × Tokens × Bool)) (last : Bool × Tokens × Bool)
    (acc : Tokens × Bool) :
    ((pieces ++ [last]).foldl join acc).1 =
      acc.1 ++ (if acc.2 then [] else [","]) ++
        separated "," ((pieces ++ [last]).map (·.2.1)) last.2.2 := by
  induction pieces generalizing acc with
  | nil => simp [join, separated]
  | cons piece pieces ih =>
    rw [List.cons_append, List.foldl_cons, ih, List.map_cons, separated_cons _ (by simp)]
    cases comma : piece.2.2 <;> simp [join, comma]

/-- Arguments, each with its tokens and whether a comma stands behind it: behind all but the last
one there is one. -/
def pieces (front : List (Bool × Tokens)) (last : Bool × Tokens) (comma : Bool) :
    List (Bool × Tokens × Bool) :=
  front.map (fun arg => (arg.1, arg.2, true)) ++ [(last.1, last.2, comma)]

theorem zipIdx_eq_pieces (front : List (Bool × Tokens)) (last : Bool × Tokens) (comma : Bool) :
    ((front ++ [last]).zipIdx.map fun ((isLifetime, ts), k) =>
        (isLifetime, ts, comma || k + 1 < (front ++ [last]).length)) =
      pieces front last comma := by
  rw [List.zipIdx_append, List.map_append, pieces]
  congr 1
  · refine List.ext_getElem (by simp) fun k inside _ => ?_
    have inside : k < front.length := by simpa using inside
    simp [inside]
  · simp

/-- The tokens of arguments are those of the lifetimes and then those of the others, with commas
between them. -/
theorem angledTokens_eq (args : List (Bool × Tokens)) (comma : Bool) :
    angledTokens args comma =
      "<" :: separated "," ((args.filter (·.1) ++ args.filter (!·.1)).map (·.2))
        (comma || args.getLast?.any (·.1) && args.any (!·.1)) ++ [">"] := by
  rcases List.eq_nil_or_concat args with rfl | ⟨front, last, rfl⟩
  · simp [angledTokens, separated]
  rw [List.concat_eq_append]
  have joined : angledTokens (front ++ [last]) comma =
      "<" :: (((pieces front last comma).filter (·.1) ++
        (pieces front last comma).filter (!·.1)).foldl join ([], true)).1 ++ [">"] := by
    rw [← zipIdx_eq_pieces]
    rfl
  rw [joined]
  congr 2
  have lifetimes : (front.map fun arg => (arg.1, arg.2, true)).filter (·.1) =
      (front.filter (·.1)).map fun arg => (arg.1, arg.2, true) := List.filter_map
  have others : (front.map fun arg => (arg.1, arg.2, true)).filter (!·.1) =
      (front.filter (!·.1)).map fun arg => (arg.1, arg.2, true) := List.filter_map
  obtain ⟨isLifetime, ts⟩ := last
  rw [pieces, List.filter_append, List.filter_append, lifetimes, others]
  cases isLifetime with
  | false =>
    -- the last argument stays the last one
    simp only [List.filter_cons_of_neg, List.filter_cons_of_pos, List.filter_nil,
      not_false_eq_true, Bool.not_false, List.append_nil, Bool.false_eq_true]
    rw [← List.append_assoc, foldl_join]
    simp [List.filter_append, Function.comp_def]
  | true =>
    simp only [List.filter_cons_of_neg, List.filter_cons_of_pos, List.filter_nil, Bool.not_true,
      List.append_nil, Bool.false_eq_true, not_false_eq_true]
    rcases List.eq_nil_or_concat (front.filter (!·.1)) with none | ⟨before, behind, same⟩
    · have all : front.any (!·.1) = false := by
        simpa [List.filter_eq_nil_iff] using none
      rw [none, List.map_nil, List.append_nil, foldl_join]
      simp [List.filter_append, Function.comp_def, none, all]
    · -- an argument that had a comma comes to the end
      rw [List.concat_eq_append] at same
      have some : front.any (!·.1) = true := by
        have member : behind ∈ front.filter (!·.1) := by simp [same]
        obtain ⟨here, type⟩ := List.mem_filter.1 member
        exact List.any_eq_true.2 ⟨behind, here, type⟩
      rw [same, List.map_append, List.map_singleton, ← List.append_assoc, foldl_join]
      simp [List.filter_append, Function.comp_def, same, some]

/-! ### Arguments -/

theorem argsTokens_eq (args : List Arg) : argsTokens args = args.map Arg.tokens := by
  induction args with
  | nil => rfl
  | cons a args ih => rw [argsTokens, ih, List.map_cons]

theorem argsReread_eq (args : List Arg) : argsReread args = args.map Arg.reread := by
  induction args with
  | nil => rfl
  | cons a args ih => rw [argsReread, ih, List.map_cons]

theorem segmentsReread_eq (segments : List Segment) :
    segmentsReread segments = segments.map Segment.reread := by
  induction segments with
  | nil => rfl
  | cons s segments ih => rw [segmentsReread, ih, List.map_cons]

theorem boundsReread_eq (bounds : List Bound) : boundsReread bounds = bounds.map Bound.reread := by
  induction bounds with
  | nil => rfl
  | cons b bounds ih => rw [boundsReread, ih, List.map_cons]

theorem segmentsTokens_eq (ss : List Segment) : segmentsTokens ss = ss.map Segment.tokens := by
  induction ss with
  | nil => rfl
  | cons s ss ih => rw [segmentsTokens, ih, List.map_cons]

theorem boundsTokens_eq (bs : List Bound) : boundsTokens bs = bs.map Bound.tokens := by
  induction bs with
  | nil => rfl
  | cons b bs ih => rw [boundsTokens, ih, List.map_cons]

theorem tysTokens_eq (ts : List Ty) : tysTokens ts = ts.map Ty.tokens := by
  induction ts with
  | nil => rfl
  | cons t ts ih => rw [tysTokens, ih, List.map_cons]

theorem tysReread_eq (ts : List Ty) : tysReread ts = ts.map Ty.reread := by
  induction ts with
  | nil => rfl
  | cons t ts ih => rw [tysReread, ih, List.map_cons]

@[simp] theorem Arg.tokens_fst (a : Arg) : a.tokens.1 = a.isLifetime := by
  cases a <;> rfl

@[simp] theorem Arg.isLifetime_reread (a : Arg) : a.reread.isLifetime = a.isLifetime := by
  cases a <;> rfl

@[simp] theorem Segment.name_reread (s : Segment) : s.reread.name = s.name := by
  cases s <;> rfl

theorem commaBehind_reread (args : List Arg) (comma : Bool) :
    commaBehind (argsReread args) comma = commaBehind args comma := by
  cases last : args.getLast? <;> simp [commaBehind, argsReread_eq, last, Function.comp_def]

@[simp] theorem filter_lifetimesFirst (args : List Arg) :
    (lifetimesFirst args).filter (·.isLifetime) = args.filter (·.isLifetime) := by
  simp [lifetimesFirst, List.filter_append, List.filter_filter]

@[simp] theorem filter_not_lifetimesFirst (args : List Arg) :
    (lifetimesFirst args).filter (!·.isLifetime) = args.filter (!·.isLifetime) := by
  simp [lifetimesFirst, List.filter_append, List.filter_filter]

/-- Arguments in their order stay in it, and so does the comma behind them. -/
theorem commaBehind_lifetimesFirst (args : List Arg) (comma : Bool) :
    commaBehind (lifetimesFirst args) (commaBehind args comma) = commaBehind args comma := by
  have rest : ((lifetimesFirst args).getLast?.any (·.isLifetime) &&
      (lifetimesFirst args).any (!·.isLifetime)) = false := by
    rcases List.eq_nil_or_concat (args.filter (!·.isLifetime)) with none | ⟨before, last, same⟩
    · have all : (lifetimesFirst args).any (!·.isLifetime) = false :=
        List.any_eq_false.2 (List.filter_eq_nil_iff.1 ((filter_not_lifetimesFirst args).trans none))
      rw [all, Bool.and_false]
    · have other : last.isLifetime = false := by
        have member : last ∈ args.filter (!·.isLifetime) := by simp [same]
        simpa using (List.mem_filter.1 member).2
      simp [lifetimesFirst, same, other]
  rw [commaBehind, rest, Bool.or_false]

/-- The tokens of arguments are those of the arguments in their order. -/
theorem angledTokens_argsTokens (args : List Arg) (comma : Bool) :
    angledTokens (argsTokens args) comma =
      "<" :: separated "," ((lifetimesFirst args).map (·.tokens.2)) (commaBehind args comma) ++
        [">"] := by
  rw [angledTokens_eq, argsTokens_eq, List.filter_map, List.filter_map, ← List.map_append,
    List.map_map, commaBehind, lifetimesFirst]
  cases last : args.getLast? <;> simp [last, Function.comp_def]

/-- Arguments in their order have the tokens that they had before. -/
theorem angledTokens_lifetimesFirst (args : List Arg) (comma : Bool) :
    angledTokens (argsTokens (lifetimesFirst args)) (commaBehind args comma) =
      angledTokens (argsTokens args) comma := by
  have again : lifetimesFirst (lifetimesFirst args) = lifetimesFirst args := by
    rw [lifetimesFirst, filter_lifetimesFirst, filter_not_lifetimesFirst, lifetimesFirst]
  rw [angledTokens_argsTokens, angledTokens_argsTokens, again, commaBehind_lifetimesFirst]

/-! ### All types -/

mutual

theorem Ty.tokens_reread : (t : Ty) → t.reread.tokens = t.tokens
  | .path p => by rw [Ty.reread, Ty.tokens, Ty.tokens, p.tokens_reread]
  | .member owner via segments => by
    rw [Ty.reread, Ty.tokens, Ty.tokens, owner.tokens_reread, viaTokens_reread via,
      segmentsTokens_reread segments]
  | .tuple items comma => by rw [Ty.reread, Ty.tokens, Ty.tokens, tysTokens_reread items]
  | .group inner => by rw [Ty.reread, Ty.tokens, Ty.tokens, inner.tokens_reread]
  | .pointer marks target => by rw [Ty.reread, Ty.tokens, Ty.tokens, target.tokens_reread]
  | .slice item => by rw [Ty.reread, Ty.tokens, Ty.tokens, item.tokens_reread]
  | .array item length => by rw [Ty.reread, Ty.tokens, Ty.tokens, item.tokens_reread]
  | .impl bounds plus => by rw [Ty.reread, Ty.tokens, Ty.tokens, boundsTokens_reread bounds]
  | .object marked bounds plus => by
    rw [Ty.reread, Ty.tokens, Ty.tokens, boundsTokens_reread bounds]
  | .function opening inputs comma result => by
    rw [Ty.reread, Ty.tokens, Ty.tokens, inputsTokens_reread inputs, resultTokens_reread result]
  | .other ts => rfl

theorem tysTokens_reread : (ts : List Ty) → tysTokens (tysReread ts) = tysTokens ts
  | [] => rfl
  | t :: ts => by rw [tysReread, tysTokens, tysTokens, t.tokens_reread, tysTokens_reread ts]

theorem viaTokens_reread : (via : Option Path) → viaTokens (viaReread via) = viaTokens via
  | none => rfl
  | some p => by rw [viaReread, viaTokens, viaTokens, p.tokens_reread]

theorem resultTokens_reread : (r : Option Ty) → resultTokens (resultReread r) = resultTokens r
  | none => rfl
  | some t => by rw [resultReread, resultTokens, resultTokens, t.tokens_reread]

theorem Input.tokens_reread : (i : Input) → i.reread.tokens = i.tokens
  | .mk label type => by rw [Input.reread, Input.tokens, Input.tokens, type.tokens_reread]

theorem inputsTokens_reread : (is : List Input) → inputsTokens (inputsReread is) = inputsTokens is
  | [] => rfl
  | i :: is => by
    rw [inputsReread, inputsTokens, inputsTokens, i.tokens_reread, inputsTokens_reread is]

theorem Path.tokens_reread : (p : Path) → p.reread.tokens = p.tokens
  | .mk leading segments => by
    rw [Path.reread, Path.tokens, Path.tokens, segmentsTokens_reread segments]

theorem segmentsTokens_reread :
    (ss : List Segment) → segmentsTokens (segmentsReread ss) = segmentsTokens ss
  | [] => rfl
  | s :: ss => by
    rw [segmentsReread, segmentsTokens, segmentsTokens, s.tokens_reread, segmentsTokens_reread ss]

theorem Segment.tokens_reread : (s : Segment) → s.reread.tokens = s.tokens
  | .plain name => rfl
  | .angled name turbofish args comma => by
    rw [Segment.reread, Segment.tokens, Segment.tokens, ← commaBehind_reread,
      angledTokens_lifetimesFirst, argsTokens_reread args]
  | .applied name inputs comma result => by
    rw [Segment.reread, Segment.tokens, Segment.tokens, tysTokens_reread inputs,
      resultTokens_reread result]

theorem argsTokens_reread : (as : List Arg) → argsTokens (argsReread as) = argsTokens as
  | [] => rfl
  | a :: as => by rw [argsReread, argsTokens, argsTokens, a.tokens_reread, argsTokens_reread as]

theorem Arg.tokens_reread : (a : Arg) → a.reread.tokens = a.tokens
  | .type t => by rw [Arg.reread, Arg.tokens, Arg.tokens, t.tokens_reread]
  | .lifetime name => rfl
  | .const value => rfl
  | .assoc target t => by
    rw [Arg.reread, Arg.tokens, Arg.tokens, target.tokens_reread, t.tokens_reread]
  | .assocConst target value => by rw [Arg.reread, Arg.tokens, Arg.tokens, target.tokens_reread]
  | .constraint target bounds plus => by
    rw [Arg.reread, Arg.tokens, Arg.tokens, target.tokens_reread, boundsTokens_reread bounds]

theorem boundsTokens_reread : (bs : List Bound) → boundsTokens (boundsReread bs) = boundsTokens bs
  | [] => rfl
  | b :: bs => by
    rw [boundsReread, boundsTokens, boundsTokens, b.tokens_reread, boundsTokens_reread bs]

theorem Bound.tokens_reread : (b : Bound) → b.reread.tokens = b.tokens
  | .lifetime name => rfl
  | .path parenthesized marks p => by
    rw [Bound.reread, Bound.tokens, Bound.tokens, p.tokens_reread]

end

/-! ## Declarations -/

def Argument.reread (a : Argument) : Argument := { a with type := a.type.reread }

def Function.reread (f : Function) : Function :=
  { f with args := f.args.map Argument.reread, ret := f.ret.map Ty.reread }

def Item.reread : Item → Item
  | .function f => .function f.reread
  | .other name => .other name

/-- The declaration with its types and bounds as a reader of their tokens gets them. -/
def reread (t : Trait) : Trait :=
  { t with bounds := t.bounds.map Bound.reread, items := t.items.map Item.reread }

/-- The tokens of an item; those of what is no function are not looked at. -/
def Item.tokens : Item → Tokens
  | .function f => f.tokens ++ [";"]
  | .other name => [name]

/-- The tokens of a declaration without parameters. -/
def tokens (t : Trait) : Tokens :=
  t.vis ++ "trait" :: t.name :: (if t.bounds.isEmpty then [] else ":" ::
    separated "+" (boundsTokens t.bounds) false) ++
    "\x7b" :: t.items.flatMap Item.tokens ++ ["\x7d"]

theorem resultReread_eq (r : Option Ty) : resultReread r = r.map Ty.reread := by
  cases r <;> rfl

theorem Argument.tokens_reread (a : Argument) : a.reread.tokens = a.tokens := by
  rw [tokens, tokens, reread, Ty.tokens_reread]

theorem Function.tokens_reread (f : Function) : f.reread.tokens = f.tokens := by
  have args : (f.args.map Argument.reread).map Argument.tokens = f.args.map Argument.tokens := by
    rw [List.map_map]
    exact List.map_congr_left fun a _ => a.tokens_reread
  have result : resultTokens (f.ret.map Ty.reread) = resultTokens f.ret := by
    rw [← resultReread_eq, resultTokens_reread]
  simp only [tokens, reread, args, result]
  rfl

theorem Item.tokens_reread (item : Item) : item.reread.tokens = item.tokens := by
  cases item with
  | function f => rw [reread, tokens, tokens, f.tokens_reread]
  | other name => rfl

/-- What is read back has the same tokens. -/
theorem tokens_reread (t : Trait) : t.reread.tokens = t.tokens := by
  have bounds : boundsTokens (t.bounds.map Bound.reread) = boundsTokens t.bounds := by
    rw [← boundsReread_eq, boundsTokens_reread]
  have items : (t.items.map Item.reread).flatMap Item.tokens = t.items.flatMap Item.tokens := by
    rw [List.flatMap_map]
    exact congrArg (List.flatMap · t.items) (funext Item.tokens_reread)
  simp only [tokens, reread, bounds, items, List.isEmpty_map]

end RemoteCall.Trait
