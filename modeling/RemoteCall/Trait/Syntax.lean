import RemoteCall.Trait.Tokens

/-!
# Declarations of contracts

A contract is declared as a trait: a name, and one function for each method. This module holds the
declarations, as far as an expansion looks at them, and their tokens. A list in a declaration may
have a comma behind its last item, and bounds a plus; both stay where they were written.
-/

namespace RemoteCall.Trait

/-! ## Types -/

mutual

inductive Ty
  | path (p : Path)
  /-- What belongs to a type, perhaps by way of a trait. -/
  | member (owner : Ty) (via : Option Path) (segments : List Segment)
  | tuple (items : List Ty) (comma : Bool)
  | group (inner : Ty)
  /-- A reference or a pointer, and the marks that tell which one. -/
  | pointer (marks : Tokens) (target : Ty)
  | slice (item : Ty)
  | array (item : Ty) (length : Tokens)
  /-- Some type with these bounds. -/
  | impl (bounds : List Bound) (plus : Bool)
  /-- Any type with these bounds, told apart at run time. -/
  | object (marked : Bool) (bounds : List Bound) (plus : Bool)
  | function (opening : Tokens) (inputs : List Input) (comma : Bool) (result : Option Ty)
  /-- Any other type. -/
  | other (tokens : Tokens)

/-- An input of a function type, behind its label. -/
inductive Input
  | mk (label : Tokens) (type : Ty)

inductive Path
  | mk (leading : Bool) (segments : List Segment)

inductive Segment
  | plain (name : String)
  /-- With arguments in angle brackets, before which `::` may stand. -/
  | angled (name : String) (turbofish : Bool) (args : List Arg) (comma : Bool)
  /-- With arguments in parentheses. -/
  | applied (name : String) (inputs : List Ty) (comma : Bool) (result : Option Ty)

inductive Arg
  | type (t : Ty)
  | lifetime (name : String)
  | const (value : Tokens)
  /-- Says what an associated type is. -/
  | assoc (target : Segment) (t : Ty)
  /-- Says what an associated constant is. -/
  | assocConst (target : Segment) (value : Tokens)
  /-- Bounds an associated type. -/
  | constraint (target : Segment) (bounds : List Bound) (plus : Bool)

inductive Bound
  | lifetime (name : String)
  | path (parenthesized : Bool) (marks : Tokens) (p : Path)

end

instance : Inhabited Ty := ⟨.other []⟩

instance : Inhabited Path := ⟨.mk false []⟩

instance : Inhabited Segment := ⟨.plain ""⟩

instance : Inhabited Arg := ⟨.type default⟩

instance : Inhabited Bound := ⟨.path false [] default⟩

instance : Inhabited Input := ⟨.mk [] default⟩

namespace Path

def leading : Path → Bool
  | .mk l _ => l

def segments : Path → List Segment
  | .mk _ ss => ss

end Path

namespace Segment

def name : Segment → String
  | .plain n | .angled n .. | .applied n .. => n

/-- A name with arguments in angle brackets. -/
def ofArgs (name : String) (args : List Arg) : Segment := .angled name false args false

end Segment

/-- A type that is given by a name. -/
def Ty.named (name : String) : Ty := .path (.mk false [.plain name])

/-- A bound without marks. -/
def Bound.plain (p : Path) : Bound := .path false [] p

/-! ## Tokens of types -/

/-- The parts with `separator` between them, and behind the last one if it is `trailing`. -/
def separated (separator : String) (parts : List Tokens) (trailing : Bool) : Tokens :=
  (parts.intersperse [separator]).flatten ++
    if trailing && !parts.isEmpty then [separator] else []

/-- Arguments in angle brackets, each marked if it is a lifetime: all lifetimes come first. Each
argument brings along the comma behind it; where that leaves none, one is put in. -/
def angledTokens (args : List (Bool × Tokens)) (comma : Bool) : Tokens :=
  let withComma := args.zipIdx.map fun ((isLifetime, ts), k) =>
    (isLifetime, ts, comma || k + 1 < args.length)
  let sorted := withComma.filter (·.1) ++ withComma.filter (!·.1)
  let step (acc : Tokens × Bool) (arg : Bool × Tokens × Bool) : Tokens × Bool :=
    let (_, ts, comma) := arg
    (acc.1 ++ (if acc.2 then [] else [","]) ++ ts ++ (if comma then [","] else []), comma)
  "<" :: (sorted.foldl step ([], true)).1 ++ [">"]

mutual

def Ty.tokens : Ty → Tokens
  | .path p => p.tokens
  | .member owner via segments =>
    "<" :: owner.tokens ++ viaTokens via ++ ">" :: "::" ::
      separated "::" (segmentsTokens segments) false
  | .tuple items comma => "(" :: separated "," (tysTokens items) comma ++ [")"]
  | .group inner => "(" :: inner.tokens ++ [")"]
  | .pointer marks target => marks ++ target.tokens
  | .slice item => "[" :: item.tokens ++ ["]"]
  | .array item length => "[" :: item.tokens ++ ";" :: length ++ ["]"]
  | .impl bounds plus => "impl" :: separated "+" (boundsTokens bounds) plus
  | .object marked bounds plus =>
    (if marked then ["dyn"] else []) ++ separated "+" (boundsTokens bounds) plus
  | .function opening inputs comma result =>
    opening ++ "(" :: separated "," (inputsTokens inputs) comma ++ ")" :: resultTokens result
  | .other ts => ts

def tysTokens : List Ty → List Tokens
  | [] => []
  | t :: ts => t.tokens :: tysTokens ts

def viaTokens : Option Path → Tokens
  | none => []
  | some p => "as" :: p.tokens

def resultTokens : Option Ty → Tokens
  | none => []
  | some t => "->" :: t.tokens

def Input.tokens : Input → Tokens
  | .mk label type => label ++ type.tokens

def inputsTokens : List Input → List Tokens
  | [] => []
  | i :: is => i.tokens :: inputsTokens is

def Path.tokens : Path → Tokens
  | .mk leading segments =>
    (if leading then ["::"] else []) ++ separated "::" (segmentsTokens segments) false

def segmentsTokens : List Segment → List Tokens
  | [] => []
  | s :: ss => s.tokens :: segmentsTokens ss

def Segment.tokens : Segment → Tokens
  | .plain name => [name]
  | .angled name turbofish args comma =>
    name :: (if turbofish then ["::"] else []) ++ angledTokens (argsTokens args) comma
  | .applied name inputs comma result =>
    name :: "(" :: separated "," (tysTokens inputs) comma ++ ")" :: resultTokens result

def argsTokens : List Arg → List (Bool × Tokens)
  | [] => []
  | a :: as => a.tokens :: argsTokens as

/-- Whether an argument is a lifetime, and its tokens. -/
def Arg.tokens : Arg → Bool × Tokens
  | .type t => (false, t.tokens)
  | .lifetime name => (true, [name])
  | .const value => (false, value)
  | .assoc target t => (false, target.tokens ++ "=" :: t.tokens)
  | .assocConst target value => (false, target.tokens ++ "=" :: value)
  | .constraint target bounds plus =>
    (false, target.tokens ++ ":" :: separated "+" (boundsTokens bounds) plus)

def boundsTokens : List Bound → List Tokens
  | [] => []
  | b :: bs => b.tokens :: boundsTokens bs

def Bound.tokens : Bound → Tokens
  | .lifetime name => [name]
  | .path parenthesized marks p =>
    if parenthesized then "(" :: marks ++ p.tokens ++ [")"] else marks ++ p.tokens

end

/-! ## Traits -/

/-- The place of a method's own value among its arguments. -/
inductive Receiver
  /-- The value is shared, for a lifetime that may have a name. -/
  | shared (lifetime : Option String)
  | other (tokens : Tokens)

namespace Receiver

def ofText (text : String) : Receiver :=
  match Tokens.ofText text with
  | ["&", "self"] => .shared none
  | ["&", l, "self"] => if isLifetime l then .shared (some l) else .other ["&", l, "self"]
  | ts => .other ts

def tokens : Receiver → Tokens
  | .shared none => ["&", "self"]
  | .shared (some l) => ["&", l, "self"]
  | .other ts => ts

end Receiver

/-- The name that a pattern binds, if it is one name and perhaps a pattern below it. -/
def binding? (pattern : Tokens) : Option String :=
  let drop (token : String) (ts : Tokens) := if ts.head? = some token then ts.tail else ts
  match drop "mut" (drop "ref" pattern) with
  | [name] => if isName name || name = "self" then some name else none
  | name :: "@" :: _ => if isName name || name = "self" then some name else none
  | _ => none

structure Argument where
  pattern : Tokens
  type : Ty

structure Function where
  name : String
  receiver : Option Receiver
  isAsync : Bool
  args : List Argument
  ret : Option Ty
  hasBody : Bool

def Argument.tokens (a : Argument) : Tokens := a.pattern ++ ":" :: a.type.tokens

/-- The function without a body. -/
def Function.tokens (f : Function) : Tokens :=
  let inputs := (f.receiver.map Receiver.tokens).toList ++ f.args.map Argument.tokens
  (if f.isAsync then ["async"] else []) ++ "fn" :: f.name :: "(" ::
    separated "," inputs false ++ ")" :: resultTokens f.ret

inductive Item
  | function (f : Function)
  /-- A constant, a type or the use of a macro. -/
  | other (name : String)

end Trait

/-- The declaration of a contract. -/
structure Trait where
  name : String
  vis : Trait.Tokens := []
  generics : List Trait.Tokens := []
  bounds : List Trait.Bound := []
  items : List Trait.Item := []

end RemoteCall
