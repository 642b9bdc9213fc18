import RemoteCall.Trait.Syntax

/-!
# Reading types

Types and bounds are read from their tokens. Each reader takes a piece from the front and leaves
the rest; none of them ever goes back, so a type is read in one pass. Readers of what a type
consists of are given the reader of types, and `Parser.type` ties the knot: a type in a type takes
one step of fuel, and there are no more of them than tokens.

Where no `+` can follow, as behind `&` or `->`, a type ends before it.
-/

namespace RemoteCall.Trait

abbrev Parser := StateT Tokens Option

namespace Parser

/-! ## Tokens -/

def peek : Parser (Option String) := return (← get).head?

def next : Parser String := do
  let t :: ts ← get | failure
  set ts
  return t

/-- Takes the next token if it is `token`, and tells whether it was. -/
def skip (token : String) : Parser Bool := do
  if (← peek) = some token then
    let _ ← next
    return true
  else return false

def expect (token : String) : Parser Unit := do
  unless ← skip token do failure

/-- Takes the next token if it is one of `tokens`. -/
def mark (tokens : List String) : Parser Tokens := do
  match ← peek with
  | some t => if t ∈ tokens then return [← next] else return []
  | none => return []

/-- Takes a lifetime if one is next. -/
def lifetimeMark : Parser Tokens := do
  if (← peek).any isLifetime then return [← next] else return []

def isOpening (token : String) : Bool := token ∈ ["(", "[", "\x7b"]

def isClosing (token : String) : Bool := token ∈ [")", "]", "\x7d"]

/-- All up to the bracket that closes the last of `depth` open ones. -/
def closed : (depth : Nat) → Tokens → Option (Tokens × Tokens)
  | _, [] => none
  | depth, t :: ts =>
    let depth := if isOpening t then depth + 1 else if isClosing t then depth - 1 else depth
    if depth = 0 then some ([t], ts)
    else (closed depth ts).map fun (piece, rest) => (t :: piece, rest)

/-- All up to the bracket that closes the last of `depth` open ones. -/
def upToClosed (depth : Nat) : Parser Tokens := closed depth

/-- The lifetimes that `for` introduces. -/
def forLifetimes : Parser Tokens := do
  if (← peek) = some "for" then
    let (opening, rest) := (← get).span (· ≠ ">")
    set (rest.drop 1)
    return opening ++ rest.take 1
  else return []

/-! ## Lists -/

/-- Items up to `close`, with commas between them, and whether the last one has a comma behind it.
An item takes a token, so there is fuel enough in the number of tokens. -/
def itemsUpTo {α : Type} (close : String) (item : Parser α) : (fuel : Nat) → Parser (List α × Bool)
  | 0 => failure
  | fuel + 1 => do
    if ← skip close then return ([], true)
    let a ← item
    unless ← skip "," do
      expect close
      return ([a], false)
    let (as, comma) ← itemsUpTo close item fuel
    return (a :: as, comma)

def upTo {α : Type} (close : String) (item : Parser α) : Parser (List α × Bool) := do
  itemsUpTo close item ((← get).length + 1)

/-- Items with `separator` between them, which stands before each one to come. -/
def itemsAfter {α : Type} (separator : String) (item : Parser α) : (fuel : Nat) → Parser (List α)
  | 0 => failure
  | fuel + 1 => do
    unless ← skip separator do return []
    let a ← item
    return a :: (← itemsAfter separator item fuel)

/-! ## Values -/

/-- The value of a constant argument, if one is next. A sign belongs to its number. -/
def value? : Parser (Option Tokens) := do
  match ← get with
  | [] => return none
  | t :: ts =>
    if t = "\x7b" then return some (← upToClosed 0)
    else if isLiteral t then
      set ts
      return some [t]
    else if t = "-" && ts.head?.any isQuantity then
      set (ts.drop 1)
      return some [t ++ ts.headD ""]
    else return none

/-! ## Bounds, arguments and segments -/

section

variable (type : (plus : Bool) → Parser Ty)

/-- A path, which is a type as well. -/
def path : Parser Path := do
  let .path p ← type false | failure
  return p

def result : Parser (Option Ty) := do
  if ← skip "->" then return some (← type false) else return none

def bound : Parser Bound := do
  if (← peek).any isLifetime then return .lifetime (← next)
  let parenthesized ← skip "("
  let marks := (← mark ["?"]) ++ (← forLifetimes)
  let p ← path type
  if parenthesized then expect ")"
  return .path parenthesized marks p

/-- Whether bounds are over before this token. -/
def endsBounds (token : Option String) : Bool :=
  token.all fun t => t ∈ [",", ">", "=", ";"] || isClosing t

/-- Bounds behind a first one, each behind a plus, and whether the last one has a plus behind it. -/
def boundsAfter : (fuel : Nat) → Parser (List Bound × Bool)
  | 0 => failure
  | fuel + 1 => do
    unless ← skip "+" do return ([], false)
    if endsBounds (← peek) then return ([], true)
    let b ← bound type
    let (bs, plus) ← boundsAfter fuel
    return (b :: bs, plus)

/-- The bounds that go on from `b`, where a plus can follow. -/
def boundsFrom (plus : Bool) (b : Bound) : Parser (List Bound × Bool) := do
  unless plus do return ([b], false)
  let (bs, plus) ← boundsAfter type ((← get).length + 1)
  return (b :: bs, plus)

def bounds (plus : Bool) : Parser (List Bound × Bool) := do
  boundsFrom type plus (← bound type)

/-- What an argument says about the associated item `target`, if it says anything. -/
def assoc? (target : Segment) : Parser (Option Arg) := do
  if ← skip "=" then
    match ← value? with
    | some value => return some (.assocConst target value)
    | none => return some (.assoc target (← type true))
  else if ← skip ":" then
    if endsBounds (← peek) then return some (.constraint target [] false)
    let (bs, plus) ← bounds type true
    return some (.constraint target bs plus)
  else return none

/-- An argument in angle brackets. -/
def arg : Parser Arg := do
  if let t :: ts ← get then
    if isLifetime t && ts.head? ≠ some "+" then
      set ts
      return .lifetime t
  if let some value ← value? then return .const value
  let t ← type true
  match t with
  | .path (.mk false [.applied ..]) => return .type t
  | .path (.mk false [target]) => return (← assoc? type target).getD (.type t)
  | _ => return .type t

def segment : Parser Segment := do
  let name ← next
  unless isPathName name do failure
  match ← get with
  | "<" :: ts =>
    set ts
    let (args, comma) ← upTo ">" (arg type)
    return .angled name false args comma
  | "::" :: "<" :: ts =>
    set ts
    let (args, comma) ← upTo ">" (arg type)
    return .angled name true args comma
  | "(" :: ts =>
    set ts
    let (inputs, comma) ← upTo ")" (type true)
    return .applied name inputs comma (← result type)
  | _ => return .plain name

def segments : Parser (List Segment) := do
  let s ← segment type
  return s :: (← itemsAfter "::" (segment type) ((← get).length + 1))

/-! ## Types -/

/-- A type in parentheses, or a tuple. One path goes on to bounds where a plus follows. -/
def grouped (plus : Bool) : Parser Ty := do
  expect "("
  match ← upTo ")" (type true) with
  | ([.path p], false) =>
    unless plus && (← peek) = some "+" do return .group (.path p)
    let (bs, plus) ← boundsFrom type true (.path true [] p)
    return .object false bs plus
  | ([t], false) => return .group t
  | (items, comma) => return .tuple items comma

def sliced : Parser Ty := do
  expect "["
  let t ← type true
  if ← skip ";" then
    let length ← upToClosed 1
    return .array t length.dropLast
  else
    expect "]"
    return .slice t

/-- A reference or a pointer. -/
def pointer : Parser Ty := do
  let sigil ← mark ["&", "*"]
  let lifetime ← lifetimeMark
  let access ← mark ["mut", "const"]
  return .pointer (sigil ++ lifetime ++ access) (← type false)

/-- What belongs to a type. -/
def member : Parser Ty := do
  expect "<"
  let owner ← type true
  let via ← if ← skip "as" then some <$> path type else pure none
  expect ">"
  expect "::"
  return .member owner via (← segments type)

def input : Parser Input := do
  match ← get with
  | label :: ":" :: ts =>
    set ts
    return .mk [label, ":"] (← type true)
  | _ => return .mk [] (← type true)

/-- A function type, behind the lifetimes that it introduces. -/
def function (lifetimes : Tokens) : Parser Ty := do
  let safety ← mark ["unsafe"]
  let linkage ← mark ["extern"]
  let convention ← if !linkage.isEmpty && (← peek).any isQuantity then List.singleton <$> next
    else pure []
  expect "fn"
  expect "("
  let (inputs, comma) ← upTo ")" (input type)
  return .function (lifetimes ++ safety ++ linkage ++ convention ++ ["fn"]) inputs comma
    (← result type)

/-- A type that starts with a path: more bounds or the use of a rule can follow it. -/
def named (plus : Bool) : Parser Ty := do
  let p := .mk (← skip "::") (← segments type)
  if ← skip "!" then return .other (p.tokens ++ "!" :: (← upToClosed 0))
  unless plus && (← peek) = some "+" do return .path p
  let (bs, plus) ← boundsFrom type true (.plain p)
  return .object false bs plus

/-- A type, given the reader of the types in it. -/
def typeStep (plus : Bool) : Parser Ty := do
  match ← peek with
  | none => failure
  | some "(" => grouped type plus
  | some "[" => sliced type
  | some "&" | some "*" => pointer type
  | some "<" => member type
  | some "!" | some "_" => return .other [← next]
  | some "impl" =>
    let _ ← next
    let (bs, plus) ← bounds type plus
    return .impl bs plus
  | some "dyn" =>
    let _ ← next
    let (bs, plus) ← bounds type plus
    return .object true bs plus
  | some "fn" | some "unsafe" | some "extern" => function type []
  | some "for" =>
    let lifetimes ← forLifetimes
    if (← peek).any (· ∈ ["fn", "unsafe", "extern"]) then function type lifetimes
    else
      let (bs, plus) ← boundsFrom type plus (.path false lifetimes (← path type))
      return .object false bs plus
  | some t =>
    if isLifetime t then
      let (bs, plus) ← bounds type plus
      return .object false bs plus
    else named type plus

end

/-- A type; `plus` tells whether more bounds can follow a first one. -/
def type : (fuel : Nat) → (plus : Bool) → Parser Ty
  | 0, _ => failure
  | fuel + 1, plus => typeStep (type fuel) plus

end Parser

/-! ## Texts -/

/-- A type that is given by its text. -/
def Ty.ofText (text : String) : Ty :=
  let ts := Tokens.ofText text
  match (Parser.type (ts.length + 1) true).run ts with
  | some (t, []) => t
  | _ => .other ts

/-- The bounds that are given by their text. -/
def Bound.listOfText (text : String) : List Bound :=
  let ts := Tokens.ofText text
  match (Parser.bounds (Parser.type (ts.length + 1)) true).run ts with
  | some ((bs, _), []) => bs
  | _ => []

end RemoteCall.Trait
