/-!
# Tokens of declarations

The text of a declaration falls into names, lifetimes, literals and punctuation. `::` and `->` are
one token each, and so is every other mark of one character. Blanks and comments only part the
tokens, so a text is as good as its tokens with a blank between each two:

    ofText "Map<'a, [u8; 0x1f]>" = ["Map", "<", "'a", ",", "[", "u8", ";", "0x1f", "]", ">"]
    render (ofText "::std::Vec<T>") = ":: std :: Vec < T >"
-/

namespace RemoteCall.Trait

abbrev Tokens := List String

namespace Tokens

def render (ts : Tokens) : String := " ".intercalate ts

/-! ## Pieces of a text

Each of these takes a piece from the front of a text and gives it together with what follows it. -/

/-- Whether a name can go on with this character: a letter or a digit of ASCII or Latin-1, an
underscore or the middle dot. Beyond Latin-1 every character passes for a letter. -/
def goesOn (c : Char) : Bool :=
  c.isAlphanum || c ∈ ['_', 'ª', 'µ', '·', 'º'] || 'À' ≤ c && c ≠ '×' && c ≠ '÷'

/-- Whether a name can start with this character; the middle dot only goes on with one. -/
def starts (c : Char) : Bool := goesOn c && !c.isDigit && c ≠ '·'

/-- Characters up to the mark that closes a quotation. A backslash takes the next one along. -/
def quoted (close : Char) : List Char → List Char × List Char
  | [] => ([], [])
  | '\\' :: c :: cs =>
    let (piece, rest) := quoted close cs
    ('\\' :: c :: piece, rest)
  | c :: cs =>
    if c = close then ([c], cs)
    else
      let (piece, rest) := quoted close cs
      (c :: piece, rest)

/-- Characters up to those that close a raw quotation, in which no backslash counts. -/
def rawQuoted (close : List Char) : List Char → List Char × List Char
  | [] => ([], [])
  | c :: cs =>
    if close.isPrefixOf (c :: cs) then (close, (c :: cs).drop close.length)
    else
      let (piece, rest) := rawQuoted close cs
      (c :: piece, rest)

/-- The quotation that the letters of a word introduce, if the text goes on with one. -/
def introduced (word : List Char) (text : List Char) : Option (List Char × List Char) :=
  let raw := word ∈ [['r'], ['b', 'r'], ['c', 'r']]
  let hashes := text.takeWhile (· = '#')
  match text.drop hashes.length with
  | '"' :: cs =>
    if raw then
      let (piece, rest) := rawQuoted ('"' :: hashes) cs
      some (hashes ++ '"' :: piece, rest)
    else if hashes = [] ∧ word ∈ [['b'], ['c']] then
      let (piece, rest) := quoted '"' cs
      some ('"' :: piece, rest)
    else none
  | '\'' :: cs =>
    if hashes = [] ∧ word = ['b'] then
      let (piece, rest) := quoted '\'' cs
      some ('\'' :: piece, rest)
    else none
  | _ => none

/-- Digits, and the underscores between them. -/
def digits (text : List Char) : List Char × List Char :=
  text.span fun c => c.isDigit || c = '_'

/-- A point and the digits behind it. Another point or a name after the point keeps it out. -/
def fraction (text : List Char) : List Char × List Char :=
  match text with
  | '.' :: cs =>
    if cs.head?.any fun c => c = '.' || starts c then ([], text)
    else
      let (piece, rest) := digits cs
      ('.' :: piece, rest)
  | _ => ([], text)

/-- The exponent of a number: a letter, perhaps a sign, and at least one digit. -/
def exponent (text : List Char) : List Char × List Char :=
  match text with
  | c :: cs =>
    let (sign, cs) := cs.splitAt (if cs.head? = some '+' ∨ cs.head? = some '-' then 1 else 0)
    let (piece, rest) := digits cs
    if (c = 'e' ∨ c = 'E') ∧ piece.any (·.isDigit) then (c :: sign ++ piece, rest) else ([], text)
  | [] => ([], text)

/-- A number. The digits of another base, like the name of its type, stand where a name would. -/
def number (text : List Char) : List Char × List Char :=
  let (whole, text) := digits text
  let (part, text) := fraction text
  let (power, text) := exponent text
  (whole ++ part ++ power, text)

/-- The token that starts with `c`, and the text after it. -/
def first (c : Char) (cs : List Char) : List Char × List Char :=
  let withSuffix : List Char × List Char → List Char × List Char := fun (piece, rest) =>
    (piece ++ rest.takeWhile goesOn, rest.dropWhile goesOn)
  if c.isDigit then withSuffix (number (c :: cs))
  else if goesOn c then
    let (tail, rest) := cs.span goesOn
    match introduced (c :: tail) rest, rest with
    | some (piece, rest), _ => withSuffix (c :: tail ++ piece, rest)
    | none, '#' :: rest => if c = 'r' ∧ tail = [] then withSuffix (['r', '#'], rest)
      else (c :: tail, '#' :: rest)
    | none, rest => (c :: tail, rest)
  else
    match c, cs with
    | '"', cs =>
      let (piece, rest) := quoted '"' cs
      withSuffix ('"' :: piece, rest)
    | '\'', '\\' :: _ =>
      let (piece, rest) := quoted '\'' cs
      withSuffix ('\'' :: piece, rest)
    | '\'', a :: '\'' :: rest => withSuffix (['\'', a, '\''], rest)
    | '\'', cs => withSuffix (['\''], cs)
    | ':', ':' :: rest => ([':', ':'], rest)
    | '-', '>' :: rest => (['-', '>'], rest)
    | c, cs => ([c], cs)

/-- What follows a comment; comments in it have ends of their own, `depth` ends are to come. -/
def afterComment : (depth : Nat) → List Char → List Char
  | 0, cs => cs
  | depth + 1, '*' :: '/' :: cs => afterComment depth cs
  | depth + 1, '/' :: '*' :: cs => afterComment (depth + 2) cs
  | depth + 1, _ :: cs => afterComment (depth + 1) cs
  | _ + 1, [] => []

/-- The tokens of a text. A token takes a character, so the length is fuel enough. -/
def scan : (fuel : Nat) → List Char → Tokens
  | 0, _ => []
  | _ + 1, [] => []
  | fuel + 1, '/' :: '/' :: cs => scan fuel (cs.dropWhile (· ≠ '\n'))
  | fuel + 1, '/' :: '*' :: cs => scan fuel (afterComment 1 cs)
  | fuel + 1, c :: cs =>
    if c.isWhitespace then scan fuel cs
    else
      let (token, rest) := first c cs
      String.ofList token :: scan fuel rest

def ofText (text : String) : Tokens := scan text.length text.toList

end Tokens

/-! ## Kinds of tokens -/

/-- Words of the language, which no declaration may choose as a name. -/
def keywords : List String :=
  ["abstract", "as", "async", "await", "become", "box", "break", "const", "continue", "crate", "do",
    "dyn", "else", "enum", "extern", "false", "final", "fn", "for", "if", "impl", "in", "let",
    "loop", "macro", "match", "mod", "move", "mut", "override", "priv", "pub", "ref", "return",
    "Self", "self", "static", "struct", "super", "trait", "true", "try", "type", "typeof",
    "unsafe", "unsized", "use", "virtual", "where", "while", "yield"]

/-- A name without the mark that makes a name of a keyword. -/
def plainName (name : String) : String :=
  match name.toList with
  | 'r' :: '#' :: cs => String.ofList cs
  | _ => name

/-- Whether a token is a name that a declaration may choose. -/
def isName (token : String) : Bool :=
  match (plainName token).toList with
  | [] => false
  | ['_'] => false
  | c :: cs => Tokens.starts c && cs.all Tokens.goesOn && token ∉ keywords

/-- Whether a token is a name in a path, where some keywords stand for modules and types. -/
def isPathName (token : String) : Bool :=
  isName token || token ∈ ["self", "Self", "super", "crate", "try"]

def isLifetime (token : String) : Bool :=
  match token.toList with
  | '\'' :: cs => !cs.contains '\''
  | _ => false

/-- Whether a token is a number, a character or a text. -/
def isQuantity (token : String) : Bool :=
  match token.toList with
  | [] => false
  | c :: cs => c.isDigit || c = '"' || cs.contains '"' || cs.contains '\''

def isLiteral (token : String) : Bool := isQuantity token || token = "true" || token = "false"

end RemoteCall.Trait
