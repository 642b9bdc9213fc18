/-!
# Words of a name and their letter case

A name falls into words at its underscores and where the kind of its characters changes: before an
upper-case letter that follows a lower-case one, between a letter and a digit, and before the last
of several upper-case letters if a lower-case one follows it. `camel` and `upperSnake` put the words
together again:

    words "HTTPServer2" = ["HTTP", "Server", "2"]
    camel "HTTPServer2" = "httpServer2"        upperSnake "HTTPServer2" = "HTTP_SERVER_2"

Letters are those of ASCII and Latin-1; no other character has a case here. So what is said of the
case of names is said of names in these letters (`IsLatin`).
-/

namespace RemoteCall.Casing

/-! ## Letters -/

/-- All characters are those of ASCII and Latin-1. -/
def IsLatin (cs : List Char) : Prop := ∀ c ∈ cs, c.toNat < 256

instance (cs : List Char) : Decidable (IsLatin cs) := List.decidableBAll _ cs

/-- Upper case. Sharp s has two letters, and two letters of Latin-1 lie beyond it. -/
def upper (c : Char) : List Char :=
  if 'a' ≤ c ∧ c ≤ 'z' then [Char.ofNat (c.toNat - 32)]
  else if c = 'ß' then ['S', 'S']
  else if c = 'ÿ' then ['\u0178']
  else if c = 'µ' then ['\u039C']
  else if 'à' ≤ c ∧ c ≤ 'þ' ∧ c ≠ '÷' then [Char.ofNat (c.toNat - 32)]
  else [c]

def lower (c : Char) : List Char :=
  if 'A' ≤ c ∧ c ≤ 'Z' then [Char.ofNat (c.toNat + 32)]
  else if 'À' ≤ c ∧ c ≤ 'Þ' ∧ c ≠ '×' then [Char.ofNat (c.toNat + 32)]
  else [c]

def isUpper (c : Char) : Bool := upper c ≠ lower c ∧ upper c = [c]

def isLower (c : Char) : Bool := upper c ≠ lower c ∧ lower c = [c]

def isDigit (c : Char) : Bool := '0' ≤ c ∧ c ≤ '9'

/-! ## Words -/

/-- Whether a word ends between `a` and `b`, which `next` follows. -/
def cuts (a b : Char) (next : Option Char) : Bool :=
  isLower a && isUpper b ||
  (isLower a || isUpper a) && isDigit b ||
  isDigit a && (isLower b || isUpper b) ||
  isUpper a && isUpper b && next.any isLower

/-- The pieces of a name; `word` holds the characters of the piece at hand, the last first. -/
def pieces : (word : List Char) → List Char → List (List Char)
  | word, [] => [word.reverse]
  | word, c :: cs =>
    if c = '_' then word.reverse :: pieces [] cs
    else if word.head?.any fun a => cuts a c cs.head? then word.reverse :: pieces [c] cs
    else pieces (c :: word) cs

/-- The words of a name; none of them is empty. -/
def words (name : String) : List (List Char) := (pieces [] name.toList).filter (!·.isEmpty)

def capital : List Char → List Char
  | [] => []
  | c :: cs => upper c ++ cs.flatMap lower

/-- The first word in lower case, each other one with a capital. -/
def camel (name : String) : String :=
  match words name with
  | [] => ""
  | w :: ws => String.ofList (w.flatMap lower ++ ws.flatMap capital)

/-- All words in upper case, with underscores between them. -/
def upperSnake (name : String) : String :=
  String.ofList (List.intercalate ['_'] ((words name).map fun w => w.flatMap upper))

end RemoteCall.Casing
