import RemoteCall.MethodTable
import RemoteCall.Text.Casing
import RemoteCall.Trait.Parser

/-!
# Expansions of contracts

`Trait.expand` checks the declaration of a contract and makes of it all that its two ends need: the
declaration itself, in which every asynchronous method gives a future instead; the schema; the
handlers that a server registers; the methods of a remote end; and a client that forwards to either
end. The first fault in the order of the declaration refuses it.
-/

namespace RemoteCall.Trait

/-! ## Faults -/

inductive Fault
  | generic
  | notMethod
  | defaultBody
  | receiver
  | arguments
  | pattern
  | noOutput
  | noReply
  deriving Repr, DecidableEq

def Fault.message : Fault → String
  | .generic => "rpc_service traits cannot be generic"
  | .notMethod => "rpc_service traits may only contain methods"
  | .defaultBody => "rpc_service methods cannot have a default body"
  | .receiver => "rpc_service methods must take `&self`"
  | .arguments => "rpc_service methods take exactly one request argument"
  | .pattern => "request argument must be a plain identifier"
  | .noOutput => "rpc_service methods must return `Result<Reply, RpcError>`"
  | .noReply => "rpc_service methods must return `Result<Reply, RpcError>` or `RpcResult<Reply>`"

inductive Refusal
  | fault (f : Fault)
  /-- The name of a method makes no name for its constant. -/
  | badName (method : String)
  deriving Repr, DecidableEq

/-! ## Types of methods -/

/-- The type that the first binding of `name` among the arguments gives. -/
def assocType? (name : String) : List Arg → Option Ty
  | [] => none
  | .assoc target t :: as => if target.name = name then some t else assocType? name as
  | _ :: as => assocType? name as

/-- What a future with this bound gives. -/
def Bound.output? : Bound → Option Ty
  | .lifetime _ => none
  | .path _ _ p =>
    match p.segments.find? (·.name = "Future") with
    | some (.angled _ _ args _) => assocType? "Output" args
    | _ => none

/-- What a value of this type gives in the end, if it is a future. -/
def Ty.future? : Ty → Option Ty
  | .impl bounds _ => bounds.findSome? Bound.output?
  | _ => none

/-- The names in a type that is given by them, each with its arguments. -/
def Ty.segments : Ty → List Segment
  | .path p => p.segments
  | .member _ via segments => (via.elim [] Path.segments) ++ segments
  | _ => []

/-- The type of the reply in a result type. -/
def Ty.reply? (t : Ty) : Option Ty :=
  match t.segments.getLast? with
  | some (.angled _ _ (.type reply :: _) _) => some reply
  | _ => none

/-- What a call of the function gives in the end. -/
def Function.output? (f : Function) : Option Ty :=
  if f.isAsync then f.ret else f.ret.bind Ty.future?

def corePath (segments : List Segment) : Path := .mk true (.plain "core" :: segments)

/-- A future that gives `output` and may move between threads. -/
def Ty.futureOf (output : Ty) : Ty :=
  .impl [.plain (corePath [.plain "future", .ofArgs "Future" [.assoc (.plain "Output") output]]),
    .plain (corePath [.plain "marker", .plain "Send"])] false

/-! ## Methods -/

structure Method where
  name : String
  arg : String
  request : Ty
  /-- What a call gives in the end: the reply or an error. -/
  output : Ty
  reply : Ty

namespace Method

def ofFunction (f : Function) : Except Fault Method := do
  if f.hasBody then throw .defaultBody
  let some (.shared _) := f.receiver | throw .receiver
  let [request] := f.args | throw .arguments
  let some arg := binding? request.pattern | throw .pattern
  let some output := f.output? | throw .noOutput
  let some reply := output.reply? | throw .noReply
  return { name := f.name, arg, request := request.type, output, reply }

def ofItem : Item → Except Fault Method
  | .other _ => .error .notMethod
  | .function f => ofFunction f

/-- The name under which the method is registered and called. -/
def wire (m : Method) : String := Casing.camel m.name

/-- The name of the constant that holds the wire name. -/
def constant (m : Method) : String := Casing.upperSnake m.name

/-- Whether the constant's name can stand in a declaration. -/
def hasConstant (m : Method) : Bool :=
  match m.constant.toList with
  | [] => false
  | c :: cs => Tokens.starts c && cs.all Tokens.goesOn

end Method

/-! ## Expansions -/

/-- The function as its implementations see it: a future in place of the mark. -/
def Function.desugar (f : Function) : Function :=
  if f.isAsync then { f with isAsync := false, ret := f.ret.map Ty.futureOf } else f

def Item.desugar : Item → Item
  | .function f => .function f.desugar
  | .other name => .other name

structure Expansion where
  /-- The declaration that stays. -/
  declaration : Trait
  methods : List Method

/-- Checks a declaration and expands it. -/
def expand (t : Trait) : Except Refusal Expansion :=
  if t.generics ≠ [] then .error (.fault .generic)
  else match t.items.mapM Method.ofItem with
    | .error f => .error (.fault f)
    | .ok methods =>
      match methods.find? (!·.hasConstant) with
      | some m => .error (.badName m.name)
      | none => .ok { declaration := { t with items := t.items.map Item.desugar }, methods }

namespace Expansion

def name (e : Expansion) : String := e.declaration.name

def schemaName (e : Expansion) : String := plainName e.name ++ "Schema"

def clientName (e : Expansion) : String := plainName e.name ++ "Client"

/-- The names of the methods' constants, each with the wire name that it holds. -/
def constants (e : Expansion) : List (String × String) :=
  e.methods.map fun m => (m.constant, m.wire)

def schema (e : Expansion) : Schema where
  name := e.name
  methods := e.methods.map fun m => ⟨m.wire, m.request.tokens.render, m.reply.tokens.render⟩

/-- What a server implements to register the contract. -/
def registration (e : Expansion) : Path :=
  .mk false [.plain "bridge_rpc", .ofArgs "RegisterService" [.type (.named e.schemaName)]]

/-- A handler: the wire name, and the method and the request that it passes on. -/
structure Handler where
  wire : String
  method : String
  arg : String
  request : Ty

def handlers (e : Expansion) : List Handler :=
  e.methods.map fun m => ⟨m.wire, m.name, m.arg, m.request⟩

/-- A method of the remote end: its declaration, and the call that it makes. -/
structure Proxy where
  method : String
  arg : String
  request : Ty
  output : Ty
  reply : Ty
  wire : String

def proxies (e : Expansion) : List Proxy :=
  e.methods.map fun m => ⟨m.name, m.arg, m.request, m.output, m.reply, m.wire⟩

/-- A method of the client: its own name, and the method that it forwards to. -/
structure Forwarder where
  name : String
  method : String
  arg : String
  request : Ty
  output : Ty

def forwarders (e : Expansion) : List Forwarder :=
  e.methods.map fun m => ⟨"call_" ++ plainName m.name, m.name, m.arg, m.request, m.output⟩

/-- The declared signature of a remote method. A comma follows its argument. -/
def Proxy.tokens (p : Proxy) : Tokens :=
  ["fn", p.method, "(", "&", "self", ",", p.arg, ":"] ++ p.request.tokens ++ [",", ")", "->"] ++
    (Ty.futureOf p.output).tokens

def Forwarder.tokens (f : Forwarder) : Tokens :=
  ["async", "fn", f.name, "(", "&", "self", ",", f.arg, ":"] ++ f.request.tokens ++ [")", "->"] ++
    f.output.tokens

/-- The functions of the declaration that stays. -/
def functions (e : Expansion) : List Function :=
  e.declaration.items.filterMap fun
    | .function f => some f
    | .other _ => none

/-- The bounds of the declaration. -/
def boundTokens (e : Expansion) : Tokens := separated "+" (boundsTokens e.declaration.bounds) false

end Expansion

end RemoteCall.Trait
