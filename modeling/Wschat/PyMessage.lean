import Wschat.PyJson

/-! `message.py`: the message of the Python server and its codec over the `json` module. A
field that is absent and one that is null both read as `None`. -/
namespace Wschat.Py

inductive Action where
  | connect
  | chat
  | disconnect
  | error
  deriving DecidableEq, Repr

namespace Action

def str : Action → String
  | .connect => "connect"
  | .chat => "chat"
  | .disconnect => "disconnect"
  | .error => "error"

/-- `action_is_valid` and the member it finds. -/
def ofStr (action : Str) : Option Action :=
  if action = "connect" then some .connect
  else if action = "chat" then some .chat
  else if action = "disconnect" then some .disconnect
  else if action = "error" then some .error
  else none

@[simp] theorem ofStr_str (action : Action) : ofStr action.str = some action := by
  cases action <;> simp [ofStr,str]

end Action

/-- What reading a frame can raise. Only the first is a `JSONDecodeError`. -/
inductive Exc where
  | jsonDecodeError
  | valueError (text : Str)
  | attributeError
  | recursionError
  deriving DecidableEq, Repr

/-- The `action` property only ever holds a valid action. -/
structure Message where
  sender : Option Str
  action : Action
  contents : Option Str
  timestamp : Option Int
  deriving DecidableEq, Repr

/-- `now` is the reading of `time.time_ns()`. -/
def newSystem (action : Action) (contents : Str) (now : Int) : Message :=
  ⟨some "system",action,some contents,some now⟩

def newChat (sender : Str) (contents : Option Str) (now : Int) : Message :=
  ⟨some sender,.chat,contents,some now⟩

/-- A string or `None`, as `json.dumps` writes it. -/
def dumpStr : Option Str → Json Str
  | some s => .str s
  | none => .null

def dumpInt : Option Int → Json Str
  | some n => .int n
  | none => .null

/-- The dictionary that `to_json` dumps. -/
def toDict (msg : Message) : Json Str :=
  .obj [(Str.ofString "sender",dumpStr msg.sender),
    (Str.ofString "action",.str msg.action.str),
    (Str.ofString "contents",dumpStr msg.contents),
    (Str.ofString "timestamp",dumpInt msg.timestamp)]

/-- The `json` module. -/
structure JsonModule where
  loads : String → Except Exc (Json Str)
  dumps : Json Str → String

/-- The module without its limits on depth and digits, for runs on concrete texts. -/
def jsonModule : JsonModule where
  loads := fun s =>
    match reader.parse s with
    | some j => .ok j
    | none => .error .jsonDecodeError
  dumps := fun j => String.ofList (j.write layout)

theorem loads_strict (parsed : Json.parse s = some j) : jsonModule.loads s = .ok (j.map Str.ofString) := by
  simp only [jsonModule,parse_strict parsed]

/-- How another library reads the texts that the module writes for messages: the same members,
and no text with half of a surrogate pair. -/
def ParsesDumps (lib : JsonModule) (parse : String → Option Json) : Prop :=
  ∀ msg, parse (lib.dumps (toDict msg)) = (toDict msg).traverse Str.decode?

theorem parse_dumps : ParsesDumps jsonModule Json.parse := by
  intro msg
  refine Json.parse_written reads_layout _ ?_
  have text (s : Option Str) : (dumpStr s).Scalar := by cases s <;> trivial
  have number (n : Option Int) : (dumpInt n).Scalar := by cases n <;> trivial
  intro member inside
  simp only [List.mem_cons,List.not_mem_nil,or_false] at inside
  rcases inside with rfl | rfl | rfl | rfl
  · exact text _
  · trivial
  · exact text _
  · exact number _

theorem traverse_toDict (sender : String) (action : Action) (contents : Option Str) (n : Int) :
    (toDict ⟨some (Str.ofString sender),action,contents,some n⟩).traverse Str.decode? =
      ((dumpStr contents).traverse Str.decode?).map fun value =>
        .obj [("sender",.str sender),("action",.str action.str),("contents",value),
          ("timestamp",.int n)] := by
  cases contents with
  | none => simp [toDict,dumpStr,dumpInt,Json.traverse,Json.traverseMembers]
  | some text =>
    cases found : text.decode? <;>
      simp [toDict,dumpStr,dumpInt,Json.traverse,Json.traverseMembers,found]

def toJson (lib : JsonModule) (msg : Message) : String := lib.dumps (toDict msg)

/-- `type(value)`, printed. -/
def typeName : Json Str → String
  | .null => "<class 'NoneType'>"
  | .bool _ => "<class 'bool'>"
  | .int _ => "<class 'int'>"
  | .real _ => "<class 'float'>"
  | .str _ => "<class 'str'>"
  | .arr _ => "<class 'list'>"
  | .obj _ => "<class 'dict'>"

/-- One of the type checks of `from_json`, on the result of `d.get`. -/
def expectStr (key : String) : Option (Json Str) → Except Exc (Option Str)
  | none | some .null => .ok none
  | some (.str s) => .ok (some s)
  | some value => .error (.valueError s!"expected 'str' {key}, got {typeName value}")

/-- `type(timestamp) != int` holds of a boolean too. -/
def expectInt (key : String) : Option (Json Str) → Except Exc (Option Int)
  | none | some .null => .ok none
  | some (.int n) => .ok (some n)
  | some value => .error (.valueError s!"expected 'int' {key}, got {typeName value}")

/-- The setter of `action`; `None` is not a valid action either. -/
def setAction : Option Str → Except Exc Action
  | some action =>
    match Action.ofStr action with
    | some known => .ok known
    | none => .error (.valueError ("invalid action: " ++ action))
  | none => .error (.valueError "invalid action: None")

/-- `from_json` after `json.loads`. -/
def fromDict (d : Json Str) : Except Exc Message :=
  if d.isObject then do
    let sender ← expectStr "sender" (d.get? "sender")
    let action ← expectStr "action" (d.get? "action")
    let contents ← expectStr "contents" (d.get? "contents")
    let timestamp ← expectInt "timestamp" (d.get? "timestamp")
    let action ← setAction action
    return ⟨sender,action,contents,timestamp⟩
  else .error .attributeError

def fromJson (lib : JsonModule) (s : String) : Except Exc Message := do fromDict (← lib.loads s)

end Wschat.Py
