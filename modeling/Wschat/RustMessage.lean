import Wschat.JsonText

/-! `message.rs`: the message of the Rust server and the codec that serde derives. The
encoder's table of actions is not the decoder's. -/
namespace Wschat.Rust

inductive Action where
  | connect
  | chat
  | disconnect
  | error
  deriving DecidableEq, Repr

namespace Action

/-- `as_str`, with the source's spelling. -/
def asStr : Action → String
  | .connect => "connect"
  | .chat => "chat"
  | .disconnect => "discconnect"
  | .error => "error"

def fromStr (s : String) : Option Action :=
  if s = "connect" then some .connect
  else if s = "chat" then some .chat
  else if s = "error" then some .error
  else if s = "disconnect" then some .disconnect
  else none

end Action

structure Message where
  sender : String
  action : Action
  contents : String
  timestamp : UInt64
  deriving DecidableEq, Repr

/-- `new_system` and `new_chat`; `now` is the reading of `get_timestamp`. -/
def Message.newSystem (action : Action) (contents : String) (now : UInt64) : Message :=
  ⟨"system",action,contents,now⟩

def Message.newChat (sender contents : String) (now : UInt64) : Message :=
  ⟨sender,.chat,contents,now⟩

/-- The derived `Serialize`, in field order. -/
def serialize (msg : Message) : Json :=
  .obj [("sender",.str msg.sender),
    ("action",.str msg.action.asStr),
    ("contents",.str msg.contents),
    ("timestamp",.int msg.timestamp.toNat)]

/-- `serde_json` below the derived code: texts to values and back. -/
structure SerdeJson where
  parse : String → Option Json
  print : Json → String
  parse_print : ∀ msg, parse (print (serialize msg)) = some (serialize msg)

/-- The library with its compact printer. -/
def serdeJson : SerdeJson where
  parse := Json.parse
  print := Json.print Json.compact
  parse_print := fun _ => Json.parse_write Json.compact _ (by simp [Json.Scalar])

def toString (lib : SerdeJson) (msg : Message) : String := lib.print (serialize msg)

def asString : Json → Option String
  | .str s => some s
  | _ => none

def asAction : Json → Option Action
  | .str s => Action.fromStr s
  | _ => none

/-- A `u64` visitor takes integers in range and no floating number. -/
def asU64 : Json → Option UInt64
  | .int n => if 0 ≤ n ∧ n < 2^64 then some (UInt64.ofNat n.toNat) else none
  | _ => none

/-- What the derived `visit_map` has read so far. -/
structure Fields where
  sender : Option String
  action : Option Action
  contents : Option String
  timestamp : Option UInt64

/-- A field that is already there is a duplicate, which is an error. -/
def assign (held : Option α) (read : Json → Option α) (value : Json) : Option (Option α) :=
  match held with
  | some _ => none
  | none => (read value).map some

def visitMap : List (String × Json) → Fields → Option Fields
  | [], fields => some fields
  | (key,value) :: members, fields =>
    if key = "sender" then
      (assign fields.sender asString value).bind fun sender =>
        visitMap members { fields with sender }
    else if key = "action" then
      (assign fields.action asAction value).bind fun action =>
        visitMap members { fields with action }
    else if key = "contents" then
      (assign fields.contents asString value).bind fun contents =>
        visitMap members { fields with contents }
    else if key = "timestamp" then
      (assign fields.timestamp asU64 value).bind fun timestamp =>
        visitMap members { fields with timestamp }
    else visitMap members fields

/-- The fields with `#[serde(default)]` filled in; `sender` has none. -/
def Fields.build (fields : Fields) : Option Message :=
  fields.sender.map fun sender =>
    ⟨sender,fields.action.getD .chat,fields.contents.getD "",fields.timestamp.getD 0⟩

/-- One element of an array, or its default when the array has ended. -/
def nextElement (default : α) (read : Json → Option α) : List Json → Option (α × List Json)
  | [] => some (default,[])
  | value :: rest => (read value).map fun a => (a,rest)

/-- The derived `visit_seq`: an array is read by position, and must end with the fields. -/
def visitSeq : List Json → Option Message
  | [] => none
  | first :: rest => do
    let sender ← asString first
    let (action,rest) ← nextElement .chat asAction rest
    let (contents,rest) ← nextElement "" asString rest
    let (timestamp,rest) ← nextElement 0 asU64 rest
    if rest.isEmpty then some ⟨sender,action,contents,timestamp⟩ else none

def deserialize : Json → Option Message
  | .obj members => (visitMap members ⟨none,none,none,none⟩).bind Fields.build
  | .arr elements => visitSeq elements
  | _ => none

/-- `serde_json::from_str`. -/
def fromStr (lib : SerdeJson) (text : String) : Option Message := (lib.parse text).bind deserialize

end Wschat.Rust
