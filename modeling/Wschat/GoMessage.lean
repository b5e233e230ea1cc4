import Wschat.JsonText

/-! `common/message.go`: the message of the Go server, and what `encoding/json` makes of
it. Decoding fills a message that already holds something; a member of the wrong type is
remembered and skipped, an unknown action stops the decoding. -/
namespace Wschat.Go

inductive Action where
  | connect
  | chat
  | disconnect
  | error
  deriving DecidableEq, Repr

namespace Action

def str : Action → String
  | .connect => "connect"
  | .chat => "chat"
  | .disconnect => "disconnect"
  | .error => "error"

def ofStr (str : String) : Option Action :=
  if str = "connect" then some .connect
  else if str = "chat" then some .chat
  else if str = "disconnect" then some .disconnect
  else if str = "error" then some .error
  else none

@[simp] theorem ofStr_str (action : Action) : ofStr action.str = some action := by
  cases action <;> simp [ofStr,str]

end Action

/-- An action is one of the four, or the empty string of a message without one. -/
structure Message where
  sender : String
  action : Option Action
  contents : String
  timestamp : Int64
  deriving DecidableEq, Repr

/-- `now` is the reading of `time.Now().UnixNano()`. -/
def newSystemMessage (action : Action) (contents : String) (now : Int64) : Message :=
  ⟨"system",some action,contents,now⟩

def newChatMessage (sender contents : String) (now : Int64) : Message :=
  ⟨sender,some .chat,contents,now⟩

/-- A member with the `omitempty` option. -/
def omitempty (key : String) (empty : Bool) (value : Json) : List (String × Json) :=
  if empty then [] else [(key,value)]

def marshalAction : Option Action → Json
  | some action => .str action.str
  | none => .str ""

/-- `json.Marshal`, in field order. -/
def marshalJson (msg : Message) : Json :=
  .obj (omitempty "sender" (msg.sender = "") (.str msg.sender) ++
    omitempty "action" (msg.action = none) (marshalAction msg.action) ++
    omitempty "contents" (msg.contents = "") (.str msg.contents) ++
    omitempty "timestamp" (msg.timestamp = 0) (.int msg.timestamp.toInt))

/-- `encoding/json` below the struct: texts to values and back. -/
structure EncodingJson where
  parse : String → Option Json
  print : Json → String
  parse_print : ∀ msg, parse (print (marshalJson msg)) = some (marshalJson msg)

theorem marshalJson_scalar (msg : Message) :
    ∃ members, marshalJson msg = .obj members ∧ ∀ member ∈ members, member.2.Scalar := by
  refine ⟨_,rfl,?_⟩
  intro member inside
  simp only [List.mem_append,omitempty] at inside
  rcases inside with ((inside | inside) | inside) | inside <;> split at inside <;>
    simp at inside <;> subst inside <;> simp [Json.Scalar]
  cases msg.action <;> simp [marshalAction]

/-- The library with a printer of this style. -/
def EncodingJson.ofStyle (style : Json.Style) : EncodingJson where
  parse := Json.parse
  print := Json.print style
  parse_print := fun msg => by
    obtain ⟨members,eq,scalar⟩ := marshalJson_scalar msg
    rw [eq]
    exact Json.parse_write style members scalar

def encodingJson : EncodingJson := .ofStyle Json.compact

def marshal (lib : EncodingJson) (msg : Message) : String := lib.print (marshalJson msg)

/-- Field names match without regard to case, as `foldName` has it: besides the capital
letters, the long s and the Kelvin sign fold to an ASCII letter. -/
def foldChar (c : Char) : Char :=
  if c = Char.ofNat 0x17f then 's' else if c = Char.ofNat 0x212a then 'k' else c.toLower

def foldName (key : String) : String := String.ofList (key.toList.map foldChar)

inductive Failure where
  | syntaxError
  | typeError
  | invalidAction (str : String)
  deriving DecidableEq, Repr

/-- `Action.UnmarshalJSON`. Null leaves the string empty, which is no action. -/
def unmarshalAction : Json → Except Failure Action
  | .str str =>
    match Action.ofStr str with
    | some action => .ok action
    | none => .error (.invalidAction str)
  | .null => .error (.invalidAction "")
  | _ => .error .typeError

/-- A member stored in a string field; null leaves the field as it is, and a value of
another type does so too, with an error. -/
def storeString (held : String) : Json → String × Bool
  | .str value => (value,false)
  | .null => (held,false)
  | _ => (held,true)

def storeInt64 (held : Int64) : Json → Int64 × Bool
  | .int value => if -2^63 ≤ value ∧ value < 2^63 then (.ofInt value,false) else (held,true)
  | .null => (held,false)
  | _ => (held,true)

/-- The members of an object, in order; `saved` says that one has had the wrong type. -/
def storeMembers : List (String × Json) → Message → Bool → Message × Option Failure
  | [], msg, saved => (msg,if saved then some .typeError else none)
  | (key,value) :: members, msg, saved =>
    if foldName key = "sender" then
      let (sender,failed) := storeString msg.sender value
      storeMembers members { msg with sender } (saved || failed)
    else if foldName key = "action" then
      match unmarshalAction value with
      | .ok action => storeMembers members { msg with action := some action } saved
      | .error failure => (msg,some failure)
    else if foldName key = "contents" then
      let (contents,failed) := storeString msg.contents value
      storeMembers members { msg with contents } (saved || failed)
    else if foldName key = "timestamp" then
      let (timestamp,failed) := storeInt64 msg.timestamp value
      storeMembers members { msg with timestamp } (saved || failed)
    else storeMembers members msg saved

/-- `json.Unmarshal` into a message that holds `msg`. -/
def unmarshal (lib : EncodingJson) (text : String) (msg : Message) : Message × Option Failure :=
  match lib.parse text with
  | none => (msg,some .syntaxError)
  | some (.obj members) => storeMembers members msg false
  | some .null => (msg,none)
  | some _ => (msg,some .typeError)

end Wschat.Go
