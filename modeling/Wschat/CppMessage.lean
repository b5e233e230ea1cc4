import Wschat.JsonText

/-! `message.hpp`: the message of the C++ server and its codec. The vendored JSON library
is a parameter; the model keeps what the codec asks of it. -/
namespace Wschat.Cpp

inductive Action where
  | connect
  | chat
  | disconnect
  | error
  deriving DecidableEq, Repr

def actionStr : Action → String
  | .connect => "connect"
  | .chat => "chat"
  | .disconnect => "disconnect"
  | .error => "error"

/-- What a decode can throw; `deserialize` turns each into a `JSONError`. -/
inductive Failure where
  | parse
  | notObject
  | missing (key : String)
  | wrongType (key : String)
  | invalidAction (sv : String)
  deriving DecidableEq, Repr

def actionFromString (sv : String) : Except Failure Action :=
  if sv = "connect" then .ok .connect
  else if sv = "chat" then .ok .chat
  else if sv = "disconnect" then .ok .disconnect
  else if sv = "error" then .ok .error
  else .error (.invalidAction sv)

@[simp] theorem actionFromString_actionStr (action : Action) :
    actionFromString (actionStr action) = .ok action := by
  cases action <;> simp [actionFromString,actionStr]

structure Message where
  sender : String
  action : Action
  contents : String
  timestamp : Int64
  deriving DecidableEq, Repr

/-- `Message(Action, contents)`; `now` is the reading of `get_timestamp`. -/
def Message.system (action : Action) (contents : String) (now : Int64) : Message :=
  ⟨"system",action,contents,now⟩

/-- `to_json`. The library stores an object as a map ordered by key. -/
def toJson (msg : Message) : Json :=
  .obj [("action",.str (actionStr msg.action)),
    ("contents",.str msg.contents),
    ("sender",.str msg.sender),
    ("timestamp",.int msg.timestamp.toInt)]

/-- `nlohmann::json`: parsing, printing and the cast of a floating number, which C++
leaves open out of range. Parsing undoes printing on the objects `to_json` builds. -/
structure Nlohmann where
  parse : String → Option Json
  dump : Json → String
  castFloat : Json → Int64
  parse_dump : ∀ msg, parse (dump (toJson msg)) = some (toJson msg)

/-- The library with a printer that adds no spaces, for runs on concrete texts. -/
def nlohmann : Nlohmann where
  parse := Json.parse
  dump := Json.print Json.compact
  castFloat := fun _ => 0
  parse_dump := fun _ => Json.parse_write Json.compact _ (by simp [Json.Scalar])

def asString (key : String) : Json → Except Failure String
  | .str value => .ok value
  | _ => .error (.wrongType key)

/-- `get_to` into an `int64_t`. An integer outside the library's two 64-bit
representations has been parsed as a floating number; an unsigned one wraps. -/
def asInt64 (lib : Nlohmann) (key : String) : Json → Except Failure Int64
  | .int value =>
    if -2^63 ≤ value ∧ value < 2^64 then .ok (Int64.ofInt value)
    else .ok (lib.castFloat (.int value))
  | .real literal => .ok (lib.castFloat (.real literal))
  | _ => .error (.wrongType key)

def at_ (key : String) (j : Json) : Except Failure Json :=
  match j.get? key with
  | none => .error (.missing key)
  | some value => .ok value

/-- `contains` then `at(..).get_to`; without the member the target keeps what it holds. -/
def ifContains (key : String) (j : Json) (held : α) (get : Json → Except Failure α) :
    Except Failure α :=
  match j.get? key with
  | none => .ok held
  | some value => get value

/-- `from_json` into a message whose `timestamp` storage holds `residue`. -/
def fromJson (lib : Nlohmann) (j : Json) (residue : Int64) : Except Failure Message :=
  if j.isObject then do
    let sender ← asString "sender" (← at_ "sender" j)
    let action ← ifContains "action" j .chat fun value => do
      actionFromString (← asString "action" value)
    let contents ← ifContains "contents" j "" (asString "contents")
    let timestamp ← ifContains "timestamp" j residue (asInt64 lib "timestamp")
    return ⟨sender,action,contents,timestamp⟩
  else .error .notObject

/-- `Message(std::string_view)`: the constructor sets no field before decoding, so an
absent timestamp leaves whatever the storage held. -/
def deserialize (lib : Nlohmann) (sv : String) (residue : Int64) : Except Failure Message :=
  match lib.parse sv with
  | none => .error .parse
  | some j => fromJson lib j residue

def serialize (lib : Nlohmann) (msg : Message) : String := lib.dump (toJson msg)

theorem asInt64_toInt (lib : Nlohmann) (key : String) (value : Int64) :
    asInt64 lib key (.int value.toInt) = .ok value := by
  have low := value.le_toInt
  have high := value.toInt_lt
  have inside : -2^63 ≤ value.toInt ∧ value.toInt < 2^64 := by omega
  rw [asInt64,if_pos inside,Int64.ofInt_toInt]

@[simp] theorem fromJson_toJson (lib : Nlohmann) (msg : Message) (residue : Int64) :
    fromJson lib (toJson msg) residue = .ok msg := by
  simp [fromJson,toJson,Json.isObject,at_,ifContains,asString,asInt64_toInt,pure,Except.pure,bind,
    Except.bind]

/-- Decoding what the encoder wrote gives the message back, whatever the storage held. -/
theorem deserialize_serialize (lib : Nlohmann) (msg : Message) (residue : Int64) :
    deserialize lib (serialize lib msg) residue = .ok msg := by
  simp [deserialize,serialize,lib.parse_dump]

/-- What an accepted object looks like, member by member. -/
structure Decodes (lib : Nlohmann) (j : Json) (residue : Int64) (msg : Message) : Prop where
  object : j.isObject = true
  sender : j.get? "sender" = some (.str msg.sender)
  action : j.get? "action" = none ∧ msg.action = .chat ∨
    ∃ sv, j.get? "action" = some (.str sv) ∧ actionFromString sv = .ok msg.action
  contents : j.get? "contents" = none ∧ msg.contents = "" ∨
    j.get? "contents" = some (.str msg.contents)
  timestamp : j.get? "timestamp" = none ∧ msg.timestamp = residue ∨
    ∃ value, j.get? "timestamp" = some value ∧ asInt64 lib "timestamp" value = .ok msg.timestamp

theorem asString_ok {key value : String} {j : Json} (read : asString key j = .ok value) :
    j = .str value := by
  cases j <;> simp [asString] at read
  rw [read]

theorem ifContains_ok {key : String} {j : Json} {held value : α} {get : Json → Except Failure α}
    (read : ifContains key j held get = .ok value) :
    j.get? key = none ∧ value = held ∨ ∃ v, j.get? key = some v ∧ get v = .ok value := by
  unfold ifContains at read
  split at read
  · next absent => exact .inl ⟨absent,(Except.ok.inj read).symm⟩
  · next v found => exact .inr ⟨v,found,read⟩

theorem fromJson_ok (lib : Nlohmann) (j : Json) (residue : Int64) (msg : Message)
    (read : fromJson lib j residue = .ok msg) : Decodes lib j residue msg := by
  unfold fromJson at read
  split at read
  case isFalse => contradiction
  case isTrue object =>
    obtain ⟨member,memberRead,read⟩ := bind_ok read
    obtain ⟨sender,senderRead,read⟩ := bind_ok read
    obtain ⟨action,actionRead,read⟩ := bind_ok read
    obtain ⟨contents,contentsRead,read⟩ := bind_ok read
    obtain ⟨timestamp,timestampRead,read⟩ := bind_ok read
    obtain rfl := Except.ok.inj read
    refine ⟨object,?_,?_,?_,ifContains_ok timestampRead⟩
    · unfold at_ at memberRead
      split at memberRead
      · contradiction
      · next found => rw [found,Except.ok.inj memberRead,asString_ok senderRead]
    · rcases ifContains_ok actionRead with absent | ⟨v,found,read⟩
      · exact .inl absent
      · obtain ⟨sv,text,known⟩ := bind_ok read
        exact .inr ⟨sv,by rw [found,asString_ok text],known⟩
    · rcases ifContains_ok contentsRead with absent | ⟨v,found,read⟩
      · exact .inl absent
      · exact .inr (by rw [found,asString_ok read])

/-- The text has a member under the key. -/
def Has (lib : Nlohmann) (key sv : String) : Prop :=
  ∃ j value, lib.parse sv = some j ∧ j.get? key = some value

/-- Whatever the storage held before, the same message comes out. -/
def Determined (lib : Nlohmann) (sv : String) : Prop :=
  ∀ residue residue', deserialize lib sv residue = deserialize lib sv residue'

theorem determined_of_timestamp (lib : Nlohmann) (has : Has lib "timestamp" sv) :
    Determined lib sv := by
  obtain ⟨j,value,parsed,found⟩ := has
  intro residue residue'
  simp only [deserialize,parsed,fromJson,ifContains,found]

/-- Without the member the storage shows through. -/
theorem timestamp_of_determined (lib : Nlohmann) (determined : Determined lib sv)
    (accepted : deserialize lib sv residue = .ok msg) : Has lib "timestamp" sv := by
  have again : deserialize lib sv (residue + 1) = .ok msg := by
    rw [determined (residue + 1) residue]
    exact accepted
  unfold deserialize at accepted again
  cases parsed : lib.parse sv with
  | none => simp [parsed] at accepted
  | some j =>
    simp only [parsed] at accepted again
    rcases (fromJson_ok lib j residue msg accepted).timestamp with ⟨absent,here⟩ | ⟨value,found,-⟩
    · rcases (fromJson_ok lib j (residue + 1) msg again).timestamp with ⟨-,there⟩ | ⟨value,found,-⟩
      · have same : residue + 1 = residue := there.symm.trans here
        simp at same
      · simp [absent] at found
    · exact ⟨j,value,parsed,found⟩

/-- Every message comes back from its text; an accepted text stands for one message. -/
theorem codec_determined_iff (lib : Nlohmann) (sv : String)
    (accepted : ∃ residue msg, deserialize lib sv residue = .ok msg) :
    ((∀ msg residue, deserialize lib (serialize lib msg) residue = .ok msg) ∧ Determined lib sv) ↔
      Has lib "timestamp" sv := by
  obtain ⟨residue,msg,read⟩ := accepted
  constructor
  · rintro ⟨-,determined⟩
    exact timestamp_of_determined lib determined read
  · intro has
    exact ⟨fun msg residue => deserialize_serialize lib msg residue,determined_of_timestamp lib has⟩

theorem nlohmann_parse (members : List (String × Json)) (scalar : ∀ m ∈ members, m.2.Scalar) :
    nlohmann.parse (Json.print Json.compact (.obj members)) = some (.obj members) :=
  Json.parse_write Json.compact members scalar

def stamped : List (String × Json) :=
  [("sender",.str "0"),("contents",.str "a"),("timestamp",.int 1)]

theorem stamped_determined : Determined nlohmann (Json.print Json.compact (.obj stamped)) := by
  have parsed := nlohmann_parse stamped (by simp [stamped,Json.Scalar])
  have accepted : deserialize nlohmann (Json.print Json.compact (.obj stamped)) 0 =
      .ok ⟨"0",.chat,"a",1⟩ := by
    have one : asInt64 nlohmann "timestamp" (.int 1) = .ok 1 := asInt64_toInt nlohmann "timestamp" 1
    simp only [deserialize,parsed]
    simp [stamped,fromJson,Json.isObject,at_,ifContains,asString,one,pure,
      Except.pure,bind,Except.bind]
  have has : (Json.obj stamped).get? "timestamp" = some (.int 1) := by simp [stamped]
  exact ((codec_determined_iff nlohmann _ ⟨0,_,accepted⟩).mpr ⟨_,_,parsed,has⟩).2

/-- A frame of the page, which sends no timestamp. -/
def unstamped : List (String × Json) :=
  [("sender",.str "0"),("action",.str "chat"),("contents",.str "a")]

theorem unstamped_undetermined : ¬∀ (lib : Nlohmann) (sv : String),
    (∃ residue msg, deserialize lib sv residue = .ok msg) → Determined lib sv := by
  intro determined
  have parsed := nlohmann_parse unstamped (by simp [unstamped,Json.Scalar])
  have reads (residue : Int64) : deserialize nlohmann (Json.print Json.compact (.obj unstamped)) residue =
      .ok ⟨"0",.chat,"a",residue⟩ := by
    simp only [deserialize,parsed]
    simp [unstamped,fromJson,Json.isObject,at_,ifContains,asString,
      actionFromString,pure,Except.pure,bind,Except.bind]
  have same := determined nlohmann _ ⟨0,_,reads 0⟩ 0 1
  rw [reads,reads] at same
  simp at same

end Wschat.Cpp
