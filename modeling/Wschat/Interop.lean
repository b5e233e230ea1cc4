import Wschat.Decoders
import Wschat.ServerTexts

/-! Which server reads back what another has written. Two things are lost: the action that the
Rust server misspells, and what the Go server leaves out and the reader does not make up. -/
namespace Wschat

/-- A message as each of the servers can hold it. -/
structure Wire where
  sender : String
  action : Rust.Action
  contents : String
  timestamp : Nat
  small : timestamp < 2^63

namespace Wire

variable (w : Wire)

def cpp : Cpp.Message := ⟨w.sender,w.action.cpp,w.contents,.ofNat w.timestamp⟩

def rust : Rust.Message := ⟨w.sender,w.action,w.contents,.ofNat w.timestamp⟩

def py : Py.Message :=
  ⟨some (Py.Str.ofString w.sender),w.action.py,some (Py.Str.ofString w.contents),some w.timestamp⟩

def go : Go.Message := ⟨w.sender,some w.action.go,w.contents,.ofNat w.timestamp⟩

theorem int64 : (Int64.ofNat w.timestamp).toInt = w.timestamp := Int64.toInt_ofNat_of_lt w.small

theorem uint64 : (UInt64.ofNat w.timestamp).toNat = w.timestamp :=
  UInt64.toNat_ofNat_of_lt' (Nat.lt_trans w.small (by decide))

theorem int64_zero : Int64.ofNat w.timestamp = 0 ↔ w.timestamp = 0 := by
  rw [← Int64.toInt_inj,int64]
  simp

end Wire

namespace Server

def text (libs : Libraries) (w : Wire) : Server → String
  | .cpp => libs.cpp.dump (Cpp.toJson w.cpp)
  | .rust => libs.rust.print (Rust.serialize w.rust)
  | .py => Py.toJson libs.py w.py
  | .go => libs.go.print (Go.marshalJson w.go)

/-- A server decodes the text to the message, whatever its storage held. -/
def Reads (libs : Libraries) (text : String) (w : Wire) : Server → Prop
  | .cpp => ∀ residue, Cpp.deserialize libs.cpp text residue = .ok w.cpp
  | .rust => Rust.fromStr libs.rust text = some w.rust
  | .py => Py.fromJson libs.py text = .ok w.py
  | .go => ∀ held, Go.unmarshal libs.go text held = (w.go,none)

end Server

section Objects

/-- The members of the object. Only the Go server leaves some out. -/
def Server.members (w : Wire) (writer : Server) : List (String × Json) :=
  let action := ("action",.str (writer.actionStr w.action))
  match writer with
  | .cpp => [action,("contents",.str w.contents),("sender",.str w.sender),("timestamp",.int w.timestamp)]
  | .rust | .py =>
    [("sender",.str w.sender),action,("contents",.str w.contents),("timestamp",.int w.timestamp)]
  | .go =>
    Go.omitempty "sender" (w.sender = "") (.str w.sender) ++ action ::
      (Go.omitempty "contents" (w.contents = "") (.str w.contents) ++
        Go.omitempty "timestamp" (w.timestamp = 0) (.int w.timestamp))

/-- The object that a server builds for the message, with strings of characters. -/
def Server.object (w : Wire) (writer : Server) : Json := .obj (writer.members w)

variable (writer : Server) (w : Wire)

theorem cpp_object : Cpp.toJson w.cpp = Server.cpp.object w := by
  have timestamp : w.cpp.timestamp.toInt = w.timestamp := w.int64
  rw [Cpp.toJson,timestamp]
  rfl

theorem rust_object : Rust.serialize w.rust = Server.rust.object w := by
  have timestamp : w.rust.timestamp.toNat = w.timestamp := w.uint64
  rw [Rust.serialize,timestamp]
  rfl

theorem py_object : Py.toDict w.py = (Server.py.object w).map Py.Str.ofString := rfl

theorem go_object : Go.marshalJson w.go = Server.go.object w := by
  by_cases s : w.sender = "" <;> by_cases c : w.contents = "" <;> by_cases t : w.timestamp = 0 <;>
    simp [Server.object,Go.marshalJson,Server.members,Wire.go,Go.marshalAction,Go.omitempty,w.int64,
      w.int64_zero,Server.actionStr,s,c,t]

/-- What is looked up in the object, when none of the optional members is there. -/
def held (value : Json) (empty : Prop) [Decidable empty] : Option Json :=
  if writer = .go ∧ empty then none else some value

theorem object_get :
    (writer.object w).get? "sender" = held writer (.str w.sender) (w.sender = "") ∧
    (writer.object w).get? "action" = some (.str (writer.actionStr w.action)) ∧
    (writer.object w).get? "contents" = held writer (.str w.contents) (w.contents = "") ∧
    (writer.object w).get? "timestamp" = held writer (.int w.timestamp) (w.timestamp = 0) := by
  cases writer with
  | go =>
    by_cases s : w.sender = "" <;> by_cases c : w.contents = "" <;> by_cases t : w.timestamp = 0 <;>
      simp [Server.object,Server.members,Go.omitempty,held,s,c,t]
  | _ => simp [Server.object,Server.members,held]

end Objects

/-- The action is one that a decoder knows. -/
def Spelt (writer : Server) (w : Wire) : Prop := writer = .rust → w.action ≠ .disconnect

/-- A reader does not make up what an empty member has been. -/
def Server.Needs (w : Wire) : Server → Prop
  | .cpp => w.sender ≠ "" ∧ w.timestamp ≠ 0
  | .rust => w.sender ≠ ""
  | .py | .go => w.sender ≠ "" ∧ w.contents ≠ "" ∧ w.timestamp ≠ 0

section Readers

variable {libs : Libraries} {text : String} {w : Wire} {writer : Server}

theorem actionFromString_iff (writer : Server) (w : Wire) : Cpp.actionFromString (writer.actionStr w.action) = .ok w.action.cpp ↔
    Spelt writer w := by
  unfold Spelt
  cases writer <;> cases w.action <;> decide

/-- Decoding gives what the members say. -/
theorem fromJson_iff (lib : Cpp.Nlohmann) (j : Json) (residue : Int64) (msg : Cpp.Message) :
    Cpp.fromJson lib j residue = .ok msg ↔ Cpp.Decodes lib j residue msg := by
  refine ⟨Cpp.fromJson_ok lib j residue msg,?_⟩
  rintro ⟨object,sender,action,contents,timestamp⟩
  have action : Cpp.ifContains "action" j .chat (fun value => do
      Cpp.actionFromString (← Cpp.asString "action" value)) = .ok msg.action := by
    rcases action with ⟨absent,same⟩ | ⟨sv,found,known⟩
    · simp [Cpp.ifContains,absent,same]
    · simp only [Cpp.ifContains,found]
      exact known
  have contents : Cpp.ifContains "contents" j "" (Cpp.asString "contents") = .ok msg.contents := by
    rcases contents with ⟨absent,same⟩ | found
    · simp [Cpp.ifContains,absent,same]
    · simp [Cpp.ifContains,found,Cpp.asString]
  have timestamp : Cpp.ifContains "timestamp" j residue (Cpp.asInt64 lib "timestamp") =
      .ok msg.timestamp := by
    rcases timestamp with ⟨absent,same⟩ | ⟨value,found,known⟩
    · simp [Cpp.ifContains,absent,same]
    · simpa only [Cpp.ifContains,found] using known
  rw [Cpp.fromJson,if_pos object,Cpp.at_,sender,action,contents,timestamp]
  rfl

theorem asInt64_wire (lib : Cpp.Nlohmann) (w : Wire) :
    Cpp.asInt64 lib "timestamp" (.int w.timestamp) = .ok w.cpp.timestamp := by
  rw [← w.int64]
  exact Cpp.asInt64_toInt lib "timestamp" (.ofNat w.timestamp)

theorem cpp_reads (parsed : libs.cpp.parse text = some (writer.object w)) :
    Server.cpp.Reads libs text w ↔ Spelt writer w ∧ (writer = .go → Server.cpp.Needs w) := by
  obtain ⟨sender,action,contents,timestamp⟩ := object_get writer w
  have known := actionFromString_iff writer w
  simp only [Server.Reads,Cpp.deserialize,parsed,fromJson_iff]
  constructor
  · intro decodes
    refine ⟨?_,?_⟩
    · rcases (decodes 0).action with ⟨absent,-⟩ | ⟨sv,found,read⟩
      · simp [absent] at action
      · obtain rfl : sv = writer.actionStr w.action := by simpa [found] using action
        exact known.mp read
    · rintro rfl
      refine ⟨fun empty => ?_,fun zero => ?_⟩
      · have found := (decodes 0).sender
        rw [sender,held,if_pos ⟨rfl,empty⟩] at found
        contradiction
      · have stays (residue : Int64) : w.cpp.timestamp = residue := by
          rcases (decodes residue).timestamp with ⟨-,same⟩ | ⟨value,found,-⟩
          · exact same
          · rw [timestamp,held,if_pos ⟨rfl,zero⟩] at found
            contradiction
        have := (stays 0).symm.trans (stays 1)
        contradiction
  · rintro ⟨spelt,needs⟩ residue
    have named : ¬(writer = .go ∧ w.sender = "") := fun both => (needs both.1).1 both.2
    have stamped : ¬(writer = .go ∧ w.timestamp = 0) := fun both => (needs both.1).2 both.2
    rw [held,if_neg named] at sender
    rw [held,if_neg stamped] at timestamp
    refine ⟨rfl,sender,.inr ⟨_,action,known.mpr spelt⟩,?_,
      .inr ⟨_,timestamp,asInt64_wire _ w⟩⟩
    rw [contents,held]
    by_cases empty : writer = .go ∧ w.contents = ""
    · exact .inl ⟨if_pos empty,empty.2⟩
    · exact .inr (if_neg empty)

theorem ofStr_iff (writer : Server) (w : Wire) :
    Py.Action.ofStr (Py.Str.ofString (writer.actionStr w.action)) = some w.action.py ↔
      Spelt writer w := by
  unfold Spelt
  cases writer <;> cases w.action <;> decide

/-- An optional member reads as `None` where it is left out. -/
theorem expectStr_held (key s : String) :
    Py.expectStr key ((held writer (.str s) (s = "")).map (Json.map Py.Str.ofString)) =
      .ok (if writer = .go ∧ s = "" then none else some (Py.Str.ofString s)) := by
  unfold held
  split <;> rfl

theorem expectInt_held (key : String) (n : Nat) :
    Py.expectInt key ((held writer (.int n) (n = 0)).map (Json.map Py.Str.ofString)) =
      .ok (if writer = .go ∧ n = 0 then none else some (n : Int)) := by
  unfold held
  split <;> rfl

theorem py_reads (parsed : libs.py.loads text = .ok ((writer.object w).map Py.Str.ofString)) :
    Server.py.Reads libs text w ↔ Spelt writer w ∧ (writer = .go → Server.py.Needs w) := by
  obtain ⟨sender,action,contents,timestamp⟩ := object_get writer w
  have get (key : String) := Json.get?_map Py.Str.ofString_injective key (writer.object w)
  have object : (writer.object w).isObject = true := rfl
  have read : Py.expectStr "action"
      ((some (Json.str (writer.actionStr w.action))).map (Json.map Py.Str.ofString)) =
      .ok (some (Py.Str.ofString (writer.actionStr w.action))) := rfl
  simp only [Server.Reads,Py.fromJson,parsed,Py.fromDict,Json.isObject_map,object,if_true,get,sender,
    action,contents,timestamp,expectStr_held,expectInt_held,read,Py.setAction,bind,Except.bind]
  have known := ofStr_iff writer w
  cases read : Py.Action.ofStr (Py.Str.ofString (writer.actionStr w.action)) with
  | none =>
    have unspelt : ¬Spelt writer w := by simp [← known,read]
    simp [unspelt]
  | some a =>
    have spelt : a = w.action.py ↔ Spelt writer w := by rw [← known,read,Option.some.injEq]
    by_cases go : writer = .go <;> by_cases s : w.sender = "" <;> by_cases c : w.contents = "" <;>
      by_cases t : w.timestamp = 0 <;> simp [pure,Except.pure,Wire.py,Server.Needs,go,s,c,t,spelt]

theorem asAction_iff (writer : Server) (w : Wire) : Rust.asAction (.str (writer.actionStr w.action)) = some w.action ↔
    Spelt writer w := by
  unfold Spelt
  cases writer <;> cases w.action <;> decide

theorem asU64_wire (w : Wire) : Rust.asU64 (.int w.timestamp) = some w.rust.timestamp := by
  have read := Rust.asU64_toNat (.ofNat w.timestamp)
  rwa [w.uint64] at read

/-- Rust makes up everything but a sender. -/
theorem deserialize_object : Rust.deserialize (writer.object w) =
    if writer = .go ∧ w.sender = "" then none
    else (Rust.asAction (.str (writer.actionStr w.action))).map fun action =>
      { w.rust with action } := by
  have stamp := asU64_wire w
  have sender : w.rust.sender = w.sender := rfl
  have contents : w.rust.contents = w.contents := rfl
  rw [Server.object]
  cases read : Rust.asAction (.str (writer.actionStr w.action)) <;> cases writer with
  | go =>
    have zero (z : w.timestamp = 0) : w.rust.timestamp = 0 := by rw [Wire.rust,z]; rfl
    by_cases s : w.sender = "" <;> by_cases c : w.contents = "" <;> by_cases t : w.timestamp = 0 <;>
      simp [Server.members,Go.omitempty,Rust.deserialize,Rust.visitMap,Rust.assign,Rust.asString,
        Rust.Fields.build,stamp,read,s,c,t,sender,contents,zero]
  | _ =>
    simp [Server.members,Rust.deserialize,Rust.visitMap,Rust.assign,Rust.asString,Rust.Fields.build,
      stamp,read,sender,contents]

theorem rust_reads (parsed : libs.rust.parse text = some (writer.object w)) :
    Server.rust.Reads libs text w ↔ Spelt writer w ∧ (writer = .go → Server.rust.Needs w) := by
  have known := asAction_iff writer w
  simp only [Server.Reads,Rust.fromStr,parsed,Option.bind_some,deserialize_object,Server.Needs]
  by_cases empty : writer = .go ∧ w.sender = ""
  · simp [empty]
  · rw [if_neg empty]
    have needs : writer = .go → w.sender ≠ "" := fun go same => empty ⟨go,same⟩
    rw [and_iff_left needs,← known]
    cases Rust.asAction (.str (writer.actionStr w.action)) with
    | none => simp
    | some action =>
      have same : { w.rust with action } = w.rust ↔ action = w.action :=
        ⟨congrArg Rust.Message.action,by rintro rfl; rfl⟩
      simpa using same

theorem unmarshalAction_iff (writer : Server) (w : Wire) : Go.unmarshalAction (.str (writer.actionStr w.action)) = .ok w.action.go ↔
    Spelt writer w := by
  unfold Spelt
  cases writer <;> cases w.action <;> decide

theorem go_stamp (w : Wire) : (.int w.timestamp : Json) = .int w.go.timestamp.toInt := by
  have stamp : w.go.timestamp.toInt = w.timestamp := w.int64
  rw [stamp]

/-- Go keeps what it held wherever a member is left out. -/
theorem storeMembers_object (before : Go.Message) (known : Go.unmarshalAction
    (.str (writer.actionStr w.action)) = .ok a) :
    Go.storeMembers (writer.members w) before false =
      (⟨if writer = .go ∧ w.sender = "" then before.sender else w.sender,some a,
        if writer = .go ∧ w.contents = "" then before.contents else w.contents,
        if writer = .go ∧ w.timestamp = 0 then before.timestamp else w.go.timestamp⟩,none) := by
  cases writer with
  | go =>
    by_cases s : w.sender = "" <;> by_cases c : w.contents = "" <;> by_cases t : w.timestamp = 0 <;>
      simp [Server.members,Go.omitempty,s,c,t,go_stamp,Go.store_sender,Go.store_action _ _ _ known,
        Go.store_contents,Go.store_timestamp,Go.storeMembers_nil]
  | _ =>
    simp [Server.members,go_stamp,Go.store_sender,Go.store_action _ _ _ known,Go.store_contents,
      Go.store_timestamp,Go.storeMembers_nil]

/-- An action that is none stops the decoding with an error. -/
theorem storeMembers_unknown (before : Go.Message) (members : List (String × Json)) (saved : Bool)
    (member : ("action",value) ∈ members) {failure : Go.Failure}
    (unknown : Go.unmarshalAction value = .error failure) :
    (Go.storeMembers members before saved).2 ≠ none := by
  intro accepted
  have fits := ((Go.storeMembers_accepts members before saved).mp accepted).2 _ member
  simp [Go.storable,unknown,Except.isOk,Except.toBool] at fits

theorem go_reads (parsed : libs.go.parse text = some (writer.object w)) :
    Server.go.Reads libs text w ↔ Spelt writer w ∧ (writer = .go → Server.go.Needs w) := by
  have known := unmarshalAction_iff writer w
  simp only [Server.Reads,Go.unmarshal,parsed,Server.object]
  cases read : Go.unmarshalAction (.str (writer.actionStr w.action)) with
  | error failure =>
    have unspelt : ¬Spelt writer w := by simp [← known,read]
    have member : ("action",.str (writer.actionStr w.action)) ∈ writer.members w := by
      cases writer <;> simp [Server.members]
    have rejected := storeMembers_unknown ⟨"",none,"",0⟩ _ false member read
    simp only [unspelt,false_and,iff_false]
    exact fun all => rejected (by rw [all])
  | ok a =>
    have spelt : a = w.action.go ↔ Spelt writer w := by rw [← known,read,Except.ok.injEq]
    simp only [storeMembers_object _ read,Prod.mk.injEq,and_true]
    constructor
    · intro all
      have action : a = w.action.go := Option.some.inj (congrArg Go.Message.action (all ⟨"",none,"",0⟩))
      refine ⟨spelt.mp action,fun go => ⟨fun s => ?_,fun c => ?_,fun t => ?_⟩⟩
      · have other := congrArg Go.Message.sender (all ⟨"held",none,"",0⟩)
        simp [go,s,Wire.go] at other
      · have other := congrArg Go.Message.contents (all ⟨"",none,"held",0⟩)
        simp [go,c,Wire.go] at other
      · have stays (n : Int64) : n = w.go.timestamp := by
          simpa [go,t] using congrArg Go.Message.timestamp (all ⟨"",none,"",n⟩)
        have := (stays 0).trans (stays 1).symm
        contradiction
    · rintro ⟨known,needs⟩ before
      have s : ¬(writer = .go ∧ w.sender = "") := fun both => (needs both.1).1 both.2
      have c : ¬(writer = .go ∧ w.contents = "") := fun both => (needs both.1).2.1 both.2
      have t : ¬(writer = .go ∧ w.timestamp = 0) := fun both => (needs both.1).2.2 both.2
      rw [if_neg s,if_neg c,if_neg t,spelt.mpr known]
      rfl

end Readers

/-- The libraries read what they write for one another. -/
def Libraries.Agree (libs : Libraries) : Prop :=
  ∀ (writer : Server) (w : Wire), libs.Parse (writer.text libs w) (writer.object w)

/-- Who reads back whose messages: everybody those of C++ and Python, nobody a disconnect of
Rust, and those of Go as far as the reader needs no member that is left out. -/
theorem exchange_iff (libs : Libraries) (agree : libs.Agree) (writer reader : Server) (w : Wire) :
    reader.Reads libs (writer.text libs w) w ↔
      (writer = .rust → w.action ≠ .disconnect) ∧ (writer = .go → reader.Needs w) := by
  obtain ⟨cpp,rust,go,py⟩ := agree writer w
  cases reader with
  | cpp => exact cpp_reads cpp
  | rust => exact rust_reads rust
  | py => exact py_reads py
  | go => exact go_reads go

theorem libraries_agree : libraries.Agree := by
  intro writer w
  have scalar : ∀ member ∈ writer.members w, member.2.Scalar := by
    cases writer with
    | go =>
      by_cases s : w.sender = "" <;> by_cases c : w.contents = "" <;> by_cases t : w.timestamp = 0 <;>
        simp [Server.members,Go.omitempty,s,c,t,Json.Scalar]
    | _ => simp [Server.members,Json.Scalar]
  have parsed : Json.parse (writer.text libraries w) = some (writer.object w) := by
    have printed : Json.parse (Json.print Json.compact (writer.object w)) = some (writer.object w) :=
      Json.parse_write Json.compact _ scalar
    cases writer with
    | cpp => exact (congrArg (fun j => Json.parse (Json.print Json.compact j)) (cpp_object w)).trans printed
    | rust => exact (congrArg (fun j => Json.parse (Json.print Json.compact j)) (rust_object w)).trans printed
    | go => exact (congrArg (fun j => Json.parse (Json.print Json.compact j)) (go_object w)).trans printed
    | py =>
      have whole : (Py.toDict w.py).traverse Py.Str.decode? = some (Server.py.object w) := by
        rw [py_object,Json.traverse_map]
        simp
      exact (Py.parse_dumps w.py).trans whole
  exact ⟨parsed,parsed,parsed,Py.loads_strict parsed⟩

/-- What the Go server sends for an empty chat, the Rust server reads and Python does not. -/
def hushed : Wire := ⟨"0",.chat,"",1,by decide⟩

theorem hushed_read : Server.rust.Reads libraries (Server.go.text libraries hushed) hushed ∧
    ¬Server.py.Reads libraries (Server.go.text libraries hushed) hushed := by
  constructor
  · exact (exchange_iff libraries libraries_agree .go .rust hushed).mpr
      ⟨by simp,fun _ => by simp [Server.Needs,hushed]⟩
  · rw [exchange_iff libraries libraries_agree .go .py hushed]
    simp [Server.Needs,hushed]

end Wschat
