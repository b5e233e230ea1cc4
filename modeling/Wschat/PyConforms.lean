import Wschat.CppMessage
import Wschat.PyHandlers
import Wschat.RustMessage

/-! What the Python server broadcasts for a frame that it accepts. Contents that are absent or
null come out as null, and half of a surrogate pair as an escape of its own. The C++ and the
Rust decoder reject both. -/
namespace Wschat.Py

/-- The contents a frame stands for. -/
def contentsOf (d : Json Str) : Str :=
  match d.get? "contents" with
  | some (.str s) => s
  | _ => ""

/-- Every half of a surrogate pair has the other half. -/
def Str.Paired (s : Str) : Prop := ∃ t : String, utf16 t = s.units

/-- The message `chat` that is broadcast for the frame `d` is one with these contents, for the
decoders of its text too. `now` is the clock and `residue` what the C++ message holds before. -/
structure Conforms (lib : JsonModule) (d : Json Str) (chat : Message) (now : Int)
    (nlohmann : Cpp.Nlohmann) (serdeJson : Rust.SerdeJson) (residue : Int64) : Prop where
  sender : ∃ s, (toDict chat).get? "sender" = some (.str s)
  action : ∃ s, (toDict chat).get? "action" = some (.str s)
  contents : (toDict chat).get? "contents" = some (.str (contentsOf d))
  timestamp : ∃ n, (toDict chat).get? "timestamp" = some (.int n)
  cpp : ∃ msg, Cpp.deserialize nlohmann (toJson lib chat) residue = .ok msg ∧
    utf16 msg.contents = (contentsOf d).units
  rust : 0 ≤ now → now < 2^64 → ∃ msg, Rust.fromStr serdeJson (toJson lib chat) = some msg ∧
    utf16 msg.contents = (contentsOf d).units

/-- The round of the receive loop for a frame that is accepted. -/
theorem receive_calls (env : Env) (s : State) (c : Conn) (frame : String) (now : Int)
    (accepted : fromJson env.lib frame = .ok msg) :
    (s.receive env c now (.text frame)).calls = s.calls ++ [(⟨c,.chat (s.handlers c).chats⟩,
      toJson env.lib (newChat (env.uuid c) msg.contents now))] := by
  simp only [State.receive,accepted,State.broadcastMsg]
  exact advance_calls (loop_advance _ _ _ _ _)

theorem expectStr_ok (read : expectStr key value = .ok held) :
    (∃ s, value = some (.str s) ∧ held = some s) ∨
      (∀ s, value ≠ some (.str s)) ∧ held = none := by
  unfold expectStr at read
  split at read
  · exact .inr ⟨by simp,(Except.ok.inj read).symm⟩
  · exact .inr ⟨by simp,(Except.ok.inj read).symm⟩
  · next s => exact .inl ⟨s,rfl,(Except.ok.inj read).symm⟩
  · contradiction

/-- The contents of an accepted frame: its string, or none. -/
theorem fromDict_contents (accepted : fromDict d = .ok msg) :
    (∃ s, d.get? "contents" = some (.str s) ∧ msg.contents = some s) ∨
      (∀ s, d.get? "contents" ≠ some (.str s)) ∧ msg.contents = none := by
  unfold fromDict at accepted
  split at accepted
  · obtain ⟨sender,-,read⟩ := bind_ok accepted
    obtain ⟨action,-,read⟩ := bind_ok read
    obtain ⟨contents,contentsRead,read⟩ := bind_ok read
    obtain ⟨timestamp,-,read⟩ := bind_ok read
    obtain ⟨known,-,read⟩ := bind_ok read
    obtain rfl := Except.ok.inj read
    exact expectStr_ok contentsRead
  · contradiction

section Decoders

variable {lib : JsonModule} {text : Str} {s uuid : String} {now : Int}

/-- The object that the other libraries read in the text of a chat. -/
def chatObject (uuid s : String) (now : Int) : Json :=
  .obj [("sender",.str uuid),("action",.str "chat"),("contents",.str s),("timestamp",.int now)]

theorem parse_chat {parse : String → Option Json} (law : ParsesDumps lib parse) (uuid : String)
    (text : Str) (now : Int) :
    parse (toJson lib (newChat uuid (some text) now)) =
      text.decode?.map fun s => chatObject uuid s now := by
  refine (law _).trans ((traverse_toDict uuid .chat (some text) now).trans ?_)
  simp only [dumpStr,Json.traverse,Option.map_map]
  rfl

theorem cpp_chat (nlohmann : Cpp.Nlohmann) (residue : Int64)
    (parsed : nlohmann.parse frame = some (chatObject uuid s now)) :
    ∃ msg, Cpp.deserialize nlohmann frame residue = .ok msg ∧ msg.contents = s := by
  obtain ⟨t,read⟩ : ∃ t, Cpp.asInt64 nlohmann "timestamp" (.int now) = .ok t := by
    simp only [Cpp.asInt64]
    split
    · exact ⟨_,rfl⟩
    · exact ⟨_,rfl⟩
  exact ⟨⟨uuid,.chat,s,t⟩,by simp [Cpp.deserialize,parsed,Cpp.fromJson,chatObject,Json.isObject,
    Cpp.at_,Cpp.ifContains,Cpp.asString,Cpp.actionFromString,read,bind,Except.bind,pure,
    Except.pure],rfl⟩

theorem rust_chat (serdeJson : Rust.SerdeJson) (low : 0 ≤ now) (high : now < 2^64)
    (parsed : serdeJson.parse frame = some (chatObject uuid s now)) :
    ∃ msg, Rust.fromStr serdeJson frame = some msg ∧ msg.contents = s := by
  have read : Rust.asU64 (.int now) = some (.ofNat now.toNat) := if_pos ⟨low,high⟩
  exact ⟨⟨uuid,.chat,s,.ofNat now.toNat⟩,by simp [Rust.fromStr,parsed,Rust.deserialize,chatObject,
    Rust.visitMap,Rust.assign,Rust.asString,Rust.asAction,Rust.Action.fromStr,read,
    Rust.Fields.build],rfl⟩

end Decoders

section Broadcast

variable {lib : JsonModule} {d : Json Str} {uuid : String} {now : Int} {nlohmann : Cpp.Nlohmann}
  {serdeJson : Rust.SerdeJson} {residue : Int64}

/-- A chat with contents of characters is a message for all four servers. -/
theorem chat_conforms (cpp : ParsesDumps lib nlohmann.parse) (rust : ParsesDumps lib serdeJson.parse)
    (same : contentsOf d = text) (paired : text.Paired) :
    Conforms lib d (newChat uuid (some text) now) now nlohmann serdeJson residue := by
  obtain ⟨s,units⟩ := paired
  have decoded := (Str.decode?_iff text s).mpr units
  have parsed {parse : String → Option Json} (law : ParsesDumps lib parse) :
      parse (toJson lib (newChat uuid (some text) now)) = some (chatObject uuid s now) := by
    rw [parse_chat law,decoded]
    rfl
  refine ⟨⟨uuid,by simp [toDict,newChat,dumpStr]⟩,⟨"chat",by simp [toDict,newChat,Action.str]⟩,
    by simp [toDict,newChat,dumpStr,same],⟨now,by simp [toDict,newChat,dumpInt]⟩,?_,?_⟩
  · obtain ⟨msg,read,contents⟩ := cpp_chat nlohmann residue (parsed cpp)
    exact ⟨msg,read,by rw [contents,same,units]⟩
  · intro low high
    obtain ⟨msg,read,contents⟩ := rust_chat serdeJson low high (parsed rust)
    exact ⟨msg,read,by rw [contents,same,units]⟩

/-- The C++ decoder rejects a text with half of a pair. -/
theorem paired_of_conforms (cpp : ParsesDumps lib nlohmann.parse)
    (conforms : Conforms lib d (newChat uuid (some text) now) now nlohmann serdeJson residue) :
    text.Paired := by
  obtain ⟨msg,read,-⟩ := conforms.cpp
  cases decoded : text.decode? with
  | some s => exact ⟨s,(Str.decode?_iff text s).mp decoded⟩
  | none =>
    have parsed := parse_chat cpp uuid text now
    simp [Cpp.deserialize,parsed,decoded] at read

end Broadcast

/-- Over every round of the receive loop for a frame that is accepted. -/
theorem conforms_iff (env : Env) (s : State) (c : Conn) (frame : String) (d : Json Str) (msg : Message)
    (now : Int) (nlohmann : Cpp.Nlohmann) (serdeJson : Rust.SerdeJson) (residue : Int64)
    (loaded : env.lib.loads frame = .ok d) (accepted : fromJson env.lib frame = .ok msg)
    (cpp : ParsesDumps env.lib nlohmann.parse) (rust : ParsesDumps env.lib serdeJson.parse) :
    (s.receive env c now (.text frame)).calls = s.calls ++ [(⟨c,.chat (s.handlers c).chats⟩,
      toJson env.lib (newChat (env.uuid c) msg.contents now))] ∧
    (Conforms env.lib d (newChat (env.uuid c) msg.contents now) now nlohmann serdeJson residue ↔
      ∃ text, d.get? "contents" = some (.str text) ∧ text.Paired) := by
  refine ⟨receive_calls env s c frame now accepted,?_⟩
  have read : fromDict d = .ok msg := by
    simpa [fromJson,loaded,bind,Except.bind] using accepted
  rcases fromDict_contents read with ⟨text,found,contents⟩ | ⟨other,contents⟩
  · rw [contents]
    constructor
    · intro conforms
      exact ⟨text,found,paired_of_conforms cpp conforms⟩
    · rintro ⟨text',found',paired⟩
      obtain rfl : text = text' := by simpa [found] using found'
      exact chat_conforms cpp rust (by simp [contentsOf,found]) paired
  · rw [contents]
    apply iff_of_false
    · intro conforms
      have shown := conforms.contents
      simp [toDict,newChat,dumpStr] at shown
    · rintro ⟨text,found,-⟩
      exact other text found

section Frames

/-- A chat with contents, one without, and one with half of a surrogate pair. -/
def spoken : List (String × Json) := [("action",.str "chat"),("contents",.str "a")]

def unspoken : List (String × Json) := [("action",.str "chat")]

def halved : String := "\x7b\"action\":\"chat\",\"contents\":\"\\ud800\"\x7d"

theorem numbered_loads (members : List (String × Json)) (scalar : ∀ member ∈ members, member.2.Scalar) :
    Env.numbered.lib.loads (Json.print Json.compact (.obj members)) =
      .ok ((Json.obj members).map Str.ofString) :=
  loads_strict (Json.parse_write Json.compact members scalar)

def half : Str := ⟨[⟨0xd800,by decide⟩]⟩

def halvedMembers : List (Str × Json Str) :=
  [(Str.ofString "action",.str "chat"),(Str.ofString "contents",.str half)]

/-- The value is the object of `halvedMembers`. -/
def isHalved : Json Str → Bool
  | .obj [(key,.str s),(key',.str s')] =>
    decide (key = "action" ∧ s = "chat" ∧ key' = "contents" ∧ s' = half)
  | _ => false

theorem eq_of_isHalved (read : isHalved j = true) : j = .obj halvedMembers := by
  unfold isHalved at read
  split at read
  · obtain ⟨rfl,rfl,rfl,rfl⟩ := of_decide_eq_true read
    rfl
  · contradiction

theorem halved_parse : (reader.parse halved).any isHalved = true := by
  decide +kernel

theorem halved_loads : Env.numbered.lib.loads halved = .ok (.obj halvedMembers) := by
  obtain ⟨j,parsed,read⟩ := (Option.any_eq_true _ _).mp halved_parse
  simp only [Env.numbered,jsonModule,parsed,eq_of_isHalved read]

theorem spoken_conforms : Conforms jsonModule ((Json.obj spoken).map Str.ofString)
    (newChat "0" (some "a") 1) 1 Cpp.nlohmann Rust.serdeJson 0 := by
  have loaded := numbered_loads spoken (by simp [spoken,Json.Scalar])
  have accepted : fromJson Env.numbered.lib (Json.print Json.compact (.obj spoken)) =
      .ok ⟨none,.chat,some "a",none⟩ := by
    rw [fromJson,loaded]
    rfl
  have result := (conforms_iff .numbered start 0 _ _ _ 1 Cpp.nlohmann Rust.serdeJson 0 loaded accepted
    parse_dumps parse_dumps).2
  exact result.mpr ⟨"a",rfl,"a",by simp⟩

/-- The chat for the frame that is read as `d` does not conform. -/
def Strays (frame : String) (d : Json Str) : Prop :=
  ∃ msg, Env.numbered.lib.loads frame = .ok d ∧ fromJson Env.numbered.lib frame = .ok msg ∧
    ¬Conforms jsonModule d (newChat (Env.numbered.uuid 0) msg.contents 1) 1 Cpp.nlohmann Rust.serdeJson 0

/-- Contents that are absent come out as null, and half of a pair unreadable. -/
theorem unspoken_null :
    Strays (Json.print Json.compact (.obj unspoken)) ((Json.obj unspoken).map Str.ofString) ∧
      Strays halved (.obj halvedMembers) := by
  constructor
  · have loaded := numbered_loads unspoken (by simp [unspoken,Json.Scalar])
    refine ⟨⟨none,.chat,none,none⟩,loaded,?_,?_⟩
    · rw [fromJson,loaded]
      rfl
    · intro conforms
      have shown := conforms.contents
      simp [toDict,newChat,dumpStr] at shown
  · refine ⟨⟨none,.chat,some half,none⟩,halved_loads,?_,?_⟩
    · rw [fromJson,halved_loads]
      rfl
    · intro conforms
      obtain ⟨t,units⟩ := paired_of_conforms parse_dumps conforms
      have decoded := (Str.decode?_iff half t).mpr units
      contradiction

end Frames

end Wschat.Py
