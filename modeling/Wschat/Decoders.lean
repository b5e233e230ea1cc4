import Mathlib.Data.List.Nodup
import Wschat.CppMessage
import Wschat.GoDecode
import Wschat.PyMessage
import Wschat.RustMessage

/-! The four decoders on one frame: an object with a string `contents` in which the other
three members may be missing. C++ and Rust ask for the sender, Python for the action, and Go
also reads members whose names differ in case. -/
namespace Wschat

def actions : List String := ["connect","chat","disconnect","error"]

/-- A member under one of the four names holds a value of its type. -/
structure Typed (key : String) (value : Json) : Prop where
  sender : key = "sender" → ∃ s, value = .str s
  action : key = "action" → ∃ s ∈ actions, value = .str s
  contents : key = "contents" → ∃ s, value = .str s
  timestamp : key = "timestamp" → ∃ n : Int, value = .int n ∧ 0 ≤ n ∧ n < 2^63

structure Frame where
  members : List (String × Json)
  distinct : (members.map Prod.fst).Nodup
  typed : ∀ member ∈ members, Typed member.1 member.2
  contents : String
  present : ("contents",.str contents) ∈ members

namespace Frame

variable (f : Frame)

def Has (key : String) : Prop := key ∈ f.members.map Prod.fst

/-- Every member whose name folds to one of the four can be stored, and the last string
under a name that folds to `contents` is the frame's. -/
def FoldsAlike : Prop :=
  (∀ member ∈ f.members, Go.storable member.1 member.2 = true) ∧
    (f.members.filterMap Go.contentsOf).getLast? = some f.contents

theorem has_or (key : String) : (∃ value, (key,value) ∈ f.members) ∧ f.Has key ∨
    Json.lastMember key f.members = none ∧ ¬f.Has key := by
  by_cases has : f.Has key
  · obtain ⟨⟨name,value⟩,inside,rfl⟩ := List.mem_map.mp has
    exact .inl ⟨⟨value,inside⟩,has⟩
  · exact .inr ⟨Json.lastMember_absent has,has⟩

theorem lastMember_contents : Json.lastMember "contents" f.members = some (.str f.contents) :=
  Json.lastMember_of_mem f.distinct f.present

theorem lastMember_sender : (∃ s, Json.lastMember "sender" f.members = some (.str s)) ∧ f.Has "sender" ∨
    Json.lastMember "sender" f.members = none ∧ ¬f.Has "sender" := by
  rcases f.has_or "sender" with ⟨⟨value,inside⟩,has⟩ | absent
  · obtain ⟨s,rfl⟩ := (f.typed _ inside).sender rfl
    exact .inl ⟨⟨s,Json.lastMember_of_mem f.distinct inside⟩,has⟩
  · exact .inr absent

theorem lastMember_action :
    (∃ s ∈ actions, Json.lastMember "action" f.members = some (.str s)) ∧ f.Has "action" ∨
      Json.lastMember "action" f.members = none ∧ ¬f.Has "action" := by
  rcases f.has_or "action" with ⟨⟨value,inside⟩,has⟩ | absent
  · obtain ⟨s,known,rfl⟩ := (f.typed _ inside).action rfl
    exact .inl ⟨⟨s,known,Json.lastMember_of_mem f.distinct inside⟩,has⟩
  · exact .inr absent

theorem lastMember_timestamp :
    (∃ n : Int, Json.lastMember "timestamp" f.members = some (.int n) ∧ 0 ≤ n ∧ n < 2^63) ∨
      Json.lastMember "timestamp" f.members = none := by
  rcases f.has_or "timestamp" with ⟨⟨value,inside⟩,-⟩ | absent
  · obtain ⟨n,rfl,low,high⟩ := (f.typed _ inside).timestamp rfl
    exact .inl ⟨n,Json.lastMember_of_mem f.distinct inside,low,high⟩
  · exact .inr absent.1

end Frame

/-- The JSON libraries of the four servers. -/
structure Libraries where
  cpp : Cpp.Nlohmann
  rust : Rust.SerdeJson
  go : Go.EncodingJson
  py : Py.JsonModule

/-- The text is one of `j` for every library. -/
structure Libraries.Parse (libs : Libraries) (text : String) (j : Json) : Prop where
  cpp : libs.cpp.parse text = some j
  rust : libs.rust.parse text = some j
  go : libs.go.parse text = some j
  py : libs.py.loads text = .ok (j.map Py.Str.ofString)

/-- All four decoders accept the text and read these contents from it. `residue` and `held`
are what the C++ and the Go message hold before. -/
structure AcceptedAlike (libs : Libraries) (text contents : String) (residue : Int64)
    (held : Go.Message) : Prop where
  cpp : ∃ msg, Cpp.deserialize libs.cpp text residue = .ok msg ∧ msg.contents = contents
  rust : ∃ msg, Rust.fromStr libs.rust text = some msg ∧ msg.contents = contents
  go : ∃ msg, Go.unmarshal libs.go text held = (msg,none) ∧ msg.contents = contents
  py : ∃ msg, Py.fromJson libs.py text = .ok msg ∧ msg.contents = some (Py.Str.ofString contents)

theorem cpp_accepts_iff (f : Frame) (lib : Cpp.Nlohmann) (text : String) (residue : Int64)
    (parsed : lib.parse text = some (.obj f.members)) :
    (∃ msg, Cpp.deserialize lib text residue = .ok msg ∧ msg.contents = f.contents) ↔
      f.Has "sender" := by
  simp only [Cpp.deserialize,parsed]
  constructor
  · rintro ⟨msg,read,-⟩
    have sender := (Cpp.fromJson_ok lib _ residue msg read).sender
    exact List.mem_map.mpr ⟨_,Json.mem_of_lastMember sender,rfl⟩
  · intro has
    rcases f.lastMember_sender with ⟨⟨s,sender⟩,-⟩ | ⟨-,absent⟩
    case inr => exact absurd has absent
    have action : ∃ a, Cpp.ifContains "action" (.obj f.members) .chat (fun value => do
        Cpp.actionFromString (← Cpp.asString "action" value)) = .ok a := by
      rcases f.lastMember_action with ⟨⟨s,known,found⟩,-⟩ | ⟨none,-⟩
      · simp only [actions,List.mem_cons,List.not_mem_nil,or_false] at known
        rcases known with rfl | rfl | rfl | rfl <;> exact ⟨_,by simp [Cpp.ifContains,found]; rfl⟩
      · exact ⟨.chat,by simp [Cpp.ifContains,none]⟩
    have timestamp : ∃ t, Cpp.ifContains "timestamp" (.obj f.members) residue
        (Cpp.asInt64 lib "timestamp") = .ok t := by
      rcases f.lastMember_timestamp with ⟨n,found,low,high⟩ | none
      · refine ⟨.ofInt n,?_⟩
        simp only [Cpp.ifContains,Json.get?_obj,found,Cpp.asInt64]
        rw [if_pos ⟨by omega,by omega⟩]
      · exact ⟨residue,by simp [Cpp.ifContains,none]⟩
    obtain ⟨a,action⟩ := action
    obtain ⟨t,timestamp⟩ := timestamp
    refine ⟨⟨s,a,f.contents,t⟩,?_,rfl⟩
    simp only [Cpp.fromJson,Json.isObject,if_true,Cpp.at_,Json.get?_obj,sender,action,timestamp]
    simp [Cpp.asString,Cpp.ifContains,f.lastMember_contents,bind,Except.bind,pure,Except.pure]

theorem py_accepts_iff (f : Frame) (lib : Py.JsonModule) (text : String)
    (parsed : lib.loads text = .ok ((Json.obj f.members).map Py.Str.ofString)) :
    (∃ msg, Py.fromJson lib text = .ok msg ∧ msg.contents = some (Py.Str.ofString f.contents)) ↔
      f.Has "action" := by
  have get (key : String) : ((Json.obj f.members).map Py.Str.ofString).get? (Py.Str.ofString key) =
      (Json.lastMember key f.members).map (Json.map Py.Str.ofString) :=
    Json.get?_map Py.Str.ofString_injective key _
  have sender : ∃ s, Py.expectStr "sender"
      ((Json.lastMember "sender" f.members).map (Json.map Py.Str.ofString)) = .ok s := by
    rcases f.lastMember_sender with ⟨⟨s,found⟩,-⟩ | ⟨absent,-⟩
    · exact ⟨some s,by rw [found]; rfl⟩
    · exact ⟨none,by rw [absent]; rfl⟩
  have timestamp : ∃ t, Py.expectInt "timestamp"
      ((Json.lastMember "timestamp" f.members).map (Json.map Py.Str.ofString)) = .ok t := by
    rcases f.lastMember_timestamp with ⟨n,found,-,-⟩ | absent
    · exact ⟨some n,by rw [found]; rfl⟩
    · exact ⟨none,by rw [absent]; rfl⟩
  obtain ⟨s,sender⟩ := sender
  obtain ⟨t,timestamp⟩ := timestamp
  have contents : Py.expectStr "contents"
      ((Json.lastMember "contents" f.members).map (Json.map Py.Str.ofString)) =
      .ok (some (Py.Str.ofString f.contents)) := by rw [f.lastMember_contents]; rfl
  have object : (Json.obj f.members).isObject = true := rfl
  simp only [Py.fromJson,parsed,Py.fromDict,Json.isObject_map,object,if_true,get,sender,timestamp,contents,bind,
    Except.bind]
  rcases f.lastMember_action with ⟨⟨action,known,found⟩,has⟩ | ⟨missing,absent⟩
  · have read : Py.expectStr "action" (some (Json.map Py.Str.ofString (.str action))) =
        .ok (some (Py.Str.ofString action)) := rfl
    simp only [found,has,iff_true,Option.map_some,read]
    simp only [actions,List.mem_cons,List.not_mem_nil,or_false] at known
    rcases known with rfl | rfl | rfl | rfl <;>
      exact ⟨⟨s,_,some (Py.Str.ofString f.contents),t⟩,rfl,rfl⟩
  · have read : Py.expectStr "action" none = .ok none := rfl
    simp [missing,absent,read,Py.setAction]

theorem contents_some (f : Frame) : f.contents ∈ f.members.filterMap Go.contentsOf := by
  exact List.mem_filterMap.mpr ⟨_,f.present,by simp [Go.contentsOf]⟩

theorem go_accepts_iff (f : Frame) (lib : Go.EncodingJson) (text : String) (held : Go.Message)
    (parsed : lib.parse text = some (.obj f.members)) :
    (∃ msg, Go.unmarshal lib text held = (msg,none) ∧ msg.contents = f.contents) ↔
      f.FoldsAlike := by
  simp only [Go.unmarshal,parsed]
  have accepts := Go.storeMembers_accepts f.members held false
  constructor
  · rintro ⟨msg,read,same⟩
    have accepted : (Go.storeMembers f.members held false).2 = none := by rw [read]
    have left := Go.storeMembers_contents f.members held false accepted
    refine ⟨(accepts.mp accepted).2,?_⟩
    rw [read,same] at left
    have last := List.getLast?_eq_some_getLast (List.ne_nil_of_mem (contents_some f))
    rw [last] at left
    exact last.trans (congrArg some left.symm)
  · rintro ⟨fits,last⟩
    have accepted := accepts.mpr ⟨rfl,fits⟩
    refine ⟨_,Prod.ext rfl accepted,?_⟩
    rw [Go.storeMembers_contents _ _ _ accepted,last]
    rfl

/-- The derived `visit_map` has read no member under the name yet. -/
structure Lacks (fields : Rust.Fields) (key : String) : Prop where
  sender : key = "sender" → fields.sender = none
  action : key = "action" → fields.action = none
  contents : key = "contents" → fields.contents = none
  timestamp : key = "timestamp" → fields.timestamp = none

theorem asAction_known (known : s ∈ actions) : ∃ a, Rust.asAction (.str s) = some a := by
  simp only [actions,List.mem_cons,List.not_mem_nil,or_false] at known
  rcases known with rfl | rfl | rfl | rfl <;> exact ⟨_,rfl⟩

/-- `visit_map` reads an object whose members have their types and distinct names. -/
theorem visitMap_reads (members : List (String × Json)) (distinct : (members.map Prod.fst).Nodup)
    (typed : ∀ member ∈ members, Typed member.1 member.2) (fields : Rust.Fields)
    (lacks : ∀ member ∈ members, Lacks fields member.1) :
    ∃ out, Rust.visitMap members fields = some out ∧
      out.sender = ((Json.lastMember "sender" members).bind Rust.asString).or fields.sender ∧
      out.contents = ((Json.lastMember "contents" members).bind Rust.asString).or fields.contents := by
  induction members generalizing fields with
  | nil => exact ⟨fields,rfl,by simp,by simp⟩
  | cons member members ih =>
    obtain ⟨key,value⟩ := member
    obtain ⟨absent,rest⟩ := List.nodup_cons.mp distinct
    obtain ⟨here,others⟩ := List.forall_mem_cons.mp typed
    obtain ⟨fresh,free⟩ := List.forall_mem_cons.mp lacks
    have apart : ∀ member ∈ members, member.1 ≠ key := by
      intro member inside same
      exact absent (List.mem_map.mpr ⟨member,inside,same⟩)
    have unread := Json.lastMember_absent absent
    simp only [Rust.visitMap]
    split
    · next named =>
      subst named
      obtain ⟨s,rfl⟩ := here.sender rfl
      obtain ⟨out,read,sender,contents⟩ := ih rest others { fields with sender := some s }
        fun member inside => ⟨fun same => absurd same (apart member inside),
          (free member inside).action,(free member inside).contents,(free member inside).timestamp⟩
      refine ⟨out,by simpa [fresh.sender rfl,Rust.assign,Rust.asString] using read,?_,?_⟩
      · simp [sender,unread,Rust.asString]
      · simpa using contents
    · split
      · next named =>
        subst named
        obtain ⟨s,known,rfl⟩ := here.action rfl
        obtain ⟨a,action⟩ := asAction_known known
        obtain ⟨out,read,sender,contents⟩ := ih rest others { fields with action := some a }
          fun member inside => ⟨(free member inside).sender,
            fun same => absurd same (apart member inside),(free member inside).contents,
            (free member inside).timestamp⟩
        refine ⟨out,by simpa [fresh.action rfl,Rust.assign,action] using read,?_,?_⟩
        · simpa using sender
        · simpa using contents
      · split
        · next named =>
          subst named
          obtain ⟨s,rfl⟩ := here.contents rfl
          obtain ⟨out,read,sender,contents⟩ := ih rest others { fields with contents := some s }
            fun member inside => ⟨(free member inside).sender,(free member inside).action,
              fun same => absurd same (apart member inside),(free member inside).timestamp⟩
          refine ⟨out,by simpa [fresh.contents rfl,Rust.assign,Rust.asString] using read,?_,?_⟩
          · simpa using sender
          · simp [contents,unread,Rust.asString]
        · split
          · next named =>
            subst named
            obtain ⟨n,rfl,low,high⟩ := here.timestamp rfl
            have timestamp : Rust.asU64 (.int n) = some (.ofNat n.toNat) :=
              if_pos ⟨low,by omega⟩
            obtain ⟨out,read,sender,contents⟩ := ih rest others
              { fields with timestamp := some (.ofNat n.toNat) }
              fun member inside => ⟨(free member inside).sender,(free member inside).action,
                (free member inside).contents,fun same => absurd same (apart member inside)⟩
            refine ⟨out,by simpa [fresh.timestamp rfl,Rust.assign,timestamp] using read,?_,?_⟩
            · simpa using sender
            · simpa using contents
          · next notSender notAction notContents notTimestamp =>
            obtain ⟨out,read,sender,contents⟩ := ih rest others fields free
            exact ⟨out,read,by simpa [notSender] using sender,by simpa [notContents] using contents⟩

theorem rust_accepts_iff (f : Frame) (lib : Rust.SerdeJson) (text : String)
    (parsed : lib.parse text = some (.obj f.members)) :
    (∃ msg, Rust.fromStr lib text = some msg ∧ msg.contents = f.contents) ↔ f.Has "sender" := by
  obtain ⟨out,read,sender,contents⟩ := visitMap_reads f.members f.distinct f.typed
    ⟨none,none,none,none⟩ fun _ _ => ⟨fun _ => rfl,fun _ => rfl,fun _ => rfl,fun _ => rfl⟩
  rw [f.lastMember_contents] at contents
  simp only [Rust.fromStr,parsed,Option.bind_some,Rust.deserialize,read,Rust.Fields.build]
  rcases f.lastMember_sender with ⟨⟨s,found⟩,has⟩ | ⟨missing,absent⟩
  · simp [sender,found,has,contents,Rust.asString]
  · simp [sender,missing,absent]

/-- Which frames the four servers agree on. -/
theorem accepted_alike_iff (f : Frame) (libs : Libraries) (text : String) (residue : Int64)
    (held : Go.Message) (parsed : libs.Parse text (.obj f.members)) :
    AcceptedAlike libs text f.contents residue held ↔
      f.Has "sender" ∧ f.Has "action" ∧ f.FoldsAlike := by
  have cpp := cpp_accepts_iff f libs.cpp text residue parsed.cpp
  have rust := rust_accepts_iff f libs.rust text parsed.rust
  have go := go_accepts_iff f libs.go text held parsed.go
  have py := py_accepts_iff f libs.py text parsed.py
  constructor
  · intro alike
    exact ⟨cpp.mp alike.cpp,py.mp alike.py,go.mp alike.go⟩
  · rintro ⟨sender,action,folds⟩
    exact ⟨cpp.mpr sender,rust.mpr sender,go.mpr folds,py.mpr action⟩

/-- What the load client sends: it leaves out the sender and the timestamp. -/
def loadFrame : Frame where
  members := [("action",.str "chat"),("contents",.str "a")]
  distinct := by decide
  typed := by
    intro member inside
    simp at inside
    rcases inside with rfl | rfl <;> constructor <;> simp [actions]
  contents := "a"
  present := by simp

/-- The same frame with its sender. -/
def fullFrame : Frame where
  members := [("sender",.str "0"),("action",.str "chat"),("contents",.str "a")]
  distinct := by decide
  typed := by
    intro member inside
    simp at inside
    rcases inside with rfl | rfl | rfl <;> constructor <;> simp [actions]
  contents := "a"
  present := by simp

def libraries : Libraries := ⟨Cpp.nlohmann,Rust.serdeJson,Go.encodingJson,Py.jsonModule⟩

/-- The text of a frame whose members are scalars, for the four libraries. -/
theorem libraries_parse (members : List (String × Json)) (scalar : ∀ member ∈ members, member.2.Scalar) :
    libraries.Parse (Json.print Json.compact (.obj members)) (.obj members) := by
  have parsed : Json.parse (Json.print Json.compact (.obj members)) = some (.obj members) :=
    Json.parse_write Json.compact members scalar
  exact ⟨parsed,parsed,parsed,Py.loads_strict parsed⟩

theorem fullFrame_accepted : AcceptedAlike libraries
    (Json.print Json.compact (.obj fullFrame.members)) "a" 0 (Go.newSystemMessage .connect "0" 1) := by
  have parsed := libraries_parse fullFrame.members (by simp [fullFrame,Json.Scalar])
  apply (accepted_alike_iff fullFrame libraries _ 0 _ parsed).mpr
  refine ⟨by simp [Frame.Has,fullFrame],by simp [Frame.Has,fullFrame],?_,?_⟩
  · intro member inside
    simp [fullFrame] at inside
    rcases inside with rfl | rfl | rfl <;> decide
  · decide

/-- The C++ decoder asks for the sender. -/
theorem loadFrame_rejected : ¬∀ (f : Frame) libs text residue held,
    libs.Parse text (.obj f.members) → AcceptedAlike libs text f.contents residue held := by
  intro alike
  have parsed := libraries_parse loadFrame.members (by simp [loadFrame,Json.Scalar])
  have cpp := (alike loadFrame libraries _ 0 (Go.newSystemMessage .connect "0" 1) parsed).cpp
  have sender := (cpp_accepts_iff loadFrame libraries.cpp _ 0 parsed.cpp).mp cpp
  simp [Frame.Has,loadFrame] at sender

end Wschat
