import Wschat.Utf16
import Wschat.UnitJson
import Wschat.RustCodec
import Wschat.PyMessage

/-! The texts that the four servers send: the members in the order of each encoder, and the
spacing and the escapes of its library. A string is its UTF-16 code units, as the browser
has it. -/
namespace Wschat

open UnitJson

inductive Server where
  | cpp
  | rust
  | py
  | go
  deriving DecidableEq, Repr

/-- A message as its sender means it. -/
structure Chat where
  sender : List UInt16
  action : Rust.Action
  contents : List UInt16
  timestamp : UInt64

/-- A member's value. -/
inductive Field where
  | text (s : List UInt16)
  | integer (n : Nat)
  deriving DecidableEq, Repr

namespace Rust.Action

def py : Action → Py.Action
  | .connect => .connect
  | .chat => .chat
  | .disconnect => .disconnect
  | .error => .error

end Rust.Action

namespace Server

/-- Each server has its own table of actions. -/
def actionStr (server : Server) (action : Rust.Action) : String :=
  match server with
  | .cpp => Cpp.actionStr action.cpp
  | .rust => action.asStr
  | .py => action.py.str
  | .go => action.go.str

/-- A string member that the Go server leaves out when it is empty. -/
def omitempty (key : String) (s : List UInt16) : List (String × List UInt16) :=
  if s = [] then [] else [(key,s)]

/-- The members before the timestamp. -/
def strings (server : Server) (msg : Chat) : List (String × List UInt16) :=
  let action := units (server.actionStr msg.action)
  match server with
  | .cpp => [("action",action),("contents",msg.contents),("sender",msg.sender)]
  | .rust | .py => [("sender",msg.sender),("action",action),("contents",msg.contents)]
  | .go => omitempty "sender" msg.sender ++ ("action",action) :: omitempty "contents" msg.contents

def timestamp (server : Server) (msg : Chat) : Option Nat :=
  match server with
  | .go => if msg.timestamp = 0 then none else some msg.timestamp.toNat
  | _ => some msg.timestamp.toNat

/-- The members of the encoded object. -/
def fields (server : Server) (msg : Chat) : List (String × Field) :=
  (server.strings msg).map (fun m => (m.1,.text m.2)) ++
    (server.timestamp msg).toList.map fun n => ("timestamp",.integer n)

end Server

def hexChar (n : UInt16) : UInt16 := if n < 10 then unit '0' + n else 87 + n

def escapeUnicode (u : UInt16) : List UInt16 :=
  [unit '\\',unit 'u',hexChar (u / 4096),hexChar (u / 256 % 16),hexChar (u / 16 % 16),hexChar (u % 16)]

/-- The escapes of a library: those of one letter that it uses, and which of the code units
it could leave as they are it writes as `\u` and four digits. -/
def escapeWith (short : List Char) (long : UInt16 → Bool) (u : UInt16) : List UInt16 :=
  match short.find? fun e => decide (shortEscape (unit e) = some u) with
  | some e => [unit '\\',unit e]
  | none => if u < 0x20 ∨ long u then escapeUnicode u else [u]

theorem hexDigit_hexChar (n : UInt16) (small : n < 16) : hexDigit (hexChar n) = some n := by
  have all : ∀ m < 16, hexDigit (hexChar (UInt16.ofNat m)) = some (UInt16.ofNat m) := by decide
  have here := all n.toNat (UInt16.lt_iff_toNat_lt.mp small)
  rwa [UInt16.ofNat_toNat] at here

theorem hexQuad_escapeUnicode (u : UInt16) :
    hexQuad (hexChar (u / 4096)) (hexChar (u / 256 % 16)) (hexChar (u / 16 % 16)) (hexChar (u % 16)) =
      some u := by
  have size := u.toNat_lt
  have digit (v : UInt16) : hexDigit (hexChar (v % 16)) = some (v % 16) :=
    hexDigit_hexChar _ (UInt16.lt_iff_toNat_lt.mpr (by simp; omega))
  have top : hexDigit (hexChar (u / 4096)) = some (u / 4096) :=
    hexDigit_hexChar _ (UInt16.lt_iff_toNat_lt.mpr (by simp; omega))
  have sum : (u / 4096 * 16 + u / 256 % 16) * 256 + u / 16 % 16 * 16 + u % 16 = u := by
    apply UInt16.toNat_inj.mp
    simp
    omega
  simp [hexQuad,top,digit,sum]

theorem escapeWith_escapes (short : List Char) (long : UInt16 → Bool) (quote : '"' ∈ short)
    (slash : '\\' ∈ short) (u : UInt16) : Escapes u (escapeWith short long u) := by
  unfold escapeWith
  split
  · next e found =>
    exact .short _ (by simpa using List.find?_some found)
  · next none_ =>
    split
    · exact .unicode _ _ _ _ (hexQuad_escapeUnicode u)
    · next plain =>
      have unnamed := List.find?_eq_none.mp none_
      refine .plain (fun low => plain (.inl low)) ?_ ?_
      · rintro rfl
        exact unnamed _ quote (by decide)
      · rintro rfl
        exact unnamed _ slash (by decide)

namespace Server

/-- `dump()` and `serde_json::to_string` write no spaces, and escape what they must. -/
def compact : Style where
  comma := []
  colon := []
  escape := escapeWith ['"','\\','b','f','n','r','t'] fun _ => false
  blanks := by simp
  escapes := escapeWith_escapes _ _ (by decide) (by decide)

/-- `json.dumps` has a space after commas and colons, and writes ASCII only. -/
def dumps : Style where
  comma := [unit ' ']
  colon := [unit ' ']
  escape := escapeWith ['"','\\','b','f','n','r','t'] fun u => 0x7e < u
  blanks := by simp [isBlank]
  escapes := escapeWith_escapes _ _ (by decide) (by decide)

/-- `json.Marshal` also escapes what HTML and JavaScript would read otherwise. -/
def marshal : Style where
  comma := []
  colon := []
  escape := escapeWith ['"','\\','n','r','t'] fun u =>
    u = unit '<' || u = unit '>' || u = unit '&' || u = 0x2028 || u = 0x2029
  blanks := by simp
  escapes := escapeWith_escapes _ _ (by decide) (by decide)

def style : Server → Style
  | .cpp | .rust => compact
  | .py => dumps
  | .go => marshal

end Server

/-- The digits of a number, as ASCII. -/
def writeNat (n : Nat) : List UInt16 := (Nat.toDigits 10 n).map unit

/-- The timestamp, with the comma before it. -/
def stamp (style : Style) (n : Nat) : List UInt16 :=
  unit ',' :: style.comma ++ writeKey "timestamp" ++ unit ':' :: style.colon ++ writeNat n

/-- The object with the string members `ms`, and the timestamp last. -/
def writeMessage (style : Style) (ms : List (String × List UInt16)) (timestamp : Option Nat) :
    List UInt16 :=
  match timestamp with
  | none => writeObject style ms
  | some n => unit '\x7b' :: writeMembers style ms ++ stamp style n ++ [unit '\x7d']

def Server.encode (server : Server) (msg : Chat) : List UInt16 :=
  writeMessage server.style (server.strings msg) (server.timestamp msg)

section Members

/-- A member's value as the server has it, with strings of these code units. -/
inductive Written (units : σ → List UInt16) : Json σ → Field → Prop where
  | text (s : σ) : Written units (.str s) (.text (units s))
  | integer (n : Nat) : Written units (.int n) (.integer n)

/-- The object a server builds has the members of the encoded one, in their order. -/
def Emits (units : σ → List UInt16) (server : Server) (j : Json σ) (msg : Chat) : Prop :=
  ∃ ms, j = .obj ms ∧
    List.Forall₂ (fun m f => units m.1 = utf16 f.1 ∧ Written units m.2 f.2) ms (server.fields msg)

theorem utf16_action (server : Server) (action : Rust.Action) :
    utf16 (server.actionStr action) = units (server.actionStr action) := by
  cases server <;> cases action <;> rfl

theorem written_action (server : Server) (action : Rust.Action) :
    Written utf16 (.str (server.actionStr action)) (.text (units (server.actionStr action))) := by
  rw [← utf16_action]
  exact .text _

theorem cpp_emits (sender contents : String) (action : Rust.Action) (n : UInt64) (now : Int64)
    (same : now.toInt = n.toNat) :
    Emits utf16 .cpp (Cpp.toJson ⟨sender,action.cpp,contents,now⟩) ⟨utf16 sender,action,utf16 contents,n⟩ := by
  refine ⟨_,rfl,?_⟩
  simp only [same]
  exact .cons ⟨rfl,written_action .cpp action⟩ (.cons ⟨rfl,.text _⟩ (.cons ⟨rfl,.text _⟩
    (.cons ⟨rfl,.integer _⟩ .nil)))

theorem rust_emits (msg : Rust.Message) : Emits utf16 .rust (Rust.serialize msg)
    ⟨utf16 msg.sender,msg.action,utf16 msg.contents,msg.timestamp⟩ :=
  ⟨_,rfl,.cons ⟨rfl,.text _⟩ (.cons ⟨rfl,written_action .rust msg.action⟩ (.cons ⟨rfl,.text _⟩
    (.cons ⟨rfl,.integer _⟩ .nil)))⟩

theorem py_emits (sender contents : Py.Str) (action : Rust.Action) (n : UInt64) :
    Emits Py.Str.units .py (Py.toDict ⟨some sender,action.py,some contents,some n.toNat⟩)
      ⟨sender.units,action,contents.units,n⟩ := by
  have key (s : String) : (Py.Str.ofString s).units = utf16 s := Py.Str.units_ofString s
  have known : Written Py.Str.units (.str (Py.Str.ofString action.py.str))
      (.text (units (Server.actionStr .py action))) := by
    rw [← utf16_action,← key]
    exact .text _
  exact ⟨_,rfl,.cons ⟨key _,.text _⟩ (.cons ⟨key _,known⟩ (.cons ⟨key _,.text _⟩
    (.cons ⟨key _,.integer _⟩ .nil)))⟩

theorem go_emits (sender contents : String) (action : Rust.Action) (n : UInt64) (now : Int64)
    (same : now.toInt = n.toNat) :
    Emits utf16 .go (Go.marshalJson ⟨sender,some action.go,contents,now⟩)
      ⟨utf16 sender,action,utf16 contents,n⟩ := by
  have zero : now = 0 ↔ n = 0 := by
    rw [← Int64.toInt_inj,← UInt64.toNat_inj,same]
    simp
  have written := written_action .go action
  refine ⟨_,rfl,?_⟩
  by_cases s : sender = "" <;> by_cases c : contents = "" <;> by_cases t : n = 0 <;>
    simp [Server.fields,Server.strings,Server.timestamp,Server.omitempty,Go.omitempty,utf16_eq_nil,
      zero,s,c,t,same,Go.marshalAction,Written.text,Written.integer] <;>
    exact written

end Members

end Wschat
