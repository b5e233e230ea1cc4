import Wschat.CppMessage
import Wschat.GoMessage
import Wschat.RustMessage
import Wschat.WebClient

/-! What the other decoders make of a message of the Rust server. The encoder spells one
action in a way that nobody reads. -/
namespace Wschat.Rust

namespace Action

/-- The action of the same name. -/
def cpp : Action → Cpp.Action
  | .connect => .connect
  | .chat => .chat
  | .disconnect => .disconnect
  | .error => .error

def go : Action → Go.Action
  | .connect => .connect
  | .chat => .chat
  | .disconnect => .disconnect
  | .error => .error

def web : Action → Web.Case
  | .connect => .connect
  | .chat => .chat
  | .disconnect => .disconnect
  | .error => .error

theorem fromStr_asStr (action : Action) :
    fromStr action.asStr = some action ↔ action ≠ .disconnect := by
  cases action <;> decide

end Action

/-- The encoded message decodes to itself, and the other three read its action. -/
structure Understood (lib : SerdeJson) (msg : Message) : Prop where
  roundTrip : fromStr lib (toString lib msg) = some msg
  others : ∃ str, (serialize msg).get? "action" = some (.str str) ∧
    Cpp.actionFromString str = .ok msg.action.cpp ∧
    Go.unmarshalAction (.str str) = .ok msg.action.go ∧
    Web.switch (.string str) = msg.action.web

theorem asU64_toNat (n : UInt64) : asU64 (.int n.toNat) = some n := by
  have bound := n.toNat_lt
  have inside : (0 : Int) ≤ n.toNat ∧ (n.toNat : Int) < 2^64 := by omega
  rw [asU64,if_pos inside]
  simp

/-- Decoding reads the action back through its own table. -/
theorem fromStr_toString (lib : SerdeJson) (msg : Message) : fromStr lib (toString lib msg) =
    (Action.fromStr msg.action.asStr).map fun action => { msg with action } := by
  rw [fromStr,toString,lib.parse_print,Option.bind_some,serialize,deserialize]
  cases known : Action.fromStr msg.action.asStr <;>
    simp [visitMap,assign,asString,asAction,asU64_toNat,Fields.build,known]

theorem understood_iff (lib : SerdeJson) (msg : Message) :
    Understood lib msg ↔ msg.action ≠ .disconnect := by
  constructor
  · intro understood
    have read := understood.roundTrip
    rw [fromStr_toString] at read
    obtain ⟨action,known,same⟩ := Option.map_eq_some_iff.mp read
    apply (Action.fromStr_asStr msg.action).mp
    rw [known,← same]
  · intro spelt
    have known := (Action.fromStr_asStr msg.action).mpr spelt
    refine ⟨by rw [fromStr_toString,known]; rfl,msg.action.asStr,by simp [serialize],?_⟩
    cases action : msg.action with
    | connect | chat | error => decide
    | disconnect => exact absurd action spelt

/-- The disconnect that the server broadcasts for the client `0`. -/
theorem disconnect_misspelt : ¬∀ lib msg, Understood lib msg := by
  intro understood
  have all := understood serdeJson (.newSystem .disconnect "0" 1)
  exact (understood_iff serdeJson _).mp all rfl

end Wschat.Rust
