import Wschat.CppCauses

/-! What `handle` forwards. It decodes a payload and encodes the same message again, so the
fields of a broadcast are the client's own. -/
namespace Wschat.Cpp

/-- The text decodes to a chat of `uuid` with the contents of the payload and the clock at
its receipt, whatever the storage of the decoder holds. -/
def Authentic (lib : Nlohmann) (uuid : String) (r : Receipt) (bytes : String) : Prop :=
  ∃ sent, deserialize lib r.payload r.residue = .ok sent ∧
    ∀ residue, deserialize lib bytes residue = .ok ⟨uuid,.chat,sent.contents,r.now⟩

/-- The payload itself names its sender and carries the server's clock. -/
def Honest (lib : Nlohmann) (uuid : String) (r : Receipt) : Prop :=
  ∃ j, lib.parse r.payload = some j ∧ j.get? "sender" = some (.str uuid) ∧
    (∀ value, j.get? "action" = some value → value = .str "chat") ∧
    match j.get? "timestamp" with
    | none => r.residue = r.now
    | some value => asInt64 lib "timestamp" value = .ok r.now

theorem actionFromString_chat {sv : String} (read : actionFromString sv = .ok .chat) :
    sv = "chat" := by
  unfold actionFromString at read
  split at read
  · simp at read
  · split at read
    · assumption
    · split at read
      · simp at read
      · split at read <;> simp at read

theorem outcome_broadcast {lib : Nlohmann} {r : Receipt} {text : String}
    (accepted : outcome lib r.payload r.now r.residue = .broadcast text) :
    ∃ j sent, lib.parse r.payload = some j ∧ fromJson lib j r.residue = .ok sent ∧
      deserialize lib r.payload r.residue = .ok sent ∧ text = serialize lib sent := by
  unfold outcome at accepted
  split at accepted
  case h_2 => contradiction
  case h_1 sent decoded =>
    have read := decoded
    unfold deserialize at read
    split at read
    · contradiction
    · next j parsed => exact ⟨j,sent,parsed,read,decoded,(Outcome.broadcast.inj accepted).symm⟩

/-- The decoded fields are those of the payload, so it decides whether they are authentic. -/
theorem decodes_honest {lib : Nlohmann} {j : Json} {r : Receipt} {sent : Message} (uuid : String)
    (parsed : lib.parse r.payload = some j) (read : Decodes lib j r.residue sent) :
    Honest lib uuid r ↔ sent.sender = uuid ∧ sent.action = .chat ∧ sent.timestamp = r.now := by
  obtain ⟨-,sender,action,-,timestamp⟩ := read
  constructor
  · rintro ⟨j',parsed',named,chats,stamped⟩
    obtain rfl := Option.some.inj (parsed'.symm.trans parsed)
    refine ⟨?_,?_,?_⟩
    · simpa [sender] using named
    · rcases action with ⟨-,chat⟩ | ⟨sv,found,known⟩
      · exact chat
      · obtain rfl := Json.str.inj (chats _ found)
        exact (Except.ok.inj known).symm
    · rcases timestamp with ⟨absent,held⟩ | ⟨value,found,read⟩
      · rw [absent] at stamped
        exact held.trans stamped
      · rw [found] at stamped
        exact Except.ok.inj (read.symm.trans stamped)
  · rintro ⟨rfl,chat,stamped⟩
    refine ⟨j,parsed,sender,fun value found => ?_,?_⟩
    · rcases action with ⟨absent,-⟩ | ⟨sv,found',known⟩
      · simp [absent] at found
      · rw [chat] at known
        obtain rfl := actionFromString_chat known
        exact Option.some.inj (found.symm.trans found')
    · rcases timestamp with ⟨absent,held⟩ | ⟨value,found,read⟩
      · rw [absent]
        exact held.symm.trans stamped
      · rw [found,← stamped]
        exact read

theorem authentic_iff {lib : Nlohmann} {r : Receipt} {text : String} (uuid : String)
    (accepted : outcome lib r.payload r.now r.residue = .broadcast text) :
    Authentic lib uuid r text ↔ Honest lib uuid r := by
  obtain ⟨j,sent,parsed,read,decoded,rfl⟩ := outcome_broadcast accepted
  rw [decodes_honest uuid parsed (fromJson_ok lib j r.residue sent read)]
  constructor
  · rintro ⟨sent',decoded',authentic⟩
    have same := Except.ok.inj ((deserialize_serialize lib sent 0).symm.trans (authentic 0))
    simp [same]
  · rintro ⟨named,chat,stamped⟩
    refine ⟨sent,decoded,fun residue => ?_⟩
    rw [deserialize_serialize,← named,← chat,← stamped]

/-- A frame's text in the history was computed from the payload of that frame. -/
theorem frame_receipt (env : Env) (workers : Nat) (reached : (machine env workers).Reaches es s)
    (t : Text) (member : t ∈ s.state.history) (x : Conn) (k : Nat) (origin : t.origin = ⟨x,.frame k⟩) :
    ∃ r, (s.state.conns x).received[k]? = some r ∧
      outcome env.lib r.payload r.now r.residue = .broadcast t.bytes := by
  have caused := (all_caused env workers reached).1 t member
  simpa only [Caused,origin] using caused

/-- A broadcast frame is an authentic chat of its connection exactly when its payload was
already honest: the server adds nothing of its own. -/
theorem broadcast_authentic_iff_honest (env : Env) (workers : Nat)
    (reached : (machine env workers).Reaches es s) (t : Text) (member : t ∈ s.state.history)
    (x : Conn) (k : Nat) (origin : t.origin = ⟨x,.frame k⟩) :
    ∃ r, (s.state.conns x).received[k]? = some r ∧
      (Authentic env.lib (env.uuid x) r t.bytes ↔ Honest env.lib (env.uuid x) r) := by
  obtain ⟨r,received,accepted⟩ := frame_receipt env workers reached t member x k origin
  exact ⟨r,received,authentic_iff (env.uuid x) accepted⟩

/-- A client that calls itself the system and disconnects somebody else. -/
def forgedPayload : String :=
  "\x7b\"sender\":\"system\",\"action\":\"disconnect\",\"contents\":\"1\",\"timestamp\":1\x7d"

def forgery : List Event := List.flatten [
  [.upgrade 0,.accept 0 0 false 0],List.replicate 9 (.exec 0 [] 0),
  [.read 0 0 (some forgedPayload) 7 0,.exec 0 [0] 0]]

def forged : Text := ⟨⟨0,.frame 0⟩,serialize nlohmann ⟨"system",.disconnect,"1",1⟩⟩

theorem forgery_runs : ((machine .numbered 1).run forgery (start 1)).any (fun s =>
    decide (forged ∈ s.state.history) &&
      decide ((s.state.conns 0).received = [⟨forgedPayload,7,0⟩])) = true := by
  decide +kernel

theorem forgery_broadcast : ∃ s, (machine .numbered 1).Reaches forgery s ∧
    forged ∈ s.state.history ∧ (s.state.conns 0).received = [⟨forgedPayload,7,0⟩] := by
  obtain ⟨s,ran,checked⟩ := (Option.any_eq_true _ _).mp forgery_runs
  simp only [Bool.and_eq_true,decide_eq_true_eq] at checked
  exact ⟨s,ran,checked.1,checked.2⟩

theorem forgery_dishonest : ∃ s, (machine .numbered 1).Reaches forgery s ∧
    ∃ r, (s.state.conns 0).received[0]? = some r ∧
      (Authentic nlohmann (Env.numbered.uuid 0) r forged.bytes ↔
        Honest nlohmann (Env.numbered.uuid 0) r) := by
  obtain ⟨s,reached,member,-⟩ := forgery_broadcast
  exact ⟨s,reached,broadcast_authentic_iff_honest .numbered 1 reached forged member 0 0 rfl⟩

theorem forgery_not_authentic : ¬∀ env workers es s, (machine env workers).Reaches es s →
    ∀ t ∈ s.state.history, ∀ x k, t.origin = ⟨x,.frame k⟩ →
      ∀ r, (s.state.conns x).received[k]? = some r → Authentic env.lib (env.uuid x) r t.bytes := by
  intro authentic
  obtain ⟨s,reached,member,received⟩ := forgery_broadcast
  obtain ⟨sent,-,text⟩ := authentic .numbered 1 forgery s reached forged member 0 0 rfl _
    (by rw [received]; rfl)
  have same := Except.ok.inj ((deserialize_serialize nlohmann _ 0).symm.trans (text 0))
  simp at same

end Wschat.Cpp
