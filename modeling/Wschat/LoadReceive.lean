import Wschat.GoDecode

/-! `runRecvTest` of `client/main.go`: the receiving half of a worker of the load tester. One
message is decoded into again and again, and a frame that does not decode is recorded and
then looked at all the same. -/
namespace Wschat.Load

open Go

/-- What `Receive` gives: the text of a frame or an error. -/
inductive Input where
  | frame (msgStr : String)
  | error (err : String)

/-- The uuid is received before the loop. -/
inductive RecvError where
  | uuid (err : String)
  | receive (err : String)
  | decode (failure : Failure) (msgStr : String)
  deriving DecidableEq, Repr

structure UnexpectedMsgError where
  expected : Action
  msg : Message
  deriving DecidableEq, Repr

/-- The variables of the loop with the results that it sets; `broken` says that a `break`
has been taken. -/
structure RecvTest where
  msg : Message
  msgsRecvd : Nat
  recvErr : Option RecvError
  stopRecvReason : Option UnexpectedMsgError
  serverErr : String
  broken : Bool
  deriving DecidableEq, Repr

/-- `common.Message{}`. -/
def newMessage : Message := ⟨"",none,"",0⟩

def RecvTest.start : RecvTest := ⟨newMessage,0,none,none,"",false⟩

/-- The `switch` on the action of the message. -/
def inspect (uuid : String) (t : RecvTest) : RecvTest :=
  match t.msg.action with
  | some .chat => if t.msg.sender = uuid then { t with msgsRecvd := t.msgsRecvd + 1 } else t
  | some .disconnect =>
    if t.msg.contents = uuid then { t with stopRecvReason := some ⟨.chat,t.msg⟩, broken := true }
    else t
  | some .error => { t with serverErr := t.msg.contents, broken := true }
  | _ => t

/-- One round of the loop. -/
def round (lib : EncodingJson) (uuid : String) (t : RecvTest) : Input → RecvTest
  | .error err => { t with recvErr := some (.receive err), broken := true }
  | .frame msgStr =>
    let (msg,err) := unmarshal lib msgStr t.msg
    let recvErr := match err with
      | some failure => some (.decode failure msgStr)
      | none => t.recvErr
    inspect uuid { t with msg, recvErr }

def RecvTest.finished (msgsPerConn : Nat) (t : RecvTest) : Bool := t.broken || t.msgsRecvd = msgsPerConn

section Loop

variable (lib : EncodingJson) (uuid : String) (msgsPerConn : Nat)

def recvLoop : RecvTest → List Input → RecvTest
  | t, [] => t
  | t, i :: inputs => if t.finished msgsPerConn then t else recvLoop (round lib uuid t i) inputs

/-- The inputs that the loop takes. -/
def consumed : RecvTest → List Input → List Input
  | _, [] => []
  | t, i :: inputs =>
    if t.finished msgsPerConn then [] else i :: consumed (round lib uuid t i) inputs

def runRecvTest (inputs : List Input) : RecvTest := recvLoop lib uuid msgsPerConn .start inputs

end Loop

/-- The message makes the loop count. -/
def Counts (uuid : String) (msg : Message) : Prop := msg.action = some .chat ∧ msg.sender = uuid

/-- The message makes the loop stop. -/
def Stops (uuid : String) (msg : Message) : Prop :=
  (msg.action = some .disconnect ∧ msg.contents = uuid) ∨ msg.action = some .error

instance (uuid : String) (msg : Message) : Decidable (Counts uuid msg) :=
  inferInstanceAs (Decidable (_ ∧ _))

instance (uuid : String) (msg : Message) : Decidable (Stops uuid msg) :=
  inferInstanceAs (Decidable (_ ∨ _))

section Rounds

theorem inspect_msgsRecvd (uuid : String) (t : RecvTest) :
    (inspect uuid t).msgsRecvd = t.msgsRecvd + if Counts uuid t.msg then 1 else 0 := by
  unfold inspect
  cases action : t.msg.action with
  | none => simp [Counts,action]
  | some action_ =>
    cases action_ with
    | chat =>
      by_cases mine : t.msg.sender = uuid <;> simp [Counts,action,mine]
    | disconnect =>
      by_cases mine : t.msg.contents = uuid <;> simp [Counts,action,mine]
    | connect | error => simp [Counts,action]

theorem inspect_msg (uuid : String) (t : RecvTest) : (inspect uuid t).msg = t.msg := by
  unfold inspect
  split <;> (try split) <;> rfl

theorem inspect_broken (uuid : String) (t : RecvTest) :
    (inspect uuid t).broken = (t.broken || decide (Stops uuid t.msg)) := by
  unfold inspect
  cases action : t.msg.action with
  | none => simp [Stops,action]
  | some action_ =>
    cases action_ with
    | disconnect => by_cases mine : t.msg.contents = uuid <;> simp [Stops,action,mine]
    | chat => by_cases mine : t.msg.sender = uuid <;> simp [Stops,action,mine]
    | connect | error => simp [Stops,action]

theorem round_msgsRecvd (lib : EncodingJson) (uuid : String) (t : RecvTest) (msgStr : String) :
    (round lib uuid t (.frame msgStr)).msgsRecvd =
      t.msgsRecvd + if Counts uuid (unmarshal lib msgStr t.msg).1 then 1 else 0 :=
  inspect_msgsRecvd uuid _

theorem counts_iff (lib : EncodingJson) (uuid msgStr : String) (held : Message) :
    Counts uuid (unmarshal lib msgStr held).1 ↔
      (storedFields lib msgStr).action.or held.action = some .chat ∧
        (storedFields lib msgStr).sender.getD held.sender = uuid := by
  have stored := unmarshal_stored lib msgStr held
  rw [Counts,stored.action,stored.sender]

theorem stops_iff (lib : EncodingJson) (uuid msgStr : String) (held : Message) :
    Stops uuid (unmarshal lib msgStr held).1 ↔
      ((storedFields lib msgStr).action.or held.action = some .disconnect ∧
        (storedFields lib msgStr).contents.getD held.contents = uuid) ∨
      (storedFields lib msgStr).action.or held.action = some .error := by
  have stored := unmarshal_stored lib msgStr held
  rw [Stops,stored.action,stored.contents]

end Rounds

section Calm

/-- The loop goes on, and holds no message that would stop it. -/
structure Calm (t : RecvTest) : Prop where
  going : t.broken = false
  disconnect : t.msg.action ≠ some .disconnect
  error : t.msg.action ≠ some .error

theorem inspect_calm (uuid : String) {t : RecvTest} (calm : Calm t) : Calm (inspect uuid t) := by
  obtain ⟨going,disconnect,error⟩ := calm
  unfold inspect
  split
  · split <;> exact ⟨going,disconnect,error⟩
  · next stops => exact absurd stops disconnect
  · next stops => exact absurd stops error
  · exact ⟨going,disconnect,error⟩

variable {lib : EncodingJson} {uuid : String} {β : Type}

/-- Over inputs whose rounds all keep what makes the loop go on, it counts those that count,
up to the number it waits for. -/
theorem recvLoop_keeps (msgsPerConn : Nat) (kept : RecvTest → Prop)
    (going : ∀ t, kept t → t.broken = false) (input : β → Input) (mine : β → Bool) (entries : List β)
    (rounds : ∀ e ∈ entries, ∀ t, kept t → kept (round lib uuid t (input e)) ∧
      (round lib uuid t (input e)).msgsRecvd = t.msgsRecvd + (mine e).toNat)
    {t : RecvTest} (here : kept t) (below : t.msgsRecvd ≤ msgsPerConn) :
    kept (recvLoop lib uuid msgsPerConn t (entries.map input)) ∧
    (recvLoop lib uuid msgsPerConn t (entries.map input)).msgsRecvd =
      min msgsPerConn (t.msgsRecvd + entries.countP mine) := by
  induction entries generalizing t with
  | nil => exact ⟨here,by simp [recvLoop]; omega⟩
  | cons e entries ih =>
    obtain ⟨first,rounds⟩ := List.forall_mem_cons.mp rounds
    rw [List.map_cons,recvLoop,List.countP_cons]
    by_cases full : t.msgsRecvd = msgsPerConn
    · rw [if_pos (by simp [RecvTest.finished,full])]
      exact ⟨here,by omega⟩
    · rw [if_neg (by simp [RecvTest.finished,going t here,full])]
      obtain ⟨there,count⟩ := first t here
      have one := Bool.toNat_le (mine e)
      obtain ⟨last,counted⟩ := ih rounds there (by omega)
      refine ⟨last,?_⟩
      rw [counted,count,Nat.add_assoc,Nat.add_comm (mine e).toNat]
      cases mine e <;> rfl

end Calm

end Wschat.Load
