import Wschat.LoadStats

/-! What the load tester counts as an echo. Every frame is decoded into the same message, so
one that leaves something out, or fails half way, is completed from the frames before it. The
condition is on the members that the frames store. -/
namespace Wschat.Load

open Go

section Frames

variable (lib : EncodingJson) (uuid : String)

/-- A frame that on its own decodes to a chat message of the worker. -/
def echo : Input → Bool
  | .frame msgStr =>
    let (msg,err) := unmarshal lib msgStr newMessage
    err.isNone && msg.action = some .chat && msg.sender = uuid
  | .error _ => false

/-- No member of the frame has the name. -/
def Lacks (key msgStr : String) : Prop :=
  ∀ members, lib.parse msgStr = some (.obj members) → ∀ m ∈ members, foldName m.1 ≠ key

/-- The frame does not decode, or it lacks a sender or an action. -/
def Incomplete (msgStr : String) : Prop :=
  (unmarshal lib msgStr newMessage).2 ≠ none ∨ Lacks lib "sender" msgStr ∨ Lacks lib "action" msgStr

/-- What is stored by the frame and, where it stores nothing, by the frames before. -/
def said (held : Stored) (msgStr : String) : Stored := (storedFields lib msgStr).over held

/-- The frame stops the loop. -/
def Halts (held : Stored) (msgStr : String) : Prop :=
  ((said lib held msgStr).action = some .disconnect ∧ (said lib held msgStr).contents.getD "" = uuid) ∨
    (said lib held msgStr).action = some .error

/-- What the frame leaves out is not supplied by the frames before, where the loop looks at it:
the action, the sender of a chat, the contents of a disconnect. -/
structure Literal (held : Stored) (msgStr : String) : Prop where
  action : (storedFields lib msgStr).action = none →
    (held.action = some .chat → (said lib held msgStr).sender.getD "" ≠ uuid) ∧
      (held.action = some .disconnect → (said lib held msgStr).contents.getD "" ≠ uuid)
  broken : (storedFields lib msgStr).action = some .chat →
    (unmarshal lib msgStr newMessage).2 ≠ none → (said lib held msgStr).sender.getD "" ≠ uuid
  sender : (storedFields lib msgStr).action = some .chat →
    (unmarshal lib msgStr newMessage).2 = none → (storedFields lib msgStr).sender = none →
      (held.sender.getD "" = uuid ↔ uuid = "")
  contents : (storedFields lib msgStr).action = some .disconnect → Incomplete lib msgStr →
    (storedFields lib msgStr).contents = none → held.contents.getD "" = uuid → uuid = ""

/-- Every frame is literal up to the last of `left` echoes, a frame that stops the loop or an
error. -/
def AllLiteral : Stored → Nat → List Input → Prop
  | held, left + 1, .frame msgStr :: inputs =>
    Literal lib uuid held msgStr ∧ (Halts lib uuid held msgStr ∨
      AllLiteral (said lib held msgStr) (if echo lib uuid (.frame msgStr) then left else left + 1) inputs)
  | _, _, _ => True

end Frames

def nothing : Stored := ⟨none,none,none⟩

/-- The results of a worker with what `runRecvTest` sets in them. -/
def TestResults.received (tres : TestResults) (t : RecvTest) : TestResults :=
  { tres with
    msgsRecvd := t.msgsRecvd
    recvErr := t.recvErr
    stopRecvReason := t.stopRecvReason
    serverErr := t.serverErr }

/-- The loop counts real echoes: at any time as many as the frames it has taken that are one
on their own; a frame that is incomplete stops it only by what it says itself; and `runTest`
marks the worker as passed only if the server sent as many echoes. -/
structure Exact (lib : EncodingJson) (uuid : String) (msgsPerConn : Nat) (inputs : List Input) :
    Prop where
  counted : ∀ front back, inputs = front ++ back →
    (runRecvTest lib uuid msgsPerConn front).msgsRecvd =
      (consumed lib uuid msgsPerConn .start front).countP (echo lib uuid)
  alone : ∀ front msgStr back, inputs = front ++ .frame msgStr :: back →
    (runRecvTest lib uuid msgsPerConn front).finished msgsPerConn = false → Incomplete lib msgStr →
      Stops uuid (unmarshal lib msgStr (runRecvTest lib uuid msgsPerConn front).msg).1 →
        Stops uuid (unmarshal lib msgStr newMessage).1
  passed : ∀ before (tres : TestResults) after,
    (runTest msgsPerConn
      (before ++ tres.received (runRecvTest lib uuid msgsPerConn inputs) :: after)).numPassed =
        (runTest msgsPerConn (before ++ after)).numPassed + 1 →
    (consumed lib uuid msgsPerConn .start inputs).countP (echo lib uuid) = msgsPerConn

section Rounds

variable {lib : EncodingJson} {uuid : String} {msgsPerConn : Nat}

theorem echo_iff (lib : EncodingJson) (uuid msgStr : String) : echo lib uuid (.frame msgStr) = true ↔
    (unmarshal lib msgStr newMessage).2 = none ∧ (storedFields lib msgStr).action = some .chat ∧
      (storedFields lib msgStr).sender.getD "" = uuid := by
  have stored := unmarshal_stored lib msgStr newMessage
  have action := stored.action
  have sender := stored.sender
  simp only [newMessage,Option.or_none] at action sender
  simp [echo,newMessage,action,sender,and_assoc]

/-- A frame without an action of its own does not decode, or it has no such member. -/
theorem actionless_incomplete (none_ : (storedFields lib msgStr).action = none) :
    Incomplete lib msgStr := by
  by_cases decodes : (unmarshal lib msgStr newMessage).2 = none
  · refine .inr (.inr fun members parsed m inside named => ?_)
    simp only [unmarshal,parsed] at decodes
    simp only [storedFields,parsed] at none_
    have fits := ((storeMembers_accepts members newMessage false).mp decodes).2
    exact storedMembers_action members _ fits (.inl ⟨m,inside,named⟩) none_
  · exact .inl decodes

theorem said_over (lib : EncodingJson) (over_ : held.Over newMessage msg) (msgStr : String) :
    (said lib held msgStr).Over newMessage (unmarshal lib msgStr msg).1 :=
  over_.trans (unmarshal_stored lib msgStr msg)

theorem halts_iff (over_ : held.Over newMessage msg) :
    Stops uuid (unmarshal lib msgStr msg).1 ↔ Halts lib uuid held msgStr := by
  have after := said_over lib over_ msgStr
  rw [Stops,Halts,after.action,after.contents]
  simp [newMessage]

theorem counts_said (over_ : held.Over newMessage msg) :
    Counts uuid (unmarshal lib msgStr msg).1 ↔
      (said lib held msgStr).action = some .chat ∧ (said lib held msgStr).sender.getD "" = uuid := by
  have after := said_over lib over_ msgStr
  rw [Counts,after.action,after.sender]
  simp [newMessage]

/-- A literal frame makes a chat of the worker just when it is an echo. -/
theorem Literal.counts (literal : Literal lib uuid held msgStr) :
    ((said lib held msgStr).action = some .chat ∧ (said lib held msgStr).sender.getD "" = uuid) ↔
      echo lib uuid (.frame msgStr) = true := by
  rw [echo_iff]
  constructor
  · rintro ⟨chat,mine⟩
    cases own : (storedFields lib msgStr).action with
    | none =>
      have earlier : held.action = some .chat := by simpa [said,Stored.over,own] using chat
      exact absurd mine ((literal.action own).1 earlier)
    | some a =>
      obtain rfl : a = .chat := by simpa [said,Stored.over,own] using chat
      have decodes : (unmarshal lib msgStr newMessage).2 = none := by
        by_contra failed
        exact literal.broken own failed mine
      refine ⟨decodes,rfl,?_⟩
      cases name : (storedFields lib msgStr).sender with
      | none =>
        have earlier : held.sender.getD "" = uuid := by simpa [said,Stored.over,name] using mine
        exact ((literal.sender own decodes name).mp earlier).symm
      | some name_ => simpa [said,Stored.over,name] using mine
  · rintro ⟨decodes,own,mine⟩
    refine ⟨by simp [said,Stored.over,own],?_⟩
    cases name : (storedFields lib msgStr).sender with
    | none =>
      rw [name] at mine
      simpa [said,Stored.over,name] using (literal.sender own decodes name).mpr mine.symm
    | some name_ => simpa [said,Stored.over,name] using mine

theorem Literal.stops (literal : Literal lib uuid held msgStr) (calm : held.action ≠ some .error)
    (incomplete : Incomplete lib msgStr) (halts : Halts lib uuid held msgStr) :
    Stops uuid (unmarshal lib msgStr newMessage).1 := by
  rw [stops_iff]
  simp only [newMessage,Option.or_none]
  rcases halts with ⟨disconnect,mine⟩ | error
  · cases own : (storedFields lib msgStr).action with
    | none =>
      have earlier : held.action = some .disconnect := by simpa [said,Stored.over,own] using disconnect
      exact absurd mine ((literal.action own).2 earlier)
    | some a =>
      obtain rfl : a = .disconnect := by simpa [said,Stored.over,own] using disconnect
      refine .inl ⟨rfl,?_⟩
      cases text : (storedFields lib msgStr).contents with
      | none =>
        have earlier : held.contents.getD "" = uuid := by simpa [said,Stored.over,text] using mine
        exact (literal.contents own incomplete text earlier).symm
      | some text_ => simpa [said,Stored.over,text] using mine
  · cases own : (storedFields lib msgStr).action with
    | none => exact absurd (by simpa [said,Stored.over,own] using error) calm
    | some a => exact .inr (by simpa [said,Stored.over,own] using error)

/-- The literal frames are those that count as echoes do, and stop the loop by what they say
themselves where they are incomplete. -/
theorem literal_iff (over_ : held.Over newMessage msg) (calm : held.action ≠ some .error) :
    Literal lib uuid held msgStr ↔
      (Counts uuid (unmarshal lib msgStr msg).1 ↔ echo lib uuid (.frame msgStr) = true) ∧
      (Incomplete lib msgStr → Stops uuid (unmarshal lib msgStr msg).1 →
        Stops uuid (unmarshal lib msgStr newMessage).1) := by
  rw [counts_said over_,halts_iff over_]
  refine ⟨fun literal => ⟨literal.counts,literal.stops calm⟩,?_⟩
  rintro ⟨count,stop⟩
  rw [echo_iff] at count
  rw [stops_iff] at stop
  constructor
  · intro own
    refine ⟨fun earlier mine => ?_,fun earlier mine => ?_⟩
    · have echoes := count.mp ⟨by simp [said,Stored.over,own,earlier],mine⟩
      rw [own] at echoes
      exact absurd echoes.2.1 (by simp)
    · have stops := stop (actionless_incomplete own) (.inl ⟨by simp [said,Stored.over,own,earlier],mine⟩)
      simp [own,newMessage] at stops
  · intro own failed mine
    exact failed (count.mp ⟨by simp [said,Stored.over,own],mine⟩).1
  · intro own decodes name
    simpa [said,Stored.over,own,decodes,name,eq_comm] using count
  · intro own incomplete text earlier
    have stops := stop incomplete (.inl ⟨by simp [said,Stored.over,own],by
      simpa [said,Stored.over,text] using earlier⟩)
    simpa [own,text,newMessage,eq_comm] using stops

end Rounds

section Runs

variable {lib : EncodingJson} {uuid : String} {msgsPerConn : Nat}

/-- The loop goes on with `left` echoes to come, and its message holds what has been stored. -/
structure Holding (held : Stored) (left msgsPerConn : Nat) (t : RecvTest) : Prop where
  going : t.broken = false
  count : t.msgsRecvd + left = msgsPerConn
  over_ : held.Over newMessage t.msg
  calm : held.action ≠ some .error

/-- What `Exact` asks of the loop, from `t` on. -/
structure ExactFrom (lib : EncodingJson) (uuid : String) (msgsPerConn : Nat) (t : RecvTest)
    (inputs : List Input) : Prop where
  counted : ∀ front back, inputs = front ++ back →
    (recvLoop lib uuid msgsPerConn t front).msgsRecvd =
      t.msgsRecvd + (consumed lib uuid msgsPerConn t front).countP (echo lib uuid)
  alone : ∀ front msgStr back, inputs = front ++ .frame msgStr :: back →
    (recvLoop lib uuid msgsPerConn t front).finished msgsPerConn = false → Incomplete lib msgStr →
      Stops uuid (unmarshal lib msgStr (recvLoop lib uuid msgsPerConn t front).msg).1 →
        Stops uuid (unmarshal lib msgStr newMessage).1

theorem finished_loop (lib : EncodingJson) (uuid : String) (inputs : List Input)
    (finished : t.finished msgsPerConn = true) :
    recvLoop lib uuid msgsPerConn t inputs = t ∧ consumed lib uuid msgsPerConn t inputs = [] := by
  cases inputs with
  | nil => exact ⟨rfl,rfl⟩
  | cons i inputs => simp [recvLoop,consumed,finished]

theorem finished_exact (inputs : List Input) (finished : t.finished msgsPerConn = true) :
    ExactFrom lib uuid msgsPerConn t inputs := by
  constructor
  · intro front _ _
    obtain ⟨run,taken⟩ := finished_loop lib uuid front finished
    rw [run,taken]
    rfl
  · intro front _ _ _ going
    rw [(finished_loop lib uuid front finished).1,finished] at going
    contradiction

theorem nil_exact (t : RecvTest) : ExactFrom lib uuid msgsPerConn t [] := by
  constructor
  · intro front back split
    obtain ⟨rfl,-⟩ := List.nil_eq_append_iff.mp split
    rfl
  · intro front _ _ split
    simp at split

theorem cons_exact (i : Input) (inputs : List Input) (going : t.finished msgsPerConn = false) :
    ExactFrom lib uuid msgsPerConn t (i :: inputs) ↔
      ((round lib uuid t i).msgsRecvd = t.msgsRecvd + (echo lib uuid i).toNat ∧
        ∀ msgStr, i = .frame msgStr → Incomplete lib msgStr →
          Stops uuid (unmarshal lib msgStr t.msg).1 → Stops uuid (unmarshal lib msgStr newMessage).1) ∧
      ExactFrom lib uuid msgsPerConn (round lib uuid t i) inputs := by
  have loop (front : List Input) : recvLoop lib uuid msgsPerConn t (i :: front) =
      recvLoop lib uuid msgsPerConn (round lib uuid t i) front := by simp [recvLoop,going]
  have taken (front : List Input) :
      (consumed lib uuid msgsPerConn t (i :: front)).countP (echo lib uuid) =
        (echo lib uuid i).toNat +
          (consumed lib uuid msgsPerConn (round lib uuid t i) front).countP (echo lib uuid) := by
    cases own : echo lib uuid i <;> simp [consumed,going,own,Nat.add_comm]
  constructor
  · intro whole
    have first : (round lib uuid t i).msgsRecvd = t.msgsRecvd + (echo lib uuid i).toNat := by
      have counted := whole.counted [i] inputs rfl
      rw [loop,taken] at counted
      simpa [recvLoop,consumed] using counted
    refine ⟨⟨first,?_⟩,?_,?_⟩
    · rintro msgStr rfl
      exact whole.alone [] msgStr inputs rfl going
    · intro front back split
      have counted := whole.counted (i :: front) back (by simp [split])
      rw [loop,taken] at counted
      omega
    · intro front msgStr back split
      have alone := whole.alone (i :: front) msgStr back (by simp [split])
      rwa [loop] at alone
  · rintro ⟨⟨first,alone⟩,rest⟩
    constructor
    · intro front back split
      cases front with
      | nil => rfl
      | cons j front =>
        obtain ⟨rfl,later⟩ := List.cons.inj split
        have counted := rest.counted front back later
        rw [loop,taken,counted]
        omega
    · intro front msgStr back split
      cases front with
      | nil =>
        obtain ⟨rfl,-⟩ := List.cons.inj split
        exact fun _ => alone msgStr rfl
      | cons j front =>
        obtain ⟨rfl,later⟩ := List.cons.inj split
        rw [loop]
        exact rest.alone front msgStr back later

theorem Holding.finished (holding : Holding held left msgsPerConn t) :
    t.finished msgsPerConn = true ↔ left = 0 := by
  have count := holding.count
  simp only [RecvTest.finished,holding.going,Bool.false_or,decide_eq_true_eq]
  omega

theorem Holding.next (holding : Holding held (left + 1) msgsPerConn t) (msgStr : String)
    (first : (round lib uuid t (.frame msgStr)).msgsRecvd =
      t.msgsRecvd + (echo lib uuid (.frame msgStr)).toNat)
    (goes : ¬Halts lib uuid held msgStr) :
    Holding (said lib held msgStr) (if echo lib uuid (.frame msgStr) then left else left + 1)
      msgsPerConn (round lib uuid t (.frame msgStr)) := by
  have count := holding.count
  constructor
  · show (inspect uuid _).broken = false
    rw [inspect_broken,holding.going,Bool.false_or,decide_eq_false_iff_not]
    exact mt (halts_iff holding.over_).mp goes
  · rw [first]
    cases echo lib uuid (.frame msgStr)
    · exact count
    · show t.msgsRecvd + 1 + left = msgsPerConn
      omega
  · show (said lib held msgStr).Over newMessage (inspect uuid _).msg
    rw [inspect_msg]
    exact said_over lib holding.over_ msgStr
  · exact fun error => goes (.inr error)

theorem halts_finished (holding : Holding held (left + 1) msgsPerConn t) (halts : Halts lib uuid held msgStr) :
    (round lib uuid t (.frame msgStr)).finished msgsPerConn = true := by
  have broken : (round lib uuid t (.frame msgStr)).broken = true := by
    show (inspect uuid _).broken = true
    rw [inspect_broken,holding.going,Bool.false_or,decide_eq_true_eq]
    exact (halts_iff holding.over_).mpr halts
  simp [RecvTest.finished,broken]

/-- By induction on the inputs, with what the message holds and how many echoes are to come. -/
theorem exactFrom_iff (holding : Holding held left msgsPerConn t) (inputs : List Input) :
    ExactFrom lib uuid msgsPerConn t inputs ↔ AllLiteral lib uuid held left inputs := by
  induction inputs generalizing held left t with
  | nil =>
    have all : AllLiteral lib uuid held left [] := by cases left <;> trivial
    exact iff_of_true (nil_exact t) all
  | cons i inputs ih =>
    cases left with
    | zero => exact iff_of_true (finished_exact _ (holding.finished.mpr rfl)) trivial
    | succ left =>
      have going : t.finished msgsPerConn = false := by
        rw [← Bool.not_eq_true,holding.finished]
        simp
      rw [cons_exact i inputs going]
      cases i with
      | error err =>
        have ended : (round lib uuid t (.error err)).finished msgsPerConn = true := by
          simp [RecvTest.finished,round]
        refine iff_of_true ⟨⟨rfl,?_⟩,finished_exact inputs ended⟩ trivial
        rintro _ ⟨⟩
      | frame msgStr =>
        have own : ((round lib uuid t (.frame msgStr)).msgsRecvd =
            t.msgsRecvd + (echo lib uuid (.frame msgStr)).toNat) ↔
              (Counts uuid (unmarshal lib msgStr t.msg).1 ↔ echo lib uuid (.frame msgStr) = true) := by
          rw [round_msgsRecvd]
          by_cases counts : Counts uuid (unmarshal lib msgStr t.msg).1 <;>
            cases echo lib uuid (.frame msgStr) <;> simp [counts]
        simp only [Input.frame.injEq,forall_eq',AllLiteral]
        rw [own,← literal_iff holding.over_ holding.calm]
        refine and_congr_right fun literal => ?_
        by_cases halts : Halts lib uuid held msgStr
        · exact iff_of_true (finished_exact inputs (halts_finished holding halts)) (.inl halts)
        · have first := own.mpr ((literal_iff holding.over_ holding.calm).mp literal).1
          rw [ih (holding.next msgStr first halts)]
          simp [halts]

end Runs

theorem received_all (before : List TestResults) (tres : TestResults) (after : List TestResults)
    (marked : (runTest msgsPerConn (before ++ tres.received t :: after)).numPassed =
      (runTest msgsPerConn (before ++ after)).numPassed + 1) : t.msgsRecvd = msgsPerConn := by
  rw [(runTest_counts msgsPerConn _).2.1,(runTest_counts msgsPerConn _).2.1] at marked
  have passed : passes msgsPerConn (tres.received t) = true := by
    by_contra failed
    simp [failed] at marked
  simp only [passes,Bool.and_eq_true,decide_eq_true_eq] at passed
  exact passed.2

/-- The loop counts real echoes exactly when every frame that it takes is literal. -/
theorem echoes_exact_iff (lib : EncodingJson) (uuid : String) (msgsPerConn : Nat)
    (inputs : List Input) : Exact lib uuid msgsPerConn inputs ↔
      AllLiteral lib uuid nothing msgsPerConn inputs := by
  have holding : Holding nothing msgsPerConn msgsPerConn .start :=
    ⟨rfl,by simp [RecvTest.start],⟨rfl,rfl,rfl⟩,by simp [nothing]⟩
  rw [← exactFrom_iff holding]
  constructor
  · intro exact_
    refine ⟨fun front back split => ?_,exact_.alone⟩
    rw [show RecvTest.start.msgsRecvd = 0 from rfl,Nat.zero_add]
    exact exact_.counted front back split
  · intro from_
    have counted : ∀ front back, inputs = front ++ back →
        (runRecvTest lib uuid msgsPerConn front).msgsRecvd =
          (consumed lib uuid msgsPerConn .start front).countP (echo lib uuid) := by
      intro front back split
      have here := from_.counted front back split
      rwa [show RecvTest.start.msgsRecvd = 0 from rfl,Nat.zero_add] at here
    refine ⟨counted,from_.alone,fun before tres after marked => ?_⟩
    rw [← counted inputs [] (by simp)]
    exact received_all before tres after marked

def echoed : String := marshal encodingJson (newChatMessage "u" "" 0)

theorem unmarshal_echoed (held : Message) : unmarshal encodingJson echoed held =
    (⟨"u",some .chat,held.contents,held.timestamp⟩,none) := by
  have parsed : encodingJson.parse echoed = some (marshalJson (newChatMessage "u" "" 0)) :=
    encodingJson.parse_print _
  unfold unmarshal
  rw [parsed]
  rfl

theorem unmarshal_empty (held : Message) :
    unmarshal encodingJson "" held = (held,some .syntaxError) := by
  have none_ : encodingJson.parse "" = none := rfl
  unfold unmarshal
  rw [none_]

/-- One echo and an empty frame are counted as two. -/
theorem garbled_counted : ¬∀ (lib : EncodingJson) (uuid : String) (msgsPerConn : Nat)
    (inputs : List Input), Exact lib uuid msgsPerConn inputs := by
  intro all
  have counted := (all encodingJson "u" 2 [.frame echoed,.frame ""]).counted
    [.frame echoed,.frame ""] [] rfl
  simp [runRecvTest,recvLoop,consumed,RecvTest.start,RecvTest.finished,round,unmarshal_echoed,
    unmarshal_empty,inspect,echo,newMessage] at counted

end Wschat.Load
