import Wschat.Interop
import Wschat.LoadReceive
import Wschat.RustEcho

/-! A worker of the load tester on the Rust server. Go cannot read this server's disconnects,
which go into the message that the worker holds; its count comes out right all the same. -/
namespace Wschat.Rust

section Tester

variable {env : Env} {lib : Go.EncodingJson} {c : Conn} {es : List Event} {s : State}

def Event.isFrame (c : Conn) : Event → Bool
  | .frame d _ _ => d = c
  | _ => false

/-- Every frame of `c` is a chat as `runClientTest` sends it. -/
def Worker (env : Env) (lib : Go.EncodingJson) (c : Conn) (es : List Event) : Prop :=
  ∀ frame now, .frame c frame now ∈ es → ∃ w : Wire,
    w.sender = env.uuid c ∧ w.action = .chat ∧ frame = .text (Go.marshal lib w.go)

/-- Each library reads what the other prints. -/
structure Readable (lib : Go.EncodingJson) (serde : SerdeJson) : Prop where
  go : ∀ msg, lib.parse (serde.print (serialize msg)) = some (serialize msg)
  rust : ∀ msg, serde.parse (lib.print (Go.marshalJson msg)) = some (Go.marshalJson msg)

theorem fromStr_marshal (readable : Readable lib env.lib) (w : Wire) (named : w.sender ≠ "")
    (chat : w.action = .chat) : fromStr env.lib (Go.marshal lib w.go) = some w.rust := by
  have known : asAction (.str (Server.go.actionStr w.action)) = some w.action := by rw [chat]; rfl
  rw [fromStr,Go.marshal,readable.rust,Option.bind_some,go_object,deserialize_object,
    if_neg (by simp [named]),known]
  rfl

theorem worker_accepted (readable : Readable lib env.lib) (named : env.uuid c ≠ "")
    (worker : Worker env lib c es) :
    (∀ e ∈ es, ¬e.Bad env c) ∧ (accepted env c es).length = es.countP (Event.isFrame c) := by
  have reads (frame : Frame) (now : UInt64) (member : .frame c frame now ∈ es) :
      ∃ text msg, frame = .text text ∧ fromStr env.lib text = some msg := by
    obtain ⟨w,sender,chat,rfl⟩ := worker frame now member
    exact ⟨_,_,rfl,fromStr_marshal readable w (sender ▸ named) chat⟩
  constructor
  · rintro e member ⟨text,now,rfl,rejected⟩
    obtain ⟨_,msg,eq,read⟩ := reads _ _ member
    obtain rfl := Frame.text.inj eq
    rw [rejected] at read
    contradiction
  · rw [accepted,List.length_filterMap_eq_countP]
    refine List.countP_congr fun e member => ?_
    cases e with
    | frame d frame now =>
      by_cases here : d = c
      · subst here
        obtain ⟨text,msg,rfl,read⟩ := reads frame now member
        simp [Event.accepted?,Event.isFrame,read]
      · simp [accepted_frame_other env frame now here,Event.isFrame,here]
    | start | serMsg | finished | serve => simp [Event.accepted?,Event.isFrame]

theorem texts_handled (reached : (machine env).Reaches es s) (fine : ∀ e ∈ es, ¬e.Bad env c) :
    texts (s.conns c).written = (s.conns c).handled := by
  refine (machine env).reaches_induction (motive := fun es s => (∀ e ∈ es, ¬e.Bad env c) →
    texts (s.conns c).written = (s.conns c).handled) (fun _ => rfl) ?_ reached fine
  intro es s e next before same stepped fine
  have same := same fun e member => fine e (List.mem_append_left _ member)
  cases step_adds env s next e c stepped with
  | serMsg text _ handled written => rw [written,handled,same]
  | reply now bad => exact absurd bad (fine e (by simp))
  | nothing _ _ handled written => rw [written,handled,same]

/-- What Go stores of a text of Rust, where a misspelt action ends the decoding. -/
theorem stored_text (readable : Readable lib env.lib) (msg : Message) :
    Go.storedFields lib (toString env.lib msg) =
      if msg.action = .disconnect then ⟨some msg.sender,none,none⟩
      else ⟨some msg.sender,some msg.action.go,some msg.contents⟩ := by
  rw [Go.storedFields,toString,readable.go]
  obtain ⟨_,kind,_,_⟩ := msg
  cases kind <;>
    simp [serialize,Go.storedMembers,Go.stringOf,Go.unmarshalAction,
      Action.asStr,Go.Action.ofStr,Action.go]

/-- One text of the server in the loop of a worker: only its own chats count, and nothing
stops the loop. A misspelt disconnect leaves the action of the message before. -/
theorem round_text (readable : Readable lib env.lib) (uuid : String) (msg : Message) (fine : msg.action ≠ .error)
    (system : msg.action ≠ .chat → msg.sender ≠ uuid) {t : Load.RecvTest} (calm : Load.Calm t) :
    Load.Calm (Load.round lib uuid t (.frame (toString env.lib msg))) ∧
    (Load.round lib uuid t (.frame (toString env.lib msg))).msgsRecvd =
      t.msgsRecvd + if msg.action = .chat ∧ msg.sender = uuid then 1 else 0 := by
  have stored := Go.unmarshal_stored lib (toString env.lib msg) t.msg
  have counts := Load.counts_iff lib uuid (toString env.lib msg) t.msg
  have action := stored.action
  have stored := stored_text readable msg
  constructor
  · have disconnect : (Go.unmarshal lib (toString env.lib msg) t.msg).1.action ≠ some .disconnect := by
      rw [action,stored]
      cases kind : msg.action <;> simp [Action.go,calm.disconnect]
    have error : (Go.unmarshal lib (toString env.lib msg) t.msg).1.action ≠ some .error := by
      rw [action,stored]
      cases kind : msg.action with
      | error => exact absurd kind fine
      | connect | chat | disconnect => simp [Action.go,calm.error]
    exact Load.inspect_calm _ ⟨calm.going,disconnect,error⟩
  · rw [Load.round_msgsRecvd]
    congr 1
    refine if_congr (counts.trans ?_) rfl rfl
    rw [stored]
    cases kind : msg.action with
    | chat => simp [Action.go]
    | connect | error => simp [Action.go]
    | disconnect => simp [system (by simp [kind])]

theorem round_entry (readable : Readable lib env.lib) (named : env.uuid c ≠ "system")
    (genuine : ∃ d now msg, ToServer.Belongs env d msg ∧ e = entryOf env now msg) {t : Load.RecvTest}
    (calm : Load.Calm t) : Load.Calm (Load.round lib (env.uuid c) t (.frame e.text)) ∧
      (Load.round lib (env.uuid c) t (.frame e.text)).msgsRecvd =
        t.msgsRecvd + (chatOf (env.uuid c) e).toNat := by
  obtain ⟨d,now,msg,belongs,rfl⟩ := genuine
  cases msg with
  | connect uuid recip =>
    have round := round_text readable (env.uuid c) (.newSystem .connect uuid now)
      (by simp [Message.newSystem]) (fun _ => Ne.symm named) calm
    simpa [Message.newSystem,chatOf,entryOf,connectEntry] using round
  | message chat =>
    obtain ⟨contents,at_,rfl⟩ := belongs
    have round := round_text readable (env.uuid c) (.newChat (env.uuid d) contents at_)
      (by simp [Message.newChat]) (fun other => absurd rfl other) calm
    by_cases mine : env.uuid d = env.uuid c <;>
      simpa [Message.newChat,chatOf,entryOf,chatEntry,mine] using round
  | disconnect uuid =>
    have round := round_text readable (env.uuid c) (.newSystem .disconnect uuid now)
      (by simp [Message.newSystem]) (fun _ => Ne.symm named) calm
    simpa [Message.newSystem,chatOf,entryOf,disconnectEntry] using round

/-- The loop over the texts of a log counts the worker's chats in it, up to the number that
it waits for. -/
theorem recvLoop_entries (readable : Readable lib env.lib) (named : env.uuid c ≠ "system")
    (msgsPerConn : Nat) (entries : List Entry)
    (genuine : ∀ e ∈ entries, ∃ d now msg, ToServer.Belongs env d msg ∧ e = entryOf env now msg)
    {t : Load.RecvTest} (calm : Load.Calm t) (below : t.msgsRecvd ≤ msgsPerConn) :
    (Load.recvLoop lib (env.uuid c) msgsPerConn t (entries.map fun e => .frame e.text)).broken = false ∧
    (Load.recvLoop lib (env.uuid c) msgsPerConn t (entries.map fun e => .frame e.text)).msgsRecvd =
      min msgsPerConn (t.msgsRecvd + (logged (env.uuid c) entries).length) := by
  have length : (logged (env.uuid c) entries).length = entries.countP (chatOf (env.uuid c)) := by
    rw [logged,List.length_map,List.countP_eq_length_filter]
  obtain ⟨last,counted⟩ := Load.recvLoop_keeps msgsPerConn Load.Calm (fun _ calm => calm.going)
    (fun e => .frame e.text) (chatOf (env.uuid c)) entries
    (fun e member _ calm => round_entry readable named (genuine e member) calm) calm below
  exact ⟨last.going,by rw [length,counted]⟩

end Tester

/-- When nothing is on the way, a worker of the load tester has been told its uuid first, and
its receiving half has counted every chat that it has sent, up to the number it waits for. -/
theorem tester_counts (lib : Go.EncodingJson) (env : Env) (es : List Event) (s : State) (c : Conn)
    (msgsPerConn : Nat) (reached : (machine env).Reaches es s) (drained : s.Drained)
    (running : (s.conns c).phase = .running) (readable : Readable lib env.lib)
    (named : env.uuid c ≠ "" ∧ env.uuid c ≠ "system") (worker : Worker env lib c es) :
    ∃ first rest, texts (s.conns c).written = first :: rest ∧
      (Go.unmarshal lib first Load.newMessage).1.action = some .connect ∧
      (Go.unmarshal lib first Load.newMessage).1.contents = env.uuid c ∧
      (Load.runRecvTest lib (env.uuid c) msgsPerConn (rest.map .frame)).broken = false ∧
      (Load.runRecvTest lib (env.uuid c) msgsPerConn (rest.map .frame)).msgsRecvd =
        min msgsPerConn (es.countP (Event.isFrame c)) := by
  have valid := consistent env reached
  obtain ⟨fine,accepted⟩ := worker_accepted readable named.1 worker
  obtain ⟨before,e,rest,log,first,handled,same⟩ := running_handled valid drained c running
  have echoed := echoes env reached c
  rw [Echoes,(drained c).1,List.filterMap_nil,List.append_nil] at echoed
  obtain ⟨now,connect⟩ := handled_head env reached c (by rw [handled]; rfl)
  have stored := Go.unmarshal_stored lib e.text Load.newMessage
  have counted := recvLoop_entries (t := .start) readable named.2 msgsPerConn rest
    (fun e member => valid.genuine e (by rw [log]; simp [member]))
    ⟨rfl,by simp [Load.RecvTest.start,Load.newMessage],by simp [Load.RecvTest.start,Load.newMessage]⟩
    (Nat.zero_le _)
  refine ⟨e.text,rest.map Entry.text,by rw [texts_handled reached fine,handled]; rfl,?_,?_,?_⟩
  · rw [stored.action,connect,stored_text readable]
    simp [Message.newSystem,Action.go]
  · rw [stored.contents,connect,stored_text readable]
    simp [Message.newSystem]
  · rw [same,echoed,List.length_map,accepted] at counted
    simpa [Load.runRecvTest,Load.RecvTest.start,Function.comp_def] using counted

theorem readable_compact : Readable Go.encodingJson Env.numbered.lib :=
  ⟨Env.numbered.lib.parse_print,Go.encodingJson.parse_print⟩

def workerChat : Wire := ⟨"0",.chat,"Worker #0: Message 1",2,by decide⟩

/-- A worker chats once while another client leaves. -/
def tested : List Event :=
  [.start 0,.serve 0 1,.start 1,.serve 1 2,.serMsg 0,.serMsg 0,.finished 1,.serve 1 3,
    .frame 0 (.text (Go.marshal Go.encodingJson workerChat.go)) 4,.serve 0 5,.serMsg 0,.serMsg 0]

theorem tested_runs : ((machine .numbered).run tested start).any (fun s =>
    decide (load (starts tested) s = 0 ∧ (s.conns 0).phase = .running)) = true := by decide +kernel

theorem tested_counted : ∃ s first rest, (machine .numbered).Reaches tested s ∧
    texts (s.conns 0).written = first :: rest ∧
    (Load.runRecvTest Go.encodingJson "0" 1 (rest.map .frame)).msgsRecvd = 1 := by
  obtain ⟨s,ran,checked⟩ := (Option.any_eq_true _ _).mp tested_runs
  obtain ⟨none_,running⟩ := of_decide_eq_true checked
  have worker : Worker .numbered Go.encodingJson 0 tested := by
    intro frame now member
    simp only [tested,List.mem_cons,List.not_mem_nil,or_false,reduceCtorEq,false_or] at member
    exact ⟨workerChat,rfl,rfl,(Event.frame.inj member).2.1⟩
  obtain ⟨first,rest,written,-,-,-,counted⟩ := tester_counts Go.encodingJson .numbered tested s 0 1 ran
    (drained_of_load (settling .numbered ran) none_) running readable_compact (by decide) worker
  exact ⟨s,first,rest,ran,written,counted⟩

end Wschat.Rust
