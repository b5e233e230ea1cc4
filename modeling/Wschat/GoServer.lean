import Wschat.Machine
import Wschat.GoChannel
import Wschat.GoMessage

/-! The Go server: for each client a handler goroutine and a writer goroutine, and one
goroutine for each chat and each disconnect that is broadcast. The connect is broadcast by
the handler itself. -/
namespace Wschat.Go

abbrev Conn := Nat

/-- Which broadcast of a client: a chat is numbered in the order of its frames. -/
inductive Kind where
  | connect
  | chat (k : Nat)
  | disconnect
  deriving DecidableEq, Repr

structure Origin where
  conn : Conn
  kind : Kind
  deriving DecidableEq, Repr

/-- A text with the broadcast it comes from (ghost). -/
structure Item where
  origin : Origin
  text : String
  deriving DecidableEq, Repr

/-- What has been given to `ws.Write`, and by which statement (ghost). -/
inductive Written where
  | direct (item : Item)
  | forwarded (item : Item)
  | reply (text : String)
  deriving DecidableEq, Repr

/-- A `sync.Map` `Range` call: the keys it has visited, those that have been in the map all
the time, and those that have been in it at some time. -/
structure Range where
  visited : List Conn
  must : List Conn
  may : List Conn

/-- A call of `broadcastMsgBytes`; `sending` is the `Send` that the callback is in. -/
inductive Task where
  | absent
  | spawned (text : String)
  | ranging (text : String) (range : Range) (sending : Option (Conn × SendPc))
  | done

inductive HandlerPc where
  | absent
  | broadcasting
  | writing
  | storing
  | launching
  | receiving
  | replying
  | announcing
  | closing (pc : ClosePc)
  | deleting
  | returned
  deriving DecidableEq, Repr

/-- The locals of `handler`: `msg` is reused by every `Receive`. -/
structure Handler where
  pc : HandlerPc
  msg : Message
  msgJSONBytes : String
  chats : Nat

inductive WriterPc where
  | absent
  | receiving
  | writing (item : Item)
  | done
  deriving DecidableEq, Repr

structure State where
  handlers : Conn → Handler
  channels : Conn → Channel Origin Item
  writers : Conn → WriterPc
  tasks : Origin → Task
  /-- The `sync.Map` from uuids to channels. -/
  clients : List (String × Conn)
  wire : Conn → List Written
  launched : List Item
  panicked : Bool

structure Env where
  lib : EncodingJson
  uuid : Conn → String
  distinct : Function.Injective uuid

def Env.numbered : Env := ⟨encodingJson,Nat.repr,fun _ _ eq => Nat.repr_inj.mp eq⟩

def start : State where
  handlers := fun _ => ⟨.absent,⟨"",none,"",0⟩,"",0⟩
  channels := fun _ => newChannel 50
  writers := fun _ => .absent
  tasks := fun _ => .absent
  clients := []
  wire := fun _ => []
  launched := []
  panicked := false

namespace State

def goto (s : State) (c : Conn) (pc : HandlerPc) : State :=
  { s with handlers := replace s.handlers c { s.handlers c with pc } }

def write (s : State) (c : Conn) (out : Written) : State :=
  { s with wire := replace s.wire c (s.wire c ++ [out]) }

/-- `broadcastMsg(msg)` is about to run: marshalling cannot fail and reads nothing else. -/
def launch (env : Env) (s : State) (origin : Origin) (msg : Message) : State :=
  let text := marshal env.lib msg
  { s with tasks := replace s.tasks origin (.spawned text)
           launched := s.launched ++ [⟨origin,text⟩] }

def setChannel (s : State) (c : Conn) (channel : Channel Origin Item) : State :=
  { s with channels := replace s.channels c channel }

def setTask (s : State) (o : Origin) (task : Task) : State :=
  { s with tasks := replace s.tasks o task }

def setWriter (s : State) (c : Conn) (pc : WriterPc) : State :=
  { s with writers := replace s.writers c pc }

end State

/-- A `Range` call that is running sees a `Store` and a `Delete`. -/
def Task.stored (c : Conn) : Task → Task
  | .ranging text range sending => .ranging text { range with may := c :: range.may } sending
  | task => task

def Task.deleted (c : Conn) : Task → Task
  | .ranging text range sending =>
    .ranging text { range with must := range.must.filter (· ≠ c) } sending
  | task => task

/-- `clients.Store` and `clients.Delete`. -/
def State.store (s : State) (uuid : String) (c : Conn) : State :=
  { s with clients := (s.clients.filter fun client => client.1 ≠ uuid) ++ [(uuid,c)]
           tasks := fun o => (s.tasks o).stored c }

def State.delete (s : State) (uuid : String) (c : Conn) : State :=
  { s with clients := s.clients.filter fun client => client.1 ≠ uuid
           tasks := fun o => (s.tasks o).deleted c }

/-- What `webs.JSON.Receive` reads before it decodes. -/
inductive Incoming where
  | frame (payload : String)
  | eof
  | error
  deriving DecidableEq

inductive Event where
  | accept (c : Conn) (now : Int64)
  /-- The next statement of `handler`, other than `Receive`. -/
  | handle (c : Conn) (now : Int64)
  | receive (c : Conn) (incoming : Incoming) (now : Int64)
  /-- A broadcast enters `Range`, visits a key, does a step of `Send`, leaves `Range`. -/
  | range (o : Origin)
  | visit (o : Origin) (y : Conn)
  | send (o : Origin)
  | finish (o : Origin)
  /-- The next operation of the writer goroutine. -/
  | writer (c : Conn)
  deriving DecidableEq

/-- The start of `handler`, up to the broadcast. -/
def accept (env : Env) (s : State) (c : Conn) (now : Int64) : State :=
  let msg := newSystemMessage .connect (env.uuid c) now
  let s := s.launch env ⟨c,.connect⟩ msg
  { s with handlers := replace s.handlers c ⟨.broadcasting,msg,marshal env.lib msg,0⟩ }

/-- The pc after a step of `channel.Close()`. -/
def afterClose : ClosePc → HandlerPc
  | .returned => .deleting
  | pc => .closing pc

def handle (env : Env) (s : State) (c : Conn) (now : Int64) : Option State :=
  match (s.handlers c).pc with
  | .absent | .receiving | .returned => none
  | .broadcasting =>
    match s.tasks ⟨c,.connect⟩ with
    | .done => some (s.goto c .writing)
    | _ => none
  | .writing =>
    some ((s.write c (.direct ⟨⟨c,.connect⟩,(s.handlers c).msgJSONBytes⟩)).goto c .storing)
  | .storing => some ((s.store (env.uuid c) c).goto c .launching)
  | .launching => some ((s.setWriter c .receiving).goto c .receiving)
  | .replying =>
    let reply := marshal env.lib (newSystemMessage .error "bad message" now)
    some ((s.write c (.reply reply)).goto c .announcing)
  | .announcing =>
    let msg := newSystemMessage .disconnect (env.uuid c) now
    some ((s.launch env ⟨c,.disconnect⟩ msg).goto c (.closing .swap))
  | .closing pc =>
    ((s.channels c).close pc).map fun (channel,pc) =>
      { (s.setChannel c channel).goto c (afterClose pc) with panicked := pc = .panicked }
  | .deleting => some ((s.delete (env.uuid c) c).goto c .returned)

/-- The receive loop: only a type error is answered, every error leaves the loop. -/
def receive (env : Env) (s : State) (c : Conn) (incoming : Incoming) (now : Int64) : State :=
  let h := s.handlers c
  match incoming with
  | .eof | .error => s.goto c .announcing
  | .frame payload =>
    let (msg,failure) := unmarshal env.lib payload h.msg
    match failure with
    | none =>
      let s := s.launch env ⟨c,.chat h.chats⟩ (newChatMessage (env.uuid c) msg.contents now)
      { s with handlers := replace s.handlers c { h with msg, chats := h.chats + 1 } }
    | some failure =>
      let pc := if failure = .typeError then .replying else .announcing
      { s with handlers := replace s.handlers c { h with msg, pc } }

def sendStep (s : State) (o : Origin) (text : String) (range : Range) (y : Conn) (pc : SendPc) :
    Option State :=
  ((s.channels y).send o ⟨o,text⟩ pc).map fun (channel,pc) =>
    let sending := if pc = .returned then none else some (y,pc)
    { (s.setChannel y channel).setTask o (.ranging text range sending) with
      panicked := pc = .panicked }

def writerStep (s : State) (c : Conn) : Option State :=
  match s.writers c with
  | .absent | .done => none
  | .receiving =>
    (s.channels c).receive.map fun (channel,received) =>
      match received with
      | .value item => (s.setChannel c channel).setWriter c (.writing item)
      | .ended => s.setWriter c .done
  | .writing item => some ((s.write c (.forwarded item)).setWriter c .receiving)

def step (env : Env) (s : State) (e : Event) : Option State :=
  if s.panicked then none else
  match e with
  | .accept c now => if (s.handlers c).pc = .absent then some (accept env s c now) else none
  | .handle c now => handle env s c now
  | .receive c incoming now =>
    if (s.handlers c).pc = .receiving then some (receive env s c incoming now) else none
  | .range o =>
    match s.tasks o with
    | .spawned text =>
      let keys := s.clients.map Prod.snd
      some (s.setTask o (.ranging text ⟨[],keys,keys⟩ none))
    | _ => none
  | .visit o y =>
    match s.tasks o with
    | .ranging text range none =>
      if y ∈ range.may ∧ y ∉ range.visited then
        let range := { range with visited := y :: range.visited }
        some (s.setTask o (.ranging text range (some (y,.rLock))))
      else none
    | _ => none
  | .send o =>
    match s.tasks o with
    | .ranging text range (some (y,pc)) => sendStep s o text range y pc
    | _ => none
  | .finish o =>
    match s.tasks o with
    | .ranging _ range none =>
      if range.must.all (· ∈ range.visited) then some (s.setTask o .done) else none
    | _ => none
  | .writer c => writerStep s c

def machine (env : Env) : Machine State Event := ⟨start,step env⟩

end Wschat.Go
