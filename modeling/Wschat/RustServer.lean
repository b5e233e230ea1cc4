import Wschat.Machine
import Wschat.RustMessage

/-! The Rust server: one `Server` actor and a `Conn` actor for each client. An actor step
handles one message. Messages between two actors stay in order, those of different senders
may overtake each other, and a stopped receiver drops what is sent to it. -/
namespace Wschat.Rust

abbrev Conn := Nat

/-- What a `Conn` sends to the `Server`. -/
inductive ToServer where
  | connect (uuid : String) (recip : Conn)
  | message (msg : Message)
  | disconnect (uuid : String)
  deriving DecidableEq

/-- `ws::Message`, or the error the stream yields in its place. -/
inductive Frame where
  | ping (msg : List UInt8)
  | pong (msg : List UInt8)
  | text (text : String)
  | binary (bytes : List UInt8)
  | close (reason : Option String)
  | continuation
  | nop
  | error
  deriving DecidableEq

/-- What a `Conn` writes to its client. -/
inductive Written where
  | pong (msg : List UInt8)
  | text (text : String)
  | close (reason : Option String)
  deriving DecidableEq

inductive Phase where
  | absent
  | running
  | stopped
  deriving DecidableEq

/-- One `Conn` actor: its mailbox of `SerMsg`s, its messages on the way to the server, and
what it has handled and written (ghost). -/
structure ConnState where
  phase : Phase
  mailbox : List String
  outgoing : List ToServer
  handled : List String
  written : List Written

def ConnState.absent : ConnState := ⟨.absent,[],[],[],[]⟩

inductive EntryKind where
  | connect
  | chat
  | disconnect
  deriving DecidableEq

/-- One text the `Server` has produced, for which uuid (ghost). -/
structure Entry where
  kind : EntryKind
  uuid : String
  text : String
  deriving DecidableEq

structure State where
  conns : Conn → ConnState
  /-- `HashMap<String, Recipient<SerMsg>>`. -/
  clients : List (String × Conn)
  log : List Entry

structure Env where
  lib : SerdeJson
  uuid : Conn → String
  distinct : Function.Injective uuid

def Env.numbered : Env := ⟨serdeJson,Nat.repr,fun _ _ eq => Nat.repr_inj.mp eq⟩

def start : State := ⟨fun _ => .absent,[],[]⟩

def State.modify (s : State) (c : Conn) (f : ConnState → ConnState) : State :=
  { s with conns := replace s.conns c (f (s.conns c)) }

@[simp] theorem modify_conns (s : State) (c d : Conn) (f : ConnState → ConnState) :
    (s.modify c f).conns d = if d = c then f (s.conns c) else s.conns d := rfl
@[simp] theorem modify_clients (s : State) (c : Conn) (f : ConnState → ConnState) :
    (s.modify c f).clients = s.clients := rfl
@[simp] theorem modify_log (s : State) (c : Conn) (f : ConnState → ConnState) :
    (s.modify c f).log = s.log := rfl

/-- `do_send` to the server, which never stops. -/
def ConnState.send (msg : ToServer) (c : ConnState) : ConnState :=
  { c with outgoing := c.outgoing ++ [msg] }

def ConnState.write (out : Written) (c : ConnState) : ConnState :=
  { c with written := c.written ++ [out] }

/-- `do_send` to a recipient. -/
def ConnState.receive (text : String) (c : ConnState) : ConnState :=
  if c.phase = .running then { c with mailbox := c.mailbox ++ [text] } else c

/-- `started`. -/
def ConnState.started (env : Env) (c : Conn) (conn : ConnState) : ConnState :=
  { conn with phase := .running }.send (.connect (env.uuid c) c)

/-- The context is told to stop: `stopping` runs and the mailbox is dropped. -/
def ConnState.stop (env : Env) (c : Conn) (conn : ConnState) : ConnState :=
  { conn with phase := .stopped, mailbox := [] }.send (.disconnect (env.uuid c))

/-- `StreamHandler::handle`. -/
def ConnState.handle (env : Env) (c : Conn) (frame : Frame) (now : UInt64) (conn : ConnState) :
    ConnState :=
  match frame with
  | .ping msg => conn.write (.pong msg)
  | .pong _ | .binary _ | .nop => conn
  | .close reason => (conn.write (.close reason)).stop env c
  | .continuation | .error => conn.stop env c
  | .text text =>
    match fromStr env.lib text with
    | none => conn.write (.text (toString env.lib (.newSystem .error "bad message" now)))
    | some msg => conn.send (.message (.newChat (env.uuid c) msg.contents now))

/-- `Handler<SerMsg>`. -/
def ConnState.handleSerMsg (text : String) (rest : List String) (conn : ConnState) : ConnState :=
  { conn with mailbox := rest, handled := conn.handled ++ [text] }.write (.text text)

/-- `broadcast_msg_text`. -/
def State.broadcastMsgText (s : State) (text : String) : State :=
  s.clients.foldl (fun s client => s.modify client.2 (.receive text)) s

def State.record (s : State) (entry : Entry) : State := { s with log := s.log ++ [entry] }

def connectEntry (env : Env) (uuid : String) (now : UInt64) : Entry :=
  ⟨.connect,uuid,toString env.lib (.newSystem .connect uuid now)⟩

def chatEntry (env : Env) (msg : Message) : Entry := ⟨.chat,msg.sender,toString env.lib msg⟩

def disconnectEntry (env : Env) (uuid : String) (now : UInt64) : Entry :=
  ⟨.disconnect,uuid,toString env.lib (.newSystem .disconnect uuid now)⟩

/-- The three handlers of the `Server`. -/
def State.serve (env : Env) (s : State) (now : UInt64) : ToServer → State
  | .connect uuid recip =>
    let entry := connectEntry env uuid now
    let s := (s.record entry).broadcastMsgText entry.text
    let s := s.modify recip (.receive entry.text)
    { s with clients := (s.clients.filter fun client => client.1 ≠ uuid) ++ [(uuid,recip)] }
  | .message msg =>
    let entry := chatEntry env msg
    (s.record entry).broadcastMsgText entry.text
  | .disconnect uuid =>
    let entry := disconnectEntry env uuid now
    let s := (s.record entry).broadcastMsgText entry.text
    { s with clients := s.clients.filter fun client => client.1 ≠ uuid }

inductive Event where
  /-- `ws::start` spawns the actor. -/
  | start (c : Conn)
  | frame (c : Conn) (frame : Frame) (now : UInt64)
  /-- The `Conn` handles the next `SerMsg` of its mailbox. -/
  | serMsg (c : Conn)
  /-- The stream has ended, or the context is dropped with the connection. -/
  | finished (c : Conn)
  /-- The `Server` handles the next message of this `Conn`. -/
  | serve (c : Conn) (now : UInt64)
  deriving DecidableEq

def step (env : Env) (s : State) : Event → Option State
  | .start c =>
    if (s.conns c).phase = .absent then some (s.modify c (.started env c)) else none
  | .frame c frame now =>
    if (s.conns c).phase = .running then some (s.modify c (.handle env c frame now)) else none
  | .serMsg c =>
    match (s.conns c).mailbox with
    | [] => none
    | text :: rest =>
      if (s.conns c).phase = .running then some (s.modify c (.handleSerMsg text rest)) else none
  | .finished c =>
    if (s.conns c).phase = .running then some (s.modify c (.stop env c)) else none
  | .serve c now =>
    match (s.conns c).outgoing with
    | [] => none
    | msg :: rest =>
      some ((s.modify c fun conn => { conn with outgoing := rest }).serve env now msg)

def machine (env : Env) : Machine State Event := ⟨start,step env⟩

end Wschat.Rust
