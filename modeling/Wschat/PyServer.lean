import Wschat.Machine
import Wschat.PyMessage

/-! The Python server: one coroutine for each websocket, which runs from one `await` to the
next without interruption. A broadcast walks the live list of clients by index and awaits a
`send_text` for each. -/
namespace Wschat.Py

abbrev Conn := Nat

/-- Which broadcast of a handler: a chat is numbered in the order of its frames. -/
inductive Kind where
  | connect
  | chat (k : Nat)
  | disconnect
  deriving DecidableEq, Repr

/-- A call of `broadcast_msg_str`. -/
structure Call where
  conn : Conn
  kind : Kind
  deriving DecidableEq, Repr

/-- One `send_text` of a broadcast (ghost). -/
structure Sent where
  call : Call
  recip : Conn
  text : String
  deriving DecidableEq, Repr

/-- How a handler was left. -/
inductive Exit where
  | acceptRaised
  | greetingRaised
  | replyRaised
  | removeRaised
  | finished
  deriving DecidableEq, Repr

/-- The `await` a handler is suspended in. A broadcast has taken the client before `index`. -/
inductive Pc where
  | absent
  | accepting
  | sending (kind : Kind) (index : Nat) (s : String)
  | greeting
  | receiving
  | replying
  | returned (exit : Exit)
  deriving DecidableEq, Repr

/-- `chats` counts the chats broadcast (ghost). -/
structure Handler where
  pc : Pc
  chats : Nat

structure State where
  handlers : Conn → Handler
  clients : List Conn
  calls : List (Call × String)
  sends : List Sent

structure Env where
  lib : JsonModule
  uuid : Conn → String
  distinct : Function.Injective uuid

def Env.numbered : Env := ⟨jsonModule,Nat.repr,fun _ _ eq => Nat.repr_inj.mp eq⟩

def start : State := ⟨fun _ => ⟨.absent,0⟩,[],[],[]⟩

def State.goto (s : State) (c : Conn) (pc : Pc) : State :=
  { s with handlers := replace s.handlers c { s.handlers c with pc } }

def State.number (s : State) (c : Conn) : State :=
  { s with handlers := replace s.handlers c { s.handlers c with chats := (s.handlers c).chats + 1 } }

/-- `clients.add` and `clients.remove`; the list's `remove` raises on an absent value. -/
def State.add (s : State) (c : Conn) : State := { s with clients := s.clients ++ [c] }

def State.remove (s : State) (c : Conn) : State :=
  if c ∈ s.clients then { s with clients := s.clients.erase c }.goto c (.returned .finished)
  else s.goto c (.returned .removeRaised)

def State.sendText (s : State) (sent : Sent) : State := { s with sends := s.sends ++ [sent] }

def State.record (s : State) (call : Call) (text : String) : State :=
  { s with calls := s.calls ++ [(call,text)] }

/-- What `handler` does after a broadcast. -/
def State.afterLoop (s : State) (c : Conn) : Kind → State
  | .connect => s.goto c .greeting
  | .chat _ => s.goto c .receiving
  | .disconnect => s.remove c

/-- The loop of `broadcast_msg_str`, from the iterator's next position to the next `await`. -/
def State.loop (s : State) (c : Conn) (kind : Kind) (index : Nat) (text : String) : State :=
  match s.clients[index]? with
  | some ws => (s.sendText ⟨⟨c,kind⟩,ws,text⟩).goto c (.sending kind (index+1) text)
  | none => s.afterLoop c kind

def State.broadcastMsg (env : Env) (s : State) (c : Conn) (kind : Kind) (msg : Message) : State :=
  let text := toJson env.lib msg
  (s.record ⟨c,kind⟩ text).loop c kind 0 text

/-- What `receive_text` returns or raises. -/
inductive Received where
  | text (s : String)
  | webSocketDisconnect
  | exception
  deriving DecidableEq

/-- The code after the receive loop. -/
def State.leave (env : Env) (s : State) (c : Conn) (now : Int) : State :=
  s.broadcastMsg env c .disconnect (newSystem .disconnect (env.uuid c) now)

/-- One round of the receive loop: every exception but a `JSONDecodeError` leaves it. -/
def State.receive (env : Env) (s : State) (c : Conn) (now : Int) : Received → State
  | .webSocketDisconnect | .exception => s.leave env c now
  | .text frame =>
    match fromJson env.lib frame with
    | .ok msg =>
      (s.number c).broadcastMsg env c (.chat (s.handlers c).chats)
        (newChat (env.uuid c) msg.contents now)
    | .error .jsonDecodeError => s.goto c .replying
    | .error _ => s.leave env c now

inductive Event where
  | connect (c : Conn)
  | accepted (c : Conn) (raised : Bool) (now : Int)
  /-- The `send_text` that a broadcast awaits is over. -/
  | sent (c : Conn) (raised : Bool)
  | greeted (c : Conn) (raised : Bool)
  | received (c : Conn) (result : Received) (now : Int)
  /-- The `send_text` of the error reply is over: its argument is no string. -/
  | replied (c : Conn)
  deriving DecidableEq

def step (env : Env) (s : State) : Event → Option State
  | .connect c => if (s.handlers c).pc = .absent then some (s.goto c .accepting) else none
  | .accepted c raised now =>
    if (s.handlers c).pc = .accepting then
      if raised then some (s.goto c (.returned .acceptRaised))
      else some (s.broadcastMsg env c .connect (newSystem .connect (env.uuid c) now))
    else none
  | .sent c _ =>
    match (s.handlers c).pc with
    | .sending kind index text => some (s.loop c kind index text)
    | _ => none
  | .greeted c raised =>
    if (s.handlers c).pc = .greeting then
      if raised then some (s.goto c (.returned .greetingRaised))
      else some ((s.add c).goto c .receiving)
    else none
  | .received c result now =>
    if (s.handlers c).pc = .receiving then some (s.receive env c now result) else none
  | .replied c =>
    if (s.handlers c).pc = .replying then some (s.goto c (.returned .replyRaised)) else none

def machine (env : Env) : Machine State Event := ⟨start,step env⟩

end Wschat.Py
