import Wschat.Machine

/-! The page of `index.js`: its handlers are shared by every WebSocket it has created and
are not told which socket an event belongs to. A browser fires no message after `close()`,
and a socket's close event last. -/
namespace Wschat.Web

/-- A JavaScript value, up to `===`. -/
inductive JsValue where
  | undefined
  | string (s : String)
  | bigint (n : Int)
  | other (identity : Nat)
  deriving DecidableEq, Repr

/-- What `parseMessage` returns. -/
structure Msg where
  sender : JsValue
  action : JsValue
  contents : JsValue
  timestamp : JsValue
  deriving DecidableEq, Repr

/-- The branches of the `switch` in `messageHandler`. -/
inductive Case where
  | connect
  | chat
  | disconnect
  | error
  | default
  deriving DecidableEq, Repr

def switch (action : JsValue) : Case :=
  if action = .string "connect" then .connect
  else if action = .string "chat" then .chat
  else if action = .string "disconnect" then .disconnect
  else if action = .string "error" then .error
  else .default

inductive Phase where
  | connecting
  | open_
  | closing
  /-- The error event has been fired. -/
  | failed
  | closed
  deriving DecidableEq, Repr

/-- A WebSocket in the browser: whether it has fired its open event, whether the page has
closed it, and the messages it has delivered (ghost). -/
structure Socket where
  phase : Phase
  opened : Bool
  closedByPage : Bool
  received : List Msg
  deriving DecidableEq

def Socket.new : Socket := ⟨.connecting,false,false,[]⟩

/-- `close()`. On a socket that is connecting, it makes the connection fail. -/
def Socket.close (s : Socket) : Socket :=
  { s with
    closedByPage := true
    phase := match s.phase with
      | .connecting | .open_ | .closing => .closing
      | .failed => .failed
      | .closed => .closed }

/-- A message in the view, with the socket it was received on (ghost). -/
structure Shown where
  socket : Nat
  msg : Msg
  deriving DecidableEq

/-- The data of the component that the handlers use, and the sockets by order of creation. -/
structure Page where
  ws : Option Nat
  isOpen : Bool
  uuid : JsValue
  messages : List Shown
  sockets : Nat → Socket
  created : Nat

/-- `parse` is `parseMessage`, which may throw; `less` is the operator on timestamps. -/
structure Env where
  parse : String → Option Msg
  less : JsValue → JsValue → Bool

def mounted : Page := ⟨none,false,.string "",[],fun _ => .new,0⟩

namespace Page

def isConnected (p : Page) : Bool := p.isOpen && p.ws.isSome

def setSocket (p : Page) (c : Nat) (s : Socket) : Page :=
  { p with sockets := replace p.sockets c s }

def closeWs (p : Page) : Page :=
  match p.ws with
  | some c => p.setSocket c (p.sockets c).close
  | none => p

def reset (p : Page) : Page :=
  let p := if p.isConnected then { p.closeWs with isOpen := false } else p
  { p with uuid := .string "", messages := [], ws := none }

/-- `throws` says that the constructor of `WebSocket` rejects the address. -/
def connectToWs (p : Page) (throws : Bool) : Page :=
  let p := if p.isConnected then p.reset else p
  if throws then p
  else
    { p with
      ws := some p.created
      sockets := replace p.sockets p.created .new
      created := p.created + 1 }

def openHandler (p : Page) : Page := { p with isOpen := true }

def errorHandler (p : Page) : Page := p.reset

def closeHandler (p : Page) : Page := if p.isConnected then p.reset else p

/-- `known` says that `servers` has an address under the chosen name. -/
def changeServer (p : Page) (known throws : Bool) : Page :=
  if known then p.connectToWs throws else p.reset

/-- `findLastIndex` and `splice`: after the last message that is earlier. -/
def insert (env : Env) (p : Page) (new : Shown) : Page :=
  let after := p.messages.reverse.dropWhile fun elem =>
    !env.less elem.msg.timestamp new.msg.timestamp
  { p with messages := p.messages.take after.length ++ new :: p.messages.drop after.length }

/-- The socket `c` is ghost. -/
def messageHandler (env : Env) (p : Page) (c : Nat) (data : String) : Page :=
  match env.parse data with
  | none => p.errorHandler
  | some msg =>
    match switch msg.action with
    | .connect =>
      insert env (if p.uuid = .string "" then { p with uuid := msg.contents } else p) ⟨c,msg⟩
    | .chat => insert env p ⟨c,msg⟩
    | .disconnect => insert env (if msg.contents = p.uuid then p.reset else p) ⟨c,msg⟩
    | .error => insert env p.errorHandler ⟨c,msg⟩
    | .default => p.errorHandler

end Page

inductive Event where
  | connectToWs (throws : Bool)
  | changeServer (known throws : Bool)
  | opened (c : Nat)
  | message (c : Nat) (data : String)
  | error (c : Nat)
  | closed (c : Nat)
  deriving DecidableEq

/-- The socket that fires the event. -/
def Event.socket : Event → Option Nat
  | .connectToWs _ | .changeServer _ _ => none
  | .opened c | .message c _ | .error c | .closed c => some c

/-- A message that is parsed has been delivered. -/
def Socket.deliver (env : Env) (data : String) (s : Socket) : Socket :=
  match env.parse data with
  | some msg => { s with received := s.received ++ [msg] }
  | none => s

def step (env : Env) (p : Page) : Event → Option Page
  | .connectToWs throws => some (p.connectToWs throws)
  | .changeServer known throws => some (p.changeServer known throws)
  | .opened c =>
    let s := p.sockets c
    if c < p.created ∧ s.phase = .connecting then
      some (p.setSocket c { s with phase := .open_, opened := true }).openHandler
    else none
  | .message c data =>
    let s := p.sockets c
    if c < p.created ∧ s.phase = .open_ then
      some ((p.setSocket c (s.deliver env data)).messageHandler env c data)
    else none
  | .error c =>
    let s := p.sockets c
    if c < p.created ∧ s.phase ≠ .failed ∧ s.phase ≠ .closed then
      some (p.setSocket c { s with phase := .failed }).errorHandler
    else none
  | .closed c =>
    let s := p.sockets c
    if c < p.created ∧ s.phase ≠ .closed then
      some (p.setSocket c { s with phase := .closed }).closeHandler
    else none

def machine (env : Env) : Machine Page Event := ⟨mounted,step env⟩

end Wschat.Web
