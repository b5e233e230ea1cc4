import Wschat.Machine
import Wschat.CppMessage

/-! The C++ server as a machine of worker threads, strands and strong references. One
event is one handler taken by an idle worker, or one step of a worker between two posts,
lock operations or reference releases. Provenance of texts, `pushed`, `received`,
`history` and `completed` are ghost: no guard reads them. -/
namespace Wschat.Cpp

abbrev Conn := Nat
abbrev Thread := Nat

inductive Kind where
  | connect
  | frame (index : Nat)
  | reply (index : Nat)
  | disconnect
  deriving DecidableEq, Repr

/-- Who caused a text: the connection, and which of its events. -/
structure Origin where
  conn : Conn
  kind : Kind
  deriving DecidableEq, Repr

/-- `boost::shared_ptr<std::string const>` with its provenance. -/
structure Text where
  origin : Origin
  bytes : String
  deriving DecidableEq, Repr

/-- One payload handed to `WsConn::handle`: the clock then, and what the storage of the
decoded message held before. -/
structure Receipt where
  payload : String
  now : Int64
  residue : Int64
  deriving DecidableEq, Repr

structure WsConn where
  created : Bool
  refs : Nat
  accepting : Bool
  reading : Bool
  writing : Bool
  /-- The strand is executing a handler. -/
  running : Bool
  buffer : String
  /-- `on_send` handlers posted to the strand and not yet run. -/
  posted : List Text
  queue : List Text
  pushed : List Text
  received : List Receipt
  accepted : Bool
  rejected : Bool
  destroyed : Bool
  freed : Bool
  deriving DecidableEq

def WsConn.absent : WsConn :=
  ⟨false,0,false,false,false,false,"",[],[],[],[],false,false,false,false⟩

/-- Progress of one `broadcast_msg_text`. From `next` on the shared lock is held; `send`
and `drop` also hold `strong`, the result of `weak.lock()`. -/
inductive Loop where
  | enter
  | next (todo : List Conn)
  | send (y : Conn) (todo : List Conn)
  | drop (y : Conn) (todo : List Conn)
  deriving DecidableEq, Repr

inductive Caller where
  | connect
  | handle
  | disconnect
  deriving DecidableEq, Repr

inductive SetOp where
  | insert
  | erase
  deriving DecidableEq, Repr

/-- Where one function activation stands, with the variables it still needs: `send` in
`Server::connect`, `drop` where the handler object goes, with its strong reference, `leave`
where the strand is released, `free` at the end of `~WsConn`. -/
inductive Point where
  | send (x : Conn) (ss : Text)
  /-- The `catch` of `WsConn::handle`, before `this->send`. -/
  | reply (x : Conn) (ss : Text)
  | loop (caller : Caller) (x : Conn) (ss : Text) (progress : Loop)
  | lock (op : SetOp) (x : Conn)
  | update (op : SetOp) (x : Conn)
  | unlock (op : SetOp) (x : Conn)
  /-- Before `async_read`; `handle` consumes the buffer first. -/
  | read (consume : Bool) (x : Conn)
  | drop (x : Conn)
  | leave (x : Conn)
  | free (x : Conn)
  deriving DecidableEq, Repr

/-- `std::shared_mutex`: the threads that hold it shared, once for each hold, and the
thread that holds it exclusively. -/
structure SharedMutex where
  readers : List Thread
  writer : Option Thread
  deriving DecidableEq, Repr

def SharedMutex.Holds (mtx : SharedMutex) (t : Thread) : Prop :=
  t ∈ mtx.readers ∨ mtx.writer = some t

structure State where
  conns : Conn → WsConn
  clients : List Conn
  mtx : SharedMutex
  history : List Text
  completed : List (Text × List Conn)

/-- The shared state and the call stack of every worker; an idle worker's is empty. -/
structure System where
  state : State
  threads : List (List Point)

structure Env where
  lib : Nlohmann
  uuid : Conn → String
  distinct : Function.Injective uuid

def Env.numbered : Env := ⟨nlohmann,Nat.repr,fun _ _ eq => Nat.repr_inj.mp eq⟩

def State.initial : State := ⟨fun _ => .absent,[],⟨[],none⟩,[],[]⟩

def start (workers : Nat) : System := ⟨.initial,List.replicate workers []⟩

def State.modify (s : State) (x : Conn) (f : WsConn → WsConn) : State :=
  { s with conns := replace s.conns x (f (s.conns x)) }

section Modify

variable (s : State) (x y : Conn) (f : WsConn → WsConn)

@[simp] theorem modify_conns :
    (s.modify x f).conns y = if y = x then f (s.conns x) else s.conns y := rfl
@[simp] theorem modify_clients : (s.modify x f).clients = s.clients := rfl
@[simp] theorem modify_mtx : (s.modify x f).mtx = s.mtx := rfl
@[simp] theorem modify_history : (s.modify x f).history = s.history := rfl
@[simp] theorem modify_completed : (s.modify x f).completed = s.completed := rfl

end Modify

/-- `WsConn::send`: the posted handler carries `shared_from_this()`. -/
def WsConn.post (ss : Text) (c : WsConn) : WsConn :=
  { c with posted := c.posted ++ [ss], refs := c.refs + 1 }

def WsConn.retain (c : WsConn) : WsConn := { c with refs := c.refs + 1 }

def WsConn.release (c : WsConn) : WsConn :=
  { c with refs := c.refs - 1, destroyed := c.destroyed || c.refs == 1 }

def connectText (env : Env) (x : Conn) (now : Int64) : Text :=
  ⟨⟨x,.connect⟩,serialize env.lib (.system .connect (env.uuid x) now)⟩

def disconnectText (env : Env) (x : Conn) (now : Int64) : Text :=
  ⟨⟨x,.disconnect⟩,serialize env.lib (.system .disconnect (env.uuid x) now)⟩

/-- What the `try` block of `WsConn::handle` makes of the buffered text. -/
inductive Outcome where
  | broadcast (text : String)
  | reply (text : String)
  deriving DecidableEq, Repr

def outcome (lib : Nlohmann) (jsonMsg : String) (now residue : Int64) : Outcome :=
  match deserialize lib jsonMsg residue with
  | .ok msg => .broadcast (serialize lib msg)
  | .error _ => .reply (serialize lib (.system .error "bad message" now))

def handlePoint (env : Env) (x : Conn) (index : Nat) (jsonMsg : String)
    (now residue : Int64) : Point :=
  match outcome env.lib jsonMsg now residue with
  | .broadcast text => .loop .handle x ⟨⟨x,.frame index⟩,text⟩ .enter
  | .reply text => .reply x ⟨⟨x,.reply index⟩,text⟩

/-- `~WsConn` calls `Server::disconnect`, which builds its message and broadcasts. -/
def destructor (env : Env) (x : Conn) (now : Int64) : Point :=
  .loop .disconnect x (disconnectText env x now) .enter

/-- Release a strong reference and continue with `rest`; the destructor runs first. -/
def dropping (env : Env) (s : State) (x : Conn) (now : Int64) (rest : List Point) :
    State × List Point :=
  (s.modify x .release,
    if (s.conns x).refs = 1 then destructor env x now :: rest else rest)

def afterLoop (caller : Caller) (x : Conn) : Point :=
  match caller with
  | .connect => .lock .insert x
  | .handle => .read true x
  | .disconnect => .lock .erase x

/-- One step of the activation on top of worker `t`, and what takes its place. `order` is
the iteration order of the hash set, `now` the clock. -/
def exec (env : Env) (s : State) (t : Thread) (order : List Conn) (now : Int64) :
    Point → Option (State × List Point)
  | .send x ss => some (s.modify x (.post ss),[.loop .connect x ss .enter])
  | .reply x ss => some (s.modify x (.post ss),[.read true x])
  | .loop caller x ss .enter =>
    if s.mtx.writer = none ∧ order.Perm s.clients then
      some ({ s with mtx := { s.mtx with readers := t :: s.mtx.readers }
                     history := s.history ++ [ss] },[.loop caller x ss (.next order)])
    else none
  | .loop caller x ss (.next []) =>
    some ({ s with mtx := { s.mtx with readers := s.mtx.readers.erase t }
                   completed := s.completed ++
                     [(ss,s.clients.filter fun y => 0 < (s.conns y).refs)] },
      [afterLoop caller x])
  | .loop caller x ss (.next (y :: todo)) =>
    if 0 < (s.conns y).refs then
      some (s.modify y .retain,[.loop caller x ss (.send y todo)])
    else some (s,[.loop caller x ss (.next todo)])
  | .loop caller x ss (.send y todo) =>
    some (s.modify y (.post ss),[.loop caller x ss (.drop y todo)])
  | .loop caller x ss (.drop y todo) =>
    some (dropping env s y now [.loop caller x ss (.next todo)])
  | .lock op x =>
    if s.mtx.writer = none ∧ s.mtx.readers = [] then
      some ({ s with mtx := { s.mtx with writer := some t } },[.update op x])
    else none
  | .update .insert x => some ({ s with clients := s.clients.insert x },[.unlock .insert x])
  | .update .erase x => some ({ s with clients := s.clients.erase x },[.unlock .erase x])
  | .unlock .insert x =>
    some ({ s with mtx := { s.mtx with writer := none } },[.read false x])
  | .unlock .erase x => some ({ s with mtx := { s.mtx with writer := none } },[.free x])
  | .read consume x =>
    some (s.modify x fun c =>
      { c with buffer := if consume then "" else c.buffer, reading := true, refs := c.refs + 1 },
      [.drop x])
  | .drop x => some (dropping env s x now [.leave x])
  | .leave x => some (s.modify x fun c => { c with running := false },[])
  | .free x => some (s.modify x fun c => { c with freed := true },[])

inductive Event where
  /-- `HttpSession::handle` upgrades: a `WsConn` is made and its handshake begins. -/
  | upgrade (x : Conn)
  | accept (t : Thread) (x : Conn) (failed : Bool) (now : Int64)
  /-- `async_read` completes, with a payload or with an error. -/
  | read (t : Thread) (x : Conn) (payload : Option String) (now residue : Int64)
  | write (t : Thread) (x : Conn) (failed : Bool)
  | send (t : Thread) (x : Conn)
  | exec (t : Thread) (order : List Conn) (now : Int64)
  deriving DecidableEq

def WsConn.accept (failed : Bool) (c : WsConn) : WsConn :=
  { c with accepting := false, running := true, accepted := !failed, rejected := failed }

/-- `WsConn::handle` is entered; the stream has appended the payload to `buffer_`. -/
def WsConn.receive (payload : String) (now residue : Int64) (c : WsConn) : WsConn :=
  { c with reading := false, running := true, buffer := c.buffer ++ payload
           received := c.received ++ [⟨payload,now,residue⟩] }

def WsConn.readError (c : WsConn) : WsConn := { c with reading := false, running := true }

def WsConn.onWrite (failed : Bool) (c : WsConn) : WsConn :=
  if failed then { c with writing := false, running := true }
  else if c.queue.tail = [] then
    { c with writing := false, running := true, queue := [] }
  else { c with running := true, queue := c.queue.tail, refs := c.refs + 1 }

/-- `WsConn::on_send`: a write starts only when none of an earlier text is under way. -/
def WsConn.onSend (ss : Text) (rest : List Text) (c : WsConn) : WsConn :=
  let c := { c with posted := rest, running := true, queue := c.queue ++ [ss]
                    pushed := c.pushed ++ [ss] }
  if 1 < c.queue.length then c else { c with writing := true, refs := c.refs + 1 }

/-- An idle worker may take a ready handler of a connection whose strand is free. -/
def System.Ready (s : System) (t : Thread) (x : Conn) : Prop :=
  s.threads[t]? = some [] ∧ (s.state.conns x).running = false

instance (s : System) (t : Thread) (x : Conn) : Decidable (s.Ready t x) :=
  inferInstanceAs (Decidable (_ ∧ _))

def System.enter (s : System) (t : Thread) (x : Conn) (f : WsConn → WsConn) (p : Point) :
    System :=
  ⟨s.state.modify x f,s.threads.set t [p]⟩

def WsConn.upgrade (c : WsConn) : WsConn :=
  { c with created := true, refs := 1, accepting := true }

def step (env : Env) (s : System) : Event → Option System
  | .upgrade x =>
    if (s.state.conns x).created then none
    else some { s with state := s.state.modify x .upgrade }
  | .accept t x failed now =>
    if s.Ready t x ∧ (s.state.conns x).accepting = true then
      some (s.enter t x (.accept failed)
        (if failed then .drop x else .send x (connectText env x now)))
    else none
  | .read t x payload now residue =>
    if s.Ready t x ∧ (s.state.conns x).reading = true then
      match payload with
      | none => some (s.enter t x .readError (.drop x))
      | some p =>
        let c := s.state.conns x
        some (s.enter t x (.receive p now residue)
          (handlePoint env x c.received.length (c.buffer ++ p) now residue))
    else none
  | .write t x failed =>
    if s.Ready t x ∧ (s.state.conns x).writing = true then
      some (s.enter t x (.onWrite failed) (.drop x))
    else none
  | .send t x =>
    match (s.state.conns x).posted with
    | [] => none
    | ss :: rest =>
      if s.Ready t x then some (s.enter t x (.onSend ss rest) (.drop x)) else none
  | .exec t order now =>
    match s.threads[t]? with
    | some (p :: rest) =>
      (exec env s.state t order now p).map fun next =>
        ⟨next.1,s.threads.set t (next.2 ++ rest)⟩
    | _ => none

def machine (env : Env) (workers : Nat) : Machine System Event := ⟨start workers,step env⟩

/-- The texts handed to `y`: pushed to `queue_` so far, then posted and not yet run. -/
def State.stream (s : State) (y : Conn) : List Text :=
  (s.conns y).pushed ++ (s.conns y).posted

end Wschat.Cpp
