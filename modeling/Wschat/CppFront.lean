import Wschat.CppProgress

/-! What stands before the websocket server: the listener, and one HTTP session for each
socket it accepts. A session answers requests until one of them is an upgrade, and hands
its socket over to a `WsConn`. -/
namespace Wschat.Cpp.Front

/-- `upgrade` is what `websocket::is_upgrade` says of the request. -/
structure Request where
  target : String
  version : Nat
  keepAlive : Bool
  upgrade : Bool
  deriving DecidableEq, Repr

structure Response where
  status : Nat
  version : Nat
  contentType : String
  keepAlive : Bool
  body : String
  deriving DecidableEq, Repr

def handleRequest (req : Request) : Response :=
  if req.target.isEmpty || req.target.toList.head? == some '/' then
    ⟨400,req.version,"text/html",req.keepAlive,"not websocket protocol"⟩
  else ⟨404,req.version,"text/html",req.keepAlive,""⟩

inductive ErrorKind where
  | endOfStream
  | operationAborted
  | other
  deriving DecidableEq, Repr

structure ErrorCode where
  kind : ErrorKind
  message : String
  deriving DecidableEq, Repr

/-- `fail`: what is printed to `std::cerr`. -/
def fail (ec : ErrorCode) (what : String) : List String :=
  if ec.kind = .operationAborted then [] else [what ++ ": " ++ ec.message ++ "\n"]

inductive Socket where
  | absent
  | owned
  | shutdown
  /-- Moved out of `stream_` by `release_socket`. -/
  | released
  deriving DecidableEq, Repr

/-- An asynchronous operation on `stream_`; its handler keeps the session alive. -/
inductive Op where
  | read
  | write (keepAlive : Bool)
  deriving DecidableEq, Repr

/-- The requests read and the responses given to `async_write` are ghost. -/
structure HttpSession where
  socket : Socket
  pending : List Op
  requests : List Request
  responses : List Response
  deriving DecidableEq, Repr

namespace HttpSession

def absent : HttpSession := ⟨.absent,[],[],[]⟩

def doRead (h : HttpSession) : HttpSession := { h with pending := h.pending ++ [.read] }

/-- The constructor and `run`. -/
def run : HttpSession := doRead ⟨.owned,[],[],[]⟩

/-- A handler is called: its operation is over. -/
def complete (op : Op) (h : HttpSession) : HttpSession := { h with pending := h.pending.erase op }

/-- `handle` after an error. -/
def readError (ec : ErrorCode) (h : HttpSession) : HttpSession :=
  if ec.kind = .endOfStream then { h with socket := .shutdown } else h

/-- `handle` for an upgrade. -/
def handOver (req : Request) (h : HttpSession) : HttpSession :=
  { h with socket := .released, requests := h.requests ++ [req] }

/-- `handle` for any other request. -/
def respond (req : Request) (h : HttpSession) : HttpSession :=
  let msg := handleRequest req
  { h with pending := h.pending ++ [.write msg.keepAlive], requests := h.requests ++ [req]
           responses := h.responses ++ [msg] }

def onWrite (ec : Option ErrorCode) (keepAlive : Bool) (h : HttpSession) : HttpSession :=
  match ec with
  | some _ => h
  | none => if keepAlive then h.doRead else { h with socket := .shutdown }

end HttpSession

/-- The listener, its sessions, and the server they pass websockets to. -/
structure State where
  /-- An `async_accept` is pending. -/
  accepting : Bool
  sessions : Conn → HttpSession
  stderr : List String
  server : System

inductive Event where
  /-- `Listener::accept`, with a socket or with an error. -/
  | accept (x : Conn)
  | acceptError (ec : ErrorCode)
  /-- `HttpSession::handle`. -/
  | request (x : Conn) (req : Request)
  | readError (x : Conn) (ec : ErrorCode)
  | onWrite (x : Conn) (ec : Option ErrorCode) (keepAlive : Bool)
  /-- A step of the websocket server. -/
  | server (e : Cpp.Event)
  deriving DecidableEq

def State.setSession (s : State) (x : Conn) (h : HttpSession) : State :=
  { s with sessions := replace s.sessions x h }

def step (env : Env) (s : State) : Event → Option State
  | .accept x =>
    if s.accepting = true ∧ (s.sessions x).socket = .absent then some (s.setSession x .run)
    else none
  | .acceptError ec =>
    if s.accepting = true then
      some { s with accepting := false, stderr := s.stderr ++ fail ec "accept" }
    else none
  | .request x req =>
    let h := s.sessions x
    if .read ∈ h.pending then
      if req.upgrade = true then
        (Cpp.step env s.server (.upgrade x)).map fun server =>
          { s.setSession x ((h.complete .read).handOver req) with server }
      else some (s.setSession x ((h.complete .read).respond req))
    else none
  | .readError x ec =>
    let h := s.sessions x
    if .read ∈ h.pending then
      some { s.setSession x ((h.complete .read).readError ec) with
        stderr := s.stderr ++ if ec.kind = .endOfStream then [] else fail ec "read" }
    else none
  | .onWrite x ec keepAlive =>
    let h := s.sessions x
    if .write keepAlive ∈ h.pending then
      some { s.setSession x ((h.complete (.write keepAlive)).onWrite ec keepAlive) with
        stderr := s.stderr ++ (ec.map fun ec => fail ec "write").getD [] }
    else none
  | .server e =>
    match e with
    | .upgrade _ => none
    | e => (Cpp.step env s.server e).map fun server => { s with server }

def machine (env : Env) (workers : Nat) : Machine State Event where
  start := ⟨true,fun _ => .absent,[],Cpp.start workers⟩
  step := step env

section Session

/-- One session: it has one operation at most, on a socket that is its own, and has answered
each request but an upgrade, in order. -/
structure Serves (h : HttpSession) : Prop where
  fresh : h.socket = .absent → h = .absent
  single : h.pending.length ≤ 1
  owned : h.pending ≠ [] → h.socket = .owned
  answered : h.responses = (h.requests.filter fun r => !r.upgrade).map handleRequest
  earlier : ∀ r ∈ h.requests.dropLast, r.keepAlive = true ∧ r.upgrade = false
  reading : .read ∈ h.pending → ∀ r ∈ h.requests, r.keepAlive = true ∧ r.upgrade = false
  writing : ∀ k, .write k ∈ h.pending →
    ∃ r, h.requests.getLast? = some r ∧ r.keepAlive = k ∧ r.upgrade = false
  released : h.socket = .released ↔ ∃ r, h.requests.getLast? = some r ∧ r.upgrade = true

variable {h : HttpSession}

theorem handleRequest_keepAlive (req : Request) : (handleRequest req).keepAlive = req.keepAlive := by
  unfold handleRequest
  split <;> rfl

theorem absent_serves : Serves .absent := by
  constructor <;> simp [HttpSession.absent]

theorem run_serves : Serves .run := by
  constructor <;> simp [HttpSession.run,HttpSession.doRead]

theorem Serves.only (serves : Serves h) (member : op ∈ h.pending) : h.pending = [op] := by
  cases ops : h.pending with
  | nil => simp [ops] at member
  | cons first rest =>
    have single := serves.single
    rw [ops,List.length_cons] at single
    obtain rfl : rest = [] := List.eq_nil_of_length_eq_zero (by omega)
    rw [ops] at member
    rw [List.mem_singleton.mp member]

theorem Serves.complete (serves : Serves h) (member : op ∈ h.pending) :
    (h.complete op).pending = [] := by
  simp [HttpSession.complete,serves.only member]

theorem Serves.socket (serves : Serves h) (member : op ∈ h.pending) : h.socket = .owned :=
  serves.owned (List.ne_nil_of_mem member)

/-- A session that holds its socket has not met an upgrade. -/
theorem Serves.unreleased (serves : Serves h) (member : op ∈ h.pending) :
    ¬∃ r, h.requests.getLast? = some r ∧ r.upgrade = true := by
  rw [← serves.released,serves.socket member]
  exact Socket.noConfusion

theorem Serves.handOver (serves : Serves h) (member : .read ∈ h.pending) (req : Request)
    (upgrade : req.upgrade = true) : Serves ((h.complete .read).handOver req) := by
  have empty := serves.complete member
  have before := serves.reading member
  refine ⟨by simp [HttpSession.handOver],?_,?_,?_,?_,?_,?_,?_⟩ <;>
    simp only [HttpSession.handOver,empty]
  · simp
  · simp
  · simp [HttpSession.complete,serves.answered,List.filter_append,upgrade]
  · simpa [HttpSession.complete] using before
  · simp
  · simp
  · simp [upgrade]

theorem Serves.respond (serves : Serves h) (member : .read ∈ h.pending) (req : Request)
    (plain : req.upgrade = false) : Serves ((h.complete .read).respond req) := by
  have empty := serves.complete member
  have before := serves.reading member
  have socket := serves.socket member
  refine ⟨?_,?_,?_,?_,?_,?_,?_,?_⟩ <;>
    simp only [HttpSession.respond,empty,List.nil_append,handleRequest_keepAlive]
  · simp [HttpSession.complete,socket]
  · simp
  · simp [HttpSession.complete,socket]
  · simp [HttpSession.complete,serves.answered,List.filter_append,plain]
  · simpa [HttpSession.complete] using before
  · simp
  · simp [plain]
  · simp [HttpSession.complete,socket,plain]

theorem Serves.readError (serves : Serves h) (member : .read ∈ h.pending) (ec : ErrorCode) :
    Serves ((h.complete .read).readError ec) := by
  have empty := serves.complete member
  have socket := serves.socket member
  have unreleased := serves.unreleased member
  unfold HttpSession.readError
  split
  all_goals
    refine ⟨?_,?_,?_,serves.answered,serves.earlier,?_,?_,?_⟩
    · simp [HttpSession.complete,socket]
    · simp [empty]
    · simp [empty]
    · simp [empty]
    · simp [empty]
    · simpa [HttpSession.complete,socket] using unreleased

theorem Serves.onWrite (serves : Serves h) (member : .write k ∈ h.pending) (ec : Option ErrorCode) :
    Serves ((h.complete (.write k)).onWrite ec k) := by
  have empty := serves.complete member
  have socket := serves.socket member
  have unreleased := serves.unreleased member
  unfold HttpSession.onWrite
  split
  · refine ⟨?_,?_,?_,serves.answered,serves.earlier,?_,?_,?_⟩
    · simp [HttpSession.complete,socket]
    · simp [empty]
    · simp [empty]
    · simp [empty]
    · simp [empty]
    · simpa [HttpSession.complete,socket] using unreleased
  · split
    · next again =>
      obtain ⟨r,last,keepAlive,plain⟩ := serves.writing k member
      refine ⟨?_,?_,?_,serves.answered,serves.earlier,?_,?_,?_⟩
      · simp [HttpSession.doRead,HttpSession.complete,socket]
      · simp [HttpSession.doRead,empty]
      · simp [HttpSession.doRead,HttpSession.complete,socket]
      · intro _ r' inside
        have cut := List.dropLast_append_getLast? r last
        rw [HttpSession.doRead,HttpSession.complete,← cut] at inside
        rcases List.mem_append.mp inside with front | here
        · exact serves.earlier r' front
        · rw [List.mem_singleton.mp here]
          exact ⟨keepAlive.trans again,plain⟩
      · simp [HttpSession.doRead,empty]
      · simpa [HttpSession.doRead,HttpSession.complete,socket] using unreleased
    · refine ⟨?_,?_,?_,serves.answered,serves.earlier,?_,?_,?_⟩
      · simp [HttpSession.complete]
      · simp [empty]
      · simp [empty]
      · simp [empty]
      · simp [empty]
      · simpa [HttpSession.complete] using unreleased

end Session

theorem enter_created (s : System) (t : Thread) (z : Conn) (f : WsConn → WsConn) (p : Point)
    (same : ∀ c, (f c).created = c.created) (x : Conn) :
    ((s.enter t z f p).state.conns x).created = (s.state.conns x).created := by
  by_cases here : x = z
  · subst x; simpa [System.enter] using same _
  · simp [System.enter,here]

theorem onWrite_created (c : WsConn) (failed : Bool) : (c.onWrite failed).created = c.created := by
  unfold WsConn.onWrite
  split
  · rfl
  · split <;> rfl

theorem onSend_created (c : WsConn) (ss : Text) (rest : List Text) :
    (c.onSend ss rest).created = c.created := by
  unfold WsConn.onSend
  dsimp only
  split <;> rfl

theorem exec_created (env : Env) (t : Thread) (s next : Cpp.State) (p : Point) (new : List Point)
    (moved : Move env t s [p] next new) (x : Conn) :
    (next.conns x).created = (s.conns x).created := by
  have modified (y : Conn) (f : WsConn → WsConn) (same : ∀ c, (f c).created = c.created) :
      ((s.modify y f).conns x).created = (s.conns x).created := by
    by_cases here : x = y
    · subst x; simpa using same _
    · simp [here]
  cases moved with
  | lockShared | unlockShared | expired | lock | insert | erase | unlockInsert | unlockErase => rfl
  | _ => exact modified _ _ (fun _ => rfl)

/-- Only an upgrade makes a connection. -/
theorem step_created (env : Env) (s next : System) (e : Cpp.Event)
    (inner : ∀ x, e ≠ .upgrade x) (stepped : Cpp.step env s e = some next) (x : Conn) :
    (next.state.conns x).created = (s.state.conns x).created := by
  cases e with
  | upgrade z => exact absurd rfl (inner z)
  | accept t z failed now =>
    simp only [Cpp.step,Option.ite_none_right_eq_some,Option.some.injEq] at stepped
    rw [← stepped.2]
    exact enter_created s t z (.accept failed) _ (fun _ => rfl) x
  | read t z payload now residue =>
    simp only [Cpp.step,Option.ite_none_right_eq_some] at stepped
    cases payload with
    | none =>
      rw [← Option.some.inj stepped.2]
      exact enter_created s t z .readError _ (fun _ => rfl) x
    | some p =>
      rw [← Option.some.inj stepped.2]
      exact enter_created s t z (.receive p now residue) _ (fun _ => rfl) x
  | write t z failed =>
    simp only [Cpp.step,Option.ite_none_right_eq_some,Option.some.injEq] at stepped
    rw [← stepped.2]
    exact enter_created s t z _ _ (fun c => onWrite_created c failed) x
  | send t z =>
    simp only [Cpp.step] at stepped
    split at stepped
    case h_1 => contradiction
    case h_2 ss rest posted =>
      simp only [Option.ite_none_right_eq_some,Option.some.injEq] at stepped
      rw [← stepped.2]
      exact enter_created s t z _ _ (fun c => onSend_created c ss rest) x
  | exec t order now =>
    obtain ⟨t,p,rest,new,-,moved,-⟩ := exec_step env s next _ rfl stepped
    exact exec_created env t s.state next.state p new moved x

/-- The sessions and the websocket server: a connection there is the socket of a session. -/
structure Valid (s : State) : Prop where
  serves : ∀ x, Serves (s.sessions x)
  handed : ∀ x, (s.server.state.conns x).created = true ↔ (s.sessions x).socket = .released

/-- The steps of the websocket server in a schedule. -/
def project : Event → Option Cpp.Event
  | .request x req => if req.upgrade = true then some (.upgrade x) else none
  | .server e => some e
  | _ => none

/-- A step serves one session and leaves the server alone, hands a socket over, or is one of
the server. -/
theorem front_cases (env : Env) (s next : State) (e : Event) (valid : Valid s)
    (stepped : step env s e = some next) :
    (∃ x h, Serves h ∧ h.socket ≠ .released ∧ (s.sessions x).socket ≠ .released ∧
      next.sessions = replace s.sessions x h ∧ next.server = s.server ∧ project e = none) ∨
    (next.sessions = s.sessions ∧ next.server = s.server ∧ project e = none) ∨
    (∃ x h, Serves h ∧ h.socket = .released ∧ next.sessions = replace s.sessions x h ∧
      Cpp.step env s.server (.upgrade x) = some next.server ∧ project e = some (.upgrade x)) ∨
    ∃ e', (∀ x, e' ≠ .upgrade x) ∧ next.sessions = s.sessions ∧
      Cpp.step env s.server e' = some next.server ∧ project e = some e' := by
  cases e with
  | accept x =>
    simp only [step,Option.ite_none_right_eq_some,Option.some.injEq] at stepped
    obtain ⟨⟨-,fresh⟩,rfl⟩ := stepped
    exact .inl ⟨x,.run,run_serves,by simp [HttpSession.run,HttpSession.doRead],by simp [fresh],rfl,
      rfl,rfl⟩
  | acceptError ec =>
    simp only [step,Option.ite_none_right_eq_some,Option.some.injEq] at stepped
    obtain ⟨-,rfl⟩ := stepped
    exact .inr (.inl ⟨rfl,rfl,rfl⟩)
  | request x req =>
    simp only [step,Option.ite_none_right_eq_some] at stepped
    obtain ⟨member,stepped⟩ := stepped
    have socket := (valid.serves x).socket member
    split at stepped
    · next upgrade =>
      obtain ⟨server,made,rfl⟩ := Option.map_eq_some_iff.mp stepped
      exact .inr (.inr (.inl ⟨x,_,(valid.serves x).handOver member req upgrade,rfl,rfl,made,
        by simp [project,upgrade]⟩))
    · next plain =>
      obtain rfl := Option.some.inj stepped
      refine .inl ⟨x,_,(valid.serves x).respond member req (by simpa using plain),?_,?_,rfl,rfl,
        by simp [project,plain]⟩
      · simp [HttpSession.respond,HttpSession.complete,socket]
      · simp [socket]
  | readError x ec =>
    simp only [step,Option.ite_none_right_eq_some,Option.some.injEq] at stepped
    obtain ⟨member,rfl⟩ := stepped
    have socket := (valid.serves x).socket member
    refine .inl ⟨x,_,(valid.serves x).readError member ec,?_,by simp [socket],rfl,rfl,rfl⟩
    unfold HttpSession.readError
    split <;> simp [HttpSession.complete,socket]
  | onWrite x ec keepAlive =>
    simp only [step,Option.ite_none_right_eq_some,Option.some.injEq] at stepped
    obtain ⟨member,rfl⟩ := stepped
    have socket := (valid.serves x).socket member
    refine .inl ⟨x,_,(valid.serves x).onWrite member ec,?_,by simp [socket],rfl,rfl,rfl⟩
    unfold HttpSession.onWrite
    split
    · simp [HttpSession.complete,socket]
    · split <;> simp [HttpSession.doRead,HttpSession.complete,socket]
  | server e =>
    cases e with
    | upgrade x => simp [step] at stepped
    | _ =>
      obtain ⟨server,moved,rfl⟩ := Option.map_eq_some_iff.mp stepped
      exact .inr (.inr (.inr ⟨_,by simp,rfl,moved,rfl⟩))

theorem step_valid (env : Env) (s next : State) (e : Event) (valid : Valid s)
    (stepped : step env s e = some next) : Valid next := by
  obtain ⟨serves,handed⟩ := id valid
  rcases front_cases env s next e valid stepped with
    ⟨x,h,good,kept,before,sessions,server,-⟩ | ⟨sessions,server,-⟩ |
    ⟨x,h,good,released,sessions,made,-⟩ | ⟨e',inner,sessions,moved,-⟩
  · refine ⟨?_,fun y => ?_⟩
    · rw [sessions]
      exact replace_forall (R := fun _ h => Serves h) serves good
    · rw [sessions,server,handed y]
      by_cases same : y = x
      · subst y; simp [before,kept]
      · simp [same]
  · exact ⟨by rw [sessions]; exact serves,by rw [sessions,server]; exact handed⟩
  · simp only [Cpp.step,Option.ite_none_left_eq_some,Option.some.injEq] at made
    refine ⟨?_,fun y => ?_⟩
    · rw [sessions]
      exact replace_forall (R := fun _ h => Serves h) serves good
    · rw [sessions,← made.2]
      by_cases same : y = x
      · subst y; simp [released,WsConn.upgrade]
      · simpa [same] using handed y
  · exact ⟨by rw [sessions]; exact serves,fun y => by
      rw [sessions,step_created env s.server next.server e' inner moved y]; exact handed y⟩

theorem valid (env : Env) (workers : Nat) (reached : (machine env workers).Reaches es s) :
    Valid s := by
  refine (machine env workers).invariant Valid ?_ (fun s e next => step_valid env s next e) reached
  exact ⟨fun _ => absent_serves,fun x => by simp [machine,Cpp.start,Cpp.State.initial,WsConn.absent,
    HttpSession.absent]⟩

/-- The websocket server behind the listener runs as on its own. -/
theorem projects (env : Env) (workers : Nat) (reached : (machine env workers).Reaches es s) :
    (Cpp.machine env workers).Reaches (es.filterMap project) s.server := by
  refine (machine env workers).reaches_induction
    (motive := fun es s => (Cpp.machine env workers).Reaches (es.filterMap project) s.server)
    (by simp [machine,Machine.reaches_nil,Cpp.machine]) ?_ reached
  intro es s e next before ih stepped
  rw [List.filterMap_append]
  rcases front_cases env s next e (valid env workers before) stepped with
    ⟨x,h,-,-,-,-,server,quiet⟩ | ⟨-,server,quiet⟩ | ⟨x,h,-,-,-,made,loud⟩ | ⟨e',-,-,moved,loud⟩
  · simpa [quiet,server] using ih
  · simpa [quiet,server] using ih
  · have further := (Machine.reaches_concat (Cpp.machine env workers) _ (.upgrade x) _).mpr
      ⟨s.server,ih,made⟩
    simpa [loud] using further
  · have further := (Machine.reaches_concat (Cpp.machine env workers) _ e' _).mpr
      ⟨s.server,ih,moved⟩
    simpa [loud] using further

/-- A request that asks for a websocket. -/
def knock : Request := ⟨"/",11,true,true⟩

/-- Behind the listener the server can do all it can do on its own. -/
theorem lifts (env : Env) (workers : Nat) (reached : (Cpp.machine env workers).Reaches es s) :
    ∃ fs front, (machine env workers).Reaches fs front ∧ front.accepting = true ∧
      front.server = s ∧ fs.filterMap project = es ∧
      ∀ x, (s.state.conns x).created = false → front.sessions x = .absent := by
  refine (Cpp.machine env workers).reaches_induction (motive := fun es s =>
    ∃ fs front, (machine env workers).Reaches fs front ∧ front.accepting = true ∧
      front.server = s ∧ fs.filterMap project = es ∧
      ∀ x, (s.state.conns x).created = false → front.sessions x = .absent) ?_ ?_ reached
  · exact ⟨[],_,rfl,rfl,rfl,rfl,fun _ _ => rfl⟩
  · rintro es s e next before ⟨fs,front,ran,accepting,rfl,schedule,fresh⟩ stepped
    have lift (inner : ∀ x, e ≠ .upgrade x) : ∃ fs front, (machine env workers).Reaches fs front ∧
        front.accepting = true ∧ front.server = next ∧ fs.filterMap project = es ++ [e] ∧
        ∀ x, (next.state.conns x).created = false → front.sessions x = .absent := by
      refine ⟨fs ++ [.server e],{ front with server := next },?_,accepting,rfl,
        by simp [schedule,project],fun x gone => fresh x ?_⟩
      · refine (Machine.reaches_concat _ _ _ _).mpr ⟨front,ran,?_⟩
        have moved : Cpp.step env front.server e = some next := stepped
        cases e with
        | upgrade x => exact absurd rfl (inner x)
        | _ => simp [machine,step,moved]
      · rw [← step_created env front.server next e inner stepped x]; exact gone
    cases e with
    | upgrade x =>
      have made : Cpp.step env front.server (.upgrade x) = some next := stepped
      have absent : (front.server.state.conns x).created = false := by
        simp only [Cpp.step,Option.ite_none_left_eq_some] at made
        simpa using made.1
      have session := fresh x absent
      refine ⟨fs ++ [.accept x] ++ [.request x knock],
        { (front.setSession x .run).setSession x ((HttpSession.run.complete .read).handOver knock) with
          server := next },?_,accepting,rfl,?_,?_⟩
      · refine (Machine.reaches_concat _ _ _ _).mpr ⟨front.setSession x .run,?_,?_⟩
        · refine (Machine.reaches_concat _ _ _ _).mpr ⟨front,ran,?_⟩
          simp [machine,step,accepting,session,HttpSession.absent]
        · have pending : Op.read ∈ HttpSession.run.pending := by
            simp [HttpSession.run,HttpSession.doRead]
          simp [machine,step,State.setSession,pending,knock,made]
      · rw [List.filterMap_append,List.filterMap_append,schedule,List.append_assoc]
        rfl
      · intro y gone
        simp only [Cpp.step,Option.ite_none_left_eq_some,Option.some.injEq] at made
        rw [← made.2] at gone
        have other : y ≠ x := by
          rintro rfl
          simp [WsConn.upgrade] at gone
        have earlier := fresh y (by simpa [other] using gone)
        simp [State.setSession,other,earlier]
    | _ => exact lift (by simp)

/-- The listener in front neither adds a run to those of the websocket server nor takes one
away. -/
theorem front_refines (env : Env) (workers : Nat) :
    (∀ es s, (machine env workers).Reaches es s →
      (Cpp.machine env workers).Reaches (es.filterMap project) s.server) ∧
    ∀ es s, (Cpp.machine env workers).Reaches es s → ∃ fs front,
      (machine env workers).Reaches fs front ∧ front.server = s ∧ fs.filterMap project = es := by
  refine ⟨fun es s => projects env workers,fun es s reached => ?_⟩
  obtain ⟨fs,front,ran,-,same,schedule,-⟩ := lifts env workers reached
  exact ⟨fs,front,ran,same,schedule⟩

/-- An accept that failed is not tried again. -/
theorem step_deaf (env : Env) (s next : State) (e : Event) (deaf : s.accepting = false)
    (served : Valid s) (stepped : step env s e = some next) : next.accepting = false ∧
      ∀ x, (s.sessions x).socket = .absent → next.sessions x = s.sessions x := by
  have kept (x : Conn) (h : HttpSession) (op : Op) (member : op ∈ (s.sessions x).pending) (y : Conn)
      (absent : (s.sessions y).socket = .absent) : replace s.sessions x h y = s.sessions y := by
    have other : y ≠ x := by
      rintro rfl
      simp [(served.serves y).socket member] at absent
    simp [other]
  cases e with
  | accept x | acceptError ec => simp [step,deaf] at stepped
  | request x req =>
    simp only [step,Option.ite_none_right_eq_some] at stepped
    obtain ⟨member,stepped⟩ := stepped
    split at stepped
    · obtain ⟨server,-,rfl⟩ := Option.map_eq_some_iff.mp stepped
      exact ⟨deaf,kept x _ .read member⟩
    · obtain rfl := Option.some.inj stepped
      exact ⟨deaf,kept x _ .read member⟩
  | readError x ec =>
    simp only [step,Option.ite_none_right_eq_some,Option.some.injEq] at stepped
    obtain ⟨member,rfl⟩ := stepped
    exact ⟨deaf,kept x _ .read member⟩
  | onWrite x ec keepAlive =>
    simp only [step,Option.ite_none_right_eq_some,Option.some.injEq] at stepped
    obtain ⟨member,rfl⟩ := stepped
    exact ⟨deaf,kept x _ (.write keepAlive) member⟩
  | server e =>
    cases e with
    | upgrade x => simp [step] at stepped
    | _ =>
      obtain ⟨server,-,rfl⟩ := Option.map_eq_some_iff.mp stepped
      exact ⟨deaf,fun _ _ => rfl⟩

/-- Every session answers its requests in order until it is told to close, fails, or hands its
socket over, which it then leaves alone; a request is always handled; and once an accept has
failed there are no new sessions. -/
theorem sessions_serve (env : Env) (workers : Nat) (es : List Event) (s : State)
    (reached : (machine env workers).Reaches es s) :
    (∀ x, Serves (s.sessions x) ∧
      ((s.server.state.conns x).created = true ↔ (s.sessions x).socket = .released)) ∧
    (∀ x req, .read ∈ (s.sessions x).pending → (step env s (.request x req)).isSome = true) ∧
    (s.accepting = false → ∀ fs final, (machine env workers).run fs s = some final →
      ∀ x, (s.sessions x).socket = .absent → final.sessions x = s.sessions x) := by
  have served := valid env workers reached
  refine ⟨fun x => ⟨served.serves x,served.handed x⟩,fun x req member => ?_,
    fun deaf fs final ran => ?_⟩
  · have fresh : (s.server.state.conns x).created = false := by
      by_contra made
      have released := (served.handed x).mp (by simpa using made)
      simp [(served.serves x).socket member] at released
    by_cases upgrade : req.upgrade = true <;> simp [step,member,upgrade,Cpp.step,fresh]
  · have invariant := (machine env workers).run_invariant
      (fun t => Valid t ∧ t.accepting = false ∧
        ∀ x, (s.sessions x).socket = .absent → t.sessions x = s.sessions x)
      (fun t e next here stepped => by
        obtain ⟨good,quiet,same⟩ := here
        obtain ⟨still,kept⟩ := step_deaf env t next e quiet good stepped
        refine ⟨step_valid env t next e good stepped,still,fun x absent => ?_⟩
        rw [kept x (by rw [same x absent]; exact absent),same x absent])
      ⟨served,deaf,fun _ _ => rfl⟩ ran
    exact invariant.2.2

/-- One request over the session of 0, then an upgrade. -/
def visit : List Event := [.accept 0,.request 0 ⟨"/index.html",11,true,false⟩,
  .onWrite 0 none true,.request 0 knock]

theorem visit_runs : ((machine .numbered 1).run visit (machine .numbered 1).start).any (fun s =>
    (s.sessions 0).responses == [⟨400,11,"text/html",true,"not websocket protocol"⟩] &&
      (s.server.state.conns 0).accepting) = true := by
  decide +kernel

theorem visit_served : ∃ s, (machine .numbered 1).Reaches visit s ∧
    (s.sessions 0).responses = [⟨400,11,"text/html",true,"not websocket protocol"⟩] ∧
    Serves (s.sessions 0) := by
  obtain ⟨s,ran,checked⟩ := (Option.any_eq_true _ _).mp visit_runs
  simp only [Bool.and_eq_true,beq_iff_eq] at checked
  exact ⟨s,ran,checked.1,((sessions_serve .numbered 1 visit s ran).1 0).1⟩

end Wschat.Cpp.Front
