import Wschat.CppServer

/-! The receive loop of one connection, call by call and with its exceptions. A payload is
bytes, which need not be UTF-8; between two calls the rest of the server does what it likes. -/
namespace Wschat.Cpp.Receive

/-- `nlohmann::json` on bytes. `dump` throws on a string that is not UTF-8. -/
structure ByteJson where
  lib : Nlohmann
  parse : ByteArray → Option Json
  dump : Json → Option ByteArray
  dump_error : ∀ now, (dump (toJson (.system .error "bad message" now))).isSome = true

/-- A text that is not UTF-8 is no JSON. -/
def ByteJson.ofNlohmann (lib : Nlohmann) : ByteJson where
  lib := lib
  parse := fun sv => (String.fromUTF8? sv).bind lib.parse
  dump := fun j => some (lib.dump j).toUTF8
  dump_error := fun _ => rfl

/-- `JSONError`, with the exception it was made from. -/
inductive JsonError where
  | deserialize (failure : Failure)
  | serialize

/-- `clients_` with the connections that `weak.lock()` finds alive, and what has been posted
to each. `broadcasts` and `replies` are ghost. -/
structure Server where
  clients : List Conn
  alive : Conn → Bool
  sent : Conn → List ByteArray
  broadcasts : List ByteArray
  replies : List (Conn × ByteArray)
  nodup : clients.Nodup

/-- The members of `WsConn` that `handle` uses; `reads` counts the reads under way, `decoded`
is ghost. -/
structure World where
  buffer : ByteArray
  reads : Nat
  decoded : List ByteArray
  server : Server

/-- A call changes the world also where it throws. -/
abbrev Call := ExceptT JsonError (StateM World)

section Call

variable {α β : Type} (w : World)

@[simp] theorem run_pure (a : α) : ExceptT.run (pure a : Call α) w = (.ok a,w) := rfl
@[simp] theorem run_throw (e : JsonError) : ExceptT.run (throw e : Call α) w = (.error e,w) := rfl
@[simp] theorem run_get : ExceptT.run (get : Call World) w = (.ok w,w) := rfl
@[simp] theorem run_modify (f : World → World) :
    ExceptT.run (modify f : Call Unit) w = (.ok (),f w) := rfl

@[simp] theorem run_bind (call : Call α) (more : α → Call β) :
    ExceptT.run (call >>= more) w = match ExceptT.run call w with
      | (.ok a,w) => ExceptT.run (more a) w
      | (.error e,w) => (.error e,w) := by
  change (match ExceptT.run call w with
    | (result,w) => ExceptT.bindCont more result w) = _
  cases ExceptT.run call w with
  | mk result w => cases result <;> rfl

@[simp] theorem run_try (call : Call α) (handler : JsonError → Call α) :
    ExceptT.run (tryCatch call handler) w = match ExceptT.run call w with
      | (.ok a,w) => (.ok a,w)
      | (.error e,w) => ExceptT.run (handler e) w := by
  simp only [ExceptT.run,tryCatch,tryCatchThe,MonadExceptOf.tryCatch,ExceptT.tryCatch,ExceptT.mk,
    bind,StateT.bind]
  cases call w with
  | mk result w => cases result <;> rfl

end Call

def Server.send (s : Server) (ws : Conn) (ss : ByteArray) : Server :=
  { s with sent := replace s.sent ws (s.sent ws ++ [ss]) }

def Server.broadcastMsgText (s : Server) (ss : ByteArray) : Server :=
  s.clients.foldl (fun s ws => if s.alive ws then s.send ws ss else s)
    { s with broadcasts := s.broadcasts ++ [ss] }

variable (lib : ByteJson)

/-- `Message(json_msg)`. -/
def deserialize (sv : ByteArray) (residue : Int64) : Call Message := do
  modify fun w => { w with decoded := w.decoded ++ [sv] }
  match lib.parse sv with
  | none => throw (.deserialize .parse)
  | some j =>
    match fromJson lib.lib j residue with
    | .error failure => throw (.deserialize failure)
    | .ok msg => return msg

def serialize (msg : Message) : Call ByteArray :=
  match lib.dump (toJson msg) with
  | none => throw .serialize
  | some text => return text

def broadcastMsg (msg : Message) : Call Unit := do
  let msgText ← serialize lib msg
  modify fun w => { w with server := w.server.broadcastMsgText msgText }

/-- The reply of the `catch` block is written by `this->send`. -/
def send (x : Conn) (ss : ByteArray) : Call Unit :=
  modify fun w =>
    { w with server := { w.server.send x ss with replies := w.server.replies ++ [(x,ss)] } }

/-- `WsConn::handle` of `x` after a read without an error. -/
def handle (x : Conn) (now residue : Int64) : Call Unit := do
  let jsonMsg := (← get).buffer
  try
    let msg ← deserialize lib jsonMsg residue
    broadcastMsg lib msg
  catch _ =>
    let jsonMsg ← serialize lib (.system .error "bad message" now)
    send x jsonMsg
  modify fun w => { w with buffer := w.buffer.extract w.buffer.size w.buffer.size }
  modify fun w => { w with reads := w.reads + 1 }

/-- One completion of the read: the payload and the clock, and the server as other threads
have left it. -/
structure Round where
  payload : ByteArray
  now : Int64
  residue : Int64
  server : Server

/-- The stream appends the payload to `buffer_` and calls `handle`. No next world means that
no read was under way, or that an exception has escaped. -/
def step (x : Conn) (w : World) (r : Round) : Option World :=
  if w.reads = 0 then none
  else
    match (handle lib x r.now r.residue).run
        { w with buffer := w.buffer ++ r.payload, reads := w.reads - 1, server := r.server } with
    | (.ok (),w) => some w
    | (.error _,_) => none

/-- The world after `accept` has started the first read. -/
def accepted (s : Server) : World := ⟨.empty,1,[],s⟩

def machine (x : Conn) (s : Server) : Machine World Round := ⟨accepted s,step lib x⟩

/-- The text that the `try` block broadcasts for a payload, when it does. -/
def echo (payload : ByteArray) (residue : Int64) : Option ByteArray := do
  let j ← lib.parse payload
  let msg ← (fromJson lib.lib j residue).toOption
  lib.dump (toJson msg)

def errorText (now : Int64) : ByteArray :=
  (lib.dump (toJson (.system .error "bad message" now))).get (lib.dump_error now)

def Server.reply (s : Server) (x : Conn) (ss : ByteArray) : Server :=
  { s.send x ss with replies := s.replies ++ [(x,ss)] }

/-- What one call makes of the server. -/
def Round.served (x : Conn) (r : Round) : Server :=
  match echo lib r.payload r.residue with
  | some text => r.server.broadcastMsgText text
  | none => r.server.reply x (errorText lib r.now)

/-- One text for every live client and no reply, or a reply to `x` and nothing else. -/
inductive Single (x : Conn) (s next : Server) : Prop where
  | broadcast (text : ByteArray) :
      next.broadcasts = s.broadcasts ++ [text] → next.replies = s.replies →
      (∀ y, next.sent y = s.sent y ++ if y ∈ s.clients ∧ s.alive y then [text] else []) →
      Single x s next
  | reply (text : ByteArray) :
      next.broadcasts = s.broadcasts → next.replies = s.replies ++ [(x,text)] →
      next.sent x = s.sent x ++ [text] → (∀ y, y ≠ x → next.sent y = s.sent y) →
      Single x s next

section Broadcast

@[simp] theorem send_alive (s : Server) (ws : Conn) (ss : ByteArray) :
    (s.send ws ss).alive = s.alive := rfl
@[simp] theorem send_sent (s : Server) (ws y : Conn) (ss : ByteArray) :
    (s.send ws ss).sent y = if y = ws then s.sent ws ++ [ss] else s.sent y := rfl

theorem send_fold (ss : ByteArray) (ys : List Conn) (s : Server) (nodup : ys.Nodup) :
    let next := ys.foldl (fun s ws => if s.alive ws then s.send ws ss else s) s
    next.broadcasts = s.broadcasts ∧ next.replies = s.replies ∧ next.alive = s.alive ∧
      ∀ y, next.sent y = s.sent y ++ if y ∈ ys ∧ s.alive y then [ss] else [] := by
  induction ys generalizing s with
  | nil => simp
  | cons z ys ih =>
    obtain ⟨absent,nodup⟩ := List.nodup_cons.mp nodup
    simp only [List.foldl_cons]
    by_cases alive : s.alive z = true
    · obtain ⟨broadcasts,replies,live,sent⟩ := ih (s.send z ss) nodup
      simp only [alive,if_true]
      refine ⟨broadcasts,replies,live,fun y => ?_⟩
      rw [sent y]
      by_cases here : y = z
      · subst here; simp [absent,alive]
      · simp only [send_sent,here,if_false,List.mem_cons,false_or]
        rfl
    · obtain ⟨broadcasts,replies,live,sent⟩ := ih s nodup
      simp only [alive,if_false,Bool.false_eq_true]
      refine ⟨broadcasts,replies,live,fun y => ?_⟩
      rw [sent y]
      by_cases here : y = z
      · subst here; simp [absent,alive]
      · simp [here]

theorem broadcast_single (x : Conn) (s : Server) (text : ByteArray) :
    Single x s (s.broadcastMsgText text) := by
  obtain ⟨broadcasts,replies,-,sent⟩ :=
    send_fold text s.clients { s with broadcasts := s.broadcasts ++ [text] } s.nodup
  exact .broadcast text broadcasts replies sent

theorem reply_single (x : Conn) (s : Server) (text : ByteArray) : Single x s (s.reply x text) := by
  refine .reply text rfl rfl ?_ ?_
  · simp [Server.reply,Server.send]
  · intro y other
    simp [Server.reply,Server.send,other]

end Broadcast

theorem served_single (x : Conn) (r : Round) : Single x r.server (r.served lib x) := by
  unfold Round.served
  split
  · exact broadcast_single x r.server _
  · exact reply_single x r.server _

/-- No exception escapes, and the whole buffer is decoded and consumed. -/
theorem handle_run (x : Conn) (now residue : Int64) (w : World) :
    (handle lib x now residue).run w = (.ok (),
      { buffer := .empty, reads := w.reads + 1, decoded := w.decoded ++ [w.buffer]
        server := (Round.mk w.buffer now residue w.server).served lib x }) := by
  have dumped : lib.dump (toJson (.system .error "bad message" now)) = some (errorText lib now) := by
    simp [errorText]
  have sent (w : World) : (serialize lib (.system .error "bad message" now)).run w =
      (.ok (errorText lib now),w) := by simp [serialize,dumped]
  cases parsed : lib.parse w.buffer with
  | none => simp [handle,deserialize,parsed,sent,send,Round.served,echo,Server.reply]
  | some j =>
    cases read : fromJson lib.lib j residue with
    | error failure =>
      simp [handle,deserialize,parsed,read,sent,send,Round.served,echo,Server.reply,
        Except.toOption]
    | ok msg =>
      cases text : lib.dump (toJson msg) with
      | none =>
        simp [handle,deserialize,parsed,read,broadcastMsg,serialize,text,dumped,send,Round.served,
          echo,Server.reply,Except.toOption]
      | some ss =>
        simp [handle,deserialize,parsed,read,broadcastMsg,serialize,text,Round.served,echo,
          Except.toOption]

/-- After the calls for these payloads: each has been decoded by itself, and one read is
under way on an empty buffer. -/
structure Isolated (rounds : List Round) (w : World) : Prop where
  decoded : w.decoded = rounds.map Round.payload
  buffer : w.buffer = .empty
  pending : w.reads = 1

theorem accepted_isolated (s : Server) : Isolated [] (accepted s) := ⟨rfl,rfl,rfl⟩

theorem step_isolated (x : Conn) (isolated : Isolated rounds w) (r : Round) :
    ∃ next, step lib x w r = some next ∧ Isolated (rounds ++ [r]) next ∧
      next.server = r.served lib x := by
  obtain ⟨decoded,buffer,pending⟩ := isolated
  refine ⟨_,by simp only [step,pending,handle_run]; rfl,?_,?_⟩
  · exact ⟨by simp [decoded,buffer],rfl,rfl⟩
  · simp [Round.served,buffer]

theorem reaches_isolated (x : Conn) (s : Server) (rounds : List Round) :
    ∃ w, (machine lib x s).Reaches rounds w ∧ Isolated rounds w := by
  induction rounds using List.reverseRecOn with
  | nil => exact ⟨accepted s,rfl,accepted_isolated s⟩
  | append_singleton rounds r ih =>
    obtain ⟨w,reached,isolated⟩ := ih
    obtain ⟨next,stepped,further,-⟩ := step_isolated lib x isolated r
    exact ⟨next,((machine lib x s).reaches_concat rounds r next).mpr ⟨w,reached,stepped⟩,further⟩

/-- Whatever the payloads, and whatever happens to the server between two calls. -/
theorem frames_isolated (x : Conn) (s : Server) (rounds : List Round) :
    (∃ w, (machine lib x s).Reaches rounds w ∧ Isolated rounds w) ∧
      ∀ before r after, rounds = before ++ r :: after →
        ∃ next, (machine lib x s).Reaches (before ++ [r]) next ∧ Isolated (before ++ [r]) next ∧
          next.server = r.served lib x ∧ Single x r.server next.server := by
  refine ⟨reaches_isolated lib x s rounds,?_⟩
  rintro before r after -
  obtain ⟨w,reached,isolated⟩ := reaches_isolated lib x s before
  obtain ⟨next,stepped,further,served⟩ := step_isolated lib x isolated r
  refine ⟨next,((machine lib x s).reaches_concat before r next).mpr ⟨w,reached,stepped⟩,further,
    served,?_⟩
  rw [served]
  exact served_single lib x r

/-- Two clients, of which the second has gone. -/
def pair : Server := ⟨[0,1],fun y => y = 0,fun _ => [],[],[],by decide⟩

def spoken : Round := ⟨"\x7b\"sender\":\"0\",\"contents\":\"a\"\x7d".toUTF8,1,0,pair⟩

/-- A payload that is not UTF-8. -/
def garbled : Round := ⟨⟨#[0xff]⟩,2,0,pair⟩

theorem spoken_garbled : ∃ w,
    (machine (.ofNlohmann nlohmann) 0 pair).Reaches [spoken,garbled] w ∧
      w.decoded = [spoken.payload,garbled.payload] ∧ w.reads = 1 ∧ Single 0 pair w.server := by
  obtain ⟨w,reached,isolated,-,single⟩ :=
    (frames_isolated (.ofNlohmann nlohmann) 0 pair [spoken,garbled]).2 [spoken] garbled [] rfl
  exact ⟨w,reached,isolated.decoded,isolated.pending,single⟩

@[simp] theorem fromUTF8_toUTF8 (text : String) : String.fromUTF8? text.toUTF8 = some text := by
  unfold String.fromUTF8?
  split
  · rfl
  · next invalid => exact absurd text.isValidUTF8 invalid

/-- On a payload that is text, the call does what the server of workers does from its first
point on. -/
theorem served_outcome (lib : Nlohmann) (x : Conn) (payload : String) (now residue : Int64)
    (s : Server) : (Round.mk payload.toUTF8 now residue s).served (.ofNlohmann lib) x =
      match outcome lib payload now residue with
      | .broadcast text => s.broadcastMsgText text.toUTF8
      | .reply text => s.reply x text.toUTF8 := by
  simp only [Round.served,echo,ByteJson.ofNlohmann,fromUTF8_toUTF8,errorText,outcome,
    Cpp.deserialize]
  cases parsed : lib.parse payload with
  | none => simp [parsed,Cpp.serialize]
  | some j =>
    cases read : fromJson lib j residue with
    | error failure => simp [parsed,read,Cpp.serialize,Except.toOption]
    | ok msg => simp [parsed,read,Cpp.serialize,Except.toOption]

end Wschat.Cpp.Receive
