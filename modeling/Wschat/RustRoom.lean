import Mathlib.Data.List.Forall2
import Wschat.RustCodec
import Wschat.RustPage
import Wschat.StaleSockets

/-! The Rust server with its users: a page for each connection, the frames that it sends and the
texts that are brought to it. Pages may come and go at any time and open other sockets; the
first socket of a page is its connection to this server. -/
namespace Wschat

namespace Web

/-- `JSON.stringify` on the message of `sendMsg`. A member that is undefined is left out, and a
BigInt throws. `values` is what stands behind the values of other kinds. -/
def stringify (values : Nat → Json) (sender : JsValue) (contents : String) : Option String :=
  let members := [("action",.str "chat"),("contents",.str contents)]
  match sender with
  | .string s => some (Json.print Json.compact (.obj (("sender",.str s) :: members)))
  | .undefined => some (Json.print Json.compact (.obj members))
  | .other identity => some (Json.print Json.compact (.obj (("sender",values identity) :: members)))
  | .bigint _ => none

/-- `sendMsg`: the text that goes out, and on which socket. A socket that is not open throws or
drops it. -/
def Page.sendMsg (values : Nat → Json) (p : Page) (msgStr : String) : Option (Nat × String) :=
  if p.isConnected then
    p.ws.bind fun c =>
      if (p.sockets c).phase = .open_ then (stringify values p.uuid msgStr).map fun text => (c,text)
      else none
  else none

def Event.brings : Event → Nat
  | .message 0 _ => 1
  | _ => 0

end Web

namespace Rust

open Web (Page)

structure RoomEnv where
  web : Web.Env
  values : Nat → Json
  server : Env

/-- The server and the pages, with what is on the way between them. -/
structure Room where
  server : State
  pages : Conn → Page
  /-- How many of the texts written to the connection the browser has handed to the page. -/
  delivered : Conn → Nat
  /-- The frames that the page has sent and the server has not read. -/
  frames : Conn → List String
  /-- What the user has sent to this server (ghost). -/
  sent : Conn → List String

inductive RoomEvent where
  | server (e : Event)
  /-- The server reads the next frame of the page. -/
  | frame (c : Conn) (now : UInt64)
  | page (c : Conn) (e : Web.Event)
  | sendMsg (c : Conn) (msgStr : String)
  deriving DecidableEq

def Event.conn : Event → Conn
  | .start c | .frame c _ _ | .serMsg c | .finished c | .serve c _ => c

def RoomEvent.conn : RoomEvent → Conn
  | .server e => e.conn
  | .frame c _ | .page c _ | .sendMsg c _ => c

namespace Room

/-- Text frames come from the pages, and so does the request for the connection. -/
def takes (r : Room) : Event → Bool
  | .frame _ (.text _) _ => false
  | .start c => decide (0 < (r.pages c).created)
  | _ => true

/-- The first socket opens once the server has taken the connection, and it brings the texts
in their order. The other sockets are not this server's. -/
def fires (r : Room) (c : Conn) : Web.Event → Bool
  | .opened 0 => decide ((r.server.conns c).phase ≠ .absent)
  | .message 0 data => decide ((texts (r.server.conns c).written)[r.delivered c]? = some data)
  | _ => true

def empty : Room :=
  ⟨Rust.start,fun _ => Web.mounted,fun _ => 0,fun _ => [],fun _ => []⟩

def step (env : RoomEnv) (r : Room) : RoomEvent → Option Room
  | .server e =>
    if r.takes e then (Rust.step env.server r.server e).map fun server => { r with server } else none
  | .frame c now =>
    match r.frames c with
    | [] => none
    | text :: rest =>
      (Rust.step env.server r.server (.frame c (.text text) now)).map fun server =>
        { r with server, frames := replace r.frames c rest }
  | .page c e =>
    if r.fires c e then
      (Web.step env.web (r.pages c) e).map fun page =>
        { r with
          pages := replace r.pages c page
          delivered := replace r.delivered c (r.delivered c + e.brings) }
    else none
  | .sendMsg c msgStr =>
    match (r.pages c).sendMsg env.values msgStr with
    | some (0,text) =>
      some { r with
        frames := replace r.frames c (r.frames c ++ [text])
        sent := replace r.sent c (r.sent c ++ [msgStr]) }
    | _ => some r

def machine (env : RoomEnv) : Machine Room RoomEvent := ⟨empty,step env⟩

/-- The user is connected, and the server knows it. -/
structure Online (r : Room) (c : Conn) : Prop where
  ws : (r.pages c).ws = some 0
  isOpen : (r.pages c).isOpen = true
  running : (r.server.conns c).phase = .running

/-- Nothing is on the way, in the server or on the network. -/
structure Quiet (r : Room) : Prop where
  drained : r.server.Drained
  read : ∀ c, (r.server.conns c).phase = .running → r.frames c = []
  shown : ∀ c, r.Online c → r.delivered c = (texts (r.server.conns c).written).length

end Room

end Rust

namespace Web

/-- The page shows nothing yet, and has made its first socket only. -/
structure Page.Blank (p : Page) : Prop where
  uuid : p.uuid = .string ""
  messages : p.messages = []
  created : p.created = 1

/-- The page and its first socket, which has brought it so many of the texts. -/
inductive Session (env : Env) (texts : List String) : Page → Nat → Prop where
  | mounted : Session env texts mounted 0
  | connecting : p.Blank → p.ws = some 0 → p.isOpen = false → (p.sockets 0).phase ≠ .open_ →
      Session env texts p 0
  | online : p.Blank → p.On 0 → datas <+: texts →
      (machine env).run (datas.map (.message 0)) p = some q → q.On 0 → q.created = 1 →
      Session env texts q datas.length
  | gone : p.ws ≠ some 0 → 0 < p.created → Session env texts p n

section Sessions

variable {env : Env} {texts : List String} {p q : Page} {n : Nat} {e : Event}

theorem On.connected (on : p.On c) : p.isConnected = true := by simp [Page.isConnected,on.isOpen,on.ws]

theorem gone_step (gone : p.ws ≠ some 0) (created : 0 < p.created) (stepped : step env p e = some q) :
    q.ws ≠ some 0 ∧ 0 < q.created := by
  refine step_rule (P := fun p => p.ws ≠ some 0 ∧ 0 < p.created) env ?_ ?_ ?_ ?_ ?_ ?_ ?_ stepped
    ⟨gone,created⟩
  · exact fun p both => ⟨by simp,by simpa using both.2⟩
  · intro p _ both
    refine ⟨fun same => ?_,Nat.succ_pos _⟩
    have first := Option.some.inj same
    omega
  · exact fun p new both => ⟨by simpa using both.1,by simpa using both.2⟩
  · exact fun p uuid both => both
  · exact fun c _ _ => ⟨gone,created⟩
  · exact fun c data _ _ => ⟨gone,created⟩
  · exact fun c phase _ _ => ⟨gone,created⟩

/-- A text leaves the page connected on the socket, or lets the socket go. -/
theorem message_on (on : p.On 0) (created : p.created = 1)
    (stepped : step env p (.message 0 data) = some q) : q.created = 1 ∧ (q.ws = some 0 → q.On 0) := by
  have delivered := On.deliver env on data
  simp only [step,Option.ite_none_right_eq_some,Option.some.injEq] at stepped
  obtain ⟨-,rfl⟩ := stepped
  refine messageHandler_rule (P := fun q => q.created = 1 ∧ (q.ws = some 0 → q.On 0)) env ?_ ?_ ?_
    0 data ⟨created,fun _ => delivered⟩
  · exact fun p both => ⟨by simpa using both.1,fun here => by simp at here⟩
  · intro p new both
    refine ⟨by simpa using both.1,fun here => ?_⟩
    obtain ⟨ws,isOpen,inside,phase⟩ := both.2 (by simpa using here)
    exact ⟨by simpa using ws,by simpa using isOpen,by simpa using inside,by simpa using phase⟩
  · intro p uuid both
    refine ⟨both.1,fun here => ?_⟩
    obtain ⟨ws,isOpen,inside,phase⟩ := both.2 here
    exact ⟨ws,isOpen,inside,phase⟩

theorem connectToWs_gone (connected : p.isConnected = true) (created : p.created = 1) (throws : Bool) :
    (p.connectToWs throws).ws ≠ some 0 ∧ 0 < (p.connectToWs throws).created := by
  cases throws <;> simp [Page.connectToWs,connected,created]

/-- Any other event parts the page from its socket. -/
theorem On.leaves (on : p.On 0) (created : p.created = 1) (other : e.brings = 0)
    (stepped : step env p e = some q) : q.ws ≠ some 0 ∧ 0 < q.created := by
  have connected := On.connected on
  have first {c : Nat} (inside : c < p.created) : c = 0 := by omega
  cases e with
  | connectToWs throws =>
    obtain rfl := Option.some.inj stepped
    exact connectToWs_gone connected created throws
  | changeServer known throws =>
    obtain rfl := Option.some.inj stepped
    cases known with
    | true => exact connectToWs_gone connected created throws
    | false => exact ⟨by simp [Page.changeServer],by simp [Page.changeServer,created]⟩
  | opened c =>
    simp only [step,Option.ite_none_right_eq_some] at stepped
    obtain ⟨⟨inside,phase⟩,-⟩ := stepped
    obtain rfl := first inside
    simp [on.phase] at phase
  | message c data =>
    simp only [step,Option.ite_none_right_eq_some] at stepped
    obtain ⟨⟨inside,-⟩,-⟩ := stepped
    obtain rfl := first inside
    simp [Event.brings] at other
  | error c =>
    simp only [step,Option.ite_none_right_eq_some,Option.some.injEq] at stepped
    obtain ⟨-,rfl⟩ := stepped
    exact ⟨by simp [Page.errorHandler],by simp [Page.errorHandler,Page.setSocket,created]⟩
  | closed c =>
    simp only [step,Option.ite_none_right_eq_some,Option.some.injEq] at stepped
    obtain ⟨-,rfl⟩ := stepped
    have still : (p.setSocket c { p.sockets c with phase := .closed }).isConnected = true := connected
    rw [Page.closeHandler,if_pos still]
    exact ⟨by simp,by simp [Page.setSocket,created]⟩

theorem mounted_step (stepped : step env mounted e = some q) :
    Session env texts q (0 + e.brings) := by
  cases e with
  | connectToWs throws =>
    obtain rfl := Option.some.inj stepped
    cases throws with
    | true => exact .mounted
    | false => exact .connecting ⟨rfl,rfl,rfl⟩ rfl rfl (by decide)
  | changeServer known throws =>
    obtain rfl := Option.some.inj stepped
    cases known with
    | false => exact .mounted
    | true =>
      cases throws with
      | true => exact .mounted
      | false => exact .connecting ⟨rfl,rfl,rfl⟩ rfl rfl (by decide)
  | opened c | message c data | error c | closed c => simp [step,mounted] at stepped

theorem connecting_step (blank : p.Blank) (ws : p.ws = some 0) (unopened : p.isOpen = false)
    (phase : (p.sockets 0).phase ≠ .open_) (stepped : step env p e = some q) :
    Session env texts q (0 + e.brings) := by
  have apart : p.isConnected = false := by simp [Page.isConnected,unopened]
  have first {c : Nat} (inside : c < p.created) : c = 0 := by
    have := blank.created
    omega
  have connects (throws : Bool) : Session env texts (p.connectToWs throws) 0 := by
    have stays : p.released = p := if_neg (by simp [apart])
    rw [connectToWs_eq,stays]
    cases throws with
    | true => exact .connecting blank ws unopened phase
    | false => exact .gone (by simp [Page.install,blank.created]) (Nat.succ_pos _)
  cases e with
  | connectToWs throws =>
    obtain rfl := Option.some.inj stepped
    exact connects throws
  | changeServer known throws =>
    obtain rfl := Option.some.inj stepped
    cases known with
    | true => exact connects throws
    | false => exact .gone (by simp [Page.changeServer]) (by simp [Page.changeServer,blank.created])
  | opened c =>
    simp only [step,Option.ite_none_right_eq_some,Option.some.injEq] at stepped
    obtain ⟨⟨inside,-⟩,rfl⟩ := stepped
    obtain rfl := first inside
    have on : Page.On (p.setSocket 0 { p.sockets 0 with phase := .open_, opened := true }).openHandler
        0 := ⟨ws,rfl,inside,by simp [Page.openHandler,Page.setSocket]⟩
    have fresh : Page.Blank
        (p.setSocket 0 { p.sockets 0 with phase := .open_, opened := true }).openHandler :=
      ⟨blank.uuid,blank.messages,blank.created⟩
    exact .online fresh on List.nil_prefix rfl on fresh.created
  | message c data =>
    simp only [step,Option.ite_none_right_eq_some] at stepped
    obtain ⟨⟨inside,here⟩,-⟩ := stepped
    obtain rfl := first inside
    contradiction
  | error c =>
    simp only [step,Option.ite_none_right_eq_some,Option.some.injEq] at stepped
    obtain ⟨-,rfl⟩ := stepped
    exact .gone (by simp [Page.errorHandler]) (by simp [Page.errorHandler,Page.setSocket,blank.created])
  | closed c =>
    simp only [step,Option.ite_none_right_eq_some,Option.some.injEq] at stepped
    obtain ⟨⟨inside,-⟩,rfl⟩ := stepped
    obtain rfl := first inside
    have still : ¬(p.setSocket 0 { p.sockets 0 with phase := .closed }).isConnected = true := by
      simp [Page.isConnected,Page.setSocket,unopened]
    rw [Page.closeHandler,if_neg still]
    exact .connecting ⟨blank.uuid,blank.messages,blank.created⟩ ws unopened
      (by simp [Page.setSocket])

/-- One event of the page. -/
theorem Session.step (session : Session env texts p n)
    (fires : ∀ data, e = .message 0 data → texts[n]? = some data)
    (stepped : Web.step env p e = some q) : Session env texts q (n + e.brings) := by
  cases session with
  | mounted => exact mounted_step stepped
  | connecting blank ws unopened phase => exact connecting_step blank ws unopened phase stepped
  | gone gone created => exact .gone (gone_step gone created stepped).1 (gone_step gone created stepped).2
  | @online datas first _ blank from_ read ran on created =>
    by_cases other : e.brings = 0
    · obtain ⟨gone,created⟩ := On.leaves on created other stepped
      exact .gone gone created
    · obtain ⟨data,rfl⟩ : ∃ data, e = .message 0 data := by
        unfold Event.brings at other
        split at other
        · exact ⟨_,rfl⟩
        · contradiction
      obtain ⟨created,still⟩ := message_on on created stepped
      by_cases here : q.ws = some 0
      · have more : datas ++ [data] <+: texts := by
          obtain ⟨after,rfl⟩ := read
          have next := fires data rfl
          rw [List.getElem?_append_right (Nat.le_refl _),Nat.sub_self] at next
          obtain ⟨rest,rfl⟩ := List.head?_eq_some_iff.mp (List.head?_eq_getElem? .. ▸ next)
          exact ⟨rest,by simp⟩
        have ran : (machine env).run ((datas ++ [data]).map (.message 0)) first = some q := by
          rw [List.map_append]
          exact ((machine env).run_concat _ _ _ _).mpr ⟨p,ran,stepped⟩
        have longer := Session.online blank from_ more ran (still here) created
        rwa [List.length_append] at longer
      · exact .gone here (by omega)

theorem Session.mono (session : Session env texts p n) (grow : texts <+: later) :
    Session env later p n := by
  cases session with
  | mounted => exact .mounted
  | connecting blank ws unopened phase => exact .connecting blank ws unopened phase
  | online blank from_ read ran on created => exact .online blank from_ (read.trans grow) ran on created
  | gone gone created => exact .gone gone created

theorem Session.opened (session : Session env texts p n) (here : p.ws = some 0) (some_ : 0 < n) :
    p.isOpen = true := by
  cases session with
  | online blank from_ read ran on created => exact on.isOpen
  | mounted | connecting blank ws unopened phase => contradiction
  | gone gone created => contradiction

/-- A page that is connected has been brought texts that have been written. -/
theorem Session.on (session : Session env texts p n) (here : p.ws = some 0) (isOpen : p.isOpen = true) :
    p.On 0 ∧ n ≤ texts.length := by
  cases session with
  | online blank from_ read ran on created => exact ⟨on,read.length_le⟩
  | connecting blank ws unopened phase => simp [isOpen] at unopened
  | mounted | gone gone created => contradiction

/-- A page that is connected and has been brought all the texts. -/
theorem Session.caught_up (session : Session env texts p texts.length) (here : p.ws = some 0)
    (isOpen : p.isOpen = true) :
    ∃ first, first.Blank ∧ first.On 0 ∧ (machine env).run (texts.map (.message 0)) first = some p := by
  generalize all : texts.length = n at session
  cases session with
  | mounted => contradiction
  | connecting blank ws unopened phase => simp [isOpen] at unopened
  | gone gone created => contradiction
  | online blank from_ read ran on created =>
    obtain rfl := read.eq_of_length all.symm
    exact ⟨_,blank,from_,ran⟩

end Sessions

def chatFrame (sender contents : String) : String :=
  Json.print Json.compact
    (.obj [("sender",.str sender),("action",.str "chat"),("contents",.str contents)])

theorem sendMsg_first (sends : Page.sendMsg values p msgStr = some (0,text)) :
    p.ws = some 0 ∧ stringify values p.uuid msgStr = some text := by
  simp only [Page.sendMsg,Option.ite_none_right_eq_some,Option.bind_eq_some_iff,Option.map_eq_some_iff,
    Prod.mk.injEq] at sends
  obtain ⟨-,c,ws,-,_,written,rfl,rfl⟩ := sends
  exact ⟨ws,written⟩

/-- The Rust server gives nobody a name that is not a string. -/
theorem foldl_string (msgs : List Rust.Message) (t : String) :
    ∃ s, msgs.foldl (nextUuid .rust) (.string t) = .string s := by
  induction msgs generalizing t with
  | nil => exact ⟨t,rfl⟩
  | cons msg msgs ih =>
    rw [List.foldl_cons,nextUuid]
    split
    · exact ih msg.contents
    · exact ih t

/-- Nobody has left among messages that a page stays connected over. -/
theorem Stays.undisconnected (stays : Stays .rust uuid msgs) : ∀ msg ∈ msgs, msg.action ≠ .disconnect := by
  induction msgs generalizing uuid with
  | nil => simp
  | cons msg msgs ih =>
    obtain ⟨here,later⟩ := stays
    refine List.forall_mem_cons.mpr ⟨fun gone => here (.inr (.inl ⟨rfl,gone⟩)),ih later⟩

theorem Session.named (faithful : env.Faithful) (session : Session env texts p n) (here : p.ws = some 0)
    (told : ∀ data ∈ texts, ∃ msg : Rust.Message, utf16 data = Server.rust.encode msg.chat) :
    ∃ s, p.uuid = .string s := by
  cases session with
  | mounted => contradiction
  | connecting blank ws unopened phase => exact ⟨_,blank.uuid⟩
  | gone gone created => contradiction
  | @online datas first _ blank from_ read ran on created =>
    obtain ⟨msgs,sent⟩ := exists_forall₂ fun data inside => told data (read.subset inside)
    rw [(page_kept faithful from_ sent ran here).2.1,blank.uuid]
    exact foldl_string _ _

end Web

namespace Rust

def SerdeJson.ReadsPages (lib : SerdeJson) : Prop := ∀ sender contents,
  lib.parse (Web.chatFrame sender contents) =
    some (.obj [("sender",.str sender),("action",.str "chat"),("contents",.str contents)])

def SerdeJson.Compact (lib : SerdeJson) : Prop := ∀ msg : Message,
  utf16 (toString lib msg) = Server.rust.encode msg.chat

/-- What the room rests on: a browser that parses and compares, libraries that read what the
other side writes, and uuids that are not empty. -/
structure RoomEnv.Usual (env : RoomEnv) : Prop where
  parses : env.web.Faithful
  compares : env.web.Compares
  compact : env.server.lib.Compact
  reads : env.server.lib.ReadsPages
  named : ∀ c, env.server.uuid c ≠ ""

theorem fromStr_chatFrame (reads : SerdeJson.ReadsPages lib) (sender contents : String) :
    fromStr lib (Web.chatFrame sender contents) = some ⟨sender,.chat,contents,0⟩ := by
  rw [fromStr,reads,Option.bind_some]
  simp [deserialize,visitMap,assign,asString,asAction,Action.fromStr,Fields.build]

theorem texts_grow (stepped : step env s e = some next) (c : Conn) :
    texts (s.conns c).written <+: texts (next.conns c).written := by
  cases step_adds env s next e c stepped with
  | serMsg text _ _ written => exact ⟨_,written.symm⟩
  | reply now _ _ written => exact ⟨_,written.symm⟩
  | nothing _ _ _ written => exact ⟨[],by simp [written]⟩

/-- A client that sends no bad frame is written messages only. -/
theorem written_told (reached : (machine env).Reaches es s) (fine : ∀ e ∈ es, ¬e.Bad env c) :
    ∀ data ∈ texts (s.conns c).written, ∃ msg : Message, data = toString env.lib msg := by
  have valid := consistent env reached
  intro data member
  rw [texts_handled reached fine] at member
  obtain ⟨e,inside,rfl⟩ := List.mem_map.mp ((valid.conns c).handled.subset member)
  obtain ⟨d,now,msg,-,rfl⟩ := valid.genuine e ((Segment.segment_isInfix _ _ _).subset inside)
  exact ⟨msg.said now,entryOf_text env now msg⟩

namespace Room

variable {env : RoomEnv} {es : List Event} {r next : Room}

/-- The room over a run of its server: the frames on the way with those that have been read are
what the users have sent, and the pages have been brought what was written for them. -/
structure Sound (env : RoomEnv) (es : List Event) (r : Room) : Prop where
  reached : (Rust.machine env.server).Reaches es r.server
  fine : ∀ c, ∀ e ∈ es, ¬e.Bad env.server c
  sent : ∀ c, ∃ pending : List (String × String),
    r.frames c = pending.map (fun m => Web.chatFrame m.1 m.2) ∧
      (accepted env.server c es).map Prod.fst ++ pending.map Prod.snd = r.sent c
  sessions : ∀ c, Web.Session env.web (texts (r.server.conns c).written) (r.pages c) (r.delivered c)

theorem empty_sound (env : RoomEnv) : Sound env [] empty := by
  refine ⟨rfl,by simp,fun c => ⟨[],rfl,rfl⟩,fun c => .mounted⟩

theorem Sound.server (sound : Sound env es r) (allowed : r.takes e = true)
    (stepped : Rust.step env.server r.server e = some s) :
    Sound env (es ++ [e]) { r with server := s } := by
  have silent (c : Conn) : e.accepted? env.server c = none := by
    unfold Event.accepted?
    split
    · simp [takes] at allowed
    · rfl
  have fine (c : Conn) : ¬e.Bad env.server c := by
    rintro ⟨text,now,rfl,-⟩
    simp [takes] at allowed
  refine ⟨((Rust.machine env.server).reaches_concat es e s).mpr ⟨_,sound.reached,stepped⟩,
    fun c e' member => ?_,fun c => ?_,fun c => (sound.sessions c).mono (texts_grow stepped c)⟩
  · rcases List.mem_append.mp member with old | new
    · exact sound.fine c e' old
    · exact List.mem_singleton.mp new ▸ fine c
  · rw [accepted_concat,silent,Option.toList_none,List.append_nil]
    exact sound.sent c

theorem Sound.frame (usual : env.Usual) (sound : Sound env es r)
    (waiting : r.frames c = text :: rest)
    (stepped : Rust.step env.server r.server (.frame c (.text text) now) = some s) :
    Sound env (es ++ [.frame c (.text text) now])
      { r with server := s, frames := replace r.frames c rest } := by
  obtain ⟨pending,frames,sent⟩ := sound.sent c
  rw [waiting] at frames
  obtain ⟨m,pending,rfl⟩ : ∃ m more, pending = m :: more := by
    cases pending with
    | nil => contradiction
    | cons m more => exact ⟨m,more,rfl⟩
  obtain ⟨rfl,rfl⟩ := List.cons.inj frames
  have read := fromStr_chatFrame usual.reads m.1 m.2
  refine ⟨((Rust.machine env.server).reaches_concat es _ s).mpr ⟨_,sound.reached,stepped⟩,
    fun d e' member => ?_,fun d => ?_,fun d => (sound.sessions d).mono (texts_grow stepped d)⟩
  · rcases List.mem_append.mp member with old | new
    · exact sound.fine d e' old
    · rintro ⟨text,now',eq,bad⟩
      obtain ⟨rfl,same,rfl⟩ := Event.frame.inj (List.mem_singleton.mp new ▸ eq)
      obtain rfl := Frame.text.inj same
      simp [read] at bad
  · by_cases here : d = c
    · subst here
      refine ⟨pending,by simp,?_⟩
      rw [← sent,accepted_concat]
      simp [Event.accepted?,read]
    · simp only [replace_other _ _ _ _ here]
      rw [accepted_concat,accepted_frame_other env.server _ now (Ne.symm here)]
      simpa using sound.sent d

theorem Sound.page (sound : Sound env es r) (fires : r.fires c e = true)
    (stepped : Web.step env.web (r.pages c) e = some p) :
    Sound env es { r with
      pages := replace r.pages c p
      delivered := replace r.delivered c (r.delivered c + e.brings) } := by
  refine ⟨sound.reached,sound.fine,sound.sent,fun d => ?_⟩
  by_cases here : d = c
  · subst here
    simp only [replace_same]
    refine (sound.sessions d).step (fun data brought => ?_) stepped
    subst brought
    exact of_decide_eq_true fires
  · simpa only [replace_other _ _ _ _ here] using sound.sessions d

theorem Sound.sendMsg (usual : env.Usual) (sound : Sound env es r)
    (sends : (r.pages c).sendMsg env.values msgStr = some (0,text)) :
    Sound env es { r with
      frames := replace r.frames c (r.frames c ++ [text])
      sent := replace r.sent c (r.sent c ++ [msgStr]) } := by
  obtain ⟨here,written⟩ := Web.sendMsg_first sends
  obtain ⟨uuid,named⟩ := (sound.sessions c).named usual.parses here fun data member => by
    obtain ⟨msg,rfl⟩ := written_told sound.reached (sound.fine c) data member
    exact ⟨msg,usual.compact msg⟩
  rw [named] at written
  obtain rfl : Web.chatFrame uuid msgStr = text := Option.some.inj written
  refine ⟨sound.reached,sound.fine,fun d => ?_,sound.sessions⟩
  obtain ⟨pending,frames,sent⟩ := sound.sent d
  by_cases same : d = c
  · subst same
    refine ⟨pending ++ [(uuid,msgStr)],by simp [frames],?_⟩
    rw [List.map_append,← List.append_assoc,sent]
    simp
  · exact ⟨pending,by simpa only [replace_other _ _ _ _ same] using frames,
      by simpa only [replace_other _ _ _ _ same] using sent⟩

theorem step_sound (usual : env.Usual) (sound : Sound env es r) (stepped : step env r e = some next) :
    ∃ more, Sound env (es ++ more) next ∧ starts more ⊆ [e.conn] := by
  cases e with
  | server e =>
    simp only [step,Option.ite_none_right_eq_some,Option.map_eq_some_iff] at stepped
    obtain ⟨allowed,s,stepped,rfl⟩ := stepped
    exact ⟨[e],sound.server allowed stepped,by cases e <;> simp [starts,Event.start?,RoomEvent.conn,Event.conn]⟩
  | frame c now =>
    simp only [step] at stepped
    split at stepped
    case h_1 => contradiction
    case h_2 text rest waiting =>
      obtain ⟨s,served,rfl⟩ := Option.map_eq_some_iff.mp stepped
      exact ⟨_,sound.frame usual waiting served,by simp [starts,Event.start?]⟩
  | page c e =>
    simp only [step,Option.ite_none_right_eq_some,Option.map_eq_some_iff] at stepped
    obtain ⟨fires,p,stepped,rfl⟩ := stepped
    exact ⟨[],(List.append_nil es).symm ▸ sound.page fires stepped,by simp [starts]⟩
  | sendMsg c msgStr =>
    refine ⟨[],?_,by simp [starts]⟩
    rw [List.append_nil]
    simp only [step] at stepped
    split at stepped
    · next text sends => exact Option.some.inj stepped ▸ sound.sendMsg usual sends
    · exact Option.some.inj stepped ▸ sound

theorem reaches_sound (usual : env.Usual) (reached : (machine env).Reaches acts r) :
    ∃ es, Sound env es r ∧ starts es ⊆ acts.map RoomEvent.conn := by
  refine (machine env).reaches_induction
    (motive := fun acts r => ∃ es, Sound env es r ∧ starts es ⊆ acts.map RoomEvent.conn)
    ⟨[],empty_sound env,by simp [starts]⟩ ?_ reached
  rintro acts r e next - ⟨es,sound,inside⟩ stepped
  obtain ⟨more,sound,own⟩ := step_sound usual sound stepped
  refine ⟨es ++ more,sound,?_⟩
  rw [starts,List.filterMap_append,List.map_append]
  exact List.append_subset.mpr ⟨fun c member => List.mem_append_left _ (inside member),
    fun c member => List.mem_append_right _ (own member)⟩

theorem step_untouched (stepped : step env r e = some next) (other : c ≠ e.conn) :
    next.frames c = r.frames c ∧ next.pages c = r.pages c := by
  cases e with
  | server e =>
    simp only [step,Option.ite_none_right_eq_some,Option.map_eq_some_iff] at stepped
    obtain ⟨-,s,-,rfl⟩ := stepped
    exact ⟨rfl,rfl⟩
  | frame d now =>
    simp only [step] at stepped
    split at stepped
    case h_1 => contradiction
    case h_2 text rest waiting =>
      obtain ⟨s,-,rfl⟩ := Option.map_eq_some_iff.mp stepped
      exact ⟨replace_other _ _ _ _ other,rfl⟩
  | page d e =>
    simp only [step,Option.ite_none_right_eq_some,Option.map_eq_some_iff] at stepped
    obtain ⟨-,p,-,rfl⟩ := stepped
    exact ⟨rfl,replace_other _ _ _ _ other⟩
  | sendMsg d msgStr =>
    simp only [step] at stepped
    split at stepped
    · obtain rfl := Option.some.inj stepped
      exact ⟨replace_other _ _ _ _ other,rfl⟩
    · obtain rfl := Option.some.inj stepped
      exact ⟨rfl,rfl⟩

def Among (conns : List Conn) (r : Room) : Prop :=
  ∀ c, c ∉ conns → r.frames c = [] ∧ r.pages c = Web.mounted

theorem reaches_among (reached : (machine env).Reaches acts r) : Among (acts.map RoomEvent.conn) r := by
  refine (machine env).reaches_induction (motive := fun acts r => Among (acts.map RoomEvent.conn) r)
    (fun _ _ => ⟨rfl,rfl⟩) ?_ reached
  intro acts r e next _ among stepped c outside
  simp only [List.map_append,List.mem_append,not_or,List.map_cons,List.map_nil,List.mem_singleton]
    at outside
  obtain ⟨frames,page⟩ := step_untouched stepped outside.2
  rw [frames,page]
  exact among c outside.1

end Room

section Chats

variable {env : Env} {log : List Entry} {msgs : List Message} {frames : List (String × UInt64)}

def chatsOf (uuid : String) (msgs : List Message) : List Message :=
  msgs.filter fun msg => msg.action = .chat ∧ msg.sender = uuid

theorem chatsOf_tell (tell : List.Forall₂ (Tells env) log msgs) (uuid : String) :
    (chatsOf uuid msgs).map (toString env.lib) = logged uuid log := by
  induction tell with
  | nil => rfl
  | @cons e msg log msgs tells _ ih =>
    have same : (msg.action = .chat ∧ msg.sender = uuid) ↔ chatOf uuid e = true := by
      have action := tells.action
      have sender := tells.sender
      cases kind : e.kind <;> simp_all [chatOf,EntryKind.action]
    unfold chatsOf logged at *
    by_cases own : chatOf uuid e = true
    · rw [List.filter_cons_of_pos (by simpa using same.mpr own),List.filter_cons_of_pos own,
        List.map_cons,List.map_cons,ih,tells.text]
    · rw [List.filter_cons_of_neg (by simpa using mt same.mp own),List.filter_cons_of_neg own,ih]

theorem contents_of_texts (lib : SerdeJson) {own said : List Message}
    (own_chats : ∀ msg ∈ own, msg.action = .chat) (said_chats : ∀ msg ∈ said, msg.action = .chat)
    (same : own.map (toString lib) = said.map (toString lib)) :
    own.map Message.contents = said.map Message.contents := by
  have decode {l : List Message} (chats : ∀ msg ∈ l, msg.action = .chat) :
      (l.map (toString lib)).map (fromStr lib) = l.map some := by
    rw [List.map_map]
    refine List.map_congr_left fun msg member => ?_
    rw [Function.comp_apply,fromStr_toString,chats msg member]
    exact congrArg some (by rw [← chats msg member])
  have equal : own.map some = said.map some := by rw [← decode own_chats,same,decode said_chats]
  rw [List.map_injective_iff.mpr (Option.some_injective _) equal]

theorem chatsOf_chats (uuid : String) (msgs : List Message) : ∀ msg ∈ chatsOf uuid msgs, msg.action = .chat := by
  intro msg member
  simp only [chatsOf,List.mem_filter,decide_eq_true_eq] at member
  exact member.2.1

theorem contents_accepted (tell : List.Forall₂ (Tells env) log msgs)
    (same : logged (env.uuid c) log = frames.map (chatText env c)) :
    (chatsOf (env.uuid c) msgs).map Message.contents = frames.map Prod.fst := by
  have said : (chatsOf (env.uuid c) msgs).map (toString env.lib) =
      (frames.map fun frame => Message.newChat (env.uuid c) frame.1 frame.2).map (toString env.lib) := by
    rw [chatsOf_tell tell,same,List.map_map]
    rfl
  have chats : ∀ msg ∈ frames.map fun frame => Message.newChat (env.uuid c) frame.1 frame.2,
      msg.action = .chat := by
    intro msg member
    obtain ⟨frame,-,rfl⟩ := List.mem_map.mp member
    rfl
  rw [contents_of_texts env.lib (chatsOf_chats _ _) chats said,List.map_map]
  rfl

end Chats

namespace Room

variable {env : RoomEnv} {es : List Event} {r : Room} {history : List Message}

/-- Nobody's chats are invented, repeated or reordered. -/
theorem Sound.chats_sent (sound : Sound env es r)
    (tell : List.Forall₂ (Tells env.server) r.server.log history) (c : Conn) :
    (chatsOf (env.server.uuid c) history).map Message.contents <+: r.sent c := by
  have echoed := echoes env.server sound.reached c
  have front : logged (env.server.uuid c) r.server.log <+:
      (accepted env.server c es).map (chatText env.server c) := ⟨_,echoed⟩
  rw [List.prefix_iff_eq_take,← List.map_take] at front
  obtain ⟨pending,-,sent⟩ := sound.sent c
  rw [contents_accepted tell front,← sent]
  exact ((List.take_prefix _ _).map _).trans (List.prefix_append _ _)

/-- What has been written to a running connection is the end of the history from its own
connect on. -/
theorem Sound.brought (usual : env.Usual) (sound : Sound env es r) (drained : r.server.Drained)
    (tell : List.Forall₂ (Tells env.server) r.server.log history)
    (running : (r.server.conns c).phase = .running) :
    ∃ k e rest, r.server.log.drop k = e :: rest ∧ opens (env.server.uuid c) e = true ∧
      logged (env.server.uuid c) (e :: rest) = logged (env.server.uuid c) r.server.log ∧
      List.Forall₂ (Tells env.server) (e :: rest) (history.drop k) ∧
      List.Forall₂ (fun data msg => utf16 data = Server.rust.encode msg.chat)
        (texts (r.server.conns c).written) (history.drop k) := by
  obtain ⟨before,e,rest,log,opening,handled,own⟩ :=
    running_handled (consistent env.server sound.reached) drained c running
  have later := List.forall₂_drop before.length tell
  rw [log,List.drop_left] at later
  refine ⟨before.length,e,rest,by rw [log,List.drop_left],opening,(logged_opening opening).trans own,
    later,?_⟩
  rw [texts_handled sound.reached (sound.fine c),handled,List.forall₂_map_left_iff]
  exact later.imp fun e msg tells => by rw [tells.text,usual.compact]

theorem Sound.shows (usual : env.Usual) (sound : Sound env es r) (quiet : r.Quiet)
    (tell : List.Forall₂ (Tells env.server) r.server.log history) (online : r.Online c) :
    ∃ k, (history.drop k).head?.any (fun msg =>
        decide (msg.action = .connect ∧ msg.contents = env.server.uuid c)) = true ∧
      (∀ msg ∈ history.drop k, msg.action ≠ .disconnect) ∧
      (chatsOf (env.server.uuid c) (history.drop k)).map Message.contents = r.sent c ∧
      (r.pages c).uuid = .string (env.server.uuid c) ∧
      (r.pages c).messages.map Web.Shown.msg =
        Splice.spliceAll Web.Msg.time ((history.drop k).map Server.rust.shown) := by
  obtain ⟨k,e,rest,-,opening,own,later,sent⟩ := sound.brought usual quiet.drained tell online.running
  refine ⟨k,?_⟩
  generalize history.drop k = msgs at later sent
  obtain ⟨first,blank,on,ran⟩ : ∃ first : Web.Page, first.Blank ∧ first.On 0 ∧
      (Web.machine env.web).run ((texts (r.server.conns c).written).map (.message 0)) first =
        some (r.pages c) :=
    ((quiet.shown c online) ▸ sound.sessions c).caught_up online.ws online.isOpen
  obtain ⟨stays,uuid,messages⟩ := Web.page_kept usual.parses on sent ran online.ws
  rw [blank.uuid] at stays uuid
  refine ⟨?_,stays.undisconnected,?_,uuid.trans (first_uuid later opening (usual.named c)),?_⟩
  · simp only [opens,decide_eq_true_eq] at opening
    cases later with
    | cons tells _ =>
      rw [List.head?_cons,Option.any_some]
      exact decide_eq_true ⟨by rw [tells.action,opening.1]; rfl,
        by rw [tells.contents (by simp [opening.1]),opening.2]⟩
  · obtain ⟨pending,frames,sent⟩ := sound.sent c
    rw [quiet.read c online.running] at frames
    obtain rfl := List.map_eq_nil_iff.mp frames.symm
    have echoed := echoes env.server sound.reached c
    rw [Echoes,(quiet.drained c).1,List.filterMap_nil,List.append_nil,← own] at echoed
    rw [contents_accepted later echoed,← sent]
    simp
  · rw [messages,blank.messages]
    refine Web.spliced_sorted usual.compares _ fun msg member => ?_
    obtain ⟨m,-,rfl⟩ := List.mem_map.mp member
    exact Web.shown_timed .rust m (by simp)

/-- The browser hands the texts over to a page, one after the other. -/
theorem run_page (env : RoomEnv) (c : Conn) (rest before : List String) (r : Room)
    (ran : (Web.machine env.web).run (rest.map (.message 0)) (r.pages c) = some p)
    (written : texts (r.server.conns c).written = before ++ rest) (count : r.delivered c = before.length) :
    ∃ next, (machine env).run (rest.map fun text => .page c (.message 0 text)) r = some next ∧
      (next.server,next.frames,next.sent) = (r.server,r.frames,r.sent) ∧ next.pages c = p ∧
      next.delivered c = (before ++ rest).length ∧
      ∀ d, d ≠ c → next.pages d = r.pages d ∧ next.delivered d = r.delivered d := by
  induction rest generalizing before r with
  | nil => exact ⟨r,rfl,rfl,Option.some.inj ran,by simp [count],fun d _ => ⟨rfl,rfl⟩⟩
  | cons text rest ih =>
    obtain ⟨q,stepped,ran⟩ := ((Web.machine env.web).run_cons _ _ _ _).mp ran
    have fires : r.fires c (.message 0 text) = true := by simp [fires,written,count]
    have first : step env r (.page c (.message 0 text)) = some { r with
        pages := replace r.pages c q
        delivered := replace r.delivered c (r.delivered c + 1) } := by
      have stepped : Web.step env.web (r.pages c) (.message 0 text) = some q := stepped
      simp only [step,fires,if_true,stepped,Option.map_some,Web.Event.brings]
    obtain ⟨next,ran,same,page,all,others⟩ := ih (before ++ [text]) { r with
        pages := replace r.pages c q
        delivered := replace r.delivered c (r.delivered c + 1) } (by simpa using ran)
      (by simp [written]) (by simp [count])
    refine ⟨next,((machine env).run_cons _ _ _ _).mpr ⟨_,first,ran⟩,same,page,by simp [all],?_⟩
    intro d other
    have kept := others d other
    simpa [other] using kept

theorem run_pages (env : RoomEnv) (cs : List Conn) (distinct : cs.Nodup) (r : Room)
    (fresh : ∀ c ∈ cs, r.delivered c = 0) (stays : ∀ c ∈ cs, ∃ p, (Web.machine env.web).run
      ((texts (r.server.conns c).written).map (.message 0)) (r.pages c) = some p ∧ p.ws = some 0) :
    ∃ acts next, (machine env).run acts r = some next ∧
      (next.server,next.frames,next.sent) = (r.server,r.frames,r.sent) ∧
      (∀ c ∈ cs, (next.pages c).ws = some 0 ∧
        next.delivered c = (texts (r.server.conns c).written).length) ∧
      ∀ c, c ∉ cs → next.pages c = r.pages c ∧ next.delivered c = r.delivered c := by
  induction cs generalizing r with
  | nil => exact ⟨[],r,rfl,rfl,by simp,fun c _ => ⟨rfl,rfl⟩⟩
  | cons c cs ih =>
    obtain ⟨absent,distinct⟩ := List.nodup_cons.mp distinct
    obtain ⟨here,fresh⟩ := List.forall_mem_cons.mp fresh
    obtain ⟨⟨p,shows,still⟩,stays⟩ := List.forall_mem_cons.mp stays
    obtain ⟨middle,first,same,page,all,others⟩ :=
      run_page env c _ [] r shows (List.nil_append _).symm here
    obtain ⟨server,frames,sent⟩ : middle.server = r.server ∧ middle.frames = r.frames ∧
        middle.sent = r.sent := by simpa using same
    have apart : ∀ d ∈ cs, d ≠ c := by
      rintro d inside rfl
      exact absent inside
    obtain ⟨acts,next,further,same',told,rest⟩ := ih distinct middle
      (fun d inside => (others d (apart d inside)).2.trans (fresh d inside))
      (fun d inside => by rw [server,(others d (apart d inside)).1]; exact stays d inside)
    refine ⟨_,next,by rw [(machine env).run_append,first]; exact further,same'.trans same,?_,?_⟩
    · rw [List.forall_mem_cons]
      refine ⟨?_,fun d inside => server ▸ told d inside⟩
      rw [(rest c absent).1,(rest c absent).2,page,all]
      exact ⟨still,rfl⟩
    · intro d outside
      obtain ⟨other,outside⟩ := not_or.mp (mt List.mem_cons.mpr outside)
      rw [(rest d outside).1,(rest d outside).2]
      exact others d other

/-- As long as no page is brought a message, the browser does not matter. -/
theorem run_web (web : Web.Env) (acts : List RoomEvent) (r : Room)
    (none_ : ∀ c k data, .page c (.message k data) ∉ acts) :
    (machine { env with web }).run acts r = (machine env).run acts r := by
  induction acts generalizing r with
  | nil => rfl
  | cons e acts ih =>
    have here : step { env with web } r e = step env r e := by
      cases e with
      | server | frame | sendMsg => rfl
      | page c e =>
        cases e with
        | message k data => exact absurd List.mem_cons_self (none_ c k data)
        | connectToWs | changeServer | opened | error | closed => rfl
    have later := fun r => ih r fun c k data member => none_ c k data (List.mem_cons_of_mem _ member)
    simp only [Machine.run,machine,here] at later ⊢
    simp only [later]

theorem parse_chatFrame (sender contents : String) : Json.parse (Web.chatFrame sender contents) =
    some (.obj [("sender",.str sender),("action",.str "chat"),("contents",.str contents)]) := by
  have scalar : ∀ member ∈ [("sender",Json.str sender),("action",.str "chat"),("contents",.str contents)],
      member.2.Scalar := by simp [Json.Scalar]
  exact Json.parse_write Json.compact _ scalar

theorem serdeJson_reads : serdeJson.ReadsPages := by
  intro sender contents
  have same : serdeJson.parse = Json.parse := rfl
  rw [same,parse_chatFrame]

/-- When nothing is on the way there is one history, to which nobody has contributed but what he
has sent, in his order. Whoever is connected knows who he is and has before him, sorted by
time, the end of the history from his own connect on; all that he has sent is there, and nobody
has left since. -/
theorem room_agrees (env : RoomEnv) (usual : env.Usual) (acts : List RoomEvent) (r : Room)
    (reached : (machine env).Reaches acts r) (quiet : r.Quiet) :
    ∃ history, List.Forall₂ (Tells env.server) r.server.log history ∧
      (∀ c, (chatsOf (env.server.uuid c) history).map Message.contents <+: r.sent c) ∧
      ∀ c, r.Online c → ∃ k,
        (history.drop k).head?.any (fun msg =>
          decide (msg.action = .connect ∧ msg.contents = env.server.uuid c)) = true ∧
        (∀ msg ∈ history.drop k, msg.action ≠ .disconnect) ∧
        (chatsOf (env.server.uuid c) (history.drop k)).map Message.contents = r.sent c ∧
        (r.pages c).uuid = .string (env.server.uuid c) ∧
        (r.pages c).messages.map Web.Shown.msg =
          Splice.spliceAll Web.Msg.time ((history.drop k).map Server.rust.shown) := by
  obtain ⟨es,sound,-⟩ := reaches_sound usual reached
  obtain ⟨history,tell⟩ := all_tell env.server r.server.log (consistent env.server sound.reached).genuine
  exact ⟨history,tell,sound.chats_sent tell,fun c => sound.shows usual quiet tell⟩

/-- Two users come and say something. -/
def greeting : List RoomEvent :=
  let comes := fun c : Conn => ([.page c (.connectToWs false),.server (.start c),.page c (.opened 0)] :
    List RoomEvent)
  comes 0 ++ comes 1 ++ [.server (.serve 0 1),.server (.serve 1 2),.sendMsg 0 "hi",.sendMsg 1 "ho",
    .frame 1 3,.frame 0 4,.server (.serve 1 5),.server (.serve 0 6)] ++
    List.replicate 4 (.server (.serMsg 0)) ++ List.replicate 3 (.server (.serMsg 1))

def blind : RoomEnv := ⟨⟨fun _ => none,fun _ _ => false⟩,fun _ => .null,.numbered⟩

theorem blind_usual {web : Web.Env} (faithful : web.Faithful) (compares : web.Compares) :
    RoomEnv.Usual { blind with web } :=
  ⟨faithful,compares,rust_compact,serdeJson_reads,fun _ => Nat.repr_ne_empty⟩

def greeted : List (Conn × String) := [(0,"hi"),(1,"ho")]

/-- The user has said this, and nothing has been handed to the page yet. -/
structure Awaiting (r : Room) (c : Conn) (said : String) : Prop where
  on : (r.pages c).On 0
  unread : r.delivered c = 0
  idle : r.frames c = []
  sent : r.sent c = [said]
  running : (r.server.conns c).phase = .running

def awaits (r : Room) (c : Conn) (said : String) : Bool :=
  decide ((r.pages c).ws = some 0 ∧ (r.pages c).isOpen = true ∧ (r.pages c).created = 1 ∧
    ((r.pages c).sockets 0).phase = .open_ ∧ (r.pages c).uuid = .string "" ∧ r.delivered c = 0 ∧
    r.frames c = [] ∧ r.sent c = [said] ∧ (r.server.conns c).phase = .running)

theorem awaiting_of_awaits (checked : r.awaits c said = true) : r.Awaiting c said := by
  obtain ⟨ws,isOpen,created,phase,-,unread,idle,sent,running⟩ := of_decide_eq_true checked
  exact ⟨⟨ws,isOpen,by omega,phase⟩,unread,idle,sent,running⟩

theorem greeting_runs : ((machine blind).run greeting empty).any (fun r =>
    greeted.all (fun g => r.awaits g.1 g.2) &&
      decide (load (greeting.map RoomEvent.conn) r.server = 0 ∧
        r.server.log.map Entry.kind = [.connect,.connect,.chat,.chat])) = true := by
  decide +kernel

/-- The page of a user stays in a room that nobody has left. -/
theorem Sound.stays (usual : env.Usual) (sound : Sound env es r) (drained : r.server.Drained)
    (running : (r.server.conns c).phase = .running) (on : (r.pages c).On 0)
    (together : ∀ e ∈ r.server.log, e.kind ≠ .disconnect) :
    ∃ p, (Web.machine env.web).run ((texts (r.server.conns c).written).map (.message 0)) (r.pages c) =
      some p ∧ p.ws = some 0 ∧ texts (r.server.conns c).written ≠ [] := by
  obtain ⟨history,tell⟩ := all_tell env.server r.server.log (consistent env.server sound.reached).genuine
  obtain ⟨k,e,rest,log,-,-,later,told⟩ := sound.brought usual drained tell running
  have stays : Web.Stays .rust (r.pages c).uuid (history.drop k) := by
    refine (stays_iff _ later _).mpr fun e' member gone => ?_
    exact absurd gone (together e' (List.mem_of_mem_drop (log ▸ member)))
  obtain ⟨p,shows,still⟩ := Web.page_stays usual.parses on told stays
  refine ⟨p,shows,still,?_⟩
  rintro none_
  rw [none_] at told
  have empty := told.length_eq.trans later.length_eq.symm
  simp at empty

theorem greeting_agrees : ∃ (env : RoomEnv) (r : Room) (history : List Message), env.Usual ∧
    ∀ g ∈ greeted, r.Online g.1 ∧ ∃ k,
      (chatsOf (env.server.uuid g.1) (history.drop k)).map Message.contents = [g.2] ∧
      (r.pages g.1).messages.map Web.Shown.msg =
        Splice.spliceAll Web.Msg.time ((history.drop k).map Server.rust.shown) := by
  obtain ⟨web,faithful,compares⟩ := Web.browser
  obtain ⟨r,ran,checked⟩ := (Option.any_eq_true _ _).mp greeting_runs
  simp only [Bool.and_eq_true,List.all_eq_true,decide_eq_true_eq] at checked
  obtain ⟨await,none_,kinds⟩ := checked
  have await (g) (member : g ∈ greeted) := awaiting_of_awaits (await g member)
  have usual := blind_usual faithful compares
  have before : (machine { blind with web }).Reaches greeting r :=
    (run_web web greeting empty (by simp [greeting])).trans ran
  obtain ⟨es,sound,inside⟩ := reaches_sound usual before
  have settling := settling _ sound.reached
  have drained : r.server.Drained :=
    drained_of_load ⟨settling.1,fun c outside => settling.2 c fun member => outside (inside member)⟩ none_
  have together : ∀ e ∈ r.server.log, e.kind ≠ .disconnect := by
    intro e member gone
    have logged : e.kind ∈ r.server.log.map Entry.kind := List.mem_map_of_mem member
    simp [kinds,gone] at logged
  have stays (g) (member : g ∈ greeted) : ∃ p, (Web.machine web).run
      ((texts (r.server.conns g.1).written).map (.message 0)) (r.pages g.1) = some p ∧ p.ws = some 0 ∧
        texts (r.server.conns g.1).written ≠ [] :=
    sound.stays usual drained (await g member).running (await g member).on together
  have conns (c) (member : c ∈ greeted.map Prod.fst) : ∃ g ∈ greeted, g.1 = c := List.mem_map.mp member
  obtain ⟨acts,next,further,same,handed,others⟩ := run_pages { blind with web } (greeted.map Prod.fst)
    (by decide) r
    (by
      intro c member
      obtain ⟨g,listed,rfl⟩ := conns c member
      exact (await g listed).unread)
    (by
      intro c member
      obtain ⟨g,listed,rfl⟩ := conns c member
      obtain ⟨p,shows,still,-⟩ := stays g listed
      exact ⟨p,shows,still⟩)
  obtain ⟨server,frames,sent⟩ : next.server = r.server ∧ next.frames = r.frames ∧ next.sent = r.sent := by
    simpa using same
  have reached := ((machine { blind with web }).reaches_append _ _ next).mpr ⟨r,before,further⟩
  have among : ∀ c, c ∉ greeted.map Prod.fst → r.frames c = [] ∧ r.pages c = Web.mounted :=
    fun c other => reaches_among before c fun listed => other (by
      have all : ∀ d ∈ greeting.map RoomEvent.conn, d ∈ greeted.map Prod.fst := by decide
      exact all c listed)
  have quiet : next.Quiet := by
    refine ⟨server ▸ drained,fun c _ => ?_,fun c online => ?_⟩
    · rw [frames]
      by_cases here : c ∈ greeted.map Prod.fst
      · obtain ⟨g,listed,rfl⟩ := conns c here
        exact (await g listed).idle
      · exact (among c here).1
    · by_cases here : c ∈ greeted.map Prod.fst
      · rw [server]
        exact (handed c here).2
      · have gone := online.ws
        simp [(others c here).1,(among c here).2,Web.mounted] at gone
  obtain ⟨history,-,-,pages⟩ := room_agrees { blind with web } usual _ next reached quiet
  refine ⟨{ blind with web },next,history,usual,fun g member => ?_⟩
  obtain ⟨es',sound',-⟩ := reaches_sound usual reached
  obtain ⟨ws,delivered⟩ := handed g.1 (List.mem_map_of_mem member)
  obtain ⟨-,-,-,some_⟩ := stays g member
  have online : next.Online g.1 := by
    refine ⟨ws,(sound'.sessions g.1).opened ws ?_,server ▸ (await g member).running⟩
    rw [delivered]
    exact List.length_pos_iff.mpr some_
  obtain ⟨k,-,-,chats,-,shown⟩ := pages g.1 online
  rw [sent,(await g member).sent] at chats
  exact ⟨online,k,chats,shown⟩

end Room

end Rust

end Wschat
