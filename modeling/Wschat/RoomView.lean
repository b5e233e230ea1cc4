import Wschat.StaleSockets

/-! The view of the page belongs to the socket in `ws`. Two branches of `messageHandler` go
on after `reset` and insert the message they have handled. -/
namespace Wschat.Web

/-- The first connect message among those received. -/
def firstConnect (received : List Msg) : Option Msg :=
  received.find? fun msg => switch msg.action = .connect

/-- The view shows the room of the socket in `ws`, and no other. -/
structure Belongs (p : Page) : Prop where
  current : ∀ shown ∈ p.messages, p.ws = some shown.socket
  received : ∀ shown ∈ p.messages, shown.msg ∈ (p.sockets shown.socket).received
  named : p.uuid = .string "" ∨ ∃ c msg, p.ws = some c ∧
    firstConnect (p.sockets c).received = some msg ∧ p.uuid = msg.contents

/-- Once a connect has come in on the socket, its contents are the name. -/
def Named (p : Page) : Prop := ∀ c msg, p.ws = some c →
  firstConnect (p.sockets c).received = some msg → p.uuid = msg.contents

/-- A message that the page can handle without mixing rooms. -/
def Admits (env : Env) (p : Page) (c : Nat) (data : String) : Prop :=
  match env.parse data with
  | none => True
  | some msg =>
    match switch msg.action with
    | .connect => p.ws = some c ∧ (p.uuid = .string "" →
        msg.contents = .string "" ∨ firstConnect (p.sockets c).received = none)
    | .chat => p.ws = some c
    | .disconnect => p.ws = some c ∧ msg.contents ≠ p.uuid
    | .error => False
    | .default => True

def InRoom (env : Env) (p : Page) : Event → Prop
  | .message c data => Admits env p c data
  | .connectToWs _ | .changeServer _ _ | .opened _ | .error _ | .closed _ => True

/-- What holds of the page and its sockets on every schedule. -/
structure Wired (p : Page) : Prop where
  fresh : ∀ c, p.created ≤ c → p.sockets c = .new
  created : ∀ c, p.ws = some c → c < p.created
  opened : ∀ c, (p.sockets c).phase = .open_ → (p.sockets c).opened = true
  silent : ∀ c, (p.sockets c).opened = false → (p.sockets c).received = []
  shown : ∀ c, p.ws = some c → (p.sockets c).opened = true → p.isOpen = true

@[simp] theorem firstConnect_append (received : List Msg) (msg : Msg) :
    firstConnect (received ++ [msg]) = (firstConnect received).or
      (if switch msg.action = .connect then some msg else none) := by
  simp only [firstConnect,List.find?_append]
  by_cases connect : switch msg.action = .connect <;> simp [connect]

theorem mem_insert (env : Env) (p : Page) (new shown : Shown) :
    shown ∈ (p.insert env new).messages ↔ shown = new ∨ shown ∈ p.messages := by
  have split := List.take_append_drop (p.messages.reverse.dropWhile fun elem =>
    !env.less elem.msg.timestamp new.msg.timestamp).length p.messages
  simp only [Page.insert,List.mem_append,List.mem_cons]
  rw [← split]
  simp only [List.mem_append]
  rw [split]
  tauto

theorem reset_belongs (p : Page) : Belongs p.reset := ⟨by simp,by simp,by simp⟩

theorem reset_named (p : Page) : Named p.reset := by
  intro c msg at_
  simp at at_

/-- A page that is not connected shows nothing. -/
theorem Belongs.blank (belongs : Belongs p) (wired : Wired p) (apart : p.isConnected = false) :
    p.messages = [] ∧ p.uuid = .string "" := by
  have silent : ∀ c, p.ws = some c → (p.sockets c).received = [] := by
    intro c at_
    apply wired.silent
    by_contra opened
    have shown := wired.shown c at_ (by simpa using opened)
    simp [Page.isConnected,shown,at_] at apart
  constructor
  · apply List.eq_nil_iff_forall_not_mem.mpr
    intro shown inside
    have received := belongs.received shown inside
    rw [silent _ (belongs.current shown inside)] at received
    contradiction
  · rcases belongs.named with blank | ⟨c,msg,at_,first,-⟩
    · exact blank
    · simp [silent c at_,firstConnect] at first

section Wired

theorem wired_mounted : Wired mounted := by
  constructor <;> simp [mounted,Socket.new]

theorem Wired.setSocket (wired : Wired p) (old : c < p.created)
    (phase : s.phase = .open_ → s.opened = true) (opened : s.opened = (p.sockets c).opened)
    (received : s.opened = false → s.received = (p.sockets c).received) :
    Wired (p.setSocket c s) where
  fresh := by
    intro d later
    have apart : d ≠ c := by
      rintro rfl
      exact absurd old (by simpa [Page.setSocket] using later)
    simpa [Page.setSocket,apart] using wired.fresh d later
  created := wired.created
  opened := replace_forall (R := fun _ (s : Socket) => s.phase = .open_ → s.opened = true) wired.opened phase
  silent := by
    apply replace_forall (R := fun _ (s : Socket) => s.opened = false → s.received = []) wired.silent
    intro unopened
    rw [received unopened]
    exact wired.silent c (by rw [← opened]; exact unopened)
  shown := by
    intro d at_ already
    apply wired.shown d at_
    by_cases same : d = c
    · subst same; simpa [Page.setSocket,opened] using already
    · simpa [Page.setSocket,same] using already

theorem close_phase (s : Socket) (opened : s.close.phase = .open_) : False := by
  cases phase : s.phase <;> simp [Socket.close,phase] at opened

theorem Wired.reset (wired : Wired p) : Wired p.reset := by
  have closed : Wired p.closeWs := by
    unfold Page.closeWs
    split
    · next c at_ =>
      exact wired.setSocket (wired.created c at_) (fun opened => (close_phase _ opened).elim) rfl
        (fun _ => rfl)
    · exact wired
  unfold Page.reset
  split
  · exact ⟨closed.fresh,by simp,closed.opened,closed.silent,by simp⟩
  · exact ⟨wired.fresh,by simp,wired.opened,wired.silent,by simp⟩

theorem Wired.install (wired : Wired p) : Wired p.install := by
  constructor
  · intro c later
    have other : c ≠ p.created := Nat.ne_of_gt later
    simp only [Page.install,replace_other _ _ _ _ other]
    exact wired.fresh c (Nat.le_of_succ_le later)
  · intro c at_
    obtain rfl := Option.some.inj at_
    simp [Page.install]
  · exact replace_forall (R := fun _ (s : Socket) => s.phase = .open_ → s.opened = true) wired.opened
      (by simp [Socket.new])
  · exact replace_forall (R := fun _ (s : Socket) => s.opened = false → s.received = [])
      wired.silent (by simp [Socket.new])
  · intro c at_ opened
    obtain rfl := Option.some.inj at_
    simp [Page.install,Socket.new] at opened

theorem Wired.openHandler (wired : Wired p) (old : c < p.created) :
    Wired (p.setSocket c { p.sockets c with phase := .open_, opened := true }).openHandler := by
  constructor
  · intro d later
    have apart : d ≠ c := by
      rintro rfl
      exact absurd old (by simpa [Page.openHandler,Page.setSocket] using later)
    simpa [Page.openHandler,Page.setSocket,apart] using wired.fresh d later
  · exact wired.created
  · exact replace_forall (R := fun _ (s : Socket) => s.phase = .open_ → s.opened = true) wired.opened
      (by simp)
  · exact replace_forall (R := fun _ (s : Socket) => s.opened = false → s.received = [])
      wired.silent (by simp)
  · exact fun _ _ _ => rfl

theorem step_wired (wired : Wired p) (stepped : step env p e = some next) : Wired next := by
  apply step_rule env (fun _ wired => wired.reset) (fun _ _ wired => wired.install)
    (fun _ _ w => ⟨w.fresh,w.created,w.opened,w.silent,w.shown⟩)
    (fun _ _ w => ⟨w.fresh,w.created,w.opened,w.silent,w.shown⟩) _ _ _ stepped wired
  · exact fun c _ old => wired.openHandler old
  · intro c data old phase
    have opened := wired.opened c phase
    apply wired.setSocket old
    · intro _
      rw [deliver_opened,opened]
    · exact deliver_opened env data _
    · intro unopened
      rw [deliver_opened,opened] at unopened
      contradiction
  · intro c phase old failed
    refine wired.setSocket (s := { p.sockets c with phase }) old ?_ rfl (fun _ => rfl)
    rcases failed with rfl | rfl <;> simp

end Wired

section Delivered

/-- The page after a message `msg` of `c` has been inserted, whatever became of the name. -/
structure Delivered (p : Page) (c : Nat) (msg : Msg) (r : Page) : Prop where
  ws : r.ws = p.ws
  received : ∀ d, (r.sockets d).received =
    if d = c then (p.sockets c).received ++ [msg] else (p.sockets d).received
  messages : ∀ shown, shown ∈ r.messages ↔ shown = ⟨c,msg⟩ ∨ shown ∈ p.messages

theorem Delivered.belongs_iff (delivered : Delivered p c msg r) (belongs : Belongs p) :
    Belongs r ↔ p.ws = some c ∧ (r.uuid = .string "" ∨
      ∃ m, firstConnect ((p.sockets c).received ++ [msg]) = some m ∧ r.uuid = m.contents) := by
  constructor
  · intro after
    have mine := after.current ⟨c,msg⟩ ((delivered.messages _).mpr (.inl rfl))
    rw [delivered.ws] at mine
    refine ⟨mine,?_⟩
    rcases after.named with blank | ⟨d,m,at_,first,named⟩
    · exact .inl blank
    · rw [delivered.ws,mine] at at_
      obtain rfl := Option.some.inj at_
      rw [delivered.received,if_pos rfl] at first
      exact .inr ⟨m,first,named⟩
  · rintro ⟨mine,named⟩
    constructor
    · intro shown inside
      rw [delivered.ws]
      rcases (delivered.messages shown).mp inside with rfl | old
      · exact mine
      · exact belongs.current shown old
    · intro shown inside
      rw [delivered.received]
      rcases (delivered.messages shown).mp inside with rfl | old
      · simp
      · have there := belongs.received shown old
        split
        · next same => rw [← same]; exact List.mem_append_left _ there
        · exact there
    · rcases named with blank | ⟨m,first,named⟩
      · exact .inl blank
      · refine .inr ⟨c,m,delivered.ws.trans mine,?_,named⟩
        rw [delivered.received,if_pos rfl]
        exact first

theorem Delivered.named (delivered : Delivered p c msg r) (mine : p.ws = some c)
    (first : ∀ m, firstConnect ((p.sockets c).received ++ [msg]) = some m → r.uuid = m.contents) :
    Named r := by
  intro d m at_ found
  rw [delivered.ws,mine] at at_
  obtain rfl := Option.some.inj at_
  rw [delivered.received,if_pos rfl] at found
  exact first m found

theorem deliver_received (p : Page) (c : Nat) (msg : Msg) (d : Nat) :
    ((p.setSocket c { p.sockets c with
      received := (p.sockets c).received ++ [msg] }).sockets d).received =
        if d = c then (p.sockets c).received ++ [msg] else (p.sockets d).received := by
  by_cases same : d = c <;> simp [Page.setSocket,same]

theorem insert_delivered (env : Env) (p : Page) (c : Nat) (msg : Msg) : Delivered p c msg
    ((p.setSocket c { p.sockets c with
      received := (p.sockets c).received ++ [msg] }).insert env ⟨c,msg⟩) :=
  ⟨rfl,deliver_received p c msg,mem_insert env _ _⟩

theorem renamed_delivered (env : Env) (p : Page) (c : Nat) (msg : Msg) : Delivered p c msg
    (Page.insert env { p.setSocket c { p.sockets c with
      received := (p.sockets c).received ++ [msg] } with uuid := msg.contents } ⟨c,msg⟩) :=
  ⟨rfl,deliver_received p c msg,mem_insert env _ _⟩

/-- A name that is there stays right when another message comes in. -/
theorem Belongs.keeps (belongs : Belongs p) (mine : p.ws = some c) : p.uuid = .string "" ∨
      ∃ m, firstConnect ((p.sockets c).received ++ [msg]) = some m ∧ p.uuid = m.contents := by
  rcases belongs.named with blank | ⟨d,m,at_,first,named⟩
  · exact .inl blank
  · rw [mine] at at_
    obtain rfl := Option.some.inj at_
    exact .inr ⟨m,by simp [first],named⟩

/-- A page without a socket that shows a message mixes rooms. -/
theorem stray (env : Env) (p : Page) (new : Shown) : ¬Belongs (p.reset.insert env new) := by
  intro belongs
  have current := belongs.current new ((mem_insert env _ new new).mpr (.inl rfl))
  simp at current

theorem message_belongs_iff (belongs : Belongs p) (named : Named p) :
    Belongs ((p.setSocket c ((p.sockets c).deliver env data)).messageHandler env c data) ↔
      Admits env p c data := by
  unfold Page.messageHandler Admits Socket.deliver
  cases env.parse data with
  | none => exact iff_of_true (reset_belongs _) trivial
  | some msg =>
    simp only
    have uuid : (p.setSocket c { p.sockets c with
        received := (p.sockets c).received ++ [msg] }).uuid = p.uuid := rfl
    cases case_ : switch msg.action with
    | connect =>
      simp only [uuid]
      split
      · next blank =>
        have delivered := renamed_delivered env p c msg
        rw [delivered.belongs_iff belongs]
        apply and_congr_right
        intro mine
        simp only [Page.insert_uuid,firstConnect_append,case_,if_true,blank,true_implies]
        cases first : firstConnect (p.sockets c).received with
        | none => simp
        | some m =>
          have empty := named c m mine first
          rw [blank] at empty
          simp [← empty]
      · next already =>
        have delivered := insert_delivered env p c msg
        rw [delivered.belongs_iff belongs]
        apply and_congr_right
        intro mine
        simp only [already,false_implies,iff_true]
        exact belongs.keeps mine
    | chat =>
      have delivered := insert_delivered env p c msg
      simp only [delivered.belongs_iff belongs]
      exact and_iff_left_of_imp belongs.keeps
    | disconnect =>
      simp only [uuid]
      split
      · next mine => exact iff_of_false (stray env _ _) fun other => other.2 mine
      · next other =>
        have delivered := insert_delivered env p c msg
        simp only [delivered.belongs_iff belongs,other,not_false_eq_true,and_true,ne_eq]
        exact and_iff_left_of_imp belongs.keeps
    | error => exact iff_of_false (stray env _ _) id
    | default => exact iff_of_true (reset_belongs _) trivial

/-- After an admitted message the name is still that of the first connect. -/
theorem message_named (belongs : Belongs p) (named : Named p) (admits : Admits env p c data) :
    Named ((p.setSocket c ((p.sockets c).deliver env data)).messageHandler env c data) := by
  revert admits
  unfold Page.messageHandler Admits Socket.deliver
  cases env.parse data with
  | none => exact fun _ => reset_named _
  | some msg =>
    simp only
    have uuid : (p.setSocket c { p.sockets c with
        received := (p.sockets c).received ++ [msg] }).uuid = p.uuid := rfl
    -- a message that is no connect, on the socket of the page
    have unnamed : ∀ q : Page, Delivered p c msg q → q.uuid = p.uuid → p.ws = some c →
        switch msg.action ≠ .connect → Named q := by
      intro q delivered same mine other
      apply delivered.named mine
      intro m first
      rw [same]
      exact named c m mine (by simpa [other] using first)
    cases case_ : switch msg.action with
    | connect =>
      rintro ⟨mine,fresh⟩
      simp only [uuid]
      split
      · next blank =>
        have delivered := renamed_delivered env p c msg
        apply delivered.named mine
        intro m first
        simp only [firstConnect_append,case_,if_true] at first
        cases old : firstConnect (p.sockets c).received with
        | none =>
          simp only [old,Option.none_or,Option.some.injEq] at first
          exact congrArg Msg.contents first
        | some m₀ =>
          simp only [old,Option.some_or,Option.some.injEq] at first
          have empty := (fresh blank).resolve_right (by simp [old])
          rw [← first,← named c m₀ mine old,blank]
          exact empty
      · next already =>
        have delivered := insert_delivered env p c msg
        apply delivered.named mine
        intro m first
        rcases belongs.named with blank | ⟨d,m₀,at_,old,same⟩
        · exact absurd blank already
        · rw [mine] at at_
          obtain rfl := Option.some.inj at_
          simp only [firstConnect_append,old,Option.some_or,Option.some.injEq] at first
          rw [← first]
          exact same
    | chat =>
      intro mine
      have delivered := insert_delivered env p c msg
      exact unnamed _ delivered rfl mine (by simp [case_])
    | disconnect =>
      rintro ⟨mine,other⟩
      have delivered := insert_delivered env p c msg
      simp only [uuid,other,if_false]
      exact unnamed _ delivered rfl mine (by simp [case_])
    | error => exact fun impossible => impossible.elim
    | default => exact fun _ => reset_named _

end Delivered

/-- The new socket comes to a page that shows nothing. -/
theorem install_belongs (wired : Wired p) (belongs : Belongs p) (apart : p.isConnected = false) :
    Belongs p.install ∧ Named p.install := by
  obtain ⟨messages,uuid⟩ := belongs.blank wired apart
  refine ⟨⟨by simp [Page.install,messages],by simp [Page.install,messages],.inl uuid⟩,?_⟩
  intro c msg at_ first
  obtain rfl := Option.some.inj at_
  simp [Page.install,Socket.new,firstConnect] at first

theorem connectToWs_belongs (wired : Wired p) (belongs : Belongs p) (named : Named p)
    (throws : Bool) : Belongs (p.connectToWs throws) ∧ Named (p.connectToWs throws) := by
  have after := connectToWs_rule (P := fun p => Wired p ∧ Belongs p ∧ Named p)
    (fun p view => ⟨view.1.reset,reset_belongs p,reset_named p⟩)
    (fun _ apart view => ⟨view.1.install,install_belongs view.1 view.2.1 apart⟩)
    throws ⟨wired,belongs,named⟩
  exact after.2

theorem setSocket_belongs (belongs : Belongs p) (received : s.received = (p.sockets c).received) :
    Belongs (p.setSocket c s) := by
  have same : ∀ d, ((p.setSocket c s).sockets d).received = (p.sockets d).received := by
    intro d
    by_cases mine : d = c
    · subst mine; simpa [Page.setSocket] using received
    · simp [Page.setSocket,mine]
  refine ⟨belongs.current,?_,?_⟩
  · intro shown inside
    rw [same]
    exact belongs.received shown inside
  · rcases belongs.named with blank | ⟨d,msg,at_,first,named⟩
    · exact .inl blank
    · exact .inr ⟨d,msg,at_,by rw [same]; exact first,named⟩

theorem setSocket_named (named : Named p) (received : s.received = (p.sockets c).received) :
    Named (p.setSocket c s) := by
  intro d msg at_ first
  apply named d msg at_
  by_cases mine : d = c
  · subst mine; simpa [Page.setSocket,received] using first
  · simpa [Page.setSocket,mine] using first

/-- One step keeps the view in its room exactly where the event is one for it. -/
theorem step_belongs (wired : Wired p) (belongs : Belongs p) (named : Named p)
    (stepped : step env p e = some next) :
    (Belongs next ↔ InRoom env p e) ∧ (InRoom env p e → Named next) := by
  -- an event that brings no message
  have kept : Belongs next ∧ Named next → InRoom env p e →
      (Belongs next ↔ InRoom env p e) ∧ (InRoom env p e → Named next) :=
    fun both inRoom => ⟨iff_of_true both.1 inRoom,fun _ => both.2⟩
  cases e with
  | connectToWs throws =>
    obtain rfl := Option.some.inj stepped
    exact kept (connectToWs_belongs wired belongs named throws) trivial
  | changeServer known throws =>
    obtain rfl := Option.some.inj stepped
    apply kept _ trivial
    simp only [Page.changeServer]
    split
    · exact connectToWs_belongs wired belongs named throws
    · exact ⟨reset_belongs p,reset_named p⟩
  | opened c =>
    simp only [step] at stepped
    split at stepped
    · obtain rfl := Option.some.inj stepped
      have view := setSocket_belongs (s := { p.sockets c with phase := .open_, opened := true })
        (c := c) belongs rfl
      have name := setSocket_named (s := { p.sockets c with phase := .open_, opened := true })
        (c := c) named rfl
      exact kept ⟨⟨view.current,view.received,view.named⟩,name⟩ trivial
    · contradiction
  | message c data =>
    simp only [step] at stepped
    split at stepped
    · obtain rfl := Option.some.inj stepped
      exact ⟨message_belongs_iff belongs named,message_named belongs named⟩
    · contradiction
  | error c =>
    simp only [step] at stepped
    split at stepped
    · obtain rfl := Option.some.inj stepped
      exact kept ⟨reset_belongs _,reset_named _⟩ trivial
    · contradiction
  | closed c =>
    simp only [step] at stepped
    split at stepped
    · obtain rfl := Option.some.inj stepped
      apply kept _ trivial
      simp only [Page.closeHandler]
      split
      · exact ⟨reset_belongs _,reset_named _⟩
      · exact ⟨setSocket_belongs belongs rfl,setSocket_named named rfl⟩
    · contradiction

theorem reaches_wired (reached : (machine env).Reaches es p) : Wired p :=
  (machine env).invariant Wired wired_mounted (fun _ _ _ wired stepped => step_wired wired stepped)
    reached

/-- Along the schedule, the view is that of the current room. -/
def RoomSafe (env : Env) (es : List Event) : Prop :=
  ∀ before after p, es = before ++ after → (machine env).Reaches before p → Belongs p

theorem roomSafe_named (safe : RoomSafe env es) (reached : (machine env).Reaches es p) : Named p := by
  apply (machine env).reaches_induction (motive := fun es p => RoomSafe env es → Named p) _ _
    reached safe
  · intro _ c msg at_
    simp [machine,mounted] at at_
  · intro es p e next reached ih stepped safe
    have belongs := safe es [e] p rfl reached
    have named := ih fun before after q eq => safe before (after ++ [e]) q (by simp [eq])
    have both := step_belongs (reaches_wired reached) belongs named stepped
    have arrived := ((machine env).reaches_concat es e next).mpr ⟨p,reached,stepped⟩
    exact both.2 (both.1.mp (safe (es ++ [e]) [] next (by simp) arrived))

theorem room_safe_iff (env : Env) (es : List Event) (p : Page)
    (reached : (machine env).Reaches es p) :
    RoomSafe env es ↔ (machine env).Meets (InRoom env) es := by
  constructor
  · intro safe before e after q eq first
    subst eq
    obtain ⟨middle,arrived,rest⟩ := ((machine env).reaches_append before (e :: after) p).mp reached
    obtain rfl := arrived.unique _ first
    obtain ⟨next,stepped,-⟩ := ((machine env).run_cons e after middle p).mp rest
    have belongs := safe before (e :: after) middle rfl first
    have named := roomSafe_named (fun front back q eq => safe front (back ++ e :: after) q
      (by simp [eq])) first
    have further := ((machine env).reaches_concat before e next).mpr ⟨middle,first,stepped⟩
    exact (step_belongs (reaches_wired first) belongs named stepped).1.mp
      (safe (before ++ [e]) after next (by simp) further)
  · intro meets before after q eq first
    subst eq
    have both := (machine env).invariant_of_meets (InRoom env)
      (fun p => Wired p ∧ Belongs p ∧ Named p)
      ⟨wired_mounted,⟨by simp [machine,mounted],by simp [machine,mounted],.inl rfl⟩,
        fun c msg at_ => by simp [machine,mounted] at at_⟩
      (fun p e next good inRoom stepped =>
        have both := step_belongs good.1 good.2.1 good.2.2 stepped
        ⟨step_wired good.1 stepped,both.1.mpr inRoom,both.2 inRoom⟩)
      (meets.front _) first
    exact both.2.1

/-- `parseMessage` on the texts of the schedules below. -/
def Env.sample : Env where
  parse := fun data =>
    if data = "\x7b\"action\":\"connect\",\"contents\":\"0\"\x7d" then
      some ⟨.undefined,.string "connect",.string "0",.undefined⟩
    else if data = "\x7b\"action\":\"chat\",\"sender\":\"1\",\"contents\":\"a\"\x7d" then
      some ⟨.string "1",.string "chat",.string "a",.undefined⟩
    else if data = "\x7b\"action\":\"error\"\x7d" then
      some ⟨.undefined,.string "error",.undefined,.undefined⟩
    else none
  less := fun _ _ => false

/-- A page joins a room and hears a chat, and then the same in another room. -/
def joined : List Event :=
  let room := fun c : Nat => ([.changeServer true false,.opened c,
    .message c "\x7b\"action\":\"connect\",\"contents\":\"0\"\x7d",
    .message c "\x7b\"action\":\"chat\",\"sender\":\"1\",\"contents\":\"a\"\x7d"] : List Event)
  room 0 ++ room 1

def hears (p : Page) : Event → Bool
  | .message c data => p.ws = some c &&
      (data = "\x7b\"action\":\"connect\",\"contents\":\"0\"\x7d" &&
          (firstConnect (p.sockets c).received).isNone ||
        data = "\x7b\"action\":\"chat\",\"sender\":\"1\",\"contents\":\"a\"\x7d")
  | _ => true

theorem hears_inRoom (p : Page) (e : Event) (hears : hears p e = true) : InRoom .sample p e := by
  cases e with
  | message c data =>
    simp only [Web.hears,Bool.and_eq_true,Bool.or_eq_true,decide_eq_true_eq,
      Option.isNone_iff_eq_none] at hears
    obtain ⟨mine,⟨rfl,first⟩ | rfl⟩ := hears
    · exact ⟨mine,fun _ => .inr first⟩
    · exact mine
  | connectToWs | changeServer | opened | error | closed => trivial

theorem joined_runs : ((machine .sample).run joined mounted).any (fun p =>
    decide (p.ws = some 1 ∧ p.messages.length = 2)) = true := by decide +kernel

theorem joined_safe : RoomSafe .sample joined ∧ ∃ p, (machine .sample).Reaches joined p ∧
    p.ws = some 1 ∧ p.messages.length = 2 := by
  obtain ⟨p,ran,checked⟩ := (Option.any_eq_true _ _).mp joined_runs
  refine ⟨(room_safe_iff .sample joined p ran).mpr ?_,p,ran,of_decide_eq_true checked⟩
  exact (machine .sample).meets_of_check hears hears_inRoom (by decide +kernel)

/-- The server sends an error, and the user chooses the next server. -/
def scolded : List Event :=
  [.changeServer true false,.opened 0,.message 0 "\x7b\"action\":\"error\"\x7d",.changeServer true false]

theorem scolded_runs : ((machine .sample).run scolded mounted).any (fun p =>
    decide (p.ws = some 1) && decide (p.messages.map Shown.socket = [0])) = true := by decide +kernel

/-- The error of the old room is shown in the next one. -/
theorem scolded_mixes : ¬∀ env es p, (machine env).Reaches es p → RoomSafe env es := by
  intro safe
  obtain ⟨p,ran,checked⟩ := (Option.any_eq_true _ _).mp scolded_runs
  simp only [Bool.and_eq_true,decide_eq_true_eq] at checked
  obtain ⟨current,shown⟩ := checked
  have belongs := safe .sample scolded p ran scolded [] p (by simp) ran
  have inside : 0 ∈ p.messages.map Shown.socket := by simp [shown]
  obtain ⟨old,member,same⟩ := List.mem_map.mp inside
  have mine := belongs.current old member
  simp [current,same] at mine

end Wschat.Web
