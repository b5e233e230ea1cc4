import Wschat.RustGreeting
import Wschat.Workers

/-! The actors of the Rust server come to rest. Each message of a `Conn` to the server makes
one `SerMsg` at most for every connection there is, and those make no further messages. -/
namespace Wschat.Rust

open Workers

/-- The event is an actor taking a message, and not one from a client. -/
def Event.isInner : Event → Bool
  | .serMsg _ | .serve _ _ => true
  | _ => false

/-- Every connection outside the list has not started. -/
def Within (conns : List Conn) (s : State) : Prop :=
  ∀ c, c ∉ conns → (s.conns c).phase = .absent

def Event.start? : Event → Option Conn
  | .start c => some c
  | _ => none

def starts (es : List Event) : List Conn := es.filterMap Event.start?

/-- What the mailbox holds, and what each message on the way makes with `most` connections. -/
def ConnState.load (most : Nat) (conn : ConnState) : Nat :=
  conn.mailbox.length + (most + 1) * conn.outgoing.length

def load (conns : List Conn) (s : State) : Nat :=
  (conns.map fun c => (s.conns c).load conns.length).sum

/-- Nothing is on the way. -/
def State.Drained (s : State) : Prop :=
  ∀ c, (s.conns c).outgoing = [] ∧ ((s.conns c).phase = .running → (s.conns c).mailbox = [])

/-- A connection gets one text at most, and nothing else of it changes. -/
def Given (conn next : ConnState) : Prop :=
  next.phase = conn.phase ∧ next.outgoing = conn.outgoing ∧
    next.mailbox.length ≤ conn.mailbox.length + 1

theorem given_refl (conn : ConnState) : Given conn conn := ⟨rfl,rfl,Nat.le_succ _⟩

theorem given_receive (text : String) (conn : ConnState) : Given conn (conn.receive text) := by
  obtain ⟨phase,outgoing,-⟩ := receive_fields text conn
  refine ⟨phase,outgoing,?_⟩
  unfold ConnState.receive
  split <;> simp

/-- The server hands out one text for each message. -/
theorem serve_gives (env : Env) (valid : Consistent env s) (now : UInt64)
    (next : (s.conns c).outgoing = msg :: rest) (d : Conn) {before : State}
    (taken : before = s.modify c fun conn => { conn with outgoing := rest }) :
    Given (before.conns d) ((before.serve env now msg).conns d) := by
  have clients : before.clients = s.clients := by rw [taken,modify_clients]
  have distinct : (before.clients.map Prod.snd).Nodup := clients ▸ valid.distinct
  have outside (d : Conn) (newcomer : msg.newcomer = some d) : d ∉ before.clients.map Prod.snd := by
    obtain ⟨none_,rfl⟩ := (valid.conns c).unlogged next newcomer
    rw [clients,valid.members]
    intro opened
    simpa [none_] using opened.1
  by_cases given : d ∈ before.clients.map Prod.snd ∨ msg.newcomer = some d
  · rw [serve_given env before now msg d distinct outside given]
    exact given_receive _ _
  · rw [not_or] at given
    rw [serve_other env before now msg d distinct given.1 given.2]
    exact given_refl _

/-- Reachable, with its connections in a list. -/
def Settling (env : Env) (conns : List Conn) (s : State) : Prop :=
  Consistent env s ∧ Within conns s

theorem Settling.within (settling : Settling env conns s) (active : (s.conns c).phase ≠ .absent) :
    c ∈ conns := by
  by_contra outside
  exact active (settling.2 c outside)

theorem Settling.sender (settling : Settling env conns s) (sends : (s.conns c).outgoing ≠ []) :
    c ∈ conns := by
  refine settling.within fun absent => ?_
  obtain ⟨chats,protocol⟩ := (settling.1.conns c).protocol
  rw [absent] at protocol
  simp [script,sends] at protocol

theorem serMsg_load (waiting : (s.conns c).mailbox = text :: rest) (member : c ∈ conns) :
    load conns (s.modify c (.handleSerMsg text rest)) < load conns s := by
  have here : (((s.conns c).handleSerMsg text rest).load conns.length) + 1 =
      (s.conns c).load conns.length := by
    simp only [ConnState.load,ConnState.handleSerMsg,ConnState.write,waiting,List.length_cons]
    omega
  refine sum_drop_one member 1 (fun d _ => ?_) ?_
  · by_cases same : d = c
    · subst d; simp; omega
    · simp [same]
  · simp; omega

theorem serve_load (env : Env) (valid : Consistent env s) (now : UInt64)
    (next : (s.conns c).outgoing = msg :: rest) (member : c ∈ conns) {before : State}
    (taken : before = s.modify c fun conn => { conn with outgoing := rest }) :
    load conns (before.serve env now msg) < load conns s := by
  -- each connection gets a text, and the sender has a message less
  have more : load conns (before.serve env now msg) ≤
      (conns.map fun d => 1 + (before.conns d).load conns.length).sum := by
    refine List.sum_le_sum fun d _ => ?_
    obtain ⟨-,outgoing,mailbox⟩ := serve_gives env valid now next d taken
    simp only [ConnState.load,outgoing]
    omega
  have here : (before.conns c).load conns.length + (conns.length + 1) =
      (s.conns c).load conns.length := by
    simp [taken,ConnState.load,next,Nat.mul_add]
    omega
  have fewer : (conns.map fun d => (before.conns d).load conns.length).sum + (conns.length + 1) ≤
      load conns s := by
    refine sum_drop_one member _ (fun d _ => ?_) (Nat.le_of_eq here)
    by_cases same : d = c
    · subst d; exact Nat.le_of_add_right_le (Nat.le_of_eq here)
    · simp [taken,same,ConnState.load]
  rw [List.sum_map_add] at more
  simp only [List.map_const',List.sum_replicate,smul_eq_mul,Nat.mul_one] at more
  omega

theorem inner_load (env : Env) (conns : List Conn) (s : State) (e : Event) (next : State)
    (settling : Settling env conns s) (inner : e.isInner = true)
    (stepped : step env s e = some next) :
    Settling env conns next ∧ load conns next < load conns s := by
  have valid := step_consistent env s next e settling.1 stepped
  cases e with
  | start | frame | finished => simp [Event.isInner] at inner
  | serMsg c =>
    simp only [step] at stepped
    split at stepped
    case h_1 => contradiction
    case h_2 text rest waiting =>
      simp only [Option.ite_none_right_eq_some,Option.some.injEq] at stepped
      obtain ⟨running,rfl⟩ := stepped
      refine ⟨⟨valid,fun d outside => ?_⟩,serMsg_load waiting (settling.within (by simp [running]))⟩
      have other : d ≠ c := by
        rintro rfl
        simp [settling.2 d outside] at running
      simpa [other] using settling.2 d outside
  | serve c now =>
    simp only [step] at stepped
    split at stepped
    case h_1 => contradiction
    case h_2 msg rest waiting =>
      obtain rfl := Option.some.inj stepped
      have sender := settling.sender (c := c) (by simp [waiting])
      refine ⟨⟨valid,fun d outside => ?_⟩,serve_load env settling.1 now waiting sender rfl⟩
      have other : d ≠ c := fun same => outside (same ▸ sender)
      rw [(serve_gives env settling.1 now waiting d rfl).1]
      simpa [other] using settling.2 d outside

theorem inner_enabled (env : Env) (s : State) (busy : ¬s.Drained) :
    ∃ e, e.isInner = true ∧ (step env s e).isSome = true := by
  simp only [State.Drained,not_forall,not_and_or] at busy
  obtain ⟨c,sends | ⟨running,waits⟩⟩ := busy
  · obtain ⟨msg,rest,next⟩ := List.exists_cons_of_ne_nil sends
    exact ⟨.serve c 0,rfl,by simp [step,next]⟩
  · obtain ⟨text,rest,next⟩ := List.exists_cons_of_ne_nil waits
    exact ⟨.serMsg c,rfl,by simp [step,next,running]⟩

theorem starts_concat (es : List Event) (e : Event) :
    starts (es ++ [e]) = starts es ++ e.start?.toList := by
  rw [starts,starts,List.filterMap_append]
  cases start : e.start? <;> simp [start]

/-- The connections that have started are those of the schedule. -/
theorem settling (env : Env) (reached : (machine env).Reaches es s) :
    Settling env (starts es) s := by
  refine ⟨consistent env reached,?_⟩
  refine (machine env).reaches_induction (motive := fun es s => Within (starts es) s)
    (fun _ _ => rfl) ?_ reached
  intro es s e next before within stepped
  have valid := consistent env before
  have kept (c : Conn) (f : ConnState → ConnState) (present : (s.conns c).phase ≠ .absent) :
      Within (starts es) (s.modify c f) := by
    intro d outside
    have other : d ≠ c := by
      rintro rfl
      exact present (within d outside)
    simpa [other] using within d outside
  rw [starts_concat]
  cases e with
  | start c =>
    simp only [machine,step,Option.ite_none_right_eq_some,Option.some.injEq] at stepped
    obtain ⟨-,rfl⟩ := stepped
    intro d outside
    obtain ⟨outside,other⟩ := not_or.mp (List.mem_append.not.mp outside)
    have other : d ≠ c := by simpa [Event.start?] using other
    simpa [other] using within d outside
  | frame c frame now =>
    simp only [machine,step,Option.ite_none_right_eq_some,Option.some.injEq] at stepped
    obtain ⟨running,rfl⟩ := stepped
    simp only [Event.start?,Option.toList_none,List.append_nil]
    exact kept c _ (by simp [running])
  | finished c =>
    simp only [machine,step,Option.ite_none_right_eq_some,Option.some.injEq] at stepped
    obtain ⟨running,rfl⟩ := stepped
    simp only [Event.start?,Option.toList_none,List.append_nil]
    exact kept c _ (by simp [running])
  | serMsg c =>
    simp only [Event.start?,Option.toList_none,List.append_nil]
    exact (inner_load env _ s (.serMsg c) next ⟨valid,within⟩ rfl stepped).1.2
  | serve c now =>
    simp only [Event.start?,Option.toList_none,List.append_nil]
    exact (inner_load env _ s (.serve c now) next ⟨valid,within⟩ rfl stepped).1.2

theorem drained_of_load (settling : Settling env conns s) (none_ : load conns s = 0) :
    s.Drained := by
  have each (c : Conn) (member : c ∈ conns) : (s.conns c).load conns.length = 0 :=
    List.sum_eq_zero_iff.mp none_ _ (List.mem_map_of_mem member)
  refine fun c => ⟨?_,fun running => ?_⟩
  · by_contra sends
    have empty := each c (settling.sender sends)
    simp [ConnState.load,sends] at empty
  · have empty := each c (settling.within (by simp [running]))
    simp only [ConnState.load,Nat.add_eq_zero_iff,List.length_eq_zero_iff] at empty
    exact empty.1

/-- Nothing is on the way: the clients are the running connections, each has handled the log
from its own connect on, and each of the others has left it. -/
structure AtRest (env : Env) (s : State) : Prop where
  clients : ∀ c, c ∈ s.clients.map Prod.snd ↔ (s.conns c).phase = .running
  handled : ∀ c, (s.conns c).phase = .running → (s.conns c).handled =
    (s.log.dropWhile fun e => !opens (env.uuid c) e).map Entry.text
  left_ : ∀ c, (s.conns c).phase = .stopped → .disconnect ∈ own (env.uuid c) s.log

theorem at_rest (env : Env) (valid : Consistent env s) (drained : s.Drained) : AtRest env s := by
  have protocol (c : Conn) : ∃ chats, own (env.uuid c) s.log = script (s.conns c).phase chats := by
    obtain ⟨chats,protocol⟩ := (valid.conns c).protocol
    exact ⟨chats,by simpa [(drained c).1] using protocol⟩
  have opened (c : Conn) (running : (s.conns c).phase = .running) : Open (env.uuid c) s.log := by
    obtain ⟨chats,eq⟩ := protocol c
    rw [Open,eq,running]
    simp [script]
  refine ⟨fun c => ?_,fun c running => ?_,fun c stopped => ?_⟩
  · rw [valid.members]
    refine ⟨fun open_ => ?_,opened c⟩
    obtain ⟨chats,eq⟩ := protocol c
    rw [Open,eq] at open_
    cases phase : (s.conns c).phase with
    | running => rfl
    | absent => simp [phase,script] at open_
    | stopped => simp [phase,script] at open_
  · have delivered := (valid.conns c).delivered (by simp [running])
    rw [(drained c).2 running,List.append_nil] at delivered
    rw [delivered,share,Segment.segment_unclosed]
    intro e member
    by_contra closing
    simp only [closes,Bool.not_eq_false,decide_eq_true_eq] at closing
    exact (opened c running).2 (mem_own.mpr ⟨e,member,closing⟩)
  · obtain ⟨chats,eq⟩ := protocol c
    rw [eq,stopped]
    simp [script]

/-- In whatever order the actors take what is on the way, they come to rest, all of it
delivered. -/
theorem actors_settle (env : Env) (es : List Event) (s : State)
    (reached : (machine env).Reaches es s) :
    (∀ fs final, (∀ e ∈ fs, e.isInner = true) → (machine env).run fs s = some final →
      fs.length ≤ load (starts es) s ∧ (final.Drained ∧ AtRest env final ∨
        ∃ e, e.isInner = true ∧ ((machine env).step final e).isSome = true)) ∧
    ∃ fs final, (∀ e ∈ fs, e.isInner = true) ∧ (machine env).run fs s = some final ∧
      final.Drained ∧ AtRest env final := by
  have here := settling env reached
  have down := inner_load env (starts es)
  refine ⟨fun fs final all ran => ?_,?_⟩
  · obtain ⟨inside,bound⟩ := (machine env).run_bounded (load (starts es)) (Settling env (starts es))
      (fun e => e.isInner = true) down here all ran
    refine ⟨by omega,?_⟩
    by_cases drained : final.Drained
    · exact .inl ⟨drained,at_rest env inside.1 drained⟩
    · exact .inr (inner_enabled env final drained)
  · obtain ⟨fs,final,all,ran,inside,drained⟩ := (machine env).run_to (load (starts es))
      (Settling env (starts es)) (fun e => e.isInner = true) down State.Drained
      (fun s _ busy => inner_enabled env s busy) s here
    exact ⟨fs,final,all,ran,drained,at_rest env inside.1 drained⟩

/-- Two connects on the way, and a frame behind one of them. -/
def crowded : List Event :=
  [.start 0,.start 1,.frame 0 (.text "\x7b\"sender\":\"\",\"contents\":\"hi\"\x7d") 3]

theorem crowded_settles : ∃ s fs final, (machine .numbered).Reaches crowded s ∧
    (machine .numbered).run fs s = some final ∧ final.Drained ∧ AtRest .numbered final := by
  have runs : ((machine .numbered).run crowded start).isSome = true := by decide +kernel
  obtain ⟨s,ran⟩ := Option.isSome_iff_exists.mp runs
  obtain ⟨-,fs,final,-,further,drained,rest⟩ := actors_settle .numbered crowded s ran
  exact ⟨s,fs,final,ran,further,drained,rest⟩

end Wschat.Rust
