import Wschat.CppServer
import Wschat.GoClosing
import Wschat.PyHandlers
import Wschat.RustServer

/-! A text frame that the decoder rejects, on the four servers. The receive loops of the Go
and the Python server end there; the other two answer and read on. On the Go server the
goroutines of earlier chats may still be at work then. -/
namespace Wschat

/-- What a server shows of one connection: `Rejects` is the event that hands a text frame to
the receive loop and its decoder rejects it, `sent s c y` is what `y` has been sent of the
broadcasts of `c` but its disconnect. -/
structure Endpoint (σ ε : Type) where
  machine : Machine σ ε
  Rejects : σ → ε → Nat → Prop
  Reads : σ → Nat → Prop
  sent : σ → Nat → Nat → List String
  errors : σ → Nat → Nat
  Closed : σ → Nat → Prop

namespace Endpoint

variable {σ ε : Type} (p : Endpoint σ ε)

/-- The connection is done for: `s` is the state before its last frame, `t` a later one. -/
structure Ended (s t : σ) (c : Nat) : Prop where
  unread : ¬p.Reads t c
  silent : ∀ y, p.sent t c y = p.sent s c y
  errors : p.errors t c ≤ 1
  closes : ∃ u, p.machine.Leads t u ∧ p.Closed u c

/-- A frame of `c` is rejected along the schedule, in `s`. -/
def RejectedAt (es : List ε) (c : Nat) (s next : σ) : Prop :=
  ∃ before e after, es = before ++ e :: after ∧ p.machine.Reaches before s ∧
    p.machine.step s e = some next ∧ p.Rejects s e c

def BadFrameEnds (es : List ε) (c : Nat) : Prop :=
  ∀ s next, p.RejectedAt es c s next → ∀ t, p.machine.Leads next t → p.Ended s t c

/-- A loop that can always read on meets the rule only where nothing is rejected. -/
theorem badFrameEnds_iff_of_rereads
    (rereads : ∀ s e next c, p.machine.step s e = some next → p.Rejects s e c →
      ∃ t, p.machine.Leads next t ∧ p.Reads t c) (es : List ε) (c : Nat) :
    p.BadFrameEnds es c ↔ ∀ s next, ¬p.RejectedAt es c s next := by
  constructor
  · intro ends s next rejected
    obtain ⟨before,e,after,-,-,stepped,bad⟩ := id rejected
    obtain ⟨t,leads,reads⟩ := rereads s e next c stepped bad
    exact (ends s next rejected t leads).unread reads
  · intro never s next rejected
    exact absurd rejected (never s next)

end Endpoint

namespace Cpp

def Kind.isFrame : Kind → Bool
  | .frame _ => true
  | .connect | .reply _ | .disconnect => false

def Kind.isReply : Kind → Bool
  | .reply _ => true
  | .connect | .frame _ | .disconnect => false

def endpoint (env : Env) (workers : Nat) : Endpoint System Event where
  machine := machine env workers
  Rejects := fun s e x => ∃ t payload now residue failure,
    e = .read t x (some payload) now residue ∧
      deserialize env.lib ((s.state.conns x).buffer ++ payload) residue = .error failure
  Reads := fun s x => (s.state.conns x).reading = true
  sent := fun s x y => ((s.state.stream y).filter fun text => text.origin.conn = x ∧
    (text.origin.kind = .connect ∨ text.origin.kind.isFrame)).map Text.bytes
  errors := fun s x => (s.state.stream x).countP fun text => text.origin.kind.isReply
  Closed := fun s x => (s.state.conns x).freed = true

theorem exec_leads (env : Env) (workers : Nat) (order : List Conn) (now : Int64)
    (at_ : s.threads[t]? = some (p :: rest))
    (ran : exec env s.state t order now p = some (state,points)) :
    (machine env workers).Leads s ⟨state,s.threads.set t (points ++ rest)⟩ :=
  .step _ (e := .exec t order now) (by simp [machine,step,at_,ran])

/-- After the reply comes the next `async_read`. -/
theorem rereads (env : Env) (workers : Nat) (s : System) (e : Event) (next : System) (x : Conn)
    (stepped : (endpoint env workers).machine.step s e = some next)
    (rejected : (endpoint env workers).Rejects s e x) :
    ∃ t, (endpoint env workers).machine.Leads next t ∧ (endpoint env workers).Reads t x := by
  obtain ⟨t,payload,now,residue,failure,rfl,bad⟩ := rejected
  simp only [endpoint,machine,step] at stepped
  split at stepped
  case isFalse => contradiction
  case isTrue ready =>
    obtain rfl := Option.some.inj stepped
    have idle := ready.1.1
    have inside : t < s.threads.length := (List.getElem?_eq_some_iff.mp idle).1
    obtain ⟨text,replying⟩ : ∃ text, handlePoint env x (s.state.conns x).received.length
        ((s.state.conns x).buffer ++ payload) now residue = .reply x text := by
      simp [handlePoint,outcome,bad]
    rw [replying]
    let entered := s.enter t x (.receive payload now residue) (.reply x text)
    have atReply : entered.threads[t]? = some [.reply x text] := by
      simp [entered,System.enter,inside]
    have replies := exec_leads env workers [] now atReply rfl
    let replied : System := ⟨entered.state.modify x (.post text),entered.threads.set t [.read true x]⟩
    have atRead : replied.threads[t]? = some [.read true x] := by
      simp [replied,entered,System.enter,inside]
    exact ⟨_,replies.trans _ (exec_leads env workers [] now atRead rfl),by simp [endpoint]⟩

end Cpp

namespace Rust

def endpoint (env : Env) : Endpoint State Event where
  machine := machine env
  Rejects := fun _ e c => ∃ text now, e = .frame c (.text text) now ∧ fromStr env.lib text = none
  Reads := fun s c => (s.conns c).phase = .running
  -- the server sends a text to all its clients in the step that makes it
  sent := fun s c _ => (s.log.filter fun entry =>
    entry.uuid = env.uuid c ∧ entry.kind ≠ .disconnect).map Entry.text
  -- the texts written are those handled and the error replies
  errors := fun s c => (s.conns c).written.countP (fun out =>
    match out with
    | .text _ => true
    | _ => false) - (s.conns c).handled.length
  Closed := fun s c => (s.conns c).phase = .stopped

theorem rereads (env : Env) (s : State) (e : Event) (next : State) (c : Conn)
    (stepped : (endpoint env).machine.step s e = some next) (rejected : (endpoint env).Rejects s e c) :
    ∃ t, (endpoint env).machine.Leads next t ∧ (endpoint env).Reads t c := by
  obtain ⟨text,now,rfl,bad⟩ := rejected
  simp only [endpoint,machine,step] at stepped
  split at stepped
  case isFalse => contradiction
  case isTrue running =>
    obtain rfl := Option.some.inj stepped
    exact ⟨_,.refl _ _,by simp [endpoint,ConnState.handle,bad,ConnState.write,running]⟩

end Rust

namespace Go

def Written.isReply : Written → Bool
  | .reply _ => true
  | .direct _ | .forwarded _ => false

def sentOf (sent : List Item) (c : Conn) : List String :=
  (sent.filter fun item => item.origin.conn = c ∧ item.origin.kind ≠ .disconnect).map Item.text

def endpoint (env : Env) : Endpoint State Event where
  machine := machine env
  Rejects := fun s e c => ∃ payload now, e = .receive c (.frame payload) now ∧
    (unmarshal env.lib payload (s.handlers c).msg).2 ≠ none
  Reads := fun s c => (s.handlers c).pc = .receiving
  sent := fun s c y => sentOf (s.channels y).sent c
  errors := fun s c => (s.wire c).countP Written.isReply
  Closed := fun s c => (s.handlers c).pc = .returned

/-- No broadcast of the client but its disconnect is under way. -/
def Quiet (s : State) (c : Conn) : Prop := ∀ k ≠ .disconnect, (s.tasks ⟨c,k⟩).running = false

/-- The error reply is written once, after the loop. -/
structure Replied (h : Handler) (wire : List Written) : Prop where
  before : h.pc.rank ≤ 6 → wire.countP Written.isReply = 0
  once : wire.countP Written.isReply ≤ 1

theorem Replied.goto (r : Replied h wire) (later : h'.pc.rank ≤ 6 → h.pc.rank ≤ 6) :
    Replied h' wire :=
  ⟨fun early => r.before (later early),r.once⟩

theorem Replied.write (r : Replied h wire) (w : Written) (other : w.isReply = false) :
    Replied h (wire ++ [w]) := by
  constructor
  · intro early
    simpa [other] using r.before early
  · simpa [other] using r.once

theorem move_replied (moved : Move env s e next)
    (replied : ∀ c, Replied (s.handlers c) (s.wire c)) :
    ∀ c, Replied (next.handlers c) (next.wire c) := by
  have handler : ∀ d h, (h.pc.rank ≤ 6 → (s.handlers d).pc.rank ≤ 6) →
      ∀ c, Replied (replace s.handlers d h c) (s.wire c) := fun d h later =>
    replace_forall (R := fun c h => Replied h (s.wire c)) replied ((replied d).goto later)
  cases moved with
  | accept d now at_ | broadcasted d now at_ | store d now at_ | startWriter d now at_
  | announce d now at_ | delete d now at_ =>
    apply handler d
    simp [at_]
  | chat d => exact handler d _ id
  | leave d incoming now msg pc at_ out => exact handler d _ (by simp [at_])
  | close d now pc after ch at_ closed =>
    apply handler d
    intro early
    have up := (close_rank closed).1.le
    simp only [at_,rank_closing]
    exact Nat.le_trans up early
  | write d now at_ =>
    intro c
    by_cases same : c = d
    · subst same
      simp only [State.goto,State.write,replace_same]
      exact ((replied c).write _ rfl).goto (by simp [at_])
    · simpa [State.goto,State.write,same] using replied c
  | reply d now text at_ =>
    intro c
    by_cases same : c = d
    · subst same
      have none := (replied c).before (by simp [at_])
      simp only [State.goto,State.write,replace_same]
      exact ⟨by simp,by simp [none,Written.isReply]⟩
    · simpa [State.goto,State.write,same] using replied c
  | forward d item at_ =>
    exact replace_forall (R := fun c (w : List Written) => Replied (s.handlers c) w) replied
      ((replied d).write _ rfl)
  | range | visit | send | finish | pop | drain => exact replied

theorem reaches_replied (reached : (machine env).Reaches es s) :
    ∀ c, Replied (s.handlers c) (s.wire c) := by
  apply (machine env).invariant (fun s => ∀ c, Replied (s.handlers c) (s.wire c)) _ _ reached
  · intro c
    constructor <;> simp [machine,start]
  · intro s e next replied stepped
    exact move_replied (step_move env s next e stepped) replied

/-- A handler that has left its loop starts no broadcast but its disconnect. -/
theorem move_quiet (moved : Move env s e next) (out : 5 < (s.handlers c).pc.rank) (quiet : Quiet s c) :
    Quiet next c := by
  intro k other
  have before := quiet k other
  -- the broadcast that moves is another one, because it was running
  have elsewhere : ∀ o task, (s.tasks o).running = true →
      (replace s.tasks o task ⟨c,k⟩).running = false := by
    intro o task ran
    have apart : (⟨c,k⟩ : Origin) ≠ o := by
      rintro rfl
      simp [before] at ran
    simpa [apart] using before
  have launched : ∀ d kind task, (d = c → kind = .disconnect) →
      (replace s.tasks ⟨d,kind⟩ task ⟨c,k⟩).running = false := by
    intro d kind task last
    have apart : (⟨c,k⟩ : Origin) ≠ ⟨d,kind⟩ := by
      intro same
      obtain ⟨rfl,rfl⟩ := Origin.mk.inj same
      exact other (last rfl)
    simpa [apart] using before
  cases moved with
  | accept d now at_ | chat d payload now msg at_ =>
    apply launched
    rintro rfl
    simp [at_] at out
  | announce d now at_ => exact launched d .disconnect _ fun _ => rfl
  | range o text at_ | visit o y text range at_ | send o y text range pc after channel at_
  | finish o text range at_ =>
    apply elsewhere
    rw [at_]
    rfl
  | store d | delete d => simpa [State.goto,State.store,State.delete] using before
  | broadcasted | write | startWriter | leave | reply | close | pop | drain | forward => exact before

/-- While none of them is under way, none is sent. -/
theorem move_silent (moved : Move env s e next) (quiet : Quiet s c) (y : Conn) :
    sentOf (next.channels y).sent c = sentOf (s.channels y).sent c := by
  rcases move_sent moved y with same | ⟨o,text,range,-,ranging,grown⟩
  · rw [same]
  · have apart : ¬(o.conn = c ∧ o.kind ≠ .disconnect) := by
      rintro ⟨rfl,other⟩
      have still := quiet o.kind other
      rw [show (⟨o.conn,o.kind⟩ : Origin) = o from rfl,ranging] at still
      exact Bool.noConfusion still
    rw [grown]
    simpa [sentOf] using apart

/-- The receive loop ends with a frame that is rejected, and with it what the client
broadcasts, once its earlier chats have been broadcast. -/
theorem badFrameEnds (env : Env) (es : List Event) (c : Conn)
    (quiet : ∀ s next, (endpoint env).RejectedAt es c s next → Quiet s c) :
    (endpoint env).BadFrameEnds es c := by
  intro s next rejected t leads
  have still := quiet s next rejected
  obtain ⟨before,e,after,-,reached,stepped,payload,now,rfl,bad⟩ := rejected
  have moved := step_move env s next (.receive c (.frame payload) now) stepped
  have reachable : (machine env).Reachable next := .leads _ ⟨before,reached⟩ (.step _ stepped)
  have left : 5 < (next.handlers c).pc.rank ∧ Quiet next c := by
    cases moved with
    | chat c payload now msg at_ accepted => simp [accepted] at bad
    | leave c incoming now msg pc at_ out =>
      refine ⟨?_,still⟩
      rcases out with rfl | rfl <;> simp
  have later : (5 < (t.handlers c).pc.rank ∧ Quiet t c) ∧
      ∀ y, sentOf (t.channels y).sent c = sentOf (s.channels y).sent c := by
    apply (machine env).leads_invariant (fun t => (5 < (t.handlers c).pc.rank ∧ Quiet t c) ∧
      ∀ y, sentOf (t.channels y).sent c = sentOf (s.channels y).sent c) _
        ⟨left,move_silent moved still⟩ leads
    intro u e v gone stepped
    have moved := step_move env u v e stepped
    exact ⟨⟨Nat.lt_of_lt_of_le gone.1.1 (move_rank moved c),move_quiet moved gone.1.1 gone.1.2⟩,
      fun y => (move_silent moved gone.1.2 y).trans (gone.2 y)⟩
  have further := reachable.leads _ leads
  obtain ⟨fs,reached⟩ := id further
  constructor
  · intro reads
    have at_ : (t.handlers c).pc = .receiving := reads
    simp [at_] at later
  · exact later.2
  · exact (reaches_replied reached c).once
  · exact returns further later.1.1

end Go

namespace Py

/-- The handler has left its receive loop. -/
def Pc.Out : Pc → Prop
  | .replying | .sending .disconnect _ _ | .returned _ => True
  | .absent | .accepting | .sending .connect _ _ | .sending (.chat _) _ _ | .greeting
  | .receiving => False

@[simp] theorem out_replying : Pc.replying.Out := trivial
@[simp] theorem out_sending (index : Nat) (text : String) :
    (Pc.sending .disconnect index text).Out := trivial
@[simp] theorem out_returned (exit : Exit) : (Pc.returned exit).Out := trivial

def sentOf (sends : List Sent) (c y : Conn) : List String :=
  (sends.filter fun sent => (sent.call.conn = c ∧ sent.call.kind ≠ .disconnect) ∧ sent.recip = y).map
    Sent.text

/-- The error reply is not a string, so that `send_text` raises before it sends. -/
def endpoint (env : Env) : Endpoint State Event where
  machine := machine env
  Rejects := fun _ e c => ∃ frame now exc, e = .received c (.text frame) now ∧
    fromJson env.lib frame = .error exc
  Reads := fun s c => (s.handlers c).pc = .receiving
  sent := fun s => sentOf s.sends
  errors := fun _ _ => 0
  Closed := fun s c => ∃ exit, (s.handlers c).pc = .returned exit

/-- What a loop sends to a client is of its own call. -/
theorem advance_out (advanced : Advance s d index text kind next)
    (out : d = c ∧ kind = .disconnect ∨ d ≠ c ∧ (s.handlers c).pc.Out) :
    (next.handlers c).pc.Out ∧ sentOf next.sends c = sentOf s.sends c := by
  refine ⟨?_,?_⟩
  · rcases out with ⟨rfl,rfl⟩ | ⟨other,out⟩
    · cases advanced <;> simp [State.goto,State.sendText]
    · cases advanced <;> simpa [State.goto,State.sendText,other.symm] using out
  · cases advanced with
    | send kind ws found =>
      funext y
      have apart : d = c → kind = .disconnect := by
        rintro rfl
        rcases out with ⟨-,last⟩ | ⟨other,-⟩
        · exact last
        · exact absurd rfl other
      simpa [sentOf,State.goto,State.sendText] using fun same away _ => away (apart same)
    | greet | receive | remove | removeRaised => rfl

/-- A handler that has left its loop stays out of it, and nothing more of its chats is sent. -/
theorem move_out (moved : Move env s e next) (out : (s.handlers c).pc.Out) :
    (next.handlers c).pc.Out ∧ sentOf next.sends c = sentOf s.sends c := by
  have elsewhere : ∀ d, ¬(s.handlers d).pc.Out → d ≠ c := by
    rintro d inside rfl
    exact inside out
  -- another handler goes to `pc`
  have other : ∀ d pc, ¬(s.handlers d).pc.Out →
      ((replace s.handlers d { s.handlers d with pc }) c).pc.Out := by
    intro d pc inside
    simpa [(elsewhere d inside).symm] using out
  cases moved with
  | connect d at_ | acceptRaised d now at_ | greetingRaised d at_ | add d at_
  | badJson d frame now at_ => exact ⟨other d _ (by simp [at_,Pc.Out]),rfl⟩
  | replied d at_ =>
    refine ⟨?_,rfl⟩
    by_cases same : c = d
    · subst same; simp [State.goto]
    · simpa [State.goto,same] using out
  | announce d now text next at_ advanced =>
    have apart := elsewhere d (by simp [at_,Pc.Out])
    have advances := advance_out (c := c) advanced
      (.inr ⟨apart,by simpa [State.enter,State.goto,State.record,apart.symm] using out⟩)
    exact advances
  | chat d frame now msg text next at_ read text_ advanced =>
    have apart := elsewhere d (by simp [at_,Pc.Out])
    have advances := advance_out (c := c) advanced
      (.inr ⟨apart,by simpa [State.enter,State.goto,State.record,State.number,apart.symm] using out⟩)
    exact advances
  | leave d result now text next at_ failed advanced =>
    have apart := elsewhere d (by simp [at_,Pc.Out])
    have advances := advance_out (c := c) advanced
      (.inr ⟨apart,by simpa [State.enter,State.goto,State.record,apart.symm] using out⟩)
    exact advances
  | loop d raised kind index text next at_ advanced =>
    by_cases same : d = c
    · subst same
      have leaving : kind = .disconnect := by
        rw [at_] at out
        cases kind <;> simp [Pc.Out] at out ⊢
      exact advance_out advanced (.inl ⟨rfl,leaving⟩)
    · exact advance_out (c := c) advanced (.inr ⟨same,out⟩)

theorem sent_leads (env : Env) (at_ : (s.handlers c).pc = .sending kind index text) :
    (machine env).Leads s (s.loop c kind index text) :=
  .step _ (e := .sent c false) (by simp [machine,step,at_])

theorem ended_returns {s : State} {index : Nat} (ended : s.clients[index]? = none) :
    ∃ exit, ((s.loop c .disconnect index text).handlers c).pc = .returned exit := by
  simp only [State.loop,ended,State.afterLoop,State.remove]
  split
  · exact ⟨.finished,by simp [State.goto]⟩
  · exact ⟨.removeRaised,by simp [State.goto]⟩

/-- The broadcast of the disconnect can run to its end. -/
theorem disconnect_returns (size : s.clients.length ≤ index + n)
    (at_ : (s.handlers c).pc = .sending .disconnect index text) :
    ∃ t, (machine env).Leads s t ∧ ∃ exit, (t.handlers c).pc = .returned exit := by
  induction n generalizing s index with
  | zero => exact ⟨_,sent_leads env at_,ended_returns (by simpa using size)⟩
  | succ n ih =>
    have sent := sent_leads env at_
    cases found : s.clients[index]? with
    | none => exact ⟨_,sent,ended_returns found⟩
    | some ws =>
      simp only [State.loop,found] at sent
      have shorter : s.clients.length ≤ index + 1 + n := by omega
      obtain ⟨t,leads,returned⟩ := ih shorter
        (s := (s.sendText ⟨⟨c,.disconnect⟩,ws,text⟩).goto c (.sending .disconnect (index+1) text))
        (by simp [State.goto])
      exact ⟨t,sent.trans _ leads,returned⟩

theorem out_returns (out : (s.handlers c).pc.Out) :
    ∃ t, (machine env).Leads s t ∧ ∃ exit, (t.handlers c).pc = .returned exit := by
  cases at_ : (s.handlers c).pc with
  | absent | accepting | greeting | receiving => simp [at_,Pc.Out] at out
  | returned exit => exact ⟨s,.refl _ s,exit,at_⟩
  | replying =>
    refine ⟨s.goto c (.returned .replyRaised),.step _ (e := .replied c) ?_,.replyRaised,?_⟩
    · simp [machine,step,at_]
    · simp [State.goto]
  | sending kind index text =>
    cases kind with
    | connect | chat k => simp [at_,Pc.Out] at out
    | disconnect => exact disconnect_returns (Nat.le_add_left _ _) at_

theorem badFrameEnds (env : Env) (es : List Event) (c : Conn) :
    (endpoint env).BadFrameEnds es c := by
  rintro s next ⟨before,e,after,-,reached,stepped,frame,now,exc,rfl,bad⟩ t leads
  have left : (next.handlers c).pc.Out ∧ sentOf next.sends c = sentOf s.sends c := by
    cases step_move env s next (.received c (.text frame) now) stepped with
    | badJson c frame now at_ read => exact ⟨by simp [State.goto],rfl⟩
    | chat c frame now msg text next at_ read => simp [read] at bad
    | leave c result now text next at_ failed advanced =>
      have advances := advance_out advanced (.inl ⟨rfl,rfl⟩)
      exact advances
  have later : (t.handlers c).pc.Out ∧ sentOf t.sends c = sentOf s.sends c := by
    apply (machine env).leads_invariant (fun t => (t.handlers c).pc.Out ∧
      sentOf t.sends c = sentOf s.sends c) _ left leads
    intro u e v gone stepped
    obtain ⟨out,same⟩ := move_out (step_move env u v e stepped) gone.1
    exact ⟨out,same.trans gone.2⟩
  constructor
  · intro reads
    have at_ : (t.handlers c).pc = .receiving := reads
    simp [at_,Pc.Out] at later
  · exact congrFun later.2
  · exact Nat.zero_le 1
  · exact out_returns later.1

end Py

/-- Over every schedule and for every connection. -/
theorem bad_frame_ends (cpp : Cpp.Env) (workers : Nat) (rust : Rust.Env) (go : Go.Env)
    (py : Py.Env) (c : Nat) :
    (∀ es, (Cpp.endpoint cpp workers).BadFrameEnds es c ↔
      ∀ s next, ¬(Cpp.endpoint cpp workers).RejectedAt es c s next) ∧
    (∀ es, (Rust.endpoint rust).BadFrameEnds es c ↔
      ∀ s next, ¬(Rust.endpoint rust).RejectedAt es c s next) ∧
    (∀ es, (∀ s next, (Go.endpoint go).RejectedAt es c s next → Go.Quiet s c) →
      (Go.endpoint go).BadFrameEnds es c) ∧
    (∀ es, (Py.endpoint py).BadFrameEnds es c) :=
  ⟨fun es => Endpoint.badFrameEnds_iff_of_rereads _ (Cpp.rereads cpp workers) es c,
    fun es => Endpoint.badFrameEnds_iff_of_rereads _ (Rust.rereads rust) es c,
    fun es => Go.badFrameEnds go es c,fun es => Py.badFrameEnds py es c⟩

namespace Rust

/-- A client sends a text that is no JSON, and then a chat. -/
def heckled : List Event :=
  [.start 0,.serve 0 1] ++ .frame 0 (.text "hello") 2 ::
    [.frame 0 (.text "\x7b\"sender\":\"0\",\"contents\":\"a\"\x7d") 3,.serve 0 4]

theorem heckled_broadcasts : ((machine .numbered).run heckled start).any (fun s =>
    decide (((endpoint .numbered).sent s 0 0).length = 2)) = true := by
  decide +kernel

theorem heckled_before : ((machine .numbered).run [.start 0,.serve 0 1] start).any (fun s =>
    decide (((endpoint .numbered).sent s 0 0).length = 1)) = true := by
  decide +kernel

theorem heckled_reads_on : ¬∀ env es c, (endpoint env).BadFrameEnds es c := by
  intro ends
  obtain ⟨t,ran,two⟩ := (Option.any_eq_true _ _).mp heckled_broadcasts
  obtain ⟨s,reached,one⟩ := (Option.any_eq_true _ _).mp heckled_before
  obtain ⟨middle,first,rest⟩ := ((machine .numbered).reaches_append _ _ t).mp ran
  obtain rfl := first.unique _ reached
  obtain ⟨next,stepped,later⟩ := ((machine .numbered).run_cons _ _ _ _).mp rest
  have ended := ends .numbered heckled 0 middle next
    ⟨_,_,_,rfl,first,stepped,"hello",2,rfl,by decide +kernel⟩ t ⟨_,later⟩
  simp only [decide_eq_true_eq] at one two
  simp [ended.silent 0,one] at two

end Rust

namespace Go

theorem rejects_hello (s : State) : (endpoint .numbered).Rejects s (.receive 0 (.frame "hello") 3) 0 := by
  have unread : encodingJson.parse "hello" = none := by decide +kernel
  exact ⟨"hello",3,rfl,by simp [Env.numbered,unmarshal,unread]⟩

/-- A client sends a chat and a text that is no JSON before the chat's goroutine has run. -/
def hasty : List Event :=
  join 0 [] ++ .receive 0 (.frame "\x7b\"contents\":\"a\"\x7d") 2 :: .receive 0 (.frame "hello") 3 ::
    deliver ⟨0,.chat 0⟩ [0]

theorem hasty_before : ((machine .numbered).run
    (join 0 [] ++ [.receive 0 (.frame "\x7b\"contents\":\"a\"\x7d") 2]) start).any (fun s =>
      decide (((endpoint .numbered).sent s 0 0).length = 0)) = true := by
  decide +kernel

theorem hasty_sends : ((machine .numbered).run hasty start).any (fun s =>
    decide (((endpoint .numbered).sent s 0 0).length = 1)) = true := by
  decide +kernel

/-- The chat is sent after the frame that ends the connection. -/
theorem hasty_sends_on : ¬∀ env es c, (endpoint env).BadFrameEnds es c := by
  intro ends
  obtain ⟨t,ran,one⟩ := (Option.any_eq_true _ _).mp hasty_sends
  obtain ⟨s,reached,none_⟩ := (Option.any_eq_true _ _).mp hasty_before
  rw [hasty,show ∀ e : Event, ∀ es, join 0 [] ++ e :: es = (join 0 [] ++ [e]) ++ es by simp] at ran
  obtain ⟨middle,first,rest⟩ := ((machine .numbered).reaches_append _ _ t).mp ran
  obtain rfl := first.unique _ reached
  obtain ⟨next,stepped,later⟩ := ((machine .numbered).run_cons _ _ _ _).mp rest
  have ended := ends .numbered _ 0 middle next
    ⟨_,_,[],rfl,first,stepped,rejects_hello middle⟩ t ⟨_,later⟩
  simp only [decide_eq_true_eq] at one none_
  simp [ended.silent 0,none_] at one

/-- `Quiet` where a frame is read, as a test. -/
def quietFirst (s : State) : Event → Bool
  | .receive c (.frame _) _ => !(s.tasks ⟨c,.connect⟩).running &&
    (List.range (s.handlers c).chats).all fun k => !(s.tasks ⟨c,.chat k⟩).running
  | _ => true

theorem quietFirst_sound (reached : (machine env).Reaches es s)
    (checked : quietFirst s (.receive c (.frame payload) now) = true) : Quiet s c := by
  simp only [quietFirst,Bool.and_eq_true,List.all_eq_true,List.mem_range,Bool.not_eq_true'] at checked
  obtain ⟨connect,chats⟩ := checked
  have launches := (reaches_sound reached).launches c
  intro k other
  cases k with
  | connect => exact connect
  | disconnect => contradiction
  | chat k =>
    by_cases launched : k < (s.handlers c).chats
    · exact chats k launched
    · have absent := (launches.absent (.chat k)).mpr (by simp [Handler.launched,launched])
      rw [absent]
      rfl

/-- The same client, when the chat has been broadcast. -/
def patient : List Event :=
  join 0 [] ++ .receive 0 (.frame "\x7b\"contents\":\"a\"\x7d") 2 :: deliver ⟨0,.chat 0⟩ [0] ++
    [.receive 0 (.frame "hello") 3]

theorem patient_runs : (machine .numbered).check quietFirst patient start = true ∧
    ((machine .numbered).run patient start).isSome = true := by
  decide +kernel

theorem patient_ends : (endpoint .numbered).BadFrameEnds patient 0 ∧
    ∃ s next, (endpoint .numbered).RejectedAt patient 0 s next := by
  obtain ⟨quiet,ran⟩ := patient_runs
  constructor
  · refine (bad_frame_ends .numbered 1 .numbered .numbered .numbered 0).2.2.1 patient ?_
    rintro s next ⟨before,e,after,split,reached,-,payload,now,rfl,-⟩
    rw [split] at quiet
    exact quietFirst_sound reached ((machine .numbered).check_run quiet reached)
  · obtain ⟨t,ran⟩ := Option.isSome_iff_exists.mp ran
    obtain ⟨s,reached,last⟩ := ((machine .numbered).reaches_append _ _ t).mp ran
    obtain ⟨next,stepped,-⟩ := ((machine .numbered).run_cons _ _ _ _).mp last
    exact ⟨s,next,_,_,[],rfl,reached,stepped,rejects_hello s⟩

end Go
end Wschat
