import Wschat.GoServer

/-! What one step of the Go server can do, said once. The invariants are checked against the
moves and not against `step`. -/
namespace Wschat.Go

inductive Move (env : Env) (s : State) : Event → State → Prop where
  | accept (c : Conn) (now : Int64) : (s.handlers c).pc = .absent →
      Move env s (.accept c now) (accept env s c now)
  | broadcasted (c : Conn) (now : Int64) :
      (s.handlers c).pc = .broadcasting → s.tasks ⟨c,.connect⟩ = .done →
      Move env s (.handle c now) (s.goto c .writing)
  | write (c : Conn) (now : Int64) : (s.handlers c).pc = .writing →
      Move env s (.handle c now)
        ((s.write c (.direct ⟨⟨c,.connect⟩,(s.handlers c).msgJSONBytes⟩)).goto c .storing)
  | store (c : Conn) (now : Int64) : (s.handlers c).pc = .storing →
      Move env s (.handle c now) ((s.store (env.uuid c) c).goto c .launching)
  | startWriter (c : Conn) (now : Int64) : (s.handlers c).pc = .launching →
      Move env s (.handle c now) ((s.setWriter c .receiving).goto c .receiving)
  | chat (c : Conn) (payload : String) (now : Int64) (msg : Message) :
      (s.handlers c).pc = .receiving →
      unmarshal env.lib payload (s.handlers c).msg = (msg,none) →
      Move env s (.receive c (.frame payload) now)
        { s.launch env ⟨c,.chat (s.handlers c).chats⟩ (newChatMessage (env.uuid c) msg.contents now) with
          handlers := replace s.handlers c
            { s.handlers c with msg, chats := (s.handlers c).chats + 1 } }
  | leave (c : Conn) (incoming : Incoming) (now : Int64) (msg : Message) (pc : HandlerPc) :
      (s.handlers c).pc = .receiving → pc = .replying ∨ pc = .announcing →
      Move env s (.receive c incoming now)
        { s with handlers := replace s.handlers c { s.handlers c with msg, pc } }
  | reply (c : Conn) (now : Int64) (text : String) : (s.handlers c).pc = .replying →
      Move env s (.handle c now) ((s.write c (.reply text)).goto c .announcing)
  | announce (c : Conn) (now : Int64) : (s.handlers c).pc = .announcing →
      Move env s (.handle c now)
        ((s.launch env ⟨c,.disconnect⟩ (newSystemMessage .disconnect (env.uuid c) now)).goto c
          (.closing .swap))
  | close (c : Conn) (now : Int64) (pc next : ClosePc) (channel : Channel Origin Item) :
      (s.handlers c).pc = .closing pc → (s.channels c).close pc = some (channel,next) →
      Move env s (.handle c now)
        { (s.setChannel c channel).goto c (afterClose next) with panicked := next = .panicked }
  | delete (c : Conn) (now : Int64) : (s.handlers c).pc = .deleting →
      Move env s (.handle c now) ((s.delete (env.uuid c) c).goto c .returned)
  | range (o : Origin) (text : String) : s.tasks o = .spawned text →
      Move env s (.range o)
        (s.setTask o (.ranging text ⟨[],s.clients.map Prod.snd,s.clients.map Prod.snd⟩ none))
  | visit (o : Origin) (y : Conn) (text : String) (range : Range) :
      s.tasks o = .ranging text range none → y ∈ range.may → y ∉ range.visited →
      Move env s (.visit o y)
        (s.setTask o (.ranging text { range with visited := y :: range.visited } (some (y,.rLock))))
  | send (o : Origin) (y : Conn) (text : String) (range : Range) (pc next : SendPc)
      (channel : Channel Origin Item) : s.tasks o = .ranging text range (some (y,pc)) →
      (s.channels y).send o ⟨o,text⟩ pc = some (channel,next) →
      Move env s (.send o)
        { (s.setChannel y channel).setTask o
            (.ranging text range (if next = .returned then none else some (y,next))) with
          panicked := next = .panicked }
  | finish (o : Origin) (text : String) (range : Range) :
      s.tasks o = .ranging text range none → (∀ y ∈ range.must, y ∈ range.visited) →
      Move env s (.finish o) (s.setTask o .done)
  | pop (c : Conn) (item : Item) (rest : List Item) : s.writers c = .receiving →
      (s.channels c).buffer = item :: rest →
      Move env s (.writer c)
        ((s.setChannel c { s.channels c with buffer := rest }).setWriter c (.writing item))
  | drain (c : Conn) : s.writers c = .receiving → (s.channels c).buffer = [] →
      (s.channels c).shut = true → Move env s (.writer c) (s.setWriter c .done)
  | forward (c : Conn) (item : Item) : s.writers c = .writing item →
      Move env s (.writer c) ((s.write c (.forwarded item)).setWriter c .receiving)

theorem receive_move (env : Env) (s : State) (c : Conn) (incoming : Incoming) (now : Int64)
    (ready : (s.handlers c).pc = .receiving) :
    Move env s (.receive c incoming now) (receive env s c incoming now) := by
  have leaving : ∀ incoming, Move env s (.receive c incoming now) (s.goto c .announcing) :=
    fun incoming => .leave c incoming now (s.handlers c).msg .announcing ready (.inr rfl)
  cases incoming with
  | eof => exact leaving .eof
  | error => exact leaving .error
  | frame payload =>
    simp only [receive]
    split
    · next accepted =>
      apply Move.chat c payload now _ ready
      rw [← accepted]
    · next failure rejected =>
      apply Move.leave c (.frame payload) now _ _ ready
      split
      · exact .inl rfl
      · exact .inr rfl

theorem handle_move (env : Env) (s next : State) (c : Conn) (now : Int64)
    (ran : handle env s c now = some next) : Move env s (.handle c now) next := by
  unfold handle at ran
  split at ran
  case h_1 | h_2 | h_3 => contradiction
  case h_4 at_ =>
    split at ran
    · next done =>
      obtain rfl := Option.some.inj ran
      exact .broadcasted c now at_ done
    · contradiction
  case h_5 at_ => obtain rfl := Option.some.inj ran; exact .write c now at_
  case h_6 at_ => obtain rfl := Option.some.inj ran; exact .store c now at_
  case h_7 at_ => obtain rfl := Option.some.inj ran; exact .startWriter c now at_
  case h_8 at_ => obtain rfl := Option.some.inj ran; exact .reply c now _ at_
  case h_9 at_ => obtain rfl := Option.some.inj ran; exact .announce c now at_
  case h_10 pc at_ =>
    obtain ⟨⟨channel,next⟩,closed,rfl⟩ := Option.map_eq_some_iff.mp ran
    exact .close c now pc next channel at_ closed
  case h_11 at_ => obtain rfl := Option.some.inj ran; exact .delete c now at_

theorem writer_move (env : Env) (s next : State) (c : Conn)
    (ran : writerStep s c = some next) : Move env s (.writer c) next := by
  unfold writerStep at ran
  split at ran
  case h_1 | h_2 => contradiction
  case h_3 at_ =>
    obtain ⟨⟨channel,received⟩,taken,rfl⟩ := Option.map_eq_some_iff.mp ran
    unfold Channel.receive at taken
    split at taken
    · next item rest full =>
      obtain ⟨rfl,rfl⟩ := Prod.mk.inj (Option.some.inj taken)
      exact .pop c item rest at_ full
    · next empty =>
      split at taken
      · next shut =>
        obtain ⟨rfl,rfl⟩ := Prod.mk.inj (Option.some.inj taken)
        exact .drain c at_ empty shut
      · contradiction
  case h_4 item at_ => obtain rfl := Option.some.inj ran; exact .forward c item at_

theorem step_move (env : Env) (s next : State) (e : Event) (stepped : step env s e = some next) :
    Move env s e next := by
  unfold step at stepped
  split at stepped
  · contradiction
  cases e with
  | accept c now =>
    simp only at stepped
    split at stepped
    · next fresh => obtain rfl := Option.some.inj stepped; exact .accept c now fresh
    · contradiction
  | handle c now => exact handle_move env s next c now stepped
  | receive c incoming now =>
    simp only at stepped
    split at stepped
    · next ready =>
      obtain rfl := Option.some.inj stepped
      exact receive_move env s c incoming now ready
    · contradiction
  | range o =>
    simp only at stepped
    split at stepped
    · next text spawned => obtain rfl := Option.some.inj stepped; exact .range o text spawned
    · contradiction
  | visit o y =>
    simp only at stepped
    split at stepped
    · next text range ranging =>
      split at stepped
      · next found =>
        obtain rfl := Option.some.inj stepped
        exact .visit o y text range ranging found.1 found.2
      · contradiction
    · contradiction
  | send o =>
    simp only at stepped
    split at stepped
    · next text range y pc sending =>
      obtain ⟨⟨channel,after⟩,sent,rfl⟩ := Option.map_eq_some_iff.mp stepped
      exact .send o y text range pc after channel sending sent
    · contradiction
  | finish o =>
    simp only at stepped
    split at stepped
    · next text range ranging =>
      split at stepped
      · next complete =>
        obtain rfl := Option.some.inj stepped
        apply Move.finish o text range ranging
        simpa using complete
      · contradiction
    · contradiction
  | writer c => exact writer_move env s next c stepped

end Wschat.Go
