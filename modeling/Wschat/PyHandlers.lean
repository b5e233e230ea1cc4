import Mathlib.Data.List.Nodup
import Wschat.PyServer

/-! What one step of the Python server can do, and what the await a handler is in says about
the list of clients and about the broadcasts it has begun. -/
namespace Wschat.Py

/-- The loop of a broadcast, from a state in which the handler is in it. -/
inductive Advance (s : State) (c : Conn) (index : Nat) (text : String) : Kind → State → Prop where
  | send (kind : Kind) (ws : Conn) : s.clients[index]? = some ws →
      Advance s c index text kind
        ((s.sendText ⟨⟨c,kind⟩,ws,text⟩).goto c (.sending kind (index+1) text))
  | greet : s.clients[index]? = none → Advance s c index text .connect (s.goto c .greeting)
  | receive (k : Nat) : s.clients[index]? = none →
      Advance s c index text (.chat k) (s.goto c .receiving)
  | remove : s.clients[index]? = none → c ∈ s.clients →
      Advance s c index text .disconnect
        ({ s with clients := s.clients.erase c }.goto c (.returned .finished))
  | removeRaised : s.clients[index]? = none → c ∉ s.clients →
      Advance s c index text .disconnect (s.goto c (.returned .removeRaised))

theorem loop_advance (s : State) (c : Conn) (kind : Kind) (index : Nat) (text : String) :
    Advance s c index text kind (s.loop c kind index text) := by
  unfold State.loop
  split
  · next ws found => exact .send kind ws found
  · next ended =>
    cases kind with
    | connect => exact .greet ended
    | chat k => exact .receive k ended
    | disconnect =>
      simp only [State.afterLoop,State.remove]
      split
      · next member => exact .remove ended member
      · next absent => exact .removeRaised ended absent

theorem advance_calls (advanced : Advance s c index text kind next) : next.calls = s.calls := by
  cases advanced <;> rfl

@[simp] theorem goto_goto (s : State) (c : Conn) (pc pc' : Pc) :
    (s.goto c pc).goto c pc' = s.goto c pc' := by
  simp only [State.goto,replace_same]
  congr 1
  funext d
  by_cases same : d = c
  · subst same; simp
  · simp [same]

/-- The loop overwrites the await it is entered from. -/
theorem loop_goto (s : State) (c : Conn) (kind : Kind) (index : Nat) (text : String) (pc : Pc) :
    (s.goto c pc).loop c kind index text = s.loop c kind index text := by
  have clients : (s.goto c pc).clients = s.clients := rfl
  have send : ∀ sent, (s.goto c pc).sendText sent = (s.sendText sent).goto c pc := fun _ => rfl
  have erase : { s.goto c pc with clients := s.clients.erase c } =
      { s with clients := s.clients.erase c }.goto c pc := rfl
  rw [State.loop,State.loop,clients]
  cases s.clients[index]? with
  | some ws => simp only [send,goto_goto]
  | none =>
    cases kind with
    | connect | chat => simp only [State.afterLoop,goto_goto]
    | disconnect =>
      simp only [State.afterLoop,State.remove,clients]
      split
      · rw [erase,goto_goto]
      · rw [goto_goto]

/-- A handler that has begun its broadcast `kind`, and has sent nothing of it. -/
def State.enter (s : State) (c : Conn) (kind : Kind) (text : String) : State :=
  (s.record ⟨c,kind⟩ text).goto c (.sending kind 0 text)

inductive Move (env : Env) (s : State) : Event → State → Prop where
  | connect (c : Conn) : (s.handlers c).pc = .absent →
      Move env s (.connect c) (s.goto c .accepting)
  | acceptRaised (c : Conn) (now : Int) : (s.handlers c).pc = .accepting →
      Move env s (.accepted c true now) (s.goto c (.returned .acceptRaised))
  | greetingRaised (c : Conn) : (s.handlers c).pc = .greeting →
      Move env s (.greeted c true) (s.goto c (.returned .greetingRaised))
  | add (c : Conn) : (s.handlers c).pc = .greeting →
      Move env s (.greeted c false) ((s.add c).goto c .receiving)
  | badJson (c : Conn) (frame : String) (now : Int) : (s.handlers c).pc = .receiving →
      fromJson env.lib frame = .error .jsonDecodeError →
      Move env s (.received c (.text frame) now) (s.goto c .replying)
  | replied (c : Conn) : (s.handlers c).pc = .replying →
      Move env s (.replied c) (s.goto c (.returned .replyRaised))
  | announce (c : Conn) (now : Int) (text : String) (next : State) :
      (s.handlers c).pc = .accepting → Advance (s.enter c .connect text) c 0 text .connect next →
      Move env s (.accepted c false now) next
  | chat (c : Conn) (frame : String) (now : Int) (msg : Message) (text : String) (next : State) :
      (s.handlers c).pc = .receiving → fromJson env.lib frame = .ok msg →
      text = toJson env.lib (newChat (env.uuid c) msg.contents now) →
      Advance ((s.number c).enter c (.chat (s.handlers c).chats) text) c 0 text
        (.chat (s.handlers c).chats) next →
      Move env s (.received c (.text frame) now) next
  | leave (c : Conn) (result : Received) (now : Int) (text : String) (next : State) :
      (s.handlers c).pc = .receiving →
      (∀ frame, result = .text frame → ∃ exc, fromJson env.lib frame = .error exc ∧
        exc ≠ .jsonDecodeError) →
      Advance (s.enter c .disconnect text) c 0 text .disconnect next →
      Move env s (.received c result now) next
  | loop (c : Conn) (raised : Bool) (kind : Kind) (index : Nat) (text : String) (next : State) :
      (s.handlers c).pc = .sending kind index text → Advance s c index text kind next →
      Move env s (.sent c raised) next

/-- Beginning a broadcast is entering its loop and running it to the first await. -/
theorem broadcastMsg_advance (env : Env) (s : State) (c : Conn) (kind : Kind) (msg : Message) :
    Advance (s.enter c kind (toJson env.lib msg)) c 0 (toJson env.lib msg) kind
      (s.broadcastMsg env c kind msg) := by
  have advanced := loop_advance (s.enter c kind (toJson env.lib msg)) c kind 0 (toJson env.lib msg)
  rw [State.enter,loop_goto] at advanced
  exact advanced

theorem step_move (env : Env) (s next : State) (e : Event) (stepped : step env s e = some next) :
    Move env s e next := by
  cases e with
  | connect c =>
    simp only [step] at stepped
    split at stepped
    · next at_ => obtain rfl := Option.some.inj stepped; exact .connect c at_
    · contradiction
  | accepted c raised now =>
    simp only [step] at stepped
    split at stepped
    · next at_ =>
      cases raised with
      | true => obtain rfl := Option.some.inj stepped; exact .acceptRaised c now at_
      | false =>
        obtain rfl := Option.some.inj stepped
        exact .announce c now _ _ at_ (broadcastMsg_advance env s c .connect _)
    · contradiction
  | sent c raised =>
    simp only [step] at stepped
    split at stepped
    · next kind index text at_ =>
      obtain rfl := Option.some.inj stepped
      exact .loop c raised kind index text _ at_ (loop_advance s c kind index text)
    · contradiction
  | greeted c raised =>
    simp only [step] at stepped
    split at stepped
    · next at_ =>
      cases raised with
      | true => obtain rfl := Option.some.inj stepped; exact .greetingRaised c at_
      | false => obtain rfl := Option.some.inj stepped; exact .add c at_
    · contradiction
  | received c result now =>
    simp only [step] at stepped
    split at stepped
    · next at_ =>
      obtain rfl := Option.some.inj stepped
      have leaving := broadcastMsg_advance env s c .disconnect
        (newSystem .disconnect (env.uuid c) now)
      cases result with
      | webSocketDisconnect => exact .leave c _ now _ _ at_ (by simp) leaving
      | exception => exact .leave c _ now _ _ at_ (by simp) leaving
      | text frame =>
        simp only [State.receive]
        cases read : fromJson env.lib frame with
        | ok msg => exact .chat c frame now msg _ _ at_ read rfl (broadcastMsg_advance env _ c _ _)
        | error exc =>
          cases exc with
          | jsonDecodeError => exact .badJson c frame now at_ read
          | valueError | attributeError | recursionError =>
            exact .leave c _ now _ _ at_ (by simp [read]) leaving
    · contradiction
  | replied c =>
    simp only [step] at stepped
    split at stepped
    · next at_ => obtain rfl := Option.some.inj stepped; exact .replied c at_
    · contradiction

/-- The handler has added its websocket and not removed it. -/
def Pc.Listed : Pc → Prop
  | .receiving | .replying | .sending (.chat _) _ _ | .sending .disconnect _ _
  | .returned .replyRaised => True
  | .absent | .accepting | .sending .connect _ _ | .greeting | .returned _ => False

/-- The handler has begun to broadcast its connect, and its disconnect. -/
def Pc.connected : Pc → Bool
  | .absent | .accepting | .returned .acceptRaised => false
  | _ => true

def Pc.left : Pc → Bool
  | .sending .disconnect _ _ | .returned .finished | .returned .removeRaised => true
  | _ => false

def Handler.begun (h : Handler) : Kind → Bool
  | .connect => h.pc.connected
  | .chat k => k < h.chats
  | .disconnect => h.pc.left

abbrev begunCalls (calls : List (Call × String)) : List Call := calls.map Prod.fst

structure Life (c : Conn) (h : Handler) (clients : List Conn) (calls : List (Call × String)) :
    Prop where
  listed : c ∈ clients ↔ h.pc.Listed
  counted : ∀ k, (begunCalls calls).count ⟨c,k⟩ = (h.begun k).toNat
  sending : ∀ kind index text, h.pc = .sending kind index text → (⟨c,kind⟩,text) ∈ calls
  idle : h.pc.connected = false → h.chats = 0
  removed : h.pc ≠ .returned .removeRaised

theorem Life.goto (l : Life c h clients calls) (chats : h'.chats = h.chats)
    (listed : h'.pc.Listed ↔ h.pc.Listed) (connected : h'.pc.connected = h.pc.connected)
    (left : h'.pc.left = h.pc.left) (quiet : ∀ kind index text, h'.pc ≠ .sending kind index text)
    (removed : h'.pc ≠ .returned .removeRaised) : Life c h' clients calls where
  listed := l.listed.trans listed.symm
  counted := by
    intro k
    rw [l.counted k]
    cases k <;> simp [Handler.begun,chats,connected,left]
  sending := fun kind index text at_ => absurd at_ (quiet kind index text)
  idle := fun unconnected => by rw [chats]; exact l.idle (connected ▸ unconnected)
  removed := removed

/-- Another handler's broadcast. -/
theorem Life.record (l : Life c h clients calls) (other : c ≠ call.conn) :
    Life c h clients (calls ++ [(call,text)]) where
  listed := l.listed
  counted := by
    intro k
    have apart : call ≠ ⟨c,k⟩ := by
      rintro rfl
      exact other rfl
    simpa [List.count_append,apart] using l.counted k
  sending := fun kind index text at_ => List.mem_append_left _ (l.sending kind index text at_)
  idle := l.idle
  removed := l.removed

/-- The handler's own broadcast `kind` begins. -/
theorem Life.enter (l : Life c h clients calls) (fresh : h.begun kind = false)
    (begun : h'.begun kind = true) (others : ∀ k, k ≠ kind → h'.begun k = h.begun k)
    (listed : h'.pc.Listed ↔ h.pc.Listed) (connected : h'.pc.connected = true)
    (at_ : h'.pc = .sending kind 0 text) : Life c h' clients (calls ++ [(⟨c,kind⟩,text)]) where
  listed := l.listed.trans listed.symm
  counted := by
    intro k
    have before := l.counted k
    by_cases same : k = kind
    · subst same
      simp [List.count_append,before,fresh,begun]
    · have apart : (⟨c,kind⟩ : Call) ≠ ⟨c,k⟩ := by simpa using Ne.symm same
      simp [List.count_append,before,others k same,apart]
  sending := by
    intro kind' index text' here
    rw [at_] at here
    cases here
    simp
  idle := fun unconnected => by simp [connected] at unconnected
  removed := by simp [at_]

theorem Life.change (l : Life c h clients calls) (same : c ∈ clients' ↔ c ∈ clients) :
    Life c h clients' calls :=
  ⟨same.trans l.listed,l.counted,l.sending,l.idle,l.removed⟩

/-- The invariant of the Python server. -/
structure Sound (s : State) : Prop where
  life : ∀ c, Life c (s.handlers c) s.clients s.calls
  nodup : s.clients.Nodup
  traced : ∀ x ∈ s.sends, (x.call,x.text) ∈ s.calls

theorem Sound.handler (sound : Sound s) (c : Conn) (h : Handler) (here : Life c h s.clients s.calls) :
    Sound { s with handlers := replace s.handlers c h } where
  life := replace_forall (R := fun c h => Life c h s.clients s.calls) sound.life here
  nodup := sound.nodup
  traced := sound.traced

theorem Sound.goto (sound : Sound s) (c : Conn) (pc : Pc) (listed : pc.Listed ↔ (s.handlers c).pc.Listed)
    (connected : pc.connected = (s.handlers c).pc.connected) (left : pc.left = (s.handlers c).pc.left)
    (quiet : ∀ kind index text, pc ≠ .sending kind index text)
    (removed : pc ≠ .returned .removeRaised) : Sound (s.goto c pc) :=
  sound.handler c _ ((sound.life c).goto rfl listed connected left quiet removed)

theorem advance_sound (advanced : Advance s c index text kind next) (sound : Sound s)
    (at_ : (s.handlers c).pc = .sending kind index text) : Sound next := by
  cases advanced with
  | send kind ws found =>
    have l := sound.life c
    have recorded := l.sending kind index text at_
    constructor
    · apply replace_forall (R := fun c h => Life c h s.clients s.calls) sound.life
      refine ⟨?_,?_,?_,?_,?_⟩
      · rw [l.listed,at_]
        cases kind <;> exact Iff.rfl
      · intro k
        rw [l.counted k]
        cases k with
        | connect => simp [Handler.begun,at_,Pc.connected]
        | chat k => rfl
        | disconnect => cases kind <;> simp [Handler.begun,at_,Pc.left]
      · intro kind' index' text' here
        cases here
        exact recorded
      · simp [Pc.connected]
      · simp
    · exact sound.nodup
    · intro x member
      rcases List.mem_append.mp member with old | new
      · exact sound.traced x old
      · rw [List.mem_singleton.mp new]; exact recorded
  | greet ended =>
    apply sound.goto c <;> simp [at_,Pc.Listed,Pc.connected,Pc.left]
  | receive k ended =>
    apply sound.goto c <;> simp [at_,Pc.Listed,Pc.connected,Pc.left]
  | remove ended member =>
    constructor
    · intro d
      by_cases same : d = c
      · subst same
        have l := sound.life d
        simp only [State.goto,replace_same]
        refine ⟨?_,?_,?_,?_,?_⟩
        · simp [Pc.Listed,sound.nodup.mem_erase_iff]
        · intro k
          rw [l.counted k]
          cases k <;> simp [Handler.begun,at_,Pc.connected,Pc.left]
        · simp
        · simp [Pc.connected]
        · simp
      · simp only [State.goto,replace_other _ _ _ _ same]
        exact (sound.life d).change (List.mem_erase_of_ne same)
    · exact sound.nodup.erase c
    · exact sound.traced
  | removeRaised ended absent =>
    exact absurd ((sound.life c).listed.mpr (by rw [at_]; trivial)) absent

theorem enter_sound (sound : Sound s) (c : Conn) (kind : Kind) (text : String) (h : Handler)
    (here : Life c { h with pc := .sending kind 0 text } s.clients (s.calls ++ [(⟨c,kind⟩,text)])) :
    Sound ({ s with handlers := replace s.handlers c h }.enter c kind text) := by
  constructor
  · intro d
    by_cases same : d = c
    · subst same; simpa [State.enter,State.goto,State.record] using here
    · simp only [State.enter,State.goto,State.record,replace_other _ _ _ _ same]
      exact (sound.life d).record same
  · exact sound.nodup
  · intro x member
    exact List.mem_append_left _ (sound.traced x member)

theorem replace_self (s : State) (c : Conn) :
    { s with handlers := replace s.handlers c (s.handlers c) } = s := by
  have same : replace s.handlers c (s.handlers c) = s.handlers := by
    funext d
    by_cases here : d = c
    · subst here; simp
    · simp [here]
  rw [same]

theorem announce_sound (text : String) (sound : Sound s) (at_ : (s.handlers c).pc = .accepting) :
    Sound (s.enter c .connect text) := by
  rw [← replace_self s c]
  apply enter_sound sound
  have idle := (sound.life c).idle (by simp [at_,Pc.connected])
  apply (sound.life c).enter
  · simp [Handler.begun,at_,Pc.connected]
  · simp [Handler.begun,Pc.connected]
  · intro k other
    cases k with
    | connect => contradiction
    | chat k => rfl
    | disconnect => simp [Handler.begun,at_,Pc.left]
  · simp [at_,Pc.Listed]
  · rfl
  · rfl

theorem chat_sound (text : String) (sound : Sound s) (at_ : (s.handlers c).pc = .receiving) :
    Sound ((s.number c).enter c (.chat (s.handlers c).chats) text) := by
  apply enter_sound sound
  apply (sound.life c).enter
  · simp [Handler.begun]
  · simp [Handler.begun]
  · intro k other
    cases k with
    | connect => simp [Handler.begun,at_,Pc.connected]
    | disconnect => simp [Handler.begun,at_,Pc.left]
    | chat j =>
      have apart : j ≠ (s.handlers c).chats := by simpa using other
      simp only [Handler.begun,decide_eq_decide]
      omega
  · simp [at_,Pc.Listed]
  · rfl
  · rfl

theorem leave_sound (text : String) (sound : Sound s) (at_ : (s.handlers c).pc = .receiving) :
    Sound (s.enter c .disconnect text) := by
  rw [← replace_self s c]
  apply enter_sound sound
  apply (sound.life c).enter
  · simp [Handler.begun,at_,Pc.left]
  · simp [Handler.begun,Pc.left]
  · intro k other
    cases k with
    | connect => simp [Handler.begun,at_,Pc.connected]
    | chat k => rfl
    | disconnect => contradiction
  · simp [at_,Pc.Listed]
  · rfl
  · rfl

@[simp] theorem enter_pc (s : State) (c : Conn) (kind : Kind) (text : String) :
    ((s.enter c kind text).handlers c).pc = .sending kind 0 text := by
  simp [State.enter,State.goto]

theorem move_sound (moved : Move env s e next) (sound : Sound s) : Sound next := by
  cases moved with
  | connect c at_ | acceptRaised c now at_ | greetingRaised c at_ | badJson c frame now at_
  | replied c at_ =>
    apply sound.goto c <;> simp [at_,Pc.Listed,Pc.connected,Pc.left]
  | add c at_ =>
    have absent : c ∉ s.clients := by
      rw [(sound.life c).listed,at_]
      exact id
    constructor
    · intro d
      by_cases same : d = c
      · subst same
        have l := sound.life d
        simp only [State.goto,State.add,replace_same]
        refine ⟨?_,?_,?_,?_,?_⟩
        · simp [Pc.Listed]
        · intro k
          rw [l.counted k]
          cases k <;> simp [Handler.begun,at_,Pc.connected,Pc.left]
        · simp
        · simp [Pc.connected]
        · simp
      · simp only [State.goto,State.add,replace_other _ _ _ _ same]
        exact (sound.life d).change (by simp [same])
    · simpa [State.goto,State.add] using sound.nodup.concat absent
    · exact sound.traced
  | announce c now text next at_ advanced =>
    exact advance_sound advanced (announce_sound text sound at_) (by simp)
  | chat c frame now msg text next at_ read text_ advanced =>
    exact advance_sound advanced (chat_sound text sound at_) (by simp)
  | leave c result now text next at_ failed advanced =>
    exact advance_sound advanced (leave_sound text sound at_) (by simp)
  | loop c raised kind index text next at_ advanced => exact advance_sound advanced sound at_

theorem start_sound : Sound start where
  life := fun c => by
    constructor <;> simp [start,Pc.Listed]
    intro k
    cases k <;> rfl
  nodup := by simp [start]
  traced := by simp [start]

theorem reaches_sound (reached : (machine env).Reaches es s) : Sound s :=
  (machine env).invariant Sound start_sound
    (fun _ _ _ sound stepped => move_sound (step_move env _ _ _ stepped) sound) reached

end Wschat.Py
