import Mathlib.Data.Int.Order.Basic
import Wschat.Splice
import Wschat.WebClient

/-! The order of the messages on the page. Each is spliced in behind the last one that is
earlier, so that messages of one timestamp stand in reverse. -/
namespace Wschat.Web

open Splice

def JsValue.int : JsValue → Int
  | .bigint n => n
  | .undefined | .string _ | .other _ => 0

def Msg.time (msg : Msg) : Int := msg.timestamp.int

/-- The operator `<` on two BigInts. -/
def Env.Compares (env : Env) : Prop :=
  ∀ m n, env.less (.bigint m) (.bigint n) = decide (m < n)

def Msg.Timed (msg : Msg) : Prop := ∃ n, msg.timestamp = .bigint n

/-- A connect, a chat, or the disconnect of another user, with a timestamp. -/
structure Ordinary (p : Page) (msg : Msg) : Prop where
  kind : switch msg.action = .connect ∨ switch msg.action = .chat ∨
    switch msg.action = .disconnect ∧ msg.contents ≠ p.uuid
  timed : msg.Timed

/-- The page receives these messages, in this order, on the socket `c`. -/
inductive Receives (env : Env) (c : Nat) : Page → List Msg → Page → Prop where
  | nil (p : Page) : Receives env c p [] p
  | cons (data : String) : env.parse data = some msg → Ordinary p msg →
      step env p (.message c data) = some q → Receives env c q msgs r →
      Receives env c p (msg :: msgs) r

theorem insert_splice (env : Env) (p : Page) (new : Shown) : (p.insert env new).messages =
    splice (fun elem => env.less elem.msg.timestamp new.msg.timestamp) new p.messages := rfl

theorem step_splice (env : Env) (parsed : env.parse data = some msg) (ordinary : Ordinary p msg)
    (stepped : step env p (.message c data) = some q) : q.messages =
      splice (fun elem => env.less elem.msg.timestamp msg.timestamp) ⟨c,msg⟩ p.messages := by
  simp only [step] at stepped
  split at stepped
  case isFalse => contradiction
  case isTrue =>
    obtain rfl := Option.some.inj stepped
    unfold Page.messageHandler
    rcases ordinary.kind with connect | chat | ⟨disconnect,other⟩
    · simp only [parsed,connect,insert_splice]
      split <;> rfl
    · simp only [parsed,chat,insert_splice]
      rfl
    · have apart : ¬msg.contents = (p.setSocket c ((p.sockets c).deliver env data)).uuid := other
      simp only [parsed,disconnect,insert_splice,apart,if_false]
      rfl

theorem less_time {env : Env} (compares : env.Compares) {a b : Msg} (first : a.Timed) (second : b.Timed) :
    env.less a.timestamp b.timestamp = decide (a.time < b.time) := by
  obtain ⟨m,eq⟩ := first
  obtain ⟨n,eq'⟩ := second
  simp only [Msg.time,eq,eq',JsValue.int]
  exact compares m n

theorem receives_splice {env : Env} (compares : env.Compares) (received : Receives env c p msgs q)
    (timed : ∀ msg ∈ p.messages.map Shown.msg, msg.Timed) : q.messages.map Shown.msg =
      msgs.foldl (fun xs new => splice (fun x => x.time < new.time) new xs)
        (p.messages.map Shown.msg) := by
  induction received with
  | nil => rfl
  | @cons msg p q msgs r data parsed ordinary stepped _ ih =>
    have spliced : q.messages.map Shown.msg =
        splice (fun x => x.time < msg.time) msg (p.messages.map Shown.msg) := by
      rw [step_splice env parsed ordinary stepped]
      refine (splice_map (fun x : Msg => env.less x.timestamp msg.timestamp) Shown.msg
        ⟨c,msg⟩ p.messages).symm.trans ?_
      exact splice_congr (fun x inside => less_time compares (timed x inside) ordinary.timed) msg
    rw [List.foldl_cons,← spliced]
    apply ih
    intro x inside
    rw [spliced] at inside
    rcases List.mem_cons.mp ((splice_perm _ _ _).mem_iff.mp inside) with rfl | old
    · exact ordinary.timed
    · exact timed x old

theorem messages_spliceAll {env : Env} (compares : env.Compares) (empty : p.messages = [])
    (received : Receives env c p msgs q) : q.messages.map Shown.msg = spliceAll Msg.time msgs := by
  have spliced := receives_splice compares received (by simp [empty])
  simpa [empty,spliceAll] using spliced

/-- The list is the stable sort of the arrivals exactly where the messages of each
timestamp read the same backwards. -/
theorem messages_stable_iff (env : Env) (compares : env.Compares) (c : Nat) (p q : Page)
    (msgs : List Msg) (empty : p.messages = []) (received : Receives env c p msgs q) :
    StableSort Msg.time msgs (q.messages.map Shown.msg) ↔
      ∀ t, (msgs.filter (·.time = t)).Palindrome := by
  rw [messages_spliceAll compares empty received]
  exact spliceAll_stable_iff Msg.time msgs

theorem chats_received (env : Env) (c : Nat) (p : Page) (old : c < p.created)
    (open_ : (p.sockets c).phase = .open_) (datas : List String) (msgs : List Msg)
    (parsed : datas.map env.parse = msgs.map some)
    (chats : ∀ msg ∈ msgs, switch msg.action = .chat ∧ msg.Timed) : ∃ q, Receives env c p msgs q := by
  induction msgs generalizing p datas with
  | nil => exact ⟨p,.nil p⟩
  | cons msg msgs ih =>
    cases datas with
    | nil => contradiction
    | cons data datas =>
      obtain ⟨first,parsed⟩ := List.cons.inj parsed
      obtain ⟨chat,timed⟩ := chats msg List.mem_cons_self
      obtain ⟨q,received⟩ := ih ((p.setSocket c ((p.sockets c).deliver env data)).messageHandler env c data)
        (by simpa [Page.messageHandler,first,chat,Page.insert,Page.setSocket] using old)
        (by simpa [Page.messageHandler,first,chat,Page.insert,Page.setSocket,Socket.deliver] using open_)
        datas parsed (fun msg inside => chats msg (List.mem_cons_of_mem _ inside))
      have stepped : step env p (.message c data) =
          some ((p.setSocket c ((p.sockets c).deliver env data)).messageHandler env c data) := by
        simp [step,old,open_]
      exact ⟨q,.cons data first ⟨.inr (.inl chat),timed⟩ stepped received⟩

def chatAt (contents : String) (n : Int) : Msg :=
  ⟨.string "0",.string "chat",.string contents,.bigint n⟩

def Env.timed : Env where
  parse := fun data =>
    if data = "\x7b\"sender\":\"0\",\"action\":\"chat\",\"contents\":\"a\",\"timestamp\":1\x7d" then
      some (chatAt "a" 1)
    else if data =
        "\x7b\"sender\":\"0\",\"action\":\"chat\",\"contents\":\"b\",\"timestamp\":1\x7d" then
      some (chatAt "b" 1)
    else if data =
        "\x7b\"sender\":\"0\",\"action\":\"chat\",\"contents\":\"c\",\"timestamp\":0\x7d" then
      some (chatAt "c" 0)
    else none
  less := fun a b => a.int < b.int

theorem timed_compares : Env.timed.Compares := fun _ _ => rfl

def online : Page :=
  ((mounted.connectToWs false).setSocket 0 { Socket.new with phase := .open_, opened := true }).openHandler

example : (machine .timed).Reaches [.connectToWs false,.opened 0] online := rfl

/-- A late arrival takes its place. -/
theorem late_sorted : ∃ q, Receives .timed 0 online [chatAt "a" 1,chatAt "c" 0] q ∧
    StableSort Msg.time [chatAt "a" 1,chatAt "c" 0] (q.messages.map Shown.msg) := by
  obtain ⟨q,received⟩ := chats_received .timed 0 online (by decide) rfl
    ["\x7b\"sender\":\"0\",\"action\":\"chat\",\"contents\":\"a\",\"timestamp\":1\x7d",
      "\x7b\"sender\":\"0\",\"action\":\"chat\",\"contents\":\"c\",\"timestamp\":0\x7d"]
    [chatAt "a" 1,chatAt "c" 0] (by simp [Env.timed])
    (by simp [chatAt,switch,Msg.Timed])
  refine ⟨q,received,?_⟩
  apply (messages_stable_iff .timed timed_compares 0 online q _ rfl received).mpr
  intro t
  by_cases one : (1 : Int) = t
  · subst one; simpa [chatAt,Msg.time,JsValue.int] using List.Palindrome.singleton _
  · by_cases zero : (0 : Int) = t
    · subst zero; simpa [chatAt,Msg.time,JsValue.int] using List.Palindrome.singleton _
    · simpa [chatAt,Msg.time,JsValue.int,one,zero] using List.Palindrome.nil

/-- Of two chats with one timestamp the second comes first. -/
theorem tied_reversed : ¬∀ (env : Env) (_ : env.Compares) (c : Nat) (p q : Page) (msgs : List Msg),
    p.messages = [] → Receives env c p msgs q → StableSort Msg.time msgs (q.messages.map Shown.msg) := by
  intro stable
  obtain ⟨q,received⟩ := chats_received .timed 0 online (by decide) rfl
    ["\x7b\"sender\":\"0\",\"action\":\"chat\",\"contents\":\"a\",\"timestamp\":1\x7d",
      "\x7b\"sender\":\"0\",\"action\":\"chat\",\"contents\":\"b\",\"timestamp\":1\x7d"]
    [chatAt "a" 1,chatAt "b" 1] (by simp [Env.timed])
    (by simp [chatAt,switch,Msg.Timed])
  have sorted := stable .timed timed_compares 0 online q _ rfl received
  rw [messages_spliceAll timed_compares rfl received,spliceAll_stable_iff] at sorted
  have backwards := (sorted 1).reverse_eq
  simp [chatAt,Msg.time,JsValue.int] at backwards

end Wschat.Web
