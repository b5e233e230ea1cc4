import Wschat.PrintedTexts
import Wschat.WebOrder
import Wschat.WebParse

/-! The page on a server, from the texts that the server sends to what the user sees. Above
the page stands its view: who it is, what it shows, and whether it is still connected. The
page drops its connection at an error, at its own disconnect and, on the Rust server, at any
disconnect. -/
namespace Wschat

open Web

theorem exists_forall₂ {R : α → β → Prop} {l : List α} (all : ∀ a ∈ l, ∃ b, R a b) :
    ∃ l', List.Forall₂ R l l' := by
  induction l with
  | nil => exact ⟨[],.nil⟩
  | cons a l ih =>
    obtain ⟨⟨b,here⟩,later⟩ := List.forall_mem_cons.mp all
    obtain ⟨l',rest⟩ := ih later
    exact ⟨b :: l',.cons here rest⟩

/-- A message in the types of the Rust server, which are the widest, as it is encoded. -/
def Rust.Message.chat (msg : Rust.Message) : Chat :=
  ⟨utf16 msg.sender,msg.action,utf16 msg.contents,msg.timestamp⟩

namespace Server

def value (server : Server) (s : String) : JsValue :=
  if server = .go ∧ s = "" then .undefined else .string s

def shown (server : Server) (msg : Rust.Message) : Msg :=
  ⟨server.value msg.sender,.string (server.actionStr msg.action),server.value msg.contents,
    if server = .go ∧ msg.timestamp = 0 then .undefined else .bigint msg.timestamp.toNat⟩

/-- The Rust server spells the action in its own way. -/
def Misspelt (server : Server) (msg : Rust.Message) : Prop := server = .rust ∧ msg.action = .disconnect

instance (server : Server) (msg : Rust.Message) : Decidable (server.Misspelt msg) :=
  inferInstanceAs (Decidable (_ ∧ _))

end Server

namespace Web

open Splice UnitJson

/-- The property as the handlers see it: a string that has characters, a BigInt, or another
value, which is none of the two. -/
inductive Holds : Option Property → JsValue → Prop where
  | undefined : Holds none .undefined
  | bigint (n : Nat) : Holds (some (.bigint n)) (.bigint n)
  | string (s : String) : Holds (some (.json (.string (utf16 s)))) (.string s)
  | other (value : Value) (identity : Nat) : (∀ s, value ≠ .string (utf16 s)) →
      Holds (some (.json value)) (.other identity)

def Properties.get (ret : Properties) (key : String) : Option Property :=
  (ret.find? fun m => m.1 = units key).map Prod.snd

/-- The message has the properties of the object that `parseMessage` returns. -/
structure Represents (ret : Properties) (msg : Msg) : Prop where
  sender : Holds (ret.get "sender") msg.sender
  action : Holds (ret.get "action") msg.action
  contents : Holds (ret.get "contents") msg.contents
  timestamp : Holds (ret.get "timestamp") msg.timestamp

def Env.Faithful (env : Env) : Prop := ∀ data,
  (parseMessage (utf16 data) = none → env.parse data = none) ∧
  ∀ ret, parseMessage (utf16 data) = some ret → ∃ msg, env.parse data = some msg ∧ Represents ret msg

inductive View where
  | on (uuid : JsValue) (messages : List Msg)
  | off (messages : List Msg)
  deriving DecidableEq

/-- The page gives its connection up at this message. -/
def Drops (server : Server) (uuid : JsValue) (msg : Rust.Message) : Prop :=
  msg.action = .error ∨ server.Misspelt msg ∨
    msg.action = .disconnect ∧ server.value msg.contents = uuid

instance (server : Server) (uuid : JsValue) (msg : Rust.Message) :
    Decidable (Drops server uuid msg) := inferInstanceAs (Decidable (_ ∨ _ ∨ _ ∧ _))

def nextUuid (server : Server) (uuid : JsValue) (msg : Rust.Message) : JsValue :=
  if msg.action = .connect ∧ uuid = .string "" then server.value msg.contents else uuid

/-- One message. A view that is off gets none. -/
def View.next (env : Env) (server : Server) (view : View) (msg : Rust.Message) : Option View :=
  match view with
  | .off _ => none
  | .on uuid messages =>
    if Drops server uuid msg then
      some (.off (if server.Misspelt msg then [] else [server.shown msg]))
    else
      some (.on (nextUuid server uuid msg)
        (splice (fun x => env.less x.timestamp (server.shown msg).timestamp) (server.shown msg) messages))

def Stays (server : Server) : JsValue → List Rust.Message → Prop
  | _, [] => True
  | uuid, msg :: msgs => ¬Drops server uuid msg ∧ Stays server (nextUuid server uuid msg) msgs

def viewMachine (env : Env) (server : Server) : Machine View Rust.Message :=
  ⟨.on (.string "") [],View.next env server⟩

/-- The page is connected on the socket `c`. -/
structure Page.On (p : Page) (c : Nat) : Prop where
  ws : p.ws = some c
  isOpen : p.isOpen = true
  created : c < p.created
  phase : (p.sockets c).phase = .open_

def Page.view (c : Nat) (p : Page) : View :=
  if p.ws = some c then .on p.uuid (p.messages.map Shown.msg) else .off (p.messages.map Shown.msg)

section Parsed

/-- A property in a list of distinct keys. -/
theorem get_of_mem (ret : Properties) (distinct : (ret.map Prod.fst).Nodup) {key : String}
    (member : (units key,p) ∈ ret) : ret.get key = some p := by
  induction ret with
  | nil => contradiction
  | cons m ret ih =>
    rw [List.map_cons,List.nodup_cons] at distinct
    rcases List.mem_cons.mp member with rfl | later
    · simp [Properties.get]
    · have other : ¬m.1 = units key := fun same =>
        distinct.1 (same ▸ List.mem_map_of_mem (f := Prod.fst) later)
      have found := ih distinct.2 later
      simpa [Properties.get,List.find?_cons,other] using found

theorem get_absent (ret : Properties) {key : String} (absent : units key ∉ ret.map Prod.fst) :
    ret.get key = none := by
  rw [Properties.get,Option.map_eq_none_iff,List.find?_eq_none]
  intro m member same
  exact absent (List.mem_map.mpr ⟨m,member,by simpa using same⟩)

theorem fields_nodup (server : Server) (msg : Chat) :
    ((server.fields msg).map fun m => units m.1).Nodup := by
  have distinct := strings_nodup server msg
  have fresh : units "timestamp" ∉ (server.strings msg).map fun m => units m.1 := fun inside => by
    obtain ⟨m,member,eq⟩ := List.mem_map.mp inside
    exact (keys_known m.1 (strings_key server msg member)).2.1 eq
  cases stamp : server.timestamp msg with
  | none => simpa [Server.fields,stamp,Function.comp_def] using distinct
  | some n =>
    simp only [Server.fields,stamp,Option.toList_some,List.map_append,List.map_map,List.map_cons,
      List.map_nil,Function.comp_def]
    exact List.nodup_append.mpr ⟨distinct,by simp,by
      rintro a member b here rfl
      exact fresh (List.mem_singleton.mp here ▸ member)⟩

/-- What the page finds under the four keys. -/
theorem get_emitted {ret : Properties} (server : Server) (msg : Chat)
    (perm : ret.Perm ((server.fields msg).map fun m => (units m.1,property m.2))) :
    (ret.get "sender" = if server = .go ∧ msg.sender = [] then none
      else some (.json (.string msg.sender))) ∧
    ret.get "action" = some (.json (.string (units (server.actionStr msg.action)))) ∧
    (ret.get "contents" = if server = .go ∧ msg.contents = [] then none
      else some (.json (.string msg.contents))) ∧
    ret.get "timestamp" = if server = .go ∧ msg.timestamp = 0 then none
      else some (.bigint msg.timestamp.toNat) := by
  have keys : (["sender","action","contents","timestamp"].map units).Nodup := by decide
  simp only [List.map_cons,List.map_nil,List.nodup_cons,List.mem_cons,List.not_mem_nil,or_false,
    not_or] at keys
  obtain ⟨⟨sa,sc,st⟩,⟨ac,at_⟩,ct,-⟩ := keys
  have names := perm.map Prod.fst
  have distinct : (ret.map Prod.fst).Nodup := by
    rw [names.nodup_iff,List.map_map]
    exact fields_nodup server msg
  have found {key : String} {p : Property}
      (member : (units key,p) ∈ (server.fields msg).map fun m => (units m.1,property m.2)) :
      ret.get key = some p := get_of_mem ret distinct (perm.mem_iff.mpr member)
  have missing {key : String}
      (absent : units key ∉ ((server.fields msg).map fun m => (units m.1,property m.2)).map Prod.fst) :
      ret.get key = none := get_absent ret fun inside => absent (names.mem_iff.mp inside)
  cases server with
  | go =>
    have out : ∀ key, Server.omitempty key [] = [] := fun _ => rfl
    have kept : ∀ key s, s ≠ [] → Server.omitempty key s = [(key,s)] := fun _ _ some_ => if_neg some_
    refine ⟨?_,found (by simp [Server.fields,Server.strings,property]),?_,?_⟩
    · by_cases s : msg.sender = []
      · rw [if_pos ⟨rfl,s⟩]
        refine missing ?_
        by_cases c : msg.contents = [] <;> by_cases t : msg.timestamp = 0 <;>
          simp [Server.fields,Server.strings,Server.timestamp,out,kept,s,c,t,sa,sc,st]
      · rw [if_neg (by simp [s])]
        exact found (by simp [Server.fields,Server.strings,property,kept,s])
    · by_cases c : msg.contents = []
      · rw [if_pos ⟨rfl,c⟩]
        refine missing ?_
        by_cases s : msg.sender = [] <;> by_cases t : msg.timestamp = 0 <;>
          simp [Server.fields,Server.strings,Server.timestamp,out,kept,s,c,t,Ne.symm sc,Ne.symm ac,ct]
      · rw [if_neg (by simp [c])]
        exact found (by simp [Server.fields,Server.strings,property,kept,c])
    · by_cases t : msg.timestamp = 0
      · rw [if_pos ⟨rfl,t⟩]
        refine missing ?_
        by_cases s : msg.sender = [] <;> by_cases c : msg.contents = [] <;>
          simp [Server.fields,Server.strings,Server.timestamp,out,kept,s,c,t,Ne.symm st,Ne.symm at_,
            Ne.symm ct]
      · rw [if_neg (by simp [t])]
        exact found (by simp [Server.fields,Server.timestamp,property,t])
  | cpp | rust | py =>
    refine ⟨found ?_,found ?_,found ?_,found ?_⟩ <;>
      simp [Server.fields,Server.strings,Server.timestamp,property]

theorem holds_string (holds : Holds (some (.json (.string (utf16 s)))) v) : v = .string s := by
  generalize eq : some (Property.json (.string (utf16 s))) = p at holds
  cases holds with
  | undefined | bigint => simp at eq
  | string s' =>
    have same : utf16 s = utf16 s' := by simpa using eq
    rw [utf16_injective same]
  | other value identity not => exact absurd (by simpa using eq.symm) (not s)

theorem holds_value (server : Server) (s : String)
    (holds : Holds (if server = .go ∧ utf16 s = [] then none else some (.json (.string (utf16 s)))) v) :
    v = server.value s := by
  unfold Server.value
  by_cases empty : server = .go ∧ s = ""
  · rw [if_pos ⟨empty.1,(utf16_eq_nil s).mpr empty.2⟩] at holds
    rw [if_pos empty]
    cases holds
    rfl
  · rw [if_neg fun out => empty ⟨out.1,(utf16_eq_nil s).mp out.2⟩] at holds
    rw [if_neg empty]
    exact holds_string holds

theorem parse_shown {env : Env} (faithful : env.Faithful) (server : Server) (msg : Rust.Message)
    (sent : utf16 data = server.encode msg.chat) : env.parse data = some (server.shown msg) := by
  obtain ⟨ret,parsed,perm⟩ := parse_emitted server msg.chat
  obtain ⟨⟨sender_,action_,contents_,timestamp_⟩,read,represents⟩ := (faithful data).2 ret (sent ▸ parsed)
  obtain ⟨s,a,c,t⟩ := get_emitted server msg.chat perm
  have sender := represents.sender
  have action := represents.action
  have contents := represents.contents
  have timestamp : Holds (if server = .go ∧ msg.timestamp = 0 then none
      else some (.bigint msg.timestamp.toNat)) timestamp_ := t ▸ represents.timestamp
  rw [s] at sender
  rw [a,← utf16_action] at action
  rw [c] at contents
  obtain rfl := holds_value server _ sender
  obtain rfl := holds_string action
  obtain rfl := holds_value server _ contents
  have stamp : timestamp_ = if server = .go ∧ msg.timestamp = 0 then JsValue.undefined
      else .bigint msg.timestamp.toNat := by
    by_cases zero : server = .go ∧ msg.timestamp = 0
    · rw [if_pos zero] at timestamp ⊢
      cases timestamp
      rfl
    · rw [if_neg zero] at timestamp ⊢
      cases timestamp
      rfl
  rw [read,stamp]
  rfl

end Parsed

section Views

variable {env : Env} {p : Page} {c : Nat}

/-- The connection is given up, and the socket is closing. -/
structure Page.Off (p : Page) (c : Nat) : Prop where
  ws : p.ws ≠ some c
  phase : (p.sockets c).phase ≠ .open_

theorem On.view (on : p.On c) : p.view c = .on p.uuid (p.messages.map Shown.msg) := if_pos on.ws

theorem Off.view (off : p.Off c) : p.view c = .off (p.messages.map Shown.msg) := if_neg off.ws

theorem switch_action (server : Server) (msg : Rust.Message) :
    switch (server.shown msg).action = if server.Misspelt msg then .default else msg.action.web := by
  have table (action : Rust.Action) : switch (.string (server.actionStr action)) =
      if server = .rust ∧ action = .disconnect then .default else action.web := by
    cases server <;> cases action <;> decide
  exact table msg.action

theorem On.deliver (env : Env) (on : p.On c) (data : String) :
    (p.setSocket c ((p.sockets c).deliver env data)).On c := by
  refine ⟨on.ws,on.isOpen,on.created,?_⟩
  have phase := on.phase
  unfold Socket.deliver
  split <;> simpa [Page.setSocket] using phase

/-- Giving the connection up leaves nothing on the page. -/
theorem On.reset (on : p.On c) : p.reset.Off c ∧ p.reset.messages = [] := by
  have connected : p.isConnected = true := by simp [Page.isConnected,on.isOpen,on.ws]
  have phase := on.phase
  refine ⟨⟨by simp [Page.reset],?_⟩,rfl⟩
  simp [Page.reset,connected,Page.closeWs,on.ws,Page.setSocket,Socket.close,phase]

theorem insert_splices (p : Page) (new : Shown) : (p.insert env new).messages.map Shown.msg =
    splice (fun x => env.less x.timestamp new.msg.timestamp) new.msg (p.messages.map Shown.msg) := by
  rw [insert_splice]
  exact (splice_map (fun x : Msg => env.less x.timestamp new.msg.timestamp) Shown.msg new
    p.messages).symm

theorem Off.insert (env : Env) (off : p.Off c) (empty : p.messages = []) (new : Shown) :
    (p.insert env new).Off c ∧ (p.insert env new).messages = [new] :=
  ⟨⟨off.ws,off.phase⟩,by simp [Page.insert,empty]⟩

/-- One message that the page keeps or gives up on. -/
theorem handler_view (on : p.On c) (server : Server) (msg : Rust.Message)
    (parsed : env.parse data = some (server.shown msg)) :
    View.next env server (p.view c) msg = some ((p.messageHandler env c data).view c) ∧
      ((p.messageHandler env c data).On c ∨ (p.messageHandler env c data).Off c) := by
  obtain ⟨off,empty⟩ := On.reset on
  obtain ⟨gone,last⟩ := Off.insert env off empty ⟨c,server.shown msg⟩
  have kept (q : Page) (new : Shown) (on : q.On c) : (q.insert env new).On c :=
    ⟨on.ws,on.isOpen,on.created,on.phase⟩
  rw [On.view on,View.next]
  unfold Page.messageHandler
  rw [parsed]
  simp only [switch_action]
  by_cases misspelt : server.Misspelt msg
  · have drops : Drops server p.uuid msg := .inr (.inl misspelt)
    simp only [if_pos misspelt,if_pos drops]
    refine ⟨?_,.inr off⟩
    rw [Page.errorHandler,Off.view off,empty]
    rfl
  · simp only [if_neg misspelt]
    cases action : msg.action with
    | error =>
      have drops : Drops server p.uuid msg := .inl action
      simp only [if_pos drops,Rust.Action.web]
      refine ⟨?_,.inr gone⟩
      rw [Page.errorHandler,Off.view gone,last]
      rfl
    | disconnect =>
      by_cases own : server.value msg.contents = p.uuid
      · have drops : Drops server p.uuid msg := .inr (.inr ⟨action,own⟩)
        have own : (server.shown msg).contents = p.uuid := own
        simp only [if_pos drops,Rust.Action.web,if_pos own]
        refine ⟨?_,.inr gone⟩
        rw [Off.view gone,last]
        rfl
      · have stays : ¬Drops server p.uuid msg := by simp [Drops,action,misspelt,own]
        have own : ¬(server.shown msg).contents = p.uuid := own
        have here := kept p ⟨c,server.shown msg⟩ on
        simp only [if_neg stays,Rust.Action.web,if_neg own]
        refine ⟨?_,.inl here⟩
        rw [On.view here,insert_splices,nextUuid,if_neg (by simp [action])]
        rfl
    | connect =>
      have stays : ¬Drops server p.uuid msg := by simp [Drops,action,misspelt]
      simp only [if_neg stays,Rust.Action.web]
      by_cases nobody : p.uuid = .string ""
      · have here := kept { p with uuid := (server.shown msg).contents } ⟨c,server.shown msg⟩
          ⟨on.ws,on.isOpen,on.created,on.phase⟩
        rw [if_pos nobody]
        refine ⟨?_,.inl here⟩
        rw [On.view here,insert_splices,nextUuid,if_pos ⟨action,nobody⟩]
        rfl
      · have here := kept p ⟨c,server.shown msg⟩ on
        rw [if_neg nobody]
        refine ⟨?_,.inl here⟩
        rw [On.view here,insert_splices,nextUuid,if_neg fun both => nobody both.2]
        rfl
    | chat =>
      have stays : ¬Drops server p.uuid msg := by simp [Drops,action,misspelt]
      have here := kept p ⟨c,server.shown msg⟩ on
      simp only [if_neg stays,Rust.Action.web]
      refine ⟨?_,.inl here⟩
      rw [On.view here,insert_splices,nextUuid,if_neg (by simp [action])]
      rfl

/-- The browser hands over one text of the server. -/
theorem message_view (faithful : env.Faithful) (server : Server) (msg : Rust.Message)
    (sent : utf16 data = server.encode msg.chat) (state : p.On c ∨ p.Off c) :
    (step env p (.message c data)).map (Page.view c) = View.next env server (p.view c) msg ∧
      ∀ q, step env p (.message c data) = some q → q.On c ∨ q.Off c := by
  rcases state with on | off
  · have parsed := parse_shown faithful server msg sent
    have stepped : step env p (.message c data) =
        some ((p.setSocket c ((p.sockets c).deliver env data)).messageHandler env c data) :=
      if_pos ⟨on.created,on.phase⟩
    obtain ⟨next,state⟩ := handler_view (On.deliver env on data) server msg parsed
    rw [stepped]
    exact ⟨next.symm,fun q eq => Option.some.inj eq ▸ state⟩
  · have stuck : step env p (.message c data) = none := if_neg fun both => off.phase both.2
    rw [stuck,Off.view off]
    exact ⟨rfl,fun q eq => by contradiction⟩

end Views

/-- The page does on the texts of a server what its view does on the messages. -/
theorem page_refines (env : Env) (faithful : env.Faithful) (server : Server) (c : Nat) (p : Page)
    (on : p.On c) (msgs : List Rust.Message) (datas : List String)
    (sent : List.Forall₂ (fun data msg => utf16 data = server.encode msg.chat) datas msgs) :
    ((machine env).run (datas.map (.message c)) p).map (Page.view c) =
      (viewMachine env server).run msgs (p.view c) := by
  have state : p.On c ∨ p.Off c := .inl on
  clear on
  induction sent generalizing p with
  | nil => rfl
  | @cons data msg datas msgs sent _ ih =>
    obtain ⟨next,kept⟩ := message_view faithful server msg sent state
    rw [List.map_cons,Machine.run,Machine.run]
    change _ = (View.next env server (p.view c) msg).bind _
    rw [← next]
    cases stepped : step env p (.message c data) with
    | none => simp [machine,stepped]
    | some q => simpa [machine,stepped] using ih q (kept q stepped)

section Runs

variable {env : Env} {server : Server}

/-- The messages as the page puts them in, one after the other. -/
def spliced (env : Env) (messages : List Msg) (arrivals : List Msg) : List Msg :=
  arrivals.foldl (fun xs new => splice (fun x => env.less x.timestamp new.timestamp) new xs) messages

theorem uuid_kept (msgs : List Rust.Message) (uuid : JsValue) (known : uuid ≠ .string "") :
    msgs.foldl (nextUuid server) uuid = uuid := by
  induction msgs with
  | nil => rfl
  | cons msg msgs ih => rw [List.foldl_cons,nextUuid,if_neg fun both => known both.2,ih]

/-- A page that knows its uuid stays if it stays at each message. -/
theorem stays_known (msgs : List Rust.Message) (uuid : JsValue) (known : uuid ≠ .string "")
    (all : ∀ msg ∈ msgs, ¬Drops server uuid msg) : Stays server uuid msgs := by
  induction msgs with
  | nil => trivial
  | cons msg msgs ih =>
    obtain ⟨here,all⟩ := List.forall_mem_cons.mp all
    have same : nextUuid server uuid msg = uuid := if_neg fun both => known both.2
    exact ⟨here,same.symm ▸ ih all⟩

theorem view_stays (msgs : List Rust.Message) (uuid : JsValue) (messages : List Msg)
    (stays : Stays server uuid msgs) : (viewMachine env server).run msgs (.on uuid messages) =
      some (.on (msgs.foldl (nextUuid server) uuid) (spliced env messages (msgs.map server.shown))) := by
  induction msgs generalizing uuid messages with
  | nil => rfl
  | cons msg msgs ih =>
    obtain ⟨here,stays⟩ := stays
    have ran := ih _ (splice (fun x => env.less x.timestamp (server.shown msg).timestamp)
      (server.shown msg) messages) stays
    refine ((viewMachine env server).run_cons _ _ _ _).mpr ⟨_,?_,ran⟩
    exact if_neg here

/-- The message that ends the connection is the last one the page gets. -/
theorem view_drops (msgs : List Rust.Message) (uuid : JsValue) (messages : List Msg)
    (drops : ¬Stays server uuid msgs) (ran : (viewMachine env server).run msgs (.on uuid messages) =
      some view) : ∃ front last, msgs = front ++ [last] ∧ Stays server uuid front ∧
        view = .off (if server.Misspelt last then [] else [server.shown last]) := by
  induction msgs generalizing uuid messages with
  | nil => exact absurd trivial drops
  | cons msg msgs ih =>
    obtain ⟨middle,first,ran⟩ := ((viewMachine env server).run_cons _ _ _ _).mp ran
    by_cases here : Drops server uuid msg
    · have off : (viewMachine env server).step (.on uuid messages) msg =
        some (.off (if server.Misspelt msg then [] else [server.shown msg])) := if_pos here
      obtain rfl := Option.some.inj (off.symm.trans first)
      cases msgs with
      | nil => exact ⟨[],msg,rfl,trivial,(Option.some.inj ran).symm⟩
      | cons msg' msgs => simp [Machine.run,viewMachine,View.next] at ran
    · have on : (viewMachine env server).step (.on uuid messages) msg = some (.on
        (nextUuid server uuid msg) (splice (fun x => env.less x.timestamp (server.shown msg).timestamp)
          (server.shown msg) messages)) := if_neg here
      obtain rfl := Option.some.inj (on.symm.trans first)
      obtain ⟨front,last,rfl,stays,eq⟩ := ih _ _ (fun stays => drops ⟨here,stays⟩) ran
      exact ⟨msg :: front,last,rfl,⟨here,stays⟩,eq⟩

/-- Some message is the first to end the connection, and the page gets as far as that. -/
theorem view_ends (env : Env) (msgs : List Rust.Message) (uuid : JsValue) (messages : List Msg)
    (drops : ¬Stays server uuid msgs) : ∃ front last rest, msgs = front ++ last :: rest ∧
      Stays server uuid front ∧ (viewMachine env server).run (front ++ [last]) (.on uuid messages) =
        some (.off (if server.Misspelt last then [] else [server.shown last])) := by
  induction msgs generalizing uuid messages with
  | nil => exact absurd trivial drops
  | cons msg msgs ih =>
    by_cases here : Drops server uuid msg
    · exact ⟨[],msg,msgs,rfl,trivial,((viewMachine env server).run_cons _ _ _ _).mpr ⟨_,if_pos here,rfl⟩⟩
    · obtain ⟨front,last,rest,rfl,stays,ran⟩ := ih (nextUuid server uuid msg)
        (splice (fun x => env.less x.timestamp (server.shown msg).timestamp) (server.shown msg) messages)
        fun stays => drops ⟨here,stays⟩
      exact ⟨msg :: front,last,rest,rfl,⟨here,stays⟩,
        ((viewMachine env server).run_cons _ _ _ _).mpr ⟨_,if_neg here,ran⟩⟩

theorem page_kept (faithful : env.Faithful) (on : p.On c)
    (sent : List.Forall₂ (fun data msg => utf16 data = server.encode msg.chat) datas msgs)
    (ran : (machine env).run (datas.map (.message c)) p = some q) (here : q.ws = some c) :
    Stays server p.uuid msgs ∧ q.uuid = msgs.foldl (nextUuid server) p.uuid ∧
      q.messages.map Shown.msg = spliced env (p.messages.map Shown.msg) (msgs.map server.shown) := by
  have refines := page_refines env faithful server c p on msgs datas sent
  rw [On.view on,ran,Option.map_some,Page.view,if_pos here] at refines
  have stays : Stays server p.uuid msgs := by
    by_contra drops
    obtain ⟨_,_,-,-,off⟩ := view_drops msgs _ _ drops refines.symm
    contradiction
  rw [view_stays msgs _ _ stays,Option.some.injEq,View.on.injEq] at refines
  exact ⟨stays,refines⟩

theorem page_stays (faithful : env.Faithful) (on : p.On c)
    (sent : List.Forall₂ (fun data msg => utf16 data = server.encode msg.chat) datas msgs)
    (stays : Stays server p.uuid msgs) :
    ∃ q, (machine env).run (datas.map (.message c)) p = some q ∧ q.ws = some c := by
  have refines := page_refines env faithful server c p on msgs datas sent
  rw [On.view on,view_stays msgs _ _ stays] at refines
  obtain ⟨q,ran,view⟩ := Option.map_eq_some_iff.mp refines
  refine ⟨q,ran,?_⟩
  by_contra gone
  rw [Page.view,if_neg gone] at view
  contradiction

/-- With timestamps on all messages the operator compares times. -/
theorem spliced_sorted (compares : env.Compares) (arrivals : List Msg)
    (timed : ∀ msg ∈ arrivals, msg.Timed) : spliced env [] arrivals = spliceAll Msg.time arrivals := by
  have general (messages : List Msg) (held : ∀ msg ∈ messages, msg.Timed) :
      spliced env messages arrivals =
        arrivals.foldl (fun xs new => splice (fun x => x.time < new.time) new xs) messages := by
    induction arrivals generalizing messages with
    | nil => rfl
    | cons new arrivals ih =>
      obtain ⟨here,timed⟩ := List.forall_mem_cons.mp timed
      have same : splice (fun x => env.less x.timestamp new.timestamp) new messages =
          splice (fun x => x.time < new.time) new messages :=
        splice_congr (fun x inside => less_time compares (held x inside) here) new
      rw [spliced,List.foldl_cons,List.foldl_cons,same]
      refine ih timed _ fun msg inside => ?_
      rcases List.mem_cons.mp ((splice_perm _ _ _).mem_iff.mp inside) with rfl | old
      · exact here
      · exact held msg old
  exact general [] (by simp)

end Runs

theorem shown_timed (server : Server) (msg : Rust.Message)
    (stamped : server = .go → msg.timestamp ≠ 0) : (server.shown msg).Timed := by
  refine ⟨msg.timestamp.toNat,?_⟩
  rw [Server.shown,if_neg fun out => stamped out.1 out.2]

/-- The page stays connected as long as no message ends its connection. It shows what it has
been sent in the order of the timestamps. Otherwise it gets as far as the first message that ends
its connection, shows that one at most, and gets no more. -/
theorem page_stays_iff (env : Env) (faithful : env.Faithful) (compares : env.Compares) (server : Server)
    (c : Nat) (p : Page) (on : p.On c) (empty : p.messages = []) (msgs : List Rust.Message)
    (datas : List String)
    (sent : List.Forall₂ (fun data msg => utf16 data = server.encode msg.chat) datas msgs)
    (stamped : ∀ msg ∈ msgs, server = .go → msg.timestamp ≠ 0) :
    (Stays server p.uuid msgs → ∃ q, (machine env).run (datas.map (.message c)) p = some q ∧
      q.ws = some c ∧ q.messages.map Shown.msg = spliceAll Msg.time (msgs.map server.shown)) ∧
    (¬Stays server p.uuid msgs → ∀ q, (machine env).run (datas.map (.message c)) p = some q →
      q.ws ≠ some c ∧ ∃ front last, msgs = front ++ [last] ∧ Stays server p.uuid front ∧
        q.messages.map Shown.msg = if server.Misspelt last then [] else [server.shown last]) ∧
    (¬Stays server p.uuid msgs → ∃ front last rest, msgs = front ++ last :: rest ∧
      Stays server p.uuid front ∧ ∃ q,
        (machine env).run ((datas.take (front.length + 1)).map (.message c)) p = some q ∧
        q.ws ≠ some c ∧
        q.messages.map Shown.msg = if server.Misspelt last then [] else [server.shown last]) := by
  refine ⟨?_,?_,?_⟩
  · intro stays
    obtain ⟨q,ran,here⟩ := page_stays faithful on sent stays
    refine ⟨q,ran,here,?_⟩
    have timed : ∀ msg ∈ msgs.map server.shown, msg.Timed := by
      intro msg inside
      obtain ⟨m,member,rfl⟩ := List.mem_map.mp inside
      exact shown_timed server m (stamped m member)
    rw [(page_kept faithful on sent ran here).2.2,empty,List.map_nil,spliced_sorted compares _ timed]
  · intro drops q reached
    have refines := page_refines env faithful server c p on msgs datas sent
    rw [On.view on,reached,Option.map_some] at refines
    obtain ⟨front,last,split,stays,view⟩ := view_drops msgs p.uuid _ drops refines.symm
    rw [Page.view] at view
    split at view
    · contradiction
    · next gone => exact ⟨gone,front,last,split,stays,View.off.inj view⟩
  · intro drops
    obtain ⟨front,last,rest,split,stays,ran⟩ := view_ends env msgs p.uuid _ drops
    have first : msgs.take (front.length + 1) = front ++ [last] := by
      rw [split,List.take_length_add_append]
      rfl
    have refines := page_refines env faithful server c p on _ _ (List.forall₂_take (front.length + 1) sent)
    rw [On.view on,first,ran] at refines
    obtain ⟨q,reached,view⟩ := Option.map_eq_some_iff.mp refines
    refine ⟨front,last,rest,split,stays,q,reached,?_⟩
    rw [Page.view] at view
    split at view
    · contradiction
    · next gone => exact ⟨gone,View.off.inj view⟩

theorem holds_exists (p : Option Property) : ∃ v, Holds p v := by
  cases p with
  | none => exact ⟨_,.undefined⟩
  | some p =>
    cases p with
    | bigint n => exact ⟨_,.bigint n⟩
    | json value =>
      by_cases text : ∃ s, value = .string (utf16 s)
      · obtain ⟨s,rfl⟩ := text
        exact ⟨_,.string s⟩
      · exact ⟨.other 0,.other value 0 fun s eq => text ⟨s,eq⟩⟩

theorem browser : ∃ env : Env, env.Faithful ∧ env.Compares := by
  have parses (data : String) : ∃ parsed : Option Msg,
      (parseMessage (utf16 data) = none → parsed = none) ∧
      ∀ ret, parseMessage (utf16 data) = some ret → ∃ msg, parsed = some msg ∧ Represents ret msg := by
    cases read : parseMessage (utf16 data) with
    | none => exact ⟨none,fun _ => rfl,fun ret eq => by contradiction⟩
    | some ret =>
      obtain ⟨sender,s⟩ := holds_exists (ret.get "sender")
      obtain ⟨action,a⟩ := holds_exists (ret.get "action")
      obtain ⟨contents,c⟩ := holds_exists (ret.get "contents")
      obtain ⟨timestamp,t⟩ := holds_exists (ret.get "timestamp")
      refine ⟨some ⟨sender,action,contents,timestamp⟩,fun eq => by contradiction,fun ret' eq => ?_⟩
      obtain rfl := Option.some.inj eq
      exact ⟨_,rfl,s,a,c,t⟩
  choose parse faithful using parses
  exact ⟨⟨parse,fun a b => a.int < b.int⟩,faithful,fun _ _ => rfl⟩

def rustTexts (msgs : List Rust.Message) : List String :=
  msgs.map fun msg => Rust.toString Rust.serdeJson msg

theorem rustTexts_sent (msgs : List Rust.Message) :
    List.Forall₂ (fun data msg => utf16 data = Server.rust.encode msg.chat) (rustTexts msgs) msgs := by
  rw [rustTexts,List.forall₂_map_left_iff,List.forall₂_same]
  exact fun msg _ => rust_compact msg

theorem online_on : online.On 0 := ⟨rfl,rfl,by decide,rfl⟩

def twoChats : List Rust.Message := [.newSystem .connect "0" 1,.newChat "1" "b" 3,.newChat "0" "a" 2]

theorem online_shows : ∃ (env : Env) (q : Page),
    (machine env).run ((rustTexts twoChats).map (.message 0)) online = some q ∧
    q.messages.map Shown.msg = spliceAll Msg.time (twoChats.map Server.rust.shown) := by
  obtain ⟨env,faithful,compares⟩ := browser
  obtain ⟨stays,-⟩ := page_stays_iff env faithful compares .rust 0 online online_on rfl twoChats
    (rustTexts twoChats) (rustTexts_sent twoChats) (by simp)
  obtain ⟨q,ran,-,shows⟩ := stays ⟨by decide,by decide,by decide,trivial⟩
  exact ⟨env,q,ran,shows⟩

end Web

end Wschat
