import Wschat.GoTester
import Wschat.WebSession

/-! The pages of a room on the Go server. The broadcasts reach each client in an order of its
own; by the timestamps the pages bring them back into one. -/
namespace Wschat.Go

open Splice

/-- What the client has been written of the broadcasts. -/
def Written.item? : Written → Option Item
  | .direct item | .forwarded item => some item
  | .reply _ => none

def arrived (wire : List Written) : List Item := wire.filterMap Written.item?

/-- `json.Marshal` leaves no space and escapes what HTML reads as markup. -/
def EncodingJson.EscapesHtml (lib : EncodingJson) : Prop :=
  ∀ msg, marshal lib msg = Json.print Json.html (marshalJson msg)

/-- The text is the one of this message, made after 1970. -/
def Carries (env : Env) (item : Item) (msg : Rust.Message) : Prop :=
  ∃ (contents : String) (now : Int64), 0 < now ∧ now.toInt = msg.timestamp.toNat ∧
    item.origin.message env contents now = ⟨msg.sender,some msg.action.go,msg.contents,now⟩ ∧
    item.text = marshal env.lib (item.origin.message env contents now)

/-- The client was in its receive loop when the broadcast was launched. -/
def Present (env : Env) (es : List Event) (c : Conn) (item : Item) : Prop :=
  ∃ before after u, es = before ++ after ∧ (machine env).Reaches before u ∧
    (u.handlers c).pc = .receiving ∧ item ∉ u.launched

/-- The messages on the page of a client that has been written this. -/
def shownBy (said : Item → Rust.Message) (wire : List Written) : List Web.Msg :=
  spliceAll Web.Msg.time ((arrived wire).map fun item => Server.go.shown (said item))

section Messages

variable {env : Env} {item : Item} {msg : Rust.Message} {c : Conn}

theorem carries_exists {contents : String} {now : Int64} (late : 0 < now)
    (text : item.text = marshal env.lib (item.origin.message env contents now)) :
    ∃ msg, Carries env item msg := by
  have positive : 0 < now.toInt := Int64.lt_iff_toInt_lt.mp late
  have same : now.toInt = (UInt64.ofNat now.toInt.toNat).toNat := by
    have small := now.toInt_lt
    have fits : now.toInt.toNat < UInt64.size := by simp only [UInt64.size]; omega
    rw [UInt64.toNat_ofNat_of_lt' fits]
    omega
  obtain ⟨⟨d,kind⟩,bytes⟩ := item
  cases kind with
  | connect => exact ⟨⟨_,.connect,_,_⟩,contents,now,late,same,rfl,text⟩
  | chat k => exact ⟨⟨_,.chat,_,_⟩,contents,now,late,same,rfl,text⟩
  | disconnect => exact ⟨⟨_,.disconnect,_,_⟩,contents,now,late,same,rfl,text⟩

theorem carries_stamped (carries : Carries env item msg) : msg.timestamp ≠ 0 := by
  obtain ⟨contents,now,late,same,-⟩ := carries
  have positive : 0 < now.toInt := Int64.lt_iff_toInt_lt.mp late
  rintro zero
  rw [zero] at same
  simp at same
  omega

theorem carries_sent (escapes : env.lib.EscapesHtml) (carries : Carries env item msg) :
    utf16 item.text = Server.go.encode msg.chat := by
  obtain ⟨contents,now,-,same,eq,text⟩ := carries
  rw [text,eq,escapes]
  exact go_html msg.sender msg.contents msg.action msg.timestamp now same

/-- The reader decodes the timestamp of the message. -/
theorem carries_read (carries : Carries env item msg) :
    (unmarshal env.lib item.text Load.newMessage).1.timestamp.toInt = msg.timestamp.toNat := by
  obtain ⟨contents,now,late,same,eq,text⟩ := carries
  have some_ : now ≠ 0 := by
    rintro rfl
    exact absurd late (by decide)
  rw [text,eq,unmarshal_marshal Load.newMessage env.lib _ rfl]
  simpa [some_] using same

theorem go_injective : Function.Injective Rust.Action.go := by
  intro a b same
  cases a <;> cases b <;> first | rfl | contradiction

/-- What kind of broadcast it is can be told from the message, and whom it names. -/
theorem carries_kind (carries : Carries env item msg) :
    match item.origin.kind with
    | .connect => msg.action = .connect ∧ msg.contents = env.uuid item.origin.conn
    | .chat _ => msg.action = .chat
    | .disconnect => msg.action = .disconnect ∧ msg.contents = env.uuid item.origin.conn := by
  obtain ⟨contents,now,-,-,eq,-⟩ := carries
  obtain ⟨⟨d,kind⟩,text⟩ := item
  cases kind with
  | connect | disconnect =>
    obtain ⟨-,action,named,-⟩ := Message.mk.inj eq
    exact ⟨go_injective (Option.some.inj action).symm,named.symm⟩
  | chat k =>
    obtain ⟨-,action,-,-⟩ := Message.mk.inj eq
    exact go_injective (Option.some.inj action).symm

/-- Only its own disconnect would end the connection of a page that knows its uuid. -/
theorem carries_keeps (named : ∀ d, env.uuid d ≠ "") (carries : Carries env item msg)
    (apart : item.origin ≠ ⟨c,.disconnect⟩) : ¬Web.Drops .go (.string (env.uuid c)) msg := by
  have kind_ := carries_kind carries
  have spelt : ¬Server.go.Misspelt msg := fun misspelt => nomatch misspelt.1
  obtain ⟨⟨d,kind⟩,text⟩ := item
  cases kind with
  | connect => simp [Web.Drops,kind_.1,spelt]
  | chat k =>
    have action : msg.action = .chat := kind_
    simp [Web.Drops,action,spelt]
  | disconnect =>
    obtain ⟨action,contents⟩ := kind_
    have other : env.uuid d ≠ env.uuid c := by
      intro same
      rw [env.distinct same] at apart
      exact apart rfl
    simp [Web.Drops,action,spelt,contents,Server.value,named,other]

theorem shown_time (carries : Carries env item msg) : (Server.go.shown msg).time = msg.timestamp.toNat := by
  rw [Server.shown,if_neg fun zero => carries_stamped carries zero.2]
  rfl

end Messages

section Wires

variable {env : Env} {s : State} {c : Conn}

theorem arrived_texts (wire : List Written) (unreplied : ∀ text, .reply text ∉ wire) :
    wire.map Written.text = (arrived wire).map Item.text := by
  induction wire with
  | nil => rfl
  | cons w wire ih =>
    have rest := ih fun text member => unreplied text (List.mem_cons_of_mem w member)
    cases w with
    | direct item | forwarded item => simpa [arrived,Written.item?,Written.text] using rest
    | reply text => exact absurd List.mem_cons_self (unreplied text)

/-- What a handler writes itself is its own connect, as it has broadcast it. -/
theorem reaches_greets (reached : (machine env).Reaches es s) (began : 0 < (s.handlers c).pc.rank) :
    ⟨⟨c,.connect⟩,(s.handlers c).msgJSONBytes⟩ ∈ s.launched := by
  refine (machine env).invariant (fun s => ∀ c, 0 < (s.handlers c).pc.rank →
    ⟨⟨c,.connect⟩,(s.handlers c).msgJSONBytes⟩ ∈ s.launched) (by simp [machine,start]) ?_ reached c began
  intro s e next greets stepped
  have moved := step_move env s next e stepped
  have old (c : Conn) (began : 0 < (s.handlers c).pc.rank) :
      ⟨⟨c,.connect⟩,(s.handlers c).msgJSONBytes⟩ ∈ next.launched := move_launched moved (greets c began)
  have handler := fun d h here => replace_forall
    (R := fun c (h : Handler) => 0 < h.pc.rank → ⟨⟨c,.connect⟩,h.msgJSONBytes⟩ ∈ next.launched)
    (a := d) (b := h) old here
  cases moved with
  | accept d now => exact handler d _ fun _ => List.mem_append_right _ (List.mem_singleton_self _)
  | broadcasted d now at_ | write d now at_ | store d now at_ | startWriter d now at_
  | chat d payload now msg at_ | leave d incoming now msg pc at_ | reply d now text at_
  | announce d now at_ | delete d now at_ => exact handler d _ fun _ => old d (by simp [at_])
  | close d now pc next channel at_ => exact handler d _ fun _ => old d (by cases pc <;> simp [at_])
  | range | visit | send | finish | pop | drain | forward => exact old

theorem arrived_launched (reached : (machine env).Reaches es s) (member : item ∈ arrived (s.wire c)) :
    item ∈ s.launched := by
  have greeted := (reaches_streams reached).1 c
  obtain ⟨w,inside,some_⟩ := List.mem_filterMap.mp member
  cases w with
  | forwarded item' =>
    obtain rfl := Option.some.inj some_
    exact (reaches_sound reached).genuine.sent c item'
      ((forwarded_front reached c).subset (mem_forwarded.mpr inside))
  | direct item' =>
    obtain rfl := Option.some.inj some_
    by_cases early : (s.handlers c).pc.rank ≤ 2
    · simp [greeted.silent early] at inside
    · obtain ⟨rest,wire,indirect⟩ := greeted.opened (by omega)
      rw [wire] at inside
      rcases List.mem_cons.mp inside with first | later
      · obtain rfl := Written.direct.inj first
        exact reaches_greets reached (by omega)
      · exact absurd later (indirect item')
  | reply text => contradiction

end Wires

section Pages

variable {env : Env} {web : Web.Env} {s : State} {c : Conn} {said : Item → Rust.Message} {p : Web.Page}

/-- Nothing ends the connection of a page whose client is in its receive loop. -/
theorem stays_told (reached : (machine env).Reaches es s) (at_ : (s.handlers c).pc = .receiving)
    (named : ∀ d, env.uuid d ≠ "") (tells : ∀ item ∈ s.launched, Carries env item (said item)) :
    Web.Stays .go (.string "") ((arrived (s.wire c)).map said) ∧
      ((arrived (s.wire c)).map said).foldl (Web.nextUuid .go) (.string "") = .string (env.uuid c) := by
  have launched := fun item (member : item ∈ arrived (s.wire c)) => arrived_launched reached member
  obtain ⟨rest,wire,-⟩ := ((reaches_streams reached).1 c).opened (by simp [at_])
  have unleft : (origins s.launched).count ⟨c,.disconnect⟩ = 0 := by
    rw [count_launched (reaches_sound reached) c .disconnect]
    simp [Handler.launched,at_]
  have front : arrived (s.wire c) = ⟨⟨c,.connect⟩,(s.handlers c).msgJSONBytes⟩ :: arrived rest := by
    rw [wire]
    rfl
  rw [front] at launched ⊢
  obtain ⟨action,contents⟩ := carries_kind (tells _ (launched _ List.mem_cons_self))
  have value : Server.go.value (said ⟨⟨c,.connect⟩,(s.handlers c).msgJSONBytes⟩).contents =
      .string (env.uuid c) := by
    rw [Server.value,contents,if_neg fun empty => named c empty.2]
  have first : Web.nextUuid .go (.string "") (said ⟨⟨c,.connect⟩,(s.handlers c).msgJSONBytes⟩) =
      .string (env.uuid c) := by
    rw [Web.nextUuid,if_pos ⟨action,rfl⟩,value]
  have known : Web.JsValue.string (env.uuid c) ≠ .string "" := by simp [named c]
  rw [List.map_cons,List.foldl_cons,first]
  refine ⟨⟨by simp [Web.Drops,Server.Misspelt,action],?_⟩,Web.uuid_kept _ _ known⟩
  rw [first]
  refine Web.stays_known _ _ known fun msg inside => ?_
  obtain ⟨item,member,rfl⟩ := List.mem_map.mp inside
  have told := launched item (List.mem_cons_of_mem _ member)
  refine carries_keeps named (tells item told) fun own => ?_
  exact List.count_eq_zero.mp unleft (own ▸ List.mem_map_of_mem told)

theorem page_told (faithful : web.Faithful) (compares : web.Compares) (escapes : env.lib.EscapesHtml)
    (named : ∀ d, env.uuid d ≠ "") (reached : (machine env).Reaches es s)
    (at_ : (s.handlers c).pc = .receiving) (tells : ∀ item ∈ s.launched, Carries env item (said item))
    (on : p.On c) (nobody : p.uuid = .string "") (empty : p.messages = []) :
    ∃ q, (Web.machine web).run ((s.wire c).map fun w => .message c w.text) p = some q ∧ q.ws = some c ∧
      q.uuid = .string (env.uuid c) ∧ q.messages.map Web.Shown.msg = shownBy said (s.wire c) := by
  obtain ⟨stays,uuid⟩ := stays_told reached at_ named tells
  have unreplied (text : String) : .reply text ∉ s.wire c := reaches_unreplied reached (by simp [at_]) text
  have told := fun item (member : item ∈ arrived (s.wire c)) => tells item (arrived_launched reached member)
  have sent : List.Forall₂ (fun data (msg : Rust.Message) => utf16 data = Server.go.encode msg.chat)
      ((arrived (s.wire c)).map Item.text) ((arrived (s.wire c)).map said) := by
    rw [List.forall₂_map_left_iff,List.forall₂_map_right_iff,List.forall₂_same]
    exact fun item member => carries_sent escapes (told item member)
  have datas : ((s.wire c).map fun w => Web.Event.message c w.text) =
      ((arrived (s.wire c)).map Item.text).map (.message c) := by
    rw [← arrived_texts (s.wire c) unreplied,List.map_map]
    rfl
  rw [← nobody] at stays
  obtain ⟨q,ran,here⟩ := Web.page_stays faithful on sent stays
  obtain ⟨-,known,shows⟩ := Web.page_kept faithful on sent ran here
  have timed : ∀ msg ∈ ((arrived (s.wire c)).map said).map Server.go.shown, msg.Timed := by
    intro msg inside
    obtain ⟨_,there,rfl⟩ := List.mem_map.mp inside
    obtain ⟨item,member,rfl⟩ := List.mem_map.mp there
    exact Web.shown_timed .go _ fun _ => carries_stamped (told item member)
  refine ⟨q,datas ▸ ran,here,by rw [known,nobody,uuid],?_⟩
  rw [shows,empty,List.map_nil,Web.spliced_sorted compares _ timed,List.map_map]
  rfl

/-- Whatever is launched while the client is in its receive loop is on its page. -/
theorem shown_present (reached : (machine env).Reaches es s) (quiet : s.Quiet)
    (at_ : (s.handlers c).pc = .receiving) (launched : item ∈ s.launched)
    (owed : item.origin.chats c = true ∨ Present env es c item) :
    Server.go.shown (said item) ∈ shownBy said (s.wire c) := by
  have hears : Hears item.origin c s := by
    rcases owed with own | ⟨before,after,u,rfl,early,present,later⟩
    · obtain ⟨⟨d,kind⟩,text⟩ := item
      cases kind with
      | chat k =>
        obtain rfl : d = c := by simpa [Origin.chats] using own
        exact own_hears reached (by simp [at_]) k
      | connect | disconnect => simp [Origin.chats] at own
    · obtain ⟨u',early',ran⟩ := ((machine env).reaches_append before after s).mp reached
      obtain rfl : u' = u := Option.some.inj (early'.symm.trans early)
      exact present_hears early ran present at_ launched later
  have once := hears_written reached quiet at_ launched hears
  have member : item ∈ forwarded (s.wire c) := List.mem_of_mem_filter (once ▸ List.mem_singleton_self item)
  have inside : item ∈ arrived (s.wire c) :=
    List.mem_filterMap.mpr ⟨_,mem_forwarded.mp member,rfl⟩
  exact (spliceAll_sorts _ _).1.mem_iff.mpr (List.mem_map_of_mem inside)

/-- A message on a page is one that has been launched. -/
theorem mem_shown (reached : (machine env).Reaches es s) (inside : a ∈ shownBy said (s.wire c)) :
    ∃ item ∈ s.launched, a = Server.go.shown (said item) := by
  obtain ⟨item,member,eq⟩ := List.mem_map.mp ((spliceAll_sorts _ _).1.mem_iff.mp inside)
  exact ⟨item,arrived_launched reached member,eq.symm⟩

theorem pages_agree (reached : (machine env).Reaches es s)
    (tells : ∀ item ∈ s.launched, Carries env item (said item))
    (distinct : (s.launched.map fun item => (said item).timestamp).Nodup)
    (order : [a,b].Sublist (shownBy said (s.wire c))) (apart : a ≠ b)
    (first : a ∈ shownBy said (s.wire d)) (second : b ∈ shownBy said (s.wire d)) :
    [a,b].Sublist (shownBy said (s.wire d)) := by
  refine spliceAll_agree _ _ _ order first second fun same => apart ?_
  obtain ⟨i,launched,rfl⟩ := mem_shown reached first
  obtain ⟨j,launched',rfl⟩ := mem_shown reached second
  rw [shown_time (tells i launched),shown_time (tells j launched')] at same
  have stamp : (said i).timestamp = (said j).timestamp := UInt64.toNat_inj.mp (by exact_mod_cast same)
  rw [List.inj_on_of_nodup_map distinct launched launched' stamp]

end Pages

/-- In a quiet state every page of the room shows, by their timestamps, the messages that have
been written to its client; among them is whatever was launched while the client was in its
receive loop, and any two pages show what they have in common in one order. -/
theorem pages_converge (env : Env) (web : Web.Env) (faithful : web.Faithful) (compares : web.Compares)
    (escapes : env.lib.EscapesHtml) (named : ∀ d, env.uuid d ≠ "") (es : List Event) (s : State)
    (reached : (machine env).Reaches es s) (clock : ∀ e ∈ es, ∀ now, e.now? = some now → 0 < now)
    (quiet : s.Quiet) :
    ∃ said : Item → Rust.Message, (∀ item ∈ s.launched, Carries env item (said item)) ∧
      (∀ c, (s.handlers c).pc = .receiving →
        (∀ p : Web.Page, p.On c → p.uuid = .string "" → p.messages = [] → ∃ q,
          (Web.machine web).run ((s.wire c).map fun w => .message c w.text) p = some q ∧ q.ws = some c ∧
          q.uuid = .string (env.uuid c) ∧ q.messages.map Web.Shown.msg = shownBy said (s.wire c)) ∧
        ∀ item ∈ s.launched, item.origin.chats c = true ∨ Present env es c item →
          Server.go.shown (said item) ∈ shownBy said (s.wire c)) ∧
      ((s.launched.map fun item => (said item).timestamp).Nodup → ∀ c d a b, a ≠ b →
        [a,b].Sublist (shownBy said (s.wire c)) → a ∈ shownBy said (s.wire d) →
        b ∈ shownBy said (s.wire d) → [a,b].Sublist (shownBy said (s.wire d))) := by
  have each (item : Item) : ∃ msg, item ∈ s.launched → Carries env item msg := by
    by_cases launched : item ∈ s.launched
    · obtain ⟨contents,now,text,e,inside,read⟩ := reaches_clocked reached launched
      obtain ⟨msg,carries⟩ := carries_exists (clock e inside now read) text
      exact ⟨msg,fun _ => carries⟩
    · exact ⟨⟨"",.chat,"",0⟩,fun inside => absurd inside launched⟩
  choose said tells using each
  refine ⟨said,tells,fun c at_ => ⟨fun p on nobody empty => ?_,fun item launched owed => ?_⟩,
    fun distinct c d a b apart order first second => ?_⟩
  · exact page_told faithful compares escapes named reached at_ tells on nobody empty
  · exact shown_present reached quiet at_ launched owed
  · exact pages_agree reached tells distinct order apart first second

/-- `encoding/json`, with its escapes. -/
def htmlJson : EncodingJson := .ofStyle Json.html

def escaped : Env := { Env.numbered with lib := htmlJson }

/-- Two clients chat at once, and each has its own chat first. -/
def crossing : List Event :=
  [enter 0 [] 1,enter 1 [0] 2,
    [.receive 0 (.frame (marshal htmlJson (newChatMessage "0" "ping" 1))) 3,
      .receive 1 (.frame (marshal htmlJson (newChatMessage "1" "pong" 1))) 4,
      .range ⟨0,.chat 0⟩,.range ⟨1,.chat 0⟩],
    deliverTo ⟨0,.chat 0⟩ 0,deliverTo ⟨1,.chat 0⟩ 1,deliverTo ⟨0,.chat 0⟩ 1,deliverTo ⟨1,.chat 0⟩ 0,
    [.finish ⟨0,.chat 0⟩,.finish ⟨1,.chat 0⟩],
    List.replicate 6 (.writer 0),List.replicate 4 (.writer 1)].flatten

theorem crossing_runs : ((machine escaped).run crossing start).any (fun s =>
    decide ((s.handlers 0).pc = .receiving ∧ (s.handlers 1).pc = .receiving ∧
      origins (arrived (s.wire 0)) = [⟨0,.connect⟩,⟨1,.connect⟩,⟨0,.chat 0⟩,⟨1,.chat 0⟩] ∧
      origins (arrived (s.wire 1)) = [⟨1,.connect⟩,⟨1,.chat 0⟩,⟨0,.chat 0⟩] ∧
      (s.launched.map fun item => (unmarshal htmlJson item.text Load.newMessage).1.timestamp.toInt) =
        [1,2,3,4]) && s.quietCheck) = true := by
  decide +kernel

theorem crossing_clock : ∀ e ∈ crossing, ∀ now, e.now? = some now → 0 < now := by
  have checked : (crossing.all fun e => e.now?.all fun now => decide (0 < now)) = true := by
    decide +kernel
  intro e inside now read
  have here := List.all_eq_true.mp checked e inside
  rw [read] at here
  exact of_decide_eq_true here

theorem crossing_converges : ∃ (web : Web.Env) (s : State) (said : Item → Rust.Message) (q : Web.Page),
    (machine escaped).Reaches crossing s ∧
    origins (arrived (s.wire 0)) = [⟨0,.connect⟩,⟨1,.connect⟩,⟨0,.chat 0⟩,⟨1,.chat 0⟩] ∧
    origins (arrived (s.wire 1)) = [⟨1,.connect⟩,⟨1,.chat 0⟩,⟨0,.chat 0⟩] ∧
    (Web.machine web).run ((s.wire 0).map fun w => .message 0 w.text) Web.online = some q ∧
    q.messages.map Web.Shown.msg = shownBy said (s.wire 0) ∧
    ∀ a b, a ≠ b → [a,b].Sublist (shownBy said (s.wire 0)) → a ∈ shownBy said (s.wire 1) →
      b ∈ shownBy said (s.wire 1) → [a,b].Sublist (shownBy said (s.wire 1)) := by
  obtain ⟨web,faithful,compares⟩ := Web.browser
  obtain ⟨s,ran,checked⟩ := (Option.any_eq_true _ _).mp crossing_runs
  simp only [Bool.and_eq_true,decide_eq_true_eq] at checked
  obtain ⟨⟨at_,-,first,second,stamps⟩,quiet⟩ := checked
  obtain ⟨said,tells,pages,agree⟩ := pages_converge escaped web faithful compares (fun _ => rfl)
    (fun _ => Nat.repr_ne_empty) crossing s ran crossing_clock (quiet_of_check ran quiet)
  obtain ⟨q,shows,-,-,messages⟩ := (pages 0 at_).1 Web.online Web.online_on rfl rfl
  refine ⟨web,s,said,q,ran,first,second,shows,messages,agree ?_ 0 1⟩
  refine List.Nodup.of_map (fun n : UInt64 => (n.toNat : Int)) ?_
  have read : ((s.launched.map fun item => (said item).timestamp).map fun n : UInt64 => (n.toNat : Int)) =
      [1,2,3,4] := by
    rw [← stamps,List.map_map]
    exact List.map_congr_left fun item launched => (carries_read (tells item launched)).symm
  rw [read]
  decide

end Wschat.Go
