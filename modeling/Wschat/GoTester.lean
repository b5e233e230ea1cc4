import Wschat.GoEcho
import Wschat.LoadReceive

/-! A worker of the load tester on the Go server: when the goroutines have done what they can,
it has been told its uuid first, and its receiving half has seen each of its chats once. -/
namespace Wschat.Go

/-- The message that a broadcast is made of; only a chat has contents of its own. -/
def Origin.message (env : Env) (o : Origin) (contents : String) (now : Int64) : Message :=
  match o.kind with
  | .connect => newSystemMessage .connect (env.uuid o.conn) now
  | .chat _ => newChatMessage (env.uuid o.conn) contents now
  | .disconnect => newSystemMessage .disconnect (env.uuid o.conn) now

def Written.text : Written → String
  | .direct item | .forwarded item => item.text
  | .reply text => text

def Origin.chats (c : Conn) (o : Origin) : Bool :=
  match o.kind with
  | .chat _ => o.conn = c
  | _ => false

def Event.isFrame (c : Conn) (e : Event) : Bool := (e.frame? c).isSome

def Event.now? : Event → Option Int64
  | .accept _ now | .handle _ now | .receive _ _ now => some now
  | .range _ | .visit _ _ | .send _ | .finish _ | .writer _ => none

/-- Every frame of `c` is a chat as `runClientTest` sends it. -/
def Worker (env : Env) (c : Conn) (es : List Event) : Prop :=
  ∀ payload now, .receive c (.frame payload) now ∈ es → ∃ contents at_,
    payload = marshal env.lib (newChatMessage (env.uuid c) contents at_)

theorem accepts_marshal (lib : EncodingJson) {msg : Message} (action : msg.action = some a) :
    accepts lib (marshal lib msg) = true := by
  rw [← unmarshal_accepts lib _ Load.newMessage,unmarshal_marshal _ lib msg action]

section Texts

variable {env : Env} {s next : State} {c : Conn}

theorem reaches_clocked (reached : (machine env).Reaches es s) (member : item ∈ s.launched) :
    ∃ contents now, item.text = marshal env.lib (item.origin.message env contents now) ∧
      ∃ e ∈ es, e.now? = some now := by
  refine (machine env).reaches_induction (motive := fun es s => ∀ item ∈ s.launched, ∃ contents now,
    item.text = marshal env.lib (item.origin.message env contents now) ∧ ∃ e ∈ es, e.now? = some now)
    (by simp [machine,start]) ?_ reached item member
  intro es s e next _ tells stepped item member
  have old (before : item ∈ s.launched) : ∃ contents now,
      item.text = marshal env.lib (item.origin.message env contents now) ∧
        ∃ e' ∈ es ++ [e], e'.now? = some now := by
    obtain ⟨contents,now,said,e',inside,read⟩ := tells item before
    exact ⟨contents,now,said,e',List.mem_append_left _ inside,read⟩
  have launch {o : Origin} {msg : Message} (launched : next.launched = s.launched ++ [⟨o,marshal env.lib msg⟩])
      (said : ∃ contents now, msg = o.message env contents now ∧ e.now? = some now) :
      ∃ contents now, item.text = marshal env.lib (item.origin.message env contents now) ∧
        ∃ e' ∈ es ++ [e], e'.now? = some now := by
    rw [launched] at member
    rcases List.mem_append.mp member with before | new
    · exact old before
    · obtain rfl := List.mem_singleton.mp new
      obtain ⟨contents,now,rfl,read⟩ := said
      exact ⟨contents,now,rfl,e,by simp,read⟩
  cases step_move env s next e stepped with
  | accept d now => exact launch rfl ⟨"",now,rfl,rfl⟩
  | chat d payload now msg => exact launch rfl ⟨msg.contents,now,rfl,rfl⟩
  | announce d now => exact launch rfl ⟨"",now,rfl,rfl⟩
  | broadcasted | write | store | startWriter | leave | reply | close | delete | range | visit
  | send | finish | pop | drain | forward => exact old member

theorem reaches_tells (reached : (machine env).Reaches es s) (member : item ∈ s.launched) :
    ∃ contents now, item.text = marshal env.lib (item.origin.message env contents now) := by
  obtain ⟨contents,now,said,-⟩ := reaches_clocked reached member
  exact ⟨contents,now,said⟩

/-- An error is replied on the way out of the receive loop. -/
theorem reaches_unreplied (reached : (machine env).Reaches es s) (low : (s.handlers c).pc.rank ≤ 6)
    (text : String) : .reply text ∉ s.wire c := by
  refine (machine env).reaches_induction
    (motive := fun _ s => (s.handlers c).pc.rank ≤ 6 → .reply text ∉ s.wire c) (by simp [machine,start]) ?_
    reached low
  intro es s e next before unreplied stepped low
  have moved := step_move env s next e stepped
  have unreplied := unreplied ((move_rank moved c).trans low)
  have other (d : Conn) (w : Written) (wire : next.wire = replace s.wire d (s.wire d ++ [w]))
      (apart : d = c → w ≠ .reply text) : .reply text ∉ next.wire c := by
    rw [wire]
    by_cases same : d = c
    · subst same
      simpa using ⟨unreplied,Ne.symm (apart rfl)⟩
    · simpa [Ne.symm same] using unreplied
  cases moved with
  | write d now at_ => exact other d _ rfl (by simp)
  | forward d item at_ => exact other d _ rfl (by simp)
  | reply d now reply at_ =>
    refine other d _ rfl ?_
    rintro rfl
    simp [State.goto,State.write] at low
  | accept | broadcasted | store | startWriter | chat | leave | announce | close | delete | range
  | visit | send | finish | pop | drain => exact unreplied

theorem wire_texts (rest : List Written) (indirect : ∀ item, .direct item ∉ rest)
    (unreplied : ∀ text, .reply text ∉ rest) :
    rest.map Written.text = (forwarded rest).map Item.text := by
  induction rest with
  | nil => rfl
  | cons w rest ih =>
    have rest_ := ih (fun item member => indirect item (by simp [member]))
      fun text member => unreplied text (by simp [member])
    cases w with
    | direct item => exact absurd (by simp) (indirect item)
    | reply text => exact absurd (by simp) (unreplied text)
    | forwarded item =>
      have split : forwarded (.forwarded item :: rest) = item :: forwarded rest := rfl
      rw [List.map_cons,split,List.map_cons,rest_]
      rfl

end Texts

section Rounds

variable {env : Env} {c : Conn} {o : Origin}

/-- The loop goes on and no text has failed to decode. -/
def Going (t : Load.RecvTest) : Prop := t.broken = false ∧ t.recvErr = none

/-- One broadcast of the server in the loop of a worker: only its own chats count, and only
its own disconnect would stop the loop. -/
theorem round_message (named : ∀ d, env.uuid d ≠ "") (contents : String) (now : Int64)
    (apart : o ≠ ⟨c,.disconnect⟩) {t : Load.RecvTest} (going : Going t) :
    Going (Load.round env.lib (env.uuid c) t (.frame (marshal env.lib (o.message env contents now)))) ∧
      (Load.round env.lib (env.uuid c) t
        (.frame (marshal env.lib (o.message env contents now)))).msgsRecvd =
          t.msgsRecvd + (o.chats c).toNat := by
  obtain ⟨going,fine⟩ := going
  obtain ⟨d,kind⟩ := o
  cases kind with
  | connect =>
    have read := unmarshal_marshal t.msg env.lib (newSystemMessage .connect (env.uuid d) now) rfl
    simp [Going,Origin.message,Load.round,read,Load.inspect,Origin.chats,going,fine]
  | chat k =>
    have read := unmarshal_marshal t.msg env.lib (newChatMessage (env.uuid d) contents now) rfl
    have sender : (newChatMessage (env.uuid d) contents now).sender = env.uuid d := rfl
    by_cases mine : d = c
    · subst mine
      simp [Going,Origin.message,Load.round,read,Load.inspect,Origin.chats,going,fine,sender,named d]
    · have other : env.uuid d ≠ env.uuid c := fun same => mine (env.distinct same)
      simp [Going,Origin.message,Load.round,read,Load.inspect,Origin.chats,going,fine,sender,named d,
        other,mine]
  | disconnect =>
    have read := unmarshal_marshal t.msg env.lib (newSystemMessage .disconnect (env.uuid d) now) rfl
    have gone : (newSystemMessage .disconnect (env.uuid d) now).contents = env.uuid d := rfl
    have other : env.uuid d ≠ env.uuid c := by
      intro same
      rw [env.distinct same] at apart
      contradiction
    simp [Going,Origin.message,Load.round,read,Load.inspect,Origin.chats,going,fine,gone,named d,other]

end Rounds

section Counts

variable {env : Env} {s : State} {c : Conn}

theorem worker_chats (reached : (machine env).Reaches es s) (worker : Worker env c es) :
    s.launched.countP (fun item => item.origin.chats c) = es.countP (Event.isFrame c) := by
  have texts := (reaches_told reached c).texts
  have replayed (held : String) (frames : List Said) : (replay env.lib held frames).length = frames.length := by
    induction frames generalizing held with
    | nil => rfl
    | cons frame frames ih => simp [replay,ih]
  have all : acceptedFrames env.lib c es = es.filterMap (Event.frame? c) := by
    refine List.filter_eq_self.mpr fun frame member => ?_
    obtain ⟨e,inside,received⟩ := List.mem_filterMap.mp member
    obtain rfl := frame_some received
    obtain ⟨contents,at_,said⟩ := worker frame.1 frame.2 inside
    rw [said]
    exact accepts_marshal env.lib rfl
  calc s.launched.countP (fun item => item.origin.chats c)
      = (chatTexts c s.launched).length := by
        rw [chatTexts,List.length_filterMap_eq_countP]
        refine List.countP_congr fun item _ => ?_
        obtain ⟨⟨d,kind⟩,text⟩ := item
        cases kind with
        | chat k => by_cases mine : d = c <;> simp [Origin.chats,Item.chat?,mine]
        | connect | disconnect => simp [Origin.chats,Item.chat?]
    _ = (es.filterMap (Event.frame? c)).length := by rw [texts,List.length_map,replayed,all]
    _ = es.countP (Event.isFrame c) := by rw [List.length_filterMap_eq_countP]; rfl

/-- A client in its receive loop has been written each of its chats once. -/
theorem own_written (reached : (machine env).Reaches es s) (quiet : s.Quiet)
    (at_ : (s.handlers c).pc = .receiving) :
    (forwarded (s.wire c)).countP (fun item => item.origin.chats c) =
      s.launched.countP fun item => item.origin.chats c := by
  have sound := reaches_sound reached
  have written := quiet.written c (by simp [at_])
  rw [List.countP_eq_length_filter,List.countP_eq_length_filter]
  refine List.Perm.length_eq ((List.perm_ext_iff_of_nodup ?_ ?_).mpr fun item => ?_)
  · refine List.Nodup.filter _ (List.Nodup.of_map Item.origin ?_)
    rw [written,List.nodup_iff_count_le_one]
    exact fun o => (sound.pairs o c).once
  · exact (List.Nodup.of_map Item.origin (origins_nodup sound)).filter _
  · rw [List.mem_filter,List.mem_filter]
    refine and_congr_left fun chat => ⟨fun member => ?_,fun member => ?_⟩
    · exact sound.genuine.sent c item (written ▸ member)
    · have hears : Hears item.origin c s := by
        obtain ⟨⟨d,kind⟩,text⟩ := item
        cases kind with
        | chat k =>
          obtain rfl : d = c := by simpa [Origin.chats] using chat
          exact own_hears reached (by simp [at_]) k
        | connect | disconnect => simp [Origin.chats] at chat
      have once := hears_written reached quiet at_ member hears
      exact List.mem_of_mem_filter (once ▸ List.mem_singleton_self item)

end Counts

/-- When the goroutines have done what they can, a worker that is still connected has been told
its uuid first, has decoded everything after it, and has counted every chat that it has sent,
up to the number it waits for. -/
theorem worker_counts (env : Env) (es : List Event) (s : State) (c : Conn) (msgsPerConn : Nat)
    (reached : (machine env).Reaches es s) (quiet : s.Quiet) (at_ : (s.handlers c).pc = .receiving)
    (named : ∀ d, env.uuid d ≠ "") (worker : Worker env c es) :
    ∃ first rest, (s.wire c).map Written.text = first :: rest ∧
      (unmarshal env.lib first Load.newMessage).1.action = some .connect ∧
      (unmarshal env.lib first Load.newMessage).1.contents = env.uuid c ∧
      (Load.runRecvTest env.lib (env.uuid c) msgsPerConn (rest.map .frame)).broken = false ∧
      (Load.runRecvTest env.lib (env.uuid c) msgsPerConn (rest.map .frame)).recvErr = none ∧
      (Load.runRecvTest env.lib (env.uuid c) msgsPerConn (rest.map .frame)).msgsRecvd =
        min msgsPerConn (es.countP (Event.isFrame c)) := by
  have sound := reaches_sound reached
  have greeted := (reaches_streams reached).1 c
  obtain ⟨rest,wire,indirect⟩ := greeted.opened (by simp [at_])
  obtain ⟨now,bytes⟩ := greeted.connect (by simp [at_])
  have unreplied (text : String) : .reply text ∉ rest := fun member =>
    reaches_unreplied reached (by simp [at_]) text (wire ▸ List.mem_cons_of_mem _ member)
  have behind : forwarded (s.wire c) = forwarded rest := by
    rw [wire]
    rfl
  have unleft : (origins s.launched).count ⟨c,.disconnect⟩ = 0 := by
    rw [count_launched sound c .disconnect]
    simp [Handler.launched,at_]
  have rounds : ∀ item ∈ forwarded rest, ∀ t, Going t →
      Going (Load.round env.lib (env.uuid c) t (.frame item.text)) ∧
        (Load.round env.lib (env.uuid c) t (.frame item.text)).msgsRecvd =
          t.msgsRecvd + (item.origin.chats c).toNat := by
    intro item member t going
    rw [← behind,quiet.written c (by simp [at_])] at member
    have launched := sound.genuine.sent c item member
    obtain ⟨contents,now,said⟩ := reaches_tells reached launched
    rw [said]
    refine round_message named contents now (fun own => ?_) going
    exact List.count_eq_zero.mp unleft (own ▸ List.mem_map_of_mem launched)
  have read := unmarshal_marshal Load.newMessage env.lib
    (newSystemMessage .connect (env.uuid c) now) rfl
  obtain ⟨going,counted⟩ := Load.recvLoop_keeps msgsPerConn Going (fun _ going => going.1)
    (fun item : Item => .frame item.text) (fun item => item.origin.chats c) (forwarded rest) rounds
    (t := .start) ⟨rfl,rfl⟩ (Nat.zero_le _)
  have inputs : (rest.map Written.text).map Load.Input.frame =
      (forwarded rest).map fun item : Item => .frame item.text := by
    rw [wire_texts rest indirect unreplied,List.map_map]
    rfl
  rw [← behind,own_written reached quiet at_,worker_chats reached worker] at counted
  refine ⟨marshal env.lib (newSystemMessage .connect (env.uuid c) now),rest.map Written.text,?_,?_,?_,?_⟩
  · rw [wire,List.map_cons,← bytes]
    rfl
  · rw [read]
  · rw [read]
    exact if_neg (named c)
  · rw [Load.runRecvTest,inputs]
    exact ⟨going.1,going.2,by rw [← behind,counted]; simp [Load.RecvTest.start]⟩

def workerFrame : String := marshal encodingJson (newChatMessage "0" "Worker #0: Message 1" 1)

/-- A worker chats once, with another client there. -/
def counted : List Event :=
  [join 0 [],join 1 [0],[.receive 0 (.frame workerFrame) 2],deliver ⟨0,.chat 0⟩ [1,0],
    List.replicate 4 (.writer 0),List.replicate 2 (.writer 1)].flatten

theorem counted_runs : ((machine .numbered).run counted start).any (fun s =>
    decide ((s.handlers 0).pc = .receiving) && s.quietCheck) = true := by decide +kernel

theorem counted_echoed : ∃ s first rest, (machine .numbered).Reaches counted s ∧
    (s.wire 0).map Written.text = first :: rest ∧
    (Load.runRecvTest encodingJson "0" 1 (rest.map .frame)).msgsRecvd = 1 := by
  obtain ⟨s,ran,checked⟩ := (Option.any_eq_true _ _).mp counted_runs
  simp only [Bool.and_eq_true,decide_eq_true_eq] at checked
  have worker : Worker .numbered 0 counted := by
    intro payload now member
    have received : (payload,now) ∈ counted.filterMap (Event.frame? 0) :=
      List.mem_filterMap.mpr ⟨_,member,by simp [Event.frame?]⟩
    have only : counted.filterMap (Event.frame? 0) = [(workerFrame,2)] := rfl
    rw [only,List.mem_singleton] at received
    exact ⟨_,1,congrArg Prod.fst received⟩
  obtain ⟨first,rest,wire,-,-,-,-,count⟩ := worker_counts .numbered counted s 0 1 ran
    (quiet_of_check ran checked.2) checked.1 (fun _ => Nat.repr_ne_empty) worker
  exact ⟨s,first,rest,ran,wire,count⟩

end Wschat.Go
