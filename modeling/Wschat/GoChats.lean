import Wschat.GoDecode
import Wschat.GoHandlers

/-! What the Go server broadcasts for a chat frame. `handler` decodes every frame into one
message, so a frame that leaves the contents alone is broadcast with those of the frame
before it, and the first one with those of the connect. -/
namespace Wschat.Go

/-- The contents that the frame stores, if any. -/
def stored (lib : EncodingJson) (payload : String) : Option String :=
  match lib.parse payload with
  | some (.obj members) => (members.filterMap contentsOf).getLast?
  | _ => none

/-- The contents of the frame alone. -/
def own (lib : EncodingJson) (payload : String) : String := (stored lib payload).getD ""

/-- `webs.JSON.Receive` reports no error, whatever the message holds. -/
def accepts (lib : EncodingJson) (payload : String) : Bool :=
  match lib.parse payload with
  | some (.obj members) => members.all fun member => storable member.1 member.2
  | some .null => true
  | _ => false

theorem unmarshal_accepts (lib : EncodingJson) (payload : String) (msg : Message) :
    (unmarshal lib payload msg).2 = none ↔ accepts lib payload = true := by
  rw [unmarshal,accepts]
  cases lib.parse payload with
  | none => simp
  | some value =>
    cases value with
    | obj members => simp [storeMembers_accepts]
    | null => simp
    | bool | int | real | str | arr => simp

theorem unmarshal_contents (lib : EncodingJson) (payload : String) (msg : Message)
    (accepted : (unmarshal lib payload msg).2 = none) :
    (unmarshal lib payload msg).1.contents = (stored lib payload).getD msg.contents := by
  simp only [unmarshal,stored] at accepted ⊢
  cases parsed : lib.parse payload with
  | none => rfl
  | some value =>
    cases value with
    | obj members =>
      rw [parsed] at accepted
      exact storeMembers_contents members msg false accepted
    | null | bool | int | real | str | arr => rfl

section Replay

variable (lib : EncodingJson)

/-- A frame, or the contents made of it, with the time at which its chat is made. -/
abbrev Said := String × Int64

/-- The contents broadcast for the frames, when the message holds `held`. -/
def replay : String → List Said → List Said
  | _, [] => []
  | held, frame :: frames =>
    let contents := (stored lib frame.1).getD held
    (contents,frame.2) :: replay contents frames

/-- What the message holds after the frames. -/
def holds (held : String) (frames : List Said) : String :=
  frames.foldl (fun held frame => (stored lib frame.1).getD held) held

theorem replay_append (held : String) (frames more : List Said) :
    replay lib held (frames ++ more) =
      replay lib held frames ++ replay lib (holds lib held frames) more := by
  induction frames generalizing held with
  | nil => rfl
  | cons frame frames ih => simp [replay,holds,ih]

theorem holds_concat (held : String) (frames : List Said) (frame : Said) :
    holds lib held (frames ++ [frame]) = (stored lib frame.1).getD (holds lib held frames) := by
  simp [holds]

/-- Each frame stores its contents, or finds empty ones. -/
def Fresh : String → List Said → Prop
  | _, [] => True
  | held, frame :: frames =>
    ((stored lib frame.1).isSome ∨ held = "") ∧ Fresh (own lib frame.1) frames

theorem own_iff (held payload : String) :
    (stored lib payload).getD held = own lib payload ↔
      (stored lib payload).isSome ∨ held = "" := by
  rw [own]
  cases stored lib payload <;> simp

theorem replay_iff (held : String) (frames : List Said) :
    replay lib held frames = frames.map (fun frame => (own lib frame.1,frame.2)) ↔
      Fresh lib held frames := by
  induction frames generalizing held with
  | nil => simp [replay,Fresh]
  | cons frame frames ih =>
    simp only [replay,List.map_cons,List.cons.injEq,Prod.mk.injEq,and_true,Fresh,← own_iff]
    constructor
    · intro ⟨first,later⟩
      exact ⟨first,(ih _).mp (by rw [← first]; exact later)⟩
    · intro ⟨first,later⟩
      exact ⟨first,by rw [first]; exact (ih _).mpr later⟩

end Replay

/-- The chat of `c` among the launched broadcasts. -/
def Item.chat? (c : Conn) : Item → Option String
  | ⟨⟨d,.chat _⟩,text⟩ => if d = c then some text else none
  | _ => none

def chatTexts (c : Conn) (launched : List Item) : List String := launched.filterMap (Item.chat? c)

/-- The frame of `c` that the event receives. -/
def Event.frame? (c : Conn) : Event → Option Said
  | .receive d (.frame payload) now => if d = c then some (payload,now) else none
  | _ => none

/-- The frames of `c` that its receive loop accepts along the schedule. -/
def acceptedFrames (lib : EncodingJson) (c : Conn) (es : List Event) : List Said :=
  (es.filterMap (Event.frame? c)).filter fun frame => accepts lib frame.1

/-- The text of a chat of `c`. -/
def chatText (env : Env) (c : Conn) (frame : Said) : String :=
  marshal env.lib (newChatMessage (env.uuid c) frame.1 frame.2)

/-- The chats of `c` that are broadcast carry the contents of their frames alone. -/
def ChatsAlone (env : Env) (c : Conn) (es : List Event) (s : State) : Prop :=
  chatTexts c s.launched = (acceptedFrames env.lib c es).map fun frame =>
    chatText env c (own env.lib frame.1,frame.2)

theorem marshalJson_contents (msg : Message) :
    (marshalJson msg).get? "contents" =
      if msg.contents = "" then none else some (.str msg.contents) := by
  obtain ⟨sender,action,contents,timestamp⟩ := msg
  by_cases noSender : sender = "" <;> by_cases noAction : action = none <;>
    by_cases noContents : contents = "" <;> by_cases noTime : timestamp = 0 <;>
    simp [marshalJson,omitempty,noSender,noAction,noContents,noTime]

theorem marshalJson_timestamp (msg : Message) :
    (marshalJson msg).get? "timestamp" =
      if msg.timestamp = 0 then none else some (.int msg.timestamp.toInt) := by
  obtain ⟨sender,action,contents,timestamp⟩ := msg
  by_cases noSender : sender = "" <;> by_cases noAction : action = none <;>
    by_cases noContents : contents = "" <;> by_cases noTime : timestamp = 0 <;>
    simp [marshalJson,omitempty,noSender,noAction,noContents,noTime]

theorem marshal_inj (lib : EncodingJson) (same : marshal lib msg = marshal lib msg') :
    marshalJson msg = marshalJson msg' := by
  have parsed := congrArg lib.parse same
  rw [marshal,marshal,lib.parse_print,lib.parse_print] at parsed
  exact Option.some.inj parsed

theorem chatText_inj (env : Env) (c : Conn) : Function.Injective (chatText env c) := by
  intro ⟨contents,now⟩ ⟨contents',now'⟩ same
  have json := marshal_inj env.lib same
  have read := congrArg (Json.get? · "contents") json
  have time := congrArg (Json.get? · "timestamp") json
  rw [marshalJson_contents,marshalJson_contents] at read
  rw [marshalJson_timestamp,marshalJson_timestamp] at time
  simp only [newChatMessage] at read time
  have contentsEq : contents = contents' := by
    by_cases empty : contents = "" <;> by_cases empty' : contents' = "" <;>
      simp [empty,empty'] at read ⊢
    exact read
  have nowEq : now = now' := by
    by_cases zero : now = 0 <;> by_cases zero' : now' = 0 <;> simp [zero,zero'] at time ⊢
    exact Int64.toInt_inj.mp time
  rw [contentsEq,nowEq]

/-- What the receive loop of `c` has made of its frames. -/
structure Told (env : Env) (c : Conn) (es : List Event) (s : State) : Prop where
  early : (s.handlers c).pc.rank < 5 → acceptedFrames env.lib c es = []
  held : 0 < (s.handlers c).pc.rank → (s.handlers c).pc.rank ≤ 5 →
    (s.handlers c).msg.contents = holds env.lib (env.uuid c) (acceptedFrames env.lib c es)
  texts : chatTexts c s.launched =
    (replay env.lib (env.uuid c) (acceptedFrames env.lib c es)).map (chatText env c)

/-- How a handler goes on without a frame: once it has a message it leaves it alone. -/
structure Idles (uuid : String) (h h' : Handler) : Prop where
  made : h.pc.rank = 0 → 0 < h'.pc.rank → h'.msg.contents = uuid
  kept : 0 < h.pc.rank → h'.pc.rank ≤ 5 → h'.msg = h.msg ∧ h.pc.rank ≤ 5

theorem idles_refl (uuid : String) (h : Handler) : Idles uuid h h :=
  ⟨fun none some => absurd none (Nat.ne_of_gt some),fun _ low => ⟨rfl,low⟩⟩

theorem move_idles (moved : Move env s e next) (quiet : e.frame? c = none) :
    Idles (env.uuid c) (s.handlers c) (next.handlers c) := by
  have handler : ∀ d h, (d = c → Idles (env.uuid c) (s.handlers c) h) →
      Idles (env.uuid c) (s.handlers c) (replace s.handlers d h c) := by
    intro d h here
    by_cases same : d = c
    · subst same
      rw [replace_same]
      exact here rfl
    · rw [replace_other _ _ _ _ (Ne.symm same)]
      exact idles_refl _ _
  cases moved with
  | accept d now at_ =>
    apply handler d
    rintro rfl
    constructor <;> simp [at_,newSystemMessage]
  | chat d payload now msg at_ accepted =>
    apply handler d
    intro same
    simp [Event.frame?,same] at quiet
  | leave d incoming now msg pc at_ out =>
    apply handler d
    rintro rfl
    rcases out with rfl | rfl <;> constructor <;> simp [at_]
  | broadcasted d now at_ | write d now at_ | store d now at_ | startWriter d now at_
  | reply d now text at_ | delete d now at_ | announce d now at_ =>
    apply handler d
    rintro rfl
    constructor <;> simp [at_]
  | close d now pc after ch at_ closed =>
    apply handler d
    rintro rfl
    cases pc <;> cases after <;> constructor <;> simp [at_,afterClose]
  | range | visit | send | finish | pop | drain | forward => exact idles_refl _ _

theorem move_chatTexts (moved : Move env s e next) (quiet : e.frame? c = none) :
    chatTexts c next.launched = chatTexts c s.launched := by
  cases moved with
  | accept d now at_ => simp [Wschat.Go.accept,State.launch,chatTexts,Item.chat?]
  | announce d now at_ => simp [State.goto,State.launch,chatTexts,Item.chat?]
  | chat d payload now msg at_ accepted =>
    have other : d ≠ c := by
      intro same
      simp [Event.frame?,same] at quiet
    simp [State.launch,chatTexts,Item.chat?,other]
  | leave | broadcasted | write | store | startWriter | reply | close | delete | range | visit
  | send | finish | pop | drain | forward => rfl

theorem acceptedFrames_quiet (lib : EncodingJson) (quiet : Event.frame? c e = none) :
    acceptedFrames lib c (es ++ [e]) = acceptedFrames lib c es := by
  simp [acceptedFrames,quiet]

theorem told_quiet (told : Told env c es s) (moved : Move env s e next)
    (quiet : e.frame? c = none) : Told env c (es ++ [e]) next := by
  have idles := move_idles moved quiet
  have up := move_rank moved c
  constructor
  · intro low
    rw [acceptedFrames_quiet env.lib quiet]
    exact told.early (by omega)
  · intro began low
    rw [acceptedFrames_quiet env.lib quiet]
    by_cases before : (s.handlers c).pc.rank = 0
    · rw [idles.made before began,told.early (by omega)]
      rfl
    · obtain ⟨msg,low⟩ := idles.kept (by omega) low
      rw [msg]
      exact told.held (by omega) low
  · rw [move_chatTexts moved quiet,acceptedFrames_quiet env.lib quiet]
    exact told.texts

theorem told_frame (told : Told env c es s) (ready : (s.handlers c).pc = .receiving)
    (payload : String) (now : Int64) :
    Told env c (es ++ [.receive c (.frame payload) now])
      (receive env s c (.frame payload) now) := by
  have held := told.held (by simp [ready]) (by simp [ready])
  have frames : acceptedFrames env.lib c (es ++ [.receive c (.frame payload) now]) =
      acceptedFrames env.lib c es ++ if accepts env.lib payload then [(payload,now)] else [] := by
    simp [acceptedFrames,Event.frame?,List.filter_cons]
  cases outcome : unmarshal env.lib payload (s.handlers c).msg with
  | mk msg failure =>
    have accepted := unmarshal_accepts env.lib payload (s.handlers c).msg
    rw [outcome] at accepted
    cases failure with
    | none =>
      have contents := unmarshal_contents env.lib payload (s.handlers c).msg (by rw [outcome])
      rw [outcome,held] at contents
      simp only at contents
      rw [if_pos (accepted.mp rfl)] at frames
      simp only [receive,outcome]
      constructor
      · simp [ready]
      · simp [frames,holds_concat,contents]
      · rw [frames,replay_append,List.map_append,← told.texts]
        simp [State.launch,chatTexts,Item.chat?,replay,chatText,contents]
    | some failure =>
      rw [if_neg (fun all => by simp [all] at accepted),List.append_nil] at frames
      simp only [receive,outcome]
      constructor
      · split <;> simp
      · split <;> simp
      · rw [frames]
        exact told.texts

theorem frame_some (received : Event.frame? c e = some f) : e = .receive c (.frame f.1) f.2 := by
  unfold Event.frame? at received
  split at received
  · split at received
    · next same =>
      obtain rfl := Option.some.inj received
      rw [same]
    · contradiction
  · contradiction

theorem reaches_told (reached : (machine env).Reaches es s) (c : Conn) : Told env c es s := by
  apply (machine env).reaches_induction (motive := fun es s => Told env c es s) _ _ reached
  · constructor <;> simp [machine,start,acceptedFrames,chatTexts,replay]
  · intro es s e next before told stepped
    cases frame : e.frame? c with
    | none => exact told_quiet told (step_move env s next e stepped) frame
    | some f =>
      obtain rfl := frame_some frame
      simp only [machine,step] at stepped
      split at stepped
      · contradiction
      · split at stepped
        · next ready =>
          obtain rfl := Option.some.inj stepped
          exact told_frame told ready f.1 f.2
        · contradiction

theorem chat_alone_iff (env : Env) (es : List Event) (s : State) (c : Conn)
    (reached : (machine env).Reaches es s) :
    ChatsAlone env c es s ↔ Fresh env.lib (env.uuid c) (acceptedFrames env.lib c es) := by
  have texts := (reaches_told reached c).texts
  have alone : (acceptedFrames env.lib c es).map (fun frame =>
      chatText env c (own env.lib frame.1,frame.2)) =
      ((acceptedFrames env.lib c es).map fun frame => (own env.lib frame.1,frame.2)).map
        (chatText env c) := by
    rw [List.map_map]
    rfl
  rw [ChatsAlone,texts,alone,← replay_iff]
  exact (List.map_injective_iff.mpr (chatText_inj env c)).eq_iff

/-- A client connects and sends the frames, at the times from 2 on. -/
def talk (payloads : List String) : List Event :=
  ([.accept 0 1,.range ⟨0,.connect⟩,.finish ⟨0,.connect⟩,.handle 0 1,.handle 0 1,.handle 0 1,
    .handle 0 1] : List Event) ++ payloads.mapIdx fun i payload => .receive 0 (.frame payload) (.ofNat (i + 2))

/-- Contents that are given, empty, left out after empty ones, and given under another case. -/
def wordedFrames : List String :=
  ["\x7b\"action\":\"chat\",\"contents\":\"a\"\x7d","\x7b\"sender\":\"1\",\"contents\":\"\"\x7d",
    "\x7b\"action\":\"chat\"\x7d","\x7b\"Contents\":\"b\"\x7d"]

def worded : List Event := talk wordedFrames

theorem worded_runs : ((machine .numbered).run worded start).any (fun s =>
    decide (s.launched.length = 5)) = true := by decide +kernel

theorem worded_alone : ∃ s, (machine .numbered).Reaches worded s ∧ ChatsAlone .numbered 0 worded s ∧
    s.launched.length = 5 := by
  obtain ⟨s,ran,launched⟩ := (Option.any_eq_true _ _).mp worded_runs
  refine ⟨s,ran,(chat_alone_iff .numbered worded s 0 ran).mpr ?_,of_decide_eq_true launched⟩
  have frames : acceptedFrames encodingJson 0 worded = wordedFrames.zip [2,3,4,5] := by decide +kernel
  rw [Env.numbered,frames]
  exact ⟨.inl (by decide +kernel),.inl (by decide +kernel),.inr (by decide +kernel),
    .inl (by decide +kernel),trivial⟩

/-- A chat without contents, sent first. -/
def wordless : List Event := talk ["\x7b\"action\":\"chat\"\x7d"]

theorem wordless_runs : ((machine .numbered).run wordless start).any (fun s =>
    decide (chatTexts 0 s.launched = [chatText .numbered 0 ("0",2)])) = true := by decide +kernel

/-- It is broadcast with the uuid of its sender as its contents. -/
theorem wordless_uuid : ¬∀ env es s c, (machine env).Reaches es s → ChatsAlone env c es s := by
  intro alone
  obtain ⟨s,ran,texts⟩ := (Option.any_eq_true _ _).mp wordless_runs
  have told := alone .numbered wordless s 0 ran
  have frames : acceptedFrames encodingJson 0 wordless =
    [("\x7b\"action\":\"chat\"\x7d",2)] := by decide +kernel
  have empty : own encodingJson "\x7b\"action\":\"chat\"\x7d" = "" := by decide +kernel
  have same : chatText .numbered 0 ("0",2) = chatText .numbered 0 ("",2) := by
    simpa [ChatsAlone,of_decide_eq_true texts,Env.numbered,frames,empty] using told
  simpa using chatText_inj .numbered 0 same

end Wschat.Go
