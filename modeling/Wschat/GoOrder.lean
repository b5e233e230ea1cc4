import Wschat.GoDelivery

/-! The order of one client's broadcasts at a recipient. Chats and the disconnect are
broadcast by goroutines of their own, so a later one can overtake an earlier one; where none
does, the texts arrive in order. -/
namespace Wschat.Go

/-- The order in which a handler launches its broadcasts. -/
def Kind.before : Kind → Kind → Bool
  | .connect, .chat _ | .connect, .disconnect | .chat _, .disconnect => true
  | .chat j, .chat k => j < k
  | _, _ => false

def Precedes (o o' : Origin) : Prop := o.conn = o'.conn → o.kind.before o'.kind = true

/-- The broadcast `o` may still send to the channel of `y`. -/
def State.CanSend (s : State) (o : Origin) (y : Conn) : Prop :=
  match s.tasks o with
  | .absent | .done => False
  | .spawned _ => y ∈ s.clients.map Prod.snd ∧ (s.channels y).closed = false
  | .ranging _ range sending => sending = some (y,.push) ∨ (s.channels y).closed = false ∧
      (sending = some (y,.rLock) ∨ sending = some (y,.load) ∨ y ∈ range.may ∧ y ∉ range.visited)

/-- The step is no broadcast sending to a channel that an earlier broadcast of the same
client may still send to. -/
def NotOvertaking (s : State) (e : Event) : Prop :=
  ∀ o text range y, e = .send o → s.tasks o = .ranging text range (some (y,.push)) →
    ∀ o' ∈ origins s.launched, o'.conn = o.conn → o'.kind.before o.kind = true → ¬s.CanSend o' y

theorem send_closed {channel channel' : Channel Origin Item}
    (sent : channel.send o item pc = some (channel',next)) : channel'.closed = channel.closed := by
  cases Channel.send_step sent <;> rfl

theorem close_closed {channel channel' : Channel Origin Item}
    (closed : channel.close pc = some (channel',next)) (still : channel'.closed = false) :
    channel.closed = false := by
  cases Channel.close_step closed with
  | swap open_ => exact open_
  | swapAgain | lock | acquire | panic | shut | unlock => exact still

/-- What follows `RLock` and the test of the flag. -/
theorem send_next {channel channel' : Channel Origin Item}
    (sent : channel.send o item pc = some (channel',next)) :
    pc = .rLock ∧ next = .load ∨ pc = .load ∧ (next = .push → channel.closed = false) ∧
      next ≠ .load ∧ next ≠ .rLock ∨ next ≠ .push ∧ next ≠ .load ∧ next ≠ .rLock := by
  cases Channel.send_step sent with
  | rLock => exact .inl ⟨rfl,rfl⟩
  | skip => exact .inr (.inl (by simp))
  | proceed open_ => exact .inr (.inl (by simp [open_]))
  | panic | push | rUnlock => exact .inr (.inr (by simp))

/-- A `Send` that goes on may send only if it might before. -/
theorem CanSend.send {s next : State} (moved : Move env s (.send o) next)
    (can : next.CanSend o y) : s.CanSend o y := by
  cases moved with
  | send o z text range pc after channel ranging sent =>
    have same := send_closed sent
    have closed : (replace s.channels z channel y).closed = (s.channels y).closed := by
      by_cases here : y = z
      · subst here; simpa using same
      · simp [here]
    simp only [State.CanSend,State.setTask,State.setChannel,replace_same,closed] at can
    simp only [State.CanSend,ranging]
    rcases can with pushing | ⟨opened,ahead⟩
    · split at pushing
      · contradiction
      · obtain ⟨rfl,rfl⟩ := Prod.mk.inj (Option.some.inj pushing)
        rcases send_next sent with ⟨-,loading⟩ | ⟨rfl,opened,-⟩ | ⟨other,-⟩
        · contradiction
        · exact .inr ⟨opened rfl,.inr (.inl rfl)⟩
        · contradiction
    · rcases ahead with locking | loading | unvisited
      · split at locking
        · contradiction
        · obtain ⟨rfl,rfl⟩ := Prod.mk.inj (Option.some.inj locking)
          rcases send_next sent with ⟨-,loading⟩ | ⟨-,-,-,other⟩ | ⟨-,-,other⟩ <;> contradiction
      · split at loading
        · contradiction
        · obtain ⟨rfl,rfl⟩ := Prod.mk.inj (Option.some.inj loading)
          rcases send_next sent with ⟨rfl,-⟩ | ⟨-,-,other,-⟩ | ⟨-,other,-⟩
          · exact .inr ⟨opened,.inl rfl⟩
          · contradiction
          · contradiction
      · exact .inr ⟨opened,.inr (.inr unvisited)⟩

/-- Whether a launched broadcast may still send to a client that has been stored is settled
once it may not. -/
theorem move_canSend (moved : Move env s e next) (sound : Sound env s)
    (launched : (s.handlers o.conn).launched o.kind = true) (stored : 4 ≤ (s.handlers y).pc.rank)
    (can : next.CanSend o y) : s.CanSend o y := by
  have other : ∀ c k t, (s.handlers c).launched k = false →
      replace s.tasks ⟨c,k⟩ t o = s.tasks o := by
    intro c k t fresh
    apply replace_other
    rintro rfl
    rw [launched] at fresh
    contradiction
  have whole := moved
  cases moved with
  | accept c now at_ =>
    simpa [State.CanSend,Wschat.Go.accept,other c .connect _ (by simp [Handler.launched,at_])] using can
  | chat c payload now msg at_ =>
    have fresh : (s.handlers c).launched (.chat (s.handlers c).chats) = false := by
      simp [Handler.launched]
    simp only [State.CanSend,State.launch,other c _ _ fresh] at can
    exact can
  | announce c now at_ =>
    simpa [State.CanSend,other c .disconnect _ (by simp [Handler.launched,at_])] using can
  | store c now at_ =>
    have apart : y ≠ c := by
      rintro rfl
      simp [at_] at stored
    have keys := sound.mapped.mem_filter c y
    simp only [State.CanSend,State.goto,State.store] at can ⊢
    cases ranging : s.tasks o <;>
      simp only [ranging,Task.stored,List.map_append,List.mem_append,keys,List.map_cons,List.map_nil,
        List.mem_cons,List.not_mem_nil,apart,or_false,false_or] at can ⊢
    · exact ⟨can.1.1,can.2⟩
    · exact can
  | delete c now at_ =>
    have keys := sound.mapped.mem_filter c y
    simp only [State.CanSend,State.goto,State.delete] at can ⊢
    cases ranging : s.tasks o <;> simp only [ranging,Task.deleted,keys] at can ⊢
    · exact ⟨can.1.1,can.2⟩
    · exact can
  | close c now pc after channel at_ closed =>
    have still : (replace s.channels c channel y).closed = false → (s.channels y).closed = false := by
      by_cases here : y = c
      · subst here; simpa using close_closed closed
      · simp [here]
    simp only [State.CanSend,State.goto,State.setChannel] at can ⊢
    cases ranging : s.tasks o <;> simp only [ranging] at can ⊢
    · exact ⟨can.1,still can.2⟩
    · exact can.imp_right fun ahead => ⟨still ahead.1,ahead.2⟩
  | range o' text spawned =>
    by_cases same : o = o'
    · subst same
      simp only [State.CanSend,State.setTask,replace_same] at can
      simp only [State.CanSend,spawned]
      simp at can
      exact ⟨by simpa using can.2,can.1⟩
    · simpa [State.CanSend,same] using can
  | visit o' z text range ranging may fresh =>
    by_cases same : o = o'
    · subst same
      simp only [State.CanSend,State.setTask,replace_same] at can
      simp only [State.CanSend,ranging]
      rcases can with pushing | ⟨opened,locking | loading | unvisited⟩
      · simp at pushing
      · obtain ⟨rfl,-⟩ := Prod.mk.inj (Option.some.inj locking)
        exact .inr ⟨opened,.inr (.inr ⟨may,fresh⟩)⟩
      · simp at loading
      · exact .inr ⟨opened,.inr (.inr ⟨unvisited.1,fun v => unvisited.2 (List.mem_cons_of_mem _ v)⟩)⟩
    · simpa [State.CanSend,same] using can
  | send o' z text range pc after channel ranging sent =>
    by_cases same : o = o'
    · subst same
      exact CanSend.send whole can
    · have closed : (replace s.channels z channel y).closed = (s.channels y).closed := by
        by_cases here : y = z
        · subst here; simpa using send_closed sent
        · simp [here]
      simpa [State.CanSend,same,closed] using can
  | finish o' =>
    by_cases same : o = o'
    · subst same; simp [State.CanSend] at can
    · simpa [State.CanSend,same] using can
  | pop c item rest =>
    have closed : (replace s.channels c { s.channels c with buffer := rest } y).closed =
        (s.channels y).closed := by
      by_cases here : y = c
      · subst here; simp
      · simp [here]
    simpa [State.CanSend,closed] using can
  | broadcasted | write | startWriter | leave | reply | drain | forward => exact can

theorem before_total (j k : Kind) : j.before k = true ∨ j = k ∨ k.before j = true := by
  cases j with
  | connect | disconnect => cases k <;> simp [Kind.before]
  | chat j =>
    cases k with
    | connect | disconnect => simp [Kind.before]
    | chat k => simp only [Kind.before,decide_eq_true_eq,Kind.chat.injEq]; omega

theorem Launches.mem (l : Launches o.conn h tasks launched) :
    o ∈ origins launched ↔ h.launched o.kind = true := by
  have counted := l.counted o.kind
  rw [← List.count_pos_iff]
  cases has : h.launched o.kind <;> simp_all

/-- Broadcasts are launched in their order. -/
theorem move_launch_order {o o' : Origin} (moved : Move env s e next) (sound : Sound env s)
    (same : o.conn = o'.conn) (before : o.kind.before o'.kind = true)
    (later : (s.handlers o'.conn).launched o'.kind = true)
    (launched : (next.handlers o.conn).launched o.kind = true) :
    (s.handlers o.conn).launched o.kind = true := by
  obtain ⟨x,k⟩ := o
  obtain ⟨x',k'⟩ := o'
  simp only at same before later launched ⊢
  subst same
  -- a handler that goes on to `h`, and launches nothing that comes before `k'`
  have handler : ∀ c h, (c = x → h.launched k = true → (s.handlers x).launched k = true) →
      (replace s.handlers c h x).launched k = true → (s.handlers x).launched k = true := by
    intro c h kept
    by_cases here : x = c
    · subst here; simpa using kept rfl
    · simp [here]
  cases moved with
  | accept c now at_ =>
    apply handler c _ _ launched
    rintro rfl -
    have idle := (sound.launches c).idle (by simp [at_])
    cases k' <;> simp [Handler.launched,at_,idle] at later
  | chat c payload now msg at_ =>
    apply handler c _ _ launched
    rintro rfl had
    cases k with
    | connect => simp [Handler.launched,at_]
    | disconnect => simp [Kind.before] at before
    | chat j =>
      cases k' with
      | connect => simp [Kind.before] at before
      | disconnect => simp [Handler.launched,at_] at later
      | chat j' =>
        simp only [Handler.launched,Kind.before,decide_eq_true_eq] at before later ⊢
        omega
  | announce c now at_ =>
    apply handler c _ _ launched
    rintro rfl had
    cases k <;> simp_all [Handler.launched,Kind.before]
  | broadcasted c now at_ | write c now at_ | store c now at_ | startWriter c now at_
  | reply c now text at_ | delete c now at_ =>
    apply handler c _ _ launched
    rintro rfl had
    cases k <;> simp_all [Handler.launched]
  | leave c incoming now msg pc at_ out =>
    apply handler c _ _ launched
    rintro rfl had
    rcases out with rfl | rfl <;> cases k <;> simp_all [Handler.launched]
  | close c now pc after channel at_ closed =>
    have low : 8 ≤ pc.rank := by cases pc <;> simp
    apply handler c _ _ launched
    rintro rfl had
    cases k with
    | connect => simp only [Handler.launched,at_,rank_closing,decide_eq_true_eq]; omega
    | chat j => exact had
    | disconnect => simp only [Handler.launched,at_,rank_closing,decide_eq_true_eq]; omega
  | range | visit | send | finish | pop | drain | forward => exact launched

/-- What has been sent to each channel is in order, and what comes before it is over. -/
structure InOrder (s : State) : Prop where
  stored : ∀ y, (s.channels y).sent ≠ [] → 4 ≤ (s.handlers y).pc.rank
  ordered : ∀ y, (origins (s.channels y).sent).Pairwise Precedes
  settled : ∀ y, ∀ o' ∈ origins (s.channels y).sent, ∀ o, o.conn = o'.conn →
    o.kind.before o'.kind = true → (s.handlers o.conn).launched o.kind = true → ¬s.CanSend o y

/-- The broadcasts before one that has been sent stay settled. -/
theorem InOrder.kept {o o' : Origin} (inOrder : InOrder s) (sound : Sound env s) (moved : Move env s e next)
    (member : o' ∈ origins (s.channels y).sent) (same : o.conn = o'.conn)
    (before : o.kind.before o'.kind = true)
    (launched : (next.handlers o.conn).launched o.kind = true) : ¬next.CanSend o y := by
  obtain ⟨item,inside,rfl⟩ := List.mem_map.mp member
  have later : (s.handlers item.origin.conn).launched item.origin.kind = true := by
    rw [← (sound.launches item.origin.conn).mem]
    exact List.mem_map_of_mem (sound.genuine.sent y item inside)
  have had := move_launch_order moved sound same before later launched
  have stored := inOrder.stored y (List.ne_nil_of_mem inside)
  intro can
  exact inOrder.settled y item.origin member o same before had
    (move_canSend moved sound had stored can)

theorem move_inOrder (moved : Move env s e next) (sound : Sound env s)
    (notOvertaking : NotOvertaking s e) (inOrder : InOrder s) : InOrder next := by
  have up := move_rank moved
  have sent := move_sent moved
  constructor
  · intro y some_
    rcases sent y with same | ⟨o,text,range,rfl,ranging,grown⟩
    · rw [same] at some_
      exact Nat.le_trans (inOrder.stored y some_) (up y)
    · have visited := sound.within o
      have seen := sound.seen o y
      rw [ranging] at visited seen
      exact Nat.le_trans (seen (.inr (visited y .push rfl))) (up y)
  · intro y
    rcases sent y with same | ⟨o,text,range,rfl,ranging,grown⟩
    · rw [same]; exact inOrder.ordered y
    · rw [grown,origins,List.map_append,List.pairwise_append]
      refine ⟨inOrder.ordered y,by simp,?_⟩
      intro o'' member new last conn
      have here : new = o := by simpa using last
      subst here
      have launched : (s.handlers new.conn).launched new.kind = true := by
        have absent := (sound.launches new.conn).absent new.kind
        simpa [ranging] using absent
      rcases before_total o''.kind new.kind with before | same | after
      · exact before
      · have mine : o'' = new := by cases o''; cases new; simp_all
        have ahead := (sound.pairs new y).ahead (by rw [ranging]; exact .inr ⟨.push,rfl,trivial⟩)
        rw [mine] at member
        exact absurd member (List.count_eq_zero.mp ahead)
      · have settled := inOrder.settled y o'' member new conn.symm after launched
        simp [State.CanSend,ranging] at settled
  · intro y o' member o conn before launched
    rcases sent y with same | ⟨new,text,range,rfl,ranging,grown⟩
    · rw [same] at member
      exact inOrder.kept sound moved member conn before launched
    · rw [grown,origins,List.map_append,List.mem_append] at member
      rcases member with old | last
      · exact inOrder.kept sound moved old conn before launched
      · have here : o' = new := by simpa using last
        subst here
        have visited := sound.within o'
        have seen := sound.seen o' y
        rw [ranging] at visited seen
        have stored := seen (.inr (visited y .push rfl))
        have had : (s.handlers o.conn).launched o.kind = true := by cases moved; exact launched
        intro can
        exact notOvertaking o' text range y rfl ranging o ((sound.launches o.conn).mem.mpr had) conn
          before (move_canSend moved sound had stored can)

/-- What is written to `y` of the texts of client `x`. -/
def State.writtenOf (s : State) (x y : Conn) : List Kind :=
  (((s.wire y).filterMap Written.origin?).filter fun o => o.conn = x).map Origin.kind

theorem reaches_inOrder (meets : (machine env).Meets NotOvertaking es)
    (reached : (machine env).Reaches es s) : InOrder s := by
  have both : Sound env s ∧ InOrder s := by
    apply (machine env).invariant_of_meets NotOvertaking (fun s => Sound env s ∧ InOrder s) _ _
      meets reached
    · refine ⟨start_sound env,?_⟩
      constructor <;> simp [machine,start,newChannel]
    · intro s e next both condition stepped
      have moved := step_move env s next e stepped
      exact ⟨move_sound moved both.1,move_inOrder moved both.1 condition both.2⟩
  exact both.2

theorem wire_origins (rest : List Written) (indirect : ∀ item, .direct item ∉ rest) :
    rest.filterMap Written.origin? = origins (forwarded rest) := by
  induction rest with
  | nil => rfl
  | cons w rest ih =>
    have tail := ih fun item member => indirect item (List.mem_cons_of_mem _ member)
    cases w with
    | direct item => exact absurd (List.mem_cons_self) (indirect item)
    | forwarded item => simpa [List.filterMap_cons,Written.origin?,forwarded,Written.forwarded?] using tail
    | reply text => simpa [List.filterMap_cons,Written.origin?,forwarded,Written.forwarded?] using tail

/-- If no broadcast overtakes an earlier one of its client, every client's texts are written
to every recipient in the order of their launch. -/
theorem order_of_not_overtaking (env : Env) (es : List Event) (s : State)
    (meets : (machine env).Meets NotOvertaking es) (reached : (machine env).Reaches es s)
    (x y : Conn) : (s.writtenOf x y).Pairwise fun j k => j.before k = true := by
  have inOrder := reaches_inOrder meets reached
  have greeted := (reaches_streams reached).1 y
  have prefix_ := (forwarded_front reached y).map Item.origin
  have sorted := (inOrder.ordered y).sublist prefix_.sublist
  rw [State.writtenOf,List.pairwise_map,List.pairwise_filter]
  by_cases late : 2 < (s.handlers y).pc.rank
  · obtain ⟨rest,eq,indirect⟩ := greeted.opened late
    have sent : forwarded (s.wire y) = forwarded rest := by rw [eq]; rfl
    rw [sent] at sorted prefix_
    have direct : (s.wire y).filterMap Written.origin? =
        ⟨y,.connect⟩ :: origins (forwarded rest) := by
      rw [eq,List.filterMap_cons,wire_origins rest indirect]
      rfl
    rw [direct,List.pairwise_cons]
    constructor
    · intro o member mine yours
      have conn : o.conn = y := by simp_all
      have other : o ≠ ⟨y,.connect⟩ := by
        rintro rfl
        exact own_connect_unsent reached y (prefix_.subset member)
      cases kind : o.kind with
      | connect => exact absurd (by cases o; simp_all) other
      | chat k => rfl
      | disconnect => rfl
    · apply sorted.imp
      intro o o' precedes mine yours
      exact precedes (by simp_all)
  · rw [greeted.silent (by omega)]
    exact .nil

/-- `CanSend` and `NotOvertaking`, computed. -/
def State.canSend (s : State) (o : Origin) (y : Conn) : Bool :=
  match s.tasks o with
  | .absent | .done => false
  | .spawned _ => decide (y ∈ s.clients.map Prod.snd) && !(s.channels y).closed
  | .ranging _ range sending =>
    decide (sending = some (y,.push)) || !(s.channels y).closed &&
      (decide (sending = some (y,.rLock)) || decide (sending = some (y,.load)) ||
        decide (y ∈ range.may) && decide (y ∉ range.visited))

def notOvertaking (s : State) : Event → Bool
  | .send o =>
    match s.tasks o with
    | .ranging _ _ (some (y,.push)) =>
      (origins s.launched).all fun o' =>
        !(decide (o'.conn = o.conn) && o'.kind.before o.kind && s.canSend o' y)
    | _ => true
  | _ => true

theorem State.canSend_iff (s : State) (o : Origin) (y : Conn) :
    s.canSend o y = true ↔ s.CanSend o y := by
  unfold State.canSend State.CanSend
  split <;> simp [or_assoc]

theorem notOvertaking_sound (s : State) (e : Event) (checked : notOvertaking s e = true) :
    NotOvertaking s e := by
  rintro o text range y rfl ranging o' launched same earlier can
  simp only [notOvertaking,ranging,List.all_eq_true] at checked
  have clear := checked o' launched
  rw [(s.canSend_iff o' y).mpr can] at clear
  simp [same,earlier] at clear

/-- Client 1 chats twice and leaves. Both chats are on their way at once, and the later one
lets the earlier one go first at each recipient. -/
def conversation : List Event :=
  [join 0 [],join 1 [0],
    [.receive 1 (.frame "\x7b\"contents\":\"a\"\x7d") 2,.receive 1 (.frame "\x7b\"contents\":\"b\"\x7d") 3,
      .range ⟨1,.chat 0⟩,.range ⟨1,.chat 1⟩],
    deliverTo ⟨1,.chat 0⟩ 0,deliverTo ⟨1,.chat 1⟩ 0,deliverTo ⟨1,.chat 0⟩ 1,deliverTo ⟨1,.chat 1⟩ 1,
    [.finish ⟨1,.chat 0⟩,.finish ⟨1,.chat 1⟩,.receive 1 .eof 4],List.replicate 7 (.handle 1 5),
    deliver ⟨1,.disconnect⟩ [0],List.replicate 8 (.writer 0)].flatten

theorem conversation_runs : (machine .numbered).check notOvertaking conversation start = true ∧
    ((machine .numbered).run conversation start).any (fun s =>
      decide (s.writtenOf 1 0 = [.connect,.chat 0,.chat 1,.disconnect])) = true := by
  decide +kernel

theorem conversation_in_order : ∃ s, (machine .numbered).Reaches conversation s ∧
    s.writtenOf 1 0 = [.connect,.chat 0,.chat 1,.disconnect] ∧
    (s.writtenOf 1 0).Pairwise fun j k => j.before k = true := by
  obtain ⟨inTurn,ran⟩ := conversation_runs
  obtain ⟨s,reached,written⟩ := (Option.any_eq_true _ _).mp ran
  have meets := (machine .numbered).meets_of_check notOvertaking notOvertaking_sound inTurn
  exact ⟨s,reached,of_decide_eq_true written,
    order_of_not_overtaking .numbered conversation s meets reached 1 0⟩

/-- `y` is in the map from the moment the handler of `x` starts. -/
def Throughout (env : Env) (es : List Event) (x y : Conn) : Prop :=
  ∀ part rest u, es = part ++ rest → (∃ now, .accept x now ∈ part) →
    (machine env).Reaches part u → (env.uuid y,y) ∈ u.clients

/-- Client 1 chats twice, and the second chat's goroutine is scheduled first. -/
def swapped : List Event :=
  [join 0 [],join 1 [0],
    [.receive 1 (.frame "\x7b\"contents\":\"a\"\x7d") 2,.receive 1 (.frame "\x7b\"contents\":\"b\"\x7d") 3],
    deliver ⟨1,.chat 1⟩ [0,1],deliver ⟨1,.chat 0⟩ [0,1],List.replicate 6 (.writer 0)].flatten

theorem swapped_runs : ((machine .numbered).run swapped start).any (fun s =>
    decide (s.writtenOf 1 0 = [.connect,.chat 1,.chat 0])) = true := by
  decide +kernel

theorem swapped_stored : swapped.inits.all (fun part =>
    !part.contains (.accept 1 1) || ((machine .numbered).run part start).any fun s =>
      decide ((Env.numbered.uuid 0,0) ∈ s.clients)) = true := by
  decide +kernel

theorem swapped_throughout : Throughout .numbered swapped 1 0 := by
  rintro part rest u eq ⟨now,accepted⟩ reached
  have inits := List.all_eq_true.mp swapped_stored part
    ((List.mem_inits _ _).mpr ⟨rest,eq.symm⟩)
  have once : ∀ now, .accept 1 now ∈ swapped → now = 1 := by
    intro now member
    simpa [swapped,join,enter,deliver,deliverTo] using member
  have now_ : now = 1 := once now (by rw [eq]; exact List.mem_append_left _ accepted)
  subst now_
  rw [Bool.or_eq_true] at inits
  rcases inits with absent | stored
  · simp [accepted] at absent
  · obtain ⟨s,ran,inside⟩ := (Option.any_eq_true _ _).mp stored
    rw [Machine.Reaches.unique (machine .numbered) reached ran]
    simpa using inside

/-- So the order is not kept on every schedule. -/
theorem swapped_out_of_order : ¬∀ env es s x y, (machine env).Reaches es s →
    Throughout env es x y → (s.writtenOf x y).Pairwise fun j k => j.before k = true := by
  intro ordered
  obtain ⟨s,ran,checked⟩ := (Option.any_eq_true _ _).mp swapped_runs
  have sorted := ordered .numbered swapped s 1 0 ran swapped_throughout
  rw [of_decide_eq_true checked] at sorted
  simp [Kind.before] at sorted

end Wschat.Go
