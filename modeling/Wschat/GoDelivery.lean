import Wschat.GoSound

/-! Joining and delivery on the Go server: what is written to a client starts with its own
connect and goes on with what has been sent to its channel; a broadcast that runs while the
channel is stored and open sends to it once; a handler that has returned has left the map
and launched its disconnect. -/
namespace Wschat.Go

def Written.forwarded? : Written → Option Item
  | .forwarded item => some item
  | .direct _ | .reply _ => none

/-- The broadcast that the text written comes from. -/
def Written.origin? : Written → Option Origin
  | .direct item | .forwarded item => some item.origin
  | .reply _ => none

/-- What the writer goroutine has written. -/
def forwarded (wire : List Written) : List Item := wire.filterMap Written.forwarded?

def WriterPc.pending : WriterPc → List Item
  | .writing item => [item]
  | _ => []

@[simp] theorem forwarded_append (wire more : List Written) :
    forwarded (wire ++ more) = forwarded wire ++ forwarded more := by simp [forwarded]

@[simp] theorem forwarded_direct (item : Item) : forwarded [.direct item] = [] := rfl
@[simp] theorem forwarded_forwarded (item : Item) : forwarded [.forwarded item] = [item] := rfl
@[simp] theorem forwarded_reply (text : String) : forwarded [.reply text] = [] := rfl

theorem mem_forwarded : item ∈ forwarded wire ↔ .forwarded item ∈ wire := by
  simp only [forwarded,List.mem_filterMap]
  constructor
  · rintro ⟨w,member,eq⟩
    cases w <;> simp [Written.forwarded?] at eq
    rw [← eq]
    exact member
  · intro member
    exact ⟨_,member,rfl⟩

/-- What has been taken out of a channel, is being written, and is buffered, is what has been
sent to it. -/
def Flow (channel : Channel Origin Item) (writer : WriterPc) (wire : List Written) : Prop :=
  forwarded wire ++ writer.pending ++ channel.buffer = channel.sent

/-- The start of what is written to a client. -/
structure Greeted (env : Env) (c : Conn) (h : Handler) (writer : WriterPc) (wire : List Written) :
    Prop where
  silent : h.pc.rank ≤ 2 → wire = []
  opened : 2 < h.pc.rank → ∃ rest, wire = .direct ⟨⟨c,.connect⟩,h.msgJSONBytes⟩ :: rest ∧
    ∀ item, .direct item ∉ rest
  idle : h.pc.rank ≤ 4 → writer = .absent
  connect : 0 < h.pc.rank → ∃ now,
    h.msgJSONBytes = marshal env.lib (newSystemMessage .connect (env.uuid c) now)

theorem send_flow {channel channel' : Channel Origin Item}
    (sent : channel.send o item pc = some (channel',next)) :
    ∃ more, channel'.buffer = channel.buffer ++ more ∧ channel'.sent = channel.sent ++ more := by
  cases Channel.send_step sent with
  | push => exact ⟨[item],rfl,rfl⟩
  | rLock | skip | proceed | panic | rUnlock => exact ⟨[],by simp⟩

theorem close_flow {channel channel' : Channel Origin Item}
    (closed : channel.close pc = some (channel',next)) :
    channel'.buffer = channel.buffer ∧ channel'.sent = channel.sent := by
  cases Channel.close_step closed <;> exact ⟨rfl,rfl⟩

theorem Greeted.goto (g : Greeted env c h writer wire) (bytes : h'.msgJSONBytes = h.msgJSONBytes)
    (began : 0 < h.pc.rank) (second : 2 < h'.pc.rank ↔ 2 < h.pc.rank)
    (fourth : h'.pc.rank ≤ 4 → h.pc.rank ≤ 4) : Greeted env c h' writer wire where
  silent := fun low => g.silent (by omega)
  opened := fun high => by rw [bytes]; exact g.opened (second.mp high)
  idle := fun low => g.idle (fourth low)
  connect := fun _ => by rw [bytes]; exact g.connect began

/-- The writer goroutine and the error reply write after the greeting. -/
theorem Greeted.write (g : Greeted env c h writer wire) (late : 4 < h.pc.rank)
    (later : 4 < h'.pc.rank) (bytes : h'.msgJSONBytes = h.msgJSONBytes)
    (w : Written) (other : ∀ item, w ≠ .direct item) :
    Greeted env c h' writer' (wire ++ [w]) where
  silent := by omega
  opened := by
    intro _
    obtain ⟨rest,eq,indirect⟩ := g.opened (by omega)
    refine ⟨rest ++ [w],by rw [eq,bytes]; rfl,?_⟩
    intro item member
    rcases List.mem_append.mp member with old | new
    · exact indirect item old
    · exact other item (List.mem_singleton.mp new).symm
  idle := by omega
  connect := fun _ => by rw [bytes]; exact g.connect (by omega)

theorem Greeted.running (g : Greeted env c h writer wire) (started : writer ≠ .absent) :
    Greeted env c h writer' wire where
  silent := g.silent
  opened := g.opened
  idle := fun low => absurd (g.idle low) started
  connect := g.connect

theorem Greeted.late (g : Greeted env c h writer wire) (running : writer ≠ .absent) :
    4 < h.pc.rank := by
  by_contra low
  exact running (g.idle (by omega))

theorem move_greeted (moved : Move env s e next)
    (greeted : ∀ c, Greeted env c (s.handlers c) (s.writers c) (s.wire c)) :
    ∀ c, Greeted env c (next.handlers c) (next.writers c) (next.wire c) := by
  have handler := fun d h here => replace_forall
    (R := fun c h => Greeted env c h (s.writers c) (s.wire c)) (a := d) (b := h) greeted here
  have writer := fun d w here => replace_forall
    (R := fun c w => Greeted env c (s.handlers c) w (s.wire c)) (a := d) (b := w) greeted here
  cases moved with
  | accept d now at_ =>
    have g := greeted d
    apply handler d
    exact ⟨fun _ => g.silent (by simp [at_]),by simp,fun _ => g.idle (by simp [at_]),
      fun _ => ⟨now,rfl⟩⟩
  | broadcasted d now at_ =>
    exact handler d _ ((greeted d).goto rfl (by simp [at_]) (by simp [at_]) (by simp [at_]))
  | write d now at_ =>
    intro c
    have g := greeted c
    by_cases same : c = d
    · subst same
      have empty := g.silent (by simp [at_])
      have idle := g.idle (by simp [at_])
      have connect := g.connect (by simp [at_])
      constructor <;> simp [empty,idle,connect]
    · simpa [same] using g
  | store d now at_ =>
    exact handler d _ ((greeted d).goto rfl (by simp [at_]) (by simp [at_]) (by simp [at_]))
  | startWriter d now at_ =>
    intro c
    have g := greeted c
    by_cases same : c = d
    · subst same
      have opened := g.opened (by simp [at_])
      have connect := g.connect (by simp [at_])
      constructor <;> simp [opened,connect]
    · simpa [same] using g
  | chat d payload now msg at_ =>
    exact handler d _ ((greeted d).goto rfl (by simp [at_]) (by simp [at_]) (by simp [at_]))
  | leave d incoming now msg pc at_ out =>
    apply handler d
    rcases out with rfl | rfl <;>
      exact (greeted d).goto rfl (by simp [at_]) (by simp [at_]) (by simp [at_])
  | reply d now text at_ =>
    intro c
    have g := greeted c
    by_cases same : c = d
    · subst same
      simp only [State.goto,State.write,replace_same]
      apply g.write
      · simp [at_]
      · simp
      · rfl
      · simp
    · simpa [same] using g
  | announce d now at_ =>
    exact handler d _ ((greeted d).goto rfl (by simp [at_]) (by simp [at_]) (by simp [at_]))
  | close d now pc after ch at_ closed =>
    have low : 8 ≤ pc.rank := by cases pc <;> simp
    have ranks := close_rank closed
    apply handler d
    apply (greeted d).goto
    · rfl
    all_goals simp only [at_,rank_closing]; omega
  | delete d now at_ =>
    exact handler d _ ((greeted d).goto rfl (by simp [at_]) (by simp [at_]) (by simp [at_]))
  | pop d item rest at_ | drain d at_ =>
    exact writer d _ ((greeted d).running (by simp [at_]))
  | forward d item at_ =>
    intro c
    have g := greeted c
    by_cases same : c = d
    · subst same
      have late := g.late (by simp [at_])
      simp only [State.setWriter,State.write,replace_same]
      exact g.write late late rfl (.forwarded item) (by simp)
    · simpa [same] using g
  | range | visit | send | finish => exact greeted

theorem move_flow (moved : Move env s e next)
    (greeted : ∀ c, Greeted env c (s.handlers c) (s.writers c) (s.wire c))
    (flow : ∀ c, Flow (s.channels c) (s.writers c) (s.wire c)) :
    ∀ c, Flow (next.channels c) (next.writers c) (next.wire c) := by
  have wire := fun d w here => replace_forall
    (R := fun c (w : List Written) => Flow (s.channels c) (s.writers c) w) (a := d) (b := w) flow here
  have channel := fun d ch here => replace_forall
    (R := fun c ch => Flow ch (s.writers c) (s.wire c)) (a := d) (b := ch) flow here
  have writer := fun d w here => replace_forall
    (R := fun c w => Flow (s.channels c) w (s.wire c)) (a := d) (b := w) flow here
  cases moved with
  | write d | reply d =>
    have before := flow d
    exact wire d _ (by simpa [Flow] using before)
  | close d now pc after ch at_ closed =>
    have before := flow d
    obtain ⟨buffer,sent⟩ := close_flow closed
    exact channel d ch (by rw [Flow,buffer,sent]; exact before)
  | send o y text range pc after ch ranging sent =>
    have before := flow y
    obtain ⟨more,buffer,all⟩ := send_flow sent
    exact channel y ch (by rw [Flow,buffer,all,← List.append_assoc]; rw [before])
  | startWriter d now at_ =>
    have before := flow d
    have idle := (greeted d).idle (by simp [at_])
    exact writer d _ (by simpa [Flow,idle,WriterPc.pending] using before)
  | pop d item rest at_ full =>
    intro c
    have before := flow c
    by_cases same : c = d
    · subst same
      simpa [Flow,at_,full,WriterPc.pending] using before
    · simpa [same] using before
  | drain d at_ empty shut =>
    have before := flow d
    exact writer d _ (by simpa [Flow,at_,WriterPc.pending] using before)
  | forward d item at_ =>
    intro c
    have before := flow c
    by_cases same : c = d
    · subst same
      simpa [Flow,at_,WriterPc.pending] using before
    · simpa [same] using before
  | accept | broadcasted | store | chat | leave | announce | delete | range | visit | finish =>
    exact flow

section Covered

/-- The `Range` call has seen `y` in the map all the time, or has ended. -/
def Task.Covers (y : Conn) : Task → Prop
  | .ranging _ range _ => y ∈ range.must
  | .done => True
  | .absent | .spawned _ => False

theorem move_covers (moved : Move env s e next) (sound : Sound env s)
    (covers : (s.tasks o).Covers y) (stored : y ∈ next.clients.map Prod.snd) :
    (next.tasks o).Covers y := by
  -- `o` has been launched, and is not launched again
  have launch : ∀ c k t, (s.handlers c).launched k = false → (replace s.tasks ⟨c,k⟩ t o).Covers y := by
    intro c k t fresh
    by_cases same : o = ⟨c,k⟩
    · have absent := ((sound.launches c).absent k).mpr fresh
      rw [same,absent] at covers
      exact covers.elim
    · simpa [same] using covers
  have task : ∀ o' t, ((s.tasks o').Covers y → t.Covers y) → (replace s.tasks o' t o).Covers y := by
    intro o' t kept
    by_cases same : o = o'
    · subst same; simpa using kept covers
    · simpa [same] using covers
  cases moved with
  | accept c now at_ => exact launch c .connect _ (by simp [Handler.launched,at_])
  | chat c payload now msg at_ => exact launch c (.chat _) _ (by simp [Handler.launched])
  | announce c now at_ => exact launch c .disconnect _ (by simp [Handler.launched,at_])
  | store c =>
    simp only [State.goto,State.store]
    cases ranging : s.tasks o <;> rw [ranging] at covers <;> exact covers
  | delete c =>
    have other := ((sound.mapped.mem_filter c y).mp stored).2
    simp only [State.goto,State.delete]
    cases ranging : s.tasks o with
    | ranging text range sending =>
      rw [ranging] at covers
      exact List.mem_filter.mpr ⟨covers,by simpa using other⟩
    | done => trivial
    | absent | spawned => rw [ranging] at covers; exact covers
  | range o' text spawned => exact task o' _ (by rw [spawned]; exact False.elim)
  | visit o' z text range ranging | send o' z text range pc after ch ranging =>
    exact task o' _ (by rw [ranging]; exact id)
  | finish o' => exact task o' _ (fun _ => trivial)
  | broadcasted | write | startWriter | leave | reply | close | pop | drain | forward => exact covers

/-- The channel of `y` is in the map under its uuid, and not closed. -/
def State.Listening (env : Env) (s : State) (y : Conn) : Prop :=
  (env.uuid y,y) ∈ s.clients ∧ (s.channels y).closed = false

theorem State.Listening.stored (listening : State.Listening env s y) : y ∈ s.clients.map Prod.snd :=
  List.mem_map_of_mem listening.1

/-- From the start of the `Range` call on, as long as `y` listens. -/
theorem during_covers (during : List Event)
    (listening : ∀ part rest u, during = part ++ rest →
      (machine env).Reaches (before ++ .range o :: part) u → u.Listening env y)
    (reached : (machine env).Reaches (before ++ .range o :: during) s) : (s.tasks o).Covers y := by
  induction during using List.reverseRecOn generalizing s with
  | nil =>
    have stored := (listening [] [] s rfl reached).stored
    obtain ⟨middle,-,stepped⟩ := ((machine env).reaches_concat before (.range o) s).mp reached
    cases step_move env middle s (.range o) stepped with
    | range o text spawned => simpa [Task.Covers] using stored
  | append_singleton during e ih =>
    have split : before ++ .range o :: (during ++ [e]) = (before ++ .range o :: during) ++ [e] := by
      simp
    rw [split] at reached
    obtain ⟨middle,inside,stepped⟩ := ((machine env).reaches_concat _ e s).mp reached
    have stored := (listening (during ++ [e]) [] s (by simp) (split ▸ reached)).stored
    apply move_covers (step_move env middle s e stepped) (reaches_sound inside) _ stored
    apply ih _ inside
    intro part rest u eq at_
    exact listening part (rest ++ [e]) u (by rw [eq]; simp) at_

theorem move_sent_front (moved : Move env s e next) (y : Conn) :
    (s.channels y).sent <+: (next.channels y).sent := by
  rcases move_sent moved y with same | ⟨o,text,range,-,-,grown⟩
  · rw [same]
  · rw [grown]; exact List.prefix_append _ _

theorem count_origins (o : Origin) (items : List Item) :
    (items.filter fun item => item.origin = o).length = (origins items).count o := by
  rw [origins,List.count_eq_countP,List.countP_map,List.countP_eq_length_filter]
  rfl

/-- Once a broadcast has been sent to a channel, it is there once, with its own text. -/
theorem sent_once (reached : (machine env).Reaches es s)
    (some_ : 1 ≤ (origins (s.channels y).sent).count o) :
    ∃ text, ⟨o,text⟩ ∈ s.launched ∧
      (s.channels y).sent.filter (fun item => item.origin = o) = [⟨o,text⟩] := by
  have sound := reaches_sound reached
  have once := (sound.pairs o y).once
  rw [← count_origins] at some_ once
  obtain ⟨item,single⟩ := List.length_eq_one_iff.mp (Nat.le_antisymm once some_)
  have inside : item ∈ (s.channels y).sent.filter fun item => item.origin = o := by rw [single]; simp
  obtain ⟨member,named⟩ := List.mem_filter.mp inside
  have named : item.origin = o := by simpa using named
  refine ⟨item.text,?_,?_⟩
  · rw [← named]; exact sound.genuine.sent y item member
  · rw [single,← named]

theorem covered_sent (before during after : List Event)
    (listening : ∀ part rest u, during = part ++ rest →
      (machine env).Reaches (before ++ .range o :: part) u → u.Listening env y)
    (reached : (machine env).Reaches (before ++ .range o :: during ++ .finish o :: after) s) :
    ∃ text, ⟨o,text⟩ ∈ s.launched ∧
      (s.channels y).sent.filter (fun item => item.origin = o) = [⟨o,text⟩] := by
  apply sent_once reached
  have split : before ++ .range o :: during ++ .finish o :: after =
      (before ++ .range o :: during ++ [.finish o]) ++ after := by simp
  rw [split] at reached
  obtain ⟨finished,until_,ran⟩ := ((machine env).reaches_append _ after s).mp reached
  obtain ⟨last,inside,stepped⟩ := ((machine env).reaches_concat _ (.finish o) finished).mp until_
  have covers := during_covers during listening inside
  have opened := (listening during [] last (by simp) inside).2
  have sound := reaches_sound inside
  have moved := step_move env last finished (.finish o) stepped
  apply (machine env).run_invariant (fun s => 1 ≤ (origins (s.channels y).sent).count o) _ _ ran
  · intro s e next has stepped
    have grown := (move_sent_front (step_move env s next e stepped) y).map Item.origin
    exact Nat.le_trans has (grown.sublist.count_le o)
  · cases moved with
    | finish o text range ranging complete =>
      rw [ranging] at covers
      have passed : (last.tasks o).Passed y := by
        rw [ranging]
        exact ⟨complete y covers,by simp⟩
      exact Nat.le_of_eq ((sound.pairs o y).passed passed opened).symm

end Covered

/-- What holds of client `y` after the schedule `es`. -/
structure Delivered (env : Env) (es : List Event) (s : State) (y : Conn) : Prop where
  first : s.wire y = [] ∨ ∃ now rest, s.wire y =
      .direct ⟨⟨y,.connect⟩,marshal env.lib (newSystemMessage .connect (env.uuid y) now)⟩ :: rest ∧
    ∀ w ∈ rest, w.origin? ≠ some ⟨y,.connect⟩
  covered : ∀ o before during after, es = before ++ .range o :: during ++ .finish o :: after →
    (∀ part rest u, during = part ++ rest →
      (machine env).Reaches (before ++ .range o :: part) u → u.Listening env y) →
    ∃ text, ⟨o,text⟩ ∈ s.launched ∧
      (s.channels y).sent.filter (fun item => item.origin = o) = [⟨o,text⟩]
  forwarded : forwarded (s.wire y) <+: (s.channels y).sent
  gone : (s.handlers y).pc = .returned → env.uuid y ∉ s.clients.map Prod.fst ∧
    (origins s.launched).count ⟨y,.disconnect⟩ = 1

theorem reaches_streams (reached : (machine env).Reaches es s) :
    (∀ c, Greeted env c (s.handlers c) (s.writers c) (s.wire c)) ∧
      ∀ c, Flow (s.channels c) (s.writers c) (s.wire c) := by
  apply (machine env).invariant (fun s =>
    (∀ c, Greeted env c (s.handlers c) (s.writers c) (s.wire c)) ∧
      ∀ c, Flow (s.channels c) (s.writers c) (s.wire c)) _ _ reached
  · constructor
    · intro c
      constructor <;> simp [machine,start]
    · intro c
      rfl
  · intro s e next streams stepped
    have moved := step_move env s next e stepped
    exact ⟨move_greeted moved streams.1,move_flow moved streams.1 streams.2⟩

theorem forwarded_front (reached : (machine env).Reaches es s) (y : Conn) :
    forwarded (s.wire y) <+: (s.channels y).sent := by
  have flow := (reaches_streams reached).2 y
  rw [← flow,List.append_assoc]
  exact List.prefix_append _ _

theorem first_written (reached : (machine env).Reaches es s) (y : Conn) :
    s.wire y = [] ∨ ∃ now rest, s.wire y =
      .direct ⟨⟨y,.connect⟩,marshal env.lib (newSystemMessage .connect (env.uuid y) now)⟩ :: rest ∧
    ∀ w ∈ rest, w.origin? ≠ some ⟨y,.connect⟩ := by
  have greeted := (reaches_streams reached).1 y
  by_cases late : 2 < (s.handlers y).pc.rank
  · obtain ⟨rest,eq,indirect⟩ := greeted.opened late
    obtain ⟨now,bytes⟩ := greeted.connect (by omega)
    refine .inr ⟨now,rest,by rw [eq,bytes],?_⟩
    intro w member mine
    cases w with
    | direct item => exact indirect item member
    | forwarded item =>
      have sent : item ∈ (s.channels y).sent := by
        apply (forwarded_front reached y).subset
        rw [mem_forwarded,eq]
        exact List.mem_cons_of_mem _ member
      have own : item.origin = ⟨y,.connect⟩ := Option.some.inj mine
      exact own_connect_unsent reached y (List.mem_map.mpr ⟨item,sent,own⟩)
    | reply text => contradiction
  · exact .inl (greeted.silent (by omega))

theorem returned_gone (reached : (machine env).Reaches es s) (y : Conn)
    (returned : (s.handlers y).pc = .returned) : env.uuid y ∉ s.clients.map Prod.fst ∧
      (origins s.launched).count ⟨y,.disconnect⟩ = 1 := by
  have sound := reaches_sound reached
  constructor
  · intro member
    obtain ⟨client,inside,named⟩ := List.mem_map.mp member
    have mine := (sound.mapped.key inside).mp named
    have stored := (sound.mapped.stored y).mp (List.mem_map.mpr ⟨client,inside,mine⟩)
    simp [HandlerPc.Stored,returned] at stored
  · rw [(sound.launches y).counted .disconnect]
    simp [Handler.launched,returned]

/-- Every client, after every schedule. -/
theorem join_and_delivery (env : Env) (es : List Event) (s : State) (y : Conn)
    (reached : (machine env).Reaches es s) : Delivered env es s y where
  first := first_written reached y
  covered := by
    rintro o before during after rfl listening
    exact covered_sent before during after listening reached
  forwarded := forwarded_front reached y
  gone := returned_gone reached y

/-- One round of a `Range` call: the `Send` to `y` with room in its channel. -/
def deliverTo (o : Origin) (y : Conn) : List Event := .visit o y :: List.replicate 4 (.send o)

/-- A whole `Range` call that visits `ys`. -/
def deliver (o : Origin) (ys : List Conn) : List Event :=
  .range o :: ys.flatMap (deliverTo o) ++ [.finish o]

/-- The handler of `c` up to its receive loop, with the clients `ys` there. -/
def enter (c : Conn) (ys : List Conn) (now : Int64) : List Event :=
  .accept c now :: deliver ⟨c,.connect⟩ ys ++ List.replicate 4 (.handle c now)

def join (c : Conn) (ys : List Conn) : List Event := enter c ys 1

/-- Client 0 hears client 1 come, and leaves. -/
def meeting : List Event :=
  [join 0 [],join 1 [0],[.writer 0,.writer 0,.receive 0 .eof 2],List.replicate 7 (.handle 0 3)].flatten

theorem meeting_runs : ((machine .numbered).run meeting start).any (fun s =>
    decide ((s.handlers 0).pc = .returned) && decide ((s.wire 0).length = 2)) = true := by
  decide +kernel

theorem meeting_delivered : ∃ s, (machine .numbered).Reaches meeting s ∧
    Delivered .numbered meeting s 0 ∧ (s.handlers 0).pc = .returned ∧ (s.wire 0).length = 2 := by
  obtain ⟨s,ran,checked⟩ := (Option.any_eq_true _ _).mp meeting_runs
  simp only [Bool.and_eq_true,decide_eq_true_eq] at checked
  exact ⟨s,ran,join_and_delivery .numbered meeting s 0 ran,checked⟩

end Wschat.Go
