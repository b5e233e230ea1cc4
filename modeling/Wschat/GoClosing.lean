import Wschat.GoDelivery

/-! A handler of the Go server that has left its receive loop can always return: what keeps
its `Close` waiting is a `Send` in progress, and the writer goroutine makes room for it. -/
namespace Wschat.Go

/-- The channel and the goroutine that empties it. -/
structure Served (h : Handler) (channel : Channel Origin Item) (writer : WriterPc) : Prop where
  capacity : channel.capacity = 50
  bounded : channel.buffer.length ≤ channel.capacity
  started : 4 < h.pc.rank → writer ≠ .absent
  drained : writer = .done → channel.shut = true

theorem send_served {channel channel' : Channel Origin Item}
    (sent : channel.send o item pc = some (channel',next)) (served : Served h channel writer) :
    Served h channel' writer := by
  obtain ⟨capacity,bounded,started,drained⟩ := served
  cases Channel.send_step sent with
  | push unshut room => exact ⟨capacity,by simpa using room,started,drained⟩
  | rLock | skip | proceed | panic | rUnlock => exact ⟨capacity,bounded,started,drained⟩

theorem close_served {channel channel' : Channel Origin Item}
    (closed : channel.close pc = some (channel',next)) (served : Served h channel writer)
    (started : 4 < h'.pc.rank → writer ≠ .absent) : Served h' channel' writer := by
  obtain ⟨capacity,bounded,-,drained⟩ := served
  cases Channel.close_step closed with
  | shut => exact ⟨capacity,bounded,started,fun _ => rfl⟩
  | swap | swapAgain | lock | acquire | panic | unlock => exact ⟨capacity,bounded,started,drained⟩

theorem move_served (moved : Move env s e next)
    (served : ∀ c, Served (s.handlers c) (s.channels c) (s.writers c)) :
    ∀ c, Served (next.handlers c) (next.channels c) (next.writers c) := by
  have handler : ∀ d h, (4 < h.pc.rank → 4 < (s.handlers d).pc.rank) →
      ∀ c, Served (replace s.handlers d h c) (s.channels c) (s.writers c) := by
    intro d h early
    apply replace_forall (R := fun c h => Served h (s.channels c) (s.writers c)) served
    have before := served d
    exact ⟨before.capacity,before.bounded,fun late => before.started (early late),before.drained⟩
  cases moved with
  | accept d now at_ | broadcasted d now at_ | write d now at_ | store d now at_ | reply d now text at_
  | announce d now at_ | delete d now at_ =>
    apply handler d
    simp [at_]
  | chat d => exact handler d _ id
  | leave d incoming now msg pc at_ out => exact handler d _ (by simp [at_])
  | startWriter d now at_ =>
    intro c
    by_cases same : c = d
    · subst same
      obtain ⟨capacity,bounded,-,-⟩ := served c
      simpa [State.goto,State.setWriter] using
        (⟨capacity,bounded,by simp,by simp⟩ : Served { s.handlers c with pc := .receiving }
          (s.channels c) .receiving)
    · simpa [State.goto,State.setWriter,same] using served c
  | close d now pc after ch at_ closed =>
    intro c
    by_cases same : c = d
    · subst same
      simp only [State.goto,State.setChannel,replace_same]
      apply close_served closed (served c)
      intro _
      apply (served c).started
      cases pc <;> simp [at_]
    · simpa [State.goto,State.setChannel,same] using served c
  | send o y text range pc after ch ranging sent =>
    exact replace_forall (R := fun c ch => Served (s.handlers c) ch (s.writers c)) served
      (send_served sent (served y))
  | pop d item rest at_ full =>
    intro c
    by_cases same : c = d
    · subst same
      obtain ⟨capacity,bounded,-,-⟩ := served c
      simp only [State.setWriter,State.setChannel,replace_same]
      rw [full,List.length_cons] at bounded
      exact ⟨capacity,Nat.le_of_succ_le bounded,by simp,by simp⟩
    · simpa [State.setWriter,State.setChannel,same] using served c
  | drain d at_ empty shut =>
    apply replace_forall (R := fun c w => Served (s.handlers c) (s.channels c) w) served
    exact ⟨(served d).capacity,(served d).bounded,by simp,fun _ => shut⟩
  | forward d item at_ =>
    apply replace_forall (R := fun c w => Served (s.handlers c) (s.channels c) w) served
    exact ⟨(served d).capacity,(served d).bounded,by simp,by simp⟩
  | range | visit | finish => exact served

theorem reaches_served (reached : (machine env).Reaches es s) :
    ∀ c, Served (s.handlers c) (s.channels c) (s.writers c) := by
  apply (machine env).invariant (fun s => ∀ c, Served (s.handlers c) (s.channels c) (s.writers c))
    _ _ reached
  · intro c
    constructor <;> simp [machine,start,newChannel]
  · intro s e next served stepped
    exact move_served (step_move env s next e stepped) served

/-- No step sends on a shut channel or shuts one twice. -/
theorem reaches_calm (reached : (machine env).Reaches es s) : s.panicked = false := by
  apply (machine env).reaches_induction (motive := fun _ s => s.panicked = false) _ _ reached
  · rfl
  · intro es s e next before calm stepped
    have sound := reaches_sound before
    cases step_move env s next e stepped with
    | close d now pc after ch at_ closed =>
      have flags := sound.flags d
      rw [at_] at flags
      exact decide_eq_false (flags.close closed).2
    | send o y text range pc after ch ranging sent =>
      have pair := sound.pairs o y
      have within := sound.within o
      rw [ranging] at pair within
      apply decide_eq_false
      apply (pair.own (within y pc rfl) _ sent).2
      intro still
      have flags := sound.flags y
      rw [flags.closed] at still
      rw [flags.shut]
      simp at still ⊢
      omega
    | accept | broadcasted | write | store | startWriter | chat | leave | reply | announce | delete
    | range | visit | finish | pop | drain | forward => exact calm

section Closing

/-- What is left of a `Send` that holds the lock. -/
def SendPc.weight : SendPc → Nat
  | .load => 3
  | .push => 2
  | .rUnlock => 1
  | .rLock | .returned | .panicked => 0

def Task.weight (t : Task) : Nat := (t.sending.map fun sending => sending.2.weight).getD 0

@[simp] theorem weight_load : SendPc.load.weight = 3 := rfl
@[simp] theorem weight_push : SendPc.push.weight = 2 := rfl
@[simp] theorem weight_rUnlock : SendPc.rUnlock.weight = 1 := rfl
@[simp] theorem weight_some (text : String) (range : Range) (y : Conn) (pc : SendPc) :
    (Task.ranging text range (some (y,pc))).weight = pc.weight := rfl
@[simp] theorem weight_none (text : String) (range : Range) :
    (Task.ranging text range none).weight = 0 := rfl

/-- The work before the readers have left the lock of `c`. A push fills the buffer, and the
writer goroutine takes two steps for each value in it. -/
def State.held (s : State) (c : Conn) : Nat :=
  3 * ((s.channels c).readers.map fun o => (s.tasks o).weight).sum +
    2 * (s.channels c).buffer.length + (s.writers c).pending.length

theorem sum_weight_other (o : Origin) (t : Task) (rest : List Origin) (absent : o ∉ rest)
    (tasks : Origin → Task) :
    (rest.map fun o' => (replace tasks o t o').weight).sum =
      (rest.map fun o' => (tasks o').weight).sum := by
  congr 1
  apply List.map_congr_left
  intro o' member
  have other : o' ≠ o := by
    rintro rfl
    exact absent member
  simp [other]

theorem send_leads (calm : s.panicked = false) (task : s.tasks o = .ranging text range (some (y,pc)))
    (sent : (s.channels y).send o ⟨o,text⟩ pc = some (channel,next)) :
    (machine env).Leads s { (s.setChannel y channel).setTask o
        (.ranging text range (if next = .returned then none else some (y,next))) with
      panicked := next = .panicked } :=
  .step _ (e := .send o) (by simp [machine,step,calm,task,sendStep,sent])

/-- The writer goroutine of `c` takes a value from a buffer that is not empty. -/
theorem pop_leads (calm : s.panicked = false) (served : Served h (s.channels c) (s.writers c))
    (late : 4 < h.pc.rank) (open_ : (s.channels c).shut = false)
    (full : (s.channels c).buffer ≠ []) :
    ∃ t, (machine env).Leads s t ∧ t.handlers = s.handlers ∧ t.held c < s.held c := by
  cases at_ : s.writers c with
  | absent => exact absurd at_ (served.started late)
  | done => simp [served.drained at_] at open_
  | writing item =>
    refine ⟨(s.write c (.forwarded item)).setWriter c .receiving,.step _ (e := .writer c) ?_,rfl,?_⟩
    · simp [machine,step,calm,writerStep,at_]
    · simp [State.held,State.setWriter,State.write,WriterPc.pending,at_]
  | receiving =>
    obtain ⟨item,rest,buffer⟩ := List.exists_cons_of_ne_nil full
    refine ⟨(s.setChannel c { s.channels c with buffer := rest }).setWriter c (.writing item),
      .step _ (e := .writer c) ?_,rfl,?_⟩
    · simp [machine,step,calm,writerStep,at_,Channel.receive,buffer]
    · simp [State.held,State.setWriter,State.setChannel,WriterPc.pending,at_,buffer]
      omega

/-- The first reader of a lock that `Close` waits for can be moved on, or the writer
goroutine can. -/
theorem held_down (reachable : (machine env).Reachable s) (at_ : (s.handlers c).pc = .closing .acquire)
    (readers : (s.channels c).readers = o :: rest) :
    ∃ t, (machine env).Leads s t ∧ t.handlers = s.handlers ∧ t.held c < s.held c := by
  obtain ⟨es,reached⟩ := reachable
  have sound := reaches_sound reached
  have calm := reaches_calm reached
  have served := reaches_served reached c
  have holding := (sound.pairs o c).holding
  have flags := sound.flags c
  have closed : (s.channels c).closed = true := by simpa [at_] using flags.closed
  have open_ : (s.channels c).shut = false := by simpa [at_] using flags.shut
  have absent : o ∉ rest := by
    intro member
    have twice := List.count_pos_iff.mpr member
    have atMost := Bool.toNat_le ((s.tasks o).holds c)
    simp only [readers,List.count_cons_self] at holding
    omega
  have inside : (s.tasks o).holds c = true := by
    rw [readers,List.count_cons_self] at holding
    cases held : (s.tasks o).holds c with
    | true => rfl
    | false => simp [held] at holding
  cases task : s.tasks o with
  | absent | spawned | done => simp [task,Task.holds,Task.sending] at inside
  | ranging text range sending =>
    cases sending with
    | none => simp [task,Task.holds,Task.sending] at inside
    | some sending =>
      obtain ⟨y,pc⟩ := sending
      simp only [task,Task.holds,Task.sending,Bool.and_eq_true,decide_eq_true_eq] at inside
      obtain ⟨rfl,holds⟩ := inside
      cases pc with
      | rLock | returned | panicked => contradiction
      | load =>
        refine ⟨_,send_leads calm task (by simp [Channel.send,closed]; exact ⟨rfl,rfl⟩),rfl,?_⟩
        simp [State.held,State.setTask,State.setChannel,readers,sum_weight_other _ _ _ absent,
          task]
      | rUnlock =>
        refine ⟨_,send_leads calm task (by simp [Channel.send]; exact ⟨rfl,rfl⟩),rfl,?_⟩
        simp [State.held,State.setTask,State.setChannel,readers,sum_weight_other _ _ _ absent,
          task]
      | push =>
        by_cases room : (s.channels y).buffer.length < (s.channels y).capacity
        · refine ⟨_,send_leads calm task (by simp [Channel.send,open_,room]; exact ⟨rfl,rfl⟩),rfl,?_⟩
          simp [State.held,State.setTask,State.setChannel,readers,sum_weight_other _ _ _ absent,
            task]
          omega
        · apply pop_leads calm served (by simp [at_]) open_
          intro empty
          simp [empty,served.capacity] at room

/-- `Close` gets the lock. -/
theorem acquire_leads (reachable : (machine env).Reachable s)
    (at_ : (s.handlers c).pc = .closing .acquire) :
    ∃ t, (machine env).Leads s t ∧ (t.handlers c).pc = .closing .acquire ∧
      (t.channels c).readers = [] := by
  apply (machine env).leads_to (fun s => s.held c) (fun s => (s.handlers c).pc = .closing .acquire)
    (fun s => (s.handlers c).pc = .closing .acquire ∧ (s.channels c).readers = []) _ s reachable at_
  intro s reachable at_ waiting
  obtain ⟨o,rest,readers⟩ := List.exists_cons_of_ne_nil fun none => waiting ⟨at_,none⟩
  obtain ⟨t,leads,same,less⟩ := held_down reachable at_ readers
  exact ⟨t,leads,by rw [same]; exact at_,less⟩

theorem close_leads (calm : s.panicked = false) (at_ : (s.handlers c).pc = .closing pc)
    (closed : (s.channels c).close pc = some (channel,next)) :
    ∃ t, (machine env).Leads s t ∧ (t.handlers c).pc = afterClose next :=
  ⟨_,.step _ (e := .handle c 0) (by simp [machine,step,handle,calm,at_,closed]; rfl),
    by simp⟩

/-- The next statement of a handler that has left its loop can be reached. -/
theorem rank_up (reachable : (machine env).Reachable s) (out : 5 < (s.handlers c).pc.rank)
    (going : (s.handlers c).pc ≠ .returned) :
    ∃ t, (machine env).Leads s t ∧ (s.handlers c).pc.rank < (t.handlers c).pc.rank := by
  obtain ⟨es,reached⟩ := reachable
  have calm := reaches_calm reached
  have flags := (reaches_sound reached).flags c
  cases at_ : (s.handlers c).pc with
  | absent | broadcasting | writing | storing | launching | receiving => simp [at_] at out
  | returned => exact absurd at_ going
  | replying | announcing | deleting =>
    refine ⟨_,.step _ (e := .handle c 0) (by simp [machine,step,handle,calm,at_]; rfl),?_⟩
    simp
  | closing pc =>
    obtain ⟨closed,waiting,writing,shut,steady,alone⟩ := flags
    rw [at_] at closed waiting writing shut steady
    cases pc with
    | returned | panicked => simp at steady
    | swap =>
      obtain ⟨t,leads,there⟩ := close_leads calm at_ (by simp [Channel.close]; exact ⟨rfl,rfl⟩)
      exact ⟨t,leads,by simp at closed; simp [there,closed,afterClose]⟩
    | lock =>
      simp at waiting writing
      obtain ⟨t,leads,there⟩ := close_leads calm at_
        (by simp [Channel.close,Channel.readable,waiting,writing]; exact ⟨rfl,rfl⟩)
      exact ⟨t,leads,by simp [there,afterClose]⟩
    | acquire =>
      obtain ⟨t,leads,there,free⟩ := acquire_leads ⟨es,reached⟩ at_
      obtain ⟨fs,further⟩ := reached.leads _ leads
      obtain ⟨u,closes,after⟩ := close_leads (reaches_calm further) there
        (by simp [Channel.close,free]; exact ⟨rfl,rfl⟩)
      exact ⟨u,leads.trans _ closes,by simp [after,afterClose]⟩
    | close =>
      simp at shut
      obtain ⟨t,leads,there⟩ := close_leads calm at_ (by simp [Channel.close,shut]; exact ⟨rfl,rfl⟩)
      exact ⟨t,leads,by simp [there,afterClose]⟩
    | unlock =>
      obtain ⟨t,leads,there⟩ := close_leads calm at_ (by simp [Channel.close]; exact ⟨rfl,rfl⟩)
      exact ⟨t,leads,by simp [there,afterClose]⟩

theorem rank_le (pc : HandlerPc) : pc.rank ≤ 15 := by
  cases pc with
  | closing pc => cases pc <;> simp
  | absent | broadcasting | writing | storing | launching | receiving | replying | announcing
  | deleting | returned => simp

/-- From wherever the schedule goes, a handler that has left its loop can return. -/
theorem returns (reachable : (machine env).Reachable s) (out : 5 < (s.handlers c).pc.rank) :
    ∃ t, (machine env).Leads s t ∧ (t.handlers c).pc = .returned := by
  apply (machine env).leads_to (fun s => 15 - (s.handlers c).pc.rank)
    (fun s => 5 < (s.handlers c).pc.rank) (fun s => (s.handlers c).pc = .returned) _ s reachable out
  intro s reachable out going
  obtain ⟨t,leads,more⟩ := rank_up reachable out going
  have bound := rank_le (t.handlers c).pc
  exact ⟨t,leads,by omega,by omega⟩

end Closing

end Wschat.Go
