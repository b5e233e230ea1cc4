import Wschat.GoCalls

/-! What a `Channel` guarantees under any calls: no panic, every value received once and in
order, and nothing sent by a call that starts after a `Close` has returned. -/
namespace Wschat.Go.Calls

/-- What has been sent is what has been received and what is buffered, each value by a call
of its own. -/
structure Flow (s : State α) : Prop where
  flow : s.received ++ s.channel.buffer = s.channel.sent
  sent : ∀ item ∈ s.channel.sent, ∃ pc, s.sends item.1 = some ⟨pc,item.2⟩ ∧ ¬pc.Before
  once : (s.channel.sent.map Prod.fst).Nodup
  ended : s.receiver = .ended → s.channel.shut = true ∧ s.channel.buffer = []

variable {s next : State α}

theorem start_flow (capacity : Nat) : Flow (start capacity : State α) := by
  constructor <;> simp [start,newChannel]

theorem Flow.sends (flow : Flow s) (i : Nat) (call : SendCall α)
    (later : ∀ pc, s.sends i = some ⟨pc,call.val⟩ → ¬pc.Before → ¬call.pc.Before)
    (same : ∀ old, s.sends i = some old → old.val = call.val)
    (item : Nat × α) (inside : item ∈ s.channel.sent) :
    ∃ pc, replace s.sends i (some call) item.1 = some ⟨pc,item.2⟩ ∧ ¬pc.Before := by
  obtain ⟨pc,at_,passed⟩ := flow.sent item inside
  by_cases mine : item.1 = i
  · rw [mine] at at_ ⊢
    have val : item.2 = call.val := same _ at_
    rw [val] at at_ ⊢
    exact ⟨call.pc,by simp,later pc at_ passed⟩
  · exact ⟨pc,by rw [replace_other _ _ _ _ mine]; exact at_,passed⟩

/-- The value of a call that is about to send it joins those that have been sent. -/
theorem Flow.push (flow : Flow s) (at_ : s.sends i = some ⟨.push,val⟩) :
    (∀ item ∈ s.channel.sent ++ [(i,val)],
      ∃ pc, replace s.sends i (some ⟨.rUnlock,val⟩) item.1 = some ⟨pc,item.2⟩ ∧ ¬pc.Before) ∧
    ((s.channel.sent ++ [(i,val)]).map Prod.fst).Nodup := by
  have unsent : i ∉ s.channel.sent.map Prod.fst := by
    intro inside
    obtain ⟨item,member,rfl⟩ := List.mem_map.mp inside
    obtain ⟨pc,there,passed⟩ := flow.sent item member
    obtain ⟨rfl,-⟩ := SendCall.mk.inj (Option.some.inj (at_.symm.trans there))
    exact passed trivial
  constructor
  · intro item inside
    rcases List.mem_append.mp inside with old | new
    · apply flow.sends i ⟨.rUnlock,val⟩ _ _ item old
      · intro _ _ _
        exact id
      · intro call there
        rw [← Option.some.inj (at_.symm.trans there)]
    · obtain rfl := List.mem_singleton.mp new
      exact ⟨.rUnlock,by simp,id⟩
  · rw [List.map_append,List.nodup_append]
    refine ⟨flow.once,by simp,?_⟩
    rintro a inside b here rfl
    obtain rfl : a = i := by simpa using here
    exact unsent inside

/-- A step of a call that sends nothing. -/
theorem Flow.quiet (flow : Flow s) (received : next.received = s.received)
    (buffer : next.channel.buffer = s.channel.buffer) (sent : next.channel.sent = s.channel.sent)
    (shut : s.channel.shut = true → next.channel.shut = true) (receiver : next.receiver = s.receiver)
    (sends : ∀ item ∈ s.channel.sent, ∃ pc, next.sends item.1 = some ⟨pc,item.2⟩ ∧ ¬pc.Before) :
    Flow next where
  flow := by rw [received,buffer,sent]; exact flow.flow
  sent := by rw [sent]; exact sends
  once := by rw [sent]; exact flow.once
  ended := by
    rw [receiver,buffer]
    exact fun ended => ⟨shut (flow.ended ended).1,(flow.ended ended).2⟩

theorem move_flow (flow : Flow s) (locks : Locks s) (moved : Move s e next) : Flow next := by
  have keep : ∀ i pc pc' val, s.sends i = some ⟨pc,val⟩ → (¬pc.Before → ¬pc'.Before) →
      ∀ item ∈ s.channel.sent,
        ∃ pc, replace s.sends i (some ⟨pc',val⟩) item.1 = some ⟨pc,item.2⟩ ∧ ¬pc.Before := by
    intro i pc pc' val at_ later
    apply flow.sends i ⟨pc',val⟩
    · intro pc'' there
      obtain ⟨rfl,-⟩ := SendCall.mk.inj (Option.some.inj (at_.symm.trans there))
      exact later
    · intro call there
      rw [← Option.some.inj (at_.symm.trans there)]
  cases moved with
  | send i val fresh =>
    refine flow.quiet rfl rfl rfl id rfl (flow.sends i ⟨.rLock,val⟩ ?_ ?_) <;> simp [fresh]
  | rLock i val at_ => exact flow.quiet rfl rfl rfl id rfl (keep i _ .load val at_ (by simp [SendPc.Before]))
  | load i val at_ => exact flow.quiet rfl rfl rfl id rfl (keep i _ _ val at_ (by simp [SendPc.Before]))
  | pushPanic i val next at_ shut => simp [locks.pushing i val at_] at shut
  | push i val at_ unshut =>
    obtain ⟨sent,once⟩ := flow.push at_
    refine ⟨?_,sent,once,?_⟩
    · simp only [← List.append_assoc,State.setSend,flow.flow]
    · intro ended
      simp [(flow.ended ended).1] at unshut
  | handOff i val at_ unshut empty =>
    obtain ⟨sent,once⟩ := flow.push at_
    refine ⟨?_,sent,once,?_⟩
    · have all := flow.flow
      rw [empty,List.append_nil] at all
      simp [State.setSend,State.take,empty,all]
    · intro ended
      simp [State.setSend,State.take] at ended
  | rUnlock i val at_ =>
    exact flow.quiet rfl rfl rfl id rfl (keep i _ .returned val at_ (fun _ => id))
  | close | swapAgain | swap | lock | acquire | unlock =>
    exact flow.quiet rfl rfl rfl id rfl flow.sent
  | closePanic j next at_ shut =>
    obtain ⟨owns,-,-⟩ := locks.closing.owner at_ (by simp) (by simp)
    simp [owns.shut] at shut
  | shut => exact flow.quiet rfl rfl rfl (fun _ => rfl) rfl flow.sent
  | take val rest waiting full =>
    refine ⟨?_,flow.sent,flow.once,?_⟩
    · have all := flow.flow
      rw [full] at all
      simpa [State.take] using all
    · intro ended
      simp [State.take] at ended
  | drained waiting empty shut => exact ⟨flow.flow,flow.sent,flow.once,fun _ => ⟨shut,empty⟩⟩
  | handled => exact ⟨flow.flow,flow.sent,flow.once,fun ended => by simp at ended⟩

theorem reaches_flow (reached : (machine α capacity).Reaches es s) : Flow s := by
  have both := (machine α capacity).invariant (fun s => Locks s ∧ Flow s)
    ⟨start_locks capacity,start_flow capacity⟩ ?_ reached
  · exact both.2
  · intro s e next ⟨locks,flow⟩ stepped
    have moved := step_move s next e stepped
    exact ⟨move_locks locks moved,move_flow flow locks moved⟩

/-- The event is one of the goroutine that ranges over the channel. -/
def Event.ofReceiver : Event α → Prop
  | .receive | .handled => True
  | _ => False

theorem receive_value (s : State α) (calm : s.panicked = false) (waiting : s.receiver = .receiving)
    (full : s.channel.buffer = val :: rest) :
    step s .receive = some (s.take { s.channel with buffer := rest } val) := by
  simp [step,calm,waiting,Channel.receive,full]

theorem handled_next (s : State α) (calm : s.panicked = false) (at_ : s.receiver = .handling val) :
    step s .handled = some { s with receiver := .receiving } := by
  simp [step,calm,at_]

/-- Left alone, the receiver takes what is buffered. -/
theorem drains (capacity : Nat) (s : State α) (calm : s.panicked = false)
    (running : s.receiver = .ended → s.channel.buffer = []) :
    ∃ es t, (∀ e ∈ es, e.ofReceiver) ∧ (machine α capacity).run es s = some t ∧
      t.received = s.received ++ s.channel.buffer := by
  obtain ⟨buffer,full⟩ : ∃ buffer, s.channel.buffer = buffer := ⟨_,rfl⟩
  induction buffer generalizing s with
  | nil => exact ⟨[],s,by simp,rfl,by simp [full]⟩
  | cons val rest ih =>
    have received (s : State α) (calm : s.panicked = false) (waiting : s.receiver = .receiving)
        (full : s.channel.buffer = val :: rest) :
        ∃ es t, (∀ e ∈ es, e.ofReceiver) ∧ (machine α capacity).run es s = some t ∧
          t.received = s.received ++ s.channel.buffer := by
      obtain ⟨es,t,mine,ran,all⟩ := ih (s.take { s.channel with buffer := rest } val) calm
        (by simp [State.take]) rfl
      refine ⟨.receive :: es,t,by simpa [Event.ofReceiver] using mine,?_,?_⟩
      · exact ((machine α capacity).run_cons _ _ _ _).mpr
          ⟨_,receive_value s calm waiting full,ran⟩
      · simp [all,State.take,full]
    cases at_ : s.receiver with
    | receiving => exact received s calm at_ full
    | handling held =>
      obtain ⟨es,t,mine,ran,all⟩ := received { s with receiver := .receiving } calm rfl full
      refine ⟨.handled :: es,t,by simpa [Event.ofReceiver] using mine,?_,all⟩
      exact ((machine α capacity).run_cons _ _ _ _).mpr ⟨_,handled_next s calm at_,ran⟩
    | ended =>
      have empty := running at_
      simp [full] at empty

/-- A call of `Send` on a channel whose flag is set does not come to send. -/
structure Late (i : Nat) (s : State α) : Prop where
  closed : s.channel.closed = true
  skips : ∀ call, s.sends i = some call → call.pc ≠ .push
  unsent : ∀ item ∈ s.channel.sent, item.1 ≠ i

theorem move_late (late : Late i s) (locks : Locks s) (moved : Move s e next) : Late i next := by
  obtain ⟨closed,skips,unsent⟩ := late
  have sender : ∀ k call', (k = i → call'.pc ≠ .push) →
      ∀ call, replace s.sends k (some call') i = some call → call.pc ≠ .push := by
    intro k call' mine call at_
    by_cases same : i = k
    · rw [← same,replace_same] at at_
      rw [← Option.some.inj at_]
      exact mine same.symm
    · rw [replace_other _ _ _ _ same] at at_
      exact skips call at_
  have more : ∀ k val, s.sends k = some ⟨.push,val⟩ →
      ∀ item ∈ s.channel.sent ++ [(k,val)], item.1 ≠ i := by
    intro k val at_ item inside
    rcases List.mem_append.mp inside with old | new
    · exact unsent item old
    · rw [List.mem_singleton.mp new]
      rintro rfl
      exact skips _ at_ rfl
  cases moved with
  | send k val | rLock k val | rUnlock k val => exact ⟨closed,sender k _ (by simp),unsent⟩
  | load k val at_ =>
    refine ⟨closed,sender k _ ?_,unsent⟩
    simp [closed]
  | push k val at_ | handOff k val at_ => exact ⟨closed,sender k _ (by simp),more k val at_⟩
  | pushPanic k val next at_ shut => simp [locks.pushing k val at_] at shut
  | closePanic j next at_ shut =>
    obtain ⟨owns,-,-⟩ := locks.closing.owner at_ (by simp) (by simp)
    simp [owns.shut] at shut
  | swap => exact ⟨rfl,skips,unsent⟩
  | close | swapAgain | lock | acquire | shut | unlock | take | drained | handled =>
    exact ⟨closed,skips,unsent⟩

/-- A `Close` that has returned has set the flag, or found it set. -/
theorem closed_of_returned (locks : Locks s) (returned : s.closes j = some .returned) :
    s.channel.closed = true := by
  cases locks.closing with
  | unset _ _ _ _ _ idle => simpa using idle j _ returned
  | owned k pc at_ owns => exact owns.closed

/-- What the calls and the receiver are promised along the schedule that ends in `s`. -/
structure Safe (capacity : Nat) (es : List (Event α)) (s : State α) : Prop where
  calm : s.panicked = false
  shutOnce : s.shutBy.length ≤ 1
  /-- What has been sent is received in its order or still buffered, once. -/
  inOrder : s.received ++ s.channel.buffer = s.channel.sent
  once : (s.channel.sent.map Prod.fst).Nodup
  sent : ∀ item ∈ s.channel.sent, ∃ pc, s.sends item.1 = some ⟨pc,item.2⟩
  /-- The loop ends with nothing left, and until then the receiver can take everything. -/
  ended : s.receiver = .ended → s.received = s.channel.sent
  drains : ∃ fs t, (∀ e ∈ fs, e.ofReceiver) ∧ (machine α capacity).run fs s = some t ∧
    t.received = s.channel.sent
  late : ∀ before i val after p j, es = before ++ .send i val :: after →
    (machine α capacity).Reaches before p → p.closes j = some .returned →
    ∀ item ∈ s.channel.sent, item.1 ≠ i

/-- A call of `Send` that starts after a `Close` has returned sends nothing. -/
theorem late_unsent (reached : (machine α capacity).Reaches (before ++ .send i val :: after) s)
    (first : (machine α capacity).Reaches before p) (returned : p.closes j = some .returned) :
    ∀ item ∈ s.channel.sent, item.1 ≠ i := by
  obtain ⟨middle,arrived,rest⟩ := ((machine α capacity).reaches_append before _ s).mp reached
  obtain rfl := arrived.unique _ first
  obtain ⟨next,stepped,rest⟩ := ((machine α capacity).run_cons _ after middle s).mp rest
  have locks := reaches_locks first
  have flow := reaches_flow first
  have closed := closed_of_returned locks returned
  have moved := step_move middle next (.send i val) stepped
  cases moved with
  | send _ _ fresh =>
    have late : Late i (middle.setSend i ⟨.rLock,val⟩) := by
      refine ⟨closed,?_,?_⟩
      · intro call at_
        rw [← Option.some.inj ((replace_same _ _ _).symm.trans at_)]
        simp
      · rintro item inside rfl
        obtain ⟨pc,there,-⟩ := flow.sent item inside
        simp [fresh] at there
    have both := (machine α capacity).run_invariant (fun s => Locks s ∧ Late i s)
      (fun s e next ⟨locks,late⟩ stepped =>
        have moved := step_move s next e stepped
        ⟨move_locks locks moved,move_late late locks moved⟩)
      ⟨move_locks locks (.send i val fresh),late⟩ rest
    exact both.2.unsent

theorem shutBy_length (locks : Locks s) : s.shutBy.length ≤ 1 := by
  cases locks.closing with
  | unset _ _ _ _ by_ => simp [by_]
  | owned j pc at_ owns by_ =>
    rw [by_]
    split <;> simp

theorem channel_safe (capacity : Nat) (es : List (Event α)) (s : State α)
    (reached : (machine α capacity).Reaches es s) : Safe capacity es s := by
  have locks := reaches_locks reached
  have flow := reaches_flow reached
  obtain ⟨fs,t,mine,ran,all⟩ := drains capacity s locks.calm fun ended => (flow.ended ended).2
  constructor
  · exact locks.calm
  · exact shutBy_length locks
  · exact flow.flow
  · exact flow.once
  · intro item inside
    obtain ⟨pc,at_,-⟩ := flow.sent item inside
    exact ⟨pc,at_⟩
  · intro ended
    have whole := flow.flow
    rwa [(flow.ended ended).2,List.append_nil] at whole
  · exact ⟨fs,t,mine,ran,all.trans flow.flow⟩
  · rintro before i val after p j rfl first returned
    exact late_unsent reached first returned

/-- A buffered value outlives a `Close`, and a later call sends nothing. -/
def parting : List (Event Char) :=
  [.send 0 'a',.sending 0,.sending 0,.sending 0,.sending 0] ++
    [.close 0,.closing 0,.closing 0,.closing 0,.closing 0,.closing 0] ++
    [.send 1 'b',.sending 1,.sending 1,.sending 1,.receive,.handled,.receive]

theorem parting_runs : ((machine Char 1).run parting (start 1)).any (fun s =>
    decide (s.received = [(0,'a')]) && decide (s.shutBy = [0])) = true := by decide +kernel

theorem parting_safe : ∃ s, (machine Char 1).Reaches parting s ∧ Safe 1 parting s ∧
    s.received = [(0,'a')] ∧ s.shutBy = [0] := by
  obtain ⟨s,ran,ends⟩ := (Option.any_eq_true _ _).mp parting_runs
  simp only [Bool.and_eq_true,decide_eq_true_eq] at ends
  exact ⟨s,ran,channel_safe 1 parting s ran,ends⟩

end Wschat.Go.Calls
