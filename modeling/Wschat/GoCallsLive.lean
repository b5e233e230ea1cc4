import Wschat.GoCallsSafe

/-! A `Channel` never gets stuck: a sender that holds the read lock waits only for the
receiver, which needs no lock, and a `Close` waits only for such senders. -/
namespace Wschat.Go.Calls

variable {s next : State α}

/-- The event starts no call. -/
def Event.continues : Event α → Prop
  | .send _ _ | .close _ => False
  | .sending _ | .closing _ | .handOff _ | .receive | .handled => True

/-- A sender, a closer or the receiver can go on. -/
def Progress (s : State α) : Prop := ∃ e next, e.continues ∧ step s e = some next

/-- Some call has started and not returned. -/
def Pending (s : State α) : Prop :=
  (∃ i call, s.sends i = some call ∧ call.pc ≠ .returned) ∨
    ∃ j pc, s.closes j = some pc ∧ pc ≠ .returned

theorem sending_progress (calm : s.panicked = false) (at_ : s.sends i = some ⟨pc,val⟩)
    (free : (s.channel.send i (i,val) pc).isSome = true) : Progress s := by
  obtain ⟨after,sent⟩ := Option.isSome_iff_exists.mp free
  exact ⟨.sending i,_,trivial,by simp [step,calm,at_,sent]; rfl⟩

theorem closing_progress (calm : s.panicked = false) (at_ : s.closes j = some pc)
    (free : (s.channel.close pc).isSome = true) : Progress s := by
  obtain ⟨after,closed⟩ := Option.isSome_iff_exists.mp free
  exact ⟨.closing j,_,trivial,by simp [step,calm,at_,closed]; rfl⟩

/-- While nobody holds the read lock the calls make progress among themselves. -/
theorem unread_progress (locks : Locks s) (unread : s.channel.readers = []) (pending : Pending s) :
    Progress s := by
  have swapping : ∀ j, s.closes j = some .swap → Progress s := fun j at_ =>
    closing_progress locks.calm at_ rfl
  have entering : s.channel.readable = true → ∀ i call, s.sends i = some call →
      call.pc ≠ .returned → Progress s := by
    rintro free i ⟨pc,val⟩ at_ unreturned
    have outside : ¬pc.holds = true := by
      rw [← locks.mem at_,unread]
      exact List.not_mem_nil
    have going := locks.going i _ at_
    cases pc with
    | rLock => exact sending_progress locks.calm at_ (by simp [Channel.send,free])
    | load | push | rUnlock => exact absurd rfl outside
    | returned => exact absurd rfl unreturned
    | panicked => exact absurd rfl going
  cases locks.closing with
  | unset _ waiting writing _ _ idle =>
    rcases pending with ⟨i,call,at_,unreturned⟩ | ⟨j,pc,at_,-⟩
    · exact entering (by simp [Channel.readable,waiting,writing]) i call at_ unreturned
    · exact swapping j (by rw [at_,idle j pc at_])
  | owned k pc' there owns by_ others =>
    cases pc' with
    | swap => exact absurd rfl owns.begun
    | panicked => exact absurd rfl owns.going
    | lock =>
      have free : s.channel.readable = true := by
        simp [Channel.readable,owns.waiting,owns.writing]
      exact closing_progress locks.calm there (by simp [Channel.close,free])
    | acquire => exact closing_progress locks.calm there (by simp [Channel.close,unread])
    | close => exact closing_progress locks.calm there (by simp [Channel.close,owns.shut])
    | unlock => exact closing_progress locks.calm there rfl
    | returned =>
      rcases pending with ⟨i,call,at_,unreturned⟩ | ⟨j,pc,at_,unreturned⟩
      · exact entering (by simp [Channel.readable,owns.waiting,owns.writing]) i call at_ unreturned
      · have different : j ≠ k := by
          rintro rfl
          exact unreturned (Option.some.inj (at_.symm.trans there))
        rcases others j pc different at_ with rfl | rfl
        · exact swapping j at_
        · contradiction

/-- The receiver makes room for a sender that waits for it. -/
theorem receiver_progress (locks : Locks s) (flow : Flow s) (at_ : s.sends i = some ⟨.push,val⟩) :
    Progress s := by
  have unshut := locks.pushing i val at_
  cases receiver : s.receiver with
  | handling held => exact ⟨.handled,_,trivial,handled_next s locks.calm receiver⟩
  | ended => simp [(flow.ended receiver).1] at unshut
  | receiving =>
    cases buffer : s.channel.buffer with
    | nil => exact ⟨.handOff i,_,trivial,by simp [step,locks.calm,at_,receiver,unshut,buffer]; rfl⟩
    | cons first rest => exact ⟨.receive,_,trivial,receive_value s locks.calm receiver buffer⟩

theorem pending_progress (locks : Locks s) (flow : Flow s) (pending : Pending s) : Progress s := by
  cases readers : s.channel.readers with
  | nil => exact unread_progress locks readers pending
  | cons i rest =>
    obtain ⟨⟨pc,val⟩,at_,holds⟩ := (locks.readers i).mp (by simp [readers])
    cases pc with
    | load => exact sending_progress locks.calm at_ rfl
    | push => exact receiver_progress locks flow at_
    | rUnlock => exact sending_progress locks.calm at_ rfl
    | rLock | returned | panicked => simp [SendPc.holds] at holds

/-- The channel is shut and empty. -/
def Spent (s : State α) : Prop := s.channel.shut = true ∧ s.channel.buffer = []

theorem move_spent (spent : Spent s) (locks : Locks s) (moved : Move s e next) : Spent next := by
  obtain ⟨shut,empty⟩ := spent
  cases moved with
  | pushPanic i val next at_ | push i val at_ | handOff i val at_ =>
    simp [locks.pushing i val at_] at shut
  | closePanic j next at_ =>
    obtain ⟨owns,-,-⟩ := locks.closing.owner at_ (by simp) (by simp)
    simp [owns.shut] at shut
  | take val rest _ full => simp [empty] at full
  | shut => exact ⟨rfl,empty⟩
  | send | rLock | load | rUnlock | close | swapAgain | swap | lock | acquire | unlock | drained
  | handled => exact ⟨shut,empty⟩

/-- The loop is over, or its next receive is its last, or it is about to receive. -/
inductive Ending (s : State α) : Prop where
  | over : s.receiver = .ended → Ending s
  | last : s.receiver = .receiving → step s .receive = some { s with receiver := .ended } → Ending s
  | body (val : Nat × α) : s.receiver = .handling val →
      step s .handled = some { s with receiver := .receiving } → Ending s

theorem spent_ending (spent : Spent s) (locks : Locks s) : Ending s := by
  cases receiver : s.receiver with
  | ended => exact .over receiver
  | receiving =>
    exact .last receiver
      (by simp [step,locks.calm,receiver,Channel.receive,spent.1,spent.2])
  | handling val => exact .body val receiver (handled_next s locks.calm receiver)

/-- What is promised to the calls and to the receiver at every point of a run. -/
structure Live (capacity : Nat) (s : State α) : Prop where
  progress : Pending s → Progress s
  /-- The only `Close` has shut the channel when it returns. -/
  shut : ∀ j, s.closes j = some .returned → (∀ k, k ≠ j → s.closes k = none) →
    s.channel.shut = true
  /-- When the channel is shut and empty the loop ends, whatever the calls do. -/
  ends : s.channel.shut = true → s.channel.buffer = [] →
    ∀ fs t, (machine α capacity).run fs s = some t → Ending t

theorem shut_of_returned (locks : Locks s) (returned : s.closes j = some .returned)
    (only : ∀ k, k ≠ j → s.closes k = none) : s.channel.shut = true := by
  cases locks.closing with
  | unset _ _ _ _ _ idle => simpa using idle j _ returned
  | owned k pc at_ owns =>
    have same : k = j := by
      by_contra different
      simp [only k different] at at_
    subst same
    obtain rfl := Option.some.inj (returned.symm.trans at_)
    exact owns.shut

theorem deadlock_free (capacity : Nat) (es : List (Event α)) (s : State α)
    (reached : (machine α capacity).Reaches es s) : Live capacity s := by
  have locks := reaches_locks reached
  have flow := reaches_flow reached
  constructor
  · exact pending_progress locks flow
  · exact fun j => shut_of_returned locks
  · intro shut empty fs t ran
    have both := (machine α capacity).run_invariant (fun s => Locks s ∧ Spent s)
      (fun s e next ⟨locks,spent⟩ stepped =>
        have moved := step_move s next e stepped
        ⟨move_locks locks moved,move_spent spent locks moved⟩)
      ⟨locks,shut,empty⟩ ran
    exact spent_ending both.2 both.1

/-- Without room, a sender holds the lock that a `Close` waits for. -/
def crossed : List (Event Char) :=
  [.send 0 'a',.sending 0,.sending 0,.close 0,.closing 0,.closing 0]

theorem crossed_runs : ((machine Char 0).run crossed (start 0)).any (fun s =>
    s.channel.waiting && decide (s.channel.readers = [0])) = true := by decide +kernel

theorem crossed_live : ∃ s, (machine Char 0).Reaches crossed s ∧ Live 0 s ∧
    s.channel.waiting = true ∧ s.channel.readers = [0] := by
  obtain ⟨s,ran,ends⟩ := (Option.any_eq_true _ _).mp crossed_runs
  simp only [Bool.and_eq_true,decide_eq_true_eq] at ends
  exact ⟨s,ran,deadlock_free 0 crossed s ran,ends⟩

end Wschat.Go.Calls
