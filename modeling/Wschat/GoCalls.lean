import Wschat.Machine
import Wschat.GoChannel

/-! One `Channel` under any number of `Send` and `Close` calls and one goroutine that ranges
over it. On a channel without room a value goes straight to the receiver that waits for it. -/
namespace Wschat.Go.Calls

/-- A call of `Send` that has started. -/
structure SendCall (α : Type) where
  pc : SendPc
  val : α

inductive RangePc (α : Type) where
  | receiving
  /-- In the body of the loop. -/
  | handling (val : α)
  | ended

/-- The calls by number; a value is sent with the number of its call. What has been received
and which calls have executed `close(c.c)` are ghost. -/
structure State (α : Type) where
  channel : Channel Nat (Nat × α)
  sends : Nat → Option (SendCall α)
  closes : Nat → Option ClosePc
  receiver : RangePc (Nat × α)
  received : List (Nat × α)
  shutBy : List Nat
  panicked : Bool

inductive Event (α : Type) where
  /-- A call starts. -/
  | send (i : Nat) (val : α)
  | close (j : Nat)
  /-- The next operation of a call. -/
  | sending (i : Nat)
  | closing (j : Nat)
  /-- The sender `i` and the receiver meet. -/
  | handOff (i : Nat)
  | receive
  /-- The body of the loop returns. -/
  | handled

variable {α : Type}

def start (capacity : Nat) : State α :=
  ⟨newChannel capacity,fun _ => none,fun _ => none,.receiving,[],[],false⟩

namespace State

def setSend (s : State α) (i : Nat) (call : SendCall α) : State α :=
  { s with sends := replace s.sends i (some call) }

def setClose (s : State α) (j : Nat) (pc : ClosePc) : State α :=
  { s with closes := replace s.closes j (some pc) }

/-- The receiver has `val`, and `channel` is left. -/
def take (s : State α) (channel : Channel Nat (Nat × α)) (val : Nat × α) : State α :=
  { s with channel, receiver := .handling val, received := s.received ++ [val] }

end State

def step (s : State α) (e : Event α) : Option (State α) :=
  if s.panicked then none else
  match e with
  | .send i val =>
    match s.sends i with
    | none => some (s.setSend i ⟨.rLock,val⟩)
    | some _ => none
  | .close j =>
    match s.closes j with
    | none => some (s.setClose j .swap)
    | some _ => none
  | .sending i =>
    match s.sends i with
    | some ⟨pc,val⟩ =>
      (s.channel.send i (i,val) pc).map fun (channel,next) =>
        { s.setSend i ⟨next,val⟩ with channel, panicked := next = .panicked }
    | none => none
  | .closing j =>
    match s.closes j with
    | some pc =>
      (s.channel.close pc).map fun (channel,next) =>
        { s.setClose j next with
          channel
          shutBy := if pc = .close then s.shutBy ++ [j] else s.shutBy
          panicked := next = .panicked }
    | none => none
  | .handOff i =>
    match s.sends i, s.receiver with
    | some ⟨.push,val⟩, .receiving =>
      if s.channel.shut = false ∧ s.channel.buffer.isEmpty = true then
        some ((s.take { s.channel with sent := s.channel.sent ++ [(i,val)] } (i,val)).setSend i
          ⟨.rUnlock,val⟩)
      else none
    | _, _ => none
  | .receive =>
    match s.receiver with
    | .receiving =>
      s.channel.receive.map fun (channel,received) =>
        match received with
        | .value val => s.take channel val
        | .ended => { s with receiver := .ended }
    | _ => none
  | .handled =>
    match s.receiver with
    | .handling _ => some { s with receiver := .receiving }
    | _ => none

def machine (α : Type) (capacity : Nat) : Machine (State α) (Event α) := ⟨start capacity,step⟩

/-- What one step can do, said once. -/
inductive Move (s : State α) : Event α → State α → Prop where
  | send (i : Nat) (val : α) : s.sends i = none → Move s (.send i val) (s.setSend i ⟨.rLock,val⟩)
  | rLock (i : Nat) (val : α) : s.sends i = some ⟨.rLock,val⟩ → s.channel.readable = true →
      Move s (.sending i) { s.setSend i ⟨.load,val⟩ with
        channel := { s.channel with readers := i :: s.channel.readers } }
  | load (i : Nat) (val : α) : s.sends i = some ⟨.load,val⟩ →
      Move s (.sending i) (s.setSend i ⟨if s.channel.closed then .rUnlock else .push,val⟩)
  | pushPanic (i : Nat) (val : α) (next : State α) : s.sends i = some ⟨.push,val⟩ →
      s.channel.shut = true → Move s (.sending i) next
  | push (i : Nat) (val : α) : s.sends i = some ⟨.push,val⟩ → s.channel.shut = false →
      s.channel.buffer.length < s.channel.capacity →
      Move s (.sending i) { s.setSend i ⟨.rUnlock,val⟩ with
        channel := { s.channel with
          buffer := s.channel.buffer ++ [(i,val)], sent := s.channel.sent ++ [(i,val)] } }
  | rUnlock (i : Nat) (val : α) : s.sends i = some ⟨.rUnlock,val⟩ →
      Move s (.sending i) { s.setSend i ⟨.returned,val⟩ with
        channel := { s.channel with readers := s.channel.readers.erase i } }
  | handOff (i : Nat) (val : α) : s.sends i = some ⟨.push,val⟩ → s.channel.shut = false →
      s.channel.buffer = [] → s.receiver = .receiving → Move s (.handOff i)
        ((s.take { s.channel with sent := s.channel.sent ++ [(i,val)] } (i,val)).setSend i
          ⟨.rUnlock,val⟩)
  | close (j : Nat) : s.closes j = none → Move s (.close j) (s.setClose j .swap)
  | swapAgain (j : Nat) : s.closes j = some .swap → s.channel.closed = true →
      Move s (.closing j) (s.setClose j .returned)
  | swap (j : Nat) : s.closes j = some .swap → s.channel.closed = false →
      Move s (.closing j) { s.setClose j .lock with channel := { s.channel with closed := true } }
  | lock (j : Nat) : s.closes j = some .lock → s.channel.readable = true →
      Move s (.closing j) { s.setClose j .acquire with channel := { s.channel with waiting := true } }
  | acquire (j : Nat) : s.closes j = some .acquire → s.channel.readers = [] →
      Move s (.closing j) { s.setClose j .close with
        channel := { s.channel with waiting := false, writing := true } }
  | closePanic (j : Nat) (next : State α) : s.closes j = some .close → s.channel.shut = true →
      Move s (.closing j) next
  | shut (j : Nat) : s.closes j = some .close → s.channel.shut = false →
      Move s (.closing j) { s.setClose j .unlock with
        channel := { s.channel with shut := true }, shutBy := s.shutBy ++ [j] }
  | unlock (j : Nat) : s.closes j = some .unlock →
      Move s (.closing j) { s.setClose j .returned with
        channel := { s.channel with writing := false } }
  | take (val : Nat × α) (rest : List (Nat × α)) : s.receiver = .receiving →
      s.channel.buffer = val :: rest → Move s .receive (s.take { s.channel with buffer := rest } val)
  | drained : s.receiver = .receiving → s.channel.buffer = [] → s.channel.shut = true →
      Move s .receive { s with receiver := .ended }
  | handled (val : Nat × α) : s.receiver = .handling val →
      Move s .handled { s with receiver := .receiving }

theorem sending_move (s : State α) (calm : s.panicked = false) (i : Nat) (pc : SendPc) (val : α)
    (at_ : s.sends i = some ⟨pc,val⟩)
    (sent : s.channel.send i (i,val) pc = some (channel,after)) :
    Move s (.sending i) { s.setSend i ⟨after,val⟩ with channel, panicked := after = .panicked } := by
  cases Channel.send_step sent with
  | rLock free =>
    have move := Move.rLock i val at_ free
    simpa [calm,State.setSend] using move
  | skip set =>
    have move := Move.load i val at_
    simpa [calm,State.setSend,set] using move
  | proceed open_ =>
    have move := Move.load i val at_
    simpa [calm,State.setSend,open_] using move
  | panic shut => exact .pushPanic i val _ at_ shut
  | push unshut room =>
    have move := Move.push i val at_ unshut room
    simpa [calm,State.setSend] using move
  | rUnlock =>
    have move := Move.rUnlock i val at_
    simpa [calm,State.setSend] using move

theorem closing_move (s : State α) (calm : s.panicked = false) (j : Nat) (pc : ClosePc)
    (at_ : s.closes j = some pc) (closed : s.channel.close pc = some (channel,after)) :
    Move s (.closing j) { s.setClose j after with
      channel
      shutBy := if pc = .close then s.shutBy ++ [j] else s.shutBy
      panicked := after = .panicked } := by
  cases Channel.close_step closed with
  | swap open_ =>
    have move := Move.swap j at_ open_
    simpa [calm,State.setClose] using move
  | swapAgain set =>
    have move := Move.swapAgain j at_ set
    simpa [calm,State.setClose] using move
  | lock free =>
    have move := Move.lock j at_ free
    simpa [calm,State.setClose] using move
  | acquire empty =>
    have move := Move.acquire j at_ empty
    simpa [calm,State.setClose] using move
  | panic shut => exact .closePanic j _ at_ shut
  | shut unshut =>
    have move := Move.shut j at_ unshut
    simpa [calm,State.setClose] using move
  | unlock =>
    have move := Move.unlock j at_
    simpa [calm,State.setClose] using move

theorem step_move (s next : State α) (e : Event α) (stepped : step s e = some next) :
    Move s e next := by
  unfold step at stepped
  split at stepped
  · contradiction
  next calm =>
  simp only [Bool.not_eq_true] at calm
  cases e with
  | send i val =>
    simp only at stepped
    split at stepped
    · next fresh => obtain rfl := Option.some.inj stepped; exact .send i val fresh
    · contradiction
  | close j =>
    simp only at stepped
    split at stepped
    · next fresh => obtain rfl := Option.some.inj stepped; exact .close j fresh
    · contradiction
  | sending i =>
    simp only at stepped
    split at stepped
    · next pc val at_ =>
      obtain ⟨⟨channel,after⟩,sent,rfl⟩ := Option.map_eq_some_iff.mp stepped
      exact sending_move s calm i pc val at_ sent
    · contradiction
  | closing j =>
    simp only at stepped
    split at stepped
    · next pc at_ =>
      obtain ⟨⟨channel,after⟩,closed,rfl⟩ := Option.map_eq_some_iff.mp stepped
      exact closing_move s calm j pc at_ closed
    · contradiction
  | handOff i =>
    simp only at stepped
    split at stepped
    · next val at_ waiting =>
      split at stepped
      · next free =>
        obtain rfl := Option.some.inj stepped
        exact .handOff i val at_ free.1 (List.isEmpty_iff.mp free.2) waiting
      · contradiction
    · contradiction
  | receive =>
    simp only at stepped
    split at stepped
    · next waiting =>
      obtain ⟨⟨channel,received⟩,taken,rfl⟩ := Option.map_eq_some_iff.mp stepped
      unfold Channel.receive at taken
      split at taken
      · next val rest full =>
        obtain ⟨rfl,rfl⟩ := Prod.mk.inj (Option.some.inj taken)
        exact .take val rest waiting full
      · next empty =>
        split at taken
        · next shut =>
          obtain ⟨rfl,rfl⟩ := Prod.mk.inj (Option.some.inj taken)
          exact .drained waiting empty shut
        · contradiction
    · contradiction
  | handled =>
    simp only at stepped
    split at stepped
    · next val at_ => obtain rfl := Option.some.inj stepped; exact .handled val at_
    · contradiction

section Locks

/-- The call that has found the flag unset, as the channel shows where it stands. -/
structure Owns (pc : ClosePc) (c : Channel Nat (Nat × α)) : Prop where
  closed : c.closed = true
  waiting : c.waiting = decide (pc = .acquire)
  writing : c.writing = decide (pc = .close ∨ pc = .unlock)
  shut : c.shut = decide (pc = .unlock ∨ pc = .returned)
  begun : pc ≠ .swap
  going : pc ≠ .panicked

/-- At most one call of `Close` comes past the flag. -/
inductive Closing (closes : Nat → Option ClosePc) (c : Channel Nat (Nat × α))
    (shutBy : List Nat) : Prop where
  | unset : c.closed = false → c.waiting = false → c.writing = false → c.shut = false →
      shutBy = [] → (∀ j pc, closes j = some pc → pc = .swap) → Closing closes c shutBy
  | owned (j : Nat) (pc : ClosePc) : closes j = some pc → Owns pc c →
      shutBy = (if c.shut then [j] else []) →
      (∀ k pc, k ≠ j → closes k = some pc → pc = .swap ∨ pc = .returned) → Closing closes c shutBy

variable {closes : Nat → Option ClosePc} {c d : Channel Nat (Nat × α)} {shutBy : List Nat}

theorem Closing.flags (closing : Closing closes c shutBy) (closed : d.closed = c.closed)
    (waiting : d.waiting = c.waiting) (writing : d.writing = c.writing) (shut : d.shut = c.shut) :
    Closing closes d shutBy := by
  cases closing with
  | unset closed' waiting' writing' shut' by_ idle =>
    exact .unset (closed.trans closed') (waiting.trans waiting') (writing.trans writing')
      (shut.trans shut') by_ idle
  | owned j pc at_ owns by_ others =>
    exact .owned j pc at_ ⟨closed.trans owns.closed,waiting.trans owns.waiting,
      writing.trans owns.writing,shut.trans owns.shut,owns.begun,owns.going⟩ (by rw [shut]; exact by_)
      others

theorem Closing.unshut (closing : Closing closes c shutBy) (unset : c.closed = false) :
    c.shut = false := by
  cases closing with
  | unset _ _ _ shut => exact shut
  | owned j pc at_ owns => simp [owns.closed] at unset

/-- A call past the flag is the one that owns it. -/
theorem Closing.owner (closing : Closing closes c shutBy) (at_ : closes j = some pc)
    (begun : pc ≠ .swap) (unreturned : pc ≠ .returned) :
    Owns pc c ∧ shutBy = (if c.shut then [j] else []) ∧
      ∀ k pc, k ≠ j → closes k = some pc → pc = .swap ∨ pc = .returned := by
  cases closing with
  | unset _ _ _ _ _ idle => exact absurd (idle j pc at_) begun
  | owned k pc' there owns by_ others =>
    by_cases same : j = k
    · subst same
      obtain rfl := Option.some.inj (at_.symm.trans there)
      exact ⟨owns,by_,others⟩
    · rcases others j pc same at_ with swap | returned
      · contradiction
      · contradiction

theorem Closing.advance (others : ∀ k pc, k ≠ j → closes k = some pc → pc = .swap ∨ pc = .returned)
    (owns : Owns pc d) (by_ : shutBy = if d.shut then [j] else []) :
    Closing (replace closes j (some pc)) d shutBy := by
  refine .owned j pc (by simp) owns by_ ?_
  intro k pc different at_
  exact others k pc different (by simpa [different] using at_)

/-- A call that starts or finds the flag set. -/
theorem Closing.other (closing : Closing closes c shutBy) (fresh : closes j = none ∨ closes j = some .swap)
    (pc : ClosePc) (outside : pc = .swap ∨ (pc = .returned ∧ c.closed = true)) :
    Closing (replace closes j (some pc)) c shutBy := by
  cases closing with
  | unset closed waiting writing shut by_ idle =>
    have swap : pc = .swap := by
      rcases outside with swap | ⟨-,set⟩
      · exact swap
      · simp [closed] at set
    apply Closing.unset closed waiting writing shut by_
    exact replace_forall (R := fun _ (v : Option ClosePc) => ∀ pc, v = some pc → pc = .swap) idle
      (by simp [swap])
  | owned k pc' at_ owns by_ others =>
    have different : k ≠ j := by
      rintro rfl
      rcases fresh with none | swap
      · simp [none] at at_
      · exact owns.begun (Option.some.inj (at_.symm.trans swap))
    refine .owned k pc' (by simpa [different] using at_) owns by_ ?_
    intro l pc'' apart there
    by_cases same : l = j
    · subst same
      obtain rfl := Option.some.inj ((replace_same closes l (some pc)).symm.trans there)
      exact outside.imp_right And.left
    · exact others l pc'' apart (by simpa [same] using there)

structure Locks (s : State α) : Prop where
  calm : s.panicked = false
  nodup : s.channel.readers.Nodup
  readers : ∀ i, i ∈ s.channel.readers ↔ ∃ call, s.sends i = some call ∧ call.pc.holds = true
  alone : s.channel.writing = true → s.channel.readers = []
  pushing : ∀ i val, s.sends i = some ⟨.push,val⟩ → s.channel.shut = false
  going : ∀ i call, s.sends i = some call → call.pc ≠ .panicked
  closing : Closing s.closes s.channel s.shutBy

variable {s next : State α}

/-- A step of a `Send` changes no flag and no lock but its own. -/
theorem Locks.sender (locks : Locks s) (i : Nat) (call : SendCall α)
    (sends : next.sends = replace s.sends i (some call)) (closes : next.closes = s.closes)
    (shutBy : next.shutBy = s.shutBy) (calm : next.panicked = s.panicked)
    (nodup : next.channel.readers.Nodup)
    (mine : i ∈ next.channel.readers ↔ call.pc.holds = true)
    (others : ∀ k, k ≠ i → (k ∈ next.channel.readers ↔ k ∈ s.channel.readers))
    (alone : next.channel.writing = true → next.channel.readers = [])
    (pushing : call.pc = .push → s.channel.shut = false) (going : call.pc ≠ .panicked)
    (closed : next.channel.closed = s.channel.closed)
    (waiting : next.channel.waiting = s.channel.waiting)
    (writing : next.channel.writing = s.channel.writing)
    (shut : next.channel.shut = s.channel.shut) : Locks next where
  calm := calm.trans locks.calm
  nodup := nodup
  readers := by
    intro k
    rw [sends]
    by_cases same : k = i
    · subst same
      simp [mine]
    · rw [others k same,locks.readers k,replace_other _ _ _ _ same]
  alone := alone
  pushing := by
    intro k val at_
    rw [shut]
    by_cases same : k = i
    · subst same
      rw [sends,replace_same] at at_
      exact pushing (by rw [Option.some.inj at_])
    · rw [sends,replace_other _ _ _ _ same] at at_
      exact locks.pushing k val at_
  going := by
    rw [sends]
    exact replace_forall (R := fun _ (v : Option (SendCall α)) => ∀ call, v = some call →
      call.pc ≠ .panicked) locks.going (by rintro _ ⟨⟩; exact going)
  closing := by
    rw [closes,shutBy]
    exact locks.closing.flags closed waiting writing shut

/-- A step of a `Close` changes no read lock, and shuts only a channel that nobody sends on. -/
theorem Locks.closer (locks : Locks s) (sends : next.sends = s.sends)
    (calm : next.panicked = s.panicked) (readers : next.channel.readers = s.channel.readers)
    (alone : next.channel.writing = true → s.channel.readers = [])
    (shut : next.channel.shut = s.channel.shut ∨ s.channel.readers = [])
    (closing : Closing next.closes next.channel next.shutBy) : Locks next where
  calm := calm.trans locks.calm
  nodup := by rw [readers]; exact locks.nodup
  readers := by rw [readers,sends]; exact locks.readers
  alone := by rw [readers]; exact alone
  pushing := by
    intro i val at_
    rw [sends] at at_
    rcases shut with same | empty
    · rw [same]
      exact locks.pushing i val at_
    · have inside := (locks.readers i).mpr ⟨_,at_,rfl⟩
      rw [empty] at inside
      contradiction
  going := by rw [sends]; exact locks.going
  closing := closing

theorem start_locks (capacity : Nat) : Locks (start capacity : State α) where
  calm := rfl
  nodup := List.nodup_nil
  readers := by simp [start,newChannel]
  alone := fun _ => rfl
  pushing := by simp [start]
  going := by simp [start]
  closing := .unset rfl rfl rfl rfl rfl (by simp [start])

theorem Locks.mem (locks : Locks s) (at_ : s.sends i = some ⟨pc,val⟩) :
    i ∈ s.channel.readers ↔ pc.holds = true := by
  rw [locks.readers,at_]
  simp

theorem move_locks (locks : Locks s) (moved : Move s e next) : Locks next := by
  cases moved with
  | send i val fresh =>
    have outside : i ∉ s.channel.readers := by
      rw [locks.readers]
      simp [fresh]
    exact locks.sender i ⟨.rLock,val⟩ rfl rfl rfl rfl locks.nodup
      (iff_of_false outside (by simp [SendPc.holds])) (fun _ _ => Iff.rfl) locks.alone
      (by simp) (by simp) rfl rfl rfl rfl
  | rLock i val at_ free =>
    have outside : i ∉ s.channel.readers := by
      rw [locks.mem at_]
      simp [SendPc.holds]
    have unlocked : s.channel.writing = false := by
      simp only [Channel.readable,Bool.and_eq_true,Bool.not_eq_true'] at free
      exact free.2
    exact locks.sender i ⟨.load,val⟩ rfl rfl rfl rfl (List.nodup_cons.mpr ⟨outside,locks.nodup⟩)
      (iff_of_true List.mem_cons_self rfl) (fun k other => by simp [other])
      (fun writing => by simp [unlocked] at writing) (by simp) (by simp) rfl rfl rfl rfl
  | load i val at_ =>
    have inside := (locks.mem at_).mpr rfl
    cases flag : s.channel.closed with
    | true =>
      exact locks.sender i ⟨.rUnlock,val⟩ rfl rfl rfl rfl locks.nodup (iff_of_true inside rfl)
        (fun _ _ => Iff.rfl) locks.alone (by simp) (by simp) rfl rfl rfl rfl
    | false =>
      exact locks.sender i ⟨.push,val⟩ rfl rfl rfl rfl locks.nodup (iff_of_true inside rfl)
        (fun _ _ => Iff.rfl) locks.alone (fun _ => locks.closing.unshut flag) (by simp) rfl rfl rfl rfl
  | pushPanic i val next at_ shut => simp [locks.pushing i val at_] at shut
  | push i val at_ =>
    exact locks.sender i ⟨.rUnlock,val⟩ rfl rfl rfl rfl locks.nodup
      (iff_of_true ((locks.mem at_).mpr rfl) rfl) (fun _ _ => Iff.rfl) locks.alone (by simp)
      (by simp) rfl rfl rfl rfl
  | handOff i val at_ =>
    exact locks.sender i ⟨.rUnlock,val⟩ rfl rfl rfl rfl locks.nodup
      (iff_of_true ((locks.mem at_).mpr rfl) rfl) (fun _ _ => Iff.rfl) locks.alone (by simp)
      (by simp) rfl rfl rfl rfl
  | rUnlock i val at_ =>
    have gone : i ∉ s.channel.readers.erase i := locks.nodup.not_mem_erase
    have alone : s.channel.writing = true → s.channel.readers.erase i = [] := by
      intro writing
      rw [locks.alone writing]
      rfl
    exact locks.sender i ⟨.returned,val⟩ rfl rfl rfl rfl (locks.nodup.erase i)
      (iff_of_false gone (by simp [SendPc.holds])) (fun k other => List.mem_erase_of_ne other)
      alone (by simp) (by simp) rfl rfl rfl rfl
  | close j fresh =>
    exact locks.closer rfl rfl rfl locks.alone (.inl rfl)
      (locks.closing.other (.inl fresh) .swap (.inl rfl))
  | swapAgain j at_ set =>
    exact locks.closer rfl rfl rfl locks.alone (.inl rfl)
      (locks.closing.other (.inr at_) .returned (.inr ⟨rfl,set⟩))
  | swap j at_ unset =>
    refine locks.closer rfl rfl rfl locks.alone (.inl rfl) ?_
    cases locks.closing with
    | unset _ waiting writing shut by_ idle =>
      exact Closing.advance (fun k pc _ there => .inl (idle k pc there))
        ⟨rfl,waiting,writing,shut,by simp,by simp⟩ (by simp [State.setClose,shut,by_])
    | owned k pc there owns => simp [owns.closed] at unset
  | lock j at_ free =>
    obtain ⟨owns,by_,others⟩ := locks.closing.owner at_ (by simp) (by simp)
    exact locks.closer rfl rfl rfl locks.alone (.inl rfl)
      (Closing.advance others ⟨owns.closed,rfl,owns.writing,owns.shut,by simp,by simp⟩ by_)
  | acquire j at_ empty =>
    obtain ⟨owns,by_,others⟩ := locks.closing.owner at_ (by simp) (by simp)
    exact locks.closer rfl rfl rfl (fun _ => empty) (.inl rfl)
      (Closing.advance others ⟨owns.closed,rfl,rfl,owns.shut,by simp,by simp⟩ by_)
  | closePanic j next at_ shut =>
    obtain ⟨owns,-,-⟩ := locks.closing.owner at_ (by simp) (by simp)
    simp [owns.shut] at shut
  | shut j at_ unshut =>
    obtain ⟨owns,by_,others⟩ := locks.closing.owner at_ (by simp) (by simp)
    have alone := locks.alone (by simp [owns.writing])
    exact locks.closer rfl rfl rfl (fun _ => alone) (.inr alone)
      (Closing.advance others ⟨owns.closed,owns.waiting,owns.writing,rfl,by simp,by simp⟩
        (by simp [by_,unshut]))
  | unlock j at_ =>
    obtain ⟨owns,by_,others⟩ := locks.closing.owner at_ (by simp) (by simp)
    exact locks.closer rfl rfl rfl (fun writing => by simp at writing) (.inl rfl)
      (Closing.advance others ⟨owns.closed,owns.waiting,rfl,owns.shut,by simp,by simp⟩ by_)
  | take val rest =>
    exact locks.closer rfl rfl rfl locks.alone (.inl rfl) (locks.closing.flags rfl rfl rfl rfl)
  | drained | handled => exact ⟨locks.calm,locks.nodup,locks.readers,locks.alone,locks.pushing,
      locks.going,locks.closing⟩

theorem reaches_locks (reached : (machine α capacity).Reaches es s) : Locks s :=
  (machine α capacity).invariant Locks (start_locks capacity)
    (fun s e next locks stepped => move_locks locks (step_move s next e stepped)) reached

end Locks

end Wschat.Go.Calls
