/-! `Channel[T]`: a buffered Go channel with a closed flag and a read-write mutex that lets
`Close` wait for the running `Send`s. One step is one operation on the mutex, the flag or
the channel. -/
namespace Wschat.Go

/-- The lock's readers are listed by name; `waiting` is a `Lock` call that has announced
itself, which keeps new readers out. `sent` is every value ever sent (ghost). -/
structure Channel (ι α : Type) where
  capacity : Nat
  buffer : List α
  shut : Bool
  closed : Bool
  readers : List ι
  waiting : Bool
  writing : Bool
  sent : List α

def newChannel (l : Nat) : Channel ι α := ⟨l,[],false,false,[],false,false,[]⟩

inductive SendPc where
  | rLock
  | load
  | push
  | rUnlock
  | returned
  | panicked
  deriving DecidableEq, Repr

/-- `Send` has not sent or skipped its value yet. -/
def SendPc.Before : SendPc → Prop
  | .rLock | .load | .push => True
  | .rUnlock | .returned | .panicked => False

/-- `Send` is between `RLock` and `RUnlock`. -/
def SendPc.holds : SendPc → Bool
  | .load | .push | .rUnlock => true
  | .rLock | .returned | .panicked => false

inductive ClosePc where
  | swap
  | lock
  | acquire
  | close
  | unlock
  | returned
  | panicked
  deriving DecidableEq, Repr

namespace Channel

/-- The lock is free for readers. -/
def readable (c : Channel ι α) : Bool := !c.waiting && !c.writing

/-- `Send`. Sending on a channel that has been shut panics. -/
def send [DecidableEq ι] (i : ι) (val : α) (c : Channel ι α) :
    SendPc → Option (Channel ι α × SendPc)
  | .rLock => if c.readable then some ({ c with readers := i :: c.readers },.load) else none
  | .load => some (c,if c.closed then .rUnlock else .push)
  | .push =>
    if c.shut then some (c,.panicked)
    else if c.buffer.length < c.capacity then
      some ({ c with buffer := c.buffer ++ [val], sent := c.sent ++ [val] },.rUnlock)
    else none
  | .rUnlock => some ({ c with readers := c.readers.erase i },.returned)
  | .returned | .panicked => none

/-- `Close`. Shutting a channel twice panics. -/
def close (c : Channel ι α) : ClosePc → Option (Channel ι α × ClosePc)
  | .swap => some ({ c with closed := true },if c.closed then .returned else .lock)
  | .lock => if c.readable then some ({ c with waiting := true },.acquire) else none
  | .acquire =>
    if c.readers = [] then some ({ c with waiting := false, writing := true },.close) else none
  | .close => if c.shut then some (c,.panicked) else some ({ c with shut := true },.unlock)
  | .unlock => some ({ c with writing := false },.returned)
  | .returned | .panicked => none

/-- A receive takes the first value; it blocks on an open channel that is empty. -/
inductive Received (α : Type) where
  | value (val : α)
  | ended

def receive (c : Channel ι α) : Option (Channel ι α × Received α) :=
  match c.buffer with
  | val :: rest => some ({ c with buffer := rest },.value val)
  | [] => if c.shut then some (c,.ended) else none

section Steps

variable {i : ι} {val : α} {c c' : Channel ι α}

/-- What a step of `Send` does. -/
inductive SendStep [DecidableEq ι] (i : ι) (val : α) (c : Channel ι α) :
    SendPc → Channel ι α → SendPc → Prop where
  | rLock : c.readable = true → SendStep i val c .rLock { c with readers := i :: c.readers } .load
  | skip : c.closed = true → SendStep i val c .load c .rUnlock
  | proceed : c.closed = false → SendStep i val c .load c .push
  | panic : c.shut = true → SendStep i val c .push c .panicked
  | push : c.shut = false → c.buffer.length < c.capacity → SendStep i val c .push
      { c with buffer := c.buffer ++ [val], sent := c.sent ++ [val] } .rUnlock
  | rUnlock : SendStep i val c .rUnlock { c with readers := c.readers.erase i } .returned

theorem send_step [DecidableEq ι] (sent : c.send i val pc = some (c',next)) :
    SendStep i val c pc c' next := by
  cases pc with
  | rLock =>
    simp only [send] at sent
    split at sent
    · obtain ⟨rfl,rfl⟩ := Prod.mk.inj (Option.some.inj sent)
      exact .rLock (by assumption)
    · contradiction
  | load =>
    obtain ⟨rfl,rfl⟩ := Prod.mk.inj (Option.some.inj sent)
    cases flag : c.closed with
    | true => exact .skip flag
    | false => exact .proceed flag
  | push =>
    simp only [send] at sent
    split at sent
    · obtain ⟨rfl,rfl⟩ := Prod.mk.inj (Option.some.inj sent)
      exact .panic (by assumption)
    next unshut =>
    split at sent
    · obtain ⟨rfl,rfl⟩ := Prod.mk.inj (Option.some.inj sent)
      exact .push (Bool.eq_false_iff.mpr unshut) (by assumption)
    · contradiction
  | rUnlock =>
    obtain ⟨rfl,rfl⟩ := Prod.mk.inj (Option.some.inj sent)
    exact .rUnlock
  | returned | panicked => contradiction

/-- What a step of `Close` does. -/
inductive CloseStep (c : Channel ι α) : ClosePc → Channel ι α → ClosePc → Prop where
  | swap : c.closed = false → CloseStep c .swap { c with closed := true } .lock
  | swapAgain : c.closed = true → CloseStep c .swap c .returned
  | lock : c.readable = true → CloseStep c .lock { c with waiting := true } .acquire
  | acquire : c.readers = [] →
      CloseStep c .acquire { c with waiting := false, writing := true } .close
  | panic : c.shut = true → CloseStep c .close c .panicked
  | shut : c.shut = false → CloseStep c .close { c with shut := true } .unlock
  | unlock : CloseStep c .unlock { c with writing := false } .returned

theorem close_step (closed : c.close pc = some (c',next)) : CloseStep c pc c' next := by
  cases pc with
  | swap =>
    obtain ⟨rfl,rfl⟩ := Prod.mk.inj (Option.some.inj closed)
    cases flag : c.closed with
    | true =>
      have same : { c with closed := true } = c := by rw [← flag]
      rw [same]
      exact .swapAgain flag
    | false => exact .swap flag
  | lock =>
    simp only [close] at closed
    split at closed
    · obtain ⟨rfl,rfl⟩ := Prod.mk.inj (Option.some.inj closed)
      exact .lock (by assumption)
    · contradiction
  | acquire =>
    simp only [close] at closed
    split at closed
    · obtain ⟨rfl,rfl⟩ := Prod.mk.inj (Option.some.inj closed)
      exact .acquire (by assumption)
    · contradiction
  | close =>
    simp only [close] at closed
    split at closed
    · obtain ⟨rfl,rfl⟩ := Prod.mk.inj (Option.some.inj closed)
      exact .panic (by assumption)
    next unshut =>
    obtain ⟨rfl,rfl⟩ := Prod.mk.inj (Option.some.inj closed)
    exact .shut (Bool.eq_false_iff.mpr unshut)
  | unlock =>
    obtain ⟨rfl,rfl⟩ := Prod.mk.inj (Option.some.inj closed)
    exact .unlock
  | returned | panicked => contradiction

end Steps

end Channel
end Wschat.Go
