import Mathlib.Algebra.BigOperators.Group.Finset.Basic
import Wschat.Machine

/-! The load tester of `client/main.go`: `main` starts a worker for each connection, waits for
all of them to connect where they are to start together, and then for their results or for
their end. Every call to the network returns, with what the configuration says. -/
namespace Wschat.Load

/-- How a worker's calls end; `recvErr` and `unexpected` are about its uuid. -/
structure Outcome where
  configErr : Bool
  dialErr : Bool
  recvErr : Bool
  unexpected : Bool
  sends : Nat

structure Config where
  numConns : Nat
  sameStart : Bool
  test : Bool
  outcome : Nat → Outcome

/-- The statement that a worker takes next. `configToken`, where `NewConfig` has failed, and
`token` are `startedChan <- true`, `barrier` is `<-startChan`, `done` is `<-doneChan`. -/
inductive Pc where
  | unspawned
  | config
  | configToken
  | dial
  | token
  | dialed
  | barrier
  | uuid
  | sending (left : Nat)
  | done
  | result
  | returned
  deriving DecidableEq, Repr

/-- `runRecvTest`, which closes `doneChan` at its end. -/
inductive RecvPc where
  | idle
  | running
  | closed
  deriving DecidableEq, Repr

/-- `given` counts the tokens it has sent (ghost). -/
structure Worker where
  pc : Pc
  recv : RecvPc
  given : Nat
  deriving DecidableEq

inductive Effect where
  | silent
  | token
  | result
  deriving DecidableEq

def Config.afterBarrier (cfg : Config) (o : Outcome) : Pc := if cfg.test then .uuid else .sending o.sends

/-- `runClient` reports to nobody but the wait group. -/
def Config.exit (cfg : Config) : Pc := if cfg.test then .result else .returned

/-- What `webs.Dial` and `DialConfig` fail with; the first makes the config itself. -/
def Config.dialFails (cfg : Config) (o : Outcome) : Bool := o.dialErr || (!cfg.test && o.configErr)

/-- The next step of a worker, in `runClientTest` or `runClient`; `none` where it waits for
`startChan` or `doneChan`. -/
def Worker.advance (cfg : Config) (o : Outcome) (startChan : Bool) (w : Worker) :
    Option (Worker × Effect) :=
  match w.pc with
  | .unspawned => none
  | .config => some ({ w with pc := if o.configErr then .configToken else .dial },.silent)
  | .configToken => some ({ w with pc := .result, given := w.given + 1 },.token)
  | .dial => some ({ w with pc := if cfg.sameStart then .token else .dialed },.silent)
  | .token => some ({ w with pc := .dialed, given := w.given + 1 },.token)
  | .dialed =>
    some ({ w with pc := if cfg.dialFails o then cfg.exit
                         else if cfg.sameStart then .barrier else cfg.afterBarrier o },.silent)
  | .barrier => if startChan then some ({ w with pc := cfg.afterBarrier o },.silent) else none
  | .uuid =>
    if o.recvErr || o.unexpected then some ({ w with pc := .result },.silent)
    else some ({ w with pc := .sending o.sends, recv := .running },.silent)
  | .sending 0 => some ({ w with pc := if cfg.test then .done else .returned },.silent)
  | .sending (left + 1) => some ({ w with pc := .sending left },.silent)
  | .done => if w.recv = .closed then some ({ w with pc := .result },.silent) else none
  | .result => some ({ w with pc := .returned },.result)
  | .returned => none

def Config.entry (cfg : Config) : Worker := ⟨if cfg.test then .config else .dial,.idle,0⟩

/-- Where `main` is, with the number of rounds it has done there. -/
inductive MainPc where
  | spawning (i : Nat)
  | collecting (i : Nat)
  | closing
  | testing (i : Nat)
  | waiting
  | finished
  deriving DecidableEq, Repr

/-- `startedChan` and `testChan` with what they hold, whether `startChan` is closed, and the
workers whose results `runTest` has received. -/
structure State where
  main : MainPc
  workers : Nat → Worker
  startedChan : Nat
  startChan : Bool
  testChan : List Nat
  received : List Nat

def startedCap : Nat := 5
def testCap : Nat := 100

/-- Without connections `main` returns at once. -/
def start (cfg : Config) : State :=
  ⟨if cfg.numConns = 0 then .finished else .spawning 0,fun _ => ⟨.unspawned,.idle,0⟩,0,false,[],[]⟩

def Config.afterStart (cfg : Config) : MainPc := if cfg.test then .testing 0 else .waiting

def stepMain (cfg : Config) (s : State) : Option State :=
  match s.main with
  | .spawning i =>
    if i < cfg.numConns then
      some { s with workers := replace s.workers i cfg.entry, main := .spawning (i + 1) }
    else some { s with main := if cfg.sameStart then .collecting 0 else cfg.afterStart }
  | .collecting i =>
    if i < cfg.numConns then
      if 0 < s.startedChan then
        some { s with startedChan := s.startedChan - 1, main := .collecting (i + 1) }
      else none
    else some { s with main := .closing }
  | .closing => some { s with startChan := true, main := cfg.afterStart }
  | .testing i =>
    if i < cfg.numConns then
      match s.testChan with
      | [] => none
      | r :: rest =>
        some { s with testChan := rest, received := s.received ++ [r], main := .testing (i + 1) }
    else some { s with main := .finished }
  | .waiting =>
    if ∀ i < cfg.numConns, (s.workers i).pc = .returned then some { s with main := .finished }
    else none
  | .finished => none

def stepWorker (cfg : Config) (s : State) (i : Nat) : Option State :=
  match (s.workers i).advance cfg (cfg.outcome i) s.startChan with
  | none => none
  | some (w,.silent) => some { s with workers := replace s.workers i w }
  | some (w,.token) =>
    if s.startedChan < startedCap then
      some { s with workers := replace s.workers i w, startedChan := s.startedChan + 1 }
    else none
  | some (w,.result) =>
    if s.testChan.length < testCap then
      some { s with workers := replace s.workers i w, testChan := s.testChan ++ [i] }
    else none

inductive Event where
  | main
  | worker (i : Nat)
  /-- The goroutine of `runRecvTest` ends. -/
  | recvTest (i : Nat)

def step (cfg : Config) (s : State) : Event → Option State
  | .main => stepMain cfg s
  | .worker i => stepWorker cfg s i
  | .recvTest i =>
    if (s.workers i).recv = .running then
      some { s with workers := replace s.workers i { s.workers i with recv := .closed } }
    else none

def machine (cfg : Config) : Machine State Event := ⟨start cfg,step cfg⟩

section Workers

/-- The tokens that a worker has sent by the time it is at `pc`. -/
def Config.tokens (cfg : Config) (o : Outcome) : Pc → Nat
  | .unspawned | .config | .configToken | .dial | .token => 0
  | .dialed | .barrier | .uuid | .sending _ | .done => if cfg.sameStart then 1 else 0
  | .result | .returned => if cfg.sameStart || (cfg.test && o.configErr) then 1 else 0

/-- The config is there: where `runClientTest` makes it, `NewConfig` has not failed. -/
def Config.Made (cfg : Config) (o : Outcome) : Prop := cfg.test = true → o.configErr = false

def Config.Holds (cfg : Config) (o : Outcome) (recv : RecvPc) : Pc → Prop
  | .unspawned => recv = .idle
  | .config | .result => cfg.test = true
  | .configToken => cfg.test = true ∧ o.configErr = true
  | .dial | .dialed => cfg.Made o
  | .token | .barrier => cfg.Made o ∧ cfg.sameStart = true
  | .uuid => cfg.Made o ∧ cfg.test = true
  | .sending _ => cfg.Made o ∧ (cfg.test = true → recv ≠ .idle)
  | .done => cfg.Made o ∧ cfg.test = true ∧ recv ≠ .idle
  | .returned => True

structure Fits (cfg : Config) (o : Outcome) (w : Worker) : Prop where
  given : w.given = cfg.tokens o w.pc
  holds : cfg.Holds o w.recv w.pc

/-- What a worker's step does: it keeps the worker fit, counts its token, and hands the
result over last. -/
structure Advances (cfg : Config) (o : Outcome) (w next : Worker) (effect : Effect) : Prop where
  fits : Fits cfg o next
  before : w.pc ≠ .unspawned ∧ w.pc ≠ .returned
  after : next.pc ≠ .unspawned
  given : next.given = w.given + if effect = .token then 1 else 0
  result : cfg.test = true → (next.pc = .returned ↔ effect = .result)
  reports : effect = .result → cfg.test = true

variable {cfg : Config} {o : Outcome} {w : Worker}

/-- A silent step that neither starts nor ends the worker, nor sends a token. -/
theorem Advances.silent (recv : RecvPc) (fits : Fits cfg o { w with pc, recv })
    (before : w.pc ≠ .unspawned ∧ w.pc ≠ .returned)
    (after : pc ≠ .unspawned) (last : cfg.test = true → pc ≠ .returned) :
    Advances cfg o w { w with pc, recv } .silent :=
  ⟨fits,before,after,rfl,fun test => by simp [last test],by simp⟩

theorem tokens_made (made : cfg.Made o) :
    cfg.tokens o .result = (if cfg.sameStart then 1 else 0) ∧
      cfg.tokens o .returned = if cfg.sameStart then 1 else 0 := by
  cases test : cfg.test with
  | true => simp [Config.tokens,made test]
  | false => simp [Config.tokens,test]

theorem afterBarrier_fits (made : cfg.Made o) (given : w.given = if cfg.sameStart then 1 else 0) :
    Fits cfg o { w with pc := cfg.afterBarrier o } := by
  cases test : cfg.test with
  | true =>
    simp only [Config.afterBarrier,test,if_true]
    exact ⟨given,made,test⟩
  | false =>
    simp only [Config.afterBarrier,test,Bool.false_eq_true,if_false]
    exact ⟨given,made,by simp [test]⟩

theorem afterBarrier_advances (made : cfg.Made o)
    (given : w.given = if cfg.sameStart then 1 else 0)
    (before : w.pc ≠ .unspawned ∧ w.pc ≠ .returned) :
    Advances cfg o w { w with pc := cfg.afterBarrier o } .silent := by
  refine .silent w.recv (afterBarrier_fits made given) before ?_ fun _ => ?_ <;>
    unfold Config.afterBarrier <;> split <;> exact Pc.noConfusion

theorem exit_advances (made : cfg.Made o)
    (given : w.given = if cfg.sameStart then 1 else 0)
    (before : w.pc ≠ .unspawned ∧ w.pc ≠ .returned) :
    Advances cfg o w { w with pc := cfg.exit } .silent := by
  obtain ⟨result,returned⟩ := tokens_made made
  cases test : cfg.test with
  | true =>
    simp only [Config.exit,test,if_true]
    exact .silent w.recv ⟨given.trans result.symm,test⟩ before (by simp) (by simp)
  | false =>
    simp only [Config.exit,test,Bool.false_eq_true,if_false]
    exact .silent w.recv ⟨given.trans returned.symm,trivial⟩ before (by simp) (by simp [test])

theorem advance_fits (fits : Fits cfg o w)
    (advanced : w.advance cfg o startChan = some (next,effect)) : Advances cfg o w next effect := by
  obtain ⟨pc,recv,given⟩ := w
  obtain ⟨count,holds⟩ := fits
  simp only at count holds
  cases pc with
  | unspawned => contradiction
  | config =>
    obtain ⟨rfl,rfl⟩ := Prod.mk.inj (Option.some.inj advanced)
    cases configErr : o.configErr with
    | true => exact .silent recv ⟨count,holds,configErr⟩ (by simp) (by simp) (by simp)
    | false => exact .silent recv ⟨count,fun _ => configErr⟩ (by simp) (by simp) (by simp)
  | configToken =>
    obtain ⟨rfl,rfl⟩ := Prod.mk.inj (Option.some.inj advanced)
    obtain ⟨test,configErr⟩ := holds
    have sent : given + 1 = cfg.tokens o .result := by
      rw [count]
      simp [Config.tokens,test,configErr]
    exact ⟨⟨sent,test⟩,by simp,by simp,rfl,by simp,by simp⟩
  | dial =>
    obtain ⟨rfl,rfl⟩ := Prod.mk.inj (Option.some.inj advanced)
    cases same : cfg.sameStart with
    | true => exact .silent recv ⟨count,holds,same⟩ (by simp) (by simp) (by simp)
    | false =>
      have unsent : given = cfg.tokens o .dialed := by
        rw [count]
        simp [Config.tokens,same]
      exact .silent recv ⟨unsent,holds⟩ (by simp) (by simp) (by simp)
  | token =>
    obtain ⟨rfl,rfl⟩ := Prod.mk.inj (Option.some.inj advanced)
    obtain ⟨made,same⟩ := holds
    have sent : given + 1 = cfg.tokens o .dialed := by
      rw [count]
      simp [Config.tokens,same]
    exact ⟨⟨sent,made⟩,by simp,by simp,rfl,by simp,by simp⟩
  | dialed =>
    obtain ⟨rfl,rfl⟩ := Prod.mk.inj (Option.some.inj advanced)
    cases fails : cfg.dialFails o with
    | true => exact exit_advances holds count (by simp)
    | false =>
      cases same : cfg.sameStart with
      | true => exact .silent recv ⟨count,holds,same⟩ (by simp) (by simp) (by simp)
      | false => exact afterBarrier_advances holds count (by simp)
  | barrier =>
    simp only [Worker.advance] at advanced
    split at advanced
    · obtain ⟨rfl,rfl⟩ := Prod.mk.inj (Option.some.inj advanced)
      exact afterBarrier_advances holds.1 count (by simp)
    · contradiction
  | uuid =>
    obtain ⟨made,test⟩ := holds
    simp only [Worker.advance] at advanced
    split at advanced <;> obtain ⟨rfl,rfl⟩ := Prod.mk.inj (Option.some.inj advanced)
    · exact .silent recv ⟨count.trans (tokens_made made).1.symm,test⟩ (by simp) (by simp) (by simp)
    · exact .silent .running ⟨count,made,fun _ => by simp⟩ (by simp) (by simp) (by simp)
  | sending left =>
    obtain ⟨made,running⟩ := holds
    cases left with
    | zero =>
      obtain ⟨rfl,rfl⟩ := Prod.mk.inj (Option.some.inj advanced)
      cases test : cfg.test with
      | true =>
        exact .silent recv ⟨count,made,test,running test⟩ (by simp) (by simp) (by simp)
      | false =>
        exact .silent recv ⟨count.trans (tokens_made made).2.symm,trivial⟩ (by simp) (by simp)
          (by simp [test])
    | succ left =>
      obtain ⟨rfl,rfl⟩ := Prod.mk.inj (Option.some.inj advanced)
      exact .silent recv ⟨count,made,running⟩ (by simp) (by simp) (by simp)
  | done =>
    obtain ⟨made,test,-⟩ := holds
    simp only [Worker.advance] at advanced
    split at advanced
    · obtain ⟨rfl,rfl⟩ := Prod.mk.inj (Option.some.inj advanced)
      exact .silent recv ⟨count.trans (tokens_made made).1.symm,test⟩ (by simp) (by simp) (by simp)
    · contradiction
  | result =>
    obtain ⟨rfl,rfl⟩ := Prod.mk.inj (Option.some.inj advanced)
    exact ⟨⟨count,trivial⟩,by simp,by simp,rfl,by simp,fun _ => holds⟩
  | returned => contradiction

theorem running_started (fits : Fits cfg o w) (running : w.recv = .running) :
    w.pc ≠ .unspawned := by
  intro unspawned
  have idle := fits.holds
  rw [unspawned,running] at idle
  exact RecvPc.noConfusion idle

theorem close_fits (fits : Fits cfg o w) (running : w.recv = .running) :
    Fits cfg o { w with recv := .closed } := by
  refine ⟨fits.given,?_⟩
  have started := running_started fits running
  have holds := fits.holds
  show cfg.Holds o .closed w.pc
  cases pc : w.pc with
  | unspawned => exact absurd pc started
  | sending =>
    rw [pc] at holds
    exact ⟨holds.1,fun _ => by simp⟩
  | done =>
    rw [pc] at holds
    exact ⟨holds.1,holds.2.1,by simp⟩
  | config | configToken | dial | token | dialed | barrier | uuid | result | returned =>
    rw [pc] at holds
    exact holds

end Workers

section Invariant

open Finset in
/-- Replacing one entry changes a sum by that entry. -/
theorem sum_replace (g : Nat → β → Nat) (f : Nat → β) (inside : i < n) (x : β) :
    ∑ j ∈ range n, g j (replace f i x j) + g i (f i) = ∑ j ∈ range n, g j (f j) + g i x := by
  have member : i ∈ range n := mem_range.mpr inside
  have others : ∑ j ∈ (range n).erase i, g j (replace f i x j) = ∑ j ∈ (range n).erase i, g j (f j) :=
    sum_congr rfl fun j apart => by rw [replace_other _ _ _ _ (ne_of_mem_erase apart)]
  rw [← add_sum_erase _ _ member,← add_sum_erase (range n) (fun j => g j (f j)) member,others,
    replace_same]
  omega

namespace MainPc

variable (cfg : Config)

def spawned : MainPc → Nat
  | .spawning i => i
  | _ => cfg.numConns

def collected : MainPc → Nat
  | .spawning _ => 0
  | .collecting i => i
  | _ => if cfg.sameStart then cfg.numConns else 0

def tested : MainPc → Nat
  | .testing i => i
  | .finished => if cfg.test then cfg.numConns else 0
  | _ => 0

def opened : MainPc → Bool
  | .testing _ | .waiting | .finished => cfg.sameStart && cfg.numConns ≠ 0
  | _ => false

def Fine : MainPc → Prop
  | .spawning i => i ≤ cfg.numConns
  | .collecting i => i ≤ cfg.numConns ∧ cfg.sameStart = true
  | .closing => cfg.sameStart = true
  | .testing i => i ≤ cfg.numConns ∧ cfg.test = true
  | .waiting => cfg.test = false
  | .finished => True

end MainPc

structure Kept (cfg : Config) (s : State) : Prop where
  fine : s.main.Fine cfg
  active : s.main ≠ .finished → cfg.numConns ≠ 0
  fits : ∀ i, Fits cfg (cfg.outcome i) (s.workers i)
  spawned : ∀ i, (s.workers i).pc = .unspawned ↔ s.main.spawned cfg ≤ i
  tokens : s.startedChan + s.main.collected cfg = ∑ i ∈ Finset.range cfg.numConns, (s.workers i).given
  room : s.startedChan ≤ startedCap
  opened : s.startChan = s.main.opened cfg
  tested : s.received.length = s.main.tested cfg
  distinct : (s.received ++ s.testChan).Nodup
  reported : ∀ i, i ∈ s.received ++ s.testChan ↔ cfg.test = true ∧ (s.workers i).pc = .returned

theorem spawned_le (fine : main.Fine cfg) : MainPc.spawned cfg main ≤ cfg.numConns := by
  cases main with
  | spawning i => exact fine
  | collecting | closing | testing | waiting | finished => exact le_rfl

theorem start_kept (cfg : Config) : Kept cfg (start cfg) := by
  have idle (o : Outcome) : Fits cfg o ⟨.unspawned,.idle,0⟩ := ⟨rfl,rfl⟩
  by_cases empty : cfg.numConns = 0
  · exact ⟨by simp [start,empty,MainPc.Fine],by simp [start,empty],fun i => idle (cfg.outcome i),by
      simp [start,empty,MainPc.spawned],by simp [start,empty,MainPc.collected],by
      simp [start],by simp [start,empty,MainPc.opened],by simp [start,empty,MainPc.tested],by simp [start],by
      simp [start]⟩
  · exact ⟨by simp [start,empty,MainPc.Fine],by simp [empty],fun i => idle (cfg.outcome i),by
      simp [start,empty,MainPc.spawned],by simp [start,empty,MainPc.collected],by
      simp [start],by simp [start,empty,MainPc.opened],by simp [start,empty,MainPc.tested],by simp [start],by
      simp [start]⟩

theorem entry_fits (cfg : Config) (o : Outcome) : Fits cfg o cfg.entry := by
  cases test : cfg.test with
  | true =>
    simp only [Config.entry,test,if_true]
    exact ⟨rfl,test⟩
  | false =>
    simp only [Config.entry,test,Bool.false_eq_true,if_false]
    exact ⟨rfl,fun tested => by simp [test] at tested⟩

/-- `main` moves on, without the workers and with what it takes out of the channels. -/
theorem Kept.moveMain (kept : Kept cfg s) (active : s.main ≠ .finished)
    (workers : next.workers = s.workers) (fine : next.main.Fine cfg)
    (spawned : next.main.spawned cfg = s.main.spawned cfg)
    (tokens : next.startedChan + next.main.collected cfg = s.startedChan + s.main.collected cfg)
    (room : next.startedChan ≤ s.startedChan) (opened : next.startChan = next.main.opened cfg)
    (tested : next.received.length = next.main.tested cfg)
    (results : next.received ++ next.testChan = s.received ++ s.testChan) : Kept cfg next where
  fine := fine
  active := fun _ => kept.active active
  fits := workers ▸ kept.fits
  spawned := by simpa only [workers,spawned] using kept.spawned
  tokens := by simpa only [workers,tokens] using kept.tokens
  room := room.trans kept.room
  opened := opened
  tested := tested
  distinct := results ▸ kept.distinct
  reported := by simpa only [workers,results] using kept.reported

theorem Kept.spawn (kept : Kept cfg s) (main : s.main = .spawning i) (inside : i < cfg.numConns) :
    Kept cfg { s with workers := replace s.workers i cfg.entry, main := .spawning (i + 1) } := by
  have fresh : (s.workers i).pc = .unspawned := (kept.spawned i).mpr (by rw [main]; exact le_rfl)
  have entered : cfg.entry.pc ≠ .unspawned ∧ cfg.entry.pc ≠ .returned ∧ cfg.entry.given = 0 := by
    cases test : cfg.test <;> simp [Config.entry,test]
  refine ⟨inside,fun _ => kept.active (by simp [main]),?_,?_,?_,kept.room,?_,?_,kept.distinct,?_⟩
  · exact replace_forall (R := fun i w => Fits cfg (cfg.outcome i) w) kept.fits (entry_fits cfg _)
  · intro j
    have before := kept.spawned j
    rw [main] at before
    show (replace s.workers i cfg.entry j).pc = .unspawned ↔ i + 1 ≤ j
    by_cases same : j = i
    · simp [same,entered.1]
    · rw [replace_other _ _ _ _ same,before]
      simp only [MainPc.spawned]
      omega
  · have sum := sum_replace (fun _ (w : Worker) => w.given) s.workers inside cfg.entry
    have tokens := kept.tokens
    have zero : (s.workers i).given = 0 := by rw [(kept.fits i).given,fresh]; rfl
    rw [main] at tokens
    show s.startedChan + 0 = ∑ j ∈ Finset.range cfg.numConns, (replace s.workers i cfg.entry j).given
    simp only [MainPc.collected] at tokens
    omega
  · simpa [main,MainPc.opened] using kept.opened
  · simpa [main,MainPc.tested] using kept.tested
  · intro j
    show j ∈ s.received ++ s.testChan ↔
      cfg.test = true ∧ (replace s.workers i cfg.entry j).pc = .returned
    rw [kept.reported j]
    by_cases same : j = i
    · simp [same,fresh,entered.2.1]
    · rw [replace_other _ _ _ _ same]

theorem afterStart_fine (cfg : Config) : cfg.afterStart.Fine cfg ∧
    cfg.afterStart.spawned cfg = cfg.numConns ∧
    cfg.afterStart.collected cfg = (if cfg.sameStart then cfg.numConns else 0) ∧
    cfg.afterStart.opened cfg = (cfg.sameStart && cfg.numConns ≠ 0) ∧
    cfg.afterStart.tested cfg = 0 := by
  cases test : cfg.test <;>
    simp [Config.afterStart,test,MainPc.Fine,MainPc.spawned,MainPc.collected,MainPc.opened,MainPc.tested]

theorem Kept.place (kept : Kept cfg s) (main : s.main = m) :
    m.Fine cfg ∧ s.startChan = m.opened cfg ∧ s.received.length = m.tested cfg :=
  main ▸ ⟨kept.fine,kept.opened,kept.tested⟩

theorem Kept.spawned_all (kept : Kept cfg s) (main : s.main = .spawning i) (outside : ¬i < cfg.numConns) :
    Kept cfg { s with main := if cfg.sameStart then .collecting 0 else cfg.afterStart } := by
  obtain ⟨fine,opened,tested⟩ := kept.place main
  have full : cfg.numConns = s.main.spawned cfg := by
    rw [main]
    exact le_antisymm (not_lt.mp outside) fine
  have untaken : s.main.collected cfg = 0 := by rw [main]; rfl
  have active : s.main ≠ .finished := by simp [main]
  obtain ⟨after,spawned,collected,behind,untested⟩ := afterStart_fine cfg
  cases same : cfg.sameStart with
  | true =>
    exact kept.moveMain active rfl ⟨Nat.zero_le _,same⟩ full (by rw [untaken]; rfl) le_rfl opened tested rfl
  | false =>
    rw [same] at collected behind
    refine kept.moveMain active rfl after (spawned.trans full) ?_ le_rfl ?_ ?_ rfl
    · exact congrArg (s.startedChan + ·) (collected.trans untaken.symm)
    · exact opened.trans behind.symm
    · exact tested.trans untested.symm

theorem Kept.collect (kept : Kept cfg s) (main : s.main = .collecting i) (inside : i < cfg.numConns)
    (held : 0 < s.startedChan) :
    Kept cfg { s with startedChan := s.startedChan - 1, main := .collecting (i + 1) } := by
  obtain ⟨fine,opened,tested⟩ := kept.place main
  refine kept.moveMain (by simp [main]) rfl ⟨inside,fine.2⟩ (by rw [main]; rfl) ?_ (Nat.sub_le _ _)
    opened tested rfl
  rw [main]
  show s.startedChan - 1 + (i + 1) = s.startedChan + i
  omega

theorem Kept.collected_all (kept : Kept cfg s) (main : s.main = .collecting i)
    (outside : ¬i < cfg.numConns) : Kept cfg { s with main := .closing } := by
  obtain ⟨fine,opened,tested⟩ := kept.place main
  have full : cfg.numConns = i := le_antisymm (not_lt.mp outside) fine.1
  refine kept.moveMain (by simp [main]) rfl fine.2 (by rw [main]; rfl) ?_ le_rfl opened tested rfl
  simp [main,MainPc.collected,fine.2,full]

theorem Kept.close (kept : Kept cfg s) (main : s.main = .closing) :
    Kept cfg { s with startChan := true, main := cfg.afterStart } := by
  obtain ⟨same,-,tested⟩ := kept.place main
  have active : s.main ≠ .finished := by simp [main]
  have connected := kept.active active
  obtain ⟨after,spawned,collected,behind,untested⟩ := afterStart_fine cfg
  refine kept.moveMain active rfl after (by rw [main]; exact spawned) ?_ le_rfl ?_ ?_ rfl
  · rw [main]
    exact congrArg (s.startedChan + ·) collected
  · rw [behind]
    simpa [connected] using same.symm
  · exact tested.trans untested.symm

theorem Kept.receive (kept : Kept cfg s) (main : s.main = .testing i) (inside : i < cfg.numConns)
    (buffer : s.testChan = r :: rest) :
    Kept cfg { s with testChan := rest, received := s.received ++ [r], main := .testing (i + 1) } := by
  obtain ⟨fine,opened,tested⟩ := kept.place main
  refine kept.moveMain (by simp [main]) rfl ⟨inside,fine.2⟩ (by rw [main]; rfl) (by rw [main]; rfl) le_rfl
    opened ?_ ?_
  · simpa [MainPc.tested] using tested
  · simp [buffer]

theorem Kept.tested_all (kept : Kept cfg s) (main : s.main = .testing i) (outside : ¬i < cfg.numConns) :
    Kept cfg { s with main := .finished } := by
  obtain ⟨fine,opened,tested⟩ := kept.place main
  have full : cfg.numConns = i := le_antisymm (not_lt.mp outside) fine.1
  refine kept.moveMain (by simp [main]) rfl trivial (by rw [main]; rfl) (by rw [main]; rfl) le_rfl
    opened ?_ rfl
  simpa [MainPc.tested,fine.2,full] using tested

theorem Kept.waited (kept : Kept cfg s) (main : s.main = .waiting) :
    Kept cfg { s with main := .finished } := by
  obtain ⟨untested,opened,tested⟩ := kept.place main
  have client : cfg.test = false := untested
  refine kept.moveMain (by simp [main]) rfl trivial (by rw [main]; rfl) (by rw [main]; rfl) le_rfl
    opened ?_ rfl
  simpa [MainPc.tested,client] using tested

theorem stepMain_kept (kept : Kept cfg s) (stepped : stepMain cfg s = some next) : Kept cfg next := by
  cases main : s.main with
  | spawning i =>
    simp only [stepMain,main] at stepped
    split at stepped <;> obtain rfl := Option.some.inj stepped
    · next inside => exact kept.spawn main inside
    · next outside => exact kept.spawned_all main outside
  | collecting i =>
    simp only [stepMain,main] at stepped
    split at stepped
    · next inside =>
      split at stepped
      · next held =>
        obtain rfl := Option.some.inj stepped
        exact kept.collect main inside held
      · contradiction
    · next outside =>
      obtain rfl := Option.some.inj stepped
      exact kept.collected_all main outside
  | closing =>
    obtain rfl : _ = next := by simpa [stepMain,main] using stepped
    exact kept.close main
  | testing i =>
    simp only [stepMain,main] at stepped
    split at stepped
    · next inside =>
      split at stepped
      · contradiction
      · next r rest buffer =>
        obtain rfl := Option.some.inj stepped
        exact kept.receive main inside buffer
    · next outside =>
      obtain rfl := Option.some.inj stepped
      exact kept.tested_all main outside
  | waiting =>
    simp only [stepMain,main] at stepped
    split at stepped
    · obtain rfl := Option.some.inj stepped
      exact kept.waited main
    · contradiction
  | finished => simp [stepMain,main] at stepped

theorem Kept.inside (kept : Kept cfg s) (started : (s.workers i).pc ≠ .unspawned) :
    i < cfg.numConns :=
  (not_le.mp (mt (kept.spawned i).mpr started)).trans_le (spawned_le kept.fine)

theorem Kept.advance (kept : Kept cfg s)
    (advances : Advances cfg (cfg.outcome i) (s.workers i) w effect)
    (room : effect = .token → s.startedChan < startedCap) :
    Kept cfg { s with
      workers := replace s.workers i w
      startedChan := s.startedChan + if effect = .token then 1 else 0
      testChan := s.testChan ++ if effect = .result then [i] else [] } := by
  have started : ¬s.main.spawned cfg ≤ i := fun late => advances.before.1 ((kept.spawned i).mpr late)
  have inside := kept.inside advances.before.1
  refine ⟨kept.fine,kept.active,?_,?_,?_,?_,kept.opened,kept.tested,?_,?_⟩
  · exact replace_forall (R := fun i w => Fits cfg (cfg.outcome i) w) kept.fits advances.fits
  · exact replace_forall (R := fun i (w : Worker) => w.pc = .unspawned ↔ s.main.spawned cfg ≤ i)
      kept.spawned (by simp [advances.after,started])
  · have sum := sum_replace (fun _ (w : Worker) => w.given) s.workers inside w
    have tokens := kept.tokens
    have given := advances.given
    show s.startedChan + _ + s.main.collected cfg =
      ∑ j ∈ Finset.range cfg.numConns, (replace s.workers i w j).given
    omega
  · have before := kept.room
    show s.startedChan + (if effect = .token then 1 else 0) ≤ startedCap
    split
    · next token => exact room token
    · exact before
  · have fresh : i ∉ s.received ++ s.testChan := fun inside =>
      advances.before.2 ((kept.reported i).mp inside).2
    show (s.received ++ (s.testChan ++ if effect = .result then [i] else [])).Nodup
    rw [← List.append_assoc]
    by_cases last : effect = .result
    · rw [if_pos last]
      exact List.Nodup.append kept.distinct (List.nodup_singleton i) (by simpa [and_comm] using fresh)
    · rw [if_neg last,List.append_nil]
      exact kept.distinct
  · intro j
    show j ∈ s.received ++ (s.testChan ++ if effect = .result then [i] else []) ↔
      cfg.test = true ∧ (replace s.workers i w j).pc = .returned
    rw [← List.append_assoc,List.mem_append,kept.reported j]
    by_cases same : j = i
    · subst same
      have result := advances.result
      have reports := advances.reports
      have unreturned := advances.before.2
      by_cases last : effect = .result <;> simp_all
    · rw [replace_other _ _ _ _ same]
      by_cases last : effect = .result <;> simp [last,same]

theorem stepWorker_kept (kept : Kept cfg s) (stepped : stepWorker cfg s i = some next) :
    Kept cfg next := by
  unfold stepWorker at stepped
  split at stepped
  · contradiction
  · next w advanced =>
    obtain rfl := Option.some.inj stepped
    simpa using kept.advance (advance_fits (kept.fits i) advanced) (by simp)
  · next w advanced =>
    split at stepped
    · next room =>
      obtain rfl := Option.some.inj stepped
      simpa using kept.advance (advance_fits (kept.fits i) advanced) fun _ => room
    · contradiction
  · next w advanced =>
    split at stepped
    · obtain rfl := Option.some.inj stepped
      simpa using kept.advance (advance_fits (kept.fits i) advanced) (by simp)
    · contradiction

theorem step_kept (kept : Kept cfg s) (stepped : step cfg s e = some next) : Kept cfg next := by
  cases e with
  | main => exact stepMain_kept kept stepped
  | worker i => exact stepWorker_kept kept stepped
  | recvTest i =>
    simp only [step,Option.ite_none_right_eq_some,Option.some.injEq] at stepped
    obtain ⟨running,rfl⟩ := stepped
    have closed := close_fits (kept.fits i) running
    have pcs (j : Nat) : (replace s.workers i { s.workers i with recv := .closed } j).pc =
        (s.workers j).pc := by
      by_cases same : j = i <;> simp [same]
    have givens (j : Nat) : (replace s.workers i { s.workers i with recv := .closed } j).given =
        (s.workers j).given := by
      by_cases same : j = i <;> simp [same]
    exact ⟨kept.fine,kept.active,
      replace_forall (R := fun i w => Fits cfg (cfg.outcome i) w) kept.fits closed,by
      simpa only [pcs] using kept.spawned,by simpa only [givens] using kept.tokens,kept.room,kept.opened,
      kept.tested,kept.distinct,by simpa only [pcs] using kept.reported⟩

theorem reachable_kept (reachable : (machine cfg).Reachable s) : Kept cfg s := by
  obtain ⟨es,reached⟩ := reachable
  exact (machine cfg).invariant (Kept cfg) (start_kept cfg) (fun _ _ _ => step_kept) reached

end Invariant

end Wschat.Load
