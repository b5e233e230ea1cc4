import Mathlib.Algebra.BigOperators.Group.Finset.Piecewise
import Mathlib.Data.List.Perm.Subperm
import Wschat.LoadBarrier

/-! Whether a test ends. Every run is finite, so it ends in a state where nobody moves; `main`
has all the results there unless a failed `NewConfig` has filled `startedChan`, which without a
common start nobody empties. -/
namespace Wschat.Load

section Rank

def Pc.rank (o : Outcome) : Pc → Nat
  | .unspawned => o.sends + 11
  | .config => o.sends + 10
  | .dial => o.sends + 9
  | .token => o.sends + 8
  | .dialed => o.sends + 7
  | .barrier => o.sends + 6
  | .uuid => o.sends + 5
  | .sending left => left + 3
  | .configToken | .done => 2
  | .result => 1
  | .returned => 0

def Worker.rank (o : Outcome) (w : Worker) : Nat :=
  w.pc.rank o + if w.recv = .running then 1 else 0

/-- The steps `main` has left. -/
def MainPc.rank (cfg : Config) : MainPc → Nat
  | .spawning i => cfg.numConns - i + 2*cfg.numConns + 4
  | .collecting i => cfg.numConns - i + cfg.numConns + 3
  | .closing => cfg.numConns + 2
  | .testing i => cfg.numConns - i + 1
  | .waiting => 1
  | .finished => 0

def rank (cfg : Config) (s : State) : Nat :=
  s.main.rank cfg + ∑ i ∈ Finset.range cfg.numConns, (s.workers i).rank (cfg.outcome i)

theorem rank_replace (cfg : Config) (workers : Nat → Worker) (inside : i < cfg.numConns)
    (less : w.rank (cfg.outcome i) < (workers i).rank (cfg.outcome i)) :
    ∑ j ∈ Finset.range cfg.numConns, (replace workers i w j).rank (cfg.outcome j) <
      ∑ j ∈ Finset.range cfg.numConns, (workers j).rank (cfg.outcome j) := by
  have sum := sum_replace (fun j (w : Worker) => w.rank (cfg.outcome j)) workers inside w
  omega

theorem afterBarrier_rank (cfg : Config) (o : Outcome) :
    (cfg.afterBarrier o).rank o ≤ o.sends + 5 := by
  unfold Config.afterBarrier
  split <;> simp only [Pc.rank] <;> omega

theorem exit_rank (cfg : Config) (o : Outcome) : cfg.exit.rank o ≤ 1 := by
  unfold Config.exit
  split <;> simp only [Pc.rank] <;> omega

theorem advance_rank (advanced : Worker.advance cfg o startChan w = some (next,effect)) :
    next.rank o < w.rank o := by
  obtain ⟨pc,recv,given⟩ := w
  have behind := afterBarrier_rank cfg o
  have leaving := exit_rank cfg o
  cases pc with
  | unspawned | returned => contradiction
  | config =>
    obtain ⟨rfl,rfl⟩ := Prod.mk.inj (Option.some.inj advanced)
    refine Nat.add_lt_add_right ?_ _
    show Pc.rank o (if o.configErr then .configToken else .dial) < o.sends + 10
    split <;> simp only [Pc.rank] <;> omega
  | dial =>
    obtain ⟨rfl,rfl⟩ := Prod.mk.inj (Option.some.inj advanced)
    refine Nat.add_lt_add_right ?_ _
    show Pc.rank o (if cfg.sameStart then .token else .dialed) < o.sends + 9
    split <;> simp only [Pc.rank] <;> omega
  | configToken | token | result =>
    obtain ⟨rfl,rfl⟩ := Prod.mk.inj (Option.some.inj advanced)
    exact Nat.add_lt_add_right (by simp [Pc.rank]) _
  | dialed =>
    obtain ⟨rfl,rfl⟩ := Prod.mk.inj (Option.some.inj advanced)
    refine Nat.add_lt_add_right ?_ _
    show Pc.rank o (if cfg.dialFails o then cfg.exit
      else if cfg.sameStart then .barrier else cfg.afterBarrier o) < o.sends + 7
    split
    · omega
    · split
      · exact Nat.lt_succ_self (o.sends + 6)
      · omega
  | barrier =>
    simp only [Worker.advance] at advanced
    split at advanced
    · obtain ⟨rfl,rfl⟩ := Prod.mk.inj (Option.some.inj advanced)
      exact Nat.add_lt_add_right (Nat.lt_succ_of_le behind) _
    · contradiction
  | uuid =>
    simp only [Worker.advance] at advanced
    split at advanced <;> obtain ⟨rfl,rfl⟩ := Prod.mk.inj (Option.some.inj advanced)
    · exact Nat.add_lt_add_right (by simp [Pc.rank]) _
    · simp only [Worker.rank,Pc.rank,if_true]
      omega
  | sending left =>
    cases left with
    | zero =>
      obtain ⟨rfl,rfl⟩ := Prod.mk.inj (Option.some.inj advanced)
      refine Nat.add_lt_add_right ?_ _
      show Pc.rank o (if cfg.test then .done else .returned) < 3
      split <;> simp only [Pc.rank] <;> omega
    | succ left =>
      obtain ⟨rfl,rfl⟩ := Prod.mk.inj (Option.some.inj advanced)
      exact Nat.add_lt_add_right (Nat.lt_succ_self (left + 3)) _
  | done =>
    simp only [Worker.advance] at advanced
    split at advanced
    · obtain ⟨rfl,rfl⟩ := Prod.mk.inj (Option.some.inj advanced)
      exact Nat.add_lt_add_right (Nat.lt_succ_self 1) _
    · contradiction

theorem entry_rank (cfg : Config) (o : Outcome) {w : Worker} (fresh : w.pc = .unspawned) :
    cfg.entry.rank o < w.rank o := by
  have entered : cfg.entry.rank o ≤ o.sends + 10 := by
    cases test : cfg.test <;> simp [Config.entry,test,Worker.rank,Pc.rank]
  have before : o.sends + 11 ≤ w.rank o := by
    simp only [Worker.rank,fresh,Pc.rank]
    omega
  omega

theorem afterStart_rank (cfg : Config) : cfg.afterStart.rank cfg ≤ cfg.numConns + 1 := by
  unfold Config.afterStart
  split <;> simp only [MainPc.rank] <;> omega

theorem stepMain_rank (kept : Kept cfg s) (stepped : stepMain cfg s = some next) :
    rank cfg next < rank cfg s := by
  have after := afterStart_rank cfg
  unfold stepMain at stepped
  split at stepped
  case h_1 i main =>
    split at stepped
    · next inside =>
      obtain rfl := Option.some.inj stepped
      have fresh : (s.workers i).pc = .unspawned := (kept.spawned i).mpr (by rw [main]; exact le_rfl)
      have less := rank_replace cfg s.workers inside (entry_rank cfg (cfg.outcome i) fresh)
      simp only [rank,main,MainPc.rank]
      omega
    · obtain rfl := Option.some.inj stepped
      refine Nat.add_lt_add_right ?_ _
      show MainPc.rank cfg (if cfg.sameStart then .collecting 0 else cfg.afterStart) < s.main.rank cfg
      rw [main]
      show _ < cfg.numConns - i + 2*cfg.numConns + 4
      split
      · show cfg.numConns - 0 + cfg.numConns + 3 < _
        omega
      · omega
  case h_2 i main =>
    split at stepped
    · split at stepped
      · obtain rfl := Option.some.inj stepped
        simp only [rank,main,MainPc.rank]
        omega
      · contradiction
    · obtain rfl := Option.some.inj stepped
      simp only [rank,main,MainPc.rank]
      omega
  case h_3 main =>
    obtain rfl := Option.some.inj stepped
    refine Nat.add_lt_add_right ?_ _
    rw [main]
    exact Nat.lt_succ_of_le after
  case h_4 i main =>
    split at stepped
    · split at stepped
      · contradiction
      · obtain rfl := Option.some.inj stepped
        simp only [rank,main,MainPc.rank]
        omega
    · obtain rfl := Option.some.inj stepped
      simp only [rank,main,MainPc.rank]
      omega
  case h_5 main =>
    split at stepped
    · obtain rfl := Option.some.inj stepped
      simp only [rank,main,MainPc.rank]
      omega
    · contradiction
  case h_6 => contradiction

theorem step_rank (kept : Kept cfg s) (stepped : step cfg s e = some next) :
    rank cfg next < rank cfg s := by
  cases e with
  | main => exact stepMain_rank kept stepped
  | worker i =>
    obtain ⟨w,effect,advanced,workers,-,main⟩ := stepWorker_cases stepped
    have advances := advance_fits (kept.fits i) advanced
    have less := rank_replace cfg s.workers (kept.inside advances.before.1) (advance_rank advanced)
    simp only [rank,workers,main]
    omega
  | recvTest i =>
    simp only [step,Option.ite_none_right_eq_some,Option.some.injEq] at stepped
    obtain ⟨running,rfl⟩ := stepped
    have less := rank_replace cfg s.workers (w := { s.workers i with recv := .closed })
      (kept.inside (running_started (kept.fits i) running)) (by simp [Worker.rank,running])
    exact Nat.add_lt_add_left less _

theorem run_rank (reached : (machine cfg).Reaches es s) :
    es.length + rank cfg s ≤ rank cfg (start cfg) := by
  refine (machine cfg).reaches_induction
    (motive := fun es s => es.length + rank cfg s ≤ rank cfg (start cfg)) (by simp [machine]) ?_ reached
  intro es s e next before ih stepped
  have less := step_rank (reachable_kept ⟨es,before⟩) stepped
  simp only [List.length_append,List.length_singleton]
  omega

end Rank

section Stuck

/-- Nobody can move. -/
def Stuck (cfg : Config) (s : State) : Prop := ∀ e, step cfg s e = none

def configErrs (cfg : Config) : Nat :=
  ((Finset.range cfg.numConns).filter fun i => (cfg.outcome i).configErr).card

/-- Where a worker cannot move, and the channel it waits for. -/
def Blocks (s : State) : Pc → Prop
  | .unspawned | .returned => True
  | .barrier => s.startChan = false
  | .token | .configToken => startedCap ≤ s.startedChan
  | .result => testCap ≤ s.testChan.length
  | _ => False

theorem stepWorker_none (blocked : stepWorker cfg s i = none) :
    Blocks s (s.workers i).pc ∨ (s.workers i).pc = .done ∧ (s.workers i).recv ≠ .closed := by
  unfold stepWorker at blocked
  rcases worker : s.workers i with ⟨pc,recv,given⟩
  rw [worker] at blocked
  cases pc with
  | unspawned | returned => exact .inl trivial
  | config | dial | dialed => simp [Worker.advance] at blocked
  | token | configToken =>
    simp only [Worker.advance,ite_eq_right_iff,reduceCtorEq,imp_false,not_lt] at blocked
    exact .inl blocked
  | barrier =>
    cases opened : s.startChan with
    | true => simp [Worker.advance,opened] at blocked
    | false => exact .inl opened
  | uuid =>
    cases fails : (cfg.outcome i).recvErr || (cfg.outcome i).unexpected <;>
      simp [Worker.advance,fails] at blocked
  | sending left => cases left <;> simp [Worker.advance] at blocked
  | result =>
    simp only [Worker.advance,ite_eq_right_iff,reduceCtorEq,imp_false,not_lt] at blocked
    exact .inl blocked
  | done =>
    refine .inr ⟨rfl,fun (closed : recv = .closed) => ?_⟩
    simp [Worker.advance,closed] at blocked

/-- `doneChan` holds up nobody: `runRecvTest` ends. -/
theorem stuck_blocks (kept : Kept cfg s) (stuck : Stuck cfg s) (i : Nat) :
    Blocks s (s.workers i).pc := by
  rcases stepWorker_none (stuck (.worker i)) with blocks | ⟨done,unclosed⟩
  · exact blocks
  · have holds := (kept.fits i).holds
    rw [done] at holds
    have ends := stuck (.recvTest i)
    cases recv : (s.workers i).recv with
    | idle => exact absurd recv holds.2.2
    | running => simp [step,recv] at ends
    | closed => exact absurd recv unclosed

theorem collecting_free (kept : Kept cfg s) (stuck : Stuck cfg s) (main : s.main = .collecting i) :
    cfg.numConns ≤ i := by
  by_contra short
  obtain ⟨⟨-,same⟩,-⟩ := kept.place main
  have empty : s.startedChan = 0 := by
    have waits := stuck .main
    simp only [step,stepMain,main] at waits
    rw [if_pos (not_le.mp short)] at waits
    by_contra held
    simp [Nat.pos_of_ne_zero held] at waits
  have given (j : Nat) (inside : j < cfg.numConns) : (s.workers j).given = 1 := by
    have started : (s.workers j).pc ≠ .unspawned := fun unspawned => by
      have late := (kept.spawned j).mp unspawned
      rw [main] at late
      exact absurd inside (not_lt.mpr late)
    have blocks := stuck_blocks kept stuck j
    rw [(kept.fits j).given]
    cases pc : (s.workers j).pc with
    | unspawned => exact absurd pc started
    | barrier | result | returned => simp [Config.tokens,same]
    | token | configToken =>
      rw [pc] at blocks
      simp [Blocks,empty,startedCap] at blocks
    | config | dial | dialed | uuid | sending | done =>
      rw [pc] at blocks
      exact blocks.elim
  have sum : ∑ j ∈ Finset.range cfg.numConns, (s.workers j).given = cfg.numConns := by
    rw [Finset.sum_congr rfl fun j inside => given j (Finset.mem_range.mp inside)]
    simp
  have tokens := kept.tokens
  rw [main,empty,sum] at tokens
  simp only [MainPc.collected] at tokens
  omega

theorem started_apart (kept : Kept cfg s) (apart : cfg.sameStart = false) :
    s.startedChan = ∑ i ∈ Finset.range cfg.numConns, (s.workers i).given := by
  have tokens := kept.tokens
  cases main : s.main with
  | collecting i => exact absurd (apart.symm.trans (kept.place main).1.2) Bool.false_ne_true
  | spawning | closing | testing | waiting | finished =>
    rw [main] at tokens
    simpa [MainPc.collected,apart] using tokens

/-- A worker that waits for room after a failed `NewConfig` has had more such failures before
it than `startedChan` holds. -/
theorem crowded (kept : Kept cfg s) (apart : cfg.sameStart = false) (inside : i < cfg.numConns)
    (waits : (s.workers i).pc = .configToken) (full : startedCap ≤ s.startedChan) :
    startedCap < configErrs cfg := by
  have holds := (kept.fits i).holds
  rw [waits] at holds
  have tokens := started_apart kept apart
  have le : ∀ j ∈ Finset.range cfg.numConns,
      (s.workers j).given ≤ if (cfg.outcome j).configErr then 1 else 0 := fun j _ => by
    rw [(kept.fits j).given]
    cases pc : (s.workers j).pc <;> simp [Config.tokens,apart,holds.1]
  have lt : ∑ j ∈ Finset.range cfg.numConns, (s.workers j).given <
      ∑ j ∈ Finset.range cfg.numConns, if (cfg.outcome j).configErr then 1 else 0 := by
    refine Finset.sum_lt_sum le ⟨i,Finset.mem_range.mpr inside,?_⟩
    rw [(kept.fits i).given,waits]
    simp [Config.tokens,holds.2]
  rw [configErrs,Finset.card_filter]
  omega

theorem testing_returned (kept : Kept cfg s) (stuck : Stuck cfg s) (main : s.main = .testing i)
    (empty : s.testChan = []) (free : cfg.sameStart = true ∨ configErrs cfg ≤ startedCap)
    (inside : j < cfg.numConns) : (s.workers j).pc = .returned := by
  have blocks := stuck_blocks kept stuck j
  have holds := (kept.fits j).holds
  have opened (same : cfg.sameStart = true) : s.startChan = true := by
    rw [(kept.place main).2.1]
    simp [MainPc.opened,same,kept.active (by simp [main])]
  have sent (same : cfg.sameStart = true) : cfg.tokens (cfg.outcome j) (s.workers j).pc = 1 :=
    (kept.fits j).given.symm.trans (all_given kept same (opened same) j inside)
  cases pc : (s.workers j).pc with
  | returned => rfl
  | unspawned =>
    have late := (kept.spawned j).mp pc
    rw [main] at late
    exact absurd inside (not_lt.mpr late)
  | result =>
    rw [pc] at blocks
    simp [Blocks,empty,testCap] at blocks
  | barrier =>
    rw [pc] at blocks holds
    exact absurd (blocks.symm.trans (opened holds.2)) Bool.false_ne_true
  | token =>
    rw [pc] at holds
    have unsent := sent holds.2
    simp [pc,Config.tokens] at unsent
  | configToken =>
    rw [pc] at blocks
    cases same : cfg.sameStart with
    | true =>
      have unsent := sent same
      simp [pc,Config.tokens] at unsent
    | false =>
      have few := free.resolve_left (by simp [same])
      exact absurd few (not_le.mpr (crowded kept same inside pc blocks))
  | config | dial | dialed | uuid | sending | done =>
    rw [pc] at blocks
    exact blocks.elim

theorem stuck_finished (kept : Kept cfg s) (test : cfg.test = true) (stuck : Stuck cfg s)
    (free : cfg.sameStart = true ∨ configErrs cfg ≤ startedCap) : s.main = .finished := by
  have waits : stepMain cfg s = none := stuck .main
  cases main : s.main with
  | finished => rfl
  | spawning i =>
    simp only [stepMain,main] at waits
    split at waits <;> contradiction
  | closing => simp [stepMain,main] at waits
  | waiting => exact absurd (test.symm.trans (kept.place main).1) (by simp)
  | collecting i => simp [stepMain,main,not_lt.mpr (collecting_free kept stuck main)] at waits
  | testing i =>
    simp only [stepMain,main] at waits
    split at waits
    · next short =>
      split at waits
      · next empty =>
        have all : List.range cfg.numConns ⊆ s.received := by
          intro j member
          have returned := testing_returned kept stuck main empty free (List.mem_range.mp member)
          simpa [empty] using (kept.reported j).mpr ⟨test,returned⟩
        have most := (List.subperm_of_subset List.nodup_range all).length_le
        rw [(kept.place main).2.2,List.length_range] at most
        simp only [MainPc.tested] at most
        omega
      · contradiction
    · contradiction

theorem finished_complete (kept : Kept cfg s) (test : cfg.test = true) (main : s.main = .finished) :
    s.received.Perm (List.range cfg.numConns) := by
  have nodup : s.received.Nodup := (List.nodup_append.mp kept.distinct).1
  have members : s.received ⊆ List.range cfg.numConns := by
    intro i member
    have returned := ((kept.reported i).mp (List.mem_append_left _ member)).2
    exact List.mem_range.mpr (kept.inside (by simp [returned]))
  have tested := (kept.place main).2.2
  exact (List.subperm_of_subset nodup members).perm_of_length_le (by
    simp [tested,MainPc.tested,test])

theorem complete_errs (kept : Kept cfg s) (test : cfg.test = true) (apart : cfg.sameStart = false)
    (complete : s.received.Perm (List.range cfg.numConns)) : configErrs cfg ≤ startedCap := by
  have tokens := started_apart kept apart
  have room := kept.room
  have sum : ∑ i ∈ Finset.range cfg.numConns, (s.workers i).given = configErrs cfg := by
    rw [configErrs,Finset.card_filter]
    refine Finset.sum_congr rfl fun i inside => ?_
    have member : i ∈ s.received :=
      complete.mem_iff.mpr (List.mem_range.mpr (Finset.mem_range.mp inside))
    have returned := ((kept.reported i).mp (List.mem_append_left _ member)).2
    rw [(kept.fits i).given,returned]
    simp [Config.tokens,apart,test]
  omega

/-- Every run can go on to a state where nobody can move. -/
theorem leads_stuck (cfg : Config) : ∃ s, (machine cfg).Reachable s ∧ Stuck cfg s := by
  have first : (machine cfg).Reachable (machine cfg).start := ⟨[],rfl⟩
  have down : ∀ s, (machine cfg).Reachable s → True → ¬Stuck cfg s →
      ∃ t, (machine cfg).Leads s t ∧ True ∧ rank cfg t < rank cfg s := by
    intro s reachable _ moves
    obtain ⟨e,moved⟩ := not_forall.mp moves
    obtain ⟨next,stepped⟩ := Option.ne_none_iff_exists'.mp moved
    exact ⟨next,.step (machine cfg) stepped,trivial,step_rank (reachable_kept reachable) stepped⟩
  obtain ⟨s,leads,stuck⟩ := (machine cfg).leads_to (rank cfg) _ (Stuck cfg) down _ first trivial
  exact ⟨s,first.leads (machine cfg) leads,stuck⟩

/-- In test mode `runTest` has a result of every worker whenever nobody can move, exactly where
the workers start together or `startedChan` has room for every failed `NewConfig`. -/
theorem never_stuck_iff (cfg : Config) (test : cfg.test = true) :
    (∀ s, (machine cfg).Reachable s → Stuck cfg s → s.received.Perm (List.range cfg.numConns)) ↔
      cfg.sameStart = true ∨ configErrs cfg ≤ startedCap := by
  constructor
  · intro never
    obtain ⟨s,reachable,stuck⟩ := leads_stuck cfg
    cases same : cfg.sameStart with
    | true => exact .inl rfl
    | false => exact .inr (complete_errs (reachable_kept reachable) test same (never s reachable stuck))
  · intro free s reachable stuck
    have kept := reachable_kept reachable
    exact finished_complete kept test (stuck_finished kept test stuck free)

/-- Two workers, of which one cannot make its config. -/
def halved : Config := ⟨2,false,true,fun i => ⟨i = 0,false,false,false,3⟩⟩

theorem halved_complete : ∃ s, (machine halved).Reachable s ∧ Stuck halved s ∧
    s.received.Perm (List.range 2) := by
  obtain ⟨s,reachable,stuck⟩ := leads_stuck halved
  exact ⟨s,reachable,stuck,(never_stuck_iff halved rfl).mpr (.inr (by decide)) s reachable stuck⟩

/-- Six workers with an address that `NewConfig` refuses. -/
def refused : Config := ⟨6,false,true,fun _ => ⟨true,false,false,false,0⟩⟩

/-- Five of them fill `startedChan` and hand in their results, which `runTest` receives. -/
def refusedRun : List Event :=
  List.replicate 7 .main ++ (List.range 6).map .worker ++
    (List.range 5).flatMap (fun i => [.worker i,.worker i]) ++ List.replicate 5 .main

theorem refused_hangs : ∃ s, (machine refused).Reaches refusedRun s ∧ Stuck refused s ∧
    s.received = [0,1,2,3,4] ∧ (s.workers 5).pc = .configToken ∧ s.startedChan = startedCap ∧
      ¬s.received.Perm (List.range refused.numConns) := by
  obtain ⟨s,reached,waits,received,pc,full,blocked,idle⟩ : ∃ s,
      (machine refused).Reaches refusedRun s ∧ stepMain refused s = none ∧
      s.received = [0,1,2,3,4] ∧ (s.workers 5).pc = .configToken ∧ s.startedChan = startedCap ∧
      (∀ i < 6, (stepWorker refused s i).isNone) ∧ ∀ i < 6, (s.workers i).recv = .idle :=
    ⟨_,rfl,rfl,rfl,rfl,rfl,by decide,by decide⟩
  have kept := reachable_kept ⟨refusedRun,reached⟩
  have unspawned (i : Nat) (beyond : ¬i < 6) : (s.workers i).pc = .unspawned :=
    (kept.spawned i).mpr ((spawned_le kept.fine).trans (not_lt.mp beyond))
  refine ⟨s,reached,?_,received,pc,full,?_⟩
  · intro e
    cases e with
    | main => exact waits
    | worker i =>
      by_cases inside : i < 6
      · exact Option.isNone_iff_eq_none.mp (blocked i inside)
      · simp [step,stepWorker,Worker.advance,unspawned i inside]
    | recvTest i =>
      by_cases inside : i < 6
      · simp [step,idle i inside]
      · have holds := (kept.fits i).holds
        rw [unspawned i inside] at holds
        have quiet : (s.workers i).recv = .idle := holds
        simp [step,quiet]
  · intro complete
    have length := complete.length_eq
    simp [received,refused] at length

end Stuck

end Wschat.Load
