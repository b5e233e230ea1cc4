import Mathlib.Algebra.Order.BigOperators.Group.Finset
import Wschat.LoadTest

/-! Starting together: a worker passes the barrier only after `main` has taken as many tokens
as there are workers, and each worker sends one. -/
namespace Wschat.Load

def Pc.attempted : Pc → Bool
  | .unspawned | .config | .dial => false
  | _ => true

def Pc.past : Pc → Bool
  | .uuid | .sending _ | .done => true
  | _ => false

/-- With a common start, the workers behind the barrier have found `startChan` closed. -/
def Waited (cfg : Config) (s : State) : Prop :=
  cfg.sameStart = true → ∀ i, (s.workers i).pc.past = true → s.startChan = true

theorem stepMain_frame (stepped : stepMain cfg s = some next) :
    (∀ i, (next.workers i).pc.past = true → (s.workers i).pc.past = true) ∧
      (s.startChan = true → next.startChan = true) := by
  have entered : cfg.entry.pc.past = false := by
    cases test : cfg.test <;> simp [Config.entry,test,Pc.past]
  unfold stepMain at stepped
  split at stepped
  case h_1 i _ =>
    split at stepped
    · obtain rfl := Option.some.inj stepped
      refine ⟨fun j past => ?_,id⟩
      by_cases same : j = i
      · simp [same,entered] at past
      · simpa [same] using past
    · obtain rfl := Option.some.inj stepped
      exact ⟨fun _ => id,id⟩
  all_goals
    repeat' split at stepped
    all_goals try contradiction
    all_goals
      obtain rfl := Option.some.inj stepped
      exact ⟨fun _ => id,fun opened => by simp [opened]⟩

/-- Only the barrier itself leads behind it. -/
theorem advance_past (same : cfg.sameStart = true)
    (advanced : Worker.advance cfg o startChan w = some (next,effect)) (past : next.pc.past = true) :
    w.pc.past = true ∨ startChan = true := by
  obtain ⟨pc,recv,given⟩ := w
  cases pc with
  | unspawned | returned => contradiction
  | uuid | sending | done => exact .inl rfl
  | barrier =>
    cases opened : startChan with
    | true => exact .inr rfl
    | false => simp [Worker.advance,opened] at advanced
  | dialed =>
    obtain ⟨rfl,rfl⟩ := Prod.mk.inj (Option.some.inj advanced)
    cases fails : cfg.dialFails o <;> cases test : cfg.test <;>
      simp [fails,same,Config.exit,test,Pc.past] at past
  | config =>
    obtain ⟨rfl,rfl⟩ := Prod.mk.inj (Option.some.inj advanced)
    cases configErr : o.configErr <;> simp [configErr,Pc.past] at past
  | configToken | dial | token | result =>
    obtain ⟨rfl,rfl⟩ := Prod.mk.inj (Option.some.inj advanced)
    simp [same,Pc.past] at past

theorem stepWorker_cases (stepped : stepWorker cfg s i = some next) : ∃ w effect,
    (s.workers i).advance cfg (cfg.outcome i) s.startChan = some (w,effect) ∧
      next.workers = replace s.workers i w ∧ next.startChan = s.startChan ∧ next.main = s.main := by
  unfold stepWorker at stepped
  split at stepped
  · contradiction
  · next w advanced =>
    obtain rfl := Option.some.inj stepped
    exact ⟨w,_,advanced,rfl,rfl,rfl⟩
  · next w advanced =>
    split at stepped
    · obtain rfl := Option.some.inj stepped
      exact ⟨w,_,advanced,rfl,rfl,rfl⟩
    · contradiction
  · next w advanced =>
    split at stepped
    · obtain rfl := Option.some.inj stepped
      exact ⟨w,_,advanced,rfl,rfl,rfl⟩
    · contradiction

theorem step_waited (waited : Waited cfg s) (stepped : step cfg s e = some next) : Waited cfg next := by
  intro same i past
  cases e with
  | main =>
    obtain ⟨behind,stays⟩ := stepMain_frame stepped
    exact stays (waited same i (behind i past))
  | worker j =>
    obtain ⟨w,effect,advanced,workers,stays,-⟩ := stepWorker_cases stepped
    rw [stays]
    rw [workers] at past
    by_cases here : i = j
    · subst here
      rw [replace_same] at past
      rcases advance_past same advanced past with before | opened
      · exact waited same i before
      · exact opened
    · rw [replace_other _ _ _ _ here] at past
      exact waited same i past
  | recvTest j =>
    simp only [step,Option.ite_none_right_eq_some,Option.some.injEq] at stepped
    obtain ⟨-,rfl⟩ := stepped
    by_cases here : i = j
    · subst here
      exact waited same i (by simpa using past)
    · exact waited same i (by simpa [here] using past)

theorem tokens_le (cfg : Config) (o : Outcome) (pc : Pc) : cfg.tokens o pc ≤ 1 := by
  cases pc with
  | unspawned | config | configToken | dial | token => exact Nat.zero_le 1
  | dialed | barrier | uuid | sending | done | result | returned =>
    simp only [Config.tokens]
    split <;> omega

/-- Once `startChan` is closed, every worker has sent its token. -/
theorem all_given (kept : Kept cfg s) (same : cfg.sameStart = true) (opened : s.startChan = true) :
    ∀ j < cfg.numConns, (s.workers j).given = 1 := by
  have le : ∀ j ∈ Finset.range cfg.numConns, (s.workers j).given ≤ 1 := fun j _ => by
    rw [(kept.fits j).given]
    exact tokens_le cfg _ _
  have taken : s.main.collected cfg = cfg.numConns := by
    have main := kept.opened
    rw [opened] at main
    cases place : s.main with
    | spawning | collecting | closing => simp [place,MainPc.opened] at main
    | testing | waiting | finished => simp [MainPc.collected,same]
  have tokens := kept.tokens
  have most : ∑ j ∈ Finset.range cfg.numConns, (s.workers j).given ≤ cfg.numConns := by
    simpa using Finset.sum_le_sum le
  have sum : ∑ j ∈ Finset.range cfg.numConns, (s.workers j).given =
      ∑ _j ∈ Finset.range cfg.numConns, 1 := by
    rw [Finset.sum_const,Finset.card_range,Nat.nsmul_eq_mul]
    omega
  exact fun j inside =>
    (Finset.sum_eq_sum_iff_of_le le).mp sum j (Finset.mem_range.mpr inside)

/-- With a common start, in either mode, no worker is at its first send before every worker has
tried to connect; and every worker sends one token, on every path to its end. -/
theorem start_together (cfg : Config) (same : cfg.sameStart = true)
    (reached : (machine cfg).Reaches es s) :
    (∀ i left, (s.workers i).pc = .sending left →
      ∀ j < cfg.numConns, (s.workers j).pc.attempted = true) ∧
    ∀ i < cfg.numConns, (s.workers i).given ≤ 1 ∧
      ((s.workers i).pc = .returned → (s.workers i).given = 1) := by
  have kept := reachable_kept ⟨es,reached⟩
  have waited := (machine cfg).invariant (Waited cfg)
    (fun _ i past => by simp [machine,start,Pc.past] at past) (fun _ _ _ => step_waited) reached
  constructor
  · intro i left sending j inside
    have opened := waited same i (by rw [sending]; rfl)
    have given := all_given kept same opened j inside
    rw [(kept.fits j).given] at given
    cases pc : (s.workers j).pc <;> simp_all [Config.tokens,Pc.attempted]
  · intro i _
    have given := (kept.fits i).given
    refine ⟨given ▸ tokens_le cfg _ _,fun returned => ?_⟩
    rw [given,returned]
    simp [Config.tokens,same]

/-- Four workers: the config of 0 fails and the dial of 1, and 2 and 3 get to send. -/
def uneven : Config where
  numConns := 4
  sameStart := true
  test := true
  outcome
    | 0 => ⟨true,false,false,false,0⟩
    | 1 => ⟨false,true,false,false,0⟩
    | 2 => ⟨false,false,false,false,2⟩
    | _ => ⟨false,false,false,false,1⟩

/-- The two that fail are through before `main` has all the tokens; 3 has sent before 2 has. -/
def unevenRun : List Event :=
  [.main,.main,.main,.main,.main,
   .worker 0,.worker 0,.worker 0,.worker 1,.worker 1,.worker 1,.worker 1,.worker 1,
   .main,.worker 2,.worker 2,.worker 2,.worker 2,.main,
   .worker 3,.worker 3,.worker 3,.worker 3,.main,.main,.main,.main,
   .worker 3,.worker 3,.worker 3,.worker 2,.worker 2]

theorem uneven_together : ∃ s, (machine uneven).Reaches unevenRun s ∧
    (s.workers 2).pc = .sending 2 ∧ (s.workers 3).pc = .sending 0 ∧
    ((s.workers 0).pc = .returned ∧ (s.workers 0).given = 1) ∧
    ((s.workers 1).pc = .returned ∧ (s.workers 1).given = 1) ∧
    ∀ j < 4, (s.workers j).pc.attempted = true ∧ (s.workers j).given ≤ 1 := by
  obtain ⟨s,reached,two,three,zero,one⟩ : ∃ s, (machine uneven).Reaches unevenRun s ∧
      (s.workers 2).pc = .sending 2 ∧ (s.workers 3).pc = .sending 0 ∧
      (s.workers 0).pc = .returned ∧ (s.workers 1).pc = .returned :=
    ⟨_,rfl,rfl,rfl,rfl,rfl⟩
  have together := start_together uneven rfl reached
  exact ⟨s,reached,two,three,⟨zero,(together.2 0 (by decide)).2 zero⟩,⟨one,(together.2 1 (by decide)).2 one⟩,
    fun j inside => ⟨together.1 2 2 two j inside,(together.2 j inside).1⟩⟩

end Wschat.Load
