import Wschat.CppSafety

/-! The workers of the C++ server get done. Each step of an activation has a price, paid
for by the one it replaces, and some busy worker is never blocked as long as no destructor
starts below a lock. -/
namespace Wschat.Cpp

open Workers

def Event.isExec : Event → Bool
  | .exec _ _ _ => true
  | _ => false

def Point.joining : Point → Nat
  | .send _ _ => 1
  | .loop caller _ _ _ => if caller = .connect then 1 else 0
  | .lock op _ | .update op _ => if op = .insert then 1 else 0
  | _ => 0

/-- Steps of one broadcast over a set that has at most `m` members. -/
def Loop.cost (m : Nat) : Loop → Nat
  | .enter => 3 * m + 2
  | .next todo => 3 * todo.length + 1
  | .drop _ todo => 3 * todo.length + 2
  | .send _ todo => 3 * todo.length + 3

/-- Steps from `lock` on; those of `insert` end with a release that may start `~WsConn`. -/
def SetOp.cost (m : Nat) : SetOp → Nat
  | .insert => 3 * m + 9
  | .erase => 1

/-- Steps left of one activation and of the destructor it may start. -/
def Point.cost (m : Nat) : Point → Nat
  | .send _ _ => 6 * m + 15
  | .reply _ _ => 3 * m + 10
  | .loop .connect _ _ progress => progress.cost m + (3 * m + 12)
  | .loop .handle _ _ progress => progress.cost m + (3 * m + 9)
  | .loop .disconnect _ _ progress => progress.cost m + 4
  | .lock op _ => op.cost m + 3
  | .update op _ => op.cost m + 2
  | .unlock op _ => op.cost m + 1
  | .read _ _ => 3 * m + 9
  | .drop _ => 3 * m + 8
  | .leave _ | .free _ => 1

/-- The members the set may get while no new handler starts. -/
def bound (s : State) (ps : Multiset Point) : Nat :=
  s.clients.length + weigh Point.joining ps

/-- Steps that the workers can take, all together, before each of them is idle. -/
def System.work (s : System) : Nat :=
  weigh (Point.cost (bound s.state (activations s.threads))) (activations s.threads)

def System.Idle (s : System) : Prop := ∀ t, stackOf s t = []

theorem cost_mono (less : m ≤ m') (p : Point) : p.cost m ≤ p.cost m' := by
  cases p with
  | loop caller x ss progress => cases caller <;> cases progress <;> simp [Point.cost,Loop.cost] <;> omega
  | lock op x | update op x | unlock op x => cases op <;> simp [Point.cost,SetOp.cost] ; omega
  | _ => simp [Point.cost] <;> omega

/-- A step of an activation costs at least one, and leaves room in the set for what is still
to be inserted. -/
theorem move_work (env : Env) (t : Thread) (s next : State) (p : Point) (new : List Point)
    (rest m : Nat) (moved : Move env t s [p] next new)
    (calm : ∀ caller x ss y todo, p = .loop caller x ss (.drop y todo) → (s.conns y).refs ≠ 1)
    (room : s.clients.length + p.joining + rest ≤ m) :
    next.clients.length + (new.map Point.joining).sum + rest ≤
      s.clients.length + p.joining + rest ∧ (new.map (Point.cost m)).sum < p.cost m := by
  cases moved with
  | lockShared caller x ss order free perm =>
    have size := perm.length_eq
    cases caller <;> simp [Point.joining,Point.cost,Loop.cost] at room ⊢ <;> omega
  | unlockShared caller x ss =>
    cases caller <;> simp [Point.joining,Point.cost,Loop.cost,afterLoop,SetOp.cost]
  | retain caller x ss y todo alive =>
    cases caller <;> simp [Point.joining,Point.cost,Loop.cost] <;> omega
  | expired caller x ss y todo gone =>
    cases caller <;> simp [Point.joining,Point.cost,Loop.cost]
  | post caller x ss y todo =>
    cases caller <;> simp [Point.joining,Point.cost,Loop.cost]
  | release caller x ss y todo more =>
    cases caller <;> simp [Point.joining,Point.cost,Loop.cost]
  | releaseLast caller x ss y todo now last => exact absurd last (calm caller x ss y todo rfl)
  | insert x =>
    have size : (s.clients.insert x).length ≤ s.clients.length + 1 := by
      by_cases there : x ∈ s.clients
      · simp [List.insert_of_mem there]
      · simp [List.insert_of_not_mem there]
    simp [Point.joining,Point.cost]
    omega
  | erase x =>
    have size := (List.erase_sublist (a := x) (l := s.clients)).length_le
    simp [Point.joining,Point.cost]
    omega
  | lock op x free empty => cases op <;> simp [Point.joining,Point.cost,SetOp.cost]
  | dropLast x now last =>
    simp [Point.joining,Point.cost,destructor,Loop.cost]
  | send x ss => simp [Point.joining,Point.cost,Loop.cost]; omega
  | _ => simp [Point.joining,Point.cost,SetOp.cost]

theorem exec_step (env : Env) (s next : System) (e : Event) (exec : e.isExec = true)
    (stepped : step env s e = some next) : ∃ t p rest new, s.threads[t]? = some (p :: rest) ∧
      Move env t s.state [p] next.state new ∧ next.threads = s.threads.set t (new ++ rest) := by
  cases e with
  | exec t order now =>
    simp only [step] at stepped
    split at stepped
    case h_2 => contradiction
    case h_1 p rest top =>
      obtain ⟨result,ran,rfl⟩ := Option.map_eq_some_iff.mp stepped
      exact ⟨t,p,rest,result.2,top,exec_move env s.state t order now p result ran,rfl⟩
  | _ => simp [Event.isExec] at exec

theorem exec_undrained (s : System) (e : Event) (exec : e.isExec = true) : Undrained s e := by
  rintro t y rfl
  simp [Event.isExec] at exec

/-- The state is reached without the last handler of a visited connection being run early. -/
def Undisturbed (env : Env) (workers : Nat) (s : System) : Prop :=
  ∃ es, (machine env workers).Reaches es s ∧ (machine env workers).Meets Undrained es

theorem Undisturbed.exec (calm : Undisturbed env workers s) (exec : e.isExec = true)
    (stepped : step env s e = some next) : Undisturbed env workers next := by
  obtain ⟨es,reached,meets⟩ := calm
  refine ⟨es ++ [e],(Machine.reaches_concat _ _ _ _).mpr ⟨s,reached,stepped⟩,?_⟩
  refine meets.append _ (fun e' member s => ?_)
  obtain rfl := List.mem_singleton.mp member
  exact exec_undrained s e' exec

theorem reader_of_shares (env : Env) (workers : Nat) (reached : (machine env workers).Reaches es s)
    (member : p ∈ stackOf s t) (shares : 0 < p.shares) : t ∈ s.state.mtx.readers := by
  apply List.count_pos_iff.mp
  rw [readers_count env workers reached t]
  have := List.le_sum_of_mem (List.mem_map_of_mem (f := Point.shares) member)
  omega

theorem Undisturbed.keeps {s : System} {t : Thread} {rest : List Point}
    (calm : Undisturbed env workers s)
    (top : s.threads[t]? = some (Point.loop caller x ss (.drop y todo) :: rest)) :
    (s.state.conns y).refs ≠ 1 := by
  obtain ⟨es,reached,meets⟩ := calm
  intro last
  have stack := stackOf_top top
  refine undrained_safe env workers reached meets ⟨t,y,.inl ?_,last,?_⟩
  · exact reader_of_shares env workers reached (p := .loop caller x ss (.drop y todo))
      (by simp [stack]) (by simp [Point.shares])
  · simp [stack,Point.releasing]

theorem exec_work (env : Env) (workers : Nat) (s next : System) (e : Event)
    (calm : Undisturbed env workers s) (exec : e.isExec = true)
    (stepped : step env s e = some next) :
    Undisturbed env workers next ∧ next.work < s.work := by
  refine ⟨calm.exec exec stepped,?_⟩
  obtain ⟨t,p,rest,new,top,moved,eq⟩ := exec_step env s next e exec stepped
  have stack : s.threads[t]? = some ([p] ++ rest) := top
  obtain ⟨others,cut,after⟩ := split stack
  obtain ⟨room,less⟩ := move_work env t s.state next.state p new (weigh Point.joining others)
    (bound s.state (activations s.threads)) moved
    (fun caller x ss y todo same => calm.keeps (same ▸ top))
    (by simp only [bound,cut,weigh_add,weigh_coe,List.map_cons,List.map_nil,List.sum_cons,
          List.sum_nil]; omega)
  have shrinks : bound next.state (activations next.threads) ≤
      bound s.state (activations s.threads) := by
    simp only [bound,eq,after new,cut,weigh_add,weigh_coe,List.map_cons,List.map_nil,
      List.sum_cons,List.sum_nil]
    omega
  have cheaper := weigh_mono (cost_mono shrinks) (activations next.threads)
  refine lt_of_le_of_lt cheaper ?_
  rw [System.work,eq,after new,cut] at *
  simp only [weigh_add,weigh_coe,List.map_cons,List.map_nil,List.sum_cons,List.sum_nil] at less ⊢
  omega

theorem move_shallow (env : Env) (t : Thread) (s next : State) (old new : List Point)
    (moved : Move env t s old next new)
    (calm : ∀ caller x ss y todo, old = [.loop caller x ss (.drop y todo)] →
      (s.conns y).refs ≠ 1) : ∀ q ∈ new.tail, ∃ x, q = .leave x := by
  cases moved with
  | releaseLast caller x ss y todo now last => exact absurd last (calm caller x ss y todo rfl)
  | dropLast x now last => simp
  | _ => simp

/-- Below the top of a stack there is only a strand to release. -/
theorem Undisturbed.shallow (calm : Undisturbed env workers s) (t : Thread) :
    ∀ q ∈ (stackOf s t).tail, ∃ x, q = .leave x := by
  obtain ⟨es,reached,meets⟩ := calm
  refine (machine env workers).reaches_induction
    (motive := fun es s => (machine env workers).Meets Undrained es → ∀ t,
      ∀ q ∈ (stackOf s t).tail, ∃ x, q = .leave x) ?_ ?_ reached meets t
  · intro _ t
    by_cases inside : t < workers <;> simp [machine,start,stackOf,inside]
  · intro es s e next before ih stepped meets other
    have calm : Undisturbed env workers s := ⟨es,before,meets.init⟩
    rcases step_cases env s next e stepped with ⟨x,fresh,rfl⟩ | ⟨t,old,new,rest,top,idle,moved,eq⟩
    · exact ih meets.init other
    · rw [stackOf_set eq top]
      by_cases same : other = t
      · subst other
        rw [if_pos rfl]
        have fresh := move_shallow env t s.state next.state old new moved
          (fun caller x ss y todo same => by
            have loop : s.threads[t]? = some (.loop caller x ss (.drop y todo) :: rest) := by
              rw [top,same]
              rfl
            exact calm.keeps loop)
        have below : ∀ q ∈ rest, ∃ x, q = .leave x := by
          intro q member
          refine ih meets.init t q ?_
          rw [stackOf_top top]
          cases old with
          | nil => simp [idle rfl] at member
          | cons p old => simp [member]
        intro q member
        cases new with
        | nil => exact below q (List.mem_of_mem_tail member)
        | cons p new =>
          rcases List.mem_append.mp member with here | later
          · exact fresh q here
          · exact below q later
      · rw [if_neg same]
        exact ih meets.init other

/-- What the mutex keeps an activation from doing. -/
def Point.Blocked (s : State) : Point → Prop
  | .loop _ _ _ .enter => s.mtx.writer ≠ none
  | .lock _ _ => s.mtx.writer ≠ none ∨ s.mtx.readers ≠ []
  | _ => False

theorem exec_enabled (env : Env) (s : System) (stack : stackOf s t = p :: rest)
    (free : ¬p.Blocked s.state) : ∃ e, e.isExec = true ∧ (step env s e).isSome = true := by
  have top : s.threads[t]? = some (p :: rest) := by
    cases there : s.threads[t]? with
    | none => simp [stackOf,there] at stack
    | some stack' => rw [stackOf_top there] at stack; rw [stack]
  refine ⟨.exec t s.state.clients 0,rfl,?_⟩
  simp only [step,top,Option.isSome_map]
  cases p with
  | loop caller x ss progress =>
    rcases progress with _ | (_ | ⟨y,todo⟩) | ⟨y,todo⟩ | ⟨y,todo⟩ <;> simp only [exec]
    · simp only [Point.Blocked,not_not] at free
      simp [free]
    · simp
    · split <;> simp
    · simp
    · simp
  | lock op x =>
    simp only [Point.Blocked,not_or,not_not] at free
    simp [exec,free]
  | update op x | unlock op x => cases op <;> simp [exec]
  | _ => simp [exec]

theorem not_blocked_of_holds {p : Point} (holds : 0 < p.owns ∨ 0 < p.shares) (s : State) :
    ¬p.Blocked s := by
  cases p with
  | loop caller x ss progress =>
    cases progress <;> simp [Point.owns,Point.shares,Point.Blocked] at holds ⊢
  | _ => simp [Point.owns,Point.shares,Point.Blocked] at holds ⊢

/-- Some busy worker can go on: the one that holds the mutex, or any if nobody does. -/
theorem Undisturbed.progress (calm : Undisturbed env workers s) (busy : ¬s.Idle) :
    ∃ e, e.isExec = true ∧ (step env s e).isSome = true := by
  obtain ⟨es,reached,meets⟩ := id calm
  cases writer : s.state.mtx.writer with
  | some t =>
    obtain ⟨p,rest,stack,owns⟩ := writer_on_top env workers reached t writer
    exact exec_enabled env s stack (not_blocked_of_holds (.inl owns) s.state)
  | none =>
    cases readers : s.state.mtx.readers with
    | cons t others =>
      have count := readers_count env workers reached t
      rw [readers,List.count_cons_self] at count
      have shares : ∃ p ∈ stackOf s t, 0 < p.shares := by
        by_contra none_
        push Not at none_
        have zero : ((stackOf s t).map Point.shares).sum = 0 := by
          rw [List.sum_eq_zero_iff]
          intro k member
          obtain ⟨p,inside,rfl⟩ := List.mem_map.mp member
          have := none_ p inside
          omega
        omega
      obtain ⟨p,inside,positive⟩ := shares
      cases stack : stackOf s t with
      | nil => simp [stack] at inside
      | cons q rest =>
        rw [stack] at inside
        rcases List.mem_cons.mp inside with rfl | below
        · exact exec_enabled env s stack (not_blocked_of_holds (.inr positive) s.state)
        · obtain ⟨x,rfl⟩ := calm.shallow t p (by simp [stack,below])
          simp [Point.shares] at positive
    | nil =>
      simp only [System.Idle,not_forall] at busy
      obtain ⟨t,busy⟩ := busy
      obtain ⟨p,rest,stack⟩ := List.exists_cons_of_ne_nil busy
      refine exec_enabled env s stack ?_
      cases p with
      | loop caller x ss progress => cases progress <;> simp [Point.Blocked,writer]
      | _ => simp [Point.Blocked,writer,readers]

/-- Between handlers: nobody has the mutex or a strand, every object whose last reference is
gone has been freed, and a handler is pending for each of the others. -/
structure System.Settled (s : System) : Prop where
  mutex : s.state.mtx = ⟨[],none⟩
  strands : ∀ x, (s.state.conns x).running = false
  destroyed : ∀ x, (s.state.conns x).destroyed = (s.state.conns x).freed
  kept : ∀ x, (s.state.conns x).created = true → (s.state.conns x).freed = false →
    0 < (s.state.conns x).pending
  clients : ∀ x ∈ s.state.clients, 0 < (s.state.conns x).pending

theorem settled_of_idle (env : Env) (workers : Nat) (reached : (machine env workers).Reaches es s)
    (idle : s.Idle) : s.Settled := by
  have none_ : activations s.threads = 0 := by
    apply Multiset.eq_zero_of_forall_notMem
    intro p member
    obtain ⟨t,inside⟩ := mem_activations.mp member
    simp [idle t] at inside
  have counted := control env workers reached
  rw [none_] at counted
  have strands (x : Conn) : (s.state.conns x).running = false := by
    have strand := (counted x).strand
    simp only [weigh_zero] at strand
    exact Bool.toNat_eq_zero.mp strand.symm
  have destroyed (x : Conn) : (s.state.conns x).destroyed = (s.state.conns x).freed := by
    have dying := (counted x).dying
    simp only [weigh_zero,Nat.zero_add] at dying
    cases freed : (s.state.conns x).freed <;> cases gone : (s.state.conns x).destroyed <;>
      simp [freed,gone] at dying ⊢
  have kept (x : Conn) (created : (s.state.conns x).created = true)
      (live : (s.state.conns x).freed = false) : 0 < (s.state.conns x).pending := by
    have refs := (counted x).refs
    simp only [weigh_zero,Nat.add_zero] at refs
    rw [← refs]
    by_contra zero
    have gone := ((counted x).dead created).mpr (by omega)
    rw [destroyed x,live] at gone
    contradiction
  refine ⟨?_,strands,destroyed,kept,fun x member => ?_⟩
  · have readers : s.state.mtx.readers = [] := by
      apply List.eq_nil_iff_forall_not_mem.mpr
      intro t reading
      have count := readers_count env workers reached t
      have := List.count_pos_iff.mpr reading
      simp only [idle t,List.map_nil,List.sum_nil] at count
      omega
    have writer : s.state.mtx.writer = none := by
      by_contra taken
      obtain ⟨t,held⟩ := Option.ne_none_iff_exists'.mp taken
      obtain ⟨p,rest,stack,-⟩ := writer_on_top env workers reached t held
      simp [idle t] at stack
    cases eq : s.state.mtx
    simp_all
  · obtain ⟨created,live⟩ := (memory_safe env workers reached).clients x member
    exact kept x created live

/-- Whatever the order in which the busy workers go on, without a new event they take at most
`work` steps, none of them is stuck on the mutex before all are idle, and some order makes
them idle. A server with one worker needs no condition on its run. -/
theorem workers_finish (env : Env) (workers : Nat) (es : List Event) (s : System)
    (reached : (machine env workers).Reaches es s)
    (calm : workers ≤ 1 ∨ (machine env workers).Meets Undrained es) :
    (∀ fs final, (∀ e ∈ fs, e.isExec = true) → (machine env workers).run fs s = some final →
      fs.length ≤ s.work ∧ (final.Idle ∧ final.Settled ∨
        ∃ e, e.isExec = true ∧ ((machine env workers).step final e).isSome = true)) ∧
    ∃ fs final, (∀ e ∈ fs, e.isExec = true) ∧ (machine env workers).run fs s = some final ∧
      final.Idle ∧ final.Settled := by
  have here : Undisturbed env workers s := by
    rcases calm with single | meets
    · exact ⟨es,reached,single_worker_undrained env workers single es s reached⟩
    · exact ⟨es,reached,meets⟩
  have down (s : System) (e : Event) (next : System) (inside : Undisturbed env workers s)
      (exec : e.isExec = true) (stepped : (machine env workers).step s e = some next) :=
    exec_work env workers s next e inside exec stepped
  have settled (final : System) (inside : Undisturbed env workers final) (idle : final.Idle) :
      final.Idle ∧ final.Settled := by
    obtain ⟨_,there,-⟩ := inside
    exact ⟨idle,settled_of_idle env workers there idle⟩
  constructor
  · intro fs final all ran
    obtain ⟨inside,bound⟩ := (machine env workers).run_bounded System.work
      (Undisturbed env workers) (fun e => e.isExec = true) down here all ran
    refine ⟨by omega,?_⟩
    by_cases idle : final.Idle
    · exact .inl (settled final inside idle)
    · exact .inr (inside.progress idle)
  · obtain ⟨fs,final,all,ran,inside,idle⟩ := (machine env workers).run_to System.work
      (Undisturbed env workers) (fun e => e.isExec = true) down System.Idle
      (fun s inside busy => inside.progress busy) s here
    exact ⟨fs,final,all,ran,settled final inside idle⟩

/-- The only worker is in the loop of a destructor, which posts to the client that is left. -/
theorem leaving_finishes : ∃ s fs final, (machine .numbered 1).Reaches leaving s ∧ ¬s.Idle ∧
    (machine .numbered 1).run fs s = some final ∧ final.Idle ∧ final.Settled := by
  have runs : ((machine .numbered 1).run leaving (start 1)).any (fun s =>
      decide (stackOf s 0 ≠ [])) = true := by decide +kernel
  obtain ⟨s,ran,busy⟩ := (Option.any_eq_true _ _).mp runs
  obtain ⟨fs,final,-,further,idle,settled⟩ :=
    (workers_finish .numbered 1 _ s ran (.inl (Nat.le_refl 1))).2
  exact ⟨s,fs,final,ran,fun none_ => of_decide_eq_true busy (none_ 0),further,idle,settled⟩

end Wschat.Cpp
