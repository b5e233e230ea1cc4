import Wschat.CppLocks

/-! Whether a worker that holds `mtx_` can run a destructor, which takes `mtx_` again. The
posted `on_send` keeps the visited connection alive only until another worker runs it, so
the answer depends on the number of workers. -/
namespace Wschat.Cpp

open Workers

def Point.releasing (y : Conn) : Point → Bool
  | .drop x => x == y
  | .loop _ _ _ (.drop x _) => x == y
  | _ => false

/-- The next step of worker `t` releases the last strong reference of `y`. -/
def System.ReleasesLast (s : System) (t : Thread) (y : Conn) : Prop :=
  (s.state.conns y).refs = 1 ∧ (stackOf s t).head?.any (Point.releasing y) = true

/-- A worker that holds the mutex is about to run `~WsConn`. -/
def System.SelfDeadlock (s : System) : Prop :=
  ∃ t y, s.state.mtx.Holds t ∧ s.ReleasesLast t y

theorem threads_length (env : Env) (workers : Nat) (reached : (machine env workers).Reaches es s) :
    s.threads.length = workers := by
  refine (machine env workers).invariant (fun s => s.threads.length = workers) ?_ ?_ reached
  · simp [machine,start]
  · intro s e next valid stepped
    rcases step_cases env s next e stepped with ⟨x,fresh,rfl⟩ | ⟨t,old,new,rest,top,-,moved,eq⟩
    · exact valid
    · simpa [eq] using valid

/-- A handler already running never takes a text off a strand. -/
theorem move_posted (env : Env) (t : Thread) (s next : State) (old new : List Point)
    (moved : Move env t s old next new) (busy : old ≠ []) (y : Conn) :
    ∃ more, (next.conns y).posted = (s.conns y).posted ++ more := by
  have modified (x : Conn) (f : WsConn → WsConn) (more : List Text)
      (eq : (f (s.conns x)).posted = (s.conns x).posted ++ more) :
      ∃ more, ((s.modify x f).conns y).posted = (s.conns y).posted ++ more := by
    by_cases same : y = x
    · subst y; exact ⟨more,by simpa using eq⟩
    · exact ⟨[],by simp [same]⟩
  cases moved with
  | send x ss => exact modified x _ [ss] rfl
  | reply x ss => exact modified x _ [ss] rfl
  | post caller x ss z todo => exact modified z _ [ss] rfl
  | retain caller x ss z todo alive => exact modified z _ [] (by simp [WsConn.retain])
  | release caller x ss z todo more => exact modified z _ [] (by simp [WsConn.release])
  | releaseLast caller x ss z todo now last => exact modified z _ [] (by simp [WsConn.release])
  | read consume x => exact modified x _ [] (by simp)
  | drop x more => exact modified x _ [] (by simp [WsConn.release])
  | dropLast x now last => exact modified x _ [] (by simp [WsConn.release])
  | leave x => exact modified x _ [] (by simp)
  | free x => exact modified x _ [] (by simp)
  | lockShared | unlockShared | expired | lock | insert | erase | unlockInsert | unlockErase =>
    exact ⟨[],by simp⟩
  | _ => exact absurd rfl busy

theorem move_dropping (env : Env) (t : Thread) (s next : State) (old new : List Point)
    (moved : Move env t s old next new)
    (inside : .loop caller x ss (.drop y todo) ∈ new) : (next.conns y).posted ≠ [] := by
  cases moved with
  | post caller x ss y todo =>
    simp only [List.mem_singleton,Point.loop.injEq,Loop.drop.injEq] at inside
    obtain ⟨-,-,-,rfl,-⟩ := inside
    simp [WsConn.post]
  | unlockShared caller x ss => cases caller <;> simp [afterLoop] at inside
  | _ => simp [destructor] at inside

/-- A handler starts on an idle worker: with a single one, nothing else is going on. -/
theorem alone_when_idle {s : System} {t : Nat} (single : s.threads.length ≤ 1)
    (top : s.threads[t]? = some []) : activations s.threads = 0 := by
  obtain ⟨bound,idle⟩ := List.getElem?_eq_some_iff.mp top
  obtain ⟨stack,eq⟩ := List.length_eq_one_iff.mp (show s.threads.length = 1 by omega)
  have first : t = 0 := by omega
  subst first
  simp only [eq,List.getElem_cons_zero] at idle
  simp [activations,eq,idle]

/-- A loop has posted to `y` and is about to release its `strong`. -/
def System.Visiting (s : System) (y : Conn) : Prop :=
  ∃ caller x ss todo, .loop caller x ss (.drop y todo) ∈ activations s.threads

/-- The event does not run the last handler posted to a connection that a loop visits. -/
def Undrained (s : System) (e : Event) : Prop :=
  ∀ t y, e = .send t y → s.Visiting y → 1 < (s.state.conns y).posted.length

theorem step_posted (env : Env) (s next : System) (e : Event) (stepped : step env s e = some next)
    (y : Conn) : (∃ more, (next.state.conns y).posted = (s.state.conns y).posted ++ more) ∨
      ∃ t ss, e = .send t y ∧ (s.state.conns y).posted = ss :: (next.state.conns y).posted := by
  have kept (t : Thread) (x : Conn) (f : WsConn → WsConn) (p : Point)
      (same : ∀ c, (f c).posted = c.posted) (eq : next = s.enter t x f p) :
      ∃ more, (next.state.conns y).posted = (s.state.conns y).posted ++ more := by
    refine ⟨[],?_⟩
    by_cases here : y = x
    · simp [eq,System.enter,here,same]
    · simp [eq,System.enter,here]
  cases e with
  | upgrade x =>
    simp only [step,Option.ite_none_left_eq_some,Option.some.injEq] at stepped
    refine .inl ⟨[],?_⟩
    by_cases here : y = x
    · simp [← stepped.2,here,WsConn.upgrade]
    · simp [← stepped.2,here]
  | accept t x failed now =>
    simp only [step,Option.ite_none_right_eq_some,Option.some.injEq] at stepped
    exact .inl (kept t x (.accept failed) _ (fun _ => rfl) stepped.2.symm)
  | read t x payload now residue =>
    simp only [step,Option.ite_none_right_eq_some] at stepped
    cases payload with
    | none => exact .inl (kept t x .readError _ (fun _ => rfl) (Option.some.inj stepped.2).symm)
    | some p =>
      exact .inl (kept t x (.receive p now residue) _ (fun _ => rfl)
        (Option.some.inj stepped.2).symm)
  | write t x failed =>
    simp only [step,Option.ite_none_right_eq_some,Option.some.injEq] at stepped
    refine .inl (kept t x _ _ (fun c => ?_) stepped.2.symm)
    unfold WsConn.onWrite
    split
    · rfl
    · split <;> rfl
  | send t x =>
    simp only [step] at stepped
    split at stepped
    case h_1 => contradiction
    case h_2 ss rest posted =>
      simp only [Option.ite_none_right_eq_some,Option.some.injEq] at stepped
      by_cases here : y = x
      · subst y
        refine .inr ⟨t,ss,rfl,?_⟩
        simp [← stepped.2,System.enter,WsConn.onSend,posted]
        split <;> rfl
      · exact .inl ⟨[],by simp [← stepped.2,System.enter,here]⟩
  | exec t order now =>
    simp only [step] at stepped
    split at stepped
    case h_2 => contradiction
    case h_1 p rest top =>
      obtain ⟨result,ran,rfl⟩ := Option.map_eq_some_iff.mp stepped
      exact .inl (move_posted env t s.state result.1 [p] result.2
        (exec_move env s.state t order now p result ran) (by simp) y)

theorem posted_while_visiting (env : Env) (workers : Nat)
    (reached : (machine env workers).Reaches es s) (meets : (machine env workers).Meets Undrained es)
    (y : Conn) (visiting : s.Visiting y) : (s.state.conns y).posted ≠ [] := by
  revert meets y
  refine (machine env workers).reaches_induction
    (motive := fun es s => (machine env workers).Meets Undrained es → ∀ y, s.Visiting y →
      (s.state.conns y).posted ≠ []) ?_ ?_ reached
  · rintro - y ⟨caller,x,ss,todo,inside⟩
    simp [machine,start,activations] at inside
  · intro es s e next before ih stepped meets y visiting
    have condition := meets.last (machine env workers) before
    have older : s.Visiting y → (next.state.conns y).posted ≠ [] := by
      intro earlier
      have posted := ih meets.init y earlier
      rcases step_posted env s next e stepped y with ⟨more,eq⟩ | ⟨t,ss,eq,taken⟩
      · simp [eq,posted]
      · have several := condition t y eq earlier
        rw [taken,List.length_cons] at several
        exact List.ne_nil_of_length_pos (by omega)
    rcases step_cases env s next e stepped with ⟨x,fresh,eq⟩ |
      ⟨t,old,new,rest,top,idle,moved,eq⟩
    · subst eq
      exact older visiting
    · obtain ⟨others,cut,after⟩ := split top
      obtain ⟨caller,x,ss,todo,inside⟩ := visiting
      rw [eq,after new,Multiset.mem_add,Multiset.mem_coe] at inside
      rcases inside with fresh | kept
      · exact move_dropping env t s.state next.state old new moved fresh
      · exact older ⟨caller,x,ss,todo,by rw [cut]; exact Multiset.mem_add.mpr (.inr kept)⟩

/-- The release in a loop is never the last one as long as its post is undrained. -/
theorem undrained_safe (env : Env) (workers : Nat)
    (reached : (machine env workers).Reaches es s)
    (meets : (machine env workers).Meets Undrained es) : ¬s.SelfDeadlock := by
  rintro ⟨t,y,holds,last,releasing⟩
  obtain ⟨p,rest,stack,release⟩ : ∃ p rest, stackOf s t = p :: rest ∧ p.releasing y = true := by
    cases eq : stackOf s t with
    | nil => simp [eq] at releasing
    | cons p rest => exact ⟨p,rest,rfl,by simpa [eq] using releasing⟩
  have member : p ∈ activations s.threads := mem_activations.mpr ⟨t,by simp [stack]⟩
  rcases holds with reading | writing
  · have count := readers_count env workers reached t
    have positive := List.count_pos_iff.mpr reading
    cases p with
    | drop x =>
      have below := handlers_at_bottom env workers reached t
      rw [stack,List.pairwise_cons] at below
      have bottom : rest = [] := by
        cases rest with
        | nil => rfl
        | cons q rest => exact absurd trivial (below.1 q (by simp))
      simp [stack,bottom,Point.shares] at count
      omega
    | loop caller x ss progress =>
      cases progress with
      | drop z todo =>
        have eq : z = y := by simpa [Point.releasing] using release
        subst z
        have posted := posted_while_visiting env workers reached meets y ⟨caller,x,ss,todo,member⟩
        have refs := (control env workers reached y).refs
        have visit := le_weigh (Point.strong y) member
        have some := List.length_pos_iff.mpr posted
        simp only [Point.strong,Point.visits,if_pos] at visit
        simp only [WsConn.pending] at refs
        omega
      | _ => simp [Point.releasing] at release
    | _ => simp [Point.releasing] at release
  · obtain ⟨q,rest',stack',owns⟩ := writer_on_top env workers reached t writing
    have same : q = p := by simpa [stack] using (List.cons.inj (stack'.symm.trans stack)).1
    subst same
    cases q <;> simp [Point.releasing,Point.owns] at release owns

theorem single_worker_undrained (env : Env) (workers : Nat) (single : workers ≤ 1) (es : List Event)
    (s : System) (reached : (machine env workers).Reaches es s) :
    (machine env workers).Meets Undrained es := by
  rintro before e after s' eq earlier t y rfl ⟨caller,x,ss,todo,inside⟩
  obtain ⟨middle,early,late⟩ := ((machine env workers).reaches_append before _ s).mp (eq ▸ reached)
  obtain rfl := early.unique _ earlier
  have idle : middle.threads[t]? = some [] := by
    simp only [Machine.run] at late
    obtain ⟨next,stepped,-⟩ := Option.bind_eq_some_iff.mp late
    simp only [machine,step] at stepped
    split at stepped
    case h_1 => contradiction
    case h_2 => simp only [Option.ite_none_right_eq_some] at stepped; exact stepped.1.1
  have count := threads_length env workers earlier
  rw [alone_when_idle (by omega) idle] at inside
  simp at inside

theorem step_idle (env : Env) (s next : System) (e : Event) (idle : List (List Point))
    (stepped : step env s e = some next) :
    step env ⟨s.state,s.threads ++ idle⟩ e = some ⟨next.state,next.threads ++ idle⟩ := by
  have front {t : Thread} {stack : List Point} (top : s.threads[t]? = some stack) :
      (s.threads ++ idle)[t]? = some stack ∧
        ∀ new, (s.threads ++ idle).set t new = s.threads.set t new ++ idle := by
    obtain ⟨bound,-⟩ := List.getElem?_eq_some_iff.mp top
    exact ⟨by rw [List.getElem?_append_left bound,top],fun new => List.set_append_left _ _ bound⟩
  have entered {t : Thread} {x : Conn} {f : WsConn → WsConn} {p : Point} (ready : s.Ready t x)
      (eq : next = s.enter t x f p) :
      System.Ready ⟨s.state,s.threads ++ idle⟩ t x ∧
        System.enter ⟨s.state,s.threads ++ idle⟩ t x f p = ⟨next.state,next.threads ++ idle⟩ := by
    obtain ⟨top,set⟩ := front ready.1
    exact ⟨⟨top,ready.2⟩,by simp [System.enter,eq,set]⟩
  cases e with
  | upgrade x =>
    simp only [step,Option.ite_none_left_eq_some,Option.some.injEq] at stepped ⊢
    exact ⟨stepped.1,by rw [← stepped.2]⟩
  | accept t x failed now =>
    simp only [step,Option.ite_none_right_eq_some,Option.some.injEq] at stepped ⊢
    obtain ⟨ready,eq⟩ := entered stepped.1.1 stepped.2.symm
    exact ⟨⟨ready,stepped.1.2⟩,eq⟩
  | read t x payload now residue =>
    cases payload with
    | none =>
      simp only [step,Option.ite_none_right_eq_some,Option.some.injEq] at stepped ⊢
      obtain ⟨ready,eq⟩ := entered stepped.1.1 stepped.2.symm
      exact ⟨⟨ready,stepped.1.2⟩,eq⟩
    | some p =>
      simp only [step,Option.ite_none_right_eq_some,Option.some.injEq] at stepped ⊢
      obtain ⟨ready,eq⟩ := entered stepped.1.1 stepped.2.symm
      exact ⟨⟨ready,stepped.1.2⟩,eq⟩
  | write t x failed =>
    simp only [step,Option.ite_none_right_eq_some,Option.some.injEq] at stepped ⊢
    obtain ⟨ready,eq⟩ := entered stepped.1.1 stepped.2.symm
    exact ⟨⟨ready,stepped.1.2⟩,eq⟩
  | send t x =>
    simp only [step] at stepped ⊢
    split at stepped
    case h_1 => contradiction
    case h_2 ss rest posted =>
      simp only [Option.ite_none_right_eq_some,Option.some.injEq] at stepped ⊢
      exact entered stepped.1 stepped.2.symm
  | exec t order now =>
    simp only [step] at stepped ⊢
    split at stepped
    case h_2 => contradiction
    case h_1 p rest top =>
      obtain ⟨result,ran,rfl⟩ := Option.map_eq_some_iff.mp stepped
      obtain ⟨top',set⟩ := front top
      simp [top',ran,set]

theorem run_idle (env : Env) (workers more : Nat) (es : List Event) (s : System)
    (reached : (machine env workers).Reaches es s) :
    (machine env (workers + more)).Reaches es ⟨s.state,s.threads ++ List.replicate more []⟩ := by
  refine (machine env workers).reaches_induction
    (motive := fun es s => (machine env (workers + more)).Reaches es
      ⟨s.state,s.threads ++ List.replicate more []⟩) ?_ ?_ reached
  · simp [Machine.reaches_nil,machine,start,List.replicate_append_replicate]
  · intro es s e next _ ih stepped
    exact (Machine.reaches_concat _ _ _ _).mpr ⟨_,ih,step_idle env s next e _ stepped⟩

def work (t : Thread) (steps : Nat) : List Event := List.replicate steps (.exec t [] 0)

/-- Worker 0 has posted the connect of 1 to 0; worker 1 runs both handlers posted to 0, then
the write and the read of 0 fail, before worker 0 releases its `strong`. -/
def lateRelease : List Event := List.flatten [
  [.upgrade 0,.accept 0 0 false 0],work 0 9,
  [.upgrade 1,.accept 0 1 false 0],work 0 1,[.exec 0 [0] 0],work 0 2,
  [.send 1 0],work 1 2,[.send 1 0],work 1 2,[.write 1 0 true],work 1 2,
  [.read 1 0 none 0 0],work 1 2]

theorem lateRelease_runs : ((machine .numbered 2).run lateRelease (start 2)).any (fun s =>
    decide (0 ∈ s.state.mtx.readers) && (s.state.conns 0).refs == 1 &&
      (stackOf s 0).head?.any (Point.releasing 0)) = true := by
  decide +kernel

theorem lateRelease_self_deadlock : ∃ s, (machine .numbered 2).Reaches lateRelease s ∧
    s.SelfDeadlock := by
  obtain ⟨s,ran,checked⟩ := (Option.any_eq_true _ _).mp lateRelease_runs
  simp only [Bool.and_eq_true,decide_eq_true_eq,beq_iff_eq] at checked
  exact ⟨s,ran,0,0,.inl checked.1.1,checked.1.2,checked.2⟩

theorem several_workers_deadlock (workers : Nat) (several : 1 < workers) :
    ∃ s, (machine .numbered workers).Reaches lateRelease s ∧ s.SelfDeadlock := by
  obtain ⟨s,reached,t,y,holds,last,releasing⟩ := lateRelease_self_deadlock
  obtain ⟨more,rfl⟩ : ∃ more, workers = 2 + more := ⟨workers - 2,by omega⟩
  refine ⟨_,run_idle .numbered 2 more _ s reached,t,y,holds,last,?_⟩
  have bound : t < s.threads.length := by
    by_contra outside
    simp [stackOf,List.getElem?_eq_none (Nat.le_of_not_lt outside)] at releasing
  simpa [stackOf,List.getElem?_append_left bound] using releasing

/-- No worker ever releases a last reference while it holds the mutex, exactly for servers
with at most one worker; a larger server is safe as long as its runs leave the handlers posted
by a loop in place. -/
theorem self_deadlock_free (workers : Nat) :
    ((∀ env es s, (machine env workers).Reaches es s → ¬s.SelfDeadlock) ↔ workers ≤ 1) ∧
    ∀ env es s, (machine env workers).Reaches es s → (machine env workers).Meets Undrained es →
      ¬s.SelfDeadlock := by
  refine ⟨⟨fun safe => ?_,fun single env es s reached => ?_⟩,fun env es s reached meets =>
    undrained_safe env workers reached meets⟩
  · by_contra several
    obtain ⟨s,reached,deadlock⟩ := several_workers_deadlock workers (by omega)
    exact safe .numbered lateRelease s reached deadlock
  · exact undrained_safe env workers reached
      (single_worker_undrained env workers single es s reached)

/-- Two workers reach a self-deadlock, so the mutex is not safe for every server. -/
theorem self_deadlock_reached : ¬∀ workers env es s,
    (machine env workers).Reaches es s → ¬s.SelfDeadlock := by
  intro safe
  obtain ⟨s,reached,deadlock⟩ := lateRelease_self_deadlock
  exact safe 2 .numbered lateRelease s reached deadlock

end Wschat.Cpp
