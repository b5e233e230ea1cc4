import Wschat.CppControl

/-! Who holds `mtx_`. Shared holds are the loops between their lock and unlock; while a
worker is in the exclusive section no loop is. -/
namespace Wschat.Cpp

open Workers

/-- The activation is a loop that holds the shared lock. -/
def Point.shares : Point → Nat
  | .loop _ _ _ .enter => 0
  | .loop _ _ _ _ => 1
  | _ => 0

/-- The activation holds the exclusive lock. -/
def Point.owns : Point → Nat
  | .update _ _ | .unlock _ _ => 1
  | _ => 0

/-- The activation was started by the event loop, not by a release. -/
def Point.handler : Point → Prop
  | .loop caller _ _ _ => caller ≠ .disconnect
  | .lock op _ | .update op _ | .unlock op _ => op = .insert
  | .free _ => False
  | _ => True

def stackOf (s : System) (t : Thread) : List Point := s.threads.getD t []

theorem stackOf_top {s : System} (top : s.threads[t]? = some stack) : stackOf s t = stack := by
  simp [stackOf,top]

theorem stackOf_set {s next : System} (eq : next.threads = s.threads.set t stack)
    (top : s.threads[t]? = some old) (other : Thread) :
    stackOf next other = if other = t then stack else stackOf s other := by
  obtain ⟨bound,-⟩ := List.getElem?_eq_some_iff.mp top
  by_cases same : other = t
  · subst other; simp [stackOf,eq,bound]
  · simp [stackOf,eq,same,Ne.symm same]

theorem mem_activations {s : System} :
    p ∈ activations s.threads ↔ ∃ t, p ∈ stackOf s t := by
  simp only [activations,Multiset.mem_coe,List.mem_flatten,stackOf]
  constructor
  · rintro ⟨stack,inside,member⟩
    obtain ⟨t,bound,rfl⟩ := List.getElem_of_mem inside
    exact ⟨t,by simpa [bound] using member⟩
  · rintro ⟨t,member⟩
    by_cases bound : t < s.threads.length
    · exact ⟨s.threads[t],List.getElem_mem bound,by simpa [bound] using member⟩
    · simp [List.getD_eq_getElem?_getD,List.getElem?_eq_none (Nat.le_of_not_lt bound)] at member

/-- A step gives the other workers no hold and takes none from them. -/
theorem move_readers (env : Env) (t : Thread) (s next : State) (old new : List Point)
    (moved : Move env t s old next new) (other : Thread) :
    (other ≠ t → next.mtx.readers.count other = s.mtx.readers.count other) ∧
    ((old.map Point.shares).sum ≤ s.mtx.readers.count t →
      next.mtx.readers.count t + (old.map Point.shares).sum =
        s.mtx.readers.count t + (new.map Point.shares).sum) := by
  cases moved with
  | lockShared caller x ss order free perm =>
    refine ⟨fun different => ?_,fun _ => ?_⟩
    · simp [Ne.symm different]
    · simp [Point.shares]
  | unlockShared caller x ss =>
    refine ⟨fun different => ?_,fun held => ?_⟩
    · simp [List.count_erase,Ne.symm different]
    · cases caller <;> simp_all [Point.shares,afterLoop]
  | _ => exact ⟨fun _ => rfl,fun _ => rfl⟩

/-- The mutex counts, for each worker, the loops on its stack that hold it shared. -/
theorem readers_count (env : Env) (workers : Nat) (reached : (machine env workers).Reaches es s)
    (t : Thread) : s.state.mtx.readers.count t = ((stackOf s t).map Point.shares).sum := by
  refine (machine env workers).invariant
    (fun s => ∀ t, s.state.mtx.readers.count t = ((stackOf s t).map Point.shares).sum)
    ?_ ?_ reached t
  · intro t
    by_cases bound : t < workers <;> simp [machine,start,State.initial,stackOf,bound]
  · intro s e next valid stepped other
    rcases step_cases env s next e stepped with ⟨x,fresh,rfl⟩ |
      ⟨t,old,new,rest,top,-,moved,eq⟩
    · exact valid other
    · have here := valid t
      rw [stackOf_top top,List.map_append,List.sum_append] at here
      obtain ⟨away,at_⟩ := move_readers env t s.state next.state old new moved other
      rw [stackOf_set eq top]
      by_cases same : other = t
      · subst other
        have := at_ (by omega)
        rw [if_pos rfl,List.map_append,List.sum_append]
        omega
      · rw [if_neg same,away same]
        exact valid other

structure Exclusion (s : State) (ps : Multiset Point) : Prop where
  owned : weigh Point.owns ps = s.mtx.writer.isSome.toNat
  excluded : s.mtx.writer ≠ none → s.mtx.readers = []

theorem move_exclusion (env : Env) (t : Thread) (s next : State) (old new : List Point)
    (others : Multiset Point) (valid : Exclusion s (↑old + others))
    (moved : Move env t s old next new) : Exclusion next (↑new + others) := by
  obtain ⟨owned,excluded⟩ := valid
  simp only [weigh_add,weigh_coe] at owned
  have bound := Bool.toNat_le s.mtx.writer.isSome
  cases moved with
  | lockShared caller x ss order free perm =>
    refine ⟨by simpa [Point.owns] using owned,fun held => absurd free held⟩
  | unlockShared caller x ss =>
    refine ⟨by cases caller <;> simpa [Point.owns,afterLoop] using owned,fun held => ?_⟩
    simp [excluded held]
  | lock op x free empty =>
    simp only [free] at owned
    refine ⟨?_,fun _ => empty⟩
    simp [Point.owns] at owned ⊢
    omega
  | unlockInsert x =>
    refine ⟨?_,fun held => absurd rfl held⟩
    simp [Point.owns] at owned ⊢
    omega
  | unlockErase x =>
    refine ⟨?_,fun held => absurd rfl held⟩
    simp [Point.owns] at owned ⊢
    omega
  | _ => exact ⟨by rw [weigh_add,weigh_coe]; exact owned,excluded⟩

theorem exclusion (env : Env) (workers : Nat) (reached : (machine env workers).Reaches es s) :
    Exclusion s.state (activations s.threads) :=
  points_invariant env workers Exclusion ⟨by simp [State.initial],by simp [State.initial]⟩
    (fun _ _ _ _ valid _ => ⟨valid.owned,valid.excluded⟩)
    (fun _ s t old next new others _ _ valid moved =>
      move_exclusion env t s.state next old new others valid moved) reached

/-- While a worker is in the exclusive section no loop holds the lock. -/
theorem exclusive (env : Env) (workers : Nat) (reached : (machine env workers).Reaches es s)
    (inside : p ∈ activations s.threads) (owns : 0 < p.owns) (member : q ∈ activations s.threads) :
    q.shares = 0 := by
  have valid := exclusion env workers reached
  have taken : s.state.mtx.writer ≠ none := by
    intro free
    have owned := valid.owned
    have := le_weigh Point.owns inside
    simp [free] at owned
    omega
  obtain ⟨t,onStack⟩ := mem_activations.mp member
  have count := readers_count env workers reached t
  rw [valid.excluded taken,List.count_nil] at count
  have := List.le_sum_of_mem (List.mem_map_of_mem (f := Point.shares) onStack)
  omega

/-- Only the owner's own steps keep or end the exclusive section. -/
theorem move_writer (env : Env) (t : Thread) (s next : State) (old new : List Point)
    (moved : Move env t s old next new)
    (owner : s.mtx.writer = some t → ∃ p, old = [p] ∧ 0 < p.owns) (other : Thread)
    (held : next.mtx.writer = some other) :
    (other ≠ t → s.mtx.writer = some other) ∧
      (other = t → ∃ p, new = [p] ∧ 0 < p.owns) := by
  have still (p : Point) (eq : old = [p]) (away : p.owns = 0) (same : other = t)
      (kept : s.mtx.writer = some other) : False := by
    subst same
    obtain ⟨q,eq',owns⟩ := owner kept
    obtain rfl : p = q := by simpa [eq] using eq'
    omega
  cases moved with
  | lock op x free empty =>
    exact ⟨fun different => absurd (Option.some.inj held).symm different,
      fun _ => ⟨_,rfl,by simp [Point.owns]⟩⟩
  | insert x => exact ⟨fun _ => held,fun _ => ⟨_,rfl,by simp [Point.owns]⟩⟩
  | erase x => exact ⟨fun _ => held,fun _ => ⟨_,rfl,by simp [Point.owns]⟩⟩
  | unlockInsert x => simp at held
  | unlockErase x => simp at held
  | lockShared | unlockShared | expired | send | reply | retain | post | release | releaseLast
  | read | drop | dropLast | leave | free =>
    exact ⟨fun _ => by simpa using held,
      fun same => (still _ rfl (by simp [Point.owns]) same (by simpa using held)).elim⟩
  | _ =>
    refine ⟨fun _ => by simpa using held,fun same => ?_⟩
    subst same
    obtain ⟨p,impossible,-⟩ := owner (by simpa using held)
    simp at impossible

theorem writer_on_top (env : Env) (workers : Nat) (reached : (machine env workers).Reaches es s)
    (t : Thread) (held : s.state.mtx.writer = some t) :
    ∃ p rest, stackOf s t = p :: rest ∧ 0 < p.owns := by
  refine (machine env workers).invariant (fun s => ∀ t, s.state.mtx.writer = some t →
    ∃ p rest, stackOf s t = p :: rest ∧ 0 < p.owns) ?_ ?_ reached t held
  · simp [machine,start,State.initial]
  · intro s e next valid stepped other held
    rcases step_cases env s next e stepped with ⟨x,fresh,rfl⟩ |
      ⟨t,old,new,rest,top,idle,moved,eq⟩
    · exact valid other held
    · have owner : s.state.mtx.writer = some t → ∃ p, old = [p] ∧ 0 < p.owns := by
        intro owned
        obtain ⟨p,rest',stack,owns⟩ := valid t owned
        rw [stackOf_top top] at stack
        rcases moved.one with empty | ⟨q,rfl⟩
        · simp [empty,idle empty] at stack
        · simp only [List.cons_append,List.nil_append,List.cons.injEq] at stack
          exact ⟨q,rfl,by rw [stack.1]; exact owns⟩
      obtain ⟨away,mine⟩ := move_writer env t s.state next.state old new moved owner other held
      rw [stackOf_set eq top]
      by_cases same : other = t
      · obtain ⟨p,rfl,owns⟩ := mine same
        exact ⟨p,rest,by simp [same],owns⟩
      · rw [if_neg same]
        exact valid other (away same)

/-- `new` has a handler at its bottom at most, and only where `old` has one. -/
def KeepsHandlers (old new : List Point) : Prop :=
  (new.Pairwise fun p _ => ¬p.handler) ∧ (old ≠ [] → ∀ p ∈ new, p.handler → ∃ q ∈ old, q.handler)

theorem keeps_one {p q : Point} (kept : q.handler → p.handler) : KeepsHandlers [p] [q] := by
  refine ⟨List.pairwise_singleton _ _,fun _ r inside handler => ⟨p,List.mem_singleton_self p,?_⟩⟩
  obtain rfl := List.mem_singleton.mp inside
  exact kept handler

/-- The destructor of `x` runs above what the release goes on with. -/
theorem keeps_two {p q : Point} (env : Env) (x : Conn) (now : Int64)
    (kept : q.handler → p.handler) : KeepsHandlers [p] [destructor env x now,q] := by
  have quiet : ¬(destructor env x now).handler := fun handler => handler rfl
  obtain ⟨single,below⟩ := keeps_one kept
  refine ⟨List.pairwise_cons.mpr ⟨fun _ _ => quiet,single⟩,fun busy r inside handler => ?_⟩
  rcases List.mem_cons.mp inside with rfl | later
  · exact absurd handler quiet
  · exact below busy r later handler

theorem move_handlers (env : Env) (t : Thread) (s next : State) (old new : List Point)
    (moved : Move env t s old next new) : KeepsHandlers old new := by
  cases moved with
  | accept | acceptError | readError | broadcast | badMessage | write | onSend =>
    exact ⟨List.pairwise_singleton _ _,fun busy => absurd rfl busy⟩
  | reply | lockShared | retain | expired | post | release | lock | insert | erase | read | drop =>
    exact keeps_one id
  | send => exact keeps_one fun _ => trivial
  | unlockShared caller x ss =>
    cases caller with
    | connect => exact keeps_one fun _ => Caller.noConfusion
    | handle => exact keeps_one fun _ => Caller.noConfusion
    | disconnect => exact keeps_one SetOp.noConfusion
  | unlockInsert => exact keeps_one fun _ => rfl
  | unlockErase => exact keeps_one False.elim
  | releaseLast | dropLast => exact keeps_two _ _ _ id
  | leave | free => exact ⟨List.Pairwise.nil,fun _ _ inside => by contradiction⟩

/-- Everything above the bottom of a stack is a destructor that a release started. -/
theorem handlers_at_bottom (env : Env) (workers : Nat)
    (reached : (machine env workers).Reaches es s) (t : Thread) :
    (stackOf s t).Pairwise fun p _ => ¬p.handler := by
  refine (machine env workers).invariant
    (fun s => ∀ t, (stackOf s t).Pairwise fun p _ => ¬p.handler) ?_ ?_ reached t
  · intro t
    by_cases bound : t < workers <;> simp [machine,start,stackOf,bound]
  · intro s e next valid stepped other
    rcases step_cases env s next e stepped with ⟨x,fresh,rfl⟩ |
      ⟨t,old,new,rest,top,idle,moved,eq⟩
    · exact valid other
    · rw [stackOf_set eq top]
      by_cases same : other = t
      · subst other
        have here := valid t
        rw [stackOf_top top,List.pairwise_append] at here
        obtain ⟨ordered,kept⟩ := move_handlers env t s.state next.state old new moved
        rw [if_pos rfl,List.pairwise_append]
        refine ⟨ordered,here.2.1,fun p inside q below handler => ?_⟩
        have busy : old ≠ [] := fun empty => by simp [idle empty] at below
        obtain ⟨p',before,handler'⟩ := kept busy p inside handler
        exact here.2.2 p' before q below handler'
      · rw [if_neg same]
        exact valid other

end Wschat.Cpp
