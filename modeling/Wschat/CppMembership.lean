import Wschat.CppLocks

/-! The set `clients_` against the connections and the loops. A loop works on the members
of the set, which cannot change while it holds the lock. -/
namespace Wschat.Cpp

open Workers

/-- The activation is on its way to insert `x`. -/
def Point.joins (x : Conn) : Point → Nat
  | .send y _ => if y = x then 1 else 0
  | .loop caller y _ _ => if caller = .connect ∧ y = x then 1 else 0
  | .lock op y | .update op y => if op = .insert ∧ y = x then 1 else 0
  | _ => 0

/-- The members of the set a loop has not finished with. -/
def Point.remaining : Point → List Conn
  | .loop _ _ _ (.next todo) => todo
  | .loop _ _ _ (.send y todo) | .loop _ _ _ (.drop y todo) => y :: todo
  | _ => []

theorem joins_le_rearms (x : Conn) (p : Point) : p.joins x ≤ p.rearms x := by
  cases p with
  | loop caller y ss progress =>
    cases caller <;> simp [Point.joins,Point.rearms]
  | lock op y => cases op <;> simp [Point.joins,Point.rearms]
  | update op y => cases op <;> simp [Point.joins,Point.rearms]
  | _ => simp [Point.joins,Point.rearms]

theorem remaining_of_unshared {p : Point} (unshared : p.shares = 0) : p.remaining = [] := by
  cases p with
  | loop caller x ss progress =>
    cases progress <;> simp [Point.shares,Point.remaining] at unshared ⊢
  | _ => rfl

structure Membership (s : State) (ps : Multiset Point) : Prop where
  nodup : s.clients.Nodup
  accepted : ∀ x ∈ s.clients, (s.conns x).accepted = true
  joining : ∀ p ∈ ps, ∀ x, 0 < p.joins x → x ∉ s.clients
  distinct : ∀ p ∈ ps, p.remaining.Nodup
  within : ∀ p ∈ ps, ∀ x ∈ p.remaining, x ∈ s.clients

section Membership

variable {s next : State} {old new : List Point} {others : Multiset Point}

/-- A step that leaves the set alone and gives no loop more to do. -/
theorem Membership.keep (valid : Membership s (↑old + others)) (same : next.clients = s.clients)
    (accepted : ∀ x, (s.conns x).accepted = true → (next.conns x).accepted = true)
    (joining : ∀ q ∈ new, ∀ x, 0 < q.joins x → x ∉ s.clients)
    (less : ∀ q ∈ new, q.remaining = [] ∨ ∃ p ∈ old, q.remaining.Sublist p.remaining) :
    Membership next (↑new + others) := by
  have before (p : Point) (inside : p ∈ old) : p ∈ (↑old + others : Multiset Point) :=
    Multiset.mem_add.mpr (.inl inside)
  refine ⟨by rw [same]; exact valid.nodup,fun x member => ?_,?_,?_,?_⟩
  · exact accepted x (valid.accepted x (same ▸ member))
  all_goals
    intro q inside
    rcases Multiset.mem_add.mp inside with fresh | still
  · rw [same]
    exact joining q fresh
  · rw [same]
    exact valid.joining q (Multiset.mem_add.mpr (.inr still))
  · rcases less q fresh with none | ⟨p,member,sub⟩
    · simp [none]
    · exact (valid.distinct p (before p member)).sublist sub
  · exact valid.distinct q (Multiset.mem_add.mpr (.inr still))
  · intro x todo
    rw [same]
    rcases less q fresh with none | ⟨p,member,sub⟩
    · simp [none] at todo
    · exact valid.within p (before p member) x (sub.subset todo)
  · rw [same]
    exact valid.within q (Multiset.mem_add.mpr (.inr still))

theorem Membership.one {p q : Point} (valid : Membership s (↑[p] + others))
    (same : next.clients = s.clients)
    (accepted : ∀ x, (s.conns x).accepted = true → (next.conns x).accepted = true)
    (joins : ∀ x, 0 < q.joins x → 0 < p.joins x) (less : q.remaining.Sublist p.remaining) :
    Membership next (↑[q] + others) := by
  refine valid.keep same accepted ?_ ?_
  · intro r inside x joining
    obtain rfl := List.mem_singleton.mp inside
    exact valid.joining p (by simp) x (joins x joining)
  · intro r inside
    obtain rfl := List.mem_singleton.mp inside
    exact .inr ⟨p,List.mem_singleton_self p,less⟩

theorem Membership.enter {q : Point} (valid : Membership s (↑([] : List Point) + others))
    (same : next.clients = s.clients)
    (accepted : ∀ x, (s.conns x).accepted = true → (next.conns x).accepted = true)
    (quiet : ∀ x, q.joins x = 0) (idle : q.remaining = []) : Membership next (↑[q] + others) := by
  refine valid.keep same accepted ?_ ?_
  · intro r inside x joining
    obtain rfl := List.mem_singleton.mp inside
    simp [quiet x] at joining
  · intro r inside
    obtain rfl := List.mem_singleton.mp inside
    exact .inl idle

end Membership

theorem move_accepted (env : Env) (t : Thread) (s next : State) (old new : List Point)
    (others : Multiset Point) (counted : Control s (↑old + others))
    (moved : Move env t s old next new) (z : Conn) (accepted : (s.conns z).accepted = true) :
    (next.conns z).accepted = true := by
  have modified (x : Conn) (f : WsConn → WsConn)
      (kept : (s.conns x).accepted = true → (f (s.conns x)).accepted = true) :
      ((s.modify x f).conns z).accepted = true := by
    by_cases here : z = x
    · subst z; simpa using kept accepted
    · simpa [here] using accepted
  cases moved with
  | accept x now idle accepting => exact modified x _ (fun _ => rfl)
  | acceptError x idle accepting =>
    refine modified x _ (fun early => ?_)
    simp [(counted x).not_accepted accepting] at early
  | write x failed idle writing =>
    refine modified x _ (fun kept => ?_)
    unfold WsConn.onWrite
    split
    · exact kept
    · split <;> exact kept
  | onSend x ss rest idle posted =>
    refine modified x _ (fun kept => ?_)
    unfold WsConn.onSend
    dsimp only
    split <;> exact kept
  | lockShared | unlockShared | expired | lock | insert | erase | unlockInsert | unlockErase =>
    exact accepted
  | _ => exact modified _ _ id

section Steps

variable {s : State} {others : Multiset Point}

/-- A connection that joins is not in the set yet. -/
theorem accept_membership (env : Env) (counted : Control s (↑([] : List Point) + others))
    (valid : Membership s (↑([] : List Point) + others)) (accepting : (s.conns x).accepting = true)
    (accepted : ∀ z, (s.conns z).accepted = true →
      ((s.modify x (.accept false)).conns z).accepted = true) :
    Membership (s.modify x (.accept false)) (↑[Point.send x (connectText env x now)] + others) := by
  refine valid.keep rfl accepted ?_ (by simp [Point.remaining])
  intro q inside y joins member
  obtain rfl := List.mem_singleton.mp inside
  have same : x = y := by by_contra different; simp [Point.joins,different] at joins
  subst same
  have early := (counted x).not_accepted accepting
  simp [valid.accepted x member] at early

/-- A loop starts on the members that there are. -/
theorem lockShared_membership {order : List Conn} {mtx : SharedMutex}
    {history : List Text} (perm : order.Perm s.clients)
    (valid : Membership s (↑[Point.loop caller x ss .enter] + others)) :
    Membership { s with mtx, history } (↑[Point.loop caller x ss (.next order)] + others) := by
  have joining := valid.joining (.loop caller x ss .enter) (by simp)
  obtain ⟨nodup,member,joins,distinct,within⟩ := valid
  refine ⟨nodup,member,?_,?_,?_⟩ <;> intro q inside <;>
    rcases Multiset.mem_add.mp inside with fresh | still
  · obtain rfl := List.mem_singleton.mp fresh
    simpa [Point.joins] using joining
  · exact joins q (Multiset.mem_add.mpr (.inr still))
  · obtain rfl := List.mem_singleton.mp fresh
    exact perm.nodup_iff.mpr nodup
  · exact distinct q (Multiset.mem_add.mpr (.inr still))
  · obtain rfl := List.mem_singleton.mp fresh
    exact fun y todo => perm.mem_iff.mp todo
  · exact within q (Multiset.mem_add.mpr (.inr still))

/-- The set may change while no loop is under way. -/
theorem Membership.update (valid : Membership s (↑[Point.update op x] + others))
    (quiet : ∀ q ∈ others, q.remaining = []) (nodup : clients.Nodup)
    (accepted : ∀ y ∈ clients, (s.conns y).accepted = true)
    (joining : ∀ q ∈ others, ∀ y, 0 < q.joins y → y ∉ s.clients → y ∉ clients) :
    Membership { s with clients } (↑[Point.unlock op x] + others) := by
  have idle : ∀ q ∈ (↑[Point.unlock op x] + others : Multiset Point), q.remaining = [] := by
    intro q inside
    rcases Multiset.mem_add.mp inside with fresh | still
    · obtain rfl := List.mem_singleton.mp fresh
      rfl
    · exact quiet q still
  refine ⟨nodup,accepted,?_,fun q inside => by simp [idle q inside],fun q inside => by simp [idle q inside]⟩
  intro q inside y joins
  rcases Multiset.mem_add.mp inside with fresh | still
  · obtain rfl := List.mem_singleton.mp fresh
    simp [Point.joins] at joins
  · exact joining q still y joins (valid.joining q (Multiset.mem_add.mpr (.inr still)) y joins)

/-- Nobody else is on the way to insert the connection. -/
theorem insert_membership (counted : Control s (↑[Point.update .insert x] + others))
    (quiet : ∀ q ∈ others, q.remaining = [])
    (valid : Membership s (↑[Point.update .insert x] + others)) :
    Membership { s with clients := s.clients.insert x } (↑[Point.unlock .insert x] + others) := by
  have ready : (s.conns x).accepted = true :=
    (counted x).accepted_of_rearms (by simp [Point.rearms])
  refine valid.update quiet valid.nodup.insert ?_ ?_
  · intro y inside
    rcases List.mem_insert_iff.mp inside with rfl | earlier
    · exact ready
    · exact valid.accepted y earlier
  · intro q still y joins absent
    have armed := (counted x).armed
    have different : y ≠ x := by
      rintro rfl
      have below := le_weigh (Point.rearms y) still
      have := joins_le_rearms y q
      simp [Point.rearms] at armed
      omega
    simpa [different] using absent

theorem erase_membership (quiet : ∀ q ∈ others, q.remaining = [])
    (valid : Membership s (↑[Point.update .erase x] + others)) :
    Membership { s with clients := s.clients.erase x } (↑[Point.unlock .erase x] + others) :=
  valid.update quiet (valid.nodup.erase x)
    (fun y inside => valid.accepted y (List.mem_of_mem_erase inside))
    fun _ _ _ _ absent back => absent (List.mem_of_mem_erase back)

end Steps

theorem move_membership (env : Env) (t : Thread) (s next : State) (old new : List Point)
    (others : Multiset Point) (counted : Control s (↑old + others))
    (alone : ∀ p ∈ old, 0 < p.owns → ∀ q ∈ others, q.shares = 0)
    (valid : Membership s (↑old + others)) (moved : Move env t s old next new) :
    Membership next (↑new + others) := by
  have accepted := move_accepted env t s next old new others counted moved
  have joining (p : Point) (top : old = [p]) := valid.joining p (by simp [top])
  have quiet (p : Point) (top : old = [p]) (owns : 0 < p.owns) : ∀ q ∈ others, q.remaining = [] :=
    fun q still => remaining_of_unshared (alone p (by simp [top]) owns q still)
  cases moved with
  | accept x now idle accepting => exact accept_membership env counted valid accepting accepted
  | lockShared caller x ss order free perm => exact lockShared_membership perm valid
  | insert x => exact insert_membership counted (quiet _ rfl (by simp [Point.owns])) valid
  | erase x => exact erase_membership (quiet _ rfl (by simp [Point.owns])) valid
  | unlockShared caller x ss =>
    refine valid.keep rfl accepted ?_ (by cases caller <;> simp [afterLoop,Point.remaining])
    have before := joining _ rfl
    cases caller <;> simp [afterLoop,Point.joins] at before ⊢
    exact before
  | acceptError | readError | write | onSend =>
    exact valid.enter rfl accepted (fun _ => rfl) rfl
  | broadcast | badMessage =>
    exact valid.enter rfl accepted (fun _ => by simp [Point.joins]) rfl
  | send => exact valid.one rfl accepted (fun _ => by simp [Point.joins]) (List.nil_sublist _)
  | reply | lock | unlockInsert | unlockErase | read | drop =>
    exact valid.one rfl accepted (fun _ => id) (List.nil_sublist _)
  | retain | post => exact valid.one rfl accepted (fun _ => id) (List.Sublist.refl _)
  | expired | release => exact valid.one rfl accepted (fun _ => id) (List.sublist_cons_self _ _)
  | releaseLast =>
    refine valid.keep rfl accepted ?_ (by simp [Point.remaining,destructor])
    have before := joining _ rfl
    simpa [Point.joins,destructor] using before
  | dropLast =>
    refine valid.keep rfl accepted ?_ ?_ <;> simp [Point.joins,Point.remaining,destructor]
  | leave | free => exact valid.keep rfl accepted (by simp) (by simp)

theorem membership (env : Env) (workers : Nat) (reached : (machine env workers).Reaches es s) :
    Membership s.state (activations s.threads) := by
  refine points_invariant env workers Membership ?_ ?_ ?_ reached
  · refine ⟨?_,?_,?_,?_,?_⟩ <;> simp [State.initial]
  · intro es s x before valid fresh
    refine ⟨valid.nodup,fun y member => ?_,valid.joining,valid.distinct,valid.within⟩
    have earlier := valid.accepted y member
    by_cases same : y = x
    · subst y; simpa [WsConn.upgrade] using earlier
    · simpa [same] using earlier
  · intro es s t old next new others reached cut valid moved
    have counted := cut ▸ control env workers reached
    refine move_membership env t s.state next old new others counted ?_ valid moved
    intro p inside owns q member
    exact exclusive env workers reached (by rw [cut]; simp [inside]) owns (by rw [cut]; simp [member])

end Wschat.Cpp
