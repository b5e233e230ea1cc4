import Wschat.CppMembership
import Wschat.CppSelfDeadlock

/-! The raw pointers of the C++ server. `clients_` holds a `WsConn*` and no reference, so
that nothing freed is followed rests on the destructor taking its own entry out first. -/
namespace Wschat.Cpp

open Workers

/-- The connections whose object an activation still uses: its own, whose frames are below
it, and the one its loop looks at. -/
def Point.touches : Point → List Conn
  | .loop _ x _ (.next (y :: _)) | .loop _ x _ (.send y _) | .loop _ x _ (.drop y _) => [x,y]
  | .send x _ | .reply x _ | .loop _ x _ _ | .lock _ x | .update _ x | .unlock _ x
  | .read _ x | .drop x | .free x => [x]
  | .leave _ => []

/-- The connection on which the next step calls `shared_from_this`. -/
def Point.calls (x : Conn) : Point → Bool
  | .send y _ | .reply y _ | .read _ y | .loop _ _ _ (.send y _) => y == x
  | _ => false

/-- The activation is the destructor of `x` after its erase. -/
def Point.erased (x : Conn) : Point → Nat
  | .unlock op y => if op = .erase ∧ y = x then 1 else 0
  | .free y => if y = x then 1 else 0
  | _ => 0

/-- No member of the set is freed or about to be. -/
def Erased (s : State) (ps : Multiset Point) : Prop :=
  ∀ x ∈ s.clients, weigh (Point.erased x) ps = 0 ∧ (s.conns x).freed = false

theorem erased_le_destroys (x : Conn) (p : Point) : p.erased x ≤ p.destroys x := by
  cases p <;> simp [Point.erased,Point.destroys]

/-- A reference keeps its object: nothing of the destructor has run. -/
theorem Local.unfreed (valid : Local c a h d r) (held : 0 < c.refs) :
    d = 0 ∧ c.freed = false := by
  have dying := valid.dying
  rw [valid.alive held,Bool.toNat_false] at dying
  refine ⟨by omega,?_⟩
  by_contra freed
  simp only [Bool.not_eq_false] at freed
  simp [freed] at dying

section Erased

variable {s next : State} {old new : List Point} {others : Multiset Point}

theorem Erased.keep (valid : Erased s (↑old + others)) (same : next.clients = s.clients)
    (freed : ∀ x ∈ s.clients, (next.conns x).freed = (s.conns x).freed)
    (less : ∀ x, (new.map (Point.erased x)).sum ≤ (old.map (Point.erased x)).sum) :
    Erased next (↑new + others) := by
  intro x member
  rw [same] at member
  obtain ⟨none_,live⟩ := valid x member
  simp only [weigh_add,weigh_coe] at none_ ⊢
  have := less x
  exact ⟨by omega,by rw [freed x member,live]⟩

theorem Erased.modify {f : WsConn → WsConn} {y : Conn} (valid : Erased s (↑old + others))
    (freed : (f (s.conns y)).freed = (s.conns y).freed)
    (less : ∀ x, (new.map (Point.erased x)).sum ≤ (old.map (Point.erased x)).sum) :
    Erased (s.modify y f) (↑new + others) := by
  refine valid.keep rfl (fun x _ => ?_) less
  by_cases here : x = y
  · subst x; simpa using freed
  · simp [here]

end Erased

theorem onWrite_freed (c : WsConn) (failed : Bool) : (c.onWrite failed).freed = c.freed := by
  unfold WsConn.onWrite
  split
  · rfl
  · split <;> rfl

theorem onSend_freed (c : WsConn) (ss : Text) (rest : List Text) :
    (c.onSend ss rest).freed = c.freed := by
  unfold WsConn.onSend
  dsimp only
  split <;> rfl

theorem move_erased (env : Env) (t : Thread) (s next : State) (old new : List Point)
    (others : Multiset Point) (counted : Control s (↑old + others))
    (members : Membership s (↑old + others)) (valid : Erased s (↑old + others))
    (moved : Move env t s old next new) : Erased next (↑new + others) := by
  cases moved with
  | write x failed idle writing =>
    exact valid.modify (onWrite_freed _ failed) (by simp [Point.erased])
  | onSend x ss rest idle posted =>
    exact valid.modify (onSend_freed _ ss rest) (by simp [Point.erased])
  | lockShared | lock | expired | unlockInsert =>
    exact valid.keep rfl (fun _ _ => rfl) (by simp [Point.erased])
  | unlockShared caller x ss =>
    exact valid.keep rfl (fun _ _ => rfl) (by cases caller <;> simp [Point.erased,afterLoop])
  | unlockErase x => exact valid.keep rfl (fun _ _ => rfl) (by simp [Point.erased])
  | insert x =>
    intro y member
    rcases List.mem_insert_iff.mp member with rfl | earlier
    · -- the handler that inserts still holds its reference
      have held : 0 < (s.conns y).refs :=
        counted.held (p := .update .insert y) (by simp) (by simp [Point.strong,Point.carries,Point.rearms])
      obtain ⟨none_,live⟩ := (counted y).unfreed held
      have below := weigh_mono (erased_le_destroys y) (↑[Point.update .insert y] + others)
      simp only [weigh_add,weigh_coe] at none_ below ⊢
      simp [Point.erased,Point.destroys] at none_ below ⊢
      exact ⟨by omega,live⟩
    · obtain ⟨none_,live⟩ := valid y earlier
      simp only [weigh_add,weigh_coe] at none_ ⊢
      exact ⟨by simpa [Point.erased] using none_,live⟩
  | erase x =>
    intro y member
    obtain ⟨different,earlier⟩ := (members.nodup.mem_erase_iff).mp member
    obtain ⟨none_,live⟩ := valid y earlier
    simp only [weigh_add,weigh_coe] at none_ ⊢
    exact ⟨by simpa [Point.erased,Ne.symm different] using none_,live⟩
  | free x =>
    intro y member
    obtain ⟨none_,live⟩ := valid y member
    simp only [weigh_add,weigh_coe] at none_ ⊢
    have different : y ≠ x := by
      rintro rfl
      simp [Point.erased] at none_
    exact ⟨by simpa [Point.erased,Ne.symm different] using none_,by simpa [different] using live⟩
  | _ => exact valid.modify rfl (by simp [Point.erased,destructor])

theorem erased (env : Env) (workers : Nat) (reached : (machine env workers).Reaches es s) :
    Erased s.state (activations s.threads) := by
  refine points_invariant env workers Erased (by simp [Erased,State.initial]) ?_ ?_ reached
  · intro es s x before valid fresh
    have same : ((s.state.conns x).upgrade).freed = (s.state.conns x).freed := rfl
    have moved : Erased (s.state.modify x .upgrade) (↑([] : List Point) + activations s.threads) :=
      Erased.modify (by simpa using valid : Erased s.state (↑([] : List Point) + activations s.threads))
        same (by simp)
    simpa using moved
  · intro es s t old next new others reached cut valid moved
    exact move_erased env t s.state next old new others (cut ▸ control env workers reached)
      (cut ▸ membership env workers reached) valid moved

theorem Local.held_of_pending (valid : Local c a h d r) (pending : 0 < c.pending) :
    0 < c.refs := by
  have := valid.refs
  omega

theorem Local.intact (valid : Local c a h d r) (held : 0 < c.refs) :
    c.created = true ∧ c.freed = false :=
  ⟨valid.created_of_refs held,(valid.unfreed held).2⟩

/-- The destructor runs in an object that is still there. -/
theorem Local.intact_of_destroys (valid : Local c a h d r) (destroys : 0 < d) :
    c.created = true ∧ c.freed = false := by
  have dying := valid.dying
  have bound := Bool.toNat_le c.destroyed
  refine ⟨?_,?_⟩
  · by_contra absent
    have eq := valid.absent (by simpa using absent)
    simp [eq,WsConn.absent] at dying
    omega
  · by_contra freed
    simp only [Bool.not_eq_false] at freed
    simp only [freed,Bool.toNat_true] at dying
    omega

section Safe

variable {s : State} {ps : Multiset Point} {p : Point}

theorem Control.intact_of_strong (valid : Control s ps) (member : p ∈ ps) (strong : 0 < p.strong x) :
    (s.conns x).created = true ∧ (s.conns x).freed = false :=
  (valid x).intact (valid.held member strong)

theorem Control.intact_of_destroys (valid : Control s ps) (member : p ∈ ps)
    (destroys : 0 < p.destroys x) : (s.conns x).created = true ∧ (s.conns x).freed = false := by
  refine (valid x).intact_of_destroys ?_
  have := le_weigh (Point.destroys x) member
  omega

/-- An activation holds its own connection, or is its destructor. -/
theorem own_strong_or_destroys (member : x ∈ p.touches) (outside : x ∉ p.remaining) :
    0 < p.strong x ∨ 0 < p.destroys x := by
  cases p with
  | loop caller y ss progress =>
    have same : x = y := by
      rcases progress with _ | (_ | ⟨z,todo⟩) | ⟨z,todo⟩ | ⟨z,todo⟩ <;>
        simp [Point.touches,Point.remaining] at member outside <;> tauto
    subst same
    by_cases last : caller = .disconnect
    · exact .inr (by simp [Point.destroys,last])
    · exact .inl (by simp [Point.strong,Point.carries,Point.rearms,last])
  | lock op y | update op y | unlock op y =>
    obtain rfl := List.mem_singleton.mp member
    cases op
    · exact .inl (by simp [Point.strong,Point.carries,Point.rearms])
    · exact .inr (by simp [Point.destroys])
  | free y =>
    obtain rfl := List.mem_singleton.mp member
    exact .inr (by simp [Point.destroys])
  | leave y => simp [Point.touches] at member
  | send y ss | reply y ss | read consume y | drop y =>
    obtain rfl := List.mem_singleton.mp member
    exact .inl (by simp [Point.strong,Point.carries,Point.rearms])

end Safe

/-- What C++ leaves to the program: no object is used before it is made or after it is
freed, and `shared_from_this` is called on shared objects only. -/
structure System.MemorySafe (s : System) : Prop where
  touched : ∀ p ∈ activations s.threads, ∀ x ∈ p.touches,
    (s.state.conns x).created = true ∧ (s.state.conns x).freed = false
  shared : ∀ p ∈ activations s.threads, ∀ x, p.calls x = true → 0 < (s.state.conns x).refs
  clients : ∀ x ∈ s.state.clients,
    (s.state.conns x).created = true ∧ (s.state.conns x).freed = false
  pending : ∀ x, 0 < (s.state.conns x).pending →
    (s.state.conns x).created = true ∧ (s.state.conns x).freed = false

/-- A freed object is left alone; only its strand is released. -/
def System.Frozen (s next : System) (x : Conn) : Prop :=
  next.state.conns x =
    { s.state.conns x with running := (next.state.conns x).running }

theorem strong_of_calls {p : Point} (calls : p.calls x = true) : 0 < p.strong x := by
  cases p with
  | loop caller y ss progress =>
    cases progress <;> simp [Point.calls] at calls
    simp [Point.strong,Point.visits,calls]
  | send y ss | reply y ss | read consume y =>
    simp only [Point.calls,beq_iff_eq] at calls
    simp [Point.strong,Point.carries,Point.rearms,calls]
  | _ => simp [Point.calls] at calls

theorem clients_intact (counted : Control s ps) (members : Membership s ps) (valid : Erased s ps)
    (member : x ∈ s.clients) : (s.conns x).created = true ∧ (s.conns x).freed = false := by
  refine ⟨?_,(valid x member).2⟩
  by_contra absent
  have eq := (counted x).absent (by simpa using absent)
  have := members.accepted x member
  simp [eq,WsConn.absent] at this

theorem memory_safe (env : Env) (workers : Nat) (reached : (machine env workers).Reaches es s) :
    s.MemorySafe := by
  have counted := control env workers reached
  have members := membership env workers reached
  have clients (x : Conn) := clients_intact (x := x) counted members (erased env workers reached)
  refine ⟨fun p inside x touches => ?_,fun p inside x calls => ?_,fun x => clients x,
    fun x pending => ?_⟩
  · by_cases visited : x ∈ p.remaining
    · exact clients x (members.within p inside x visited)
    · rcases own_strong_or_destroys touches visited with strong | destroys
      · exact counted.intact_of_strong inside strong
      · exact counted.intact_of_destroys inside destroys
  · exact counted.held inside (strong_of_calls calls)
  · exact (counted x).intact ((counted x).held_of_pending pending)

theorem move_frozen (env : Env) (t : Thread) (s next : State) (old new : List Point)
    (others : Multiset Point) (counted : Control s (↑old + others))
    (members : Membership s (↑old + others)) (valid : Erased s (↑old + others))
    (moved : Move env t s old next new) (x : Conn) (freed : (s.conns x).freed = true) :
    next.conns x = { s.conns x with running := (next.conns x).running } := by
  have modified (y : Conn) (f : WsConn → WsConn) (live : (s.conns y).freed = false) :
      (s.modify y f).conns x = { s.conns x with running := ((s.modify y f).conns x).running } := by
    have different : x ≠ y := by
      rintro rfl
      simp [freed] at live
    simp [different]
  have pending (y : Conn) (some_ : 0 < (s.conns y).pending) : (s.conns y).freed = false :=
    ((counted y).intact ((counted y).held_of_pending some_)).2
  have strong (y : Conn) (p : Point) (top : old = [p]) (holds : 0 < p.strong y) :
      (s.conns y).freed = false :=
    (counted.intact_of_strong (p := p) (by simp [top]) holds).2
  have own (y : Conn) (p : Point) (rearms : 0 < p.rearms y) : 0 < p.strong y := by
    simp only [Point.strong,Point.carries]
    omega
  cases moved with
  | accept y now idle accepting | acceptError y idle accepting =>
    exact modified y _ (pending y (by simp [WsConn.pending,accepting]))
  | readError y idle reading | broadcast y payload text now residue idle reading decoded
  | badMessage y payload text now residue idle reading decoded =>
    exact modified y _ (pending y (by simp [WsConn.pending,reading]))
  | write y failed idle writing =>
    exact modified y _ (pending y (by simp [WsConn.pending,writing]))
  | onSend y ss rest idle posted =>
    exact modified y _ (pending y (by simp [WsConn.pending,posted]))
  | send y ss | reply y ss | read consume y =>
    exact modified y _ (strong y _ rfl (own y _ (by simp [Point.rearms])))
  | retain caller y ss z todo alive => exact modified z _ ((counted z).intact alive).2
  | post caller y ss z todo | release caller y ss z todo more
  | releaseLast caller y ss z todo now last =>
    exact modified z _ (strong z _ rfl (by simp [Point.strong,Point.visits]))
  | drop y more | dropLast y now last =>
    exact modified y _ (strong y _ rfl (by simp [Point.strong,Point.carries,Point.rearms]))
  | free y =>
    exact modified y _ (counted.intact_of_destroys (p := .free y) (by simp)
      (by simp [Point.destroys])).2
  | leave y =>
    by_cases same : x = y
    · subst x; simp
    · simp [same]
  | lockShared | unlockShared | expired | lock | insert | erase | unlockInsert | unlockErase => rfl

theorem freed_frozen (env : Env) (workers : Nat) (reached : (machine env workers).Reaches es s)
    (stepped : (machine env workers).step s e = some next) (x : Conn)
    (freed : (s.state.conns x).freed = true) : s.Frozen next x := by
  have counted := control env workers reached
  rcases step_cases env s next e stepped with ⟨y,fresh,rfl⟩ | ⟨t,old,new,rest,top,-,moved,-⟩
  · have different : x ≠ y := by
      rintro rfl
      simp [(counted x).absent fresh,WsConn.absent] at freed
    simp [System.Frozen,different]
  · obtain ⟨others,cut,-⟩ := split top
    exact move_frozen env t s.state next.state old new others (cut ▸ counted)
      (cut ▸ membership env workers reached) (cut ▸ erased env workers reached) moved x freed

/-- In every reachable state every object that is used, stored or waited for is there, and
no later step brings a freed one back. -/
theorem no_use_after_free (env : Env) (workers : Nat) (es : List Event) (s : System)
    (reached : (machine env workers).Reaches es s) : s.MemorySafe ∧
    ∀ x, (s.state.conns x).freed = true →
      ∀ fs final, (machine env workers).run fs s = some final → s.Frozen final x := by
  refine ⟨memory_safe env workers reached,fun x freed fs final ran => ?_⟩
  induction fs using List.reverseRecOn generalizing final with
  | nil =>
    obtain rfl := Option.some.inj ran
    rfl
  | append_singleton fs e ih =>
    obtain ⟨middle,before,stepped⟩ := ((machine env workers).run_concat fs e s final).mp ran
    have earlier := ih middle before
    have there := (Machine.reaches_append _ _ _ _).mpr ⟨s,reached,before⟩
    have later := freed_frozen env workers there stepped x (by rw [earlier]; exact freed)
    unfold System.Frozen at earlier later ⊢
    rw [earlier] at later
    exact later

/-- Clients 0 and 1 join, then the write and the read of 0 fail: the worker is in the loop of
`~WsConn` of 0. -/
def leaving : List Event := List.flatten [
  [.upgrade 0,.accept 0 0 false 0],work 0 9,
  [.upgrade 1,.accept 0 1 false 0],work 0 1,[.exec 0 [0] 0],work 0 10,
  [.send 0 0],work 0 2,[.send 0 0],work 0 2,[.write 0 0 true],work 0 2,
  [.read 0 0 none 0 0],work 0 1]

/-- The destructor tells 1 of it, and the object is freed. -/
def departure : List Event := leaving ++ .exec 0 [1,0] 0 :: work 0 10

/-- Client 1 is written to, and leaves too. -/
def farewell : List Event := List.flatten [
  [.send 0 1],work 0 2,[.send 0 1],work 0 2,[.write 0 1 true],work 0 2,
  [.read 0 1 none 0 0],work 0 1,[.exec 0 [1] 0],work 0 7]

theorem departure_runs : ((machine .numbered 1).run departure (start 1)).any (fun s =>
    (s.state.conns 0).freed && !(s.state.conns 1).freed &&
      ((machine .numbered 1).run farewell s).any fun final => (final.state.conns 1).freed) = true := by
  decide +kernel

/-- The first object is freed, and stays as it is while the second is still used and freed. -/
theorem departure_frozen : ∃ s final, (machine .numbered 1).Reaches departure s ∧
    (machine .numbered 1).run farewell s = some final ∧ (final.state.conns 1).freed = true ∧
      s.MemorySafe ∧ s.Frozen final 0 := by
  obtain ⟨s,ran,checked⟩ := (Option.any_eq_true _ _).mp departure_runs
  simp only [Bool.and_eq_true] at checked
  obtain ⟨final,further,gone⟩ := (Option.any_eq_true _ _).mp checked.2
  have safe := no_use_after_free .numbered 1 departure s ran
  exact ⟨s,final,ran,further,gone,safe.1,safe.2 0 checked.1.1 farewell final further⟩

end Wschat.Cpp
