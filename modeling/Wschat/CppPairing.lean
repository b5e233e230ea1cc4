import Wschat.CppCauses

/-! Connects and disconnects in the broadcast history. The destructor announces every
connection object, also one whose handshake failed and that was never announced. -/
namespace Wschat.Cpp

open Workers

/-- The text is the server's announcement of this kind for a uuid. -/
def Env.announces (env : Env) (uuid : String) (k : Kind) (t : Text) : Bool :=
  t.origin.kind = k ∧ env.uuid t.origin.conn = uuid

/-- At most one connect and one disconnect for a uuid, the disconnect after the connect. -/
structure Paired (env : Env) (history : List Text) : Prop where
  connect : ∀ uuid, (history.filter (env.announces uuid .connect)).length ≤ 1
  disconnect : ∀ uuid, (history.filter (env.announces uuid .disconnect)).length ≤ 1
  after : ∀ uuid before t rest, history = before ++ t :: rest →
    env.announces uuid .disconnect t = true → ∃ u ∈ before, env.announces uuid .connect u = true

theorem history_log (env : Env) (workers : Nat) (reached : (machine env workers).Reaches es s) :
    Log Point.enters s.state.history s.state (activations s.threads) := by
  refine points_invariant env workers (fun s ps => Log Point.enters s.history s ps)
    (log_empty _ _) ?_ ?_ reached
  · intro es s x before valid fresh
    exact ⟨fun t member => grows_modify s.state x .upgrade id (Nat.le_refl _) id _ (valid.issued t member),
      valid.ordered,valid.fresh⟩
  · intro es s t old next new others reached cut valid moved
    have counted := cut ▸ control env workers reached
    have within := cut ▸ membership env workers reached
    have grows := move_grows env t s.state next old new others counted moved
    rcases move_history env t s.state next old new moved with eq | ⟨caller,x,ss,rfl,eq,done⟩
    · rw [eq]
      refine valid.keep grows fun q inside may x ss told => ?_
      rcases move_teller env t s.state next old new others counted within moved q inside x ss told
        with ⟨p,member,same,enters,-⟩ | issue
      · exact .inl ⟨p,member,same,enters may⟩
      · exact .inr issue
    · rw [eq]
      exact valid.append grows counted (cut ▸ told env workers reached)
        (List.mem_singleton_self _) trivial rfl fun q inside may => absurd may (done q inside)

/-- The announcement is in the history, or an activation is about to make it. -/
def Announced (s : State) (ps : Multiset Point) (o : Origin) : Prop :=
  (∃ t ∈ s.history, t.origin = o) ∨
    ∃ p ∈ ps, p.enters ∧ ∃ ss, p.teller = some (o.conn,ss) ∧ ss.origin = o

theorem issued_of_modify (s : State) (x z : Conn) (f : WsConn → WsConn) (k : Kind)
    (kind : k = .connect ∨ k = .disconnect)
    (accepted : (f (s.conns x)).accepted = true → (s.conns x).accepted = true)
    (destroyed : (f (s.conns x)).destroyed = true → (s.conns x).destroyed = true)
    (issued : (s.modify x f).Issued ⟨z,k⟩) : s.Issued ⟨z,k⟩ := by
  by_cases here : z = x
  · subst z
    rcases kind with rfl | rfl <;> simp [State.Issued,WsConn.Issued] at issued ⊢
    · exact accepted issued
    · exact destroyed issued
  · simpa [State.Issued,here] using issued

/-- A connection is accepted, or destroyed, by the step that puts its announcement in hand. -/
theorem move_issued (env : Env) (t : Thread) (s next : State) (old new : List Point)
    (moved : Move env t s old next new) (z : Conn) (k : Kind)
    (kind : k = .connect ∨ k = .disconnect) (issued : next.Issued ⟨z,k⟩) : s.Issued ⟨z,k⟩ ∨
      ∃ q ∈ new, q.enters ∧ ∃ ss, q.teller = some (z,ss) ∧ ss.origin = ⟨z,k⟩ := by
  have destroyed (y : Conn) (now : Int64) (more : List Point)
      (issued : (s.modify y .release).Issued ⟨z,k⟩) : s.Issued ⟨z,k⟩ ∨
        ∃ q ∈ destructor env y now :: more, q.enters ∧ ∃ ss, q.teller = some (z,ss) ∧
          ss.origin = ⟨z,k⟩ := by
    by_cases here : z = y ∧ k = .disconnect
    · obtain ⟨rfl,rfl⟩ := here
      exact .inr ⟨_,List.mem_cons_self,trivial,_,rfl,rfl⟩
    · by_cases same : z = y
      · subst z
        rcases kind with rfl | rfl
        · exact .inl (by simpa [State.Issued,WsConn.Issued,WsConn.release] using issued)
        · simp at here
      · exact .inl (by simpa [State.Issued,same] using issued)
  cases moved with
  | accept x now idle accepting =>
    by_cases here : z = x ∧ k = .connect
    · obtain ⟨rfl,rfl⟩ := here
      exact .inr ⟨_,List.mem_singleton_self _,trivial,_,rfl,rfl⟩
    · refine .inl ?_
      by_cases same : z = x
      · subst z
        rcases kind with rfl | rfl
        · simp at here
        · simpa [State.Issued,WsConn.Issued,WsConn.accept] using issued
      · simpa [State.Issued,same] using issued
  | acceptError x =>
    exact .inl (issued_of_modify s x z _ k kind (by simp [WsConn.accept]) id issued)
  | write x failed =>
    obtain ⟨accepted,-,gone⟩ := grows_onWrite failed (s.conns x)
    exact .inl (issued_of_modify s x z _ k kind (by rw [accepted]; exact id)
      (by rw [gone]; exact id) issued)
  | onSend x ss rest =>
    obtain ⟨accepted,-,gone⟩ := grows_onSend ss rest (s.conns x)
    exact .inl (issued_of_modify s x z _ k kind (by rw [accepted]; exact id)
      (by rw [gone]; exact id) issued)
  | release caller x ss y todo more =>
    exact .inl (issued_of_modify s y z _ k kind id (by simp [WsConn.release,more]) issued)
  | drop x more =>
    exact .inl (issued_of_modify s x z _ k kind id (by simp [WsConn.release,more]) issued)
  | releaseLast caller x ss y todo now last => exact destroyed y now _ issued
  | dropLast x now last => exact destroyed x now _ issued
  | lockShared | unlockShared | expired | lock | insert | erase | unlockInsert | unlockErase =>
    exact .inl issued
  | _ => exact .inl (issued_of_modify s _ z _ k kind id id issued)

theorem move_pending (env : Env) (t : Thread) (s next : State) (old new : List Point)
    (moved : Move env t s old next new) (p : Point) (inside : p ∈ old) (enters : p.enters)
    (told : p.teller = some (x,ss)) :
    ss ∈ next.history ∨ ∃ q ∈ new, q.enters ∧ q.teller = some (x,ss) := by
  cases moved with
  | send y us =>
    obtain rfl := List.mem_singleton.mp inside
    exact .inr ⟨_,List.mem_singleton_self _,trivial,told⟩
  | lockShared caller y us order =>
    obtain rfl := List.mem_singleton.mp inside
    obtain rfl : us = ss := by simpa [Point.teller] using congrArg (Option.map Prod.snd) told
    exact .inl (by simp)
  | accept | acceptError | readError | broadcast | badMessage | write | onSend => simp at inside
  | _ =>
    obtain rfl := List.mem_singleton.mp inside
    simp [Point.enters] at enters

/-- Acceptance and destruction are announced, each by its own broadcast. -/
theorem announced (env : Env) (workers : Nat) (reached : (machine env workers).Reaches es s)
    (x : Conn) (k : Kind) (kind : k = .connect ∨ k = .disconnect)
    (issued : s.state.Issued ⟨x,k⟩) : Announced s.state (activations s.threads) ⟨x,k⟩ := by
  revert issued
  refine points_invariant env workers (fun s ps => s.Issued ⟨x,k⟩ → Announced s ps ⟨x,k⟩)
    ?_ ?_ ?_ reached
  · intro issued
    rcases kind with rfl | rfl <;>
      simp [State.Issued,WsConn.Issued,State.initial,WsConn.absent] at issued
  · intro es s y before valid fresh issued
    exact valid (issued_of_modify s.state y x .upgrade k kind id id issued)
  · intro es s t old next new others reached cut valid moved issued
    rcases move_issued env t s.state next old new moved x k kind issued with
      earlier | ⟨q,member,enters,ss,told,origin⟩
    · rcases valid earlier with ⟨u,member,origin⟩ | ⟨p,member,enters,ss,told,origin⟩
      · refine .inl ⟨u,?_,origin⟩
        rcases move_history env t s.state next old new moved with eq | ⟨_,_,_,_,eq,-⟩ <;>
          simp [eq,member]
      · rcases Multiset.mem_add.mp member with top | still
        · rcases move_pending env t s.state next old new moved p top enters told with
            done | ⟨q,fresh,enters',told'⟩
          · exact .inl ⟨ss,done,origin⟩
          · exact .inr ⟨q,Multiset.mem_add.mpr (.inl fresh),enters',ss,told',origin⟩
        · exact .inr ⟨p,Multiset.mem_add.mpr (.inr still),enters,ss,told,origin⟩
    · exact .inr ⟨q,Multiset.mem_add.mpr (.inl member),enters,ss,told,origin⟩

section Ordered

variable {log : List Text}

theorem once_of_ordered (ordered : log.Pairwise fun t u => t.origin.Before u.origin)
    (f : Text → Bool) (same : ∀ t u, f t = true → f u = true → t.origin = u.origin) :
    (log.filter f).length ≤ 1 := by
  have kept := ordered.filter f
  cases eq : log.filter f with
  | nil => simp
  | cons t rest =>
    cases rest with
    | nil => simp
    | cons u rest =>
      rw [eq] at kept
      have chosen (v : Text) (member : v ∈ t :: u :: rest) : f v = true := by
        rw [← eq] at member
        exact (List.mem_filter.mp member).2
      have before := (List.pairwise_cons.mp kept).1 u List.mem_cons_self
      rw [same t u (chosen t (by simp)) (chosen u (by simp))] at before
      exact absurd (before rfl) (lt_irrefl _)

/-- What comes later in the order does not stand earlier in the list. -/
theorem mem_before_of_ordered (ordered : log.Pairwise fun t u => t.origin.Before u.origin)
    (split : log = before ++ t :: rest) (member : u ∈ log) (conn : u.origin.conn = t.origin.conn)
    (rank : u.origin.kind.rank < t.origin.kind.rank) : u ∈ before := by
  subst split
  rcases List.mem_append.mp member with earlier | later
  · exact earlier
  · rcases List.mem_cons.mp later with rfl | after
    · exact absurd rank (lt_irrefl _)
    · have ordered' := (List.pairwise_cons.mp (List.pairwise_append.mp ordered).2.1).1 u after
      exact absurd (ordered' conn.symm) (lt_asymm rank)

end Ordered

/-- A destroyed connection has nothing left to announce but its disconnect. -/
theorem in_history_of_destroyed (env : Env) (workers : Nat)
    (reached : (machine env workers).Reaches es s) (x : Conn)
    (accepted : (s.state.conns x).accepted = true) (destroyed : (s.state.conns x).destroyed = true) :
    ∃ u ∈ s.state.history, u.origin = ⟨x,.connect⟩ := by
  rcases announced env workers reached x .connect (.inl rfl) accepted with
    found | ⟨p,member,enters,ss,speaks,origin⟩
  · exact found
  · have counted := control env workers reached
    have quiet := (weigh_eq_zero _ _).mp (counted.quiet_of_dead destroyed) p member
    have fits := all_fit env workers reached p member
    cases p with
    | send y us =>
      obtain ⟨rfl,rfl⟩ : y = x ∧ us = ss := by simpa [Point.teller] using speaks
      simp [Point.rearms] at quiet
    | loop caller y us progress =>
      obtain ⟨rfl,rfl⟩ : y = x ∧ us = ss := by simpa [Point.teller] using speaks
      cases caller with
      | disconnect => simp [Point.Fits,origin] at fits
      | _ => simp [Point.rearms] at quiet
    | _ => simp [Point.enters] at enters

theorem rejected_onWrite (failed : Bool) (c : WsConn) :
    (c.onWrite failed).rejected = c.rejected ∧ (c.onWrite failed).accepting = c.accepting := by
  unfold WsConn.onWrite
  split
  · simp
  · split <;> simp

theorem rejected_onSend (ss : Text) (rest : List Text) (c : WsConn) :
    (c.onSend ss rest).rejected = c.rejected ∧ (c.onSend ss rest).accepting = c.accepting := by
  unfold WsConn.onSend
  dsimp only
  split <;> simp

theorem rejected_modify (s : State) (x z : Conn) (f : WsConn → WsConn)
    (same : (f (s.conns x)).rejected = (s.conns x).rejected) :
    ((s.modify x f).conns z).rejected = (s.conns z).rejected := by
  by_cases here : z = x
  · subst z; simpa using same
  · simp [here]

theorem move_rejected (env : Env) (t : Thread) (s next : State) (old new : List Point)
    (moved : Move env t s old next new) (busy : old ≠ []) (z : Conn) :
    (next.conns z).rejected = (s.conns z).rejected := by
  cases moved with
  | lockShared | unlockShared | expired | lock | insert | erase | unlockInsert | unlockErase => rfl
  | accept | acceptError | readError | broadcast | badMessage | write | onSend =>
    exact absurd rfl busy
  | _ => exact rejected_modify s _ z _ rfl

/-- Only `accept` with an error rejects a connection. -/
theorem step_rejected (env : Env) (s next : System) (e : Event) (stepped : step env s e = some next)
    (counted : Control s.state (activations s.threads)) (z : Conn) :
    (next.state.conns z).rejected = true ↔
      (s.state.conns z).rejected = true ∨ ∃ t now, e = .accept t z true now := by
  have kept (t : Thread) (x : Conn) (f : WsConn → WsConn) (p : Point)
      (same : ∀ c, (f c).rejected = c.rejected) (eq : next = s.enter t x f p) :
      (next.state.conns z).rejected = (s.state.conns z).rejected := by
    rw [eq]
    exact rejected_modify s.state x z f (same _)
  cases e with
  | upgrade x =>
    simp only [step,Option.ite_none_left_eq_some,Option.some.injEq] at stepped
    rw [← stepped.2]
    have same := rejected_modify s.state x z .upgrade rfl
    simp only [same,reduceCtorEq,exists_false,or_false]
  | accept t x failed now =>
    simp only [step,Option.ite_none_right_eq_some,Option.some.injEq] at stepped
    by_cases here : z = x
    · subst z
      have early : (s.state.conns x).rejected = false := by
        have stage := (counted x).stage
        have := Bool.toNat_le (s.state.conns x).created
        by_contra rejected
        simp only [Bool.not_eq_false] at rejected
        simp only [stepped.1.2,rejected,Bool.toNat_true] at stage
        omega
      simp [← stepped.2,System.enter,WsConn.accept,early]
    · simp [← stepped.2,System.enter,here,Ne.symm here]
  | read t x payload now residue =>
    simp only [step,Option.ite_none_right_eq_some] at stepped
    cases payload with
    | none => simp [kept t x .readError _ (fun _ => rfl) (Option.some.inj stepped.2).symm]
    | some p =>
      simp [kept t x (.receive p now residue) _ (fun _ => rfl) (Option.some.inj stepped.2).symm]
  | write t x failed =>
    simp only [step,Option.ite_none_right_eq_some,Option.some.injEq] at stepped
    simp [kept t x (.onWrite failed) _ (fun c => (rejected_onWrite failed c).1) stepped.2.symm]
  | send t x =>
    simp only [step] at stepped
    split at stepped
    case h_1 => contradiction
    case h_2 ss rest posted =>
      simp only [Option.ite_none_right_eq_some,Option.some.injEq] at stepped
      simp [kept t x (.onSend ss rest) _ (fun c => (rejected_onSend ss rest c).1) stepped.2.symm]
  | exec t order now =>
    simp only [step] at stepped
    split at stepped
    case h_2 => contradiction
    case h_1 p rest top =>
      obtain ⟨result,ran,rfl⟩ := Option.map_eq_some_iff.mp stepped
      have same := move_rejected env t s.state result.1 [p] result.2
        (exec_move env s.state t order now p result ran) (by simp) z
      simp [same]

theorem rejected_iff (env : Env) (workers : Nat) (reached : (machine env workers).Reaches es s)
    (x : Conn) : (s.state.conns x).rejected = true ↔ ∃ t now, Event.accept t x true now ∈ es := by
  refine (machine env workers).reaches_induction (motive := fun es s =>
    (s.state.conns x).rejected = true ↔ ∃ t now, Event.accept t x true now ∈ es) ?_ ?_ reached
  · simp [machine,start,State.initial,WsConn.absent]
  · intro es s e next before ih stepped
    rw [step_rejected env s next e stepped (control env workers before) x,ih]
    simp only [List.mem_append,List.mem_singleton]
    constructor
    · rintro (⟨t,now,member⟩ | ⟨t,now,rfl⟩)
      · exact ⟨t,now,.inl member⟩
      · exact ⟨t,now,.inr rfl⟩
    · rintro ⟨t,now,member | rfl⟩
      · exact .inl ⟨t,now,member⟩
      · exact .inr ⟨t,now,rfl⟩

theorem announces_same (env : Env) (uuid : String) (k : Kind) (t u : Text)
    (first : env.announces uuid k t = true) (second : env.announces uuid k u = true) :
    t.origin = u.origin := by
  simp only [Env.announces,decide_eq_true_eq] at first second
  have conn : t.origin.conn = u.origin.conn := env.distinct (first.2.trans second.2.symm)
  cases t with
  | mk o b =>
    cases u with
    | mk o' b' =>
      cases o
      cases o'
      simp_all

/-- A disconnect in the history follows the connect of the same connection, if it was
accepted. -/
theorem disconnect_after_connect (env : Env) (workers : Nat)
    (reached : (machine env workers).Reaches es s)
    (split : s.state.history = before ++ t :: rest) (kind : t.origin.kind = .disconnect)
    (accepted : (s.state.conns t.origin.conn).accepted = true) :
    ∃ u ∈ before, u.origin = ⟨t.origin.conn,.connect⟩ := by
  have log := history_log env workers reached
  have gone : (s.state.conns t.origin.conn).destroyed = true := by
    have issued := log.issued t (by simp [split])
    rwa [State.Issued,kind] at issued
  obtain ⟨u,member,origin⟩ := in_history_of_destroyed env workers reached _ accepted gone
  refine ⟨u,mem_before_of_ordered log.ordered split member (by rw [origin]) ?_,origin⟩
  rw [origin,kind]
  exact WithTop.coe_lt_top _

/-- A destroyed connection whose destructor has returned has announced its disconnect. -/
theorem disconnect_of_freed (env : Env) (workers : Nat)
    (reached : (machine env workers).Reaches es s) (x : Conn)
    (freed : (s.state.conns x).freed = true) : ∃ t ∈ s.state.history, t.origin = ⟨x,.disconnect⟩ := by
  have counted := control env workers reached
  have dying := (counted x).dying
  have bound := Bool.toNat_le (s.state.conns x).destroyed
  rw [freed,Bool.toNat_true] at dying
  have gone : (s.state.conns x).destroyed = true := by
    by_contra alive
    simp only [Bool.not_eq_true] at alive
    simp [alive] at dying
  rcases announced env workers reached x .disconnect (.inr rfl) gone with
    found | ⟨p,member,enters,ss,speaks,origin⟩
  · exact found
  · have none := (weigh_eq_zero (Point.destroys x) _).mp (by omega) p member
    have fits := all_fit env workers reached p member
    cases p with
    | send y us =>
      obtain ⟨rfl,rfl⟩ : y = x ∧ us = ss := by simpa [Point.teller] using speaks
      simp [Point.Fits,origin] at fits
    | loop caller y us progress =>
      obtain ⟨rfl,rfl⟩ : y = x ∧ us = ss := by simpa [Point.teller] using speaks
      cases caller <;> simp [Point.Fits,origin,Point.destroys] at fits none
    | _ => simp [Point.enters] at enters

theorem Local.accepted_of_destroyed {c : WsConn} {a h d r : Nat} (valid : Local c a h d r)
    (destroyed : c.destroyed = true) (unrejected : c.rejected = false) : c.accepted = true := by
  have created : c.created = true := by
    by_contra absent
    simp [valid.absent (by simpa using absent),WsConn.absent] at destroyed
  have refs := valid.refs
  have stage := valid.stage
  have zero := (valid.dead created).mp destroyed
  by_contra early
  simp only [Bool.not_eq_true] at early
  simp only [WsConn.pending] at refs
  simp only [created,early,unrejected,Bool.toNat_true,Bool.toNat_false] at stage
  omega

theorem paired_of_accepted (env : Env) (workers : Nat)
    (reached : (machine env workers).Reaches es s)
    (clean : ∀ t x now, Event.accept t x true now ∉ es) : Paired env s.state.history := by
  have log := history_log env workers reached
  refine ⟨fun uuid => ?_,fun uuid => ?_,?_⟩
  · exact once_of_ordered log.ordered _ (announces_same env uuid _)
  · exact once_of_ordered log.ordered _ (announces_same env uuid _)
  · intro uuid before t rest split announces
    simp only [Env.announces,decide_eq_true_eq] at announces
    -- Every destroyed connection was accepted or rejected, and none was rejected.
    have unrejected : (s.state.conns t.origin.conn).rejected = false := by
      by_contra rejected
      obtain ⟨_,_,member⟩ := (rejected_iff env workers reached _).mp (by simpa using rejected)
      exact clean _ _ _ member
    have issued := log.issued t (by simp [split])
    rw [State.Issued,announces.1] at issued
    obtain ⟨u,member,origin⟩ := disconnect_after_connect env workers reached split announces.1
      ((control env workers reached _).accepted_of_destroyed issued unrejected)
    exact ⟨u,member,by simp [Env.announces,origin,announces.2]⟩

theorem unpaired_of_rejected (env : Env) (workers : Nat)
    (reached : (machine env workers).Reaches es s) (failed : Event.accept t x true now ∈ es)
    (freed : (s.state.conns x).freed = true) : ¬Paired env s.state.history := by
  intro paired
  obtain ⟨u,member,origin⟩ := disconnect_of_freed env workers reached x freed
  obtain ⟨before,rest,split⟩ := List.append_of_mem member
  obtain ⟨v,earlier,announces⟩ := paired.after (env.uuid x) before u rest split
    (by simp [Env.announces,origin])
  simp only [Env.announces,decide_eq_true_eq] at announces
  have issued := (history_log env workers reached).issued v (by simp [split,earlier])
  rw [State.Issued,announces.1,env.distinct announces.2] at issued
  have rejected := (rejected_iff env workers reached x).mpr ⟨t,now,failed⟩
  have stage := (control env workers reached x).stage
  have := Bool.toNat_le (s.state.conns x).created
  rw [show (s.state.conns x).accepted = true from issued,rejected] at stage
  simp only [Bool.toNat_true] at stage
  omega

/-- Announcements pair up in a run whose handshakes all succeed; a failed handshake breaks
the pairing as soon as its connection object is gone. -/
theorem history_paired (env : Env) (workers : Nat) (reached : (machine env workers).Reaches es s) :
    ((∀ t x now, Event.accept t x true now ∉ es) → Paired env s.state.history) ∧
    (∀ t x now, Event.accept t x true now ∈ es → (s.state.conns x).freed = true →
      ¬Paired env s.state.history) ∧
    ∀ t ∈ s.state.history, Caused env s.state t :=
  ⟨paired_of_accepted env workers reached,
    fun _ _ _ failed freed => unpaired_of_rejected env workers reached failed freed,
    (all_caused env workers reached).1⟩

/-- A connection object whose handshake fails, up to the end of its destructor. -/
def failedHandshake : List Event :=
  [.upgrade 0,.accept 0 0 true 0] ++ List.replicate 8 (.exec 0 [] 0)

theorem failedHandshake_runs : ((machine .numbered 1).run failedHandshake (start 1)).any (fun s =>
    (s.state.conns 0).freed) = true := by
  decide +kernel

theorem failedHandshake_freed : ∃ s, (machine .numbered 1).Reaches failedHandshake s ∧
    (s.state.conns 0).freed = true := by
  obtain ⟨s,ran,checked⟩ := (Option.any_eq_true _ _).mp failedHandshake_runs
  exact ⟨s,ran,checked⟩

theorem failedHandshake_history : ∃ s, (machine .numbered 1).Reaches failedHandshake s ∧
    ¬Paired .numbered s.state.history ∧ ∀ t ∈ s.state.history, Caused .numbered s.state t := by
  obtain ⟨s,reached,freed⟩ := failedHandshake_freed
  have result := history_paired .numbered 1 reached
  exact ⟨s,reached,result.2.1 0 0 0 (by simp [failedHandshake]) freed,result.2.2⟩

/-- The rejected connection announces its disconnect, so not every history is paired. -/
theorem failedHandshake_unpaired : ¬∀ env workers es s, (machine env workers).Reaches es s →
    Paired env s.state.history := by
  intro paired
  obtain ⟨s,reached,freed⟩ := failedHandshake_freed
  have failed : Event.accept 0 0 true 0 ∈ failedHandshake := by simp [failedHandshake]
  exact unpaired_of_rejected .numbered 1 reached failed freed (paired .numbered 1 _ s reached)

end Wschat.Cpp
