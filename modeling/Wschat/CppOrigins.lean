import Wschat.CppMembership

/-! Who speaks for a connection. At most one activation carries a text of a given
connection, and that text is the latest one the connection has caused. -/
namespace Wschat.Cpp

open Workers

/-- The order in which one connection causes its texts. -/
def Kind.rank : Kind → WithTop Nat
  | .connect => (0 : Nat)
  | .frame k | .reply k => (k + 1 : Nat)
  | .disconnect => ⊤

def Origin.Before (o o' : Origin) : Prop := o.conn = o'.conn → o.kind.rank < o'.kind.rank

/-- The connection has caused its text of this kind. -/
def WsConn.Issued (c : WsConn) : Kind → Prop
  | .connect => c.accepted = true
  | .frame k | .reply k => k < c.received.length
  | .disconnect => c.destroyed = true

def State.Issued (s : State) (o : Origin) : Prop := (s.conns o.conn).Issued o.kind

/-- The text an activation carries, with the connection it acts for. -/
def Point.teller : Point → Option (Conn × Text)
  | .send x ss | .reply x ss | .loop _ x ss _ => some (x,ss)
  | _ => none

/-- The activation has yet to take the shared lock for its text. -/
def Point.enters : Point → Prop
  | .send _ _ | .loop _ _ _ .enter => True
  | _ => False

/-- The activation may yet post its text to `z`. -/
def Point.posts (z : Conn) : Point → Prop
  | .send _ _ => True
  | .reply x _ => x = z
  | .loop caller x _ .enter => ¬(caller = .connect ∧ x = z)
  | .loop _ _ _ (.next todo) => z ∈ todo
  | .loop _ _ _ (.send y todo) => z ∈ y :: todo
  | .loop _ _ _ (.drop _ todo) => z ∈ todo
  | _ => False

def Point.tells (x : Conn) (p : Point) : Nat := if p.teller.any (·.1 = x) then 1 else 0

theorem tells_pos {p : Point} (told : p.teller = some (x,ss)) : p.tells x = 1 := by
  simp [Point.tells,told]

theorem tells_le (x : Conn) (p : Point) : p.tells x ≤ p.rearms x + p.destroys x := by
  cases p with
  | send y ss => simp [Point.tells,Point.teller,Point.rearms]
  | reply y ss => simp [Point.tells,Point.teller,Point.rearms]
  | loop caller y ss progress =>
    by_cases same : y = x <;>
      cases caller <;> simp [Point.tells,Point.teller,Point.rearms,Point.destroys,same]
  | _ => simp [Point.tells,Point.teller]

theorem weigh_tells_le (x : Conn) (ps : Multiset Point) :
    weigh (Point.tells x) ps ≤ weigh (Point.rearms x) ps + weigh (Point.destroys x) ps := by
  have sum := Multiset.sum_map_le_sum_map (s := ps) _ _ fun p _ => tells_le x p
  rw [Multiset.sum_map_add] at sum
  exact sum

theorem rearms_le_strong (x : Conn) (p : Point) : p.rearms x ≤ p.strong x := by
  simp only [Point.strong,Point.carries]
  omega

theorem Control.quiet_of_dead (valid : Control s ps) (destroyed : (s.conns x).destroyed = true) :
    weigh (Point.rearms x) ps = 0 := by
  have here := valid x
  have created : (s.conns x).created = true := by
    by_contra absent
    simp [here.absent (by simpa using absent),WsConn.absent] at destroyed
  have zero := (here.dead created).mp destroyed
  have refs := here.refs
  have below := weigh_mono (rearms_le_strong x) ps
  omega

/-- One activation at most speaks for a connection. -/
theorem Control.tells_le_one (valid : Control s ps) (x : Conn) : weigh (Point.tells x) ps ≤ 1 := by
  have here := valid x
  have armed := here.armed
  have dying := here.dying
  have bound := weigh_tells_le x ps
  by_cases destroyed : (s.conns x).destroyed = true
  · have quiet := valid.quiet_of_dead destroyed
    have := Bool.toNat_le (s.conns x).destroyed
    omega
  · simp only [destroyed,Bool.toNat_false] at dying
    omega

/-- `c'` has caused its text of kind `k` on top of those of `c`. -/
structure Issue (c c' : WsConn) (k : Kind) : Prop where
  issued : c'.Issued k
  fresh : ∀ j, c.Issued j → j.rank < k.rank

def Grows (s next : State) : Prop := ∀ o, s.Issued o → next.Issued o

theorem WsConn.Issued.mono {c c' : WsConn} (accepted : c.accepted = true → c'.accepted = true)
    (received : c.received.length ≤ c'.received.length)
    (destroyed : c.destroyed = true → c'.destroyed = true) (k : Kind) (issued : c.Issued k) :
    c'.Issued k := by
  cases k with
  | connect => exact accepted issued
  | frame k => exact Nat.lt_of_lt_of_le issued received
  | reply k => exact Nat.lt_of_lt_of_le issued received
  | disconnect => exact destroyed issued

theorem grows_modify (s : State) (x : Conn) (f : WsConn → WsConn)
    (accepted : (s.conns x).accepted = true → (f (s.conns x)).accepted = true)
    (received : (s.conns x).received.length ≤ (f (s.conns x)).received.length)
    (destroyed : (s.conns x).destroyed = true → (f (s.conns x)).destroyed = true) :
    Grows s (s.modify x f) := by
  intro o issued
  by_cases here : o.conn = x
  · rw [State.Issued,here] at issued
    rw [State.Issued,modify_conns,if_pos here]
    exact issued.mono accepted received destroyed
  · rwa [State.Issued,modify_conns,if_neg here]

theorem grows_onWrite (failed : Bool) (c : WsConn) : (c.onWrite failed).accepted = c.accepted ∧
    (c.onWrite failed).received = c.received ∧ (c.onWrite failed).destroyed = c.destroyed := by
  unfold WsConn.onWrite
  split
  · simp
  · split <;> simp

theorem grows_onSend (ss : Text) (rest : List Text) (c : WsConn) :
    (c.onSend ss rest).accepted = c.accepted ∧ (c.onSend ss rest).received = c.received ∧
      (c.onSend ss rest).destroyed = c.destroyed := by
  unfold WsConn.onSend
  dsimp only
  split <;> simp

/-- What is caused stays caused. -/
theorem move_grows (env : Env) (t : Thread) (s next : State) (old new : List Point)
    (others : Multiset Point) (valid : Control s (↑old + others))
    (moved : Move env t s old next new) : Grows s next := by
  cases moved with
  | accept x now idle accepting =>
    exact grows_modify s x _ (fun _ => rfl) (Nat.le_refl _) id
  | acceptError x idle accepting =>
    refine grows_modify s x _ (fun accepted => ?_) (Nat.le_refl _) id
    simp [(valid x).not_accepted accepting] at accepted
  | broadcast x payload text now residue idle reading decoded =>
    exact grows_modify s x _ id (by simp [WsConn.receive]) id
  | badMessage x payload text now residue idle reading decoded =>
    exact grows_modify s x _ id (by simp [WsConn.receive]) id
  | write x failed idle writing =>
    obtain ⟨accepted,received,destroyed⟩ := grows_onWrite failed (s.conns x)
    exact grows_modify s x _ (by rw [accepted]; exact id) (by rw [received]) (by rw [destroyed]; exact id)
  | onSend x ss rest idle posted =>
    obtain ⟨accepted,received,destroyed⟩ := grows_onSend ss rest (s.conns x)
    exact grows_modify s x _ (by rw [accepted]; exact id) (by rw [received]) (by rw [destroyed]; exact id)
  | readError | send | reply | retain | post | read | leave | free =>
    exact grows_modify s _ _ id (Nat.le_refl _) id
  | release | releaseLast | drop | dropLast =>
    exact grows_modify s _ _ id (Nat.le_refl _) (fun destroyed => by simp [WsConn.release,destroyed])
  | lockShared | unlockShared | expired | lock | insert | erase | unlockInsert | unlockErase =>
    exact fun _ issued => issued

theorem Issue.accept (valid : Local c a h d r) (accepting : c.accepting = true)
    (alive : 0 < c.refs) : Issue c (c.accept false) .connect := by
  have early := valid.not_accepted accepting
  obtain ⟨-,empty,-⟩ := valid.early early
  have living := valid.alive alive
  refine ⟨by simp [WsConn.Issued,WsConn.accept],?_⟩
  rintro (_ | k | k | _) issued <;> simp [WsConn.Issued,early,empty,living] at issued

theorem Issue.receive (valid : Local c a h d r) (alive : 0 < c.refs) (payload : String)
    (now residue : Int64) (k : Kind)
    (kind : k = .frame c.received.length ∨ k = .reply c.received.length) :
    Issue c (c.receive payload now residue) k := by
  have living := valid.alive alive
  have rank : k.rank = (c.received.length + 1 : Nat) := by rcases kind with rfl | rfl <;> rfl
  refine ⟨by rcases kind with rfl | rfl <;> simp [WsConn.Issued,WsConn.receive],?_⟩
  rintro (_ | j | j | _) issued <;> rw [rank]
  · exact WithTop.coe_lt_coe.mpr (Nat.succ_pos _)
  · exact WithTop.coe_lt_coe.mpr (Nat.succ_lt_succ issued)
  · exact WithTop.coe_lt_coe.mpr (Nat.succ_lt_succ issued)
  · simp [WsConn.Issued,living] at issued

theorem Issue.releaseLast (valid : Local c a h d r) (last : c.refs = 1) :
    Issue c c.release .disconnect := by
  have living := valid.alive (by omega)
  refine ⟨by simp [WsConn.Issued,WsConn.release,last],?_⟩
  rintro (_ | j | j | _) issued
  · exact WithTop.coe_lt_top _
  · exact WithTop.coe_lt_top _
  · exact WithTop.coe_lt_top _
  · simp [WsConn.Issued,living] at issued

/-- A text in hand after a move was in hand before, or its connection has just caused it. -/
theorem move_teller (env : Env) (t : Thread) (s next : State) (old new : List Point)
    (others : Multiset Point) (valid : Control s (↑old + others))
    (within : Membership s (↑old + others)) (moved : Move env t s old next new) (q : Point)
    (inside : q ∈ new) (x : Conn) (ss : Text) (told : q.teller = some (x,ss)) :
    (∃ p ∈ old, p.teller = some (x,ss) ∧ (q.enters → p.enters) ∧ ∀ z, q.posts z → p.posts z) ∨
      ss.origin.conn = x ∧ Issue (s.conns x) (next.conns x) ss.origin.kind := by
  have alive (x : Conn) (pending : 0 < (s.conns x).pending) : 0 < (s.conns x).refs := by
    have := (valid x).refs
    omega
  have destroyed (y : Conn) (now : Int64) (last : s.Last y)
      (told : (destructor env y now).teller = some (x,ss)) : ss.origin.conn = x ∧
        Issue (s.conns x) ((s.modify y .release).conns x) ss.origin.kind := by
    obtain ⟨rfl,rfl⟩ : y = x ∧ disconnectText env y now = ss := by
      simpa [destructor,Point.teller] using told
    exact ⟨rfl,by simpa [disconnectText] using Issue.releaseLast (valid y) last⟩
  cases moved with
  | accept y now idle accepting =>
    obtain rfl := List.mem_singleton.mp inside
    obtain ⟨rfl,rfl⟩ : y = x ∧ connectText env y now = ss := by simpa [Point.teller] using told
    have held := alive y (by simp [WsConn.pending,accepting])
    exact .inr ⟨rfl,by simpa [connectText] using Issue.accept (valid y) accepting held⟩
  | broadcast y payload text now residue idle reading decoded =>
    obtain rfl := List.mem_singleton.mp inside
    simp only [Point.teller,Option.some.injEq,Prod.mk.injEq] at told
    obtain ⟨rfl,rfl⟩ := told
    have held := alive y (by simp [WsConn.pending,reading])
    exact .inr ⟨rfl,by simpa using Issue.receive (valid y) held payload now residue _ (.inl rfl)⟩
  | badMessage y payload text now residue idle reading decoded =>
    obtain rfl := List.mem_singleton.mp inside
    simp only [Point.teller,Option.some.injEq,Prod.mk.injEq] at told
    obtain ⟨rfl,rfl⟩ := told
    have held := alive y (by simp [WsConn.pending,reading])
    exact .inr ⟨rfl,by simpa using Issue.receive (valid y) held payload now residue _ (.inr rfl)⟩
  | releaseLast caller z ss' y todo now last =>
    rcases List.mem_pair.mp inside with rfl | rfl
    · exact .inr (destroyed y now last told)
    · exact .inl ⟨_,List.mem_singleton_self _,told,by simp [Point.enters],by simp [Point.posts]⟩
  | dropLast y now last =>
    rcases List.mem_pair.mp inside with rfl | rfl
    · exact .inr (destroyed y now last told)
    · simp [Point.teller] at told
  | unlockShared caller y ss' =>
    cases caller <;> simp only [List.mem_singleton] at inside <;> subst inside <;>
      simp [afterLoop,Point.teller] at told
  | acceptError | readError | write | onSend | reply | lock | insert | erase | unlockInsert
  | unlockErase | read | drop =>
    obtain rfl := List.mem_singleton.mp inside
    simp [Point.teller] at told
  | leave | free => simp at inside
  | lockShared caller y ss' order free perm =>
    obtain rfl := List.mem_singleton.mp inside
    refine .inl ⟨_,List.mem_singleton_self _,told,by simp [Point.enters],?_⟩
    rintro z todo ⟨rfl,rfl⟩
    have outside := within.joining (.loop .connect y ss' .enter) (by simp) y (by simp [Point.joins])
    exact outside (perm.mem_iff.mp todo)
  | send | retain | expired | post | release =>
    obtain rfl := List.mem_singleton.mp inside
    exact .inl ⟨_,List.mem_singleton_self _,told,by simp [Point.enters],by simp +contextual [Point.posts]⟩

/-- Every text in hand has been caused by the connection it is carried for. -/
def Told (s : State) (ps : Multiset Point) : Prop :=
  ∀ p ∈ ps, ∀ x ss, p.teller = some (x,ss) → ss.origin.conn = x ∧ s.Issued ss.origin

theorem told (env : Env) (workers : Nat) (reached : (machine env workers).Reaches es s) :
    Told s.state (activations s.threads) := by
  refine points_invariant env workers Told (by simp [Told]) ?_ ?_ reached
  · intro es s x before valid fresh p inside y ss speaks
    obtain ⟨owner,issued⟩ := valid p inside y ss speaks
    exact ⟨owner,grows_modify s.state x .upgrade id (Nat.le_refl _) id _ issued⟩
  · intro es s t old next new others reached cut valid moved p inside x ss speaks
    have counted := cut ▸ control env workers reached
    have grows := move_grows env t s.state next old new others counted moved
    have earlier (q : Point) (member : q ∈ (↑old + others : Multiset Point))
        (speaks : q.teller = some (x,ss)) : ss.origin.conn = x ∧ next.Issued ss.origin :=
      ⟨(valid q member x ss speaks).1,grows _ (valid q member x ss speaks).2⟩
    have within := cut ▸ membership env workers reached
    rcases Multiset.mem_add.mp inside with fresh | kept
    · rcases move_teller env t s.state next old new others counted within moved p fresh x ss
        speaks with ⟨q,member,same,-⟩ | ⟨owner,issue⟩
      · exact earlier q (Multiset.mem_add.mpr (.inl member)) same
      · exact ⟨owner,by rw [State.Issued,owner]; exact issue.issued⟩
    · exact earlier p (Multiset.mem_add.mpr (.inr kept)) speaks

/-- Each activation carries a text of the kind its function announces. -/
def Point.Fits : Point → Prop
  | .send _ ss | .loop .connect _ ss _ => ss.origin.kind = .connect
  | .reply _ ss => ∃ k, ss.origin.kind = .reply k
  | .loop .handle _ ss _ => ∃ k, ss.origin.kind = .frame k
  | .loop .disconnect _ ss _ => ss.origin.kind = .disconnect
  | _ => True

theorem move_fits (env : Env) (t : Thread) (s next : State) (old new : List Point)
    (moved : Move env t s old next new) (fits : ∀ p ∈ old, p.Fits) : ∀ q ∈ new, q.Fits := by
  cases moved with
  | retain caller | expired caller | post caller | release caller | lockShared caller =>
    cases caller <;> simpa [Point.Fits] using fits
  | releaseLast caller =>
    cases caller <;> simpa [Point.Fits,destructor,disconnectText] using fits
  | unlockShared caller => cases caller <;> simp [afterLoop,Point.Fits]
  | send => simpa [Point.Fits] using fits
  | _ => simp [Point.Fits,connectText,destructor,disconnectText]

theorem all_fit (env : Env) (workers : Nat) (reached : (machine env workers).Reaches es s) :
    ∀ p ∈ activations s.threads, p.Fits := by
  refine points_invariant env workers (fun _ ps => ∀ p ∈ ps, p.Fits) (by simp)
    (fun _ _ _ _ valid _ => valid) ?_ reached
  intro es s t old next new others reached cut valid moved q inside
  rcases Multiset.mem_add.mp inside with fresh | still
  · exact move_fits env t s.state next old new moved
      (fun p member => valid p (Multiset.mem_add.mpr (.inl member))) q fresh
  · exact valid q (Multiset.mem_add.mpr (.inr still))

/-- A list that texts are appended to by the activations that `adds` describes: the texts
of one connection stand in the order it caused them, and so will the ones still in hand. -/
structure Log (adds : Point → Prop) (log : List Text) (s : State) (ps : Multiset Point) : Prop where
  issued : ∀ t ∈ log, s.Issued t.origin
  ordered : log.Pairwise fun t u => t.origin.Before u.origin
  fresh : ∀ p ∈ ps, adds p → ∀ x ss, p.teller = some (x,ss) → ∀ t ∈ log,
    t.origin.Before ss.origin

section Log

variable {adds : Point → Prop} {log : List Text} {s next : State} {old new : List Point}
  {others : Multiset Point}

theorem log_empty (adds : Point → Prop) (s : State) : Log adds [] s 0 :=
  ⟨by simp,List.Pairwise.nil,by simp⟩

theorem Log.keep (valid : Log adds log s (↑old + others)) (grows : Grows s next)
    (kept : ∀ q ∈ new, adds q → ∀ x ss, q.teller = some (x,ss) →
      (∃ p ∈ old, p.teller = some (x,ss) ∧ adds p) ∨
        ss.origin.conn = x ∧ Issue (s.conns x) (next.conns x) ss.origin.kind) :
    Log adds log next (↑new + others) := by
  refine ⟨fun t member => grows _ (valid.issued t member),valid.ordered,?_⟩
  intro q inside may x ss speaks t member
  rcases Multiset.mem_add.mp inside with fresh | still
  · rcases kept q fresh may x ss speaks with ⟨p,before,same,could⟩ | ⟨owner,issue⟩
    · exact valid.fresh p (Multiset.mem_add.mpr (.inl before)) could x ss same t member
    · intro conn
      have issued := valid.issued t member
      rw [State.Issued,conn,owner] at issued
      exact issue.fresh _ issued
  · exact valid.fresh q (Multiset.mem_add.mpr (.inr still)) may x ss speaks t member

/-- One text is appended by the only activation that speaks for its connection. -/
theorem Log.append (valid : Log adds log s (↑old + others)) (grows : Grows s next)
    (counted : Control s (↑old + others)) (owned : Told s (↑old + others)) {p : Point}
    (top : p ∈ old) (may : adds p) (speaks : p.teller = some (x,ss))
    (done : ∀ q ∈ new, adds q → q.teller = none) :
    Log adds (log ++ [ss]) next (↑new + others) := by
  have member : p ∈ (↑old + others : Multiset Point) := Multiset.mem_add.mpr (.inl top)
  obtain ⟨owner,issued⟩ := owned p member x ss speaks
  refine ⟨?_,?_,?_⟩
  · intro t inside
    rcases List.mem_append.mp inside with earlier | last
    · exact grows _ (valid.issued t earlier)
    · obtain rfl := List.mem_singleton.mp last
      exact grows _ issued
  · refine List.pairwise_append.mpr ⟨valid.ordered,List.pairwise_singleton _ _,?_⟩
    intro t inside u last
    obtain rfl := List.mem_singleton.mp last
    exact valid.fresh p member may x u speaks t inside
  · intro q inside could z us speaks' t appended
    rcases Multiset.mem_add.mp inside with fresh | still
    · rw [done q fresh could] at speaks'
      contradiction
    · have there : q ∈ (↑old + others : Multiset Point) := Multiset.mem_add.mpr (.inr still)
      rcases List.mem_append.mp appended with earlier | last
      · exact valid.fresh q there could z us speaks' t earlier
      · obtain rfl := List.mem_singleton.mp last
        intro conn
        have same : z = x := by
          rw [← (owned q there z us speaks').1,← conn,owner]
        subst same
        have total := counted.tells_le_one z
        have above := le_weigh (Point.tells z) (Multiset.mem_coe.mpr top)
        have below := le_weigh (Point.tells z) still
        rw [tells_pos speaks] at above
        rw [tells_pos speaks'] at below
        rw [weigh_add] at total
        omega

end Log

end Wschat.Cpp
