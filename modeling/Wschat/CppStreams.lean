import Wschat.CppCauses

/-! The texts handed to one connection. Each connection's stream is a log of the posts to
its strand: it begins with the connection's own connect, holds every broadcast completed
while the connection was a live member, and keeps the order of each origin. -/
namespace Wschat.Cpp

open Workers

@[simp] theorem stream_modify (s : State) (x y : Conn) (f : WsConn → WsConn)
    (same : (f (s.conns x)).pushed ++ (f (s.conns x)).posted =
      (s.conns x).pushed ++ (s.conns x).posted) : (s.modify x f).stream y = s.stream y := by
  by_cases here : y = x
  · subst y; simpa [State.stream] using same
  · simp [State.stream,here]

theorem stream_onWrite (failed : Bool) (c : WsConn) :
    (c.onWrite failed).pushed = c.pushed ∧ (c.onWrite failed).posted = c.posted := by
  unfold WsConn.onWrite
  split
  · simp
  · split <;> simp

theorem stream_onSend (ss : Text) (rest : List Text) (c : WsConn) :
    (c.onSend ss rest).pushed = c.pushed ++ [ss] ∧ (c.onSend ss rest).posted = rest := by
  unfold WsConn.onSend
  dsimp only
  split <;> simp

theorem stream_post (s : State) (x y : Conn) (ss : Text) :
    (s.modify x (.post ss)).stream y = s.stream y ++ if y = x then [ss] else [] := by
  by_cases here : y = x
  · simp [State.stream,here,WsConn.post]
  · simp [State.stream,here]

/-- The handler has posted the connect of `y` to `y` already. -/
def Point.started (y : Conn) : Point → Nat
  | .send _ _ => 0
  | p => p.rearms y

/-- A stream grows only by the post of an activation that has not posted to it yet. -/
theorem move_stream (env : Env) (t : Thread) (s next : State) (old new : List Point)
    (distinct : ∀ p ∈ old, p.remaining.Nodup) (moved : Move env t s old next new) (y : Conn) :
    next.stream y = s.stream y ∨ ∃ p x ss, old = [p] ∧ p.posts y ∧ p.teller = some (x,ss) ∧
      next.stream y = s.stream y ++ [ss] ∧ (∀ q ∈ new, ¬q.posts y) ∧
        (p = .send y ss ∨ 0 < p.started y ∨ y ∈ p.remaining) := by
  cases moved with
  | write x failed =>
    obtain ⟨pushed,posted⟩ := stream_onWrite failed (s.conns x)
    exact .inl (stream_modify s x y _ (by rw [pushed,posted]))
  | onSend x ss rest idle posted =>
    obtain ⟨pushed,left⟩ := stream_onSend ss rest (s.conns x)
    exact .inl (stream_modify s x y _ (by rw [pushed,left,posted]; simp))
  | send x ss =>
    by_cases here : y = x
    · subst y
      exact .inr ⟨_,x,ss,rfl,trivial,rfl,by simp [stream_post],by simp [Point.posts],.inl rfl⟩
    · exact .inl (by simp [stream_post,here])
  | reply x ss =>
    by_cases here : y = x
    · subst y
      exact .inr ⟨_,x,ss,rfl,rfl,rfl,by simp [stream_post],by simp [Point.posts],
        .inr (.inl (by simp [Point.started,Point.rearms]))⟩
    · exact .inl (by simp [stream_post,here])
  | post caller x ss z todo =>
    by_cases here : y = z
    · subst y
      have nodup := distinct _ (List.mem_singleton_self _)
      simp only [Point.remaining,List.nodup_cons] at nodup
      exact .inr ⟨_,x,ss,rfl,by simp [Point.posts],rfl,by simp [stream_post],
        by simpa [Point.posts] using nodup.1,.inr (.inr (by simp [Point.remaining]))⟩
    · exact .inl (by simp [stream_post,here])
  | lockShared | unlockShared | expired | lock | insert | erase | unlockInsert | unlockErase =>
    exact .inl rfl
  | _ => exact .inl (stream_modify s _ y _ rfl)

theorem stream_grows (env : Env) (t : Thread) (s next : State) (old new : List Point)
    (distinct : ∀ p ∈ old, p.remaining.Nodup) (moved : Move env t s old next new) (y : Conn) :
    ∃ more, next.stream y = s.stream y ++ more := by
  rcases move_stream env t s next old new distinct moved y with eq | ⟨_,_,ss,_,_,_,eq,_⟩
  · exact ⟨[],by simp [eq]⟩
  · exact ⟨[ss],eq⟩

theorem stream_log (env : Env) (workers : Nat) (reached : (machine env workers).Reaches es s)
    (y : Conn) : Log (Point.posts y) (s.state.stream y) s.state (activations s.threads) := by
  refine points_invariant env workers (fun s ps => Log (Point.posts y) (s.stream y) s ps)
    (log_empty _ _) ?_ ?_ reached
  · intro es s x before valid fresh
    rw [stream_modify s.state x y .upgrade rfl]
    exact ⟨fun t member => grows_modify s.state x .upgrade id (Nat.le_refl _) id _ (valid.issued t member),
      valid.ordered,valid.fresh⟩
  · intro es s t old next new others reached cut valid moved
    have counted := cut ▸ control env workers reached
    have within := cut ▸ membership env workers reached
    have grows := move_grows env t s.state next old new others counted moved
    rcases move_stream env t s.state next old new
      (fun p inside => within.distinct p (Multiset.mem_add.mpr (.inl inside))) moved y with
      eq | ⟨p,x,ss,rfl,posts,speaks,eq,done,-⟩
    · rw [eq]
      refine valid.keep grows fun q inside may x ss speaks => ?_
      rcases move_teller env t s.state next old new others counted within moved q inside x ss speaks
        with ⟨p,member,same,-,kept⟩ | issue
      · exact .inl ⟨p,member,same,kept y may⟩
      · exact .inr issue
    · rw [eq]
      exact valid.append grows counted (cut ▸ told env workers reached)
        (List.mem_singleton_self _) posts speaks fun q inside may => absurd may (done q inside)

structure Started (env : Env) (s : State) (ps : Multiset Point) : Prop where
  first : ∀ y, s.stream y = [] ∨ ∃ now rest, s.stream y = connectText env y now :: rest
  members : ∀ y ∈ s.clients, s.stream y ≠ []
  reading : ∀ y, (s.conns y).reading = true → s.stream y ≠ []
  active : ∀ p ∈ ps, ∀ y, 0 < p.started y → s.stream y ≠ []

/-- Where members, pending reads and handlers come from. -/
theorem move_started (env : Env) (t : Thread) (s next : State) (old new : List Point)
    (moved : Move env t s old next new) (y : Conn) :
    (y ∈ next.clients → y ∈ s.clients ∨ ∃ p ∈ old, 0 < p.started y) ∧
    ((next.conns y).reading = true → (s.conns y).reading = true ∨ ∃ p ∈ old, 0 < p.started y) ∧
    ∀ q ∈ new, 0 < q.started y →
      (∃ p ∈ old, 0 < p.started y) ∨ (s.conns y).reading = true ∨ next.stream y ≠ [] := by
  have modified (x : Conn) (f : WsConn → WsConn)
      (kept : (f (s.conns x)).reading = true → (s.conns x).reading = true) :
      ((s.modify x f).conns y).reading = true →
        (s.conns y).reading = true ∨ ∃ p ∈ old, 0 < p.started y := by
    intro reading
    by_cases here : y = x
    · subst y; exact .inl (kept (by simpa using reading))
    · exact .inl (by simpa [here] using reading)
  cases moved with
  | broadcast x payload text now residue idle reading decoded =>
    refine ⟨.inl,modified x _ (by simp [WsConn.receive]),?_⟩
    intro q inside active
    obtain rfl := List.mem_singleton.mp inside
    have same : x = y := by by_contra different; simp [Point.started,Point.rearms,different] at active
    exact .inr (.inl (same ▸ reading))
  | badMessage x payload text now residue idle reading decoded =>
    refine ⟨.inl,modified x _ (by simp [WsConn.receive]),?_⟩
    intro q inside active
    obtain rfl := List.mem_singleton.mp inside
    have same : x = y := by by_contra different; simp [Point.started,Point.rearms,different] at active
    exact .inr (.inl (same ▸ reading))
  | write x failed idle writing =>
    exact ⟨.inl,modified x _ (by rw [(buffer_onWrite failed _).2]; exact id),
      by simp [Point.started,Point.rearms]⟩
  | onSend x ss rest idle posted =>
    exact ⟨.inl,modified x _ (by rw [(buffer_onSend ss rest _).2]; exact id),
      by simp [Point.started,Point.rearms]⟩
  | send x ss =>
    refine ⟨.inl,modified x _ id,?_⟩
    intro q inside active
    obtain rfl := List.mem_singleton.mp inside
    have same : x = y := by by_contra different; simp [Point.started,Point.rearms,different] at active
    exact .inr (.inr (by simp [stream_post,same]))
  | read consume x =>
    refine ⟨.inl,fun reading => ?_,by simp [Point.started,Point.rearms]⟩
    by_cases here : y = x
    · exact .inr ⟨_,List.mem_singleton_self _,by simp [Point.started,Point.rearms,here]⟩
    · exact .inl (by simpa [here] using reading)
  | insert x =>
    refine ⟨fun member => ?_,.inl,by simp +contextual [Point.started,Point.rearms]⟩
    rcases List.mem_insert_iff.mp member with rfl | earlier
    · exact .inr ⟨_,List.mem_singleton_self _,by simp [Point.started,Point.rearms]⟩
    · exact .inl earlier
  | erase x =>
    exact ⟨fun member => .inl (List.mem_of_mem_erase member),.inl,by simp +contextual [Point.started,Point.rearms]⟩
  | unlockShared caller x ss =>
    refine ⟨.inl,.inl,?_⟩
    cases caller <;> simp +contextual [afterLoop,Point.started,Point.rearms]
  | lockShared | expired | lock | unlockInsert | unlockErase =>
    exact ⟨.inl,.inl,by simp +contextual [Point.started,Point.rearms]⟩
  | acceptError | readError =>
    exact ⟨.inl,modified _ _ (by simp [WsConn.accept,WsConn.readError]),by simp +contextual [Point.started,Point.rearms]⟩
  | _ =>
    exact ⟨.inl,modified _ _ id,by simp +contextual [Point.started,Point.rearms,destructor]⟩

/-- While the connect of `y` is in hand nothing has been posted to `y`: the first text would
be that connect. -/
theorem first_post (env : Env) (workers : Nat) (reached : (machine env workers).Reaches es s)
    (y : Conn) (ss : Text) (inside : .send y ss ∈ activations s.threads)
    (first : s.state.stream y = [] ∨ ∃ now rest, s.state.stream y = connectText env y now :: rest) :
    s.state.stream y = [] ∧ ∃ now, ss = connectText env y now := by
  have kind := all_fit env workers reached _ inside
  have conn := (told env workers reached _ inside y ss rfl).1
  have caused := (all_caused env workers reached).2 _ inside y ss rfl
  simp only [Point.Fits] at kind
  simp only [Caused,kind,conn] at caused
  refine ⟨?_,caused⟩
  rcases first with empty | ⟨now,rest,head⟩
  · exact empty
  · have before := (stream_log env workers reached y).fresh _ inside trivial y ss rfl
      (connectText env y now) (by simp [head])
    have rank := before (by simp [connectText,conn])
    rw [kind] at rank
    exact absurd rank (lt_irrefl _)

theorem started (env : Env) (workers : Nat) (reached : (machine env workers).Reaches es s) :
    Started env s.state (activations s.threads) := by
  refine points_invariant env workers (Started env) ?_ ?_ ?_ reached
  · refine ⟨?_,?_,?_,?_⟩ <;> simp [State.initial,State.stream,WsConn.absent]
  · intro es s x before valid fresh
    have same (y : Conn) : (s.state.modify x .upgrade).stream y = s.state.stream y :=
      stream_modify s.state x y .upgrade rfl
    refine ⟨fun y => ?_,fun y => ?_,fun y => ?_,fun p inside y => ?_⟩ <;> rw [same]
    · exact valid.first y
    · exact valid.members y
    · intro reading
      refine valid.reading y ?_
      by_cases here : y = x
      · simpa [here,WsConn.upgrade] using reading
      · simpa [here] using reading
    · exact valid.active p inside y
  · intro es s t old next new others reached cut valid moved
    have within := cut ▸ membership env workers reached
    have before (p : Point) (inside : p ∈ old) : p ∈ (↑old + others : Multiset Point) :=
      Multiset.mem_add.mpr (.inl inside)
    have distinct (p : Point) (inside : p ∈ old) := within.distinct p (before p inside)
    have kept (y : Conn) (some_ : s.state.stream y ≠ []) : next.stream y ≠ [] := by
      obtain ⟨more,eq⟩ := stream_grows env t s.state next old new distinct moved y
      simp [eq,some_]
    have active (y : Conn) (begun : ∃ p ∈ old, 0 < p.started y) : s.state.stream y ≠ [] := by
      obtain ⟨p,inside,positive⟩ := begun
      exact valid.active p (before p inside) y positive
    refine ⟨fun y => ?_,fun y member => ?_,fun y reading => ?_,fun q inside y begun => ?_⟩
    · rcases move_stream env t s.state next old new distinct moved y with
        eq | ⟨p,x,ss,rfl,posts,speaks,eq,-,source⟩
      · rw [eq]
        exact valid.first y
      · have member := before p (List.mem_singleton_self _)
        have open_ : s.state.stream y ≠ [] → ∃ now rest, next.stream y = connectText env y now :: rest := by
          intro some_
          rcases valid.first y with none | ⟨now,rest,head⟩
          · exact absurd none some_
          · exact ⟨now,rest ++ [ss],by rw [eq,head]; rfl⟩
        rcases source with rfl | active | todo
        · obtain ⟨empty,now,rfl⟩ := first_post env workers reached y ss (cut ▸ member) (valid.first y)
          exact .inr ⟨now,[],by rw [eq,empty]; rfl⟩
        · exact .inr (open_ (valid.active p member y active))
        · exact .inr (open_ (valid.members y (within.within p member y todo)))
    · rcases (move_started env t s.state next old new moved y).1 member with earlier | begun
      · exact kept y (valid.members y earlier)
      · exact kept y (active y begun)
    · rcases (move_started env t s.state next old new moved y).2.1 reading with earlier | begun
      · exact kept y (valid.reading y earlier)
      · exact kept y (active y begun)
    · rcases Multiset.mem_add.mp inside with fresh | still
      · rcases (move_started env t s.state next old new moved y).2.2 q fresh begun with
          earlier | reading | posted
        · exact kept y (active y earlier)
        · exact kept y (valid.reading y reading)
        · exact posted
      · exact kept y (valid.active q (Multiset.mem_add.mpr (.inr still)) y begun)

/-- A connection without strong references never gets one back. -/
theorem move_alive (env : Env) (t : Thread) (s next : State) (old new : List Point)
    (others : Multiset Point) (counted : Control s (↑old + others))
    (moved : Move env t s old next new) (y : Conn) (alive : 0 < (next.conns y).refs) :
    0 < (s.conns y).refs := by
  have modified (x : Conn) (f : WsConn → WsConn)
      (kept : 0 < (f (s.conns x)).refs → 0 < (s.conns x).refs)
      (alive : 0 < ((s.modify x f).conns y).refs) : 0 < (s.conns y).refs := by
    by_cases here : y = x
    · subst y; exact kept (by simpa using alive)
    · simpa [here] using alive
  have held (x : Conn) (p : Point) (top : old = [p]) (strong : 0 < p.strong x) :
      0 < (s.conns x).refs := counted.held (p := p) (by simp [top]) strong
  have pending (x : Conn) (waits : 0 < (s.conns x).pending) : 0 < (s.conns x).refs := by
    have := (counted x).refs
    omega
  cases moved with
  | write x failed idle writing =>
    exact modified x _ (fun _ => pending x (by simp [WsConn.pending,writing])) alive
  | onSend x ss rest idle posted =>
    exact modified x _ (fun _ => pending x (by simp [WsConn.pending,posted])) alive
  | send x ss =>
    exact modified x _ (fun _ => held x _ rfl (by simp [Point.strong,Point.carries,Point.rearms])) alive
  | reply x ss =>
    exact modified x _ (fun _ => held x _ rfl (by simp [Point.strong,Point.carries,Point.rearms])) alive
  | read consume x =>
    exact modified x _ (fun _ => held x _ rfl (by simp [Point.strong,Point.carries,Point.rearms])) alive
  | post caller x ss z todo =>
    exact modified z _ (fun _ => held z _ rfl (by simp [Point.strong,Point.visits])) alive
  | retain caller x ss z todo living => exact modified z _ (fun _ => living) alive
  | release | releaseLast | drop | dropLast =>
    exact modified _ _ (by simp only [WsConn.release]; omega) alive
  | lockShared | unlockShared | expired | lock | insert | erase | unlockInsert | unlockErase =>
    exact alive
  | _ => exact modified _ _ id alive

/-- The text of a loop and the members it has not posted to yet. -/
def Point.visiting : Point → Option (Text × List Conn)
  | .loop _ _ ss (.next todo) | .loop _ _ ss (.drop _ todo) => some (ss,todo)
  | .loop _ _ ss (.send y todo) => some (ss,y :: todo)
  | _ => none

theorem shares_of_visiting {p : Point} (visiting : p.visiting = some v) : p.shares = 1 := by
  cases p with
  | loop caller x ss progress => cases progress <;> simp [Point.visiting,Point.shares] at visiting ⊢
  | _ => simp [Point.visiting] at visiting

structure Completed (s : State) (ps : Multiset Point) : Prop where
  done : ∀ c ∈ s.completed, ∀ y ∈ c.2, c.1 ∈ s.stream y
  visited : ∀ p ∈ ps, ∀ ss left, p.visiting = some (ss,left) →
    ∀ y ∈ s.clients, 0 < (s.conns y).refs → y ∈ left ∨ ss ∈ s.stream y

theorem move_visiting (env : Env) (t : Thread) (s next : State) (old new : List Point)
    (moved : Move env t s old next new) (q : Point) (inside : q ∈ new)
    (visiting : q.visiting = some (ss,left)) : next.clients = s.clients ∧
      ((∀ y ∈ s.clients, y ∈ left) ∨ ∃ p ∈ old, ∃ left', p.visiting = some (ss,left') ∧
        ∀ y ∈ left', y ∈ left ∨ (s.conns y).refs = 0 ∨ ss ∈ next.stream y) := by
  cases moved with
  | lockShared caller x us order free perm =>
    obtain rfl := List.mem_singleton.mp inside
    obtain ⟨rfl,rfl⟩ : us = ss ∧ order = left := by simpa [Point.visiting] using visiting
    exact ⟨rfl,.inl fun y member => perm.mem_iff.mpr member⟩
  | retain caller x us z todo =>
    obtain rfl := List.mem_singleton.mp inside
    obtain ⟨rfl,rfl⟩ : us = ss ∧ z :: todo = left := by simpa [Point.visiting] using visiting
    exact ⟨rfl,.inr ⟨_,List.mem_singleton_self _,_,rfl,fun y member => .inl member⟩⟩
  | expired caller x us z todo dead =>
    obtain rfl := List.mem_singleton.mp inside
    obtain ⟨rfl,rfl⟩ : us = ss ∧ todo = left := by simpa [Point.visiting] using visiting
    refine ⟨rfl,.inr ⟨_,List.mem_singleton_self _,_,rfl,fun y member => ?_⟩⟩
    rcases List.mem_cons.mp member with rfl | later
    · exact .inr (.inl dead)
    · exact .inl later
  | post caller x us z todo =>
    obtain rfl := List.mem_singleton.mp inside
    obtain ⟨rfl,rfl⟩ : us = ss ∧ todo = left := by simpa [Point.visiting] using visiting
    refine ⟨rfl,.inr ⟨_,List.mem_singleton_self _,_,rfl,fun y member => ?_⟩⟩
    rcases List.mem_cons.mp member with rfl | later
    · exact .inr (.inr (by simp [stream_post]))
    · exact .inl later
  | release caller x us z todo =>
    obtain rfl := List.mem_singleton.mp inside
    obtain ⟨rfl,rfl⟩ : us = ss ∧ todo = left := by simpa [Point.visiting] using visiting
    exact ⟨rfl,.inr ⟨_,List.mem_singleton_self _,_,rfl,fun y member => .inl member⟩⟩
  | releaseLast caller x us z todo now last =>
    rcases List.mem_pair.mp inside with rfl | rfl
    · simp [destructor,Point.visiting] at visiting
    · obtain ⟨rfl,rfl⟩ : us = ss ∧ todo = left := by simpa [Point.visiting] using visiting
      exact ⟨rfl,.inr ⟨_,List.mem_singleton_self _,_,rfl,fun y member => .inl member⟩⟩
  | unlockShared caller x us =>
    cases caller <;> simp only [List.mem_singleton] at inside <;> subst inside <;>
      simp [afterLoop,Point.visiting] at visiting
  | dropLast x now last =>
    rcases List.mem_pair.mp inside with rfl | rfl <;> simp [destructor,Point.visiting] at visiting
  | leave | free => simp at inside
  | _ =>
    obtain rfl := List.mem_singleton.mp inside
    simp [Point.visiting] at visiting

/-- The list of completed broadcasts grows at the end of a loop, by its live members. -/
theorem move_completed (env : Env) (t : Thread) (s next : State) (old new : List Point)
    (moved : Move env t s old next new) : next.completed = s.completed ∨
      ∃ p ss, old = [p] ∧ p.visiting = some (ss,[]) ∧ next.completed = s.completed ++
        [(ss,s.clients.filter fun y => 0 < (s.conns y).refs)] := by
  cases moved with
  | unlockShared caller x ss => exact .inr ⟨_,ss,rfl,rfl,rfl⟩
  | _ => exact .inl rfl

theorem move_clients (env : Env) (t : Thread) (s next : State) (old new : List Point)
    (moved : Move env t s old next new) : next.clients = s.clients ∨ ∃ p, old = [p] ∧ 0 < p.owns := by
  cases moved with
  | insert x => exact .inr ⟨_,rfl,by simp [Point.owns]⟩
  | erase x => exact .inr ⟨_,rfl,by simp [Point.owns]⟩
  | _ => exact .inl rfl

theorem completed (env : Env) (workers : Nat) (reached : (machine env workers).Reaches es s) :
    Completed s.state (activations s.threads) := by
  refine points_invariant env workers Completed ?_ ?_ ?_ reached
  · exact ⟨by simp [State.initial],by simp⟩
  · intro es s x before valid fresh
    have same (y : Conn) : (s.state.modify x .upgrade).stream y = s.state.stream y :=
      stream_modify s.state x y .upgrade rfl
    refine ⟨fun c member y => ?_,fun p inside ss left visiting y member alive => ?_⟩ <;> rw [same]
    · exact valid.done c member y
    · have old : y ≠ x := by
        rintro rfl
        have accepted := (membership env workers before).accepted y member
        simp [(control env workers before y).absent fresh,WsConn.absent] at accepted
      exact valid.visited p inside ss left visiting y member (by simpa [old] using alive)
  · intro es s t old next new others reached cut valid moved
    have counted := cut ▸ control env workers reached
    have within := cut ▸ membership env workers reached
    have distinct (p : Point) (inside : p ∈ old) :=
      within.distinct p (Multiset.mem_add.mpr (.inl inside))
    have grown (y : Conn) (ss : Text) (member : ss ∈ s.state.stream y) : ss ∈ next.stream y := by
      obtain ⟨more,eq⟩ := stream_grows env t s.state next old new distinct moved y
      simp [eq,member]
    have living (y : Conn) := move_alive env t s.state next old new others counted moved y
    refine ⟨fun c member y among => ?_,fun p inside ss left visiting y member alive => ?_⟩
    · rcases move_completed env t s.state next old new moved with eq | ⟨p,ss,rfl,visiting,eq⟩
      · exact grown y c.1 (valid.done c (eq ▸ member) y among)
      · rw [eq] at member
        rcases List.mem_append.mp member with earlier | last
        · exact grown y c.1 (valid.done c earlier y among)
        · obtain rfl := List.mem_singleton.mp last
          simp only [List.mem_filter,decide_eq_true_eq] at among
          rcases valid.visited p (by simp) ss [] visiting y among.1 among.2 with todo | posted
          · simp at todo
          · exact grown y ss posted
    · rcases Multiset.mem_add.mp inside with fresh | still
      · obtain ⟨same,start | ⟨q,top,left',before,less⟩⟩ :=
          move_visiting env t s.state next old new moved p fresh visiting
        · exact .inl (start y (same ▸ member))
        · rcases valid.visited q (Multiset.mem_add.mpr (.inl top)) ss left' before y
            (same ▸ member) (living y alive) with todo | posted
          · rcases less y todo with later | dead | posted
            · exact .inl later
            · have := living y alive
              omega
            · exact .inr posted
          · exact .inr (grown y ss posted)
      · rcases move_clients env t s.state next old new moved with same | ⟨q,rfl,owns⟩
        · rcases valid.visited p (Multiset.mem_add.mpr (.inr still)) ss left visiting y
            (same ▸ member) (living y alive) with todo | posted
          · exact .inl todo
          · exact .inr (grown y ss posted)
        · -- The set changes only while no loop is under way.
          have none := exclusive env workers reached (p := q) (q := p) (by rw [cut]; simp) owns
            (by rw [cut]; simp [still])
          rw [shares_of_visiting visiting] at none
          omega

/-- Replies go to the connection they answer and to nobody else. -/
theorem posts_reply {p : Point} (fits : p.Fits) (posts : p.posts y) (told : p.teller = some (x,ss))
    (owner : ss.origin.conn = x) (kind : ss.origin.kind = .reply k) : ss.origin.conn = y := by
  cases p with
  | send z us =>
    obtain ⟨rfl,rfl⟩ : z = x ∧ us = ss := by simpa [Point.teller] using told
    simp [Point.Fits,kind] at fits
  | reply z us =>
    obtain ⟨rfl,rfl⟩ : z = x ∧ us = ss := by simpa [Point.teller] using told
    exact owner.trans posts
  | loop caller z us progress =>
    obtain ⟨rfl,rfl⟩ : z = x ∧ us = ss := by simpa [Point.teller] using told
    cases caller <;> simp [Point.Fits,kind] at fits
  | _ => simp [Point.teller] at told

theorem stream_caused (env : Env) (workers : Nat) (reached : (machine env workers).Reaches es s)
    (y : Conn) : ∀ t ∈ s.state.stream y, Caused env s.state t ∧
      ∀ k, t.origin.kind = .reply k → t.origin.conn = y := by
  refine points_invariant env workers (fun s _ => ∀ t ∈ s.stream y, Caused env s t ∧
    ∀ k, t.origin.kind = .reply k → t.origin.conn = y) ?_ ?_ ?_ reached
  · simp [State.initial,State.stream,WsConn.absent]
  · intro es s x before valid fresh t member
    rw [stream_modify s.state x y .upgrade rfl] at member
    refine ⟨(valid t member).1.mono fun z => ⟨[],?_⟩,(valid t member).2⟩
    by_cases here : z = x
    · simp [here,WsConn.upgrade]
    · simp [here]
  · intro es s t old next new others reached cut valid moved u member
    have within := cut ▸ membership env workers reached
    have grown := move_received env t s.state next old new moved
    rcases move_stream env t s.state next old new
      (fun p inside => within.distinct p (Multiset.mem_add.mpr (.inl inside))) moved y with
      eq | ⟨p,x,ss,rfl,posts,speaks,eq,-⟩
    · rw [eq] at member
      exact ⟨(valid u member).1.mono grown,(valid u member).2⟩
    · rw [eq] at member
      rcases List.mem_append.mp member with earlier | last
      · exact ⟨(valid u earlier).1.mono grown,(valid u earlier).2⟩
      · obtain rfl := List.mem_singleton.mp last
        have inside : p ∈ activations s.threads := by rw [cut]; simp
        refine ⟨((all_caused env workers reached).2 p inside x u speaks).mono grown,fun k kind => ?_⟩
        exact posts_reply (all_fit env workers reached p inside) posts speaks
          (told env workers reached p inside x u speaks).1 kind

/-- What connection `y` has been handed: its own connect first and once; every broadcast
completed while it was a live member, once; the texts of every other connection in the order
that connection caused them, each being the text its origin stands for. -/
structure Delivered (env : Env) (s : State) (y : Conn) : Prop where
  first : s.stream y = [] ∨ ∃ now rest, s.stream y = connectText env y now :: rest ∧
    ∀ t ∈ rest, t.origin ≠ ⟨y,.connect⟩
  complete : ∀ ss ys, (ss,ys) ∈ s.completed → y ∈ ys → (s.stream y).count ss = 1
  ordered : ∀ x, x ≠ y → ((s.stream y).filter (·.origin.conn = x)).Pairwise
    fun t u => t.origin.kind.rank < u.origin.kind.rank
  caused : ∀ t ∈ s.stream y, Caused env s t ∧ ∀ k, t.origin.kind = .reply k → t.origin.conn = y

theorem stream_delivered (env : Env) (workers : Nat) (reached : (machine env workers).Reaches es s)
    (y : Conn) : Delivered env s.state y := by
  have log := stream_log env workers reached y
  have nodup : (s.state.stream y).Nodup := by
    refine log.ordered.imp fun {t u} before same => ?_
    subst same
    exact lt_irrefl _ (before rfl)
  refine ⟨?_,fun ss ys member among => ?_,fun x _ => ?_,stream_caused env workers reached y⟩
  · rcases (started env workers reached).first y with empty | ⟨now,rest,head⟩
    · exact .inl empty
    · refine .inr ⟨now,rest,head,fun t later origin => ?_⟩
      have ordered := log.ordered
      rw [head,List.pairwise_cons] at ordered
      have before := ordered.1 t later
      rw [origin] at before
      exact absurd (before rfl) (lt_irrefl _)
  · exact List.count_eq_one_of_mem nodup ((completed env workers reached).done _ member y among)
  · have kept := log.ordered.filter (·.origin.conn = x)
    refine kept.imp_of_mem fun {t u} first second before => before ?_
    simp only [List.mem_filter,decide_eq_true_eq] at first second
    exact first.2.trans second.2.symm

/-- A second connection is accepted and its connect broadcast to the first. -/
def greeting : List Event := List.flatten [
  [.upgrade 0,.accept 0 0 false 3],List.replicate 9 (.exec 0 [] 0),
  [.upgrade 1,.accept 0 1 false 4],.exec 0 [] 0 :: List.replicate 5 (.exec 0 [0] 0)]

theorem greeting_runs : ((machine .numbered 1).run greeting (start 1)).any (fun s =>
    decide ((connectText .numbered 1 4,[0]) ∈ s.state.completed) &&
      decide ((s.state.conns 0).accepted = true)) = true := by
  decide +kernel

theorem greeting_delivered : ∃ s, (machine .numbered 1).Reaches greeting s ∧
    (connectText .numbered 1 4,[0]) ∈ s.state.completed ∧ Delivered .numbered s.state 0 := by
  obtain ⟨s,ran,checked⟩ := (Option.any_eq_true _ _).mp greeting_runs
  simp only [Bool.and_eq_true,decide_eq_true_eq] at checked
  exact ⟨s,ran,checked.1,stream_delivered .numbered 1 ran 0⟩

end Wschat.Cpp
