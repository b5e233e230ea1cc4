import Wschat.CppOrigins

/-! What caused a text. The read buffer is empty whenever a read is pending, so the text
of a frame is computed from that frame's payload alone. -/
namespace Wschat.Cpp

open Workers

/-- The activation leads to the first read of `x`, or to one that has consumed nothing. -/
def Point.unread (x : Conn) : Point → Nat
  | .send y _ | .read false y => if y = x then 1 else 0
  | .loop caller y _ _ => if caller = .connect ∧ y = x then 1 else 0
  | .lock op y | .update op y | .unlock op y => if op = .insert ∧ y = x then 1 else 0
  | _ => 0

theorem unread_le_rearms (x : Conn) (p : Point) : p.unread x ≤ p.rearms x := by
  cases p with
  | loop caller y ss progress => cases caller <;> simp [Point.unread,Point.rearms]
  | read consume y => cases consume <;> simp [Point.unread,Point.rearms]
  | _ => simp [Point.unread,Point.rearms]

structure Buffered (s : State) (ps : Multiset Point) : Prop where
  early : ∀ x, (s.conns x).accepted = false → (s.conns x).buffer = ""
  reading : ∀ x, (s.conns x).reading = true → (s.conns x).buffer = ""
  unread : ∀ p ∈ ps, ∀ x, 0 < p.unread x → (s.conns x).buffer = ""

/-- A text is the one its origin stands for. -/
def Caused (env : Env) (s : State) (t : Text) : Prop :=
  match t.origin.kind with
  | .connect => ∃ now, t = connectText env t.origin.conn now
  | .disconnect => ∃ now, t = disconnectText env t.origin.conn now
  | .frame k => ∃ r, (s.conns t.origin.conn).received[k]? = some r ∧
      outcome env.lib r.payload r.now r.residue = .broadcast t.bytes
  | .reply k => ∃ r, (s.conns t.origin.conn).received[k]? = some r ∧
      outcome env.lib r.payload r.now r.residue = .reply t.bytes

/-- The fields that a handler changes only when it receives a payload. -/
theorem move_received (env : Env) (t : Thread) (s next : State) (old new : List Point)
    (moved : Move env t s old next new) (z : Conn) :
    ∃ more, (next.conns z).received = (s.conns z).received ++ more := by
  have modified (x : Conn) (f : WsConn → WsConn) (more : List Receipt)
      (kept : (f (s.conns x)).received = (s.conns x).received ++ more) :
      ∃ more, ((s.modify x f).conns z).received = (s.conns z).received ++ more := by
    by_cases here : z = x
    · subst z; exact ⟨more,by simpa using kept⟩
    · exact ⟨[],by simp [here]⟩
  cases moved with
  | broadcast x payload text now residue => exact modified x _ [⟨payload,now,residue⟩] rfl
  | badMessage x payload text now residue => exact modified x _ [⟨payload,now,residue⟩] rfl
  | write x failed => exact modified x _ [] (by simp [(grows_onWrite failed (s.conns x)).2.1])
  | onSend x ss rest => exact modified x _ [] (by simp [(grows_onSend ss rest (s.conns x)).2.1])
  | lockShared | unlockShared | expired | lock | insert | erase | unlockInsert | unlockErase =>
    exact ⟨[],by simp⟩
  | _ =>
    exact modified _ _ [] (by simp [WsConn.accept,WsConn.readError,WsConn.post,WsConn.retain,
      WsConn.release])

theorem Caused.mono {env : Env} {s next : State} {t : Text} (caused : Caused env s t)
    (grown : ∀ z, ∃ more, (next.conns z).received = (s.conns z).received ++ more) :
    Caused env next t := by
  unfold Caused at caused ⊢
  obtain ⟨more,eq⟩ := grown t.origin.conn
  split at caused
  · exact caused
  · exact caused
  · obtain ⟨r,at_,result⟩ := caused
    have bound := (List.getElem?_eq_some_iff.mp at_).1
    exact ⟨r,by rw [eq,List.getElem?_append_left bound]; exact at_,result⟩
  · obtain ⟨r,at_,result⟩ := caused
    have bound := (List.getElem?_eq_some_iff.mp at_).1
    exact ⟨r,by rw [eq,List.getElem?_append_left bound]; exact at_,result⟩

section Buffer

variable {s : State} {old new : List Point} {others : Multiset Point}

theorem buffer_onWrite (failed : Bool) (c : WsConn) : (c.onWrite failed).buffer = c.buffer ∧
    (c.onWrite failed).reading = c.reading := by
  unfold WsConn.onWrite
  split
  · simp
  · split <;> simp

theorem buffer_onSend (ss : Text) (rest : List Text) (c : WsConn) :
    (c.onSend ss rest).buffer = c.buffer ∧ (c.onSend ss rest).reading = c.reading := by
  unfold WsConn.onSend
  dsimp only
  split <;> simp

/-- A step of a handler of `x` that leaves its buffer alone. -/
theorem Buffered.modify (valid : Buffered s (↑old + others)) (x : Conn) (f : WsConn → WsConn)
    (buffer : (f (s.conns x)).buffer = (s.conns x).buffer)
    (early : (f (s.conns x)).accepted = false → (s.conns x).accepted = false)
    (reading : (f (s.conns x)).reading = true → (s.conns x).buffer = "")
    (unread : ∀ q ∈ new, ∀ z, 0 < q.unread z → (s.conns z).buffer = "") :
    Buffered (s.modify x f) (↑new + others) := by
  have same (z : Conn) : ((s.modify x f).conns z).buffer = (s.conns z).buffer := by
    by_cases here : z = x
    · subst z; simpa using buffer
    · simp [here]
  refine ⟨fun z waits => ?_,fun z reads => ?_,fun q inside z clean => ?_⟩ <;> rw [same]
  · by_cases here : z = x
    · subst z; exact valid.early x (early (by simpa using waits))
    · exact valid.early z (by simpa [here] using waits)
  · by_cases here : z = x
    · subst z; exact reading (by simpa using reads)
    · exact valid.reading z (by simpa [here] using reads)
  · rcases Multiset.mem_add.mp inside with fresh | still
    · exact unread q fresh z clean
    · exact valid.unread q (Multiset.mem_add.mpr (.inr still)) z clean

theorem Buffered.points {next : State} (valid : Buffered s (↑old + others))
    (conns : next.conns = s.conns)
    (unread : ∀ q ∈ new, ∀ z, 0 < q.unread z → (s.conns z).buffer = "") :
    Buffered next (↑new + others) := by
  refine ⟨fun z => ?_,fun z => ?_,fun q inside z clean => ?_⟩ <;> rw [conns]
  · exact valid.early z
  · exact valid.reading z
  · rcases Multiset.mem_add.mp inside with fresh | still
    · exact unread q fresh z clean
    · exact valid.unread q (Multiset.mem_add.mpr (.inr still)) z clean

/-- While a read is pending no activation leads to another. -/
theorem Control.no_unread {ps : Multiset Point} (counted : Control s ps)
    (reading : (s.conns x).reading = true) {p : Point} (inside : p ∈ ps)
    (clean : 0 < p.unread x) : False := by
  have armed := (counted x).armed
  have below := le_weigh (Point.rearms x) inside
  have := unread_le_rearms x p
  simp only [reading,Bool.toNat_true] at armed
  omega

/-- `handle` and `connect` start a read on an empty buffer. -/
theorem Buffered.read (valid : Buffered s (↑old + others)) (x : Conn) (f : WsConn → WsConn)
    (empty : (f (s.conns x)).buffer = "") (none : ∀ q ∈ new, ∀ z, q.unread z = 0) :
    Buffered (s.modify x f) (↑new + others) := by
  refine ⟨fun z waits => ?_,fun z reads => ?_,fun q inside z clean => ?_⟩ <;>
    by_cases here : z = x
  · simpa [here] using empty
  · simpa [here] using valid.early z (by simpa [here] using waits)
  · simpa [here] using empty
  · simpa [here] using valid.reading z (by simpa [here] using reads)
  · simpa [here] using empty
  · rcases Multiset.mem_add.mp inside with fresh | still
    · have := none q fresh z
      omega
    · simpa [here] using valid.unread q (Multiset.mem_add.mpr (.inr still)) z clean

/-- The payload stays in the buffer until the next read is started. -/
theorem Buffered.receive (valid : Buffered s (↑old + others)) (counted : Control s (↑old + others))
    (x : Conn) (reading : (s.conns x).reading = true) (payload : String) (now residue : Int64)
    (none : ∀ q ∈ new, ∀ z, q.unread z = 0) :
    Buffered (s.modify x (.receive payload now residue)) (↑new + others) := by
  refine ⟨fun z waits => ?_,fun z reads => ?_,fun q inside z clean => ?_⟩ <;>
    by_cases here : z = x
  · subst z
    simp [WsConn.receive,(counted x).accepted_of_reading reading] at waits
  · simpa [here] using valid.early z (by simpa [here] using waits)
  · subst z
    simp [WsConn.receive] at reads
  · simpa [here] using valid.reading z (by simpa [here] using reads)
  · subst z
    rcases Multiset.mem_add.mp inside with fresh | still
    · have := none q fresh x
      omega
    · exact (counted.no_unread reading (Multiset.mem_add.mpr (.inr still)) clean).elim
  · rcases Multiset.mem_add.mp inside with fresh | still
    · have := none q fresh z
      omega
    · simpa [here] using valid.unread q (Multiset.mem_add.mpr (.inr still)) z clean

end Buffer

theorem move_buffered (env : Env) (t : Thread) (s next : State) (old new : List Point)
    (others : Multiset Point) (counted : Control s (↑old + others))
    (valid : Buffered s (↑old + others)) (moved : Move env t s old next new) :
    Buffered next (↑new + others) := by
  have clean (p : Point) (top : old = [p]) := valid.unread p (by simp [top])
  cases moved with
  | accept x now idle accepting =>
    have empty := valid.early x ((counted x).not_accepted accepting)
    refine valid.modify x _ rfl (by simp [WsConn.accept]) (fun _ => empty) ?_
    intro q inside z joins
    obtain rfl := List.mem_singleton.mp inside
    by_cases same : x = z
    · exact same ▸ empty
    · simp [Point.unread,same] at joins
  | acceptError x idle accepting =>
    have early := (counted x).not_accepted accepting
    exact valid.modify x _ rfl (fun _ => early) (fun _ => valid.early x early)
      (by simp [Point.unread])
  | readError x idle reading =>
    exact valid.modify x _ rfl id (by simp [WsConn.readError]) (by simp [Point.unread])
  | broadcast x payload text now residue idle reading decoded =>
    exact valid.receive counted x reading payload now residue (by simp [Point.unread])
  | badMessage x payload text now residue idle reading decoded =>
    exact valid.receive counted x reading payload now residue (by simp [Point.unread])
  | write x failed idle writing =>
    obtain ⟨buffer,reading⟩ := buffer_onWrite failed (s.conns x)
    exact valid.modify x _ buffer (by rw [(grows_onWrite failed _).1]; exact id)
      (by rw [reading]; exact valid.reading x) (by simp [Point.unread])
  | onSend x ss rest idle posted =>
    obtain ⟨buffer,reading⟩ := buffer_onSend ss rest (s.conns x)
    exact valid.modify x _ buffer (by rw [(grows_onSend ss rest _).1]; exact id)
      (by rw [reading]; exact valid.reading x) (by simp [Point.unread])
  | send x ss =>
    exact valid.modify x _ rfl id (valid.reading x)
      (by simpa [Point.unread] using clean _ rfl)
  | reply x ss => exact valid.modify x _ rfl id (valid.reading x) (by simp [Point.unread])
  | retain caller x ss y todo alive =>
    exact valid.modify y _ rfl id (valid.reading y) (by simpa [Point.unread] using clean _ rfl)
  | post caller x ss y todo =>
    exact valid.modify y _ rfl id (valid.reading y) (by simpa [Point.unread] using clean _ rfl)
  | release caller x ss y todo more =>
    exact valid.modify y _ rfl id (valid.reading y) (by simpa [Point.unread] using clean _ rfl)
  | releaseLast caller x ss y todo now last =>
    exact valid.modify y _ rfl id (valid.reading y)
      (by simpa [Point.unread,destructor] using clean _ rfl)
  | read consume x =>
    refine valid.read x _ ?_ (by simp [Point.unread])
    cases consume with
    | false => exact clean _ rfl x (by simp [Point.unread])
    | true => rfl
  | drop x more => exact valid.modify x _ rfl id (valid.reading x) (by simp [Point.unread])
  | dropLast x now last =>
    exact valid.modify x _ rfl id (valid.reading x) (by simp [Point.unread,destructor])
  | leave x => exact valid.modify x _ rfl id (valid.reading x) (by simp)
  | free x => exact valid.modify x _ rfl id (valid.reading x) (by simp)
  | unlockShared caller x ss =>
    refine valid.points rfl ?_
    have before := clean _ rfl
    cases caller <;> simp [afterLoop,Point.unread] at before ⊢
    exact before
  | erase x => exact valid.points rfl (by simp [Point.unread])
  | unlockErase x => exact valid.points rfl (by simp [Point.unread])
  | lockShared | expired | lock | insert | unlockInsert =>
    refine valid.points rfl ?_
    simpa [Point.unread] using clean _ rfl

theorem buffered (env : Env) (workers : Nat) (reached : (machine env workers).Reaches es s) :
    Buffered s.state (activations s.threads) := by
  refine points_invariant env workers Buffered ?_ ?_ ?_ reached
  · refine ⟨?_,?_,?_⟩ <;> simp [State.initial,WsConn.absent]
  · intro es s x before valid fresh
    have same : Buffered s.state (↑([] : List Point) + activations s.threads) := by
      simpa using valid
    have kept : Buffered (s.state.modify x .upgrade) (↑([] : List Point) + activations s.threads) :=
      same.modify x .upgrade rfl id (valid.reading x) (by simp)
    simpa using kept
  · intro es s t old next new others reached cut valid moved
    exact move_buffered env t s.state next old new others (cut ▸ control env workers reached)
      valid moved

/-- The texts in hand and in the history are the ones their origins stand for. -/
def AllCaused (env : Env) (s : State) (ps : Multiset Point) : Prop :=
  (∀ t ∈ s.history, Caused env s t) ∧ ∀ p ∈ ps, ∀ x ss, p.teller = some (x,ss) → Caused env s ss

/-- A text that is new in hand was caused by the handler or the destructor just started. -/
theorem move_caused (env : Env) (t : Thread) (s next : State) (old new : List Point)
    (buffers : Buffered s ps) (moved : Move env t s old next new) (q : Point) (inside : q ∈ new)
    (x : Conn) (ss : Text) (told : q.teller = some (x,ss)) :
    (∃ p ∈ old, p.teller = some (x,ss)) ∨ Caused env next ss := by
  have destroyed (y : Conn) (now : Int64) (told : (destructor env y now).teller = some (x,ss)) :
      Caused env next ss := by
    obtain ⟨rfl,rfl⟩ : y = x ∧ disconnectText env y now = ss := by
      simpa [destructor,Point.teller] using told
    exact ⟨now,rfl⟩
  cases moved with
  | accept y now idle accepting =>
    obtain rfl := List.mem_singleton.mp inside
    obtain ⟨rfl,rfl⟩ : y = x ∧ connectText env y now = ss := by simpa [Point.teller] using told
    exact .inr ⟨now,rfl⟩
  | broadcast y payload text now residue idle reading decoded =>
    obtain rfl := List.mem_singleton.mp inside
    simp only [Point.teller,Option.some.injEq,Prod.mk.injEq] at told
    obtain ⟨rfl,rfl⟩ := told
    rw [buffers.reading y reading,String.empty_append] at decoded
    exact .inr ⟨⟨payload,now,residue⟩,by simp [WsConn.receive],decoded⟩
  | badMessage y payload text now residue idle reading decoded =>
    obtain rfl := List.mem_singleton.mp inside
    simp only [Point.teller,Option.some.injEq,Prod.mk.injEq] at told
    obtain ⟨rfl,rfl⟩ := told
    rw [buffers.reading y reading,String.empty_append] at decoded
    exact .inr ⟨⟨payload,now,residue⟩,by simp [WsConn.receive],decoded⟩
  | releaseLast caller z ss' y todo now last =>
    rcases List.mem_pair.mp inside with rfl | rfl
    · exact .inr (destroyed y now told)
    · exact .inl ⟨_,List.mem_singleton_self _,told⟩
  | dropLast y now last =>
    rcases List.mem_pair.mp inside with rfl | rfl
    · exact .inr (destroyed y now told)
    · simp [Point.teller] at told
  | unlockShared caller y ss' =>
    cases caller <;> simp only [List.mem_singleton] at inside <;> subst inside <;>
      simp [afterLoop,Point.teller] at told
  | acceptError | readError | write | onSend | reply | lock | insert | erase | unlockInsert
  | unlockErase | read | drop =>
    obtain rfl := List.mem_singleton.mp inside
    simp [Point.teller] at told
  | leave | free => simp at inside
  | send | lockShared | retain | expired | post | release =>
    obtain rfl := List.mem_singleton.mp inside
    exact .inl ⟨_,List.mem_singleton_self _,told⟩

/-- A text enters the history when its loop takes the lock. -/
theorem move_history (env : Env) (t : Thread) (s next : State) (old new : List Point)
    (moved : Move env t s old next new) : next.history = s.history ∨
      ∃ caller x ss, old = [.loop caller x ss .enter] ∧ next.history = s.history ++ [ss] ∧
        ∀ q ∈ new, ¬q.enters := by
  cases moved with
  | lockShared caller x ss order free perm =>
    exact .inr ⟨caller,x,ss,rfl,rfl,by simp [Point.enters]⟩
  | _ => exact .inl rfl

theorem all_caused (env : Env) (workers : Nat) (reached : (machine env workers).Reaches es s) :
    AllCaused env s.state (activations s.threads) := by
  refine points_invariant env workers (AllCaused env) ?_ ?_ ?_ reached
  · exact ⟨by simp [State.initial],by simp⟩
  · intro es s x before valid fresh
    have grown (z : Conn) : ∃ more, ((s.state.modify x .upgrade).conns z).received =
        (s.state.conns z).received ++ more := by
      refine ⟨[],?_⟩
      by_cases here : z = x
      · subst z; simp [WsConn.upgrade]
      · simp [here]
    exact ⟨fun t member => (valid.1 t member).mono grown,
      fun p inside y ss told => (valid.2 p inside y ss told).mono grown⟩
  · intro es s t old next new others reached cut valid moved
    have grown := move_received env t s.state next old new moved
    have buffers := buffered env workers reached
    refine ⟨fun u member => ?_,fun p inside x ss told => ?_⟩
    · rcases move_history env t s.state next old new moved with eq | ⟨caller,x,ss,rfl,eq,-⟩
      · exact (valid.1 u (eq ▸ member)).mono grown
      · rw [eq] at member
        rcases List.mem_append.mp member with earlier | last
        · exact (valid.1 u earlier).mono grown
        · obtain rfl := List.mem_singleton.mp last
          exact (valid.2 (.loop caller x u .enter) (by simp) x u rfl).mono grown
    · rcases Multiset.mem_add.mp inside with fresh | still
      · rcases move_caused env t s.state next old new buffers moved p fresh x ss told with
          ⟨q,before,same⟩ | caused
        · exact (valid.2 q (Multiset.mem_add.mpr (.inl before)) x ss same).mono grown
        · exact caused
      · exact (valid.2 p (Multiset.mem_add.mpr (.inr still)) x ss told).mono grown

end Wschat.Cpp
