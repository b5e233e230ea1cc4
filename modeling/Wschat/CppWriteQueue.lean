import Wschat.CppMoves

/-! The write queue of one `WsConn`, under any sequence of `on_send` calls and completions
of writes on its strand. Every connection of the server has one. -/
namespace Wschat.Cpp

/-- `queue_`, and the buffers of the `async_write`s that have not completed. `undefined` says
that `front` or `pop` has been called on an empty queue. What has been pushed, what has been
given to `async_write`, what has been written without error and whether a write has failed
are ghost. -/
structure WriteQueue (α : Type) where
  queue : List α
  writes : List α
  undefined : Bool
  pushed : List α
  started : List α
  written : List α
  failed : Bool

namespace WriteQueue

variable {α : Type}

def empty : WriteQueue α := ⟨[],[],false,[],[],[],false⟩

/-- `async_write` of `queue_.front()`. -/
def asyncWrite (q : WriteQueue α) : WriteQueue α :=
  match q.queue with
  | front :: _ => { q with writes := q.writes ++ [front], started := q.started ++ [front] }
  | [] => { q with undefined := true }

def pop (q : WriteQueue α) : WriteQueue α :=
  match q.queue with
  | _ :: rest => { q with queue := rest }
  | [] => { q with undefined := true }

def onSend (ss : α) (q : WriteQueue α) : WriteQueue α :=
  let q := { q with queue := q.queue ++ [ss], pushed := q.pushed ++ [ss] }
  if 1 < q.queue.length then q else q.asyncWrite

/-- `ec` says whether there is an error. -/
def onWrite (ec : Bool) (q : WriteQueue α) : WriteQueue α :=
  if ec then { q with failed := true }
  else
    let q := q.pop
    if q.queue.isEmpty then q else q.asyncWrite

inductive Event (α : Type) where
  | send (ss : α)
  /-- The `i`-th of the outstanding writes completes. -/
  | write (i : Nat) (ec : Bool)

def step (q : WriteQueue α) : Event α → Option (WriteQueue α)
  | .send ss => some (q.onSend ss)
  | .write i ec =>
    match q.writes[i]? with
    | some ss =>
      let written := if ec then q.written else q.written ++ [ss]
      some ({ q with writes := q.writes.eraseIdx i, written }.onWrite ec)
    | none => none

def machine (α : Type) : Machine (WriteQueue α) (Event α) := ⟨empty,step⟩

/-- The texts passed to `on_send`. -/
def sends (es : List (Event α)) : List α :=
  es.filterMap fun
    | .send ss => some ss
    | .write _ _ => none

variable {p q next : WriteQueue α} {e : Event α} {es : List (Event α)}

/-- The invariant: the front of the queue is what is being written, until a write fails. -/
structure Sound (q : WriteQueue α) : Prop where
  defined : q.undefined = false
  writes : q.writes = if q.failed then [] else q.queue.take 1
  started : q.started = q.written ++ q.queue.take 1
  pushed : q.pushed = q.written ++ q.queue
  stuck : q.failed = true → q.queue ≠ []

theorem empty_sound : Sound (empty : WriteQueue α) := by
  constructor <;> simp [empty]

theorem Sound.onSend (sound : Sound q) (ss : α) : Sound (q.onSend ss) := by
  obtain ⟨defined,writes,started,pushed,stuck⟩ := sound
  cases queue : q.queue with
  | nil =>
    have working : q.failed = false := by
      by_contra failed
      exact stuck (by simpa using failed) queue
    simp only [queue,working] at writes started pushed
    constructor <;>
      simp [WriteQueue.onSend,asyncWrite,queue,defined,writes,started,pushed,working]
  | cons front rest =>
    simp only [queue] at writes started pushed
    constructor <;> simp [WriteQueue.onSend,queue,defined,writes,started,pushed]

/-- The write that completes is of the front, and none has failed before. -/
theorem step_write (sound : Sound q) (stepped : step q (.write i ec) = some next) :
    ∃ front rest, i = 0 ∧ q.queue = front :: rest ∧ q.failed = false ∧
      next = { q with
        writes := [], written := if ec then q.written else q.written ++ [front] }.onWrite ec := by
  simp only [step] at stepped
  split at stepped
  case h_2 => contradiction
  case h_1 ss found =>
    have writes := sound.writes
    cases working : q.failed with
    | true => simp [writes,working] at found
    | false =>
      simp only [working,Bool.false_eq_true,if_false] at writes
      cases queue : q.queue with
      | nil => simp [writes,queue] at found
      | cons front rest =>
        rw [queue,List.take_succ_cons,List.take_zero] at writes
        obtain ⟨rfl,rfl⟩ : i = 0 ∧ front = ss := by
          rw [writes,List.getElem?_singleton] at found
          split at found
          · exact ⟨‹_›,Option.some.inj found⟩
          · contradiction
        refine ⟨front,rest,rfl,rfl,rfl,?_⟩
        rw [← Option.some.inj stepped,writes,queue,working]
        rfl

theorem step_sound (sound : Sound q) (stepped : step q e = some next) : Sound next := by
  cases e with
  | send ss =>
    obtain rfl := Option.some.inj stepped
    exact sound.onSend ss
  | write i ec =>
    obtain ⟨front,rest,-,queue,working,rfl⟩ := step_write sound stepped
    obtain ⟨defined,-,started,pushed,-⟩ := sound
    rw [queue] at started pushed
    cases ec with
    | true => constructor <;> simp [onWrite,defined,started,pushed,queue]
    | false =>
      cases rest <;>
        constructor <;> simp [onWrite,pop,asyncWrite,defined,started,pushed,queue,working]

theorem reaches_sound (reached : (machine α).Reaches es q) : Sound q :=
  (machine α).invariant Sound empty_sound (fun _ _ _ sound stepped => step_sound sound stepped)
    reached

theorem asyncWrite_pushed (q : WriteQueue α) : q.asyncWrite.pushed = q.pushed := by
  unfold asyncWrite
  split <;> rfl

theorem pop_pushed (q : WriteQueue α) : q.pop.pushed = q.pushed := by
  unfold pop
  split <;> rfl

theorem onSend_pushed (q : WriteQueue α) (ss : α) : (q.onSend ss).pushed = q.pushed ++ [ss] := by
  simp only [onSend]
  split
  · rfl
  · rw [asyncWrite_pushed]

theorem onWrite_pushed (q : WriteQueue α) (ec : Bool) : (q.onWrite ec).pushed = q.pushed := by
  simp only [onWrite]
  split
  · rfl
  · split
    · rw [pop_pushed]
    · rw [asyncWrite_pushed,pop_pushed]

theorem reaches_pushed (reached : (machine α).Reaches es q) : q.pushed = sends es := by
  apply (machine α).reaches_induction (motive := fun es q => q.pushed = sends es) rfl _ reached
  intro es q e next before pushed stepped
  cases e with
  | send ss =>
    obtain rfl := Option.some.inj stepped
    simp [sends,onSend_pushed,pushed]
  | write i ec =>
    obtain ⟨front,rest,-,-,-,rfl⟩ := step_write (reaches_sound before) stepped
    simp [sends,onWrite_pushed,pushed]

/-- Once a write has failed no write is started. -/
theorem run_failed (sound : Sound p) (failed : p.failed = true)
    (ran : (machine α).run es p = some q) : q.started = p.started := by
  have kept := (machine α).run_invariant
    (fun q => Sound q ∧ q.failed = true ∧ q.started = p.started) ?_ ⟨sound,failed,rfl⟩ ran
  · exact kept.2.2
  · intro q e next ⟨sound,failed,same⟩ stepped
    refine ⟨step_sound sound stepped,?_⟩
    cases e with
    | send ss =>
      obtain rfl := Option.some.inj stepped
      have waiting := List.length_pos_of_ne_nil (sound.stuck failed)
      simp [onSend,waiting,failed,same]
    | write i ec =>
      obtain ⟨_,_,-,-,working,-⟩ := step_write sound stepped
      simp [working] at failed

/-- What the queue of a connection guarantees. -/
structure Orderly (es : List (Event α)) (q : WriteQueue α) : Prop where
  defined : q.undefined = false
  /-- At most one write is outstanding, of the front of the queue. -/
  single : q.writes.length ≤ 1 ∧ ∀ ss ∈ q.writes, q.queue.head? = some ss
  busy : q.failed = false → (q.queue ≠ [] ↔ q.writes ≠ [])
  inOrder : q.started <+: sends es
  /-- The queue is what has been pushed and not been written. -/
  unwritten : sends es = q.written ++ q.queue
  /-- After a failed write none is started. -/
  silent : ∀ before after p, es = before ++ after → (machine α).Reaches before p →
    p.failed = true → q.started = p.started

theorem Sound.orderly (sound : Sound q) (reached : (machine α).Reaches es q) : Orderly es q := by
  have pushed := reaches_pushed reached
  obtain ⟨defined,writes,started,unwritten,stuck⟩ := sound
  constructor
  · exact defined
  · rw [writes]
    split
    · simp
    · refine ⟨List.length_take_le 1 _,?_⟩
      cases q.queue <;> simp
  · intro working
    rw [writes,working]
    cases q.queue <;> simp
  · rw [started,← pushed,unwritten]
    exact (List.prefix_append_right_inj _).mpr (List.take_prefix 1 _)
  · rw [← pushed,unwritten]
  · intro before after p eq first failed
    subst eq
    obtain ⟨middle,arrived,rest⟩ := ((machine α).reaches_append before after q).mp reached
    obtain rfl := arrived.unique _ first
    exact run_failed (reaches_sound first) failed rest

theorem queue_orderly (es : List (Event α)) (q : WriteQueue α) (reached : (machine α).Reaches es q) :
    Orderly es q := (reaches_sound reached).orderly reached

/-- The second write fails, and a third text comes. -/
def jammed : List (Event String) :=
  [.send "a",.send "b",.write 0 false,.write 0 true,.send "c"]

theorem jammed_orderly : Orderly jammed
    ⟨["b","c"],[],false,["a","b","c"],["a","b"],["a"],true⟩ := queue_orderly jammed _ rfl

end WriteQueue

/-- The connection's queue is in the state `q`. -/
structure WsConn.Shows (c : WsConn) (q : WriteQueue Text) : Prop where
  queue : c.queue = q.queue
  pushed : c.pushed = q.pushed
  writing : c.writing = !q.writes.isEmpty

/-- Some sequence of sends and completions brings the queue into the state of `c`. -/
def WsConn.Queued (c : WsConn) : Prop :=
  ∃ es q, (WriteQueue.machine Text).Reaches es q ∧ c.Shows q

theorem WsConn.Queued.keep {c d : WsConn} (queued : c.Queued) (queue : d.queue = c.queue)
    (pushed : d.pushed = c.pushed) (writing : d.writing = c.writing) : d.Queued := by
  obtain ⟨es,q,reached,shows_⟩ := queued
  exact ⟨es,q,reached,queue.trans shows_.queue,pushed.trans shows_.pushed,
    writing.trans shows_.writing⟩

theorem WsConn.Queued.onSend {c : WsConn} (queued : c.Queued) (ss : Text) (rest : List Text) :
    (c.onSend ss rest).Queued := by
  obtain ⟨es,q,reached,queue,pushed,writing⟩ := queued
  refine ⟨es ++ [.send ss],q.onSend ss,?_,?_⟩
  · exact ((WriteQueue.machine Text).reaches_concat es _ _).mpr ⟨q,reached,rfl⟩
  · cases held : q.queue with
    | nil =>
      rw [held] at queue
      constructor <;>
        simp [WsConn.onSend,WriteQueue.onSend,WriteQueue.asyncWrite,queue,pushed,held]
    | cons front later =>
      rw [held] at queue
      constructor <;> simp [WsConn.onSend,WriteQueue.onSend,queue,pushed,writing,held]

theorem WsConn.Queued.onWrite {c : WsConn} (queued : c.Queued) (busy : c.writing = true)
    (failed : Bool) : (c.onWrite failed).Queued := by
  obtain ⟨es,q,reached,queue,pushed,writing⟩ := queued
  have sound := WriteQueue.reaches_sound reached
  have outstanding : q.writes ≠ [] := by
    rw [busy] at writing
    simpa using writing.symm
  obtain ⟨ss,others,writes⟩ := List.exists_cons_of_ne_nil outstanding
  obtain ⟨next,stepped⟩ : ∃ next, q.step (.write 0 failed) = some next := by
    simp [WriteQueue.step,writes]
  refine ⟨es ++ [.write 0 failed],next,
    ((WriteQueue.machine Text).reaches_concat es (.write 0 failed) next).mpr ⟨q,reached,stepped⟩,?_⟩
  obtain ⟨front,later,-,held,-,rfl⟩ := WriteQueue.step_write sound stepped
  rw [held] at queue
  cases failed with
  | true => constructor <;> simp [WsConn.onWrite,WriteQueue.onWrite,queue,pushed,held]
  | false =>
    cases later <;> constructor <;>
      simp [WsConn.onWrite,WriteQueue.onWrite,WriteQueue.pop,WriteQueue.asyncWrite,queue,pushed,
        held,busy]

theorem modify_queued (s : State) (y : Conn) (f : WsConn → WsConn)
    (queued : ∀ x, (s.conns x).Queued) (here : (f (s.conns y)).Queued) (x : Conn) :
    ((s.modify y f).conns x).Queued :=
  replace_forall (R := fun _ c => WsConn.Queued c) queued here x

theorem move_queued (env : Env) (t : Thread) (s next : State) (old new : List Point)
    (moved : Move env t s old next new) (queued : ∀ x, (s.conns x).Queued) :
    ∀ x, (next.conns x).Queued := by
  cases moved with
  | write y failed idle writing =>
    exact modify_queued s y _ queued ((queued y).onWrite writing failed)
  | onSend y ss rest => exact modify_queued s y _ queued ((queued y).onSend ss rest)
  | lockShared | unlockShared | expired | lock | insert | erase | unlockInsert | unlockErase =>
    exact queued
  | _ => exact modify_queued s _ _ queued ((queued _).keep rfl rfl rfl)

/-- The queue of every connection is one of these. -/
theorem reaches_queued (env : Env) (workers : Nat) (reached : (machine env workers).Reaches es s) :
    ∀ x, (s.state.conns x).Queued := by
  apply (machine env workers).invariant (fun s => ∀ x, (s.state.conns x).Queued) _ _ reached
  · exact fun x => ⟨[],.empty,rfl,rfl,rfl,rfl⟩
  · intro s e next queued stepped
    rcases step_cases env s next e stepped with ⟨y,-,rfl⟩ | ⟨t,old,new,rest,-,-,moved,-⟩
    · exact modify_queued s.state y .upgrade queued ((queued y).keep rfl rfl rfl)
    · exact move_queued env t s.state next.state old new moved queued

/-- In the server too, a connection writes the front of its queue or nothing, and never
empties a queue that is empty. -/
theorem conn_orderly (env : Env) (workers : Nat) (reached : (machine env workers).Reaches es s)
    (x : Conn) : ∃ fs q, (s.state.conns x).Shows q ∧ WriteQueue.Orderly fs q := by
  obtain ⟨fs,q,ran,shows_⟩ := reaches_queued env workers reached x
  exact ⟨fs,q,shows_,(WriteQueue.reaches_sound ran).orderly ran⟩

end Wschat.Cpp
