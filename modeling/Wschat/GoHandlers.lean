import Wschat.GoMoves

/-! What the pc of a handler says about the rest: the flags of its channel, the map entry,
and the broadcasts it has launched. -/
namespace Wschat.Go

def ClosePc.rank : ClosePc → Nat
  | .swap => 8
  | .lock => 9
  | .acquire => 10
  | .close => 11
  | .unlock => 12
  | .returned | .panicked => 13

/-- How far the handler has come. -/
def HandlerPc.rank : HandlerPc → Nat
  | .absent => 0
  | .broadcasting => 1
  | .writing => 2
  | .storing => 3
  | .launching => 4
  | .receiving => 5
  | .replying => 6
  | .announcing => 7
  | .closing pc => pc.rank
  | .deleting => 14
  | .returned => 15

@[simp] theorem rank_absent : HandlerPc.absent.rank = 0 := rfl
@[simp] theorem rank_broadcasting : HandlerPc.broadcasting.rank = 1 := rfl
@[simp] theorem rank_writing : HandlerPc.writing.rank = 2 := rfl
@[simp] theorem rank_storing : HandlerPc.storing.rank = 3 := rfl
@[simp] theorem rank_launching : HandlerPc.launching.rank = 4 := rfl
@[simp] theorem rank_receiving : HandlerPc.receiving.rank = 5 := rfl
@[simp] theorem rank_replying : HandlerPc.replying.rank = 6 := rfl
@[simp] theorem rank_announcing : HandlerPc.announcing.rank = 7 := rfl
@[simp] theorem rank_closing (pc : ClosePc) : (HandlerPc.closing pc).rank = pc.rank := rfl
@[simp] theorem rank_deleting : HandlerPc.deleting.rank = 14 := rfl
@[simp] theorem rank_returned : HandlerPc.returned.rank = 15 := rfl
@[simp] theorem rank_swap : ClosePc.swap.rank = 8 := rfl
@[simp] theorem rank_lock : ClosePc.lock.rank = 9 := rfl
@[simp] theorem rank_acquire : ClosePc.acquire.rank = 10 := rfl
@[simp] theorem rank_close : ClosePc.close.rank = 11 := rfl
@[simp] theorem rank_unlock : ClosePc.unlock.rank = 12 := rfl
@[simp] theorem rank_closed : ClosePc.returned.rank = 13 := rfl
@[simp] theorem rank_panicked : ClosePc.panicked.rank = 13 := rfl

/-- The handler of `c` is between `Store` and `Delete`. -/
def HandlerPc.Stored (pc : HandlerPc) : Prop := 4 ≤ pc.rank ∧ pc.rank ≤ 14

def Handler.launched (h : Handler) : Kind → Bool
  | .connect => 0 < h.pc.rank
  | .chat k => k < h.chats
  | .disconnect => 7 < h.pc.rank

def Task.running : Task → Bool
  | .spawned _ | .ranging _ _ _ => true
  | .absent | .done => false

@[simp] theorem stored_absent (t : Task) (c : Conn) : t.stored c = .absent ↔ t = .absent := by
  cases t <;> simp [Task.stored]

@[simp] theorem deleted_absent (t : Task) (c : Conn) : t.deleted c = .absent ↔ t = .absent := by
  cases t <;> simp [Task.deleted]

@[simp] theorem stored_running (t : Task) (c : Conn) : (t.stored c).running = t.running := by
  cases t <;> rfl

@[simp] theorem deleted_running (t : Task) (c : Conn) : (t.deleted c).running = t.running := by
  cases t <;> rfl

section Flags

/-- Only the handler's `Close` changes the flags of its channel. -/
structure Flags (pc : HandlerPc) (channel : Channel Origin Item) : Prop where
  closed : channel.closed = decide (8 < pc.rank)
  waiting : channel.waiting = decide (pc.rank = 10)
  writing : channel.writing = decide (pc.rank = 11 ∨ pc.rank = 12)
  shut : channel.shut = decide (11 < pc.rank)
  going : pc.rank ≠ 13
  alone : channel.writing = true → channel.readers = []

theorem Flags.early (flags : Flags pc channel) (before : pc.rank ≤ 8) (after : pc'.rank ≤ 8) :
    Flags pc' channel where
  closed := by rw [flags.closed]; grind
  waiting := by rw [flags.waiting]; grind
  writing := by rw [flags.writing]; grind
  shut := by rw [flags.shut]; grind
  going := by omega
  alone := flags.alone

theorem Flags.late (flags : Flags pc channel) (before : 14 ≤ pc.rank) (after : 14 ≤ pc'.rank) :
    Flags pc' channel where
  closed := by rw [flags.closed]; grind
  waiting := by rw [flags.waiting]; grind
  writing := by rw [flags.writing]; grind
  shut := by rw [flags.shut]; grind
  going := by omega
  alone := flags.alone

/-- A step of `Close`, as the flags allow it: it neither panics nor finds the flag set. -/
theorem Flags.close (flags : Flags (.closing pc) channel)
    (closed : channel.close pc = some (channel',next)) :
    Flags (afterClose next) channel' ∧ next ≠ .panicked := by
  obtain ⟨closed_,waiting,writing,shut,going,alone⟩ := flags
  cases Channel.close_step closed with
  | swap =>
    simp at waiting writing shut
    exact ⟨⟨by simp [afterClose],by simp [afterClose,waiting],by simp [afterClose,writing],
      by simp [afterClose,shut],by simp [afterClose],by simp [writing]⟩,by simp⟩
  | swapAgain set => simp [set] at closed_
  | lock =>
    simp at closed_ writing shut
    exact ⟨⟨by simp [afterClose,closed_],by simp [afterClose],by simp [afterClose,writing],
      by simp [afterClose,shut],by simp [afterClose],by simp [writing]⟩,by simp⟩
  | acquire empty =>
    simp at closed_ shut
    exact ⟨⟨by simp [afterClose,closed_],by simp [afterClose],by simp [afterClose],
      by simp [afterClose,shut],by simp [afterClose],by simp [empty]⟩,by simp⟩
  | panic already => simp [already] at shut
  | shut =>
    simp at closed_ waiting writing
    exact ⟨⟨by simp [afterClose,closed_],by simp [afterClose,waiting],by simp [afterClose,writing],
      by simp [afterClose],by simp [afterClose],fun _ => alone writing⟩,by simp⟩
  | unlock =>
    simp at closed_ waiting shut
    exact ⟨⟨by simp [afterClose,closed_],by simp [afterClose,waiting],by simp [afterClose],
      by simp [afterClose,shut],by simp [afterClose],by simp⟩,by simp⟩

/-- A step of `Send` changes no flag, and enters the lock only when it is free. -/
theorem Flags.send (flags : Flags pc channel)
    (sent : channel.send o item at_ = some (channel',next)) : Flags pc channel' := by
  cases Channel.send_step sent with
  | rLock free =>
    refine ⟨flags.closed,flags.waiting,flags.writing,flags.shut,flags.going,?_⟩
    intro writing
    simp [Channel.readable] at free
    simp [free.2] at writing
  | skip | proceed | panic => exact flags
  | push => exact ⟨flags.closed,flags.waiting,flags.writing,flags.shut,flags.going,flags.alone⟩
  | rUnlock =>
    refine ⟨flags.closed,flags.waiting,flags.writing,flags.shut,flags.going,?_⟩
    intro writing
    have none := flags.alone writing
    simp [none]

theorem Flags.pop (flags : Flags pc channel) : Flags pc { channel with buffer := rest } :=
  ⟨flags.closed,flags.waiting,flags.writing,flags.shut,flags.going,flags.alone⟩

end Flags

attribute [simp] State.goto State.write State.launch State.setChannel State.setTask State.setWriter
  State.store State.delete

theorem move_flags (moved : Move env s e next)
    (flags : ∀ c, Flags (s.handlers c).pc (s.channels c)) :
    ∀ c, Flags (next.handlers c).pc (next.channels c) := by
  have handler := fun d h here => replace_forall (R := fun c (h : Handler) => Flags h.pc (s.channels c))
    (a := d) (b := h) flags here
  have channel := fun d ch here => replace_forall (R := fun c ch => Flags (s.handlers c).pc ch)
    (a := d) (b := ch) flags here
  cases moved with
  | accept d now at_ => exact handler d _ ((flags d).early (by simp [at_]) (by simp))
  | broadcasted d now at_ => exact handler d _ ((flags d).early (by simp [at_]) (by simp))
  | write d now at_ => exact handler d _ ((flags d).early (by simp [at_]) (by simp))
  | store d now at_ => exact handler d _ ((flags d).early (by simp [at_]) (by simp))
  | startWriter d now at_ => exact handler d _ ((flags d).early (by simp [at_]) (by simp))
  | chat d payload now msg => exact handler d _ (flags d)
  | leave d incoming now msg pc at_ out =>
    apply handler d _ ((flags d).early (by simp [at_]) _)
    rcases out with rfl | rfl <;> simp
  | reply d now text at_ => exact handler d _ ((flags d).early (by simp [at_]) (by simp))
  | announce d now at_ => exact handler d _ ((flags d).early (by simp [at_]) (by simp))
  | delete d now at_ => exact handler d _ ((flags d).late (by simp [at_]) (by simp))
  | close d now pc after ch at_ closed =>
    intro c
    by_cases same : c = d
    · subst same
      have h := flags c
      rw [at_] at h
      simpa using (h.close closed).1
    · simpa [same] using flags c
  | send o y text range pc after ch sending sent => exact channel y ch ((flags y).send sent)
  | pop d item rest => exact channel d _ (flags d).pop
  | range | visit | finish | drain | forward => exact flags

theorem close_rank {channel channel' : Channel Origin Item}
    (closed : channel.close pc = some (channel',next)) :
    pc.rank < (afterClose next).rank ∧ (afterClose next).rank ≤ 14 := by
  cases Channel.close_step closed <;> simp [afterClose]

theorem move_rank (moved : Move env s e next) (c : Conn) :
    (s.handlers c).pc.rank ≤ (next.handlers c).pc.rank := by
  have handler : ∀ d h, (s.handlers d).pc.rank ≤ h.pc.rank →
      (s.handlers c).pc.rank ≤ (replace s.handlers d h c).pc.rank := by
    intro d h up
    exact replace_forall (R := fun c (h : Handler) => (s.handlers c).pc.rank ≤ h.pc.rank)
      (fun _ => Nat.le_refl _) up c
  cases moved with
  | accept d now at_ | broadcasted d now at_ | write d now at_ | store d now at_
  | startWriter d now at_ | reply d now text at_ | announce d now at_ | delete d now at_ =>
    apply handler d
    simp [at_]
  | chat d => exact handler d _ (Nat.le_refl _)
  | leave d incoming now msg pc at_ out =>
    apply handler d
    rcases out with rfl | rfl <;> simp [at_]
  | close d now pc after ch at_ closed =>
    apply handler d
    simpa [at_] using (close_rank closed).1.le
  | range | visit | send | finish | pop | drain | forward => exact Nat.le_refl _

section Launches

/-- A handler has launched each of its broadcasts once, and is in the one of its connect. -/
structure Launches (c : Conn) (h : Handler) (tasks : Origin → Task) (launched : List Item) :
    Prop where
  idle : h.pc.rank = 0 → h.chats = 0
  absent : ∀ k, tasks ⟨c,k⟩ = .absent ↔ h.launched k = false
  counted : ∀ k, (launched.map Item.origin).count ⟨c,k⟩ = (h.launched k).toNat
  connecting : (tasks ⟨c,.connect⟩).running = true → h.pc = .broadcasting

theorem Launches.goto (l : Launches c h tasks launched) (began : 0 < h.pc.rank)
    (quiet : h.pc ≠ .broadcasting ∨ (tasks ⟨c,.connect⟩).running = false)
    (after : 0 < h'.pc.rank) (chats : h'.chats = h.chats)
    (same : 7 < h'.pc.rank ↔ 7 < h.pc.rank) : Launches c h' tasks launched := by
  have launched_ : ∀ k, h'.launched k = h.launched k := by
    intro k
    cases k with
    | connect => simp [Handler.launched,began,after]
    | chat k => simp [Handler.launched,chats]
    | disconnect => simp [Handler.launched,same]
  refine ⟨by omega,by simpa [launched_] using l.absent,by simpa [launched_] using l.counted,?_⟩
  intro running
  rcases quiet with elsewhere | quiet
  · exact absurd (l.connecting running) elsewhere
  · simp [quiet] at running

/-- One more broadcast, the `k`-th of its kind, by a handler that goes on to `h'`. -/
theorem Launches.launch (l : Launches c h tasks launched) (fresh : h.launched k = false)
    (after : 0 < h'.pc.rank) (now : h'.launched k = true)
    (others : ∀ k', k' ≠ k → h'.launched k' = h.launched k')
    (connecting : h'.pc = .broadcasting ∨ k ≠ .connect ∧ h.pc ≠ .broadcasting) :
    Launches c h' (replace tasks ⟨c,k⟩ (.spawned text)) (launched ++ [⟨⟨c,k⟩,text⟩]) := by
  refine ⟨by omega,?_,?_,?_⟩
  · intro k'
    by_cases same : k' = k
    · subst same; simp [now]
    · simpa [same,others k' same] using l.absent k'
  · intro k'
    have before := l.counted k'
    by_cases same : k' = k
    · subst same; simp [List.count_append,before,fresh,now]
    · have other : (⟨c,k⟩ : Origin) ≠ ⟨c,k'⟩ := by simpa using Ne.symm same
      simp [List.count_append,before,others k' same,other]
  · intro running
    rcases connecting with here | ⟨other,elsewhere⟩
    · exact here
    · have kept : (⟨c,.connect⟩ : Origin) ≠ ⟨c,k⟩ := by simpa using Ne.symm other
      rw [replace_other _ _ _ _ kept] at running
      exact absurd (l.connecting running) elsewhere

/-- The launch of another client's broadcast. -/
theorem Launches.other (l : Launches c h tasks launched) (other : c ≠ o.conn) :
    Launches c h (replace tasks o (.spawned text)) (launched ++ [⟨o,text⟩]) := by
  have apart : ∀ k, (⟨c,k⟩ : Origin) ≠ o := by
    rintro k rfl
    exact other rfl
  refine ⟨l.idle,?_,?_,?_⟩
  · intro k; simpa [apart k] using l.absent k
  · intro k; simpa [List.count_append,List.count_singleton,(apart k).symm] using l.counted k
  · simpa [apart .connect] using l.connecting

/-- A broadcast that has been launched goes on or ends. -/
theorem Launches.task (l : Launches c h tasks launched) (ran : (tasks o).running = true)
    (t : Task) (present : t ≠ .absent) : Launches c h (replace tasks o t) launched := by
  by_cases mine : o.conn = c
  · subst mine
    refine ⟨l.idle,?_,l.counted,?_⟩
    · intro k
      by_cases same : (⟨o.conn,k⟩ : Origin) = o
      · have started : tasks ⟨o.conn,k⟩ ≠ .absent := by
          intro absent
          rw [← same,absent] at ran
          contradiction
        rw [same,replace_same]
        rw [Ne,l.absent] at started
        simp [present,started]
      · simpa [same] using l.absent k
    · intro running
      by_cases same : (⟨o.conn,.connect⟩ : Origin) = o
      · exact l.connecting (by rw [same]; exact ran)
      · exact l.connecting (by simpa [same] using running)
  · have apart : ∀ k, (⟨c,k⟩ : Origin) ≠ o := by
      rintro k rfl
      exact mine rfl
    refine ⟨l.idle,?_,l.counted,?_⟩
    · intro k; simpa [apart k] using l.absent k
    · simpa [apart .connect] using l.connecting

end Launches

theorem move_launches (moved : Move env s e next)
    (l : ∀ c, Launches c (s.handlers c) s.tasks s.launched) :
    ∀ c, Launches c (next.handlers c) next.tasks next.launched := by
  have handler := fun d h here =>
    replace_forall (R := fun c (h : Handler) => Launches c h s.tasks s.launched) (a := d) (b := h)
      l here
  -- the handler of `d` launches its broadcast `k` and goes on to `h`
  have launch : ∀ d k text h, Launches d h (replace s.tasks ⟨d,k⟩ (.spawned text))
      (s.launched ++ [⟨⟨d,k⟩,text⟩]) → ∀ c, Launches c (replace s.handlers d h c)
      (replace s.tasks ⟨d,k⟩ (.spawned text)) (s.launched ++ [⟨⟨d,k⟩,text⟩]) := by
    intro d k text h here c
    by_cases same : c = d
    · subst same; simpa using here
    · simpa [same] using (l c).other (o := ⟨d,k⟩) same
  cases moved with
  | accept d now at_ =>
    have idle := (l d).idle (by simp [at_])
    apply launch d
    apply (l d).launch (by simp [Handler.launched,at_]) (by simp) (by simp [Handler.launched]) _ (.inl rfl)
    intro k other
    cases k with
    | connect => contradiction
    | chat k => simp [Handler.launched,idle]
    | disconnect => simp [Handler.launched,at_]
  | broadcasted d now at_ done =>
    exact handler d _ ((l d).goto (by simp [at_]) (.inr (by simp [done,Task.running])) (by simp) rfl
      (by simp [at_]))
  | write d now at_ | startWriter d now at_ | reply d now text at_ =>
    exact handler d _ ((l d).goto (by simp [at_]) (.inl (by simp [at_])) (by simp) rfl
      (by simp [at_]))
  | store d now at_ =>
    intro c
    have here : Launches d { s.handlers d with pc := .launching } s.tasks s.launched :=
      (l d).goto (by simp [at_]) (.inl (by simp [at_])) (by simp) rfl (by simp [at_])
    have kept := handler d _ here c
    exact ⟨kept.idle,by simpa using kept.absent,kept.counted,by simpa using kept.connecting⟩
  | delete d now at_ =>
    intro c
    have here : Launches d { s.handlers d with pc := .returned } s.tasks s.launched :=
      (l d).goto (by simp [at_]) (.inl (by simp [at_])) (by simp) rfl (by simp [at_])
    have kept := handler d _ here c
    exact ⟨kept.idle,by simpa using kept.absent,kept.counted,by simpa using kept.connecting⟩
  | chat d payload now msg at_ decoded =>
    apply launch d
    apply (l d).launch (by simp [Handler.launched]) (by simp [at_]) (by simp [Handler.launched])
      _ (.inr (by simp [at_]))
    intro k other
    cases k with
    | connect => rfl
    | chat j =>
      have apart : j ≠ (s.handlers d).chats := by simpa using other
      simp only [Handler.launched,decide_eq_decide]
      omega
    | disconnect => rfl
  | announce d now at_ =>
    apply launch d
    apply (l d).launch (by simp [Handler.launched,at_]) (by simp) (by simp [Handler.launched]) _
      (.inr (by simp [at_]))
    intro k other
    cases k with
    | connect => simp [Handler.launched,at_]
    | chat k => rfl
    | disconnect => contradiction
  | leave d incoming now msg pc at_ out =>
    apply handler d
    rcases out with rfl | rfl <;>
      exact (l d).goto (by simp [at_]) (.inl (by simp [at_])) (by simp) rfl (by simp [at_])
  | close d now pc after ch at_ closed =>
    have before : 8 ≤ pc.rank := by cases pc <;> simp
    have later : 8 ≤ (afterClose after).rank := by cases after <;> simp [afterClose]
    exact handler d _ ((l d).goto (by simp [at_]; omega) (.inl (by simp [at_])) (by simp; omega) rfl
      (by simp [at_]; omega))
  | range o text spawned =>
    exact fun c => (l c).task (by simp [spawned,Task.running]) _ (by simp)
  | visit o y text range ranging =>
    exact fun c => (l c).task (by simp [ranging,Task.running]) _ (by simp)
  | send o y text range pc after ch ranging sent =>
    exact fun c => (l c).task (by simp [ranging,Task.running]) _ (by simp)
  | finish o text range ranging =>
    exact fun c => (l c).task (by simp [ranging,Task.running]) _ (by simp)
  | pop | drain | forward => exact l

section Clients

/-- The map holds the channel of each handler between `Store` and `Delete`, under its uuid. -/
structure Mapped (env : Env) (handlers : Conn → Handler) (clients : List (String × Conn)) :
    Prop where
  named : ∀ client ∈ clients, client.1 = env.uuid client.2
  stored : ∀ c, c ∈ clients.map Prod.snd ↔ (handlers c).pc.Stored

theorem Mapped.goto (mapped : Mapped env handlers clients) (d : Conn) (h : Handler)
    (same : h.pc.Stored ↔ (handlers d).pc.Stored) : Mapped env (replace handlers d h) clients := by
  apply Mapped.mk mapped.named
  exact replace_forall (R := fun c (h : Handler) => c ∈ clients.map Prod.snd ↔ h.pc.Stored)
    mapped.stored ((mapped.stored d).trans same.symm)

theorem Mapped.key (mapped : Mapped env handlers clients) {client : String × Conn}
    (member : client ∈ clients) : client.1 = env.uuid c ↔ client.2 = c := by
  rw [mapped.named client member]
  exact env.distinct.eq_iff

theorem Mapped.mem_filter (mapped : Mapped env handlers clients) (c d : Conn) :
    d ∈ (clients.filter fun client => client.1 ≠ env.uuid c).map Prod.snd ↔
      d ∈ clients.map Prod.snd ∧ d ≠ c := by
  simp only [List.mem_map,List.mem_filter,decide_eq_true_eq]
  constructor
  · rintro ⟨client,⟨member,other⟩,rfl⟩
    exact ⟨⟨client,member,rfl⟩,fun same => other ((mapped.key member).mpr same)⟩
  · rintro ⟨⟨client,member,rfl⟩,other⟩
    exact ⟨client,⟨member,fun same => other ((mapped.key member).mp same)⟩,rfl⟩

theorem Mapped.store (mapped : Mapped env handlers clients) (c : Conn) (h : Handler)
    (stored : h.pc.Stored) : Mapped env (replace handlers c h)
      ((clients.filter fun client => client.1 ≠ env.uuid c) ++ [(env.uuid c,c)]) := by
  constructor
  · intro client member
    rcases List.mem_append.mp member with old | new
    · exact mapped.named client (List.mem_of_mem_filter old)
    · rw [List.mem_singleton.mp new]
  · intro d
    rw [List.map_append,List.mem_append,mapped.mem_filter c d,mapped.stored d]
    by_cases same : d = c
    · subst same; simp [stored]
    · simp [same]

theorem Mapped.delete (mapped : Mapped env handlers clients) (c : Conn) (h : Handler)
    (gone : ¬h.pc.Stored) : Mapped env (replace handlers c h)
      (clients.filter fun client => client.1 ≠ env.uuid c) := by
  constructor
  · intro client member
    exact mapped.named client (List.mem_of_mem_filter member)
  · intro d
    rw [mapped.mem_filter c d,mapped.stored d]
    by_cases same : d = c
    · subst same; simp [gone]
    · simp [same]

theorem move_mapped (moved : Move env s e next) (mapped : Mapped env s.handlers s.clients) :
    Mapped env next.handlers next.clients := by
  cases moved with
  | accept d now at_ | broadcasted d now at_ | write d now at_
  | startWriter d now at_ | reply d now text at_ | announce d now at_ =>
    apply mapped.goto d
    simp [HandlerPc.Stored,at_]
  | chat d => exact mapped.goto d _ Iff.rfl
  | leave d incoming now msg pc at_ out =>
    apply mapped.goto d
    rcases out with rfl | rfl <;> simp [HandlerPc.Stored,at_]
  | close d now pc after ch at_ closed =>
    have ranks := close_rank closed
    have low : 8 ≤ pc.rank := by cases pc <;> simp
    have high : pc.rank ≤ 14 := by omega
    apply mapped.goto d
    simp only [HandlerPc.Stored,at_,rank_closing]
    omega
  | store d now at_ => exact mapped.store d _ (by simp [HandlerPc.Stored])
  | delete d now at_ => exact mapped.delete d _ (by simp [HandlerPc.Stored])
  | range | visit | send | finish | pop | drain | forward => exact mapped

end Clients

end Wschat.Go
