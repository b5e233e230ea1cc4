import Wschat.GoClosing
import Wschat.Workers

/-! The goroutines of the Go server get done: between two frames or connections they take a
bounded number of steps, in whatever order, and are never all blocked. -/
namespace Wschat.Go

open Workers

/-- The event comes from the server and not from a client. -/
def Event.isInner : Event → Bool
  | .accept _ _ | .receive _ _ _ => false
  | _ => true

/-- The clients accepted so far. -/
def State.conns (s : State) : List Conn :=
  (origins s.launched).filterMap fun o => if o.kind = .connect then some o.conn else none

/-- The handler has still to store its channel. -/
def HandlerPc.stores (pc : HandlerPc) : Nat := if pc.rank ≤ 3 then 1 else 0

def State.stores (s : State) : Nat := (s.conns.map fun c => (s.handlers c).pc.stores).sum

/-- Keys that a `Range` call may find from now on. -/
def State.keys (s : State) : Nat := s.clients.length + s.stores

/-- Steps of a `Send`, and of the writer goroutine for the value it buffers. -/
def SendPc.work : SendPc → Nat
  | .rLock => 6
  | .load => 5
  | .push => 4
  | .rUnlock => 1
  | .returned | .panicked => 0

def Range.unvisited (range : Range) : Nat := (range.may.filter (· ∉ range.visited)).length

def Task.work (keys stores : Nat) : Task → Nat
  | .absent | .done => 0
  | .spawned _ => 7 * keys + 2
  | .ranging _ range sending =>
    7 * (range.unvisited + stores) + 1 + ((sending.map fun sending => sending.2.work).getD 0)

/-- Statements of a handler, its last broadcast included. -/
def HandlerPc.work (keys : Nat) (pc : HandlerPc) : Nat :=
  2 * (16 - pc.rank) + if pc.rank ≤ 7 then 7 * keys + 2 else 0

def WriterPc.work : WriterPc → Nat
  | .absent | .done => 0
  | .receiving => 1
  | .writing _ => 2

/-- What the handler and the writer goroutine of `c` have to do. -/
def State.clientWork (s : State) (c : Conn) : Nat :=
  (s.handlers c).pc.work s.keys + 2 * (s.channels c).buffer.length + (s.writers c).work

def State.taskWork (s : State) (o : Origin) : Nat := (s.tasks o).work s.keys s.stores

/-- Steps that the goroutines can take, all together, without a new frame or client. -/
def State.work (s : State) : Nat :=
  (s.conns.map s.clientWork).sum + ((origins s.launched).map s.taskWork).sum

section Lists

theorem count_launched (sound : Sound env s) (c : Conn) (k : Kind) :
    (origins s.launched).count ⟨c,k⟩ = ((s.handlers c).launched k).toNat :=
  (sound.launches c).counted k

theorem origins_nodup (sound : Sound env s) : (origins s.launched).Nodup := by
  rw [List.nodup_iff_count_le_one]
  rintro ⟨c,k⟩
  have counted := count_launched sound c k
  have := Bool.toNat_le ((s.handlers c).launched k)
  omega

theorem conns_nodup (sound : Sound env s) : s.conns.Nodup := by
  refine (origins_nodup sound).filterMap ?_
  rintro ⟨c,k⟩ ⟨d,j⟩ e one two
  cases k <;> cases j <;> simp at one two
  rw [one,two]

theorem mem_conns (sound : Sound env s) : c ∈ s.conns ↔ 0 < (s.handlers c).pc.rank := by
  have counted := count_launched sound c .connect
  simp only [Handler.launched] at counted
  rw [State.conns,List.mem_filterMap]
  constructor
  · rintro ⟨⟨d,k⟩,member,eq⟩
    cases k <;> simp at eq
    subst eq
    have := List.count_pos_iff.mpr member
    by_contra idle
    simp only [idle,decide_false,Bool.toNat_false] at counted
    omega
  · intro going
    refine ⟨⟨c,.connect⟩,?_,by simp⟩
    apply List.count_pos_iff.mp
    simp only [going,decide_true,Bool.toNat_true] at counted
    omega

theorem mem_origins (sound : Sound env s) (started : s.tasks o ≠ .absent) :
    o ∈ origins s.launched := by
  obtain ⟨c,k⟩ := o
  have counted := count_launched sound c k
  have launched : (s.handlers c).launched k = true := by
    by_contra fresh
    exact started (((sound.launches c).absent k).mpr (by simpa using fresh))
  rw [launched] at counted
  apply List.count_pos_iff.mp
  simp only [Bool.toNat_true] at counted
  omega

end Lists

theorem task_work_mono (keys : k ≤ k') (stores : n ≤ n') (t : Task) : t.work k n ≤ t.work k' n' := by
  cases t <;> simp [Task.work] <;> omega

theorem handler_work_mono (keys : k ≤ k') (pc : HandlerPc) : pc.work k ≤ pc.work k' := by
  unfold HandlerPc.work
  split <;> omega

/-- A handler that goes on has less to do, apart from what it launches. -/
theorem handler_work_up {pc pc' : HandlerPc} (up : pc.rank < pc'.rank) (bound : pc'.rank ≤ 15)
    (keys : Nat) : pc'.work keys + 2 ≤ pc.work keys := by
  unfold HandlerPc.work
  split <;> split <;> omega

/-- The step launches nothing, and no more keys are to come. -/
structure Shrinks (s next : State) : Prop where
  launched : next.launched = s.launched
  keys : next.keys ≤ s.keys
  stores : next.stores ≤ s.stores

section Shrinks

variable {s next : State}

theorem conns_of_launched (same : next.launched = s.launched) : next.conns = s.conns := by
  rw [State.conns,State.conns,same]

theorem stores_le (moved : Move env s e next) (same : next.conns = s.conns) :
    next.stores ≤ s.stores := by
  rw [State.stores,State.stores,same]
  refine List.sum_le_sum fun c _ => ?_
  have up := move_rank moved c
  unfold HandlerPc.stores
  split <;> split <;> omega

theorem Shrinks.of_clients (moved : Move env s e next) (launched : next.launched = s.launched)
    (clients : next.clients.length ≤ s.clients.length) : Shrinks s next := by
  have stores := stores_le moved (conns_of_launched launched)
  exact ⟨launched,by rw [State.keys,State.keys]; omega,stores⟩

theorem Shrinks.task (shrinks : Shrinks s next) (same : next.tasks o = s.tasks o) :
    next.taskWork o ≤ s.taskWork o := by
  rw [State.taskWork,State.taskWork,same]
  exact task_work_mono shrinks.keys shrinks.stores _

theorem Shrinks.client (shrinks : Shrinks s next) (handlers : next.handlers c = s.handlers c)
    (channels : next.channels c = s.channels c) (writers : next.writers c = s.writers c) :
    next.clientWork c ≤ s.clientWork c := by
  have less := handler_work_mono shrinks.keys (s.handlers c).pc
  rw [State.clientWork,State.clientWork,handlers,channels,writers]
  omega

/-- A step of the handler or the writer goroutine of `d`. -/
theorem Shrinks.client_drop (shrinks : Shrinks s next) (member : d ∈ s.conns)
    (others : ∀ c, c ≠ d → next.handlers c = s.handlers c ∧ next.channels c = s.channels c ∧
      next.writers c = s.writers c)
    (here : (next.handlers d).pc.work s.keys + 2 * (next.channels d).buffer.length +
      (next.writers d).work < s.clientWork d)
    (tasks : ∀ o, next.taskWork o ≤ s.taskWork o) : next.work < s.work := by
  have less : next.clientWork d + 1 ≤ s.clientWork d := by
    have mono := handler_work_mono shrinks.keys (next.handlers d).pc
    rw [State.clientWork]
    omega
  have clients : (s.conns.map next.clientWork).sum + 1 ≤ (s.conns.map s.clientWork).sum := by
    refine sum_drop_one member 1 (fun c _ => ?_) less
    by_cases same : c = d
    · subst same; omega
    · obtain ⟨handlers,channels,writers⟩ := others c same
      exact shrinks.client handlers channels writers
  have sums : ((origins s.launched).map next.taskWork).sum ≤
      ((origins s.launched).map s.taskWork).sum := List.sum_le_sum fun o _ => tasks o
  rw [State.work,State.work,conns_of_launched shrinks.launched,shrinks.launched]
  omega

/-- A step of the broadcast `o`, which may give the writer goroutine of `y` a value. -/
theorem Shrinks.task_drop (shrinks : Shrinks s next) (sound : Sound env s) (k : Nat)
    (member : o ∈ origins s.launched) (tasks : ∀ o', o' ≠ o → next.tasks o' = s.tasks o')
    (handlers : next.handlers = s.handlers) (writers : next.writers = s.writers)
    (channels : ∀ c, c ≠ y → next.channels c = s.channels c)
    (buffer : 2 * (next.channels y).buffer.length ≤ 2 * (s.channels y).buffer.length + k)
    (here : (next.tasks o).work s.keys s.stores + k < (s.tasks o).work s.keys s.stores) :
    next.work < s.work := by
  have clients : (s.conns.map next.clientWork).sum ≤ (s.conns.map s.clientWork).sum + k := by
    refine sum_le_one (a := y) (conns_nodup sound) k (fun c _ other => ?_) ?_
    · exact shrinks.client (by rw [handlers]) (channels c other) (by rw [writers])
    · have less := handler_work_mono shrinks.keys (s.handlers y).pc
      rw [State.clientWork,State.clientWork,handlers,writers]
      omega
  have sums : ((origins s.launched).map next.taskWork).sum + (k + 1) ≤
      ((origins s.launched).map s.taskWork).sum := by
    have less : next.taskWork o + (k + 1) ≤ s.taskWork o := by
      have mono := task_work_mono shrinks.keys shrinks.stores (next.tasks o)
      rw [State.taskWork,State.taskWork]
      omega
    refine sum_drop_one member (k + 1) (fun o' _ => ?_) less
    by_cases same : o' = o
    · subst same; omega
    · exact shrinks.task (tasks o' same)
  rw [State.work,State.work,conns_of_launched shrinks.launched,shrinks.launched]
  omega

end Shrinks

/-- A handler goes to its next statement and changes nothing else that is counted. -/
theorem goto_drop (moved : Move env s e next) (sound : Sound env s)
    (launched : next.launched = s.launched) (clients : next.clients.length ≤ s.clients.length)
    (began : 0 < (s.handlers d).pc.rank) (up : (s.handlers d).pc.rank < (next.handlers d).pc.rank)
    (others : ∀ c, c ≠ d → next.handlers c = s.handlers c ∧ next.channels c = s.channels c ∧
      next.writers c = s.writers c)
    (buffer : (next.channels d).buffer = (s.channels d).buffer)
    (writer : (next.writers d).work ≤ (s.writers d).work + 1)
    (tasks : ∀ o, next.tasks o = s.tasks o ∨ next.tasks o = (s.tasks o).deleted d) :
    next.work < s.work := by
  have shrinks := Shrinks.of_clients moved launched clients
  refine shrinks.client_drop ((mem_conns sound).mpr began) others ?_ (fun o => ?_)
  · have less := handler_work_up up (rank_le _) s.keys
    rw [State.clientWork,buffer]
    omega
  · rcases tasks o with same | cut
    · exact shrinks.task same
    · have less := task_work_mono shrinks.keys shrinks.stores (s.tasks o)
      rw [State.taskWork,State.taskWork,cut]
      cases task : s.tasks o with
      | ranging text range sending => simpa [task,Task.deleted,Task.work,Range.unvisited] using less
      | absent | spawned | done => simpa only [task,Task.deleted] using less

/-- A step of `Send` pays for itself and for the value it may put into the buffer. -/
theorem send_work {channel channel' : Channel Origin Item}
    (sent : channel.send o item pc = some (channel',next)) :
    ∃ k, 2 * channel'.buffer.length ≤ 2 * channel.buffer.length + k ∧
      next.work + (k + 1) ≤ pc.work := by
  cases Channel.send_step sent with
  | push => exact ⟨2,by simp; omega,by simp [SendPc.work]⟩
  | rLock | skip | proceed | panic | rUnlock => exact ⟨0,by simp,by simp [SendPc.work]⟩

theorem unvisited_visit {range : Range} (may : y ∈ range.may) (fresh : y ∉ range.visited) :
    ({ range with visited := y :: range.visited } : Range).unvisited < range.unvisited := by
  unfold Range.unvisited
  have fewer : (range.may.filter (· ∉ y :: range.visited)).Sublist
      (range.may.filter (· ∉ range.visited)) := by
    refine List.monotone_filter_right _ fun z => ?_
    simp
  refine lt_of_le_of_ne fewer.length_le fun same => ?_
  have eq := fewer.eq_of_length same
  have inside : y ∈ range.may.filter (· ∉ range.visited) := by simp [may,fresh]
  rw [← eq] at inside
  simp at inside

/-- The new key is visited by the `Range` calls under way at most. -/
theorem stored_work (t : Task) (keys stores : Nat) :
    (t.stored c).work keys stores ≤ t.work keys (stores + 1) := by
  cases t with
  | ranging text range sending =>
    have longer : (({ range with may := c :: range.may } : Range)).unvisited ≤
        range.unvisited + 1 := by
      unfold Range.unvisited
      rw [List.filter_cons]
      split <;> simp
    simp only [Task.stored,Task.work]
    omega
  | absent | spawned | done => simp [Task.stored,Task.work]

theorem store_drop (moved : Move env s e ((s.store (env.uuid c) c).goto c .launching))
    (sound : Sound env s) (at_ : (s.handlers c).pc = .storing) :
    ((s.store (env.uuid c) c).goto c .launching).work < s.work := by
  have member : c ∈ s.conns := (mem_conns sound).mpr (by simp [at_])
  have launched : ((s.store (env.uuid c) c).goto c .launching).launched = s.launched := rfl
  have conns := conns_of_launched launched
  have stores : ((s.store (env.uuid c) c).goto c .launching).stores + 1 ≤ s.stores := by
    rw [State.stores,State.stores,conns]
    refine sum_drop_one member 1 (fun d _ => ?_) (by simp [HandlerPc.stores,at_])
    have up := move_rank moved d
    unfold HandlerPc.stores
    split <;> split <;> omega
  have clients : ((s.store (env.uuid c) c).goto c .launching).clients.length ≤
      s.clients.length + 1 := by
    have less := List.length_filter_le (fun client => client.1 ≠ env.uuid c) s.clients
    simp only [State.store,State.goto,List.length_append,List.length_singleton]
    omega
  have shrinks : Shrinks s ((s.store (env.uuid c) c).goto c .launching) :=
    ⟨launched,by rw [State.keys,State.keys]; omega,by omega⟩
  refine shrinks.client_drop member (fun d other => ⟨by simp [other],rfl,rfl⟩) ?_ (fun o => ?_)
  · have up : HandlerPc.storing.rank < HandlerPc.launching.rank := by simp
    have less := handler_work_up up (by simp) s.keys
    simp [State.clientWork,at_]
    omega
  · have here := stored_work (s.tasks o) (c := c)
      ((s.store (env.uuid c) c).goto c .launching).keys
      ((s.store (env.uuid c) c).goto c .launching).stores
    exact Nat.le_trans here (task_work_mono shrinks.keys stores _)

/-- The disconnect is paid for by the handler that launches it. -/
theorem announce_drop (moved : Move env s e ((s.launch env ⟨c,.disconnect⟩ msg).goto c (.closing .swap)))
    (sound : Sound env s) (at_ : (s.handlers c).pc = .announcing) :
    ((s.launch env ⟨c,.disconnect⟩ msg).goto c (.closing .swap)).work < s.work := by
  have member : c ∈ s.conns := (mem_conns sound).mpr (by simp [at_])
  have absent : s.tasks ⟨c,.disconnect⟩ = .absent :=
    ((sound.launches c).absent .disconnect).mpr (by simp [Handler.launched,at_])
  generalize eq : (s.launch env ⟨c,.disconnect⟩ msg).goto c (.closing .swap) = next at moved ⊢
  have origins_ : origins next.launched = origins s.launched ++ [⟨c,.disconnect⟩] := by
    simp [← eq]
  have conns : next.conns = s.conns := by
    rw [State.conns,origins_,List.filterMap_append]
    simp [State.conns]
  have stores := stores_le moved conns
  have keys : next.keys ≤ s.keys := by
    have same : next.clients = s.clients := by simp [← eq]
    rw [State.keys,State.keys,same]
    omega
  have fresh : (⟨c,.disconnect⟩ : Origin) ∉ origins s.launched := by
    intro there
    have counted := count_launched sound c .disconnect
    have positive := List.count_pos_iff.mpr there
    simp only [Handler.launched,at_,rank_announcing,Nat.lt_irrefl,decide_false,Bool.toNat_false]
      at counted
    omega
  have channels : next.channels = s.channels := by simp [← eq]
  have writers : next.writers = s.writers := by simp [← eq]
  have here : next.clientWork c + (7 * s.keys + 3) ≤ s.clientWork c := by
    have there : (next.handlers c).pc = .closing .swap := by simp [← eq]
    rw [State.clientWork,State.clientWork,there,at_,channels,writers]
    simp [HandlerPc.work]
    omega
  have clients : (s.conns.map next.clientWork).sum + (7 * s.keys + 3) ≤
      (s.conns.map s.clientWork).sum := by
    refine sum_drop_one member _ (fun d _ => ?_) here
    by_cases same : d = c
    · subst same; omega
    · have less := handler_work_mono keys (s.handlers d).pc
      have handlers : next.handlers d = s.handlers d := by simp [← eq,same]
      rw [State.clientWork,State.clientWork,handlers,channels,writers]
      omega
  have others : ((origins s.launched).map next.taskWork).sum ≤
      ((origins s.launched).map s.taskWork).sum := by
    refine List.sum_le_sum fun o inside => ?_
    have other : o ≠ ⟨c,.disconnect⟩ := by
      rintro rfl
      exact fresh inside
    have same : next.tasks o = s.tasks o := by simp [← eq,other]
    rw [State.taskWork,State.taskWork,same]
    exact task_work_mono keys stores _
  have mine : next.taskWork ⟨c,.disconnect⟩ = 7 * next.keys + 2 := by
    have there : next.tasks ⟨c,.disconnect⟩ = .spawned (marshal env.lib msg) := by simp [← eq]
    rw [State.taskWork,there,Task.work]
  rw [State.work,State.work,conns,origins_,List.map_append,List.sum_append]
  simp only [List.map_cons,List.map_nil,List.sum_cons,List.sum_nil,mine]
  omega

/-- Every step of the server costs at least one. -/
theorem step_work (reached : (machine env).Reaches es s) (inner : e.isInner = true)
    (stepped : step env s e = some next) : next.work < s.work := by
  have sound := reaches_sound reached
  have greeted := (reaches_streams reached).1
  have moved := step_move env s next e stepped
  cases id moved with
  | accept | chat | leave => simp [Event.isInner] at inner
  | broadcasted d now at_ | write d now at_ | reply d now text at_ =>
    refine goto_drop moved sound rfl (Nat.le_refl _) (d := d) (by simp [at_]) (by simp [at_])
      (fun c other => ⟨by simp [other],rfl,rfl⟩) rfl (by simp) (fun _ => .inl rfl)
  | startWriter d now at_ =>
    refine goto_drop moved sound rfl (Nat.le_refl _) (d := d) (by simp [at_]) (by simp [at_])
      (fun c other => ⟨by simp [other],rfl,by simp [other]⟩) rfl (by simp [WriterPc.work])
      (fun _ => .inl rfl)
  | store d now at_ => exact store_drop moved sound at_
  | announce d now at_ => exact announce_drop moved sound at_
  | close d now pc after ch at_ closed =>
    refine goto_drop moved sound rfl (Nat.le_refl _) (d := d) ?_ ?_
      (fun c other => ⟨by simp [other],by simp [other],rfl⟩) ?_ (by simp) (fun _ => .inl rfl)
    · cases pc <;> simp [at_]
    · simpa [at_] using (close_rank closed).1
    · simpa using (close_flow closed).1
  | delete d now at_ =>
    exact goto_drop moved sound rfl (List.length_filter_le _ _) (d := d) (by simp [at_])
      (by simp [at_]) (fun c other => ⟨by simp [other],rfl,rfl⟩) rfl (by simp) (fun _ => .inr rfl)
  | range o text spawned =>
    refine (Shrinks.of_clients moved rfl (Nat.le_refl _)).task_drop sound 0 (o := o) (y := o.conn)
      (mem_origins sound (by simp [spawned])) (fun o' other => by simp [other]) rfl rfl
      (fun _ _ => rfl) (by simp) ?_
    simp [spawned,Task.work,Range.unvisited,State.keys]
  | visit o y text range ranging may fresh =>
    refine (Shrinks.of_clients moved rfl (Nat.le_refl _)).task_drop sound 0 (o := o) (y := y)
      (mem_origins sound (by simp [ranging])) (fun o' other => by simp [other]) rfl rfl
      (fun _ _ => rfl) (by simp) ?_
    have fewer := unvisited_visit may fresh
    simp [ranging,Task.work,SendPc.work]
    omega
  | send o y text range pc after ch ranging sent =>
    obtain ⟨k,buffer,less⟩ := send_work sent
    refine (Shrinks.of_clients moved rfl (Nat.le_refl _)).task_drop sound k (o := o) (y := y)
      (mem_origins sound (by simp [ranging])) (fun o' other => by simp [other]) rfl rfl
      (fun c other => by simp [other]) (by simpa using buffer) ?_
    simp only [State.setTask,replace_same,ranging,Task.work]
    split
    · simp; omega
    · simp; omega
  | finish o text range ranging =>
    refine (Shrinks.of_clients moved rfl (Nat.le_refl _)).task_drop sound 0 (o := o) (y := o.conn)
      (mem_origins sound (by simp [ranging])) (fun o' other => by simp [other]) rfl rfl
      (fun _ _ => rfl) (by simp) ?_
    simp [ranging,Task.work]
  | pop d item rest at_ full =>
    have shrinks := Shrinks.of_clients moved rfl (Nat.le_refl _)
    have late := (greeted d).late (by simp [at_])
    refine shrinks.client_drop (d := d) ((mem_conns sound).mpr (by omega))
      (fun c other => ⟨rfl,by simp [other],by simp [other]⟩) ?_ (fun o => shrinks.task rfl)
    simp [State.clientWork,at_,full,WriterPc.work]
    omega
  | drain d at_ | forward d item at_ =>
    have shrinks := Shrinks.of_clients moved rfl (Nat.le_refl _)
    have late := (greeted d).late (by simp [at_])
    refine shrinks.client_drop (d := d) ((mem_conns sound).mpr (by omega))
      (fun c other => ⟨rfl,rfl,by simp [other]⟩) ?_ (fun o => shrinks.task rfl)
    simp [State.clientWork,at_,WriterPc.work]

/-- A `Range` call has still to see what it must visit, and is in a `Send` that goes on. -/
def Task.Steady : Task → Prop
  | .ranging _ range sending => (∀ y ∈ range.must, y ∈ range.may) ∧
    ∀ y pc, sending = some (y,pc) → pc ≠ .returned ∧ pc ≠ .panicked
  | _ => True

theorem reaches_steady (reached : (machine env).Reaches es s) : ∀ o, (s.tasks o).Steady := by
  refine (machine env).reaches_induction (motive := fun _ s => ∀ o, (s.tasks o).Steady) ?_ ?_ reached
  · exact fun _ => trivial
  · intro es s e next before steady stepped
    have task := fun o t here => replace_forall (R := fun _ (t : Task) => t.Steady) (a := o)
      (b := t) steady here
    cases step_move env s next e stepped with
    | accept | chat | announce => exact task _ _ trivial
    | store d now at_ =>
      intro o
      have here := steady o
      simp only [State.store,State.goto]
      cases ranging : s.tasks o with
      | ranging text range sending =>
        rw [ranging] at here
        exact ⟨fun y must => List.mem_cons_of_mem _ (here.1 y must),here.2⟩
      | absent | spawned | done => trivial
    | delete d now at_ =>
      intro o
      have here := steady o
      simp only [State.delete,State.goto]
      cases ranging : s.tasks o with
      | ranging text range sending =>
        rw [ranging] at here
        exact ⟨fun y must => here.1 y (List.mem_filter.mp must).1,here.2⟩
      | absent | spawned | done => trivial
    | range o text spawned => exact task o _ ⟨fun _ => id,fun _ _ none_ => by contradiction⟩
    | visit o y text range ranging may fresh =>
      have here := steady o
      rw [ranging] at here
      refine task o _ ⟨here.1,fun z pc sending => ?_⟩
      obtain ⟨-,rfl⟩ := Prod.mk.inj (Option.some.inj sending)
      exact ⟨SendPc.noConfusion,SendPc.noConfusion⟩
    | send o y text range pc after ch ranging sent =>
      have here := steady o
      rw [ranging] at here
      have calm := reaches_calm ((Machine.reaches_concat _ es (.send o) _).mpr ⟨s,before,stepped⟩)
      refine task o _ ⟨here.1,fun z pc' sending => ?_⟩
      split at sending
      · contradiction
      · next going =>
        obtain ⟨-,rfl⟩ := Prod.mk.inj (Option.some.inj sending)
        exact ⟨going,by simpa using calm⟩
    | finish o => exact task o _ trivial
    | broadcasted | write | startWriter | leave | reply | close | pop | drain | forward =>
      exact steady

/-- Nothing is sent to a channel that is shut. -/
theorem send_shut {channel channel' : Channel Origin Item} (shut : channel.shut = true)
    (sent : channel.send o item pc = some (channel',next)) : channel'.buffer = channel.buffer := by
  cases Channel.send_step sent with
  | push unshut => simp [shut] at unshut
  | rLock | skip | proceed | panic | rUnlock => rfl

/-- A writer goroutine that has ended leaves nothing behind. -/
theorem done_empty (reached : (machine env).Reaches es s) (c : Conn) (done : s.writers c = .done) :
    (s.channels c).buffer = [] := by
  refine (machine env).reaches_induction
    (motive := fun _ s => ∀ c, s.writers c = .done → (s.channels c).buffer = []) ?_ ?_ reached c done
  · exact fun c done => by simp [machine,start] at done
  · intro es s e next before empty stepped
    have served := reaches_served before
    cases step_move env s next e stepped with
    | startWriter d now at_ =>
      exact replace_forall (R := fun c w => w = WriterPc.done → (s.channels c).buffer = []) empty
        (by simp)
    | close d now pc after ch at_ closed =>
      refine replace_forall (R := fun c (ch : Channel Origin Item) => s.writers c = .done →
        ch.buffer = []) empty ?_
      intro done
      rw [(close_flow closed).1]
      exact empty d done
    | send o y text range pc after ch ranging sent =>
      refine replace_forall (R := fun c (ch : Channel Origin Item) => s.writers c = .done →
        ch.buffer = []) empty ?_
      intro done
      rw [send_shut ((served y).drained done) sent]
      exact empty y done
    | pop d item rest at_ full =>
      intro c done
      by_cases same : c = d
      · subst same; simp at done
      · simp only [State.setWriter,State.setChannel,replace_other _ _ _ _ same] at done ⊢
        exact empty c done
    | drain d at_ quiet shut =>
      exact replace_forall (R := fun c w => w = WriterPc.done → (s.channels c).buffer = []) empty
        (fun _ => quiet)
    | forward d item at_ =>
      exact replace_forall (R := fun c w => w = WriterPc.done → (s.channels c).buffer = []) empty
        (by simp)
    | accept | broadcasted | write | store | chat | leave | reply | announce | delete | range
    | visit | finish => exact empty

/-- No goroutine can take a step. -/
def State.Stuck (env : Env) (s : State) : Prop := ∀ e, e.isInner = true → step env s e = none

section Stuck

variable {env : Env} {es : List Event} {s : State} (reached : (machine env).Reaches es s)
  (stuck : s.Stuck env)

include reached stuck

theorem stuck_writer (c : Conn) : s.writers c = .absent ∨ s.writers c = .done ∨
    s.writers c = .receiving ∧ (s.channels c).buffer = [] ∧ (s.channels c).shut = false := by
  have blocked := stuck (.writer c) rfl
  simp only [step,reaches_calm reached,writerStep,Bool.false_eq_true,if_false] at blocked
  cases at_ : s.writers c with
  | absent => exact .inl rfl
  | done => exact .inr (.inl rfl)
  | writing item => simp [at_] at blocked
  | receiving =>
    refine .inr (.inr ⟨rfl,?_⟩)
    simp only [at_,Option.map_eq_none_iff,Channel.receive] at blocked
    split at blocked
    · contradiction
    · next empty => exact ⟨empty,by simpa using blocked⟩

/-- A `Send` that has the lock, or can get it, is not what holds the others up. -/
theorem stuck_sending (task : s.tasks o = .ranging text range (some (y,pc)))
    (late : 4 < (s.handlers y).pc.rank) :
    pc = .rLock ∧ (s.channels y).readable = false := by
  have blocked := stuck (.send o) rfl
  have steady := reaches_steady reached o
  rw [task] at steady
  obtain ⟨going,calm⟩ := steady.2 y pc rfl
  have served := reaches_served reached y
  simp only [step,reaches_calm reached,task,sendStep,Bool.false_eq_true,if_false,
    Option.map_eq_none_iff] at blocked
  cases pc with
  | returned => exact absurd rfl going
  | panicked => exact absurd rfl calm
  | load | rUnlock => simp [Channel.send] at blocked
  | rLock => exact ⟨rfl,by simpa [Channel.send] using blocked⟩
  | push =>
    simp only [Channel.send] at blocked
    rcases stuck_writer reached stuck y with absent | done | ⟨-,empty,-⟩
    · exact absurd absent (served.started late)
    · simp [served.drained done] at blocked
    · split at blocked
      · contradiction
      · simp [empty,served.capacity] at blocked

theorem stuck_handler (c : Conn) : (s.handlers c).pc = .absent ∨ (s.handlers c).pc = .broadcasting ∨
    (s.handlers c).pc = .receiving ∨ (s.handlers c).pc = .returned := by
  have blocked := stuck (.handle c 0) rfl
  have flags := (reaches_sound reached).flags c
  simp only [step,reaches_calm reached,handle,Bool.false_eq_true,if_false] at blocked
  cases at_ : (s.handlers c).pc with
  | absent => exact .inl rfl
  | broadcasting => exact .inr (.inl rfl)
  | receiving => exact .inr (.inr (.inl rfl))
  | returned => exact .inr (.inr (.inr rfl))
  | writing | storing | launching | replying | announcing | deleting => simp [at_] at blocked
  | closing pc =>
    obtain ⟨closed,waiting,writing,shut,going,-⟩ := flags
    simp only [at_,Option.map_eq_none_iff] at blocked closed waiting writing shut going
    cases pc with
    | returned | panicked => simp at going
    | swap | unlock => simp [Channel.close] at blocked
    | lock =>
      simp at waiting writing
      simp [Channel.close,Channel.readable,waiting,writing] at blocked
    | close =>
      simp only [Channel.close] at blocked
      split at blocked <;> contradiction
    | acquire =>
      -- a reader of the lock is a `Send` past `RLock`, and that is not stuck
      simp only [Channel.close] at blocked
      split at blocked
      · contradiction
      · next held =>
        obtain ⟨o,rest,readers⟩ := List.exists_cons_of_ne_nil held
        have holding := ((reaches_sound reached).pairs o c).holding
        rw [readers,List.count_cons_self] at holding
        have inside : (s.tasks o).holds c = true := by
          by_contra free
          simp only [Bool.not_eq_true] at free
          simp [free] at holding
        simp only [Task.holds] at inside
        cases task : s.tasks o with
        | absent | spawned | done => simp [task,Task.sending] at inside
        | ranging text range sending =>
          rcases sending with _ | ⟨y,pc⟩
          · simp [task,Task.sending] at inside
          · simp only [task,Task.sending,Bool.and_eq_true,decide_eq_true_eq] at inside
            obtain ⟨rfl,holds⟩ := inside
            obtain ⟨rfl,-⟩ := stuck_sending reached stuck task (by simp [at_])
            contradiction

theorem stuck_task (o : Origin) : s.tasks o = .absent ∨ s.tasks o = .done := by
  have sound := reaches_sound reached
  have calm := reaches_calm reached
  cases task : s.tasks o with
  | absent => exact .inl rfl
  | done => exact .inr rfl
  | spawned text =>
    have blocked := stuck (.range o) rfl
    simp [step,calm,task] at blocked
  | ranging text range sending =>
    have seen := sound.seen o
    have steady := reaches_steady reached o
    rw [task] at seen steady
    rcases sending with _ | ⟨y,pc⟩
    · have unfinished := stuck (.finish o) rfl
      simp only [step,calm,task,Bool.false_eq_true,if_false] at unfinished
      split at unfinished
      · contradiction
      · next left_ =>
        simp only [List.all_eq_true,decide_eq_true_eq,not_forall] at left_
        obtain ⟨y,must,fresh⟩ := left_
        have unvisited := stuck (.visit o y) rfl
        simp [step,calm,task,steady.1 y must,fresh] at unvisited
    · have within := sound.within o
      rw [task] at within
      have stored := seen y (.inr (within y pc rfl))
      have flags := sound.flags y
      have late : 4 < (s.handlers y).pc.rank := by
        rcases stuck_handler reached stuck y with at_ | at_ | at_ | at_ <;> simp [at_] at stored ⊢
      obtain ⟨-,locked⟩ := stuck_sending reached stuck task late
      simp only [Channel.readable,flags.waiting,flags.writing] at locked
      rcases stuck_handler reached stuck y with at_ | at_ | at_ | at_ <;> simp [at_] at stored locked

end Stuck

/-- Between two frames: every broadcast is over, every handler waits for its client or has
returned, and what has been sent to a channel has been written out. -/
structure State.Quiet (s : State) : Prop where
  broadcasts : ∀ item ∈ s.launched, s.tasks item.origin = .done
  handlers : ∀ c, 0 < (s.handlers c).pc.rank →
    (s.handlers c).pc = .receiving ∨ (s.handlers c).pc = .returned
  written : ∀ c, 0 < (s.handlers c).pc.rank → forwarded (s.wire c) = (s.channels c).sent
  writers : ∀ c, (s.handlers c).pc = .returned → s.writers c = .done

theorem quiet_of_stuck (reached : (machine env).Reaches es s) (stuck : s.Stuck env) : s.Quiet := by
  have sound := reaches_sound reached
  have handlers (c : Conn) (going : 0 < (s.handlers c).pc.rank) :
      (s.handlers c).pc = .receiving ∨ (s.handlers c).pc = .returned := by
    rcases stuck_handler reached stuck c with at_ | at_ | at_ | at_
    · simp [at_] at going
    · have blocked := stuck (.handle c 0) rfl
      rcases stuck_task reached stuck ⟨c,.connect⟩ with absent | done
      · have launched := ((sound.launches c).absent .connect).mp absent
        simp [Handler.launched,at_] at launched
      · simp [step,reaches_calm reached,handle,at_,done] at blocked
    · exact .inl at_
    · exact .inr at_
  have started (c : Conn) (going : 0 < (s.handlers c).pc.rank) : s.writers c ≠ .absent := by
    refine (reaches_served reached c).started ?_
    rcases handlers c going with at_ | at_ <;> simp [at_]
  refine ⟨fun item member => ?_,handlers,fun c going => ?_,fun c at_ => ?_⟩
  · rcases stuck_task reached stuck item.origin with absent | done
    · obtain ⟨⟨d,k⟩,text⟩ := item
      have quiet := ((sound.launches d).absent k).mp absent
      have counted := count_launched sound d k
      have there : (⟨d,k⟩ : Origin) ∈ origins s.launched := List.mem_map_of_mem member
      have := List.count_pos_iff.mpr there
      rw [quiet,Bool.toNat_false] at counted
      omega
    · exact done
  · have flow := (reaches_streams reached).2 c
    unfold Flow at flow
    rcases stuck_writer reached stuck c with absent | done | ⟨at_,empty,-⟩
    · exact absurd absent (started c going)
    · rw [done,done_empty reached c done] at flow
      simpa [WriterPc.pending] using flow
    · rw [at_,empty] at flow
      simpa [WriterPc.pending] using flow
  · rcases stuck_writer reached stuck c with absent | done | ⟨-,-,open_⟩
    · exact absurd absent (started c (by simp [at_]))
    · exact done
    · have shut := (sound.flags c).shut
      simp [at_,open_] at shut

/-- Whatever the order in which the goroutines go on, without a new frame or client they take
at most `work` steps, are never all blocked before everything is broadcast and written, and
some order gets them there. -/
theorem goroutines_finish (env : Env) (es : List Event) (s : State)
    (reached : (machine env).Reaches es s) :
    (∀ fs final, (∀ e ∈ fs, e.isInner = true) → (machine env).run fs s = some final →
      fs.length ≤ s.work ∧
        (final.Quiet ∨ ∃ e, e.isInner = true ∧ ((machine env).step final e).isSome = true)) ∧
    ∃ fs final, (∀ e ∈ fs, e.isInner = true) ∧ (machine env).run fs s = some final ∧
      final.Quiet := by
  have here : (machine env).Reachable s := ⟨es,reached⟩
  have down (s : State) (e : Event) (next : State) (inside : (machine env).Reachable s)
      (inner : e.isInner = true) (stepped : (machine env).step s e = some next) :
      (machine env).Reachable next ∧ next.work < s.work := by
    obtain ⟨es,reached⟩ := inside
    exact ⟨⟨es ++ [e],(Machine.reaches_concat _ es e next).mpr ⟨s,reached,stepped⟩⟩,
      step_work reached inner stepped⟩
  have progress (s : State) (inside : (machine env).Reachable s) (busy : ¬s.Quiet) :
      ∃ e, e.isInner = true ∧ ((machine env).step s e).isSome = true := by
    obtain ⟨es,reached⟩ := inside
    by_contra none_
    refine busy (quiet_of_stuck reached fun e inner => ?_)
    by_contra some_
    exact none_ ⟨e,inner,Option.isSome_iff_ne_none.mpr some_⟩
  constructor
  · intro fs final all ran
    obtain ⟨inside,bound⟩ := (machine env).run_bounded State.work (machine env).Reachable
      (fun e => e.isInner = true) down here all ran
    refine ⟨by omega,?_⟩
    by_cases quiet : final.Quiet
    · exact .inl quiet
    · exact .inr (progress final inside quiet)
  · obtain ⟨fs,final,all,ran,-,quiet⟩ := (machine env).run_to State.work (machine env).Reachable
      (fun e => e.isInner = true) down State.Quiet progress s here
    exact ⟨fs,final,all,ran,quiet⟩

/-- Client 0 is being stored while the connect of client 1 is about to be broadcast. -/
theorem joining_finishes : ∃ s fs final,
    (machine .numbered).Reaches [.accept 0 0,.range ⟨0,.connect⟩,.finish ⟨0,.connect⟩,
      .handle 0 0,.handle 0 0,.accept 1 0] s ∧
      (machine .numbered).run fs s = some final ∧ final.Quiet := by
  have runs : ((machine .numbered).run [.accept 0 0,.range ⟨0,.connect⟩,.finish ⟨0,.connect⟩,
      .handle 0 0,.handle 0 0,.accept 1 0] start).isSome = true := by decide +kernel
  obtain ⟨s,ran⟩ := Option.isSome_iff_exists.mp runs
  obtain ⟨fs,final,-,further,quiet⟩ := (goroutines_finish .numbered _ s ran).2
  exact ⟨s,fs,final,ran,further,quiet⟩

end Wschat.Go
