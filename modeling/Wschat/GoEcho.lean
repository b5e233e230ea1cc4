import Wschat.GoChats
import Wschat.GoProgress

/-! Nobody in the room of the Go server misses anything. A broadcast that is launched while a
client is in its receive loop visits its channel, and when the goroutines have nothing left to
do its text has been written to the client once. -/
namespace Wschat.Go

/-- The broadcast has not begun, has still to visit `y` or is at it, or has sent to `y`. -/
def Hears (o : Origin) (y : Conn) (s : State) : Prop :=
  match s.tasks o with
  | .absent | .spawned _ => True
  | .ranging _ range _ => y ∈ range.must
  | .done => o ∈ origins (s.channels y).sent

section Hearing

variable {env : Env} {o : Origin} {y : Conn} {s next : State}

theorem hears_absent (absent : s.tasks o = .absent) : Hears o y s := by
  unfold Hears
  rw [absent]
  trivial

/-- A client that is in the map before and after a step, and whose channel is open, loses no
broadcast by it. -/
theorem move_hears (moved : Move env s e next) (sound : Sound env s)
    (stored : y ∈ s.clients.map Prod.snd) (stays : y ∈ next.clients.map Prod.snd)
    (open_ : (s.channels y).closed = false) (hears : Hears o y s) : Hears o y next := by
  have kept (same : next.tasks o = s.tasks o) : Hears o y next := by
    unfold Hears at hears ⊢
    rw [same]
    cases task : s.tasks o with
    | absent | spawned => trivial
    | ranging => simpa [task] using hears
    | done =>
      have sent : o ∈ origins (s.channels y).sent := by simpa [task] using hears
      exact ((move_sent_front moved y).map Item.origin).subset sent
  have launch (c : Conn) (k : Kind) (text : String)
      (tasks : next.tasks = replace s.tasks ⟨c,k⟩ (.spawned text)) : Hears o y next := by
    by_cases same : o = ⟨c,k⟩
    · unfold Hears
      rw [tasks,same,replace_same]
      trivial
    · exact kept (by rw [tasks,replace_other _ _ _ _ same])
  have task (o' : Origin) (t : Task) (tasks : next.tasks = replace s.tasks o' t)
      (here : o = o' → Hears o y next) : Hears o y next := by
    by_cases same : o = o'
    · exact here same
    · exact kept (by rw [tasks,replace_other _ _ _ _ same])
  cases moved with
  | accept c now at_ => exact launch c .connect _ rfl
  | chat c payload now msg at_ accepted => exact launch c (.chat _) _ rfl
  | announce c now at_ => exact launch c .disconnect _ rfl
  | store c now at_ =>
    cases before : s.tasks o with
    | ranging text range sending => simpa [Hears,State.goto,State.store,before,Task.stored] using hears
    | absent | spawned | done =>
      exact kept (by simp [State.goto,State.store,before,Task.stored])
  | delete c now at_ =>
    have other := ((sound.mapped.mem_filter c y).mp stays).2
    cases before : s.tasks o with
    | ranging text range sending =>
      have must : y ∈ range.must := by simpa [Hears,before] using hears
      simpa [Hears,State.goto,State.delete,before,Task.deleted,other] using must
    | absent | spawned | done =>
      exact kept (by simp [State.goto,State.delete,before,Task.deleted])
  | range o' text spawned =>
    refine task o' _ rfl ?_
    rintro rfl
    simpa [Hears,State.setTask] using stored
  | visit o' z text range ranging | send o' z text range pc after ch ranging =>
    refine task o' _ rfl ?_
    rintro rfl
    simpa [Hears,State.setTask,ranging] using hears
  | finish o' text range ranging complete =>
    refine task o' _ rfl ?_
    rintro rfl
    have must : y ∈ range.must := by simpa [Hears,ranging] using hears
    have passed : (s.tasks o).Passed y := by
      rw [ranging]
      exact ⟨complete y must,by simp⟩
    have once := (sound.pairs o y).passed passed open_
    have sent : o ∈ origins (s.channels y).sent := List.count_pos_iff.mp (by omega)
    simpa [Hears,State.setTask] using sent
  | broadcasted | write | startWriter | leave | reply | close | pop | drain | forward => exact kept rfl

theorem rank_receiving_iff (pc : HandlerPc) : pc.rank = 5 ↔ pc = .receiving := by
  cases pc with
  | closing pc => cases pc <;> simp
  | _ => simp

theorem run_rank (ran : (machine env).run es s = some final) (c : Conn) :
    (s.handlers c).pc.rank ≤ (final.handlers c).pc.rank :=
  (machine env).run_invariant (fun t => (s.handlers c).pc.rank ≤ (t.handlers c).pc.rank)
    (fun _ e next up stepped => up.trans (move_rank (step_move env _ next e stepped) c)) (Nat.le_refl _) ran

/-- What one step keeps of a client in its receive loop. -/
theorem receiving_hears (reached : (machine env).Reaches es s) (stepped : (machine env).step s e = some next)
    (at_ : (s.handlers y).pc = .receiving) (still : (next.handlers y).pc = .receiving)
    (hears : Hears o y s) : Hears o y next := by
  have sound := reaches_sound reached
  have moved := step_move env s next e stepped
  have stored := (sound.mapped.stored y).mpr (by simp [HandlerPc.Stored,at_])
  have stays := ((move_sound moved sound).mapped.stored y).mpr (by simp [HandlerPc.Stored,still])
  have open_ : (s.channels y).closed = false := by simp [(sound.flags y).closed,at_]
  exact move_hears moved sound stored stays open_ hears

theorem run_hears (reached : (machine env).Reaches es s) (ran : (machine env).run fs s = some final)
    (at_ : (s.handlers y).pc = .receiving) (still : (final.handlers y).pc = .receiving)
    (hears : Hears o y s) : Hears o y final := by
  induction fs generalizing es s with
  | nil =>
    obtain rfl := Option.some.inj ran
    exact hears
  | cons e fs ih =>
    obtain ⟨next,stepped,rest⟩ := ((machine env).run_cons e fs s final).mp ran
    -- The rank only rises, so it is the same all the way.
    have up := move_rank (step_move env s next e stepped) y
    have later := run_rank rest y
    rw [at_,rank_receiving] at up
    rw [still,rank_receiving] at later
    have between : (next.handlers y).pc = .receiving := (rank_receiving_iff _).mp (by omega)
    exact ih (((machine env).reaches_concat es e next).mpr ⟨s,reached,stepped⟩) rest between
      (receiving_hears reached stepped at_ between hears)

theorem reaches_launched (ran : (machine env).run es s = some final) (member : item ∈ s.launched) :
    item ∈ final.launched :=
  (machine env).run_invariant (fun t => item ∈ t.launched)
    (fun _ e next inside stepped => move_launched (step_move env _ next e stepped) inside) member ran

/-- A chat of `y` is only launched while `y` is in its receive loop. -/
theorem own_absent (reached : (machine env).Reaches es s) (frames : acceptedFrames env.lib y es = [])
    (k : Nat) : s.tasks ⟨y,.chat k⟩ = .absent := by
  by_contra started
  obtain ⟨item,launched,named⟩ := List.mem_map.mp (mem_origins (reaches_sound reached) started)
  have texts := (reaches_told reached y).texts
  rw [frames,replay,List.map_nil] at texts
  have chat : item.chat? y = some item.text := by
    obtain ⟨origin,text⟩ := item
    simp only at named
    simp [Item.chat?,named]
  have member : item.text ∈ chatTexts y s.launched := List.mem_filterMap.mpr ⟨item,launched,chat⟩
  simp [texts] at member

theorem own_hears (reached : (machine env).Reaches es s) (at_ : (s.handlers y).pc.rank ≤ 5) (k : Nat) :
    Hears ⟨y,.chat k⟩ y s := by
  refine (machine env).reaches_induction
    (motive := fun _ s => (s.handlers y).pc.rank ≤ 5 → Hears ⟨y,.chat k⟩ y s)
    (fun _ => hears_absent rfl) ?_ reached at_
  intro es s e next before hears stepped low
  have after := ((machine env).reaches_concat es e next).mpr ⟨s,before,stepped⟩
  have up := move_rank (step_move env s next e stepped) y
  by_cases none_ : acceptedFrames env.lib y (es ++ [e]) = []
  · exact hears_absent (own_absent after none_ k)
  · have high : 5 ≤ (s.handlers y).pc.rank := by
      cases frame : e.frame? y with
      | none =>
        rw [acceptedFrames_quiet env.lib frame] at none_
        by_contra early
        exact none_ ((reaches_told before y).early (by omega))
      | some f =>
        obtain rfl := frame_some frame
        have moved : Move env s (.receive y (.frame f.1) f.2) next := step_move env s next _ stepped
        cases moved with
        | chat _ _ _ _ at_ => simp [at_]
        | leave _ _ _ _ _ at_ => simp [at_]
    exact receiving_hears before stepped ((rank_receiving_iff _).mp (by omega))
      ((rank_receiving_iff _).mp (by omega)) (hears (by omega))

/-- A client hears what is launched after it has been seen in its receive loop. -/
theorem present_hears (early : (machine env).Reaches before u) (ran : (machine env).run after u = some s)
    (present : (u.handlers y).pc = .receiving) (still : (s.handlers y).pc = .receiving)
    (launched : item ∈ s.launched) (later : item ∉ u.launched) : Hears item.origin y s := by
  have whole := ((machine env).reaches_append before after s).mpr ⟨u,early,ran⟩
  have absent : u.tasks item.origin = .absent := by
    by_contra started
    obtain ⟨old,member,named⟩ := List.mem_map.mp (mem_origins (reaches_sound early) started)
    have same : old = item := List.inj_on_of_nodup_map (origins_nodup (reaches_sound whole))
      (reaches_launched ran member) launched named
    exact later (same ▸ member)
  exact run_hears early ran present still (hears_absent absent)

/-- In a quiet state, what a client in its receive loop hears has been written to it once. -/
theorem hears_written (reached : (machine env).Reaches es s) (quiet : s.Quiet)
    (at_ : (s.handlers y).pc = .receiving) (launched : item ∈ s.launched)
    (hears : Hears item.origin y s) :
    (forwarded (s.wire y)).filter (fun i => i.origin = item.origin) = [item] := by
  have sound := reaches_sound reached
  rw [Hears,quiet.broadcasts item launched] at hears
  obtain ⟨text,genuine,once⟩ := sent_once reached (List.count_pos_iff.mpr hears)
  have same : (⟨item.origin,text⟩ : Item) = item :=
    List.inj_on_of_nodup_map (origins_nodup sound) genuine launched rfl
  rw [quiet.written y (by simp [at_]),once,same]

end Hearing

/-- Whatever is broadcast while a client is in its receive loop, by whomever, has been written
to the client exactly once when every goroutine has done what it can. -/
theorem room_hears (env : Env) (before after : List Event) (u s : State) (y : Conn) (item : Item)
    (reached : (machine env).Reaches before u) (ran : (machine env).run after u = some s)
    (quiet : s.Quiet) (present : (u.handlers y).pc = .receiving)
    (still : (s.handlers y).pc = .receiving) (launched : item ∈ s.launched)
    (later : item ∉ u.launched) :
    (forwarded (s.wire y)).filter (fun i => i.origin = item.origin) = [item] := by
  have whole := ((machine env).reaches_append before after s).mpr ⟨u,reached,ran⟩
  exact hears_written whole quiet still launched (present_hears reached ran present still launched later)

def Task.ended : Task → Bool
  | .done => true
  | _ => false

/-- `Quiet`, as a test. -/
def State.quietCheck (s : State) : Bool :=
  s.launched.all (fun item => (s.tasks item.origin).ended) && s.conns.all fun c =>
    ((s.handlers c).pc = .receiving || ((s.handlers c).pc = .returned && s.writers c = .done)) &&
      forwarded (s.wire c) = (s.channels c).sent

theorem quiet_of_check (reached : (machine env).Reaches es s) (checked : s.quietCheck = true) : s.Quiet := by
  have sound := reaches_sound reached
  simp only [State.quietCheck,Bool.and_eq_true,List.all_eq_true,Bool.or_eq_true,decide_eq_true_eq]
    at checked
  obtain ⟨broadcasts,conns⟩ := checked
  have going (c : Conn) (began : 0 < (s.handlers c).pc.rank) := conns c ((mem_conns sound).mpr began)
  refine ⟨fun item member => ?_,fun c began => ?_,fun c began => (going c began).2,fun c at_ => ?_⟩
  · have ended := broadcasts item member
    cases task : s.tasks item.origin <;> simp [Task.ended,task] at ended
    rfl
  · rcases (going c began).1 with at_ | ⟨at_,-⟩
    · exact .inl at_
    · exact .inr at_
  · rcases (going c (by simp [at_])).1 with other | ⟨-,done⟩
    · simp [at_] at other
    · exact done

/-- Client 0 is in its receive loop, and client 1 joins. -/
theorem joined_runs : ((machine .numbered).run (join 0 []) start).any (fun u =>
    decide ((u.handlers 0).pc = .receiving) && u.launched.all (fun item => item.origin ≠ ⟨1,.connect⟩) &&
      ((machine .numbered).run (join 1 [0] ++ [.writer 0,.writer 0]) u).any fun s =>
        decide ((s.handlers 0).pc = .receiving) && s.quietCheck &&
          s.launched.any fun item => item.origin = ⟨1,.connect⟩) = true := by decide +kernel

theorem joined_heard : ∃ s item, (machine .numbered).Reaches (join 0 [] ++ (join 1 [0] ++ [.writer 0,.writer 0])) s ∧
    item.origin = ⟨1,.connect⟩ ∧
    (forwarded (s.wire 0)).filter (fun i => i.origin = item.origin) = [item] := by
  obtain ⟨u,reached,checked⟩ := (Option.any_eq_true _ _).mp joined_runs
  simp only [Bool.and_eq_true,decide_eq_true_eq,List.all_eq_true] at checked
  obtain ⟨⟨present,fresh⟩,checked⟩ := checked
  obtain ⟨s,ran,checked⟩ := (Option.any_eq_true _ _).mp checked
  simp only [Bool.and_eq_true,decide_eq_true_eq,List.any_eq_true] at checked
  obtain ⟨⟨still,quiet⟩,item,launched,named⟩ := checked
  have whole := ((machine .numbered).reaches_append (join 0 []) _ s).mpr ⟨u,reached,ran⟩
  exact ⟨s,item,whole,named,room_hears .numbered (join 0 []) _ u s 0 item reached ran
    (quiet_of_check whole quiet) present still launched fun old => fresh item old named⟩

end Wschat.Go
