import Wschat.GoSends

/-! The invariant of the Go server, put together: it holds after every schedule. -/
namespace Wschat.Go

/-- How a step changes what has been sent to `y`: one `Send` puts its value there. -/
theorem move_sent (moved : Move env s e next) (y : Conn) :
    (next.channels y).sent = (s.channels y).sent ∨
      ∃ o text range, e = .send o ∧ s.tasks o = .ranging text range (some (y,.push)) ∧
        (next.channels y).sent = (s.channels y).sent ++ [⟨o,text⟩] := by
  cases moved with
  | close d now pc after ch at_ closed =>
    left
    by_cases same : y = d
    · subst same
      have kept : ch.sent = (s.channels y).sent := by cases Channel.close_step closed <;> rfl
      simpa using kept
    · simp [same]
  | send o z text range pc after ch ranging sent =>
    by_cases same : y = z
    · subst same
      simp only [State.setTask,State.setChannel,replace_same]
      cases Channel.send_step sent with
      | push => exact .inr ⟨o,text,range,rfl,ranging,rfl⟩
      | rLock | skip | proceed | panic | rUnlock => exact .inl rfl
    · left
      simp [same]
  | pop d item rest =>
    left
    by_cases same : y = d
    · subst same; simp
    · simp [same]
  | accept | broadcasted | write | store | startWriter | chat | leave | reply | announce | delete
  | range | visit | finish | drain | forward => exact .inl rfl

theorem move_seen (moved : Move env s e next) (mapped : Mapped env s.handlers s.clients)
    (seen : ∀ o y, (s.tasks o).Sees y → 4 ≤ (s.handlers y).pc.rank) :
    ∀ o y, (next.tasks o).Sees y → 4 ≤ (next.handlers y).pc.rank := by
  have up := move_rank moved
  have kept : ∀ o y, (s.tasks o).Sees y → 4 ≤ (next.handlers y).pc.rank := fun o y sees =>
    Nat.le_trans (seen o y sees) (up y)
  have task := fun o t here => replace_forall
    (R := fun _ (t : Task) => ∀ y, t.Sees y → 4 ≤ (next.handlers y).pc.rank) (a := o) (b := t)
    kept here
  cases moved with
  | accept | chat | announce => exact task _ _ (fun _ sees => sees.elim)
  | store d now at_ =>
    intro o y sees
    rcases stored_sees sees with rfl | before
    · simp
    · exact kept o y before
  | delete d now at_ =>
    intro o y sees
    exact kept o y (by simpa using sees)
  | range o text spawned =>
    apply task o
    intro y sees
    have member : y ∈ s.clients.map Prod.snd := by simpa [Task.Sees] using sees
    exact Nat.le_trans ((mapped.stored y).mp member).1 (up y)
  | visit o z text range ranging may =>
    apply task o
    intro y sees
    apply kept o y
    rw [ranging]
    rcases sees with inMap | visited
    · exact .inl inMap
    · rcases List.mem_cons.mp visited with rfl | before
      · exact .inl may
      · exact .inr before
  | send o z text range pc after ch ranging =>
    apply task o
    intro y sees
    apply kept o y
    rw [ranging]
    exact sees
  | finish o => exact task o _ (fun _ sees => sees.elim)
  | broadcasted | write | startWriter | leave | reply | close | pop | drain | forward => exact kept

/-- The text of a broadcast that has been launched and has not ended. -/
def Task.text? : Task → Option String
  | .spawned text | .ranging text _ _ => some text
  | .absent | .done => none

@[simp] theorem stored_text (t : Task) (c : Conn) : (t.stored c).text? = t.text? := by
  cases t <;> rfl
@[simp] theorem deleted_text (t : Task) (c : Conn) : (t.deleted c).text? = t.text? := by
  cases t <;> rfl

/-- Every text in use is the one its broadcast was launched with. -/
structure Genuine (s : State) : Prop where
  texts : ∀ o text, (s.tasks o).text? = some text → ⟨o,text⟩ ∈ s.launched
  sent : ∀ y, ∀ item ∈ (s.channels y).sent, item ∈ s.launched

theorem move_launched (moved : Move env s e next) (member : item ∈ s.launched) :
    item ∈ next.launched := by
  cases moved with
  | accept | chat | announce => exact List.mem_append_left _ member
  | broadcasted | write | store | startWriter | leave | reply | close | delete | range | visit
  | send | finish | pop | drain | forward => exact member

theorem move_texts (moved : Move env s e next) (genuine : Genuine s) :
    ∀ o text, (next.tasks o).text? = some text → ⟨o,text⟩ ∈ next.launched := by
  have kept : ∀ o text, (s.tasks o).text? = some text → ⟨o,text⟩ ∈ next.launched :=
    fun o text has => move_launched moved (genuine.texts o text has)
  have task := fun o t here => replace_forall
    (R := fun o (t : Task) => ∀ text, t.text? = some text → ⟨o,text⟩ ∈ next.launched)
    (a := o) (b := t) kept here
  cases moved with
  | accept | chat | announce =>
    apply task
    intro text has
    simp [Task.text?] at has
    simp [Wschat.Go.accept,has]
  | store d | delete d =>
    intro o text has
    apply kept o text
    simpa using has
  | range o text spawned =>
    apply task o
    intro text' has
    exact kept o text' (by rw [spawned]; exact has)
  | visit o z text range ranging | send o z text range pc after ch ranging =>
    apply task o
    intro text' has
    exact kept o text' (by rw [ranging]; exact has)
  | finish o =>
    apply task o
    intro text has
    contradiction
  | broadcasted | write | startWriter | leave | reply | close | pop | drain | forward => exact kept

theorem move_genuine (moved : Move env s e next) (genuine : Genuine s) : Genuine next := by
  apply Genuine.mk (move_texts moved genuine)
  intro y item member
  rcases move_sent moved y with same | ⟨o,text,range,-,ranging,grown⟩
  · rw [same] at member
    exact move_launched moved (genuine.sent y item member)
  · rw [grown] at member
    rcases List.mem_append.mp member with old | new
    · exact move_launched moved (genuine.sent y item old)
    · rw [List.mem_singleton.mp new]
      exact move_launched moved (genuine.texts o text (by rw [ranging]; rfl))

structure Sound (env : Env) (s : State) : Prop where
  flags : ∀ c, Flags (s.handlers c).pc (s.channels c)
  launches : ∀ c, Launches c (s.handlers c) s.tasks s.launched
  mapped : Mapped env s.handlers s.clients
  within : ∀ o, (s.tasks o).Within
  pairs : ∀ o y, Pair o y (s.tasks o) (s.channels y)
  seen : ∀ o y, (s.tasks o).Sees y → 4 ≤ (s.handlers y).pc.rank
  genuine : Genuine s

theorem start_sound (env : Env) : Sound env start where
  flags := fun c => by constructor <;> simp [start,newChannel]
  launches := fun c => by
    have none : ∀ k, (start.handlers c).launched k = false := by
      intro k
      cases k <;> simp [start,Handler.launched]
    constructor
    · simp [start]
    · simp [none]; simp [start]
    · simp [none]; simp [start]
    · simp [start,Task.running]
  mapped := ⟨by simp [start],by simp [start,HandlerPc.Stored]⟩
  within := fun o => trivial
  pairs := fun o y => by
    constructor <;> simp [start,newChannel,Task.Passed,Task.holds,Task.sending]
  seen := fun o y sees => sees.elim
  genuine := ⟨by simp [start,Task.text?],by simp [start,newChannel]⟩

theorem move_sound (moved : Move env s e next) (sound : Sound env s) : Sound env next where
  flags := move_flags moved sound.flags
  launches := move_launches moved sound.launches
  mapped := move_mapped moved sound.mapped
  within := move_within moved sound.within
  pairs := move_pairs sound.flags sound.launches sound.pairs sound.within moved
  seen := move_seen moved sound.mapped sound.seen
  genuine := move_genuine moved sound.genuine

theorem reaches_sound (reached : (machine env).Reaches es s) : Sound env s :=
  (machine env).invariant (Sound env) (start_sound env)
    (fun _ _ _ sound stepped => move_sound (step_move env _ _ _ stepped) sound) reached

/-- The connect of `y` is broadcast before `y` is in the map. -/
theorem own_connect_unsent (reached : (machine env).Reaches es s) (y : Conn) :
    ⟨y,.connect⟩ ∉ origins (s.channels y).sent := by
  apply (machine env).reaches_induction
    (motive := fun _ s => ⟨y,.connect⟩ ∉ origins (s.channels y).sent) _ _ reached
  · simp [machine,start,newChannel]
  · intro es s e next before unsent stepped
    have sound := reaches_sound before
    rcases move_sent (step_move env s next e stepped) y with same | ⟨o,text,range,-,ranging,grown⟩
    · rw [same]; exact unsent
    · rw [grown,origins,List.map_append,List.mem_append]
      rintro (old | new)
      · exact unsent old
      · have mine : (⟨y,.connect⟩ : Origin) = o := by simpa using new
        subst mine
        have visited := sound.within ⟨y,.connect⟩
        have seen := sound.seen ⟨y,.connect⟩ y
        have connecting := (sound.launches y).connecting
        rw [ranging] at visited seen connecting
        have late := seen (.inr (visited y .push rfl))
        simp [connecting rfl] at late

end Wschat.Go
