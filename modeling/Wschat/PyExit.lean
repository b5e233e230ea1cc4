import Wschat.PyHandlers

/-! Leaving the handler of the Python server. The code after the receive loop runs on every
exit but two: the first `send_text` to the client raises, or a frame is no JSON and the
error reply, which is not a string, raises inside the except clause. -/
namespace Wschat.Py

theorem expectStr_exc (read : expectStr key value = .error exc) : exc ≠ .jsonDecodeError := by
  unfold expectStr at read
  split at read <;> simp at read
  rw [← read]
  simp

theorem expectInt_exc (read : expectInt key value = .error exc) : exc ≠ .jsonDecodeError := by
  unfold expectInt at read
  split at read <;> simp at read
  rw [← read]
  simp

theorem setAction_exc (read : setAction action = .error exc) : exc ≠ .jsonDecodeError := by
  unfold setAction at read
  split at read
  · split at read <;> simp at read
    rw [← read]
    simp
  · simp at read
    rw [← read]
    simp

theorem fromDict_exc (read : fromDict d = .error exc) : exc ≠ .jsonDecodeError := by
  unfold fromDict at read
  split at read
  · rcases bind_error read with bad | ⟨sender,-,read⟩
    · exact expectStr_exc bad
    rcases bind_error read with bad | ⟨action,-,read⟩
    · exact expectStr_exc bad
    rcases bind_error read with bad | ⟨contents,-,read⟩
    · exact expectStr_exc bad
    rcases bind_error read with bad | ⟨timestamp,-,read⟩
    · exact expectInt_exc bad
    rcases bind_error read with bad | ⟨known,-,read⟩
    · exact setAction_exc bad
    · contradiction
  · cases read
    simp

/-- Only the parser raises a `JSONDecodeError`. -/
theorem fromJson_jsonDecodeError (lib : JsonModule) (frame : String) :
    fromJson lib frame = .error .jsonDecodeError ↔ lib.loads frame = .error .jsonDecodeError := by
  unfold fromJson
  constructor
  · intro read
    rcases bind_error read with bad | ⟨d,-,read⟩
    · exact bad
    · exact absurd rfl (fromDict_exc read)
  · intro bad
    rw [bad]
    rfl

/-- `c` receives a text that is no JSON. -/
def Event.BadJson (lib : JsonModule) (c : Conn) (e : Event) : Prop :=
  ∃ frame now, e = .received c (.text frame) now ∧ lib.loads frame = .error .jsonDecodeError

/-- The error reply is being sent, or has raised. -/
def Pc.Replied (pc : Pc) : Prop := pc = .replying ∨ pc = .returned .replyRaised

theorem advance_pc (advanced : Advance s c index text kind next) (d : Conn) :
    d ≠ c ∧ (next.handlers d).pc = (s.handlers d).pc ∨
      d = c ∧ (next.handlers d).pc ≠ .returned .greetingRaised ∧ ¬(next.handlers d).pc.Replied := by
  by_cases same : d = c
  · subst same
    right
    refine ⟨rfl,?_⟩
    cases advanced <;> simp [State.goto,Pc.Replied]
  · left
    refine ⟨same,?_⟩
    cases advanced <;> simp [State.goto,State.sendText,same]

theorem enter_other (s : State) (kind : Kind) (text : String) (h : Handler) (other : d ≠ c) :
    (({ s with handlers := replace s.handlers c h }.enter c kind text).handlers d).pc =
      (s.handlers d).pc := by
  simp [State.enter,State.goto,State.record,other]

/-- Which steps lead to the two exits that skip the code after the loop. -/
theorem move_exit (moved : Move env s e next) (c : Conn) :
    ((next.handlers c).pc = .returned .greetingRaised ↔
      (s.handlers c).pc = .returned .greetingRaised ∨ e = .greeted c true) ∧
    ((next.handlers c).pc.Replied ↔ (s.handlers c).pc.Replied ∨ e.BadJson env.lib c) := by
  -- the actor `d` goes to `pc`
  have goto : ∀ d pc clients,
      (pc = .returned .greetingRaised ↔ (s.handlers d).pc = .returned .greetingRaised ∨
        e = .greeted d true) →
      (pc.Replied ↔ (s.handlers d).pc.Replied ∨ e.BadJson env.lib d) →
      (∀ c, c ≠ d → e ≠ .greeted c true ∧ ¬e.BadJson env.lib c) →
      ((({ s with clients := clients }.goto d pc).handlers c).pc = .returned .greetingRaised ↔
        (s.handlers c).pc = .returned .greetingRaised ∨ e = .greeted c true) ∧
      ((({ s with clients := clients }.goto d pc).handlers c).pc.Replied ↔
        (s.handlers c).pc.Replied ∨ e.BadJson env.lib c) := by
    intro d pc clients greeting reply others
    by_cases same : c = d
    · subst same
      simpa [State.goto] using ⟨greeting,reply⟩
    · obtain ⟨first,second⟩ := others c same
      simp [State.goto,same,first,second]
  -- the actor `d` is in a broadcast afterwards
  have advance : ∀ d t kind index text, Advance t d index text kind next →
      (∀ c, c ≠ d → (t.handlers c).pc = (s.handlers c).pc) →
      (s.handlers d).pc ≠ .returned .greetingRaised → ¬(s.handlers d).pc.Replied →
      (∀ c, e ≠ .greeted c true ∧ ¬e.BadJson env.lib c) →
      ((next.handlers c).pc = .returned .greetingRaised ↔
        (s.handlers c).pc = .returned .greetingRaised ∨ e = .greeted c true) ∧
      ((next.handlers c).pc.Replied ↔ (s.handlers c).pc.Replied ∨ e.BadJson env.lib c) := by
    intro d t kind index text advanced kept raised replied others
    obtain ⟨first,second⟩ := others c
    rcases advance_pc advanced c with ⟨other,same⟩ | ⟨rfl,greeting,reply⟩
    · simp [same,kept c other,first,second]
    · simp [greeting,reply,raised,replied,first,second]
  cases moved with
  | connect d at_ | acceptRaised d now at_ | replied d at_ =>
    apply goto d _ s.clients <;> simp [at_,Pc.Replied,Event.BadJson]
  | greetingRaised d at_ =>
    apply goto d _ s.clients <;> simp [at_,Pc.Replied,Event.BadJson]
    exact fun c other => Ne.symm other
  | add d at_ =>
    apply goto d _ (s.clients ++ [d]) <;> simp [at_,Pc.Replied,Event.BadJson]
  | badJson d frame now at_ read =>
    have bad := (fromJson_jsonDecodeError env.lib frame).mp read
    apply goto d _ s.clients <;> simp [at_,Pc.Replied,Event.BadJson,bad]
    rintro c other rfl
    exact absurd rfl other
  | announce d now text next at_ advanced =>
    rw [← replace_self s d] at advanced
    apply advance d _ _ _ _ advanced
    · exact fun c other => enter_other s _ _ _ other
    all_goals simp [at_,Pc.Replied,Event.BadJson]
  | chat d frame now msg text next at_ read text_ advanced =>
    have good : env.lib.loads frame ≠ .error .jsonDecodeError := by
      rw [Ne,← fromJson_jsonDecodeError,read]
      simp
    apply advance d _ _ _ _ advanced
    · exact fun c other => enter_other s _ _ _ other
    all_goals simp [at_,Pc.Replied,Event.BadJson]
    exact good
  | leave d result now text next at_ failed advanced =>
    rw [← replace_self s d] at advanced
    apply advance d _ _ _ _ advanced
    · exact fun c other => enter_other s _ _ _ other
    · simp [at_]
    · simp [at_,Pc.Replied]
    · intro c
      refine ⟨by simp,?_⟩
      rintro ⟨frame,now',eq,bad⟩
      cases eq
      obtain ⟨exc,read,other⟩ := failed frame rfl
      rw [(fromJson_jsonDecodeError env.lib frame).mpr bad] at read
      cases read
      exact other rfl
  | loop d raised kind index text next at_ advanced =>
    apply advance d _ _ _ _ advanced
    · exact fun _ _ => rfl
    all_goals simp [at_,Pc.Replied,Event.BadJson]

theorem reaches_exit (reached : (machine env).Reaches es s) (c : Conn) :
    ((s.handlers c).pc = .returned .greetingRaised ↔ .greeted c true ∈ es) ∧
      ((s.handlers c).pc.Replied ↔ ∃ e ∈ es, e.BadJson env.lib c) := by
  apply (machine env).reaches_induction (motive := fun es s =>
    ((s.handlers c).pc = .returned .greetingRaised ↔ .greeted c true ∈ es) ∧
      ((s.handlers c).pc.Replied ↔ ∃ e ∈ es, e.BadJson env.lib c)) _ _ reached
  · simp [machine,start,Pc.Replied]
  · intro es s e next _ ih stepped
    obtain ⟨greeting,reply⟩ := move_exit (step_move env s next e stepped) c
    constructor
    · rw [greeting,ih.1]
      simp [eq_comm]
    · rw [reply,ih.2]
      constructor
      · rintro (⟨e',member,bad⟩ | bad)
        · exact ⟨e',List.mem_append_left _ member,bad⟩
        · exact ⟨e,by simp,bad⟩
      · rintro ⟨e',member,bad⟩
        rcases List.mem_append.mp member with old | new
        · exact .inl ⟨e',old,bad⟩
        · rw [List.mem_singleton.mp new] at bad
          exact .inr bad

/-- What a client's leaving requires: it is out of the list, and its disconnect has been
broadcast once. -/
def CleanExit (s : State) (c : Conn) : Prop :=
  c ∉ s.clients ∧ (begunCalls s.calls).count ⟨c,.disconnect⟩ = 1

/-- A handler that has begun to broadcast its connect and has been left, by any path, has
left cleanly if and only if its greeting did not raise and no frame failed to parse. -/
theorem clean_exit_iff (env : Env) (es : List Event) (s : State) (c : Conn) (exit : Exit)
    (reached : (machine env).Reaches es s) (returned : (s.handlers c).pc = .returned exit)
    (begun : ⟨c,.connect⟩ ∈ begunCalls s.calls) :
    CleanExit s c ↔ .greeted c true ∉ es ∧ ∀ frame now, .received c (.text frame) now ∈ es →
      env.lib.loads frame ≠ .error .jsonDecodeError := by
  have life := (reaches_sound reached).life c
  obtain ⟨greeting,reply⟩ := reaches_exit reached c
  have frames : (∃ e ∈ es, e.BadJson env.lib c) ↔ ¬∀ frame now,
      .received c (.text frame) now ∈ es → env.lib.loads frame ≠ .error .jsonDecodeError := by
    constructor
    · rintro ⟨e,member,frame,now,rfl,bad⟩ good
      exact good frame now member bad
    · intro bad
      by_contra none
      apply bad
      intro frame now member failed
      exact none ⟨_,member,frame,now,rfl,failed⟩
  have left := life.counted .disconnect
  have connected := life.counted .connect
  rw [CleanExit,life.listed,left]
  rw [returned] at greeting reply
  rw [frames] at reply
  cases exit with
  | acceptRaised =>
    have zero : (begunCalls s.calls).count ⟨c,.connect⟩ = 0 := by
      rw [connected]
      simp [Handler.begun,returned,Pc.connected]
    exact absurd begun (List.count_eq_zero.mp zero)
  | removeRaised => exact absurd returned life.removed
  | greetingRaised =>
    have raised := greeting.mp rfl
    simp [Handler.begun,returned,Pc.left,raised]
  | replyRaised =>
    have bad := reply.mp (.inr rfl)
    simp [Handler.begun,returned,Pc.left,Pc.Listed,bad]
  | finished =>
    have quiet : .greeted c true ∉ es := fun raised => by simpa using greeting.mpr raised
    have good := not_not.mp (mt reply.mpr (by simp [Pc.Replied]))
    simp [Handler.begun,returned,Pc.left,Pc.Listed,quiet]
    exact good

/-- A client comes, sends `frame`, and its handler ends. -/
def visit (frame : String) (rest : List Event) : List Event :=
  [.connect 0,.accepted 0 false 1,.greeted 0 false,.received 0 (.text frame) 2] ++ rest

/-- A frame that is no JSON: the error reply raises. -/
def stray : List Event := visit "hello" [.replied 0]

/-- A frame that is JSON and no message: the loop is left, and the code after it runs. -/
def illTyped : List Event := visit "[]" [.sent 0 false]

theorem stray_runs : ((machine .numbered).run stray start).any (fun s =>
    decide ((s.handlers 0).pc = .returned .replyRaised) && decide (0 ∈ s.clients) &&
      decide (⟨0,.connect⟩ ∈ begunCalls s.calls)) = true := by
  decide +kernel

theorem illTyped_runs : ((machine .numbered).run illTyped start).any (fun s =>
    decide ((s.handlers 0).pc = .returned .finished) &&
      decide (⟨0,.connect⟩ ∈ begunCalls s.calls)) = true := by
  decide +kernel

theorem illTyped_clean : ∃ s, (machine .numbered).Reaches illTyped s ∧ CleanExit s 0 := by
  obtain ⟨s,ran,checked⟩ := (Option.any_eq_true _ _).mp illTyped_runs
  simp only [Bool.and_eq_true,decide_eq_true_eq] at checked
  refine ⟨s,ran,(clean_exit_iff .numbered illTyped s 0 .finished ran checked.1 checked.2).mpr ?_⟩
  refine ⟨by simp [illTyped,visit],?_⟩
  intro frame now member
  have sent : frame = "[]" := by
    simp [illTyped,visit] at member
    exact member.1
  subst sent
  have parsed : (match jsonModule.loads "[]" with | .ok _ => true | .error _ => false) = true := by
    decide +kernel
  intro failed
  have failed : jsonModule.loads "[]" = .error .jsonDecodeError := failed
  rw [failed] at parsed
  contradiction

/-- The room never sees that client leave. -/
theorem stray_stays : ¬∀ env es s c exit, (machine env).Reaches es s →
    (s.handlers c).pc = .returned exit → ⟨c,.connect⟩ ∈ begunCalls s.calls → CleanExit s c := by
  intro clean
  obtain ⟨s,ran,checked⟩ := (Option.any_eq_true _ _).mp stray_runs
  simp only [Bool.and_eq_true,decide_eq_true_eq] at checked
  obtain ⟨⟨returned,listed⟩,begun⟩ := checked
  exact (clean .numbered stray s 0 _ ran returned begun).1 listed

end Wschat.Py
