import Wschat.RustLog

/-! The first text of a client. Its connect comes back from the `Server` through the mailbox;
the error reply to a bad frame does not wait for it. -/
namespace Wschat.Rust

open Segment

def Written.text? : Written → Option String
  | .text sent => some sent
  | .pong _ | .close _ => none

/-- The texts written to the client. -/
def texts (written : List Written) : List String := written.filterMap Written.text?

/-- The first text, if there is one, is the connect of `c`. -/
def OwnFirst (env : Env) (c : Conn) (s : State) : Prop :=
  ∀ text, (texts (s.conns c).written).head? = some text →
    ∃ now, text = toString env.lib (.newSystem .connect (env.uuid c) now)

/-- The event is a text frame of `c` that `serde_json` rejects. -/
def Event.Bad (env : Env) (c : Conn) (e : Event) : Prop :=
  ∃ text now, e = .frame c (.text text) now ∧ fromStr env.lib text = none

/-- A bad frame of `c` is handled before its first `SerMsg`. -/
def Hasty (env : Env) (c : Conn) (es : List Event) : Prop :=
  ∃ before e after, es = before ++ e :: after ∧ e.Bad env c ∧ .serMsg c ∉ before

def badMessage (env : Env) (now : UInt64) : String :=
  toString env.lib (.newSystem .error "bad message" now)

section Kept

/-- What a `Conn` has handled and what it has written. -/
def ConnState.past (conn : ConnState) : List String × List Written := (conn.handled,conn.written)

@[simp] theorem receive_past (text : String) (conn : ConnState) :
    (conn.receive text).past = conn.past := by
  unfold ConnState.receive
  split <;> rfl

theorem modify_past (s : State) (c d : Conn) (f : ConnState → ConnState)
    (kept : ∀ conn, (f conn).past = conn.past) :
    ((s.modify c f).conns d).past = (s.conns d).past := by
  rw [modify_conns]
  split
  · next same => rw [kept,same]
  · rfl

theorem broadcast_past (text : String) (d : Conn) (l : List (String × Conn)) (s : State) :
    ((l.foldl (fun s client => s.modify client.2 (.receive text)) s).conns d).past =
      (s.conns d).past := by
  induction l generalizing s with
  | nil => rfl
  | cons client l ih =>
    rw [List.foldl_cons,ih]
    exact modify_past s client.2 d _ (receive_past text)

theorem serve_past (env : Env) (s : State) (now : UInt64) (msg : ToServer) (d : Conn) :
    ((s.serve env now msg).conns d).past = (s.conns d).past := by
  cases msg with
  | connect uuid recip =>
    have given := modify_past ((s.record (connectEntry env uuid now)).broadcastMsgText
      (connectEntry env uuid now).text) recip d _ (receive_past (connectEntry env uuid now).text)
    exact given.trans (broadcast_past _ d s.clients _)
  | message msg => exact broadcast_past _ d s.clients _
  | disconnect uuid => exact broadcast_past _ d s.clients _

end Kept

/-- What one step adds to the past of `c`. -/
inductive Adds (env : Env) (c : Conn) (e : Event) (conn next : ConnState) : Prop where
  | serMsg (text : String) : e = .serMsg c → next.handled = conn.handled ++ [text] →
      texts next.written = texts conn.written ++ [text] → Adds env c e conn next
  | reply (now : UInt64) : e.Bad env c → next.handled = conn.handled →
      texts next.written = texts conn.written ++ [badMessage env now] → Adds env c e conn next
  | nothing : e ≠ .serMsg c → ¬e.Bad env c → next.handled = conn.handled →
      texts next.written = texts conn.written → Adds env c e conn next

theorem handle_adds (env : Env) (c : Conn) (frame : Frame) (now : UInt64) (conn : ConnState) :
    Adds env c (.frame c frame now) conn (conn.handle env c frame now) := by
  cases frame with
  | text text =>
    cases read : fromStr env.lib text with
    | none =>
      apply Adds.reply now ⟨text,now,rfl,read⟩
      · simp [ConnState.handle,read,ConnState.write]
      · simp [ConnState.handle,read,ConnState.write,texts,Written.text?,badMessage]
    | some msg =>
      apply Adds.nothing (by simp)
      · rintro ⟨text',now',eq,none⟩
        obtain ⟨-,rfl,-⟩ : c = c ∧ text = text' ∧ now = now' := by simpa using eq
        simp [none] at read
      · simp [ConnState.handle,read,ConnState.send]
      · simp [ConnState.handle,read,ConnState.send]
  | ping | pong | binary | close | continuation | nop | error =>
    apply Adds.nothing (by simp)
    · rintro ⟨text,now',eq,-⟩
      simp at eq
    · simp [ConnState.handle,ConnState.write,ConnState.stop,ConnState.send]
    · simp [ConnState.handle,ConnState.write,ConnState.stop,ConnState.send,texts,Written.text?]

theorem Adds.unmoved (past : next.past = conn.past) (served : e ≠ .serMsg c)
    (fine : ¬Event.Bad env c e) : Adds env c e conn next := by
  obtain ⟨handled,written⟩ := Prod.mk.inj past
  exact .nothing served fine handled (by rw [written])

/-- A step of another connection's actor. -/
theorem Adds.modify (s : State) (f : ConnState → ConnState) (other : c ≠ d)
    (served : e ≠ .serMsg c) (fine : ¬Event.Bad env c e) :
    Adds env c e (s.conns c) ((s.modify d f).conns c) := by
  apply Adds.unmoved _ served fine
  rw [modify_conns,if_neg other]

theorem step_adds (env : Env) (s next : State) (e : Event) (c : Conn)
    (stepped : step env s e = some next) : Adds env c e (s.conns c) (next.conns c) := by
  cases e with
  | start d =>
    simp only [step,Option.ite_none_right_eq_some,Option.some.injEq] at stepped
    obtain ⟨-,rfl⟩ := stepped
    have kept := modify_past s d c (.started env d) fun _ => rfl
    exact .unmoved kept (by simp) (by simp [Event.Bad])
  | frame d frame now =>
    simp only [step,Option.ite_none_right_eq_some,Option.some.injEq] at stepped
    obtain ⟨-,rfl⟩ := stepped
    by_cases same : c = d
    · subst same
      simpa using handle_adds env c frame now (s.conns c)
    · apply Adds.modify s _ same (by simp)
      rintro ⟨text,now',eq,-⟩
      simp [Ne.symm same] at eq
  | serMsg d =>
    simp only [step] at stepped
    split at stepped
    case h_1 => contradiction
    case h_2 text rest waiting =>
      simp only [Option.ite_none_right_eq_some,Option.some.injEq] at stepped
      obtain ⟨-,rfl⟩ := stepped
      by_cases same : c = d
      · subst same
        apply Adds.serMsg text rfl
        · simp [ConnState.handleSerMsg,ConnState.write]
        · simp [ConnState.handleSerMsg,ConnState.write,texts,Written.text?]
      · exact .modify s _ same (by simp [Ne.symm same]) (by simp [Event.Bad])
  | finished d =>
    simp only [step,Option.ite_none_right_eq_some,Option.some.injEq] at stepped
    obtain ⟨-,rfl⟩ := stepped
    have kept := modify_past s d c (.stop env d) fun _ => rfl
    exact .unmoved kept (by simp) (by simp [Event.Bad])
  | serve d now =>
    simp only [step] at stepped
    split at stepped
    case h_1 => contradiction
    case h_2 msg rest waiting =>
      obtain rfl := Option.some.inj stepped
      have taken := modify_past s d c (fun conn => { conn with outgoing := rest }) fun _ => rfl
      exact .unmoved ((serve_past env _ now msg c).trans taken) (by simp) (by simp [Event.Bad])

/-- The first text is the first `SerMsg`, unless a bad frame has come before it. -/
structure Opening (env : Env) (c : Conn) (es : List Event) (conn : ConnState) : Prop where
  served : .serMsg c ∈ es ↔ conn.handled ≠ []
  patient : ¬Hasty env c es → (texts conn.written).head? = conn.handled.head?
  hasty : Hasty env c es → ∃ now, (texts conn.written).head? = some (badMessage env now)

theorem not_hasty_nil (env : Env) (c : Conn) : ¬Hasty env c [] := by
  rintro ⟨before,e,after,eq,-⟩
  simp at eq

theorem hasty_concat (env : Env) (c : Conn) (es : List Event) (e : Event) :
    Hasty env c (es ++ [e]) ↔ Hasty env c es ∨ (e.Bad env c ∧ .serMsg c ∉ es) := by
  constructor
  · rintro ⟨before,bad,after,eq,rejected,unserved⟩
    rcases List.eq_nil_or_concat after with rfl | ⟨more,last,rfl⟩
    · obtain ⟨rfl,same⟩ := List.append_inj' eq rfl
      obtain rfl := (List.cons.inj same).1
      exact .inr ⟨rejected,unserved⟩
    · have front : es = before ++ bad :: more := by
        rw [List.concat_eq_append,← List.cons_append,← List.append_assoc] at eq
        exact (List.append_inj' eq rfl).1
      exact .inl ⟨before,bad,more,front,rejected,unserved⟩
  · rintro (⟨before,bad,after,rfl,rejected,unserved⟩ | ⟨rejected,unserved⟩)
    · exact ⟨before,bad,after ++ [e],by simp,rejected,unserved⟩
    · exact ⟨es,e,[],rfl,rejected,unserved⟩

theorem Adds.opening (adds : Adds env c e conn next) (opening : Opening env c es conn) :
    Opening env c (es ++ [e]) next := by
  obtain ⟨served,patient,hasty⟩ := opening
  cases adds with
  | serMsg text isSerMsg handled written =>
    subst isSerMsg
    have fine : ¬Event.Bad env c (.serMsg c) := by simp [Event.Bad]
    constructor
    · simp [handled]
    · intro waits
      rw [hasty_concat] at waits
      have heads := patient fun hasty => waits (.inl hasty)
      simp [handled,written,List.head?_append,heads]
    · intro hastes
      rw [hasty_concat] at hastes
      obtain ⟨now,first⟩ := hasty (hastes.resolve_right fun bad => fine bad.1)
      exact ⟨now,by simp [written,List.head?_append,first]⟩
  | reply now bad handled written =>
    have other : .serMsg c ≠ e := by
      rintro rfl
      simp [Event.Bad] at bad
    constructor
    · simpa [handled,other] using served
    · intro waits
      rw [hasty_concat] at waits
      have heads := patient fun hasty => waits (.inl hasty)
      have begun : conn.handled ≠ [] := served.mp (by by_contra unserved; exact waits (.inr ⟨bad,unserved⟩))
      obtain ⟨first,rest,eq⟩ := List.exists_cons_of_ne_nil begun
      rw [eq] at heads
      simp [handled,written,List.head?_append,heads,eq]
    · intro hastes
      rw [hasty_concat] at hastes
      by_cases before : Hasty env c es
      · obtain ⟨now',first⟩ := hasty before
        exact ⟨now',by simp [written,List.head?_append,first]⟩
      · have unserved := (hastes.resolve_left before).2
        have empty : conn.handled = [] := by
          by_contra begun
          exact unserved (served.mpr begun)
        have heads := patient before
        exact ⟨now,by simp [written,List.head?_append,heads,empty]⟩
  | nothing unserved fine handled written =>
    have same : Hasty env c (es ++ [e]) ↔ Hasty env c es := by
      rw [hasty_concat]
      simp [fine]
    constructor
    · simpa [handled,Ne.symm unserved] using served
    · intro waits
      rw [written,handled]
      exact patient fun hasty => waits (same.mpr hasty)
    · intro hastes
      rw [written]
      exact hasty (same.mp hastes)

theorem reaches_opening (env : Env) (reached : (machine env).Reaches es s) (c : Conn) :
    Opening env c es (s.conns c) := by
  apply (machine env).reaches_induction
    (motive := fun es s => Opening env c es (s.conns c)) _ _ reached
  · constructor
    · simp [machine,start,ConnState.absent]
    · simp [machine,start,ConnState.absent,texts]
    · exact fun hasty => absurd hasty (not_hasty_nil env c)
  · intro es s e next before opening stepped
    exact (step_adds env s next e c stepped).opening opening

/-- The first thing that a connection handles is its own connect. -/
theorem handled_head (env : Env) (reached : (machine env).Reaches es s) (c : Conn)
    (first : (s.conns c).handled.head? = some text) :
    ∃ now, text = toString env.lib (.newSystem .connect (env.uuid c) now) := by
  have valid := consistent env reached
  obtain ⟨more,whole⟩ := (valid.conns c).handled
  obtain ⟨later,handled⟩ := List.head?_eq_some_iff.mp first
  rw [handled,share,List.cons_append] at whole
  obtain ⟨e,rest,starts,rfl,-⟩ := List.map_eq_cons_iff.mp whole.symm
  have opening := segment_head _ _ _ starts
  have inside : e ∈ s.log := (segment_isInfix _ _ _).subset (by rw [starts]; exact List.mem_cons_self)
  obtain ⟨d,now,msg,belongs,rfl⟩ := valid.genuine e inside
  simp only [opens,decide_eq_true_eq,entryOf_kind] at opening
  cases msg with
  | connect uuid recip => exact ⟨now,by rw [← opening.2]; rfl⟩
  | message | disconnect => simp [ToServer.kind] at opening

theorem badMessage_other (env : Env) (uuid : String) (now at_ : UInt64) :
    badMessage env now ≠ toString env.lib (.newSystem .connect uuid at_) := by
  intro same
  have parsed := congrArg env.lib.parse same
  rw [badMessage,toString,toString,env.lib.parse_print,env.lib.parse_print] at parsed
  simp [serialize,Message.newSystem,Action.asStr] at parsed

theorem own_first_iff (env : Env) (es : List Event) (s : State) (c : Conn)
    (reached : (machine env).Reaches es s) : OwnFirst env c s ↔ ¬Hasty env c es := by
  have opening := reaches_opening env reached c
  constructor
  · intro own hasty
    obtain ⟨now,first⟩ := opening.hasty hasty
    obtain ⟨at_,same⟩ := own _ first
    exact badMessage_other env (env.uuid c) now at_ same
  · intro patient text first
    rw [opening.patient patient] at first
    exact handled_head env reached c first

/-- The bad frame comes after the connect. -/
def greeted : List Event := [.start 0,.serve 0 1,.serMsg 0,.frame 0 (.text "hello") 2]

theorem greeted_runs : ((machine .numbered).run greeted start).any (fun s =>
    decide ((texts (s.conns 0).written).length = 2)) = true := by decide +kernel

theorem greeted_ownFirst : ∃ s, (machine .numbered).Reaches greeted s ∧ OwnFirst .numbered 0 s := by
  obtain ⟨s,ran,-⟩ := (Option.any_eq_true _ _).mp greeted_runs
  refine ⟨s,ran,(own_first_iff .numbered greeted s 0 ran).mpr ?_⟩
  have steps : greeted = ((([] ++ [Event.start 0]) ++ [Event.serve 0 1]) ++ [Event.serMsg 0]) ++
    [Event.frame 0 (.text "hello") 2] := rfl
  rw [steps,hasty_concat,hasty_concat,hasty_concat,hasty_concat]
  simp [Event.Bad,not_hasty_nil]

/-- The bad frame comes while the connect is on its way. -/
def scolded : List Event := [.start 0,.frame 0 (.text "hello") 1]

theorem scolded_runs : ((machine .numbered).run scolded start).any (fun s =>
    decide ((texts (s.conns 0).written).head? = some (badMessage .numbered 1))) = true := by
  decide +kernel

theorem scolded_error_first : ¬∀ env es s c, (machine env).Reaches es s → OwnFirst env c s := by
  intro own
  obtain ⟨s,ran,first⟩ := (Option.any_eq_true _ _).mp scolded_runs
  obtain ⟨now,same⟩ := own .numbered scolded s 0 ran _ (of_decide_eq_true first)
  exact badMessage_other .numbered _ 1 now same

end Wschat.Rust
