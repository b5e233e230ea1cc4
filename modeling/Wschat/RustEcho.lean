import Mathlib.Data.List.TakeWhile
import Wschat.RustDrain

/-! What a client of the Rust server gets back of what it sends: each of its frames that is
accepted, once and in its order. -/
namespace Wschat.Rust

/-- The contents of a frame of `c` that the decoder accepts, and the clock then. -/
def Event.accepted? (env : Env) (c : Conn) : Event → Option (String × UInt64)
  | .frame d (.text text) now =>
    if d = c then (fromStr env.lib text).map fun msg => (msg.contents,now) else none
  | _ => none

def accepted (env : Env) (c : Conn) (es : List Event) : List (String × UInt64) :=
  es.filterMap (Event.accepted? env c)

/-- The chat that the server is to broadcast for a frame. -/
def chatText (env : Env) (c : Conn) (frame : String × UInt64) : String :=
  toString env.lib (.newChat (env.uuid c) frame.1 frame.2)

def chatOf (uuid : String) (e : Entry) : Bool := e.kind = .chat ∧ e.uuid = uuid

/-- The texts of a connection's chats in the log, and of those on the way to it. -/
def logged (uuid : String) (log : List Entry) : List String :=
  (log.filter (chatOf uuid)).map Entry.text

def ToServer.chat? (env : Env) : ToServer → Option String
  | .message msg => some (toString env.lib msg)
  | .connect _ _ | .disconnect _ => none

def Echoes (env : Env) (es : List Event) (s : State) (c : Conn) : Prop :=
  logged (env.uuid c) s.log ++ (s.conns c).outgoing.filterMap (ToServer.chat? env) =
    (accepted env c es).map (chatText env c)

theorem logged_append (uuid : String) (log more : List Entry) :
    logged uuid (log ++ more) = logged uuid log ++ logged uuid more := by simp [logged]

theorem logged_entry (env : Env) (now : UInt64) {msg : ToServer} (belongs : msg.Belongs env c) :
    logged (env.uuid c) [entryOf env now msg] = (msg.chat? env).toList := by
  cases msg with
  | connect | disconnect => simp [logged,chatOf,entryOf,connectEntry,disconnectEntry,ToServer.chat?]
  | message msg =>
    obtain ⟨contents,at_,rfl⟩ := belongs
    simp [logged,chatOf,entryOf,chatEntry,ToServer.chat?,Message.newChat]

theorem logged_other (env : Env) (now : UInt64) {msg : ToServer} (belongs : msg.Belongs env d)
    (other : d ≠ c) : logged (env.uuid c) [entryOf env now msg] = [] := by
  have named := entryOf_uuid env now belongs
  have apart : env.uuid d ≠ env.uuid c := fun same => other (env.distinct same)
  simp [logged,chatOf,named,apart]

/-- A frame puts its own chat on the way, if it is accepted. -/
theorem handle_chats (env : Env) (c : Conn) (frame : Frame) (now : UInt64) (conn : ConnState) :
    (conn.handle env c frame now).outgoing.filterMap (ToServer.chat? env) =
      conn.outgoing.filterMap (ToServer.chat? env) ++
        ((Event.accepted? env c (.frame c frame now)).toList.map (chatText env c)) := by
  cases frame with
  | text text =>
    cases read : fromStr env.lib text with
    | none => simp [ConnState.handle,read,ConnState.write,Event.accepted?]
    | some msg =>
      simp [ConnState.handle,read,ConnState.send,Event.accepted?,ToServer.chat?,chatText]
  | ping | pong | binary | close | continuation | nop | error =>
    simp [ConnState.handle,ConnState.write,ConnState.stop,ConnState.send,Event.accepted?,
      ToServer.chat?]

theorem accepted_concat (env : Env) (c : Conn) (es : List Event) (e : Event) :
    accepted env c (es ++ [e]) = accepted env c es ++ (e.accepted? env c).toList := by
  rw [accepted,accepted,List.filterMap_append]
  cases read : e.accepted? env c <;> simp [read]

theorem accepted_frame_other (env : Env) (frame : Frame) (now : UInt64) (other : d ≠ c) :
    Event.accepted? env c (.frame d frame now) = none := by
  cases frame <;> simp [Event.accepted?,other]

theorem Echoes.quiet (echoes : Echoes env es s c) (none_ : Event.accepted? env c e = none)
    (log : next.log = s.log) (outgoing : (next.conns c).outgoing.filterMap (ToServer.chat? env) =
      (s.conns c).outgoing.filterMap (ToServer.chat? env)) : Echoes env (es ++ [e]) next c := by
  rw [Echoes,accepted_concat,none_,log,outgoing,Option.toList_none,List.append_nil]
  exact echoes

theorem step_echoes (env : Env) (s next : State) (e : Event) (valid : Consistent env s)
    (echoes : Echoes env es s c) (stepped : step env s e = some next) :
    Echoes env (es ++ [e]) next c := by
  have modified (d : Conn) (f : ConnState → ConnState) (none_ : Event.accepted? env c e = none)
      (same : (f (s.conns d)).outgoing.filterMap (ToServer.chat? env) =
        (s.conns d).outgoing.filterMap (ToServer.chat? env)) :
      Echoes env (es ++ [e]) (s.modify d f) c := by
    refine echoes.quiet none_ rfl ?_
    by_cases here : c = d
    · subst here; simpa using same
    · simp [here]
  cases e with
  | start d =>
    simp only [step,Option.ite_none_right_eq_some,Option.some.injEq] at stepped
    obtain ⟨-,rfl⟩ := stepped
    exact modified d _ rfl (by simp [ConnState.started,ConnState.send,ToServer.chat?])
  | frame d frame now =>
    simp only [step,Option.ite_none_right_eq_some,Option.some.injEq] at stepped
    obtain ⟨-,rfl⟩ := stepped
    by_cases here : d = c
    · subst here
      rw [Echoes,accepted_concat,List.map_append,← echoes]
      simp [handle_chats]
    · refine echoes.quiet (accepted_frame_other env frame now here) rfl ?_
      simp [Ne.symm here]
  | serMsg d =>
    simp only [step] at stepped
    split at stepped
    case h_1 => contradiction
    case h_2 text rest waiting =>
      simp only [Option.ite_none_right_eq_some,Option.some.injEq] at stepped
      obtain ⟨-,rfl⟩ := stepped
      exact modified d _ rfl (by simp [ConnState.handleSerMsg,ConnState.write])
  | finished d =>
    simp only [step,Option.ite_none_right_eq_some,Option.some.injEq] at stepped
    obtain ⟨-,rfl⟩ := stepped
    exact modified d _ rfl (by simp [ConnState.stop,ConnState.send,ToServer.chat?])
  | serve d now =>
    simp only [step] at stepped
    split at stepped
    case h_1 => contradiction
    case h_2 msg rest waiting =>
      obtain rfl := Option.some.inj stepped
      have mine := (valid.conns d).belongs msg (by simp [waiting])
      have given := (serve_gives env valid now waiting c rfl).2.1
      rw [Echoes,accepted_concat,serve_log,modify_log,logged_append,given]
      simp only [Event.accepted?,Option.toList_none,List.append_nil]
      by_cases here : c = d
      · subst here
        rw [logged_entry env now mine,← echoes,waiting]
        cases chat : msg.chat? env <;> simp [chat]
      · rw [logged_other env now mine (Ne.symm here),List.append_nil,modify_conns,if_neg here]
        exact echoes

theorem echoes (env : Env) (reached : (machine env).Reaches es s) (c : Conn) :
    Echoes env es s c := by
  refine (machine env).reaches_induction (motive := fun es s => Echoes env es s c) ?_ ?_ reached
  · simp [Echoes,machine,start,ConnState.absent,logged,accepted]
  · intro es s e next before echoes stepped
    exact step_echoes env s next e (consistent env before) echoes stepped

/-- The chats of `c` come after its connect. -/
theorem logged_dropWhile (first : own uuid log = .connect :: ks) :
    logged uuid (log.dropWhile fun e => !opens uuid e) = logged uuid log := by
  have parts : (log.takeWhile fun e => !opens uuid e) ++ (log.dropWhile fun e => !opens uuid e) =
    log := List.takeWhile_append_dropWhile
  have none_ : logged uuid (log.takeWhile fun e => !opens uuid e) = [] := by
    rw [logged,List.map_eq_nil_iff,List.filter_eq_nil_iff]
    intro e member chat
    simp only [chatOf,decide_eq_true_eq] at chat
    have split := own_append uuid (log.takeWhile fun e => !opens uuid e)
      (log.dropWhile fun e => !opens uuid e)
    rw [parts,own_dropWhile first] at split
    have inside : EntryKind.chat ∈ own uuid (log.takeWhile fun e => !opens uuid e) :=
      mem_own.mpr ⟨e,member,chat⟩
    rw [List.self_eq_append_left.mp split] at inside
    simp at inside
  have whole := (congrArg (logged uuid) parts).symm.trans (logged_append uuid _ _)
  rw [whole,none_,List.nil_append]

theorem logged_opening (first : opens uuid e = true) : logged uuid (e :: rest) = logged uuid rest := by
  simp only [opens,decide_eq_true_eq] at first
  simp [logged,chatOf,first.1]

/-- What a running connection has handled when nothing is on the way: its own connect, and from
there on what the server has logged. -/
theorem running_handled (valid : Consistent env s) (drained : s.Drained) (c : Conn)
    (running : (s.conns c).phase = .running) : ∃ before e rest,
      s.log = before ++ e :: rest ∧ opens (env.uuid c) e = true ∧
      (s.conns c).handled = (e :: rest).map Entry.text ∧
      logged (env.uuid c) rest = logged (env.uuid c) s.log := by
  obtain ⟨chats,protocol⟩ := (valid.conns c).protocol
  rw [(drained c).1,List.map_nil,List.append_nil,running] at protocol
  have handled := (at_rest env valid drained).handled c running
  have late := own_dropWhile protocol
  cases from_ : s.log.dropWhile fun e => !opens (env.uuid c) e with
  | nil =>
    rw [from_,protocol] at late
    simp [own,script] at late
  | cons e rest =>
    have first : opens (env.uuid c) e = true := by
      refine List.find?_some (p := opens (env.uuid c)) (l := s.log) ?_
      rw [List.find?_eq_head?_dropWhile_not,from_,List.head?_cons]
    obtain ⟨before,parts⟩ := List.dropWhile_suffix (l := s.log) fun e => !opens (env.uuid c) e
    rw [from_] at parts
    refine ⟨before,e,rest,parts.symm,first,by rw [handled,from_],?_⟩
    rw [← logged_opening first,← from_]
    exact logged_dropWhile protocol

/-- When nothing is on the way, each client has handled its own connect and then one chat for
each frame of its own that was accepted, in its order; and of two clients one has handled
the end of what the other has. -/
theorem chats_echoed (env : Env) (es : List Event) (s : State) (reached : (machine env).Reaches es s)
    (drained : s.Drained) :
    (∀ c, (s.conns c).phase = .running → ∃ before e rest, s.log = before ++ e :: rest ∧
      opens (env.uuid c) e = true ∧ (s.conns c).handled = (e :: rest).map Entry.text ∧
      logged (env.uuid c) rest = (accepted env c es).map (chatText env c)) ∧
    ∀ c d, (s.conns c).phase = .running → (s.conns d).phase = .running →
      (s.conns c).handled <:+ (s.conns d).handled ∨ (s.conns d).handled <:+ (s.conns c).handled := by
  have valid := consistent env reached
  refine ⟨fun c running => ?_,fun c d running running' => ?_⟩
  · obtain ⟨before,e,rest,log,first,handled,same⟩ := running_handled valid drained c running
    refine ⟨before,e,rest,log,first,handled,?_⟩
    have echoed := echoes env reached c
    rw [Echoes,(drained c).1,List.filterMap_nil,List.append_nil] at echoed
    rw [same,echoed]
  · have rest := at_rest env valid drained
    rw [rest.handled c running,rest.handled d running']
    have ends (p : Entry → Bool) : (s.log.dropWhile p).map Entry.text <:+ s.log.map Entry.text :=
      (List.dropWhile_suffix p).map _
    exact List.suffix_or_suffix_of_suffix (ends _) (ends _)

/-- Of two clients one chats and then sends a bad frame. -/
def chatted : List Event :=
  [.start 0,.serve 0 1,.start 1,.serMsg 0,.frame 0 (.text "\x7b\"sender\":\"\",\"contents\":\"hi\"\x7d") 2,
    .frame 0 (.text "hi") 3,.serve 1 4,.serve 0 5,.serMsg 0,.serMsg 1,.serMsg 0,.serMsg 1]

theorem chatted_runs : ((machine .numbered).run chatted start).any (fun s =>
    decide (load (starts chatted) s = 0 ∧ (s.conns 0).phase = .running ∧
      (s.conns 0).handled.length = 3)) = true := by decide +kernel

theorem chatted_echoed : ∃ s, (machine .numbered).Reaches chatted s ∧
    ∃ before e rest, s.log = before ++ e :: rest ∧ (s.conns 0).handled = (e :: rest).map Entry.text ∧
      logged "0" rest = (accepted .numbered 0 chatted).map (chatText .numbered 0) := by
  obtain ⟨s,ran,checked⟩ := (Option.any_eq_true _ _).mp chatted_runs
  obtain ⟨none_,running,-⟩ := of_decide_eq_true checked
  have drained := drained_of_load (settling .numbered ran) none_
  obtain ⟨before,e,rest,log,-,handled,echoed⟩ :=
    (chats_echoed .numbered chatted s ran drained).1 0 running
  exact ⟨s,ran,before,e,rest,log,handled,echoed⟩

end Wschat.Rust
