import Wschat.RustRoom

/-! The room comes to rest. When the users do nothing more, the network, the actors and the
browsers bring every frame to every page that is still connected, in whatever order they move. -/
namespace Wschat.Rust

open Workers

/-- The event is none of a user's or of the connections ending. -/
def RoomEvent.isInner : RoomEvent → Bool
  | .server e => e.isInner
  | .frame _ _ | .page _ (.message 0 _) => true
  | .page _ _ | .sendMsg _ _ => false

namespace Room

/-- The texts that are still to be brought to the page, and its frames, each of which makes
`2 * most + 2` units of work in the server. -/
def backlog (most : Nat) (r : Room) (c : Conn) : Nat :=
  (texts (r.server.conns c).written).length - r.delivered c + (2 * most + 3) * (r.frames c).length

/-- What is left to do; what the server does may make one text for a page. -/
def work (conns : List Conn) (r : Room) : Nat :=
  2 * load conns r.server + (conns.map (r.backlog conns.length)).sum

section Drain

variable {env : RoomEnv} {conns : List Conn} {r next : Room}

/-- Reachable, with its connections in a list. -/
structure Inside (env : RoomEnv) (conns : List Conn) (r : Room) : Prop where
  nodup : conns.Nodup
  sound : ∃ es, Sound env es r ∧ starts es ⊆ conns
  among : Among conns r

theorem Inside.settling (inside : Inside env conns r) : Settling env.server conns r.server := by
  obtain ⟨es,sound,started⟩ := inside.sound
  have settling := Rust.settling env.server sound.reached
  exact ⟨settling.1,fun c outside => settling.2 c fun member => outside (started member)⟩

theorem reaches_inside (usual : env.Usual) (reached : (machine env).Reaches acts r) :
    Inside env (acts.map RoomEvent.conn).dedup r := by
  obtain ⟨es,sound,started⟩ := reaches_sound usual reached
  refine ⟨List.nodup_dedup _,⟨es,sound,fun c member => List.mem_dedup.mpr (started member)⟩,?_⟩
  exact fun c outside => reaches_among reached c fun member => outside (List.mem_dedup.mpr member)

theorem Inside.step (usual : env.Usual) (inside : Inside env conns r)
    (stepped : step env r e = some next) (member : e.conn ∈ conns) : Inside env conns next := by
  obtain ⟨es,sound,started⟩ := inside.sound
  obtain ⟨more,sound,own⟩ := step_sound usual sound stepped
  refine ⟨inside.nodup,⟨es ++ more,sound,?_⟩,fun c outside => ?_⟩
  · rw [starts,List.filterMap_append]
    refine List.append_subset.mpr ⟨started,fun c last => ?_⟩
    exact List.mem_singleton.mp (own last) ▸ member
  · have other : c ≠ e.conn := by
      rintro rfl
      exact outside member
    obtain ⟨frames,page⟩ := step_untouched stepped other
    rw [frames,page]
    exact inside.among c outside

/-- The server takes a message of an actor. -/
theorem server_work (inside : Inside env conns r) (inner : e.isInner = true)
    (stepped : Rust.step env.server r.server e = some s) :
    e.conn ∈ conns ∧ work conns { r with server := s } < work conns r := by
  obtain ⟨-,less⟩ := inner_load env.server conns r.server e s inside.settling inner stepped
  have member : e.conn ∈ conns := by
    cases e with
    | start | frame | finished => simp [Event.isInner] at inner
    | serMsg c =>
      simp only [Rust.step] at stepped
      split at stepped
      case h_1 => contradiction
      case h_2 text rest waiting =>
        simp only [Option.ite_none_right_eq_some] at stepped
        exact inside.settling.within (by simp [Event.conn,stepped.1])
    | serve c now =>
      simp only [Rust.step] at stepped
      split at stepped
      case h_1 => contradiction
      case h_2 msg rest waiting => exact inside.settling.sender (by simp [Event.conn,waiting])
  refine ⟨member,?_⟩
  have grow (c : Conn) : (texts (s.conns c).written).length ≤
      (texts (r.server.conns c).written).length + if c = e.conn then 1 else 0 := by
    cases step_adds env.server r.server s e c stepped with
    | serMsg text same _ written =>
      subst same
      simp [written,Event.conn]
    | reply now bad =>
      obtain ⟨text,now,rfl,-⟩ := bad
      simp [Event.isInner] at inner
    | nothing _ _ _ written => simp [written]
  have more : (conns.map (backlog conns.length { r with server := s })).sum ≤
      (conns.map (r.backlog conns.length)).sum + 1 := by
    refine sum_le_one (a := e.conn) inside.nodup 1 (fun d _ other => ?_) ?_
    · have same := grow d
      rw [if_neg other] at same
      simp only [backlog]
      omega
    · have one := grow e.conn
      rw [if_pos rfl] at one
      simp only [backlog]
      omega
  simp only [work]
  omega

/-- The server reads a frame and has a message more. -/
theorem frame_work (usual : env.Usual) (inside : Inside env conns r) (waiting : r.frames c = text :: rest)
    (stepped : Rust.step env.server r.server (.frame c (.text text) now) = some s) :
    c ∈ conns ∧ work conns { r with server := s, frames := replace r.frames c rest } <
      work conns r := by
  have member : c ∈ conns := by
    by_contra outside
    simp [(inside.among c outside).1] at waiting
  obtain ⟨es,sound,-⟩ := inside.sound
  obtain ⟨pending,frames,-⟩ := sound.sent c
  obtain ⟨m,-,rfl⟩ : ∃ m ∈ pending, Web.chatFrame m.1 m.2 = text := by
    rw [← List.mem_map,← frames,waiting]
    exact List.mem_cons_self
  simp only [Rust.step,Option.ite_none_right_eq_some,Option.some.injEq] at stepped
  obtain ⟨-,rfl⟩ := stepped
  have handled : (r.server.conns c).handle env.server c (.text (Web.chatFrame m.1 m.2)) now =
      (r.server.conns c).send (.message (.newChat (env.server.uuid c) m.2 now)) := by
    rw [ConnState.handle,fromStr_chatFrame usual.reads]
  have grown : load conns (r.server.modify c (.handle env.server c (.text (Web.chatFrame m.1 m.2)) now)) ≤
      load conns r.server + (conns.length + 1) := by
    refine sum_le_one (a := c) inside.nodup _ (fun d _ other => ?_) ?_
    · simp [other]
    · simp only [modify_conns,if_true,handled,ConnState.load,ConnState.send,List.length_append,
        List.length_singleton,Nat.mul_add]
      omega
  have fewer : (conns.map (backlog conns.length
      { r with
        server := r.server.modify c (.handle env.server c (.text (Web.chatFrame m.1 m.2)) now)
        frames := replace r.frames c rest })).sum + (2 * conns.length + 3) ≤
      (conns.map (r.backlog conns.length)).sum := by
    have here : backlog conns.length { r with
        server := r.server.modify c (.handle env.server c (.text (Web.chatFrame m.1 m.2)) now)
        frames := replace r.frames c rest } c + (2 * conns.length + 3) = r.backlog conns.length c := by
      simp only [backlog,modify_conns,if_true,handled,ConnState.send,replace_same,waiting,
        List.length_cons,Nat.mul_add]
      omega
    refine sum_drop_one member _ (fun d _ => ?_) (Nat.le_of_eq here)
    by_cases same : d = c
    · subst d
      omega
    · simp [backlog,same]
  refine ⟨member,?_⟩
  simp only [work]
  omega

/-- A page is brought a text. -/
theorem page_work (inside : Inside env conns r) (fires : r.fires c (.message 0 data) = true)
    (stepped : Web.step env.web (r.pages c) (.message 0 data) = some p) :
    c ∈ conns ∧ work conns { r with
      pages := replace r.pages c p
      delivered := replace r.delivered c (r.delivered c + 1) } < work conns r := by
  have member : c ∈ conns := by
    by_contra outside
    rw [(inside.among c outside).2] at stepped
    simp [Web.step,Web.mounted] at stepped
  have waits : r.delivered c < (texts (r.server.conns c).written).length := by
    obtain ⟨bound,-⟩ := List.getElem?_eq_some_iff.mp (of_decide_eq_true fires)
    exact bound
  have here : backlog conns.length { r with
      pages := replace r.pages c p
      delivered := replace r.delivered c (r.delivered c + 1) } c + 1 = r.backlog conns.length c := by
    simp only [backlog,replace_same]
    omega
  have fewer : (conns.map (backlog conns.length { r with
      pages := replace r.pages c p
      delivered := replace r.delivered c (r.delivered c + 1) })).sum + 1 ≤
      (conns.map (r.backlog conns.length)).sum := by
    refine sum_drop_one member 1 (fun d _ => ?_) (Nat.le_of_eq here)
    by_cases same : d = c
    · subst d
      omega
    · simp [backlog,same]
  refine ⟨member,?_⟩
  simp only [work]
  omega

theorem inner_work (usual : env.Usual) (conns : List Conn) (r : Room) (e : RoomEvent) (next : Room)
    (inside : Inside env conns r) (inner : e.isInner = true) (stepped : step env r e = some next) :
    Inside env conns next ∧ next.work conns < r.work conns := by
  have less : e.conn ∈ conns ∧ next.work conns < r.work conns := by
    cases e with
    | server e =>
      simp only [step,Option.ite_none_right_eq_some,Option.map_eq_some_iff] at stepped
      obtain ⟨-,s,stepped,rfl⟩ := stepped
      exact server_work inside inner stepped
    | frame c now =>
      simp only [step] at stepped
      split at stepped
      case h_1 => contradiction
      case h_2 text rest waiting =>
        obtain ⟨s,served,rfl⟩ := Option.map_eq_some_iff.mp stepped
        exact frame_work usual inside waiting served
    | page c e =>
      unfold RoomEvent.isInner at inner
      split at inner
      case h_3 data same =>
        obtain ⟨rfl,rfl⟩ := RoomEvent.page.inj same
        simp only [step,Option.ite_none_right_eq_some,Option.map_eq_some_iff] at stepped
        obtain ⟨fires,p,stepped,rfl⟩ := stepped
        exact page_work inside fires stepped
      all_goals simp_all
    | sendMsg c msgStr => simp [RoomEvent.isInner] at inner
  exact ⟨inside.step usual stepped less.1,less.2⟩

theorem server_enabled (busy : ¬r.server.Drained) :
    ∃ e : RoomEvent, e.isInner = true ∧ ((machine env).step r e).isSome = true := by
  obtain ⟨e,inner,enabled⟩ := Rust.inner_enabled env.server r.server busy
  refine ⟨.server e,inner,?_⟩
  have allowed : r.takes e = true := by
    cases e with
    | start | frame | finished => simp [Event.isInner] at inner
    | serMsg | serve => rfl
  simpa [machine,step,allowed] using enabled

theorem frame_enabled (running : (r.server.conns c).phase = .running) (waits : r.frames c ≠ []) :
    ∃ e : RoomEvent, e.isInner = true ∧ ((machine env).step r e).isSome = true := by
  obtain ⟨text,rest,waiting⟩ := List.exists_cons_of_ne_nil waits
  exact ⟨.frame c 0,rfl,by simp [machine,step,waiting,Rust.step,running]⟩

theorem page_enabled (inside : Inside env conns r) (online : r.Online c)
    (behind : r.delivered c ≠ (texts (r.server.conns c).written).length) :
    ∃ e : RoomEvent, e.isInner = true ∧ ((machine env).step r e).isSome = true := by
  obtain ⟨es,sound,-⟩ := inside.sound
  obtain ⟨on,most⟩ := (sound.sessions c).on online.ws online.isOpen
  have fewer : r.delivered c < (texts (r.server.conns c).written).length := by omega
  refine ⟨.page c (.message 0 (texts (r.server.conns c).written)[r.delivered c]),rfl,?_⟩
  have stepped : (Web.step env.web (r.pages c)
      (.message 0 (texts (r.server.conns c).written)[r.delivered c])).isSome = true := by
    simp [Web.step,on.created,on.phase]
  simpa [machine,step,fires,fewer] using stepped

theorem inner_enabled (r : Room) (inside : Inside env conns r) (busy : ¬r.Quiet) :
    ∃ e : RoomEvent, e.isInner = true ∧ ((machine env).step r e).isSome = true := by
  by_contra stuck
  refine busy ⟨?_,fun c running => ?_,fun c online => ?_⟩
  · by_contra undrained
    exact stuck (server_enabled undrained)
  · by_contra waits
    exact stuck (frame_enabled running waits)
  · by_contra behind
    exact stuck (page_enabled inside online behind)

end Drain

/-- Whatever has happened before, and in whatever order they move, the server, the network and
the browsers come to rest, unless the users go on. -/
theorem room_settles (env : RoomEnv) (usual : env.Usual) (acts : List RoomEvent) (r : Room)
    (reached : (machine env).Reaches acts r) :
    (∀ es final, (∀ e ∈ es, e.isInner = true) → (machine env).run es r = some final →
      es.length ≤ r.work (acts.map RoomEvent.conn).dedup ∧ (final.Quiet ∨
        ∃ e : RoomEvent, e.isInner = true ∧ ((machine env).step final e).isSome = true)) ∧
    ∃ es final, (∀ e ∈ es, e.isInner = true) ∧ (machine env).run es r = some final ∧ final.Quiet := by
  have here := reaches_inside usual reached
  generalize (acts.map RoomEvent.conn).dedup = conns at here
  refine ⟨fun es final all ran => ?_,?_⟩
  · obtain ⟨inside,bound⟩ := (machine env).run_bounded (work conns) (Inside env conns)
      (fun e => e.isInner = true) (inner_work usual conns) here all ran
    refine ⟨by omega,?_⟩
    by_cases quiet : final.Quiet
    · exact .inl quiet
    · exact .inr (inner_enabled final inside quiet)
  · obtain ⟨es,final,all,ran,-,quiet⟩ := (machine env).run_to (work conns) (Inside env conns)
      (fun e => e.isInner = true) (inner_work usual conns) Quiet inner_enabled r here
    exact ⟨es,final,all,ran,quiet⟩

/-- A user has said something, and nobody has moved since. -/
def opening : List RoomEvent :=
  [.page 0 (.connectToWs false),.server (.start 0),.page 0 (.opened 0),.sendMsg 0 "hi"]

theorem opening_runs : ((machine blind).run opening empty).any (fun r =>
    decide (r.sent 0 = ["hi"])) = true := by decide +kernel

theorem opening_settles : ∃ (env : RoomEnv) (r final : Room) (es : List RoomEvent),
    (machine env).Reaches opening r ∧ r.sent 0 = ["hi"] ∧ (machine env).run es r = some final ∧
      final.Quiet := by
  obtain ⟨web,faithful,compares⟩ := Web.browser
  obtain ⟨r,ran,checked⟩ := (Option.any_eq_true _ _).mp opening_runs
  have reached : (machine { blind with web }).Reaches opening r :=
    (run_web web opening empty (by simp [opening])).trans ran
  obtain ⟨-,es,final,-,ran',quiet⟩ :=
    room_settles { blind with web } (blind_usual faithful compares) opening r reached
  exact ⟨{ blind with web },r,final,es,reached,of_decide_eq_true checked,ran',quiet⟩

end Room

end Wschat.Rust
