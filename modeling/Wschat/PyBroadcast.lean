import Wschat.Cursor
import Wschat.PyHandlers

/-! Exactly once on the Python server: a broadcast sends once to a client that stays in the
list, unless a removal behind its position moves that client from its next position to the
one before. -/
namespace Wschat.Py

/-- The call is in its loop, and takes position `index` next. -/
def State.Running (s : State) (call : Call) (index : Nat) : Prop :=
  ∃ text, (s.handlers call.conn).pc = .sending call.kind index text

def State.sentTo (s : State) (call : Call) (y : Conn) : List String :=
  (s.sends.filter fun x => x.call = call ∧ x.recip = y).map Sent.text

/-- The step starts the call. -/
def Begins (env : Env) (s : State) (e : Event) (call : Call) : Prop :=
  call ∉ begunCalls s.calls ∧ ∃ next, step env s e = some next ∧ call ∈ begunCalls next.calls

/-- The step ends the disconnect broadcast of `x` and takes `x` out of the list, at a
position the call has passed, while `y` is at the call's next position. -/
def Skips (s : State) (e : Event) (call : Call) (y : Conn) : Prop :=
  ∃ x raised j text index, e = .sent x raised ∧
    (s.handlers x).pc = .sending .disconnect j text ∧ s.clients[j]? = none ∧
    s.Running call index ∧ Cursor.Skips s.clients index x y

/-- `y` is in the list at every step of the call, its first and its last included. -/
def Stays (env : Env) (es : List Event) (call : Call) (y : Conn) : Prop :=
  ∀ before e after s, es = before ++ e :: after → (machine env).Reaches before s →
    (∃ index, s.Running call index) ∨ Begins env s e call → y ∈ s.clients

def Skipped (env : Env) (es : List Event) (call : Call) (y : Conn) : Prop :=
  ∃ before e after s, es = before ++ e :: after ∧ (machine env).Reaches before s ∧
    Skips s e call y

theorem Running.unique {s : State} (first : s.Running call i) (second : s.Running call j) : i = j := by
  obtain ⟨text,at_⟩ := first
  obtain ⟨text',at_'⟩ := second
  rw [at_] at at_'
  cases at_'
  rfl

theorem Stays.init (stays : Stays env (es ++ [e]) call y) : Stays env es call y := by
  intro before e' after s eq reached during
  exact stays before e' (after ++ [e]) s (by simp [eq]) reached during

theorem Stays.last (stays : Stays env (es ++ [e]) call y) (reached : (machine env).Reaches es s)
    (during : (∃ index, s.Running call index) ∨ Begins env s e call) : y ∈ s.clients :=
  stays es e [] s rfl reached during

theorem skipped_concat (reached : (machine env).Reaches es s) :
    Skipped env (es ++ [e]) call y ↔ Skipped env es call y ∨ Skips s e call y := by
  constructor
  · rintro ⟨before,e',after,u,eq,at_,skips⟩
    rcases List.eq_nil_or_concat after with rfl | ⟨rest,last,rfl⟩
    · obtain ⟨rfl,same⟩ := List.append_inj' eq rfl
      cases same
      rw [Machine.Reaches.unique (machine env) reached at_]
      exact .inr skips
    · have split : es ++ [e] = (before ++ e' :: rest) ++ [last] := by simp [eq]
      obtain ⟨rfl,-⟩ := List.append_inj' split rfl
      exact .inl ⟨before,e',rest,u,rfl,at_,skips⟩
  · rintro (⟨before,e',after,u,rfl,at_,skips⟩ | skips)
    · exact ⟨before,e',after ++ [e],u,by simp,at_,skips⟩
    · exact ⟨es,e,[],s,rfl,reached,skips⟩

/-- The call is running and has `y` ahead. -/
def Pending (s : State) (call : Call) (y : Conn) : Prop :=
  ∃ index, s.Running call index ∧ Cursor.Ahead s.clients index y

/-- What the sends to `y` are, by whether the call has skipped it. -/
structure Tracked (s : State) (call : Call) (y : Conn) (skipped : Prop) : Prop where
  unbegun : call ∉ begunCalls s.calls → ¬skipped
  pending : Pending s call y → ¬skipped ∧ s.sentTo call y = []
  passed : ∀ text, (call,text) ∈ s.calls → ¬Pending s call y →
    skipped ∧ s.sentTo call y = [] ∨ ¬skipped ∧ s.sentTo call y = [text]

theorem Tracked.congr (tracked : Tracked s call y skipped) (same : skipped ↔ skipped') :
    Tracked s call y skipped' := by
  rw [← propext same]
  exact tracked

theorem Sound.unique (sound : Sound s) (first : (call,text) ∈ s.calls)
    (second : (call,text') ∈ s.calls) : text = text' := by
  have nodup : (begunCalls s.calls).Nodup := by
    rw [List.nodup_iff_count_le_one]
    intro call
    rw [(sound.life call.conn).counted call.kind]
    exact Bool.toNat_le _
  have same := List.inj_on_of_nodup_map nodup first second rfl
  exact (Prod.mk.inj same).2

theorem Sound.unsent (sound : Sound s) (unbegun : call ∉ begunCalls s.calls) (y : Conn) :
    s.sentTo call y = [] := by
  rw [State.sentTo,List.map_eq_nil_iff,List.filter_eq_nil_iff]
  intro x member
  have recorded := List.mem_map_of_mem (f := Prod.fst) (sound.traced x member)
  simp only [decide_eq_true_eq,not_and]
  rintro rfl
  exact absurd recorded unbegun

/-- A step that neither runs the call nor sends for it. -/
theorem Tracked.keep (tracked : Tracked s call y skipped)
    (running : ∀ index, next.Running call index ↔ s.Running call index)
    (calls : ∀ text, (call,text) ∈ next.calls ↔ (call,text) ∈ s.calls)
    (sent : next.sentTo call y = s.sentTo call y)
    (ahead : ∀ index, s.Running call index →
      (Cursor.Ahead next.clients index y ↔ Cursor.Ahead s.clients index y)) :
    Tracked next call y skipped := by
  have pending : Pending next call y ↔ Pending s call y := by
    constructor
    · rintro ⟨index,runs,has⟩
      have ran := (running index).mp runs
      exact ⟨index,ran,(ahead index ran).mp has⟩
    · rintro ⟨index,ran,has⟩
      exact ⟨index,(running index).mpr ran,(ahead index ran).mpr has⟩
  have begun : call ∈ begunCalls next.calls ↔ call ∈ begunCalls s.calls := by
    simp only [begunCalls,List.mem_map,Prod.exists]
    simp [calls]
  constructor
  · rw [begun]; exact tracked.unbegun
  · rw [pending,sent]; exact tracked.pending
  · intro text
    rw [calls,pending,sent]
    exact tracked.passed text

@[simp] theorem running_goto (s : State) (c : Conn) (pc : Pc) (call : Call) (index : Nat) :
    (s.goto c pc).Running call index ↔
      if call.conn = c then ∃ text, pc = .sending call.kind index text else s.Running call index := by
  by_cases same : call.conn = c
  · simp [State.Running,State.goto,same]
  · simp [State.Running,State.goto,same]

/-- A call that is not the one its handler is in does not run. -/
theorem not_running {s : State} {call : Call} (at_ : (s.handlers c).pc = .sending kind index text) (other : call ≠ ⟨c,kind⟩)
    (mine : call.conn = c) (i : Nat) : ¬s.Running call i := by
  rintro ⟨text',here⟩
  rw [mine,at_] at here
  cases here
  exact other (by cases call; simp_all)

/-- A step of the call's own loop. -/
theorem tracked_own (advanced : Advance s c index text kind next) (sound : Sound s)
    (at_ : (s.handlers c).pc = .sending kind index text) (member : y ∈ s.clients)
    (tracked : Tracked s ⟨c,kind⟩ y skipped) : Tracked next ⟨c,kind⟩ y skipped := by
  have recorded := (sound.life c).sending kind index text at_
  have running : s.Running ⟨c,kind⟩ index := ⟨text,at_⟩
  have begun : (⟨c,kind⟩ : Call) ∈ begunCalls s.calls := List.mem_map_of_mem (f := Prod.fst) recorded
  -- at the end of the list the call is past `y`, and runs no longer
  have ended : s.clients[index]? = none → (∀ i, ¬next.Running ⟨c,kind⟩ i) → next.calls = s.calls →
      next.sends = s.sends → Tracked next ⟨c,kind⟩ y skipped := by
    intro last stopped calls sends
    have passed : ¬Pending s ⟨c,kind⟩ y := by
      rintro ⟨i,runs,ahead⟩
      rw [Running.unique runs running] at ahead
      exact Cursor.not_ahead_end member last ahead
    have sent : next.sentTo ⟨c,kind⟩ y = s.sentTo ⟨c,kind⟩ y := by rw [State.sentTo,sends]; rfl
    constructor
    · rw [calls]; exact tracked.unbegun
    · rintro ⟨i,runs,-⟩
      exact absurd runs (stopped i)
    · intro text' inside _
      rw [sent]
      exact tracked.passed text' (calls ▸ inside) passed
  cases advanced with
  | greet last => exact ended last (by simp) rfl rfl
  | receive k last => exact ended last (by simp) rfl rfl
  | remove last inside => exact ended last (by simp) rfl rfl
  | removeRaised last absent => exact ended last (by simp) rfl rfl
  | send kind ws found =>
    have next_ := Cursor.ahead_next sound.nodup found member
    have pending : Pending ((s.sendText ⟨⟨c,kind⟩,ws,text⟩).goto c (.sending kind (index+1) text))
        ⟨c,kind⟩ y ↔ Pending s ⟨c,kind⟩ y ∧ y ≠ ws := by
      constructor
      · rintro ⟨i,runs,ahead⟩
        have here : i = index + 1 := by simpa [eq_comm] using runs
        subst here
        obtain ⟨before,other⟩ := next_.mp ahead
        exact ⟨⟨index,running,before⟩,other⟩
      · rintro ⟨⟨i,runs,ahead⟩,other⟩
        rw [Running.unique runs running] at ahead
        exact ⟨index+1,by simp,next_.mpr ⟨ahead,other⟩⟩
    have sent : ((s.sendText ⟨⟨c,kind⟩,ws,text⟩).goto c (.sending kind (index+1) text)).sentTo
        ⟨c,kind⟩ y = s.sentTo ⟨c,kind⟩ y ++ if ws = y then [text] else [] := by
      by_cases here : ws = y <;> simp [State.sentTo,State.sendText,State.goto,here]
    constructor
    · exact fun unbegun => absurd begun unbegun
    · rw [pending,sent]
      rintro ⟨before,other⟩
      obtain ⟨unskipped,none⟩ := tracked.pending before
      exact ⟨unskipped,by simp [none,other.symm]⟩
    · intro text' inside
      have same := sound.unique inside recorded
      subst same
      rw [pending,sent]
      intro gone
      by_cases before : Pending s ⟨c,kind⟩ y
      · have here : ws = y := by
          by_contra other
          exact gone ⟨before,Ne.symm other⟩
        obtain ⟨unskipped,none⟩ := tracked.pending before
        exact .inr ⟨unskipped,by simp [none,here]⟩
      · -- the call has passed `y`, so the client it takes now is another one
        have other : ws ≠ y := by
          rintro rfl
          have position := Cursor.getElem?_idxOf sound.nodup found
          exact before ⟨index,running,by rw [Cursor.Ahead]; omega⟩
        simpa [other] using tracked.passed text' inside before

/-- A step of another call's loop, with the removal that may end it. -/
theorem tracked_other (advanced : Advance s c index text kind next) (sound : Sound s)
    (at_ : (s.handlers c).pc = .sending kind index text) (other : call ≠ ⟨c,kind⟩)
    (before : ∀ i, s.Running call i → y ∈ s.clients)
    (after : ∀ i, next.Running call i → y ∈ next.clients)
    (tracked : Tracked s call y skipped) :
    Tracked next call y (skipped ∨ ∃ i, kind = .disconnect ∧ s.clients[index]? = none ∧
      s.Running call i ∧ Cursor.Skips s.clients i c y) := by
  have quiet := not_running at_ other
  have goto : ∀ t : State, ∀ pc, t.handlers = s.handlers → (∀ i text, pc = .sending call.kind i text →
      call.conn ≠ c) → ∀ i, (t.goto c pc).Running call i ↔ s.Running call i := by
    intro t pc same idle i
    rw [running_goto]
    split
    · next mine =>
      constructor
      · rintro ⟨text',here⟩
        exact absurd mine (idle i text' here)
      · exact fun runs => absurd runs (quiet mine i)
    · rw [State.Running,State.Running,same]
  have unskipped : ∀ p, ¬p → Tracked next call y skipped → Tracked next call y (skipped ∨ p) := by
    intro p not_ kept
    exact kept.congr (or_iff_left not_).symm
  cases advanced with
  | send kind ws found =>
    apply unskipped
    · rintro ⟨i,-,last,-⟩
      simp [found] at last
    · apply tracked.keep
      · apply goto
        · rfl
        · rintro i text' here rfl
          cases here
          exact other rfl
      · exact fun _ => Iff.rfl
      · have apart : (⟨c,kind⟩ : Call) ≠ call := other.symm
        simp [State.sentTo,State.sendText,State.goto,apart]
      · exact fun _ _ => Iff.rfl
  | greet last =>
    apply unskipped
    · simp
    · exact tracked.keep (goto s .greeting rfl (by simp)) (fun _ => Iff.rfl) rfl (fun _ _ => Iff.rfl)
  | receive k last =>
    apply unskipped
    · simp
    · exact tracked.keep (goto s .receiving rfl (by simp)) (fun _ => Iff.rfl) rfl (fun _ _ => Iff.rfl)
  | removeRaised last absent =>
    exact absurd ((sound.life c).listed.mpr (by rw [at_]; trivial)) absent
  | remove last inside =>
    have running := goto { s with clients := s.clients.erase c } (.returned .finished) rfl (by simp)
    have ahead : ∀ i, s.Running call i → (Cursor.Ahead (s.clients.erase c) i y ↔
        Cursor.Ahead s.clients i y ∧ ¬Cursor.Skips s.clients i c y) := by
      intro i runs
      have apart : y ≠ c := by
        rintro rfl
        exact sound.nodup.not_mem_erase (after i ((running i).mpr runs))
      exact Cursor.ahead_erase apart (before i runs)
    by_cases skip : ∃ i, s.Running call i ∧ Cursor.Skips s.clients i c y
    · obtain ⟨i,runs,skips⟩ := skip
      have before : Pending s call y := ⟨i,runs,by rw [Cursor.Ahead,skips.2]⟩
      have none := (tracked.pending before).2
      constructor
      · intro unbegun
        obtain ⟨text',here⟩ := runs
        have recorded := (sound.life call.conn).sending call.kind i text' here
        exact absurd (List.mem_map_of_mem (f := Prod.fst) recorded) unbegun
      · rintro ⟨j,now,has⟩
        have ran := (running j).mp now
        have same := Running.unique ran runs
        subst same
        exact absurd skips ((ahead j ran).mp has).2
      · intro text' _ _
        exact .inl ⟨.inr ⟨i,rfl,last,runs,skips⟩,none⟩
    · apply unskipped
      · rintro ⟨i,-,-,runs,skips⟩
        exact skip ⟨i,runs,skips⟩
      · apply tracked.keep running (fun _ => Iff.rfl) rfl
        intro i runs
        rw [← and_iff_left (a := Cursor.Ahead s.clients i y) fun skips => skip ⟨i,runs,skips⟩]
        exact ahead i runs

theorem advance_recorded (advanced : Advance s c index text kind next) (sound : Sound s)
    (at_ : (s.handlers c).pc = .sending kind index text) : (⟨c,kind⟩,text) ∈ next.calls := by
  have recorded := (sound.life c).sending kind index text at_
  cases advanced <;> exact recorded

/-- A handler that is in no broadcast begins one. -/
theorem tracked_enter (text : String) (sound : Sound s) (h : Handler)
    (quiet : ∀ k index text, (s.handlers c).pc ≠ .sending k index text)
    (fresh : ⟨c,kind⟩ ∉ begunCalls s.calls) (tracked : Tracked s call y skipped) :
    Tracked ({ s with handlers := replace s.handlers c h }.enter c kind text) call y skipped := by
  by_cases mine : call = ⟨c,kind⟩
  · subst mine
    have unskipped := tracked.unbegun fresh
    constructor
    · exact fun _ => unskipped
    · exact fun _ => ⟨unskipped,sound.unsent fresh y⟩
    · intro text' _ passed
      exact absurd ⟨0,⟨text,by simp⟩,Nat.zero_le _⟩ passed
  · apply tracked.keep
    · intro index
      by_cases here : call.conn = c
      · constructor
        · rintro ⟨text',at_⟩
          rw [here,enter_pc] at at_
          cases at_
          exact absurd (by cases call; simp_all) mine
        · rintro ⟨text',at_⟩
          rw [here] at at_
          exact absurd at_ (quiet _ _ _)
      · simp [State.Running,State.enter,State.goto,State.record,here]
    · intro text'
      simp [State.enter,State.goto,State.record,mine]
    · rfl
    · exact fun _ _ => Iff.rfl

theorem tracked_begin (sound : Sound s) (h : Handler)
    (entered : Sound ({ s with handlers := replace s.handlers c h }.enter c kind text))
    (quiet : ∀ k index text, (s.handlers c).pc ≠ .sending k index text)
    (fresh : ⟨c,kind⟩ ∉ begunCalls s.calls)
    (advanced : Advance ({ s with handlers := replace s.handlers c h }.enter c kind text) c 0 text
      kind next)
    (before : (∃ i, s.Running call i) ∨ call = ⟨c,kind⟩ → y ∈ s.clients)
    (after : ∀ i, next.Running call i → y ∈ next.clients) (tracked : Tracked s call y skipped) :
    Tracked next call y skipped := by
  have started := tracked_enter text sound h quiet fresh tracked
  by_cases mine : call = ⟨c,kind⟩
  · subst mine
    exact tracked_own advanced entered (by simp) (before (.inr rfl)) started
  · have running : ∀ i, ({ s with handlers := replace s.handlers c h }.enter c kind text).Running
        call i → s.Running call i := by
      rintro i ⟨text',at_⟩
      by_cases here : call.conn = c
      · rw [here,enter_pc] at at_
        cases at_
        exact absurd (by cases call; simp_all) mine
      · refine ⟨text',?_⟩
        simpa [State.enter,State.goto,State.record,here] using at_
    have kept := tracked_other advanced entered (by simp) mine
      (fun i runs => before (.inl ⟨i,running i runs⟩)) after started
    have none : ¬∃ i, kind = .disconnect ∧
        ({ s with handlers := replace s.handlers c h }.enter c kind text).clients[0]? = none ∧
        ({ s with handlers := replace s.handlers c h }.enter c kind text).Running call i ∧
        Cursor.Skips s.clients i c y := by
      rintro ⟨i,-,empty,runs,-⟩
      have member := before (.inl ⟨i,running i runs⟩)
      have nobody : s.clients = [] := by
        rw [List.getElem?_eq_none_iff] at empty
        exact List.length_eq_zero_iff.mp (Nat.le_zero.mp empty)
      rw [nobody] at member
      contradiction
    exact kept.congr (or_iff_left none)

/-- A handler that is in no broadcast before and after. -/
theorem tracked_goto (c : Conn) (pc : Pc) (clients : List Conn)
    (quiet : ∀ k index text, (s.handlers c).pc ≠ .sending k index text)
    (quiet' : ∀ k index text, pc ≠ .sending k index text)
    (ahead : ∀ i, s.Running call i → (Cursor.Ahead clients i y ↔ Cursor.Ahead s.clients i y))
    (tracked : Tracked s call y skipped) :
    Tracked ({ s with clients := clients }.goto c pc) call y skipped := by
  apply tracked.keep
  · intro i
    rw [running_goto]
    split
    · next mine =>
      constructor
      · rintro ⟨text,here⟩
        exact absurd here (quiet' _ _ _)
      · rintro ⟨text,here⟩
        rw [mine] at here
        exact absurd here (quiet _ _ _)
    · exact Iff.rfl
  · exact fun _ => Iff.rfl
  · rfl
  · exact ahead

/-- Only the end of a disconnect's loop takes a client out of the list. -/
theorem skips_loop (raised : Bool) (at_ : (s.handlers c).pc = .sending kind index text) :
    Skips s (.sent c raised) call y ↔ ∃ i, kind = .disconnect ∧
      s.clients[index]? = none ∧ s.Running call i ∧ Cursor.Skips s.clients i c y := by
  constructor
  · rintro ⟨x,raised',j,text',i,eq,leaving,last,runs,skip⟩
    cases eq
    rw [at_] at leaving
    cases leaving
    exact ⟨i,rfl,last,runs,skip⟩
  · rintro ⟨i,rfl,last,runs,skip⟩
    exact ⟨c,raised,index,text,i,rfl,at_,last,runs,skip⟩

/-- A step of a loop that is under way. -/
theorem tracked_loop (raised : Bool) (advanced : Advance s c index text kind next) (sound : Sound s)
    (at_ : (s.handlers c).pc = .sending kind index text) (before : ∀ i, s.Running call i → y ∈ s.clients)
    (after : ∀ i, next.Running call i → y ∈ next.clients) (tracked : Tracked s call y skipped) :
    Tracked next call y (skipped ∨ Skips s (.sent c raised) call y) := by
  rw [skips_loop raised at_]
  by_cases mine : call = ⟨c,kind⟩
  · subst mine
    have member := before index ⟨text,at_⟩
    have none : ¬∃ i, kind = .disconnect ∧ s.clients[index]? = none ∧
        s.Running ⟨c,kind⟩ i ∧ Cursor.Skips s.clients i c y := by
      rintro ⟨i,-,last,runs,skip⟩
      have here := Running.unique runs ⟨text,at_⟩
      subst here
      exact Cursor.not_ahead_end member last (Nat.le_of_eq skip.2.symm)
    exact (tracked_own advanced sound at_ member tracked).congr (or_iff_left none).symm
  · exact tracked_other advanced sound at_ mine before after tracked

theorem move_tracked (moved : Move env s e next) (stepped : step env s e = some next)
    (sound : Sound s) (before : (∃ i, s.Running call i) ∨ Begins env s e call → y ∈ s.clients)
    (after : ∀ i, next.Running call i → y ∈ next.clients) (tracked : Tracked s call y skipped) :
    Tracked next call y (skipped ∨ Skips s e call y) := by
  have kept : (∀ x raised, e ≠ .sent x raised) → Tracked next call y skipped →
      Tracked next call y (skipped ∨ Skips s e call y) := by
    intro other same
    have none : ¬Skips s e call y := by
      rintro ⟨x,raised,j,text,index,rfl,-⟩
      exact other x raised rfl
    exact same.congr (or_iff_left none).symm
  -- a broadcast that has not begun begins with this step
  have begins : ∀ c kind text (h : Handler), (s.handlers c).begun kind = false →
      (∀ k index text, (s.handlers c).pc ≠ .sending k index text) →
      Sound ({ s with handlers := replace s.handlers c h }.enter c kind text) →
      Advance ({ s with handlers := replace s.handlers c h }.enter c kind text) c 0 text kind next →
      Tracked next call y skipped := by
    intro c kind text h fresh quiet entered advanced
    have unbegun : ⟨c,kind⟩ ∉ begunCalls s.calls := by
      rw [← List.count_eq_zero,(sound.life c).counted kind,fresh]
      rfl
    have now := List.mem_map_of_mem (f := Prod.fst) (advance_recorded advanced entered (by simp))
    refine tracked_begin sound h entered quiet unbegun advanced ?_ after tracked
    rintro (running | rfl)
    · exact before (.inl running)
    · exact before (.inr ⟨unbegun,next,stepped,now⟩)
  cases moved with
  | connect c at_ | acceptRaised c now at_ | greetingRaised c at_ | badJson c frame now at_
  | replied c at_ =>
    apply kept (by simp)
    exact tracked_goto c _ s.clients (by simp [at_]) (by simp) (fun _ _ => Iff.rfl) tracked
  | add c at_ =>
    apply kept (by simp)
    refine tracked_goto c _ (s.clients ++ [c]) (by simp [at_]) (by simp) (fun i runs => ?_) tracked
    exact Cursor.ahead_append (before (.inl ⟨i,runs⟩)) [c]
  | announce c now text next at_ advanced =>
    apply kept (by simp)
    have entered := announce_sound text sound at_
    rw [← replace_self s c] at advanced entered
    exact begins c .connect text _ (by simp [Handler.begun,at_,Pc.connected]) (by simp [at_]) entered advanced
  | chat c frame now msg text next at_ read text_ advanced =>
    apply kept (by simp)
    exact begins c _ text _ (by simp [Handler.begun]) (by simp [at_]) (chat_sound text sound at_) advanced
  | leave c result now text next at_ failed advanced =>
    apply kept (by simp)
    have entered := leave_sound text sound at_
    rw [← replace_self s c] at advanced entered
    exact begins c .disconnect text _ (by simp [Handler.begun,at_,Pc.left]) (by simp [at_]) entered advanced
  | loop c raised kind index text next at_ advanced =>
    exact tracked_loop raised advanced sound at_ (fun i runs => before (.inl ⟨i,runs⟩)) after tracked

theorem reaches_tracked (reached : (machine env).Reaches es s) (stays : Stays env es call y)
    (listed : ∀ i, s.Running call i → y ∈ s.clients) :
    Tracked s call y (Skipped env es call y) := by
  refine (machine env).reaches_induction (motive := fun es s => Stays env es call y →
    (∀ i, s.Running call i → y ∈ s.clients) → Tracked s call y (Skipped env es call y)) ?_ ?_ reached
    stays listed
  · intro _ _
    have never : ¬Skipped env [] call y := by
      rintro ⟨before,e,after,s,eq,-⟩
      simp at eq
    constructor
    · exact fun _ => never
    · rintro ⟨i,⟨text,at_⟩,-⟩
      simp [machine,start] at at_
    · intro text inside
      simp [machine,start] at inside
  · intro es s e next at_ ih stepped stays listed
    have before := stays.last at_
    have tracked := ih stays.init fun i runs => before (.inl ⟨i,runs⟩)
    have moved := step_move env s next e stepped
    apply (move_tracked moved stepped (reaches_sound at_) before listed tracked).congr
    exact (skipped_concat at_).symm

/-- A finished broadcast has sent its text once to a client that stayed in the list, unless a
removal made it skip that client. -/
theorem once_iff_unskipped (env : Env) (es : List Event) (s : State)
    (reached : (machine env).Reaches es s) (call : Call) (text : String) (y : Conn)
    (begun : (call,text) ∈ s.calls) (ended : ∀ i, ¬s.Running call i)
    (stays : Stays env es call y) : s.sentTo call y = [text] ↔ ¬Skipped env es call y := by
  have tracked := reaches_tracked reached stays fun i runs => absurd runs (ended i)
  have passed : ¬Pending s call y := by
    rintro ⟨i,runs,-⟩
    exact ended i runs
  rcases tracked.passed text begun passed with ⟨skipped,none⟩ | ⟨unskipped,once⟩
  · simp [skipped,none]
  · simp [unskipped,once]

/-- `Stays`, as a check of every step of a schedule. -/
def checkStays (env : Env) (es : List Event) (call : Call) (y : Conn) : Bool :=
  (List.range es.length).all fun i =>
    match (machine env).run (es.take i) start, (machine env).run (es.take (i+1)) start with
    | some s, some next => decide (y ∈ s.clients) ||
        decide (call ∉ begunCalls s.calls) && decide (call ∉ begunCalls next.calls)
    | _, _ => false

theorem stays_of_check (checked : checkStays env es call y = true) : Stays env es call y := by
  rintro before e after s rfl reached during
  have here := List.all_eq_true.mp checked before.length (by simp)
  have first : (before ++ e :: after).take before.length = before := by simp
  have second : (before ++ e :: after).take (before.length + 1) = before ++ [e] := by
    rw [List.take_append]
    simp
  have reached : (machine env).run before start = some s := reached
  have both : (machine env).run (before ++ [e]) start = step env s e := by
    rw [(machine env).run_append,reached]
    cases stepped : step env s e <;> simp [Machine.run,machine,stepped]
  rw [first,second,reached,both] at here
  cases stepped : step env s e with
  | none => simp [stepped] at here
  | some next =>
    simp only [stepped,Bool.or_eq_true,Bool.and_eq_true,decide_eq_true_eq] at here
    rcases here with member | ⟨unbegun,still⟩
    · exact member
    · rcases during with ⟨i,text,at_⟩ | ⟨-,next',again,begun⟩
      · have recorded := ((reaches_sound reached).life call.conn).sending call.kind i text at_
        exact absurd (List.mem_map_of_mem (f := Prod.fst) recorded) unbegun
      · rw [stepped] at again
        cases again
        exact absurd begun still

/-- The handler of `c` up to its receive loop, with `n` clients there. -/
def join (c : Conn) (n : Nat) : List Event :=
  [.connect c,.accepted c false 1] ++ List.replicate n (.sent c false) ++ [.greeted c false]

/-- Client 0 leaves while client 2's chat is being sent to it. -/
def lossy : List Event :=
  [join 0 0,join 1 1,join 2 2,
    [.received 2 (.text "\x7b\"action\":\"chat\",\"contents\":\"a\"\x7d") 2,
      .received 0 .webSocketDisconnect 3],
    List.replicate 3 (.sent 0 false),List.replicate 2 (.sent 2 false)].flatten

theorem lossy_stays : checkStays .numbered lossy ⟨2,.chat 0⟩ 1 = true := by
  decide +kernel

theorem lossy_runs : ((machine .numbered).run lossy start).any (fun s =>
    decide ((s.handlers 2).pc = .receiving) && decide (s.sentTo ⟨2,.chat 0⟩ 1 = []) &&
      decide (⟨2,.chat 0⟩ ∈ begunCalls s.calls)) = true := by
  decide +kernel

theorem lossy_ends : ∃ s text, (machine .numbered).Reaches lossy s ∧
    (⟨2,.chat 0⟩,text) ∈ s.calls ∧ (∀ i, ¬s.Running ⟨2,.chat 0⟩ i) ∧
    s.sentTo ⟨2,.chat 0⟩ 1 = [] := by
  obtain ⟨s,ran,checked⟩ := (Option.any_eq_true _ _).mp lossy_runs
  simp only [Bool.and_eq_true,decide_eq_true_eq] at checked
  obtain ⟨⟨idle,none⟩,begun⟩ := checked
  obtain ⟨⟨call,text⟩,inside,rfl⟩ := List.mem_map.mp begun
  refine ⟨s,text,ran,inside,?_,none⟩
  rintro i ⟨text',at_⟩
  simp [idle] at at_

theorem lossy_skipped : ∃ s, (machine .numbered).Reaches lossy s ∧ s.sentTo ⟨2,.chat 0⟩ 1 = [] ∧
    Skipped .numbered lossy ⟨2,.chat 0⟩ 1 := by
  obtain ⟨s,text,reached,begun,ended,none⟩ := lossy_ends
  have result := once_iff_unskipped .numbered lossy s reached ⟨2,.chat 0⟩ text 1 begun ended
    (stays_of_check lossy_stays)
  refine ⟨s,reached,none,?_⟩
  by_contra unskipped
  have once := result.mpr unskipped
  simp [none] at once

/-- Client 1 is in the list all the time and is not sent the chat. -/
theorem lossy_misses : ¬∀ env es s, (machine env).Reaches es s → ∀ call text y,
    (call,text) ∈ s.calls → (∀ i, ¬s.Running call i) → Stays env es call y →
    s.sentTo call y = [text] := by
  intro once
  obtain ⟨s,text,reached,begun,ended,none⟩ := lossy_ends
  have sent := once .numbered lossy s reached _ text 1 begun ended (stays_of_check lossy_stays)
  simp [none] at sent

end Wschat.Py
