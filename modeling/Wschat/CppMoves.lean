import Wschat.CppServer
import Wschat.Workers

/-! What one step can do, said once. A move replaces the activation on top of a stack;
every invariant of the server is checked against the moves and not against `step`. -/
namespace Wschat.Cpp

open Workers

/-- One strong reference of `x` is left. -/
def State.Last (s : State) (x : Conn) : Prop := (s.conns x).refs = 1

inductive Move (env : Env) (t : Thread) : State → List Point → State → List Point → Prop where
  | accept (s : State) (x : Conn) (now : Int64) :
      (s.conns x).running = false → (s.conns x).accepting = true →
      Move env t s [] (s.modify x (.accept false)) [.send x (connectText env x now)]
  | acceptError (s : State) (x : Conn) :
      (s.conns x).running = false → (s.conns x).accepting = true →
      Move env t s [] (s.modify x (.accept true)) [.drop x]
  | readError (s : State) (x : Conn) :
      (s.conns x).running = false → (s.conns x).reading = true →
      Move env t s [] (s.modify x .readError) [.drop x]
  | broadcast (s : State) (x : Conn) (payload text : String) (now residue : Int64) :
      (s.conns x).running = false → (s.conns x).reading = true →
      outcome env.lib ((s.conns x).buffer ++ payload) now residue = .broadcast text →
      Move env t s [] (s.modify x (.receive payload now residue))
        [.loop .handle x ⟨⟨x,.frame (s.conns x).received.length⟩,text⟩ .enter]
  | badMessage (s : State) (x : Conn) (payload text : String) (now residue : Int64) :
      (s.conns x).running = false → (s.conns x).reading = true →
      outcome env.lib ((s.conns x).buffer ++ payload) now residue = .reply text →
      Move env t s [] (s.modify x (.receive payload now residue))
        [.reply x ⟨⟨x,.reply (s.conns x).received.length⟩,text⟩]
  | write (s : State) (x : Conn) (failed : Bool) :
      (s.conns x).running = false → (s.conns x).writing = true →
      Move env t s [] (s.modify x (.onWrite failed)) [.drop x]
  | onSend (s : State) (x : Conn) (ss : Text) (rest : List Text) :
      (s.conns x).running = false → (s.conns x).posted = ss :: rest →
      Move env t s [] (s.modify x (.onSend ss rest)) [.drop x]
  | send (s : State) (x : Conn) (ss : Text) :
      Move env t s [.send x ss] (s.modify x (.post ss)) [.loop .connect x ss .enter]
  | reply (s : State) (x : Conn) (ss : Text) :
      Move env t s [.reply x ss] (s.modify x (.post ss)) [.read true x]
  | lockShared (s : State) (caller : Caller) (x : Conn) (ss : Text) (order : List Conn) :
      s.mtx.writer = none → order.Perm s.clients →
      Move env t s [.loop caller x ss .enter]
        { s with mtx := { s.mtx with readers := t :: s.mtx.readers }, history := s.history ++ [ss] }
        [.loop caller x ss (.next order)]
  | unlockShared (s : State) (caller : Caller) (x : Conn) (ss : Text) :
      Move env t s [.loop caller x ss (.next [])]
        { s with mtx := { s.mtx with readers := s.mtx.readers.erase t }
                 completed := s.completed ++
                   [(ss,s.clients.filter fun y => 0 < (s.conns y).refs)] }
        [afterLoop caller x]
  | retain (s : State) (caller : Caller) (x : Conn) (ss : Text) (y : Conn) (todo : List Conn) :
      0 < (s.conns y).refs →
      Move env t s [.loop caller x ss (.next (y :: todo))] (s.modify y .retain)
        [.loop caller x ss (.send y todo)]
  | expired (s : State) (caller : Caller) (x : Conn) (ss : Text) (y : Conn) (todo : List Conn) :
      (s.conns y).refs = 0 →
      Move env t s [.loop caller x ss (.next (y :: todo))] s [.loop caller x ss (.next todo)]
  | post (s : State) (caller : Caller) (x : Conn) (ss : Text) (y : Conn) (todo : List Conn) :
      Move env t s [.loop caller x ss (.send y todo)] (s.modify y (.post ss))
        [.loop caller x ss (.drop y todo)]
  | release (s : State) (caller : Caller) (x : Conn) (ss : Text) (y : Conn) (todo : List Conn) :
      (s.conns y).refs ≠ 1 →
      Move env t s [.loop caller x ss (.drop y todo)] (s.modify y .release)
        [.loop caller x ss (.next todo)]
  | releaseLast (s : State) (caller : Caller) (x : Conn) (ss : Text) (y : Conn)
      (todo : List Conn) (now : Int64) : s.Last y →
      Move env t s [.loop caller x ss (.drop y todo)] (s.modify y .release)
        [destructor env y now,.loop caller x ss (.next todo)]
  | lock (s : State) (op : SetOp) (x : Conn) :
      s.mtx.writer = none → s.mtx.readers = [] →
      Move env t s [.lock op x] { s with mtx := { s.mtx with writer := some t } } [.update op x]
  | insert (s : State) (x : Conn) :
      Move env t s [.update .insert x] { s with clients := s.clients.insert x }
        [.unlock .insert x]
  | erase (s : State) (x : Conn) :
      Move env t s [.update .erase x] { s with clients := s.clients.erase x } [.unlock .erase x]
  | unlockInsert (s : State) (x : Conn) :
      Move env t s [.unlock .insert x] { s with mtx := { s.mtx with writer := none } }
        [.read false x]
  | unlockErase (s : State) (x : Conn) :
      Move env t s [.unlock .erase x] { s with mtx := { s.mtx with writer := none } } [.free x]
  | read (s : State) (consume : Bool) (x : Conn) :
      Move env t s [.read consume x]
        (s.modify x fun c => { c with buffer := if consume then "" else c.buffer
                                      reading := true, refs := c.refs + 1 }) [.drop x]
  | drop (s : State) (x : Conn) : (s.conns x).refs ≠ 1 →
      Move env t s [.drop x] (s.modify x .release) [.leave x]
  | dropLast (s : State) (x : Conn) (now : Int64) : s.Last x →
      Move env t s [.drop x] (s.modify x .release) [destructor env x now,.leave x]
  | leave (s : State) (x : Conn) :
      Move env t s [.leave x] (s.modify x fun c => { c with running := false }) []
  | free (s : State) (x : Conn) :
      Move env t s [.free x] (s.modify x fun c => { c with freed := true }) []

theorem Move.one (moved : Move env t s old next new) : old = [] ∨ ∃ p, old = [p] := by
  cases moved <;> simp

theorem exec_move (env : Env) (s : State) (t : Thread) (order : List Conn) (now : Int64)
    (p : Point) (next : State × List Point) (ran : exec env s t order now p = some next) :
    Move env t s [p] next.1 next.2 := by
  cases p with
  | send x ss => obtain rfl := Option.some.inj ran; exact .send s x ss
  | reply x ss => obtain rfl := Option.some.inj ran; exact .reply s x ss
  | loop caller x ss progress =>
    rcases progress with _ | (_ | ⟨y,todo⟩) | ⟨y,todo⟩ | ⟨y,todo⟩ <;> simp only [exec] at ran
    · split at ran
      case isTrue h => obtain rfl := Option.some.inj ran; exact .lockShared s caller x ss order h.1 h.2
      case isFalse => contradiction
    · obtain rfl := Option.some.inj ran; exact .unlockShared s caller x ss
    · split at ran
      case isTrue h => obtain rfl := Option.some.inj ran; exact .retain s caller x ss y todo h
      case isFalse h =>
        obtain rfl := Option.some.inj ran; exact .expired s caller x ss y todo (by omega)
    · obtain rfl := Option.some.inj ran; exact .post s caller x ss y todo
    · obtain rfl := Option.some.inj ran
      by_cases last : (s.conns y).refs = 1
      · have move : Move env t s _ _ _ := .releaseLast s caller x ss y todo now last
        simpa [dropping,last] using move
      · have move : Move env t s _ _ _ := .release s caller x ss y todo last
        simpa [dropping,last] using move
  | lock op x =>
    simp only [exec] at ran
    split at ran
    case isTrue h => obtain rfl := Option.some.inj ran; exact .lock s op x h.1 h.2
    case isFalse => contradiction
  | update op x =>
    cases op
    · obtain rfl := Option.some.inj ran; exact .insert s x
    · obtain rfl := Option.some.inj ran; exact .erase s x
  | unlock op x =>
    cases op
    · obtain rfl := Option.some.inj ran; exact .unlockInsert s x
    · obtain rfl := Option.some.inj ran; exact .unlockErase s x
  | read consume x => obtain rfl := Option.some.inj ran; exact .read s consume x
  | drop x =>
    obtain rfl := Option.some.inj ran
    by_cases last : (s.conns x).refs = 1
    · have move : Move env t s _ _ _ := .dropLast s x now last
      simpa [dropping,last] using move
    · have move : Move env t s _ _ _ := .drop s x last
      simpa [dropping,last] using move
  | leave x => obtain rfl := Option.some.inj ran; exact .leave s x
  | free x => obtain rfl := Option.some.inj ran; exact .free s x

/-- A step makes a connection object, or is a move of one worker. -/
theorem step_cases (env : Env) (s next : System) (e : Event) (stepped : step env s e = some next) :
    (∃ x, (s.state.conns x).created = false ∧
      next = { s with state := s.state.modify x .upgrade }) ∨
    ∃ t old new rest, s.threads[t]? = some (old ++ rest) ∧
      (old = [] → rest = []) ∧ Move env t s.state old next.state new ∧
      next.threads = s.threads.set t (new ++ rest) := by
  have entered {t : Thread} {x : Conn} {f : WsConn → WsConn} {p : Point} (ready : s.Ready t x)
      (eq : next = s.enter t x f p) (move : Move env t s.state [] (s.state.modify x f) [p]) :
      ∃ t old new rest, s.threads[t]? = some (old ++ rest) ∧ (old = [] → rest = []) ∧
        Move env t s.state old next.state new ∧ next.threads = s.threads.set t (new ++ rest) := by
    subst eq
    exact ⟨t,[],[p],[],by simpa using ready.1,fun _ => rfl,move,rfl⟩
  cases e with
  | upgrade x =>
    simp only [step] at stepped
    split at stepped
    case isTrue => contradiction
    case isFalse fresh =>
      exact .inl ⟨x,by simpa using fresh,(Option.some.inj stepped).symm⟩
  | accept t x failed now =>
    simp only [step] at stepped
    split at stepped
    case isFalse => contradiction
    case isTrue h =>
      have eq := (Option.some.inj stepped).symm
      cases failed
      · exact .inr (entered h.1 eq (.accept s.state x now h.1.2 h.2))
      · exact .inr (entered h.1 eq (.acceptError s.state x h.1.2 h.2))
  | read t x payload now residue =>
    simp only [step] at stepped
    split at stepped
    case isFalse => contradiction
    case isTrue h =>
      cases payload with
      | none =>
        exact .inr (entered h.1 (Option.some.inj stepped).symm (.readError s.state x h.1.2 h.2))
      | some p =>
        have eq := (Option.some.inj stepped).symm
        simp only [handlePoint] at eq
        cases result : outcome env.lib ((s.state.conns x).buffer ++ p) now residue with
        | broadcast text =>
          rw [result] at eq
          exact .inr (entered h.1 eq (.broadcast s.state x p text now residue h.1.2 h.2 result))
        | reply text =>
          rw [result] at eq
          exact .inr (entered h.1 eq (.badMessage s.state x p text now residue h.1.2 h.2 result))
  | write t x failed =>
    simp only [step] at stepped
    split at stepped
    case isFalse => contradiction
    case isTrue h =>
      exact .inr (entered h.1 (Option.some.inj stepped).symm (.write s.state x failed h.1.2 h.2))
  | send t x =>
    simp only [step] at stepped
    split at stepped
    case h_1 => contradiction
    case h_2 ss rest posted =>
      split at stepped
      case isFalse => contradiction
      case isTrue h =>
        exact .inr (entered h (Option.some.inj stepped).symm
          (.onSend s.state x ss rest h.2 posted))
  | exec t order now =>
    simp only [step] at stepped
    split at stepped
    case h_2 => contradiction
    case h_1 p rest top =>
      obtain ⟨result,ran,rfl⟩ := Option.map_eq_some_iff.mp stepped
      exact .inr ⟨t,[p],result.2,rest,top,by simp,exec_move env s.state t order now p result ran,rfl⟩

/-- Induction over runs for a property of the shared state and of all activations. -/
theorem points_invariant (env : Env) (workers : Nat) (holds : State → Multiset Point → Prop)
    (initial : holds .initial 0)
    (upgrade : ∀ (es : List Event) (s : System) (x : Conn), (machine env workers).Reaches es s →
      holds s.state (activations s.threads) → (s.state.conns x).created = false →
      holds (s.state.modify x .upgrade) (activations s.threads))
    (move : ∀ (es : List Event) (s : System) (t : Thread) (old : List Point) (next : State)
      (new : List Point) (others : Multiset Point), (machine env workers).Reaches es s →
      activations s.threads = ↑old + others → holds s.state (↑old + others) →
      Move env t s.state old next new → holds next (↑new + others))
    (reached : (machine env workers).Reaches es s) : holds s.state (activations s.threads) := by
  refine (machine env workers).reaches_induction
    (motive := fun _ s => holds s.state (activations s.threads)) ?_ ?_ reached
  · simpa [machine,start,activations] using initial
  · intro es s e next reached valid stepped
    rcases step_cases env s next e stepped with ⟨x,fresh,rfl⟩ | ⟨t,old,new,rest,top,-,moved,eq⟩
    · exact upgrade es s x reached valid fresh
    · obtain ⟨others,before,after⟩ := split top
      rw [eq,after new]
      exact move es s t old next.state new others reached before (before ▸ valid) moved

end Wschat.Cpp
