import Wschat.CppMoves

/-! Strands, strong references and destruction, over all activations of all workers. The
reference counter of a connection is the number of handlers and loops that hold it. -/
namespace Wschat.Cpp

open Workers

/-- The activation is a handler on the strand of `x` that still has its read to start. -/
def Point.rearms (x : Conn) : Point → Nat
  | .send y _ | .reply y _ | .read _ y => if y = x then 1 else 0
  | .loop caller y _ _ => if caller ≠ .disconnect ∧ y = x then 1 else 0
  | .lock op y | .update op y | .unlock op y => if op = .insert ∧ y = x then 1 else 0
  | .drop _ | .leave _ | .free _ => 0

/-- The activation is a handler on the strand of `x`. -/
def Point.handles (x : Conn) (p : Point) : Nat :=
  p.rearms x + match p with
    | .drop y | .leave y => if y = x then 1 else 0
    | _ => 0

/-- The activation is the destructor of `x`. -/
def Point.destroys (x : Conn) : Point → Nat
  | .loop caller y _ _ => if caller = .disconnect ∧ y = x then 1 else 0
  | .lock op y | .update op y | .unlock op y => if op = .erase ∧ y = x then 1 else 0
  | .free y => if y = x then 1 else 0
  | _ => 0

/-- The reference `strong` that a loop holds while it visits `x`. -/
def Point.visits (x : Conn) : Point → Nat
  | .loop _ _ _ (.send y _) | .loop _ _ _ (.drop y _) => if y = x then 1 else 0
  | _ => 0

/-- The reference of the handler object, released at `drop`. -/
def Point.carries (x : Conn) (p : Point) : Nat :=
  p.rearms x + match p with
    | .drop y => if y = x then 1 else 0
    | _ => 0

def Point.strong (x : Conn) (p : Point) : Nat := p.carries x + p.visits x

/-- Handlers of pending operations and posted handlers, each with its reference. -/
def WsConn.pending (c : WsConn) : Nat :=
  c.accepting.toNat + c.reading.toNat + c.writing.toNat + c.posted.length

/-- One connection against what the activations hold of it. -/
structure Local (c : WsConn) (rearms handles destroys strong : Nat) : Prop where
  absent : c.created = false → c = .absent
  refs : c.refs = c.pending + strong
  strand : handles = c.running.toNat
  dying : destroys + c.freed.toNat = c.destroyed.toNat
  dead : c.created = true → (c.destroyed = true ↔ c.refs = 0)
  stage : c.accepting.toNat + c.accepted.toNat + c.rejected.toNat = c.created.toNat
  armed : c.accepting.toNat + c.reading.toNat + rearms ≤ 1
  busy : c.writing = true → c.queue ≠ []
  early : c.accepted = false → c.reading = false ∧ c.received = [] ∧ rearms = 0

def Control (s : State) (ps : Multiset Point) : Prop :=
  ∀ x, Local (s.conns x) (weigh (Point.rearms x) ps) (weigh (Point.handles x) ps)
    (weigh (Point.destroys x) ps) (weigh (Point.strong x) ps)

section Operations

variable {c : WsConn} {a h d r : Nat}

theorem Local.created_of_refs (valid : Local c a h d r) (held : 0 < c.refs) : c.created = true := by
  by_contra absent
  have eq := valid.absent (by simpa using absent)
  simp [eq,WsConn.absent] at held

theorem Local.created_of_accepting (valid : Local c a h d r) (accepting : c.accepting = true) :
    c.created = true := by
  by_contra absent
  have eq := valid.absent (by simpa using absent)
  simp [eq,WsConn.absent] at accepting

theorem Local.alive (valid : Local c a h d r) (held : 0 < c.refs) : c.destroyed = false := by
  by_contra destroyed
  have zero := (valid.dead (valid.created_of_refs held)).mp (by simpa using destroyed)
  omega

theorem Local.upgrade (valid : Local c a h d r) (within : a ≤ h) (fresh : c.created = false) :
    Local c.upgrade a h d r := by
  have eq := valid.absent fresh
  obtain ⟨-,refs,strand,dying,-,-,-,-,-⟩ := valid
  subst eq
  simp only [WsConn.absent,WsConn.pending,Bool.toNat_false,List.length_nil] at refs strand dying
  constructor <;> simp [WsConn.upgrade,WsConn.absent,WsConn.pending] <;> omega

theorem Local.not_accepted (valid : Local c a h d r) (accepting : c.accepting = true) :
    c.accepted = false := by
  have stage := valid.stage
  have := Bool.toNat_le c.created
  by_contra accepted
  simp only [Bool.not_eq_false] at accepted
  simp only [accepting,accepted,Bool.toNat_true] at stage
  omega

theorem Local.accepted_of_reading (valid : Local c a h d r) (reading : c.reading = true) :
    c.accepted = true := by
  by_contra early
  simp [valid.early (by simpa using early)] at reading

theorem Local.accepted_of_rearms (valid : Local c a h d r) (rearms : 0 < a) :
    c.accepted = true := by
  by_contra early
  have := valid.early (by simpa using early)
  omega

theorem Local.accept (valid : Local c a h d r) (failed : Bool) (idle : c.running = false)
    (accepting : c.accepting = true) :
    Local (c.accept failed) (a + (!failed).toNat) (h + 1) d (r + 1) := by
  have created := valid.created_of_accepting accepting
  obtain ⟨quiet,empty,unarmed⟩ := valid.early (valid.not_accepted accepting)
  obtain ⟨-,refs,strand,dying,dead,stage,armed,busy,-⟩ := valid
  simp only [accepting,idle,created,WsConn.pending,Bool.toNat_true,Bool.toNat_false]
    at refs strand stage armed
  constructor
  · simp [WsConn.accept,created]
  · simp [WsConn.accept,WsConn.pending]; omega
  · simp [WsConn.accept]; omega
  · exact dying
  · exact dead
  · cases failed <;> simp [WsConn.accept,created]
  · cases failed <;> simp [WsConn.accept] <;> omega
  · exact busy
  · cases failed <;> simp [WsConn.accept,quiet,empty,unarmed]

theorem Local.created_of_reading (valid : Local c a h d r) (reading : c.reading = true) :
    c.created = true := by
  apply valid.created_of_refs
  have := valid.refs
  simp only [WsConn.pending,reading,Bool.toNat_true] at this
  omega

/-- `handle` is entered, on either path; it still rearms unless the read failed. -/
theorem Local.handle (valid : Local c a h d r) (idle : c.running = false)
    (reading : c.reading = true) (buffer : String) (received : List Receipt) (again : Bool) :
    Local { c with reading := false, running := true, buffer := buffer, received := received }
      (a + again.toNat) (h + 1) d (r + 1) := by
  have created := valid.created_of_reading reading
  have accepted := valid.accepted_of_reading reading
  obtain ⟨-,refs,strand,dying,dead,stage,armed,busy,early⟩ := valid
  simp only [reading,idle,WsConn.pending,Bool.toNat_true,Bool.toNat_false] at refs strand armed
  constructor
  · simp [created]
  · simp [WsConn.pending]; omega
  · simp; omega
  · exact dying
  · exact dead
  · exact stage
  · cases again <;> simp <;> omega
  · exact busy
  · simp [accepted]

theorem Local.onWrite (valid : Local c a h d r) (failed : Bool) (idle : c.running = false)
    (writing : c.writing = true) : Local (c.onWrite failed) a (h + 1) d (r + 1) := by
  have held : 0 < c.refs := by
    have := valid.refs
    simp only [WsConn.pending,writing,Bool.toNat_true] at this
    omega
  have created := valid.created_of_refs held
  have alive := valid.alive held
  obtain ⟨-,refs,strand,dying,dead,stage,armed,busy,early⟩ := valid
  simp only [writing,idle,WsConn.pending,Bool.toNat_true,Bool.toNat_false] at refs strand
  unfold WsConn.onWrite
  split
  case isTrue => constructor <;> simp_all [WsConn.pending]; all_goals omega
  case isFalse =>
    split
    case isTrue => constructor <;> simp_all [WsConn.pending]; all_goals omega
    case isFalse => constructor <;> simp_all [WsConn.pending]; all_goals omega

theorem Local.onSend (valid : Local c a h d r) (ss : Text) (rest : List Text)
    (idle : c.running = false) (posted : c.posted = ss :: rest) :
    Local (c.onSend ss rest) a (h + 1) d (r + 1) := by
  have held : 0 < c.refs := by
    have := valid.refs
    simp only [WsConn.pending,posted,List.length_cons] at this
    omega
  have created := valid.created_of_refs held
  have alive := valid.alive held
  have quiet : c.queue = [] → c.writing = false := by
    intro empty
    by_contra writing
    exact valid.busy (by simpa using writing) empty
  obtain ⟨-,refs,strand,dying,dead,stage,armed,-,early⟩ := valid
  simp only [posted,idle,WsConn.pending,Bool.toNat_false,List.length_cons] at refs strand
  unfold WsConn.onSend
  dsimp only
  split
  case isTrue => constructor <;> simp_all [WsConn.pending]; all_goals omega
  case isFalse short =>
    have empty : c.queue = [] := by
      apply List.eq_nil_of_length_eq_zero
      simp only [List.length_append,List.length_singleton] at short
      omega
    have still := quiet empty
    constructor <;> simp_all [WsConn.pending]; all_goals omega

theorem Local.post (valid : Local c a h d r) (ss : Text) (held : 0 < c.refs) :
    Local (c.post ss) a h d r := by
  have created := valid.created_of_refs held
  have alive := valid.alive held
  obtain ⟨-,refs,strand,dying,dead,stage,armed,busy,early⟩ := valid
  constructor <;> simp_all [WsConn.post,WsConn.pending]; all_goals omega

theorem Local.retain (valid : Local c a h d r) (held : 0 < c.refs) :
    Local c.retain a h d (r + 1) := by
  have created := valid.created_of_refs held
  have alive := valid.alive held
  obtain ⟨-,refs,strand,dying,dead,stage,armed,busy,early⟩ := valid
  constructor <;> simp_all [WsConn.retain,WsConn.pending]; all_goals omega

theorem Local.release (valid : Local c a h d r) (holds : 0 < r) (more : c.refs ≠ 1) :
    Local c.release a h d (r - 1) := by
  have held : 0 < c.refs := by have := valid.refs; omega
  have created := valid.created_of_refs held
  have alive := valid.alive held
  obtain ⟨-,refs,strand,dying,dead,stage,armed,busy,early⟩ := valid
  have several : (c.refs == 1) = false := by simpa using more
  constructor
  · simp [WsConn.release,created]
  · simp only [WsConn.release,WsConn.pending] at refs ⊢; omega
  · exact strand
  · simpa [WsConn.release,alive,several] using dying
  · simp [WsConn.release,alive,several]; omega
  · exact stage
  · exact armed
  · exact busy
  · exact early

/-- The last release starts the destructor. -/
theorem Local.releaseLast (valid : Local c a h d r) (holds : 0 < r) (last : c.refs = 1) :
    Local c.release a h (d + 1) (r - 1) := by
  have created := valid.created_of_refs (by omega)
  have alive := valid.alive (by omega)
  obtain ⟨-,refs,strand,dying,dead,stage,armed,busy,early⟩ := valid
  constructor <;> simp_all [WsConn.release,WsConn.pending]; all_goals omega

theorem Local.read (valid : Local c a h d r) (rearms : 0 < a) (holds : 0 < r) (buffer : String) :
    Local { c with buffer := buffer, reading := true, refs := c.refs + 1 } (a - 1) h d r := by
  have held : 0 < c.refs := by have := valid.refs; omega
  have created := valid.created_of_refs held
  have alive := valid.alive held
  have accepted := valid.accepted_of_rearms rearms
  obtain ⟨-,refs,strand,dying,dead,stage,armed,busy,early⟩ := valid
  have unarmed : c.reading = false := by
    by_contra reading
    simp only [Bool.not_eq_false] at reading
    simp only [reading,Bool.toNat_true] at armed
    omega
  constructor <;> simp_all [WsConn.pending]; all_goals omega

theorem Local.leave (valid : Local c a h d r) (handles : 0 < h) :
    Local { c with running := false } a (h - 1) d r := by
  have created : c.created = true := by
    by_contra absent
    have eq := valid.absent (by simpa using absent)
    have := valid.strand
    simp [eq,WsConn.absent] at this
    omega
  obtain ⟨-,refs,strand,dying,dead,stage,armed,busy,early⟩ := valid
  have running : c.running = true := by
    by_contra idle
    simp_all
  constructor <;> simp_all [WsConn.pending]

theorem Local.free (valid : Local c a h d r) (destroys : 0 < d) :
    Local { c with freed := true } a h (d - 1) r := by
  have created : c.created = true := by
    by_contra absent
    have eq := valid.absent (by simpa using absent)
    have := valid.dying
    simp [eq,WsConn.absent] at this
    omega
  obtain ⟨-,refs,strand,dying,dead,stage,armed,busy,early⟩ := valid
  have bound := Bool.toNat_le c.destroyed
  have live : c.freed = false := by
    by_contra freed
    simp_all
    omega
  constructor <;> simp_all [WsConn.pending]
  omega

theorem Local.cast (valid : Local c a h d r) (ea : a' = a) (eh : h' = h) (ed : d' = d)
    (er : r' = r) : Local c a' h' d' r' := by
  subst ea eh ed er
  exact valid

end Operations

attribute [local simp] Point.rearms Point.handles Point.destroys Point.strong Point.carries
  Point.visits

theorem rearms_le_handles (x : Conn) (p : Point) : p.rearms x ≤ p.handles x := by
  simp [Point.handles]

theorem initial_control : Control .initial 0 := by
  intro x
  constructor <;> simp [State.initial,WsConn.absent,WsConn.pending]

theorem upgrade_control (s : State) (ps : Multiset Point) (x : Conn) (valid : Control s ps)
    (fresh : (s.conns x).created = false) : Control (s.modify x .upgrade) ps := by
  intro z
  by_cases same : z = x
  · subst z
    simpa using (valid x).upgrade (weigh_mono (rearms_le_handles x) ps) fresh
  · simpa [same] using valid z

/-- A loop that holds `strong` of `y`, or a handler of `y`, keeps its counter positive. -/
theorem Control.held (valid : Control s ps) (member : p ∈ ps) (strong : 0 < p.strong x) :
    0 < (s.conns x).refs := by
  have := (valid x).refs
  have := le_weigh (Point.strong x) member
  omega

section Moves

variable {s : State} {old new : List Point} {others : Multiset Point}

/-- What two stacks hold of a connection. -/
def Alike (z : Conn) (old new : List Point) : Prop :=
  (old.map (Point.rearms z)).sum = (new.map (Point.rearms z)).sum ∧
  (old.map (Point.handles z)).sum = (new.map (Point.handles z)).sum ∧
  (old.map (Point.destroys z)).sum = (new.map (Point.destroys z)).sum ∧
  (old.map (Point.strong z)).sum = (new.map (Point.strong z)).sum

theorem Control.same {next : State} (valid : Control s (↑old + others)) (conns : next.conns = s.conns)
    (alike : ∀ z, Alike z old new) : Control next (↑new + others) := by
  intro z
  have here := valid z
  obtain ⟨rearms,handles,destroys,strong⟩ := alike z
  simpa only [conns,weigh_add,weigh_coe,rearms,handles,destroys,strong] using here

/-- A step that changes one connection, and nothing that is held of another. -/
theorem Control.change (valid : Control s (↑old + others)) (x : Conn) (f : WsConn → WsConn)
    (apart : ∀ z, x ≠ z → Alike z old new)
    (changed : Local (s.conns x) ((old.map (Point.rearms x)).sum + weigh (Point.rearms x) others)
        ((old.map (Point.handles x)).sum + weigh (Point.handles x) others)
        ((old.map (Point.destroys x)).sum + weigh (Point.destroys x) others)
        ((old.map (Point.strong x)).sum + weigh (Point.strong x) others) →
      Local (f (s.conns x)) ((new.map (Point.rearms x)).sum + weigh (Point.rearms x) others)
        ((new.map (Point.handles x)).sum + weigh (Point.handles x) others)
        ((new.map (Point.destroys x)).sum + weigh (Point.destroys x) others)
        ((new.map (Point.strong x)).sum + weigh (Point.strong x) others)) :
    Control (s.modify x f) (↑new + others) := by
  intro z
  have here := valid z
  by_cases same : x = z
  · subst same
    simp only [weigh_add,weigh_coe] at here ⊢
    rw [modify_conns,if_pos rfl]
    exact changed here
  · obtain ⟨rearms,handles,destroys,strong⟩ := apart z same
    simpa only [modify_conns,if_neg (Ne.symm same),weigh_add,weigh_coe,rearms,handles,destroys,strong]
      using here

end Moves

attribute [local simp] Alike

theorem move_control (env : Env) (t : Thread) (s next : State) (old new : List Point)
    (others : Multiset Point) (valid : Control s (↑old + others))
    (moved : Move env t s old next new) : Control next (↑new + others) := by
  have held (x : Conn) (p : Point) (top : old = [p]) (strong : 0 < p.strong x) :
      0 < (s.conns x).refs := valid.held (p := p) (by simp [top]) strong
  cases moved with
  | accept x now idle accepting =>
    refine valid.change x _ (by simp +contextual) fun here => ?_
    refine (here.accept false idle accepting).cast ?_ ?_ ?_ ?_ <;> simp <;> omega
  | acceptError x idle accepting =>
    refine valid.change x _ (by simp +contextual) fun here => ?_
    refine (here.accept true idle accepting).cast ?_ ?_ ?_ ?_ <;> simp <;> omega
  | readError x idle reading =>
    refine valid.change x _ (by simp +contextual) fun here => ?_
    refine (here.handle idle reading _ _ false).cast ?_ ?_ ?_ ?_ <;> simp <;> omega
  | broadcast x payload text now residue idle reading decoded =>
    refine valid.change x _ (by simp +contextual) fun here => ?_
    refine (here.handle idle reading _ _ true).cast ?_ ?_ ?_ ?_ <;> simp <;> omega
  | badMessage x payload text now residue idle reading decoded =>
    refine valid.change x _ (by simp +contextual) fun here => ?_
    refine (here.handle idle reading _ _ true).cast ?_ ?_ ?_ ?_ <;> simp <;> omega
  | write x failed idle writing =>
    refine valid.change x _ (by simp +contextual) fun here => ?_
    refine (here.onWrite failed idle writing).cast ?_ ?_ ?_ ?_ <;> simp <;> omega
  | onSend x ss rest idle posted =>
    refine valid.change x _ (by simp +contextual) fun here => ?_
    refine (here.onSend ss rest idle posted).cast ?_ ?_ ?_ ?_ <;> simp <;> omega
  | send x ss =>
    refine valid.change x _ (by simp +contextual) fun here => ?_
    refine (here.post ss (held _ _ rfl (by simp))).cast ?_ ?_ ?_ ?_ <;> simp
  | reply x ss =>
    refine valid.change x _ (by simp +contextual) fun here => ?_
    refine (here.post ss (held _ _ rfl (by simp))).cast ?_ ?_ ?_ ?_ <;> simp
  | lockShared caller x ss order free perm => exact valid.same rfl fun z => by simp
  | unlockShared caller x ss => exact valid.same rfl fun z => by cases caller <;> simp [afterLoop]
  | retain caller x ss y todo alive =>
    refine valid.change y _ (by simp +contextual) fun here => ?_
    refine (here.retain alive).cast ?_ ?_ ?_ ?_ <;> simp; omega
  | expired caller x ss y todo dead => exact valid.same rfl fun z => by simp
  | post caller x ss y todo =>
    refine valid.change y _ (by simp +contextual) fun here => ?_
    refine (here.post ss (held _ _ rfl (by simp))).cast ?_ ?_ ?_ ?_ <;> simp
  | release caller x ss y todo more =>
    refine valid.change y _ (by simp +contextual) fun here => ?_
    refine (here.release (by simp) more).cast ?_ ?_ ?_ ?_ <;> simp
  | releaseLast caller x ss y todo now last =>
    refine valid.change y _ (by simp +contextual [destructor]) fun here => ?_
    refine (here.releaseLast (by simp) last).cast ?_ ?_ ?_ ?_ <;> simp [destructor]; omega
  | lock | insert | erase | unlockInsert | unlockErase => exact valid.same rfl fun z => by simp
  | read consume x =>
    refine valid.change x _ (by simp +contextual) fun here => ?_
    refine (here.read (by simp) (by simp) _).cast ?_ ?_ ?_ ?_ <;> simp
  | drop x more =>
    refine valid.change x _ (by simp +contextual) fun here => ?_
    refine (here.release (by simp) more).cast ?_ ?_ ?_ ?_ <;> simp
  | dropLast x now last =>
    refine valid.change x _ (by simp +contextual [destructor]) fun here => ?_
    refine (here.releaseLast (by simp) last).cast ?_ ?_ ?_ ?_ <;> simp [destructor]; omega
  | leave x =>
    refine valid.change x _ (by simp +contextual) fun here => ?_
    refine (here.leave (by simp)).cast ?_ ?_ ?_ ?_ <;> simp
  | free x =>
    refine valid.change x _ (by simp +contextual) fun here => ?_
    refine (here.free (by simp)).cast ?_ ?_ ?_ ?_ <;> simp

/-- The reference counters, strands and destructors are accounted for in every run. -/
theorem control (env : Env) (workers : Nat) (reached : (machine env workers).Reaches es s) :
    Control s.state (activations s.threads) :=
  points_invariant env workers Control initial_control
    (fun _ s x _ valid fresh => upgrade_control s.state _ x valid fresh)
    (fun _ s t old next new others _ _ valid moved =>
      move_control env t s.state next old new others valid moved) reached

end Wschat.Cpp
