import Wschat.WebClient

/-! Events of sockets that the page has replaced. The handlers act on the page whichever
socket has fired; an event of another socket than the one in `ws` is harmless only in the
states listed by `Harmless`. -/
namespace Wschat.Web

namespace Page

@[simp] theorem insert_ws (env : Env) (p : Page) (new : Shown) : (p.insert env new).ws = p.ws := rfl
@[simp] theorem insert_isOpen (env : Env) (p : Page) (new : Shown) :
    (p.insert env new).isOpen = p.isOpen := rfl
@[simp] theorem insert_uuid (env : Env) (p : Page) (new : Shown) :
    (p.insert env new).uuid = p.uuid := rfl
@[simp] theorem insert_sockets (env : Env) (p : Page) (new : Shown) :
    (p.insert env new).sockets = p.sockets := rfl
@[simp] theorem insert_created (env : Env) (p : Page) (new : Shown) :
    (p.insert env new).created = p.created := rfl

@[simp] theorem reset_ws (p : Page) : p.reset.ws = none := rfl
@[simp] theorem reset_uuid (p : Page) : p.reset.uuid = .string "" := rfl
@[simp] theorem reset_messages (p : Page) : p.reset.messages = [] := rfl

@[simp] theorem reset_isOpen (p : Page) : p.reset.isOpen = (p.isOpen && p.ws.isNone) := by
  simp only [reset]
  split
  · next connected =>
    simp only [isConnected,Bool.and_eq_true] at connected
    cases ws : p.ws <;> simp_all
  · next apart =>
    simp only [isConnected,Bool.and_eq_true,not_and,Bool.not_eq_true] at apart
    cases open_ : p.isOpen with
    | false => simp
    | true => simpa using apart open_

@[simp] theorem reset_created (p : Page) : p.reset.created = p.created := by
  simp only [reset,closeWs]
  split
  · split <;> rfl
  · rfl

/-- Only the socket in `ws` is closed. -/
theorem reset_sockets (p : Page) (d : Nat) (other : p.ws ≠ some d) :
    p.reset.sockets d = p.sockets d := by
  simp only [reset,closeWs]
  split
  · split
    · next c at_ =>
      have apart : d ≠ c := by
        rintro rfl
        exact other at_
      simp [setSocket,apart]
    · rfl
  · rfl

@[simp] theorem reset_opened (p : Page) (d : Nat) :
    (p.reset.sockets d).opened = (p.sockets d).opened := by
  simp only [reset,closeWs]
  split
  · split
    · next c at_ =>
      by_cases same : d = c
      · subst same; simp [setSocket,Socket.close]
      · simp [setSocket,same]
    · rfl
  · rfl

end Page

/-- The four things an event of another socket must leave alone. -/
structure Same (p next : Page) : Prop where
  isOpen : next.isOpen = p.isOpen
  ws : next.ws = p.ws
  uuid : next.uuid = p.uuid
  spared : ∀ d, p.ws = some d → (next.sockets d).closedByPage = (p.sockets d).closedByPage

def Untouched (p : Page) (e : Event) (next : Page) : Prop :=
  ∀ c, e.socket = some c → p.ws ≠ some c → Same p next

/-- A connected page has an open socket. -/
def Page.Live (p : Page) : Prop := p.isConnected = true →
  ∃ c, p.ws = some c ∧ (p.sockets c).opened = true ∧ (p.sockets c).closedByPage = false

/-- A page without a socket and a name, where `reset` changes nothing. -/
def Page.Idle (p : Page) : Prop := p.ws = none ∧ p.uuid = .string ""

/-- The states in which an event of another socket than the one in `ws` does no harm. -/
def Harmless (env : Env) (p : Page) : Event → Prop
  | .connectToWs _ | .changeServer _ _ => True
  | .opened c => p.ws ≠ some c → p.isOpen = true
  | .message c data => p.ws ≠ some c →
    match env.parse data with
    | none => p.Idle
    | some msg =>
      match switch msg.action with
      | .connect => p.uuid = .string "" → msg.contents = .string ""
      | .chat => True
      | .disconnect => msg.contents = p.uuid → p.Idle
      | .error | .default => p.Idle
  | .error c => p.ws ≠ some c → p.Idle
  | .closed c => p.ws ≠ some c → p.isConnected = false

theorem setSocket_same (p : Page) (other : p.ws ≠ some c) (s : Socket) : Same p (p.setSocket c s) := by
  refine ⟨rfl,rfl,rfl,?_⟩
  intro d at_
  have apart : d ≠ c := by
    rintro rfl
    exact other at_
  simp [Page.setSocket,apart]

theorem Same.trans (first : Same p q) (second : Same q r) : Same p r where
  isOpen := second.isOpen.trans first.isOpen
  ws := second.ws.trans first.ws
  uuid := second.uuid.trans first.uuid
  spared := fun d at_ => (second.spared d (by rw [first.ws]; exact at_)).trans (first.spared d at_)

theorem reset_same_iff (same : Same p q) : Same p q.reset ↔ p.Idle := by
  constructor
  · intro kept
    exact ⟨kept.ws.symm,kept.uuid.symm⟩
  · rintro ⟨noSocket,nameless⟩
    have none : q.ws = none := same.ws.trans noSocket
    exact ⟨by simp [none,same.isOpen],by simp [noSocket],by simp [nameless],by simp [noSocket]⟩

theorem insert_same_iff (env : Env) (new : Shown) : Same p (q.insert env new) ↔ Same p q :=
  ⟨fun same => ⟨same.isOpen,same.ws,same.uuid,same.spared⟩,
    fun same => ⟨same.isOpen,same.ws,same.uuid,same.spared⟩⟩

theorem message_same_iff (env : Env) (data : String) (same : Same p q) :
    Same p (q.messageHandler env c data) ↔
      match env.parse data with
      | none => p.Idle
      | some msg =>
        match switch msg.action with
        | .connect => p.uuid = .string "" → msg.contents = .string ""
        | .chat => True
        | .disconnect => msg.contents = p.uuid → p.Idle
        | .error | .default => p.Idle := by
  unfold Page.messageHandler
  cases env.parse data with
  | none => exact reset_same_iff same
  | some msg =>
    simp only
    cases switch msg.action with
    | connect =>
      simp only [insert_same_iff,same.uuid]
      split
      · next nameless =>
        simp only [nameless,true_implies]
        constructor
        · intro kept
          exact kept.uuid.trans nameless
        · intro empty
          exact ⟨same.isOpen,same.ws,by rw [nameless]; exact empty,same.spared⟩
      · next named => simp [named,same]
    | chat => simp [insert_same_iff,same]
    | disconnect =>
      simp only [insert_same_iff,same.uuid]
      split
      · next mine => simp [mine,reset_same_iff same]
      · next other => simp [other,same]
    | error => exact (insert_same_iff env _).trans (reset_same_iff same)
    | default => exact reset_same_iff same

/-- A step leaves the page alone exactly where the event is harmless. -/
theorem harmless_iff (stepped : step env p e = some next) :
    Harmless env p e ↔ Untouched p e next := by
  cases e with
  | connectToWs | changeServer => simp [Harmless,Untouched,Event.socket]
  | opened c =>
    simp only [step] at stepped
    split at stepped
    · obtain rfl := Option.some.inj stepped
      simp only [Harmless,Untouched,Event.socket,Option.some.injEq,forall_eq']
      apply forall_congr'
      intro stale
      have same := setSocket_same p stale { p.sockets c with phase := .open_, opened := true }
      constructor
      · intro opened
        exact ⟨opened.symm,same.ws,same.uuid,same.spared⟩
      · intro kept
        exact kept.isOpen.symm
    · contradiction
  | message c data =>
    simp only [step] at stepped
    split at stepped
    · obtain rfl := Option.some.inj stepped
      simp only [Harmless,Untouched,Event.socket,Option.some.injEq,forall_eq']
      apply forall_congr'
      intro stale
      exact (message_same_iff env data (setSocket_same p stale _)).symm
    · contradiction
  | error c =>
    simp only [step] at stepped
    split at stepped
    · obtain rfl := Option.some.inj stepped
      simp only [Harmless,Untouched,Event.socket,Option.some.injEq,forall_eq']
      apply forall_congr'
      intro stale
      exact (reset_same_iff (setSocket_same p stale _)).symm
    · contradiction
  | closed c =>
    simp only [step] at stepped
    split at stepped
    · obtain rfl := Option.some.inj stepped
      simp only [Harmless,Untouched,Event.socket,Option.some.injEq,forall_eq']
      apply forall_congr'
      intro stale
      have same := setSocket_same p stale { p.sockets c with phase := .closed }
      have connection : (p.setSocket c { p.sockets c with phase := .closed }).isConnected =
          p.isConnected := rfl
      simp only [Page.closeHandler,connection]
      split
      · next connected =>
        simp only [connected,Bool.true_eq_false,false_iff,reset_same_iff same]
        rintro ⟨noSocket,-⟩
        simp [Page.isConnected,noSocket] at connected
      · next apart =>
        have apart : p.isConnected = false := by simpa using apart
        simp [apart,same]
    · contradiction

/-- What `connectToWs` leaves before it makes a socket. -/
def Page.released (p : Page) : Page := if p.isConnected then p.reset else p

/-- The new socket of `connectToWs`. -/
def Page.install (p : Page) : Page :=
  { p with ws := some p.created, sockets := replace p.sockets p.created .new, created := p.created + 1 }

theorem released_apart (p : Page) : p.released.isConnected = false := by
  unfold Page.released
  split
  · simp [Page.isConnected]
  · next apart => simpa using apart

theorem connectToWs_eq (p : Page) (throws : Bool) :
    p.connectToWs throws = if throws then p.released else p.released.install := rfl

theorem deliver_closedByPage (env : Env) (data : String) (s : Socket) :
    (s.deliver env data).closedByPage = s.closedByPage := by
  unfold Socket.deliver
  split <;> rfl

theorem deliver_opened (env : Env) (data : String) (s : Socket) :
    (s.deliver env data).opened = s.opened := by
  unfold Socket.deliver
  split <;> rfl

section Rules

/-! What the parts of the handlers preserve, every step preserves. -/

variable {P : Page → Prop}

theorem connectToWs_rule (reset : ∀ p, P p → P p.reset)
    (install : ∀ p, p.isConnected = false → P p → P p.install) (throws : Bool) (holds : P p) :
    P (p.connectToWs throws) := by
  have released : P p.released := by
    unfold Page.released
    split
    · exact reset p holds
    · exact holds
  rw [connectToWs_eq]
  split
  · exact released
  · exact install p.released (released_apart p) released

theorem messageHandler_rule (env : Env) (reset : ∀ p, P p → P p.reset)
    (insert : ∀ p new, P p → P (p.insert env new)) (rename : ∀ p uuid, P p → P { p with uuid })
    (c : Nat) (data : String) (holds : P p) : P (p.messageHandler env c data) := by
  unfold Page.messageHandler
  split
  · exact reset p holds
  · split
    · apply insert
      split
      · exact rename p _ holds
      · exact holds
    · exact insert p _ holds
    · apply insert
      split
      · exact reset p holds
      · exact holds
    · exact insert p.reset _ (reset p holds)
    · exact reset p holds

/-- `opened` and `delivered` are about the events of the step, the rest about any page. -/
theorem step_rule (env : Env) (reset : ∀ p, P p → P p.reset)
    (install : ∀ p, p.isConnected = false → P p → P p.install)
    (insert : ∀ p new, P p → P (p.insert env new)) (rename : ∀ p uuid, P p → P { p with uuid })
    (opened : ∀ c, e = .opened c → c < p.created →
      P (p.setSocket c { p.sockets c with phase := .open_, opened := true }).openHandler)
    (delivered : ∀ c data, c < p.created → (p.sockets c).phase = .open_ →
      P (p.setSocket c ((p.sockets c).deliver env data)))
    (ended : ∀ c phase, c < p.created → phase = .failed ∨ phase = .closed →
      P (p.setSocket c { p.sockets c with phase }))
    (stepped : step env p e = some next) (holds : P p) : P next := by
  cases e with
  | connectToWs throws =>
    obtain rfl := Option.some.inj stepped
    exact connectToWs_rule reset install throws holds
  | changeServer known throws =>
    obtain rfl := Option.some.inj stepped
    simp only [Page.changeServer]
    split
    · exact connectToWs_rule reset install throws holds
    · exact reset p holds
  | opened c =>
    simp only [step] at stepped
    split at stepped
    · next enabled =>
      obtain rfl := Option.some.inj stepped
      exact opened c rfl enabled.1
    · contradiction
  | message c data =>
    simp only [step] at stepped
    split at stepped
    · next enabled =>
      obtain rfl := Option.some.inj stepped
      exact messageHandler_rule env reset insert rename c data (delivered c data enabled.1 enabled.2)
    · contradiction
  | error c =>
    simp only [step] at stepped
    split at stepped
    · next enabled =>
      obtain rfl := Option.some.inj stepped
      exact reset _ (ended c .failed enabled.1 (.inl rfl))
    · contradiction
  | closed c =>
    simp only [step] at stepped
    split at stepped
    · next enabled =>
      obtain rfl := Option.some.inj stepped
      have after := ended c .closed enabled.1 (.inr rfl)
      simp only [Page.closeHandler]
      split
      · exact reset _ after
      · exact after
    · contradiction

end Rules

/-- What holds of the page while every event is harmless. -/
structure Sound (p : Page) : Prop where
  fresh : ∀ c, p.created ≤ c → p.sockets c = .new
  current : ∀ c, p.ws = some c → c < p.created ∧ (p.sockets c).closedByPage = false
  live : p.isOpen = true → ∃ c, p.ws = some c ∧ (p.sockets c).opened = true

theorem sound_mounted : Sound mounted := ⟨fun _ _ => rfl,by simp [mounted],by simp [mounted]⟩

theorem Sound.reset (sound : Sound p) : Sound p.reset where
  fresh := by
    intro c later
    have other : p.ws ≠ some c := by
      intro at_
      exact absurd (sound.current c at_).1 (by simpa using later)
    rw [Page.reset_sockets p c other]
    exact sound.fresh c (by simpa using later)
  current := by simp
  live := by
    intro opened
    simp only [Page.reset_isOpen,Bool.and_eq_true] at opened
    obtain ⟨c,at_,-⟩ := sound.live opened.1
    simp [at_] at opened

theorem Sound.insert (env : Env) (sound : Sound p) (new : Shown) : Sound (p.insert env new) :=
  ⟨sound.fresh,sound.current,sound.live⟩

theorem Sound.setSocket (sound : Sound p) (old : c < p.created)
    (closed : s.closedByPage = (p.sockets c).closedByPage)
    (opened : (p.sockets c).opened = true → s.opened = true) : Sound (p.setSocket c s) where
  fresh := by
    intro d later
    have apart : d ≠ c := by
      rintro rfl
      exact absurd old (by simpa [Page.setSocket] using later)
    simpa [Page.setSocket,apart] using sound.fresh d later
  current := by
    intro d at_
    obtain ⟨created,unclosed⟩ := sound.current d at_
    refine ⟨created,?_⟩
    by_cases same : d = c
    · subst same; simpa [Page.setSocket,closed] using unclosed
    · simpa [Page.setSocket,same] using unclosed
  live := by
    intro open_
    obtain ⟨d,at_,already⟩ := sound.live open_
    refine ⟨d,at_,?_⟩
    by_cases same : d = c
    · subst same; simpa [Page.setSocket] using opened already
    · simpa [Page.setSocket,same] using already

theorem Sound.install (sound : Sound p) (apart : p.isConnected = false) : Sound p.install where
  fresh := by
    intro c later
    have other : c ≠ p.created := Nat.ne_of_gt later
    simp only [Page.install,replace_other _ _ _ _ other]
    exact sound.fresh c (Nat.le_of_succ_le later)
  current := by
    intro c at_
    obtain rfl := Option.some.inj at_
    simp [Page.install,Socket.new]
  live := by
    intro open_
    have open_ : p.isOpen = true := open_
    obtain ⟨c,at_,-⟩ := sound.live open_
    simp [Page.isConnected,at_,open_] at apart

theorem step_sound (sound : Sound p) (harmless : Harmless env p e)
    (stepped : step env p e = some next) : Sound next := by
  apply step_rule env (fun _ sound => sound.reset) (fun _ apart sound => sound.install apart)
    (fun _ new sound => sound.insert env new) (fun _ _ sound => ⟨sound.fresh,sound.current,sound.live⟩)
    _ _ _ stepped sound
  · rintro c rfl old
    have sound' := sound.setSocket (s := { p.sockets c with phase := .open_, opened := true })
      old rfl (fun _ => rfl)
    refine ⟨sound'.fresh,sound'.current,?_⟩
    intro _
    by_cases mine : p.ws = some c
    · exact ⟨c,mine,by simp [Page.openHandler,Page.setSocket]⟩
    · exact sound'.live (harmless mine)
  · intro c data old _
    apply sound.setSocket old (deliver_closedByPage env data _)
    rw [deliver_opened]
    exact id
  · exact fun c phase old _ => sound.setSocket old rfl id

theorem Sound.page_live (sound : Sound p) : p.Live := by
  intro connected
  simp only [Page.isConnected,Bool.and_eq_true] at connected
  obtain ⟨c,at_,opened⟩ := sound.live connected.1
  exact ⟨c,at_,opened,(sound.current c at_).2⟩

/-- Along the schedule, events of replaced sockets change nothing, and a connected page has
an open socket. -/
structure StaleSafe (env : Env) (es : List Event) : Prop where
  untouched : ∀ before e after p next, es = before ++ e :: after →
    (machine env).Reaches before p → step env p e = some next → Untouched p e next
  live : ∀ before after p, es = before ++ after → (machine env).Reaches before p → p.Live

theorem harmless_sound (harmless : (machine env).Meets (Harmless env) es)
    (reached : (machine env).Reaches es p) : Sound p :=
  (machine env).invariant_of_meets (Harmless env) Sound sound_mounted
    (fun _ _ _ sound fine stepped => step_sound sound fine stepped) harmless reached

theorem stale_safe_iff (env : Env) (es : List Event) (p : Page)
    (reached : (machine env).Reaches es p) :
    StaleSafe env es ↔ (machine env).Meets (Harmless env) es := by
  constructor
  · intro safe before e after q eq first
    subst eq
    obtain ⟨middle,arrived,rest⟩ := ((machine env).reaches_append before (e :: after) p).mp reached
    obtain rfl := arrived.unique _ first
    obtain ⟨next,stepped,-⟩ := ((machine env).run_cons e after middle p).mp rest
    exact (harmless_iff stepped).mpr (safe.untouched before e after middle next rfl first stepped)
  · intro harmless
    constructor
    · intro before e after q next eq first stepped
      exact (harmless_iff stepped).mp (harmless before e after q eq first)
    · intro before after q eq first
      subst eq
      exact (harmless_sound (harmless.front _) first).page_live

/-- Data that is no JSON. -/
def Env.silent : Env := ⟨fun _ => none,fun _ _ => false⟩

/-- A switch of servers, the second one opening after the close of the first. -/
def switched : List Event :=
  [.changeServer true false,.opened 0,.changeServer true false,.closed 0,.opened 1]

/-- The event is one of the current socket, or a close that finds no connection. -/
def quiet (p : Page) (e : Event) : Bool :=
  e.socket.all fun c => p.ws = some c || (e = .closed c && !p.isConnected)

theorem quiet_harmless (env : Env) (p : Page) (e : Event) (quiet : quiet p e = true) :
    Harmless env p e := by
  cases e with
  | connectToWs | changeServer => trivial
  | opened c | message c data | error c =>
    have mine : p.ws = some c := by simpa [Web.quiet,Event.socket] using quiet
    exact fun stale => absurd mine stale
  | closed c =>
    have either : p.ws = some c ∨ p.isConnected = false := by
      simpa [Web.quiet,Event.socket] using quiet
    exact fun stale => either.resolve_left stale

theorem switched_runs : ((machine .silent).run switched mounted).isSome = true := by decide

theorem switched_safe : StaleSafe .silent switched := by
  obtain ⟨p,ran⟩ := Option.isSome_iff_exists.mp switched_runs
  apply (stale_safe_iff .silent switched p ran).mpr
  exact (machine .silent).meets_of_check quiet (quiet_harmless .silent) (by decide)

/-- A second server is chosen while the first socket is connecting, which then opens. -/
def hasty : List Event := [.changeServer true false,.changeServer true false,.opened 0]

theorem hasty_runs : ((machine .silent).run hasty mounted).any (fun p =>
    p.isConnected && decide (p.ws = some 1) && !(p.sockets 1).opened) = true := by decide

theorem hasty_unsafe : ¬∀ env es p, (machine env).Reaches es p → StaleSafe env es := by
  intro safe
  obtain ⟨p,ran,checked⟩ := (Option.any_eq_true _ _).mp hasty_runs
  simp only [Bool.and_eq_true,decide_eq_true_eq,Bool.not_eq_true'] at checked
  obtain ⟨⟨connected,current⟩,unopened⟩ := checked
  obtain ⟨c,at_,opened,-⟩ := (safe .silent hasty p ran).live hasty [] p (by simp) ran connected
  rw [current] at at_
  obtain rfl := Option.some.inj at_
  simp [unopened] at opened

end Wschat.Web
