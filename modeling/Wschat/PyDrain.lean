import Wschat.PyHandlers
import Wschat.Workers

/-! The handlers of the Python server come to rest. A broadcast walks the live list of clients,
which grows under it; but only as many can still be added as have not been greeted yet. -/
namespace Wschat.Py

open Workers

/-- The event ends an await of a handler, and is not one from a client. -/
def Event.isInner : Event → Bool
  | .accepted _ _ _ | .sent _ _ | .greeted _ _ | .replied _ => true
  | .connect _ | .received _ _ _ => false

def Event.connect? : Event → Option Conn
  | .connect c => some c
  | _ => none

def connects (es : List Event) : List Conn := es.filterMap Event.connect?

def Pc.joining : Pc → Nat
  | .accepting | .sending .connect _ _ | .greeting => 1
  | _ => 0

/-- The awaits of a handler to come, with `most` clients at the most. -/
def Pc.work (most : Nat) : Pc → Nat
  | .accepting => most + 3
  | .sending .connect index _ => most - index + 2
  | .sending _ index _ => most - index + 1
  | .greeting | .replying => 1
  | .absent | .receiving | .returned _ => 0

section Work

variable (conns : List Conn) (s : State)

/-- How long the list of clients can get. -/
def State.most : Nat := s.clients.length + (conns.map fun c => (s.handlers c).pc.joining).sum

def State.work : Nat := (conns.map fun c => (s.handlers c).pc.work (s.most conns)).sum

def Within : Prop := ∀ c, c ∉ conns → (s.handlers c).pc = .absent

end Work

/-- Every handler waits for its client or has returned; the clients are the waiting ones and
those whose error reply has raised. -/
structure AtRest (s : State) : Prop where
  handlers : ∀ c, (s.handlers c).pc = .absent ∨ (s.handlers c).pc = .receiving ∨
    ∃ exit, (s.handlers c).pc = .returned exit
  clients : ∀ c, c ∈ s.clients ↔
    (s.handlers c).pc = .receiving ∨ (s.handlers c).pc = .returned .replyRaised

section Drops

variable {conns : List Conn} {s next : State} {c : Conn}

theorem work_mono (more : m ≤ m') (pc : Pc) : pc.work m ≤ pc.work m' := by
  cases pc with
  | sending kind index text => cases kind <;> simp only [Pc.work] <;> omega
  | accepting => simp only [Pc.work]; omega
  | absent | greeting | receiving | replying | returned => exact Nat.le_refl _

/-- What a handler does on its own to the measure. -/
structure Drops (s : State) (c : Conn) (next : State) : Prop where
  others : ∀ d, d ≠ c → (next.handlers d).pc = (s.handlers d).pc
  joining : next.clients.length + (next.handlers c).pc.joining ≤
    s.clients.length + (s.handlers c).pc.joining
  fewer : (next.handlers c).pc.joining ≤ (s.handlers c).pc.joining
  work : ∀ most, s.clients.length ≤ most →
    (next.handlers c).pc.work most < (s.handlers c).pc.work most

theorem drops_most (drops : Drops s c next) (member : c ∈ conns) : next.most conns ≤ s.most conns := by
  have joining := drops.joining
  have fewer := drops.fewer
  have others (d : Conn) (_ : d ∈ conns) :
      (next.handlers d).pc.joining ≤ (s.handlers d).pc.joining := by
    by_cases same : d = c
    · rw [same]; exact fewer
    · rw [drops.others d same]
  have sum := sum_drop_one (f := fun d => (s.handlers d).pc.joining)
    (g := fun d => (next.handlers d).pc.joining) member
    ((s.handlers c).pc.joining - (next.handlers c).pc.joining) others (by omega)
  simp only [State.most]
  omega

theorem drops_work (drops : Drops s c next) (member : c ∈ conns) : next.work conns < s.work conns := by
  have most := drops_most drops member
  refine sum_drop_one member 1 (fun d _ => ?_) ?_
  · by_cases same : d = c
    · rw [same]
      exact (work_mono most _).trans (drops.work _ (Nat.le_add_right _ _)).le
    · rw [drops.others d same]
      exact work_mono most _
  · have less := drops.work (s.most conns) (Nat.le_add_right _ _)
    have here := work_mono most (next.handlers c).pc
    omega

/-- The loop of a broadcast goes to the next client, or on behind the loop. -/
theorem advance_drops (advanced : Advance s c index text kind next) :
    (∀ d, d ≠ c → (next.handlers d).pc = (s.handlers d).pc) ∧
    next.clients.length ≤ s.clients.length ∧
    (next.handlers c).pc.joining ≤ (Pc.sending kind index text).joining ∧
    ∀ most, s.clients.length ≤ most →
      (next.handlers c).pc.work most < (Pc.sending kind index text).work most := by
  cases advanced with
  | send kind ws found =>
    have inside := (List.getElem?_eq_some_iff.mp found).1
    refine ⟨fun d other => by simp [State.goto,State.sendText,other],Nat.le_refl _,?_,fun most below => ?_⟩
    · cases kind <;> simp [State.goto,Pc.joining]
    · cases kind <;> simp only [State.goto,State.sendText,replace_same,Pc.work] <;> omega
  | greet ended =>
    refine ⟨fun d other => by simp [State.goto,other],Nat.le_refl _,by simp [State.goto,Pc.joining],?_⟩
    intro most below
    simp only [State.goto,replace_same,Pc.work]
    omega
  | receive k ended =>
    refine ⟨fun d other => by simp [State.goto,other],Nat.le_refl _,by simp [State.goto,Pc.joining],?_⟩
    intro most below
    simp [State.goto,Pc.work]
  | remove ended member =>
    refine ⟨fun d other => by simp [State.goto,other],List.length_erase_le,by simp [State.goto,Pc.joining],?_⟩
    intro most below
    simp [State.goto,Pc.work]
  | removeRaised ended absent =>
    refine ⟨fun d other => by simp [State.goto,other],Nat.le_refl _,by simp [State.goto,Pc.joining],?_⟩
    intro most below
    simp [State.goto,Pc.work]

theorem inner_drops (moved : Move env s e next) (inner : e.isInner = true) :
    ∃ c, (s.handlers c).pc ≠ .absent ∧ Drops s c next := by
  cases moved with
  | connect | badJson | chat | leave => simp [Event.isInner] at inner
  | acceptRaised c now at_ =>
    refine ⟨c,by simp [at_],fun d other => by simp [State.goto,other],?_,?_,fun most _ => ?_⟩ <;>
      simp [State.goto,at_,Pc.joining,Pc.work]
  | greetingRaised c at_ =>
    refine ⟨c,by simp [at_],fun d other => by simp [State.goto,other],?_,?_,fun most _ => ?_⟩ <;>
      simp [State.goto,at_,Pc.joining,Pc.work]
  | add c at_ =>
    refine ⟨c,by simp [at_],fun d other => by simp [State.goto,State.add,other],?_,?_,fun most _ => ?_⟩ <;>
      simp [State.goto,State.add,at_,Pc.joining,Pc.work]
  | replied c at_ =>
    refine ⟨c,by simp [at_],fun d other => by simp [State.goto,other],?_,?_,fun most _ => ?_⟩ <;>
      simp [State.goto,at_,Pc.joining,Pc.work]
  | announce c now text next at_ advanced =>
    obtain ⟨others,clients,joining,work⟩ := advance_drops advanced
    have length : (s.enter c .connect text).clients.length = s.clients.length := rfl
    rw [length] at clients work
    refine ⟨c,by simp [at_],fun d other => ?_,?_,?_,fun most below => ?_⟩
    · rw [others d other]
      simp [State.enter,State.record,State.goto,other]
    · rw [at_]
      exact Nat.add_le_add clients joining
    · rw [at_]
      exact joining
    · have less := work most below
      rw [at_]
      simp only [Pc.work] at less ⊢
      omega
  | loop c raised kind index text next at_ advanced =>
    obtain ⟨others,clients,joining,work⟩ := advance_drops advanced
    refine ⟨c,by simp [at_],others,?_,?_,fun most below => ?_⟩
    · rw [at_]
      exact Nat.add_le_add clients joining
    · rw [at_]
      exact joining
    · rw [at_]
      exact work most below

end Drops

section Rest

variable {env : Env}

/-- Sound, with its handlers in a list. -/
def Settling (conns : List Conn) (s : State) : Prop := Sound s ∧ Within conns s

theorem inner_work (conns : List Conn) (s : State) (e : Event) (next : State)
    (settling : Settling conns s) (inner : e.isInner = true) (stepped : step env s e = some next) :
    Settling conns next ∧ next.work conns < s.work conns := by
  have moved := step_move env s next e stepped
  obtain ⟨c,active,drops⟩ := inner_drops moved inner
  have member : c ∈ conns := by
    by_contra outside
    exact active (settling.2 c outside)
  refine ⟨⟨move_sound moved settling.1,fun d outside => ?_⟩,drops_work drops member⟩
  have other : d ≠ c := fun same => outside (same ▸ member)
  rw [drops.others d other]
  exact settling.2 d outside

theorem connects_concat (es : List Event) (e : Event) :
    connects (es ++ [e]) = connects es ++ e.connect?.toList := by
  rw [connects,connects,List.filterMap_append]
  cases connect : e.connect? <;> simp [connect]

theorem settling (reached : (machine env).Reaches es s) : Settling (connects es) s := by
  refine ⟨reaches_sound reached,?_⟩
  refine (machine env).reaches_induction (motive := fun es s => Within (connects es) s)
    (fun _ _ => rfl) ?_ reached
  intro es s e next before within stepped
  have moved := step_move env s next e stepped
  -- Another handler than `c` is as it was, and `c` is in the list.
  have kept (c : Conn) (others : ∀ d, d ≠ c → (next.handlers d).pc = (s.handlers d).pc)
      (active : (s.handlers c).pc ≠ .absent) (quiet : e.connect? = none) :
      Within (connects (es ++ [e])) next := by
    intro d outside
    rw [connects_concat,quiet,Option.toList_none,List.append_nil] at outside
    have other : d ≠ c := by
      rintro rfl
      exact active (within d outside)
    rw [others d other]
    exact within d outside
  cases inner : e.isInner with
  | true =>
    obtain ⟨c,active,drops⟩ := inner_drops moved inner
    refine kept c drops.others active ?_
    cases e with
    | connect => simp [Event.isInner] at inner
    | accepted | sent | greeted | received | replied => rfl
  | false =>
    cases moved with
    | acceptRaised | greetingRaised | add | replied | announce | loop => simp [Event.isInner] at inner
    | connect c at_ =>
      intro d outside
      rw [connects_concat] at outside
      obtain ⟨outside,other⟩ := not_or.mp (List.mem_append.not.mp outside)
      have other : d ≠ c := by simpa [Event.connect?] using other
      simpa [State.goto,other] using within d outside
    | badJson c frame now at_ =>
      exact kept c (fun d other => by simp [State.goto,other]) (by simp [at_]) rfl
    | chat c frame now msg text next at_ accepted said advanced =>
      refine kept c (fun d other => ?_) (by simp [at_]) rfl
      rw [(advance_drops advanced).1 d other]
      simp [State.enter,State.record,State.goto,State.number,other]
    | leave c result now text next at_ out advanced =>
      refine kept c (fun d other => ?_) (by simp [at_]) rfl
      rw [(advance_drops advanced).1 d other]
      simp [State.enter,State.record,State.goto,other]

theorem inner_enabled (s : State) (sound : Sound s) (busy : ¬AtRest s) :
    ∃ e, e.isInner = true ∧ (step env s e).isSome = true := by
  by_contra none_
  have stuck (e : Event) (inner : e.isInner = true) : step env s e = none := by
    by_contra some_
    exact none_ ⟨e,inner,Option.isSome_iff_ne_none.mpr some_⟩
  have handlers (c : Conn) : (s.handlers c).pc = .absent ∨ (s.handlers c).pc = .receiving ∨
      ∃ exit, (s.handlers c).pc = .returned exit := by
    cases at_ : (s.handlers c).pc with
    | absent => exact .inl rfl
    | receiving => exact .inr (.inl rfl)
    | returned exit => exact .inr (.inr ⟨exit,rfl⟩)
    | accepting => simpa [step,at_] using stuck (.accepted c true 0) rfl
    | sending kind index text => simpa [step,at_] using stuck (.sent c false) rfl
    | greeting => simpa [step,at_] using stuck (.greeted c true) rfl
    | replying => simpa [step,at_] using stuck (.replied c) rfl
  refine busy ⟨handlers,fun c => ?_⟩
  rw [(sound.life c).listed]
  rcases handlers c with at_ | at_ | ⟨exit,at_⟩ <;> rw [at_]
  · simp [Pc.Listed]
  · simp [Pc.Listed]
  · cases exit <;> simp [Pc.Listed]

end Rest

/-- In whatever order the awaits of the handlers end, and whether they raise, the handlers come
to rest, although every broadcast walks a list to which others add. -/
theorem handlers_settle (env : Env) (es : List Event) (s : State)
    (reached : (machine env).Reaches es s) :
    (∀ fs final, (∀ e ∈ fs, e.isInner = true) → (machine env).run fs s = some final →
      fs.length ≤ s.work (connects es) ∧ (AtRest final ∨
        ∃ e, e.isInner = true ∧ ((machine env).step final e).isSome = true)) ∧
    ∃ fs final, (∀ e ∈ fs, e.isInner = true) ∧ (machine env).run fs s = some final ∧ AtRest final := by
  have here := settling reached
  have progress (s : State) (inside : Settling (connects es) s) (busy : ¬AtRest s) :
      ∃ e, e.isInner = true ∧ ((machine env).step s e).isSome = true :=
    inner_enabled s inside.1 busy
  refine ⟨fun fs final all ran => ?_,?_⟩
  · obtain ⟨inside,bound⟩ := (machine env).run_bounded (State.work (connects es))
      (Settling (connects es)) (fun e => e.isInner = true) (inner_work (connects es)) here all ran
    refine ⟨by omega,?_⟩
    by_cases rest : AtRest final
    · exact .inl rest
    · exact .inr (progress final inside rest)
  · obtain ⟨fs,final,all,ran,-,rest⟩ := (machine env).run_to (State.work (connects es))
      (Settling (connects es)) (fun e => e.isInner = true) (inner_work (connects es)) AtRest progress
      s here
    exact ⟨fs,final,all,ran,rest⟩

/-- Client 1 is being told of client 2, and client 0 is still to be added. -/
def arriving : List Event :=
  [.connect 0,.accepted 0 false 1,.connect 1,.accepted 1 false 2,.greeted 1 false,.connect 2,
    .accepted 2 false 3]

theorem arriving_settles : ∃ s fs final, (machine .numbered).Reaches arriving s ∧
    (machine .numbered).run fs s = some final ∧ AtRest final := by
  have runs : ((machine .numbered).run arriving start).isSome = true := by decide +kernel
  obtain ⟨s,ran⟩ := Option.isSome_iff_exists.mp runs
  obtain ⟨-,fs,final,-,further,rest⟩ := handlers_settle .numbered arriving s ran
  exact ⟨s,fs,final,ran,further,rest⟩

end Wschat.Py
