import Mathlib.Data.List.Induction

/-! Labelled machines given by a partial step function. An event names the party that
moves together with every choice the environment makes for it, so one list of events is
one interleaving and a run can be evaluated. -/
namespace Wschat

structure Machine (σ ε : Type) where
  start : σ
  step : σ → ε → Option σ

namespace Machine

variable {σ ε : Type} (m : Machine σ ε)

def run : List ε → σ → Option σ
  | [], s => some s
  | e :: es, s => (m.step s e).bind (run es)

/-- `es` is a schedule the machine can follow from its start, and it ends in `s`. -/
def Reaches (es : List ε) (s : σ) : Prop := m.run es m.start = some s

def Reachable (s : σ) : Prop := ∃ es, m.Reaches es s

theorem run_cons (e : ε) (es : List ε) (s final : σ) :
    m.run (e :: es) s = some final ↔ ∃ next, m.step s e = some next ∧ m.run es next = some final :=
  Option.bind_eq_some_iff

theorem run_append (es fs : List ε) (s : σ) :
    m.run (es ++ fs) s = (m.run es s).bind (m.run fs) := by
  induction es generalizing s with
  | nil => rfl
  | cons e es ih =>
    simp only [List.cons_append,run]
    cases m.step s e with
    | none => rfl
    | some next => exact ih next

theorem run_concat (es : List ε) (e : ε) (s final : σ) :
    m.run (es ++ [e]) s = some final ↔ ∃ middle, m.run es s = some middle ∧
      m.step middle e = some final := by
  rw [run_append]
  cases m.run es s <;> simp [run]

theorem reaches_nil (s : σ) : m.Reaches [] s ↔ s = m.start := by
  simp [Reaches,run,eq_comm]

theorem reaches_concat (es : List ε) (e : ε) (s : σ) :
    m.Reaches (es ++ [e]) s ↔ ∃ middle, m.Reaches es middle ∧ m.step middle e = some s :=
  m.run_concat es e m.start s

theorem reaches_append (es fs : List ε) (s : σ) :
    m.Reaches (es ++ fs) s ↔ ∃ middle, m.Reaches es middle ∧ m.run fs middle = some s := by
  unfold Reaches
  rw [run_append]
  cases m.run es m.start <;> simp

theorem Reaches.unique (first : m.Reaches es s) (second : m.Reaches es s') : s = s' :=
  Option.some.inj (first.symm.trans second)

/-- Induction along a schedule, adding the last event. -/
theorem reaches_induction {motive : List ε → σ → Prop} (initial : motive [] m.start)
    (preserved : ∀ es s e next, m.Reaches es s → motive es s → m.step s e = some next →
      motive (es ++ [e]) next)
    {es : List ε} {s : σ} (reached : m.Reaches es s) : motive es s := by
  induction es using List.reverseRecOn generalizing s with
  | nil => rw [(m.reaches_nil s).mp reached]; exact initial
  | append_singleton es e ih =>
    obtain ⟨middle,before,stepped⟩ := (m.reaches_concat es e s).mp reached
    exact preserved es middle e s before (ih before) stepped

theorem invariant (property : σ → Prop) (initial : property m.start)
    (preserved : ∀ s e next, property s → m.step s e = some next → property next)
    {es : List ε} {s : σ} (reached : m.Reaches es s) : property s :=
  m.reaches_induction (motive := fun _ s => property s) initial
    (fun _ s e next _ holds stepped => preserved s e next holds stepped) reached

theorem run_invariant (property : σ → Prop)
    (preserved : ∀ s e next, property s → m.step s e = some next → property next)
    {es : List ε} {s final : σ} (holds : property s) (ran : m.run es s = some final) :
    property final := by
  induction es generalizing s with
  | nil => simpa [run] using Option.some.inj ran ▸ holds
  | cons e es ih =>
    cases stepped : m.step s e with
    | none => simp [run,stepped] at ran
    | some next => exact ih (preserved s e next holds stepped) (by simpa [run,stepped] using ran)

/-- Some schedule leads from `s` to `t`. -/
def Leads (s t : σ) : Prop := ∃ es, m.run es s = some t

theorem Leads.refl (s : σ) : m.Leads s s := ⟨[],rfl⟩

theorem Leads.step (stepped : m.step s e = some t) : m.Leads s t := ⟨[e],by simp [run,stepped]⟩

theorem Leads.trans (first : m.Leads s t) (second : m.Leads t u) : m.Leads s u := by
  obtain ⟨es,ran⟩ := first
  obtain ⟨fs,further⟩ := second
  exact ⟨es ++ fs,by rw [run_append,ran]; exact further⟩

theorem Reachable.leads (reachable : m.Reachable s) (leads : m.Leads s t) : m.Reachable t := by
  obtain ⟨es,reached⟩ := reachable
  obtain ⟨fs,ran⟩ := leads
  exact ⟨es ++ fs,(m.reaches_append es fs t).mpr ⟨s,reached,ran⟩⟩

theorem Reaches.leads (reached : m.Reaches es s) (leads : m.Leads s t) :
    ∃ fs, m.Reaches (es ++ fs) t := by
  obtain ⟨fs,ran⟩ := leads
  exact ⟨fs,(m.reaches_append es fs t).mpr ⟨s,reached,ran⟩⟩

theorem leads_invariant (property : σ → Prop)
    (preserved : ∀ s e next, property s → m.step s e = some next → property next)
    (holds : property s) (leads : m.Leads s t) : property t := by
  obtain ⟨es,ran⟩ := leads
  exact m.run_invariant property preserved holds ran

/-- While the goal is not reached, some schedule makes the measure smaller; so some schedule
reaches the goal. -/
theorem leads_to (measure : σ → Nat) (inside goal : σ → Prop)
    (down : ∀ s, m.Reachable s → inside s → ¬goal s →
      ∃ t, m.Leads s t ∧ inside t ∧ measure t < measure s)
    (s : σ) (reachable : m.Reachable s) (here : inside s) : ∃ t, m.Leads s t ∧ goal t := by
  induction size : measure s using Nat.strongRecOn generalizing s with
  | ind k ih =>
    by_cases done : goal s
    · exact ⟨s,.refl m s,done⟩
    · obtain ⟨t,leads,there,less⟩ := down s reachable here done
      obtain ⟨u,further,reaches⟩ := ih (measure t) (by omega) t (reachable.leads m leads) there rfl
      exact ⟨u,leads.trans m further,reaches⟩

section Bounded

variable (measure : σ → Nat) (inside : σ → Prop) (allowed : ε → Prop)
  (down : ∀ s e next, inside s → allowed e → m.step s e = some next →
    inside next ∧ measure next < measure s)

include down

/-- Steps that each lower a measure are no more than the measure. -/
theorem run_bounded (here : inside s) (all : ∀ e ∈ es, allowed e) (ran : m.run es s = some final) :
    inside final ∧ es.length + measure final ≤ measure s := by
  induction es generalizing s with
  | nil =>
    obtain rfl := Option.some.inj ran
    exact ⟨here,by simp⟩
  | cons e es ih =>
    obtain ⟨next,stepped,rest⟩ := (m.run_cons e es s final).mp ran
    obtain ⟨there,less⟩ := down s e next here (all e (by simp)) stepped
    obtain ⟨last,bound⟩ := ih there (fun e' later => all e' (by simp [later])) rest
    exact ⟨last,by simp only [List.length_cons]; omega⟩

/-- If one of them can be taken wherever the goal is not reached, they reach it. -/
theorem run_to (goal : σ → Prop)
    (progress : ∀ s, inside s → ¬goal s → ∃ e, allowed e ∧ (m.step s e).isSome = true)
    (s : σ) (here : inside s) :
    ∃ es final, (∀ e ∈ es, allowed e) ∧ m.run es s = some final ∧ inside final ∧ goal final := by
  induction size : measure s using Nat.strongRecOn generalizing s with
  | ind k ih =>
    by_cases done : goal s
    · exact ⟨[],s,by simp,rfl,here,done⟩
    · obtain ⟨e,ok,enabled⟩ := progress s here done
      obtain ⟨next,stepped⟩ := Option.isSome_iff_exists.mp enabled
      obtain ⟨there,less⟩ := down s e next here ok stepped
      obtain ⟨es,final,all,ran,last,reached⟩ := ih (measure next) (by omega) next there rfl
      refine ⟨e :: es,final,?_,(m.run_cons e es s final).mpr ⟨next,stepped,ran⟩,last,reached⟩
      intro e' member
      rcases List.mem_cons.mp member with rfl | later
      · exact ok
      · exact all e' later

end Bounded

/-- Every step of the schedule is taken from a state that meets the condition. -/
def Meets (condition : σ → ε → Prop) (es : List ε) : Prop :=
  ∀ before e after s, es = before ++ e :: after → m.Reaches before s → condition s e

theorem Meets.init {condition : σ → ε → Prop} (meets : m.Meets condition (es ++ [e])) :
    m.Meets condition es := by
  intro before e' after s eq reached
  exact meets before e' (after ++ [e]) s (by simp [eq]) reached

theorem Meets.last {condition : σ → ε → Prop} (meets : m.Meets condition (es ++ [e]))
    (reached : m.Reaches es s) : condition s e :=
  meets es e [] s rfl reached

theorem Meets.front {condition : σ → ε → Prop} (meets : m.Meets condition (es ++ fs)) :
    m.Meets condition es := by
  intro before e after s eq reached
  exact meets before e (after ++ fs) s (by simp [eq]) reached

/-- Events that meet the condition in every state may follow. -/
theorem Meets.append {condition : σ → ε → Prop} (meets : m.Meets condition es)
    (always : ∀ e ∈ fs, ∀ s, condition s e) : m.Meets condition (es ++ fs) := by
  intro before e after s eq reached
  rcases List.append_eq_append_iff.mp eq with ⟨middle,-,later⟩ | ⟨middle,earlier,later⟩
  · exact always e (by simp [later]) s
  · cases middle with
    | nil =>
      rw [List.nil_append] at later
      exact always e (by simp [← later]) s
    | cons first rest =>
      obtain ⟨rfl,-⟩ := List.cons.inj later
      exact meets before e rest s earlier reached

/-- `Meets`, computed along the schedule from `s`. -/
def check (condition : σ → ε → Bool) : List ε → σ → Bool
  | [], _ => true
  | e :: es, s => condition s e && ((m.step s e).map (check condition es)).getD true

theorem check_run {condition : σ → ε → Bool} {s t : σ}
    (checked : m.check condition (before ++ e :: after) s = true)
    (ran : m.run before s = some t) : condition t e = true := by
  induction before generalizing s with
  | nil =>
    obtain rfl := Option.some.inj ran
    exact (Bool.and_eq_true_iff.mp checked).1
  | cons first before ih =>
    obtain ⟨next,stepped,ran⟩ := (m.run_cons first before s t).mp ran
    have later := (Bool.and_eq_true_iff.mp checked).2
    simp only [stepped,Option.map_some,Option.getD_some] at later
    exact ih later ran

theorem meets_of_check (condition : σ → ε → Bool) {property : σ → ε → Prop}
    (enough : ∀ s e, condition s e = true → property s e)
    (checked : m.check condition es m.start = true) : m.Meets property es := by
  rintro before e after s rfl reached
  exact enough s e (m.check_run checked reached)

/-- An invariant that only the steps meeting a condition preserve, along a schedule
whose steps all meet it. -/
theorem invariant_of_meets (condition : σ → ε → Prop) (property : σ → Prop)
    (initial : property m.start)
    (preserved : ∀ s e next, property s → condition s e → m.step s e = some next → property next)
    {es : List ε} {s : σ} (meets : m.Meets condition es) (reached : m.Reaches es s) :
    property s := by
  refine m.reaches_induction (motive := fun es s => m.Meets condition es → property s)
    (fun _ => initial) ?_ reached meets
  intro es s e next reached ih stepped meets
  exact preserved s e next (ih meets.init) (meets.last m reached) stepped

end Machine

/-- Replace one entry of a table. -/
def replace [DecidableEq α] (f : α → β) (a : α) (value : β) : α → β :=
  fun other => if other = a then value else f other

@[simp] theorem replace_same [DecidableEq α] (f : α → β) (a : α) (value : β) :
    replace f a value a = value := by simp [replace]

@[simp] theorem replace_other [DecidableEq α] (f : α → β) (a other : α) (value : β)
    (h : other ≠ a) : replace f a value other = f other := by simp [replace,h]

/-- What holds of every entry, and of the new one, holds of every entry afterwards. -/
theorem replace_forall [DecidableEq α] {R : α → β → Prop} {f : α → β} {a : α} {b : β}
    (all : ∀ x, R x (f x)) (here : R a b) (x : α) : R x (replace f a b x) := by
  by_cases same : x = a
  · subst same; simpa using here
  · simpa [same] using all x

end Wschat
