import Wschat.GoHandlers

/-! One broadcast against one channel: a `Range` call sends to a channel at most once, and
holds its lock only in that `Send`. -/
namespace Wschat.Go

/-- The broadcast has not been past `y` yet. -/
def Task.Ahead (y : Conn) : Task → Prop
  | .absent | .spawned _ => True
  | .ranging _ range sending => y ∉ range.visited ∨ ∃ pc, sending = some (y,pc) ∧ pc.Before
  | .done => False

/-- The running broadcast has sent to `y`, or found its channel closed. -/
def Task.Passed (y : Conn) : Task → Prop
  | .ranging _ range sending => y ∈ range.visited ∧ ∀ pc, sending = some (y,pc) → ¬pc.Before
  | _ => False

def Task.sending : Task → Option (Conn × SendPc)
  | .ranging _ _ sending => sending
  | _ => none

def Task.holds (y : Conn) (t : Task) : Bool :=
  match t.sending with
  | some (z,pc) => z = y && pc.holds
  | none => false

/-- The connection a broadcast sends to has been visited. -/
def Task.Within : Task → Prop
  | .ranging _ range sending => ∀ y pc, sending = some (y,pc) → y ∈ range.visited
  | _ => True

/-- Everything the running broadcast has in its `Range` call. -/
def Task.Sees (y : Conn) : Task → Prop
  | .ranging _ range _ => y ∈ range.may ∨ y ∈ range.visited
  | _ => False

abbrev origins (items : List Item) : List Origin := items.map Item.origin

@[simp] theorem stored_ahead (t : Task) (c y : Conn) : (t.stored c).Ahead y ↔ t.Ahead y := by
  cases t <;> rfl
@[simp] theorem deleted_ahead (t : Task) (c y : Conn) : (t.deleted c).Ahead y ↔ t.Ahead y := by
  cases t <;> rfl
@[simp] theorem stored_passed (t : Task) (c y : Conn) : (t.stored c).Passed y ↔ t.Passed y := by
  cases t <;> rfl
@[simp] theorem deleted_passed (t : Task) (c y : Conn) : (t.deleted c).Passed y ↔ t.Passed y := by
  cases t <;> rfl
@[simp] theorem stored_sending (t : Task) (c : Conn) : (t.stored c).sending = t.sending := by
  cases t <;> rfl
@[simp] theorem deleted_sending (t : Task) (c : Conn) : (t.deleted c).sending = t.sending := by
  cases t <;> rfl
@[simp] theorem stored_holds (t : Task) (c y : Conn) : (t.stored c).holds y = t.holds y := by
  simp [Task.holds]
@[simp] theorem deleted_holds (t : Task) (c y : Conn) : (t.deleted c).holds y = t.holds y := by
  simp [Task.holds]

theorem stored_sees {t : Task} (sees : (t.stored c).Sees y) : y = c ∨ t.Sees y := by
  cases t <;> simp [Task.stored,Task.Sees] at sees ⊢
  rcases sees with (same | may) | visited
  · exact .inl same
  · exact .inr (.inl may)
  · exact .inr (.inr visited)
@[simp] theorem deleted_sees (t : Task) (c y : Conn) : (t.deleted c).Sees y ↔ t.Sees y := by
  cases t <;> rfl

structure Pair (o : Origin) (y : Conn) (t : Task) (channel : Channel Origin Item) : Prop where
  once : (origins channel.sent).count o ≤ 1
  ahead : t.Ahead y → (origins channel.sent).count o = 0
  passed : t.Passed y → channel.closed = false → (origins channel.sent).count o = 1
  holding : channel.readers.count o = (t.holds y).toNat
  open_ : t.sending = some (y,.push) → channel.shut = false

/-- The broadcast changes and the channel does not. -/
theorem Pair.task (p : Pair o y t channel) (ahead : t'.Ahead y → t.Ahead y)
    (passed : t'.Passed y → t.Passed y) (holds : t'.holds y = t.holds y)
    (pushing : t'.sending = some (y,.push) → t.sending = some (y,.push)) :
    Pair o y t' channel where
  once := p.once
  ahead := fun a => p.ahead (ahead a)
  passed := fun a => p.passed (passed a)
  holding := by rw [holds]; exact p.holding
  open_ := fun a => p.open_ (pushing a)

/-- The channel changes in nothing that the broadcast depends on. -/
theorem Pair.keep (p : Pair o y t channel)
    (sent : (origins channel'.sent).count o = (origins channel.sent).count o)
    (readers : channel'.readers.count o = channel.readers.count o)
    (closed : channel'.closed = false → channel.closed = false)
    (shut : t.sending = some (y,.push) → channel'.shut = channel.shut) : Pair o y t channel' where
  once := by rw [sent]; exact p.once
  ahead := by rw [sent]; exact p.ahead
  passed := fun a still => by rw [sent]; exact p.passed a (closed still)
  holding := by rw [readers]; exact p.holding
  open_ := fun pushing => by rw [shut pushing]; exact p.open_ pushing

/-- Another broadcast's `Send` into the channel. -/
theorem Pair.other (p : Pair o y t channel) (other : o ≠ o')
    (sent : channel.send o' ⟨o',text⟩ at_ = some (channel',next)) : Pair o y t channel' := by
  cases at_ <;> simp only [Channel.send] at sent
  case rLock =>
    split at sent
    · obtain ⟨rfl,rfl⟩ := Prod.mk.inj (Option.some.inj sent)
      apply p.keep
      · rfl
      · simp [other.symm]
      · exact id
      · exact fun _ => rfl
    · contradiction
  case load =>
    obtain ⟨rfl,rfl⟩ := Prod.mk.inj (Option.some.inj sent)
    exact p
  case push =>
    split at sent
    · obtain ⟨rfl,rfl⟩ := Prod.mk.inj (Option.some.inj sent)
      exact p
    · split at sent
      · obtain ⟨rfl,rfl⟩ := Prod.mk.inj (Option.some.inj sent)
        apply p.keep
        · simp [List.count_append,other.symm]
        · rfl
        · exact id
        · exact fun _ => rfl
      · contradiction
  case rUnlock =>
    obtain ⟨rfl,rfl⟩ := Prod.mk.inj (Option.some.inj sent)
    apply p.keep
    · rfl
    · exact List.count_erase_of_ne other
    · exact id
    · exact fun _ => rfl
  all_goals contradiction

/-- A step of the broadcast's own `Send` into the channel; it does not panic. -/
theorem Pair.own (p : Pair o y (.ranging text range (some (y,pc))) channel)
    (visited : y ∈ range.visited) (shut : channel.closed = false → channel.shut = false)
    (sent : channel.send o ⟨o,text⟩ pc = some (channel',next)) :
    Pair o y (.ranging text range (if next = .returned then none else some (y,next))) channel' ∧
      next ≠ .panicked := by
  have holding := p.holding
  cases pc <;> simp only [Channel.send] at sent
  case rLock =>
    have fresh := p.ahead (.inr ⟨_,rfl,trivial⟩)
    split at sent
    · obtain ⟨rfl,rfl⟩ := Prod.mk.inj (Option.some.inj sent)
      constructor
      · simp only [Task.holds,Task.sending,SendPc.holds] at holding
        constructor <;> simp [Task.Passed,Task.holds,Task.sending,SendPc.holds,fresh,visited,
          SendPc.Before]
        simpa using holding
      · simp
    · contradiction
  case load =>
    have fresh := p.ahead (.inr ⟨_,rfl,trivial⟩)
    obtain ⟨rfl,rfl⟩ := Prod.mk.inj (Option.some.inj sent)
    cases closed : channel.closed with
    | true =>
      constructor
      · constructor <;> simp_all [Task.Ahead,Task.Passed,Task.holds,Task.sending,SendPc.holds,
          SendPc.Before]
      · simp
    | false =>
      constructor
      · constructor <;> simp_all [Task.Ahead,Task.Passed,Task.holds,Task.sending,SendPc.holds,
          SendPc.Before]
      · simp
  case push =>
    have fresh := p.ahead (.inr ⟨_,rfl,trivial⟩)
    have going := p.open_ rfl
    simp only [going,Bool.false_eq_true,if_false] at sent
    split at sent
    · obtain ⟨rfl,rfl⟩ := Prod.mk.inj (Option.some.inj sent)
      constructor
      · constructor <;> simp_all [Task.Ahead,Task.Passed,Task.holds,Task.sending,SendPc.holds,
          SendPc.Before,List.count_append]
      · simp
    · contradiction
  case rUnlock =>
    have once := p.once
    have passed := p.passed ⟨visited,by simp [SendPc.Before]⟩
    obtain ⟨rfl,rfl⟩ := Prod.mk.inj (Option.some.inj sent)
    constructor
    · constructor <;> simp_all [Task.Ahead,Task.Passed,Task.holds,Task.sending,SendPc.holds]
    · simp
  all_goals contradiction

theorem move_within (moved : Move env s e next) (within : ∀ o, (s.tasks o).Within) :
    ∀ o, (next.tasks o).Within := by
  have task := fun o t here => replace_forall (R := fun _ (t : Task) => t.Within) (a := o) (b := t)
    within here
  cases moved with
  | accept | chat | announce => exact task _ _ trivial
  | store d now =>
    intro o
    have before := within o
    cases ranging : s.tasks o <;> simp_all [Task.stored,Task.Within]
  | delete d now =>
    intro o
    have before := within o
    cases ranging : s.tasks o <;> simp_all [Task.deleted,Task.Within]
  | range o text => exact task o _ (by simp [Task.Within])
  | visit o y text range => exact task o _ (by simp [Task.Within])
  | send o y text range pc after ch ranging =>
    have before := within o
    rw [ranging] at before
    apply task o
    intro z pc' here
    split at here
    · contradiction
    · obtain ⟨rfl,-⟩ := Prod.mk.inj (Option.some.inj here)
      exact before y pc rfl
  | finish o => exact task o _ trivial
  | broadcasted | write | startWriter | leave | reply | close | pop | drain | forward =>
    exact within

section Pairs

variable {env : Env} {s next : State} {e : Event} (flags : ∀ c, Flags (s.handlers c).pc (s.channels c))
  (l : ∀ c, Launches c (s.handlers c) s.tasks s.launched)
  (pairs : ∀ o y, Pair o y (s.tasks o) (s.channels y))

include pairs

theorem pairs_task (o : Origin) (t : Task) (here : ∀ y, Pair o y t (s.channels y)) :
    ∀ o' y, Pair o' y (replace s.tasks o t o') (s.channels y) := by
  intro o' y
  exact replace_forall (R := fun o t => Pair o y t (s.channels y)) (fun o => pairs o y) (here y) o'

theorem pairs_launch (o : Origin) (absent : s.tasks o = .absent) :
    ∀ o' y, Pair o' y (replace s.tasks o (.spawned text) o') (s.channels y) := by
  apply pairs_task pairs o
  intro y
  apply (pairs o y).task <;> simp [absent,Task.Ahead,Task.Passed,Task.holds,Task.sending]

include flags

/-- `Close` does not shut a channel that a broadcast is sending on. -/
theorem pairs_close {after : ClosePc} (at_ : (s.handlers d).pc = .closing pc)
    (closed : (s.channels d).close pc = some (channel,after)) :
    ∀ o y, Pair o y (s.tasks o) (replace s.channels d channel y) := by
  intro o y
  by_cases same : y = d
  · subst same
    rw [replace_same]
    have flag := flags y
    have holding := (pairs o y).holding
    rw [at_] at flag
    cases pc <;> simp only [Channel.close] at closed
    case swap =>
      obtain ⟨rfl,-⟩ := Prod.mk.inj (Option.some.inj closed)
      exact (pairs o y).keep rfl rfl (by simp) (fun _ => rfl)
    case lock | acquire =>
      split at closed
      · obtain ⟨rfl,-⟩ := Prod.mk.inj (Option.some.inj closed)
        exact (pairs o y).keep rfl rfl id (fun _ => rfl)
      · contradiction
    case close =>
      split at closed
      · obtain ⟨rfl,-⟩ := Prod.mk.inj (Option.some.inj closed)
        exact pairs o y
      · obtain ⟨rfl,-⟩ := Prod.mk.inj (Option.some.inj closed)
        -- the writer has the lock, so no reader is left
        have none := flag.alone (by simp [flag.writing])
        apply (pairs o y).keep
        · rfl
        · rfl
        · exact id
        · intro pushing
          simp [none,Task.holds,pushing,SendPc.holds] at holding
    case unlock =>
      obtain ⟨rfl,-⟩ := Prod.mk.inj (Option.some.inj closed)
      exact (pairs o y).keep rfl rfl id (fun _ => rfl)
    all_goals contradiction
  · simpa [same] using pairs o y

theorem pairs_send {after : SendPc} (within : ∀ o, (s.tasks o).Within)
    (ranging : s.tasks o = .ranging text range (some (z,pc)))
    (sent : (s.channels z).send o ⟨o,text⟩ pc = some (channel,after)) :
    ∀ o' y, Pair o' y (replace s.tasks o (.ranging text range
      (if after = .returned then none else some (z,after))) o') (replace s.channels z channel y) := by
  intro o' y
  have before := pairs o' y
  by_cases mine : o' = o
  · subst mine
    rw [replace_same]
    by_cases here : y = z
    · subst here
      rw [replace_same]
      have inside := within o'
      rw [ranging] at before inside
      have flag := flags y
      apply (before.own (inside y pc rfl) _ sent).1
      rw [flag.closed,flag.shut]
      simp only [decide_eq_false_iff_not]
      omega
    · rw [replace_other _ _ _ _ here]
      rw [ranging] at before
      have apart : z ≠ y := Ne.symm here
      by_cases ended : after = .returned <;> apply before.task <;>
        simp [Task.Ahead,Task.Passed,Task.holds,Task.sending,ended,apart]
  · rw [replace_other _ _ _ _ mine]
    by_cases here : y = z
    · subst here
      rw [replace_same]
      exact before.other mine sent
    · simpa [here] using before

include l

theorem move_pairs (within : ∀ o, (s.tasks o).Within) (moved : Move env s e next) :
    ∀ o y, Pair o y (next.tasks o) (next.channels y) := by
  cases moved with
  | accept d now at_ =>
    exact pairs_launch pairs ⟨d,.connect⟩ (((l d).absent .connect).mpr (by simp [Handler.launched,at_]))
  | chat d payload now msg at_ =>
    exact pairs_launch pairs _ (((l d).absent (.chat _)).mpr (by simp [Handler.launched]))
  | announce d now at_ =>
    exact pairs_launch pairs ⟨d,.disconnect⟩
      (((l d).absent .disconnect).mpr (by simp [Handler.launched,at_]))
  | store d now at_ | delete d now at_ =>
    intro o y
    apply (pairs o y).task <;> simp
  | close d now pc after ch at_ closed => exact pairs_close flags pairs at_ closed
  | range o text spawned =>
    apply pairs_task pairs o
    intro y
    apply (pairs o y).task <;> simp [spawned,Task.Ahead,Task.Passed,Task.holds,Task.sending]
  | visit o z text range ranging may fresh =>
    apply pairs_task pairs o
    intro y
    by_cases here : y = z
    · subst here
      apply (pairs o y).task <;>
        simp [ranging,fresh,Task.Ahead,Task.Passed,Task.holds,Task.sending,SendPc.Before,SendPc.holds]
    · have apart : z ≠ y := Ne.symm here
      apply (pairs o y).task <;>
        simp [ranging,here,apart,Task.Ahead,Task.Passed,Task.holds,Task.sending]
  | send o z text range pc after ch ranging sent => exact pairs_send flags pairs within ranging sent
  | finish o text range ranging =>
    apply pairs_task pairs o
    intro y
    apply (pairs o y).task <;> simp [ranging,Task.Ahead,Task.Passed,Task.holds,Task.sending]
  | pop d item rest =>
    intro o y
    have kept := replace_forall (R := fun y ch => Pair o y (s.tasks o) ch) (a := d)
      (b := { s.channels d with buffer := rest }) (pairs o)
      ((pairs o d).keep rfl rfl id (fun _ => rfl))
    exact kept y
  | broadcasted | write | startWriter | leave | reply | drain | forward => exact pairs

end Pairs

end Wschat.Go
