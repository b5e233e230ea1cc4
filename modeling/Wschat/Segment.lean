import Mathlib.Data.List.TakeWhile

/-! The part of a log between an opening and a closing entry, the closing one included. It
grows with the log from the opening entry on and stops growing at the closing one. -/
namespace Wschat.Segment

variable {α : Type} (opens closes : α → Bool)

def upTo (closes : α → Bool) : List α → List α
  | [] => []
  | a :: log => if closes a then [a] else a :: upTo closes log

def segment (log : List α) : List α := upTo closes (log.dropWhile fun a => !opens a)

theorem upTo_open (log more : List α) (still : ∀ a ∈ log, closes a = false) :
    upTo closes (log ++ more) = log ++ upTo closes more := by
  induction log with
  | nil => rfl
  | cons a log ih =>
    have here := still a (by simp)
    simp [upTo,here,ih fun b member => still b (by simp [member])]

theorem upTo_closed (log more : List α) (closed : ∃ a ∈ log, closes a = true) :
    upTo closes (log ++ more) = upTo closes log := by
  induction log with
  | nil => simp at closed
  | cons a log ih =>
    by_cases here : closes a = true
    · simp [upTo,here]
    · obtain ⟨b,member,closing⟩ := closed
      rcases List.mem_cons.mp member with rfl | later
      · contradiction
      · simp [upTo,here,ih ⟨b,later,closing⟩]

theorem upTo_isPrefix (log : List α) : upTo closes log <+: log := by
  induction log with
  | nil => exact List.prefix_refl _
  | cons a log ih =>
    unfold upTo
    split
    · exact ⟨log,rfl⟩
    · obtain ⟨rest,eq⟩ := ih
      exact ⟨rest,by rw [List.cons_append,eq]⟩

/-- A segment is a contiguous part of the log. -/
theorem segment_isInfix (log : List α) : segment opens closes log <:+: log :=
  (upTo_isPrefix closes _).isInfix.trans (List.dropWhile_suffix _).isInfix

/-- A segment that has not been closed goes on to the end of the log. -/
theorem segment_unclosed (log : List α) (unclosed : ∀ a ∈ log, closes a = false) :
    segment opens closes log = log.dropWhile fun a => !opens a := by
  have still : ∀ a ∈ log.dropWhile (fun a => !opens a), closes a = false := fun a member =>
    unclosed a ((List.dropWhile_sublist _).subset member)
  simpa [segment,upTo] using upTo_open closes _ [] still

/-- A segment starts with an opening entry. -/
theorem segment_head (log : List α) (starts : segment opens closes log = a :: rest) :
    opens a = true := by
  unfold segment at starts
  cases dropped : log.dropWhile fun a => !opens a with
  | nil => simp [dropped,upTo] at starts
  | cons first later =>
    have head := List.head?_dropWhile_not (fun a => !opens a) log
    have same : first = a := by
      rw [dropped,upTo] at starts
      split at starts <;> exact (List.cons.inj starts).1
    rw [dropped] at head
    simpa [same] using head

theorem dropWhile_unopened (log : List α) (unopened : ∀ a ∈ log, opens a = false) :
    log.dropWhile (fun a => !opens a) = [] := by
  rw [List.dropWhile_eq_nil_iff]
  intro a member
  simp [unopened a member]

@[simp] theorem segment_nil : segment opens closes [] = [] := rfl

theorem segment_unopened (log : List α) (unopened : ∀ a ∈ log, opens a = false) :
    segment opens closes log = [] := by
  rw [segment,dropWhile_unopened opens log unopened]
  rfl

/-- The opening entry starts the segment. -/
theorem segment_opening (log : List α) (a : α) (unopened : ∀ b ∈ log, opens b = false)
    (opening : opens a = true) (running : closes a = false) :
    segment opens closes (log ++ [a]) = [a] := by
  have skipped : ∀ b ∈ log, (!opens b) = true := fun b member => by simp [unopened b member]
  rw [segment,List.dropWhile_append_of_pos skipped]
  simp [opening,upTo,running]

theorem dropWhile_opened (log more : List α) (opened : ∃ a ∈ log, opens a = true) :
    (log ++ more).dropWhile (fun a => !opens a) = log.dropWhile (fun a => !opens a) ++ more := by
  rw [List.dropWhile_append]
  have some_ : (log.dropWhile fun a => !opens a).isEmpty = false := by
    rw [List.isEmpty_eq_false_iff]
    intro none
    obtain ⟨a,member,opening⟩ := opened
    have := List.dropWhile_eq_nil_iff.mp none a member
    simp [opening] at this
  simp [some_]

/-- Between the opening and the closing entry the segment takes every entry. -/
theorem segment_during (log : List α) (a : α) (opened : ∃ b ∈ log, opens b = true)
    (running : ∀ b ∈ log, closes b = false) :
    segment opens closes (log ++ [a]) = segment opens closes log ++ [a] := by
  have still : ∀ b ∈ log.dropWhile (fun b => !opens b), closes b = false := fun b member =>
    running b ((List.dropWhile_sublist _).subset member)
  have whole := upTo_open closes _ [] still
  rw [segment,segment,dropWhile_opened opens log [a] opened,upTo_open closes _ [a] still]
  rw [List.append_nil] at whole
  simp [whole,upTo]

/-- After the closing entry the segment is complete. -/
theorem segment_after (log : List α) (a : α)
    (closed : ∃ b ∈ log.dropWhile (fun b => !opens b), closes b = true) :
    segment opens closes (log ++ [a]) = segment opens closes log := by
  have opened : ∃ b ∈ log, opens b = true := by
    obtain ⟨b,member,-⟩ := closed
    by_contra none
    have unopened : ∀ c ∈ log, opens c = false := by
      intro c inside
      by_contra opening
      exact none ⟨c,inside,by simpa using opening⟩
    rw [dropWhile_unopened opens log unopened] at member
    simp at member
  rw [segment,segment,dropWhile_opened opens log [a] opened,upTo_closed closes _ [a] closed]

end Wschat.Segment
