import Mathlib.Data.List.Basic

/-! Walking a list by index while it changes: values are appended at its end and erased
anywhere. A value that stays is either still ahead of the index or behind it; erasing
something behind the index moves the value at the index behind it unseen. -/
namespace Wschat.Cursor

variable {α : Type} [DecidableEq α]

/-- The walk at index `i` has `y` still ahead. -/
def Ahead (xs : List α) (i : Nat) (y : α) : Prop := i ≤ xs.idxOf y

/-- Erasing `x` makes the walk at index `i` skip `y`. -/
def Skips (xs : List α) (i : Nat) (x y : α) : Prop := xs.idxOf x < i ∧ xs.idxOf y = i

instance (xs : List α) (i : Nat) (x y : α) : Decidable (Skips xs i x y) := by
  unfold Skips
  infer_instance

theorem idxOf_ne {xs : List α} {x y : α} (member : y ∈ xs) (other : y ≠ x) :
    xs.idxOf y ≠ xs.idxOf x := by
  intro same
  exact other ((List.idxOf_inj member).mp same)

theorem idxOf_erase {xs : List α} {x y : α} (other : y ≠ x) :
    (xs.erase x).idxOf y = if xs.idxOf x < xs.idxOf y then xs.idxOf y - 1 else xs.idxOf y := by
  induction xs with
  | nil => rfl
  | cons a xs ih =>
    by_cases here : a = x
    · subst here
      simp [List.idxOf_cons_ne xs other.symm]
    · rw [List.erase_cons_tail (by simpa using here)]
      by_cases found : a = y
      · subst found
        simp
      · rw [List.idxOf_cons_ne _ found,List.idxOf_cons_ne _ found,List.idxOf_cons_ne _ here,ih]
        by_cases before : xs.idxOf x < xs.idxOf y
        · simp only [before,if_true,Nat.succ_lt_succ_iff]
          omega
        · simp [before]

theorem ahead_append {xs : List α} {y : α} (member : y ∈ xs) (more : List α) :
    Ahead (xs ++ more) i y ↔ Ahead xs i y := by
  rw [Ahead,Ahead,List.idxOf_append_of_mem member]

/-- What stays is skipped, or is ahead as before. -/
theorem ahead_erase {xs : List α} {x y : α} (other : y ≠ x) (member : y ∈ xs) :
    Ahead (xs.erase x) i y ↔ Ahead xs i y ∧ ¬Skips xs i x y := by
  have apart := idxOf_ne member other
  rw [Ahead,Ahead,Skips,idxOf_erase other]
  split <;> omega

theorem getElem?_idxOf {xs : List α} {y : α} (nodup : xs.Nodup) (found : xs[i]? = some y) :
    xs.idxOf y = i := by
  obtain ⟨bound,eq⟩ := List.getElem?_eq_some_iff.mp found
  rw [← eq]
  exact nodup.idxOf_getElem i bound

/-- One step of the walk: what it takes is no longer ahead, and nothing else changes. -/
theorem ahead_next {xs : List α} {y z : α} (nodup : xs.Nodup) (found : xs[i]? = some z)
    (member : y ∈ xs) : Ahead xs (i+1) y ↔ Ahead xs i y ∧ y ≠ z := by
  have here := getElem?_idxOf nodup found
  have inside : z ∈ xs := List.mem_of_getElem? found
  rw [Ahead,Ahead]
  constructor
  · intro later
    refine ⟨by omega,?_⟩
    rintro rfl
    omega
  · rintro ⟨ahead,other⟩
    have apart := idxOf_ne member other
    omega

/-- At the end of the list nothing is ahead. -/
theorem not_ahead_end {xs : List α} {y : α} (member : y ∈ xs) (ended : xs[i]? = none) :
    ¬Ahead xs i y := by
  have bound := List.idxOf_lt_length_of_mem member
  rw [List.getElem?_eq_none_iff] at ended
  rw [Ahead]
  omega

end Wschat.Cursor
