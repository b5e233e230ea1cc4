import Mathlib.Data.List.Palindrome
import Mathlib.Data.List.TakeWhile
import Mathlib.Order.Lattice

/-! Insertion behind the last smaller element. Applied to one arrival after the other it
sorts, and reverses the elements of one key. -/
namespace Wschat.Splice

variable {α κ : Type} [LinearOrder κ]

/-- The stable sort of a list of arrivals by a key. -/
structure StableSort (key : α → κ) (arrivals result : List α) : Prop where
  perm : result.Perm arrivals
  sorted : result.Pairwise fun a b => key a ≤ key b
  ties : ∀ k, result.filter (key · = k) = arrivals.filter (key · = k)

/-- What stands up to the last element that satisfies `small`, and what is behind it. -/
def front (small : α → Bool) (xs : List α) : List α :=
  xs.take (xs.reverse.dropWhile fun x => !small x).length

def back (small : α → Bool) (xs : List α) : List α :=
  xs.drop (xs.reverse.dropWhile fun x => !small x).length

def splice (small : α → Bool) (new : α) (xs : List α) : List α :=
  front small xs ++ new :: back small xs

theorem front_back (small : α → Bool) (xs : List α) : front small xs ++ back small xs = xs :=
  List.take_append_drop _ xs

theorem front_eq (small : α → Bool) (xs : List α) :
    front small xs = (xs.reverse.dropWhile fun x => !small x).reverse := by
  have suffix := List.dropWhile_suffix (fun x => !small x) (l := xs.reverse)
  have before := List.reverse_prefix.mpr suffix
  rw [List.reverse_reverse] at before
  rw [List.prefix_iff_eq_take.mp before,front,List.length_reverse]

theorem back_eq (small : α → Bool) (xs : List α) :
    back small xs = (xs.reverse.takeWhile fun x => !small x).reverse := by
  have parts := congrArg List.reverse
    (List.takeWhile_append_dropWhile (p := fun x => !small x) (l := xs.reverse))
  rw [List.reverse_append,List.reverse_reverse,← front_eq] at parts
  exact List.append_cancel_left ((front_back small xs).trans parts.symm)

theorem splice_map (small : β → Bool) (f : α → β) (new : α) (xs : List α) :
    splice small (f new) (xs.map f) = (splice (fun x => small (f x)) new xs).map f := by
  have kept : ((xs.map f).reverse.dropWhile fun y => !small y).length =
      (xs.reverse.dropWhile fun x => !small (f x)).length := by
    rw [← List.map_reverse,List.dropWhile_map,List.length_map]
    rfl
  simp [splice,front,back,kept]

/-- Only what the list holds is compared. -/
theorem splice_congr {small small' : α → Bool} {xs : List α} (same : ∀ x ∈ xs, small x = small' x)
    (new : α) : splice small new xs = splice small' new xs := by
  have kept : (xs.reverse.dropWhile fun x => !small x) = xs.reverse.dropWhile fun x => !small' x := by
    have all : ∀ x ∈ xs.reverse, small x = small' x := fun x inside =>
      same x (List.mem_reverse.mp inside)
    generalize xs.reverse = ys at all
    induction ys with
    | nil => rfl
    | cons y ys ih =>
      rw [List.dropWhile_cons,List.dropWhile_cons,all y List.mem_cons_self,
        ih fun x inside => all x (List.mem_cons_of_mem y inside)]
  rw [splice,splice,front,back,front,back,kept]

/-- Nothing small is behind. -/
theorem back_large (small : α → Bool) (xs : List α) (inside : x ∈ back small xs) :
    small x = false := by
  rw [back_eq,List.mem_reverse] at inside
  simpa using List.mem_takeWhile_imp inside

/-- In front is nothing, or the last element there is small. -/
theorem front_last (small : α → Bool) (xs : List α) :
    front small xs = [] ∨ ∃ before x, front small xs = before ++ [x] ∧ small x = true := by
  rw [front_eq]
  cases rest : xs.reverse.dropWhile fun x => !small x with
  | nil => exact .inl rfl
  | cons x more =>
    have head := List.head_dropWhile_not (fun x => !small x) (l := xs.reverse) (by simp [rest])
    simp only [rest,List.head_cons,Bool.not_eq_false'] at head
    exact .inr ⟨more.reverse,x,by simp,head⟩

theorem splice_perm (small : α → Bool) (new : α) (xs : List α) :
    (splice small new xs).Perm (new :: xs) := by
  conv_rhs => rw [← front_back small xs]
  exact List.perm_middle

section Sorted

variable {key : α → κ} {xs : List α}

/-- In a sorted list everything in front is smaller than the new element. -/
theorem front_small (sorted : xs.Pairwise fun a b => key a ≤ key b) (new : α)
    (inside : x ∈ front (fun x => key x < key new) xs) : key x < key new := by
  rcases front_last (fun x => key x < key new) xs with none | ⟨before,last,eq,small⟩
  · simp [none] at inside
  · have less : key last < key new := by simpa using small
    rw [← front_back (fun x => key x < key new) xs,eq] at sorted
    rw [eq] at inside
    rcases List.mem_append.mp inside with earlier | here
    · have below := (List.pairwise_append.mp (List.pairwise_append.mp sorted).1).2.2 x earlier last
        (List.mem_singleton_self last)
      exact lt_of_le_of_lt below less
    · rw [List.mem_singleton.mp here]
      exact less

theorem back_ge (new : α) (inside : x ∈ back (fun x => key x < key new) xs) : key new ≤ key x := by
  have large := back_large _ _ inside
  simpa using large

theorem splice_sorted (sorted : xs.Pairwise fun a b => key a ≤ key b) (new : α) :
    (splice (fun x => key x < key new) new xs).Pairwise fun a b => key a ≤ key b := by
  have parts := sorted
  rw [← front_back (fun x => key x < key new) xs] at parts
  obtain ⟨first,second,across⟩ := List.pairwise_append.mp parts
  refine List.pairwise_append.mpr ⟨first,List.pairwise_cons.mpr ⟨?_,second⟩,?_⟩
  · intro y inside
    exact back_ge new inside
  · intro x inside y member
    rcases List.mem_cons.mp member with rfl | later
    · exact le_of_lt (front_small sorted y inside)
    · exact across x inside y later

/-- The new element comes before those of its key. -/
theorem splice_ties (sorted : xs.Pairwise fun a b => key a ≤ key b) (new : α) (k : κ) :
    (splice (fun x => key x < key new) new xs).filter (key · = k) =
      (if key new = k then [new] else []) ++ xs.filter (key · = k) := by
  conv_rhs => rw [← front_back (fun x => key x < key new) xs]
  simp only [splice,List.filter_append,List.filter_cons]
  by_cases same : key new = k
  · subst same
    have none : (front (fun x => key x < key new) xs).filter (key · = key new) = [] := by
      apply List.filter_eq_nil_iff.mpr
      intro x inside
      have less := front_small sorted new inside
      simp [ne_of_lt less]
    simp [none]
  · simp [same]

end Sorted

/-- The arrivals, one after the other. -/
def spliceAll (key : α → κ) (arrivals : List α) : List α :=
  arrivals.foldl (fun xs new => splice (fun x => key x < key new) new xs) []

theorem spliceAll_sorts (key : α → κ) (arrivals : List α) :
    (spliceAll key arrivals).Perm arrivals ∧
      (spliceAll key arrivals).Pairwise (fun a b => key a ≤ key b) ∧
      ∀ k, (spliceAll key arrivals).filter (key · = k) = (arrivals.filter (key · = k)).reverse := by
  induction arrivals using List.reverseRecOn with
  | nil => simp [spliceAll]
  | append_singleton arrivals new ih =>
    obtain ⟨perm,sorted,ties⟩ := ih
    have last : spliceAll key (arrivals ++ [new]) =
        splice (fun x => key x < key new) new (spliceAll key arrivals) := by
      simp [spliceAll]
    rw [last]
    refine ⟨?_,splice_sorted sorted new,fun k => ?_⟩
    · have front := (splice_perm (fun x => key x < key new) new _).trans (perm.cons new)
      exact front.trans (List.perm_append_singleton new arrivals).symm
    · rw [splice_ties sorted,ties,List.filter_append,List.reverse_append]
      by_cases same : key new = k <;> simp [same]

/-- What two sorted lists both hold stands on both in the order of the keys. -/
theorem sorted_agree {key : α → κ} {xs ys : List α} (xs_sorted : xs.Pairwise fun a b => key a ≤ key b)
    (ys_sorted : ys.Pairwise fun a b => key a ≤ key b) (order : [a,b].Sublist xs) (first : a ∈ ys)
    (second : b ∈ ys) (apart : key a ≠ key b) : [a,b].Sublist ys := by
  have less : key a < key b :=
    lt_of_le_of_ne (List.pairwise_iff_forall_sublist.mp xs_sorted order) apart
  obtain ⟨before,after,rfl⟩ := List.append_of_mem first
  rcases List.mem_append.mp second with earlier | later
  · have back := (List.pairwise_append.mp ys_sorted).2.2 b earlier a List.mem_cons_self
    exact absurd less (not_lt_of_ge back)
  · rcases List.mem_cons.mp later with rfl | later
    · exact absurd rfl apart
    · exact ((List.singleton_sublist.mpr later).cons_cons a).trans (List.sublist_append_right _ _)

/-- Two readers who have sorted their arrivals agree about what both have got. -/
theorem spliceAll_agree (key : α → κ) (xs ys : List α) (order : [a,b].Sublist (spliceAll key xs))
    (first : a ∈ spliceAll key ys) (second : b ∈ spliceAll key ys) (apart : key a ≠ key b) :
    [a,b].Sublist (spliceAll key ys) :=
  sorted_agree (spliceAll_sorts key xs).2.1 (spliceAll_sorts key ys).2.1 order first second apart

/-- It is the stable sort exactly where the elements of each key read the same backwards. -/
theorem spliceAll_stable_iff (key : α → κ) (arrivals : List α) :
    StableSort key arrivals (spliceAll key arrivals) ↔
      ∀ k, (arrivals.filter (key · = k)).Palindrome := by
  obtain ⟨perm,sorted,ties⟩ := spliceAll_sorts key arrivals
  constructor
  · intro stable k
    exact List.Palindrome.of_reverse_eq ((ties k).symm.trans (stable.ties k))
  · intro palindromes
    exact ⟨perm,sorted,fun k => (ties k).trans (palindromes k).reverse_eq⟩

end Wschat.Splice
