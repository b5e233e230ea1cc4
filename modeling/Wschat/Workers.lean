import Mathlib

/-! Workers with call stacks. What the workers are doing altogether is a multiset of
activations: a step of one worker replaces the activation on top of its stack and leaves
the others, so an invariant is checked on the replaced part only. -/
namespace Wschat.Workers

variable {φ : Type}

def activations (threads : List (List φ)) : Multiset φ := ↑threads.flatten

/-- Sum of a weight over activations: the number of references, locks or handlers held. -/
def weigh (f : φ → Nat) (ps : Multiset φ) : Nat := (ps.map f).sum

@[simp] theorem weigh_zero (f : φ → Nat) : weigh f 0 = 0 := rfl

@[simp] theorem weigh_cons (f : φ → Nat) (p : φ) (ps : Multiset φ) :
    weigh f (p ::ₘ ps) = f p + weigh f ps := by simp [weigh]

@[simp] theorem weigh_add (f : φ → Nat) (ps qs : Multiset φ) :
    weigh f (ps + qs) = weigh f ps + weigh f qs := by simp [weigh]

@[simp] theorem weigh_coe (f : φ → Nat) (ps : List φ) :
    weigh f (ps : Multiset φ) = (ps.map f).sum := by simp [weigh]

theorem le_weigh (f : φ → Nat) {p : φ} {ps : Multiset φ} (member : p ∈ ps) :
    f p ≤ weigh f ps := by
  obtain ⟨rest,rfl⟩ := Multiset.exists_cons_of_mem member
  simp [weigh]

theorem weigh_mono {f g : φ → Nat} (below : ∀ p, f p ≤ g p) (ps : Multiset φ) :
    weigh f ps ≤ weigh g ps :=
  Multiset.sum_map_le_sum_map _ _ fun p _ => below p

theorem weigh_eq_zero (f : φ → Nat) (ps : Multiset φ) :
    weigh f ps = 0 ↔ ∀ p ∈ ps, f p = 0 := by
  simp [weigh,Multiset.sum_eq_zero_iff]

/-- Cutting the top of one stack out of the activations, whatever is put in its place. -/
theorem split {threads : List (List φ)} {t : Nat} {old rest : List φ}
    (top : threads[t]? = some (old ++ rest)) :
    ∃ others, activations threads = ↑old + others ∧
      ∀ new, activations (threads.set t (new ++ rest)) = ↑new + others := by
  obtain ⟨bound,eq⟩ := List.getElem?_eq_some_iff.mp top
  refine ⟨↑rest + (↑(threads.take t).flatten + ↑(threads.drop (t+1)).flatten),?_,?_⟩
  · have parts : threads = threads.take t ++ (old ++ rest) :: threads.drop (t+1) := by
      rw [← eq,List.getElem_cons_drop,List.take_append_drop]
    conv_lhs => rw [parts]
    simp only [activations,List.flatten_append,List.flatten_cons,← Multiset.coe_add]
    abel
  · intro new
    rw [List.set_eq_take_append_cons_drop,if_pos bound]
    simp only [activations,List.flatten_append,List.flatten_cons,← Multiset.coe_add]
    abel

section Sums

variable {ι : Type} {l : List ι} {a : ι} {f g : ι → Nat}

/-- A sum over parties of which one may have more to do than before. -/
theorem sum_le_one (nodup : l.Nodup) (k : Nat) (others : ∀ b ∈ l, b ≠ a → g b ≤ f b)
    (here : g a ≤ f a + k) : (l.map g).sum ≤ (l.map f).sum + k := by
  induction l with
  | nil => simp
  | cons b l ih =>
    obtain ⟨fresh,nodup⟩ := List.nodup_cons.mp nodup
    simp only [List.map_cons,List.sum_cons]
    by_cases same : b = a
    · subst same
      have rest : (l.map g).sum ≤ (l.map f).sum := by
        refine List.sum_le_sum fun c member => others c (List.mem_cons_of_mem _ member) ?_
        rintro rfl
        exact fresh member
      omega
    · have first := others b (by simp) same
      have rest := ih nodup fun c member => others c (List.mem_cons_of_mem _ member)
      omega

/-- A sum over parties of which one has less to do than before. -/
theorem sum_drop_one (member : a ∈ l) (k : Nat) (others : ∀ b ∈ l, g b ≤ f b)
    (here : g a + k ≤ f a) : (l.map g).sum + k ≤ (l.map f).sum := by
  induction l with
  | nil => simp at member
  | cons b l ih =>
    simp only [List.map_cons,List.sum_cons]
    rcases List.mem_cons.mp member with rfl | later
    · have rest : (l.map g).sum ≤ (l.map f).sum :=
        List.sum_le_sum fun c member => others c (List.mem_cons_of_mem _ member)
      omega
    · have first := others b (by simp)
      have rest := ih later fun c member => others c (List.mem_cons_of_mem _ member)
      omega

end Sums

end Wschat.Workers
