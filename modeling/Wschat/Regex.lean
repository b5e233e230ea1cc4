import Mathlib.Data.List.Basic

/-! Regular expressions with greedy repetition of one class, matched by backtracking: the
leftmost match, and there the first that the order of the choices finds. -/
namespace Wschat

inductive Regex (α : Type) where
  | empty
  | set (accepts : α → Bool)
  | seq (first second : Regex α)
  | optional (r : Regex α)
  | many (accepts : α → Bool)
  /-- What it matches is captured. -/
  | group (r : Regex α)

namespace Regex

variable {α β : Type}

def seqs : List (Regex α) → Regex α
  | [] => .empty
  | r :: rs => .seq r (seqs rs)

def literal [DecidableEq α] (word : List α) : Regex α :=
  seqs (word.map fun c => .set (· = c))

/-- As many as possible, and one less each time that what follows does not match. -/
def greedy (accepts : α → Bool) (next : List α → Option β) : List α → Option β
  | [] => next []
  | c :: text =>
    if accepts c then (greedy accepts next text).or (next (c :: text)) else next (c :: text)

/-- `next` is what has to match behind, from the text that is left and the groups. -/
def exec : Regex α → (List α → List (List α) → Option β) → List α → List (List α) → Option β
  | .empty, next, text, groups => next text groups
  | .set accepts, next, text, groups =>
    match text with
    | [] => none
    | c :: rest => if accepts c then next rest groups else none
  | .seq first second, next, text, groups => exec first (exec second next) text groups
  | .optional r, next, text, groups => (exec r next text groups).or (next text groups)
  | .many accepts, next, text, groups => greedy accepts (fun rest => next rest groups) text
  | .group r, next, text, groups =>
    exec r (fun rest groups => next rest (groups ++ [text.take (text.length - rest.length)])) text
      groups

/-- The match at the start of the text, with its groups. -/
def matchHere (r : Regex α) (text : List α) : Option (List α × List (List α)) :=
  r.exec (fun rest groups => some (text.take (text.length - rest.length),groups)) text []

/-- The leftmost match. -/
def search (r : Regex α) : List α → Option (List α × List (List α))
  | [] => r.matchHere []
  | c :: text => (r.matchHere (c :: text)).or (r.search text)

/-- The first occurrence of `word` is replaced. -/
def replaceFirst [DecidableEq α] (word new : List α) : List α → List α
  | [] => if word = [] then new else []
  | c :: text =>
    if word.isPrefixOf (c :: text) then new ++ (c :: text).drop word.length
    else c :: replaceFirst word new text

/-- The words of the language. -/
inductive Denotes : Regex α → List α → Prop where
  | empty : Denotes .empty []
  | set : accepts c = true → Denotes (.set accepts) [c]
  | seq : Denotes r u → Denotes s v → Denotes (.seq r s) (u ++ v)
  | skip : Denotes (.optional r) []
  | take : Denotes r u → Denotes (.optional r) u
  | many : (∀ c ∈ u, accepts c = true) → Denotes (.many accepts) u
  | group : Denotes r u → Denotes (.group r) u

section Soundness

theorem greedy_sound {accepts : α → Bool} {next : List α → Option β} {text : List α} {b : β}
    (found : greedy accepts next text = some b) :
    ∃ word rest, text = word ++ rest ∧ (∀ c ∈ word, accepts c = true) ∧ next rest = some b := by
  induction text with
  | nil => exact ⟨[],[],rfl,by simp,found⟩
  | cons c text ih =>
    simp only [greedy] at found
    split at found
    · next here =>
      rcases Option.or_eq_some_iff.mp found with more | ⟨-,stop⟩
      · obtain ⟨word,rest,rfl,all,found⟩ := ih more
        exact ⟨c :: word,rest,rfl,by simpa [here] using all,found⟩
      · exact ⟨[],c :: text,rfl,by simp,stop⟩
    · exact ⟨[],c :: text,rfl,by simp,found⟩

/-- A match consumes a word of the language. -/
theorem exec_sound {r : Regex α} {next : List α → List (List α) → Option β} {text : List α}
    {groups : List (List α)} {b : β} (found : r.exec next text groups = some b) :
    ∃ word rest inner, text = word ++ rest ∧ r.Denotes word ∧ next rest inner = some b := by
  induction r generalizing next text groups with
  | empty => exact ⟨[],text,groups,rfl,.empty,found⟩
  | set accepts =>
    cases text with
    | nil => contradiction
    | cons c rest =>
      simp only [exec] at found
      split at found
      · next here => exact ⟨[c],rest,groups,rfl,.set here,found⟩
      · contradiction
  | seq first second ih₁ ih₂ =>
    obtain ⟨u,rest,inner,rfl,word,found⟩ := ih₁ found
    obtain ⟨v,rest,inner,rfl,more,found⟩ := ih₂ found
    exact ⟨u ++ v,rest,inner,by simp,.seq word more,found⟩
  | optional r ih =>
    rcases Option.or_eq_some_iff.mp found with taken | ⟨-,skipped⟩
    · obtain ⟨word,rest,inner,eq,denotes,found⟩ := ih taken
      exact ⟨word,rest,inner,eq,.take denotes,found⟩
    · exact ⟨[],text,groups,rfl,.skip,skipped⟩
  | many accepts =>
    obtain ⟨word,rest,eq,all,found⟩ := greedy_sound found
    exact ⟨word,rest,groups,eq,.many all,found⟩
  | group r ih =>
    obtain ⟨word,rest,inner,eq,denotes,found⟩ := ih found
    exact ⟨word,rest,_,eq,.group denotes,found⟩

/-- Where no word of the language starts there is no match. -/
theorem matchHere_none {r : Regex α} {text : List α}
    (no : ∀ word rest, text = word ++ rest → ¬r.Denotes word) : r.matchHere text = none := by
  cases found : r.matchHere text with
  | none => rfl
  | some result =>
    obtain ⟨word,rest,-,eq,denotes,-⟩ := exec_sound found
    exact absurd denotes (no word rest eq)

theorem denotes_seqs (r : Regex α) (rs : List (Regex α)) (word : List α)
    (denotes : (seqs (r :: rs)).Denotes word) :
    ∃ u v, word = u ++ v ∧ r.Denotes u ∧ (seqs rs).Denotes v := by
  cases denotes with
  | seq first second => exact ⟨_,_,rfl,first,second⟩

theorem denotes_literal [DecidableEq α] (word : List α) (denotes : (literal word).Denotes u) :
    u = word := by
  induction word generalizing u with
  | nil =>
    cases denotes
    rfl
  | cons c word ih =>
    obtain ⟨v,w,rfl,first,more⟩ := denotes_seqs _ _ _ denotes
    cases first with
    | set here => rw [ih more,of_decide_eq_true here]; rfl

end Soundness

section Search

/-- The search passes over a front in which no match starts. -/
theorem search_append {r : Regex α} (front text : List α)
    (no : ∀ s t, front = s ++ t → t ≠ [] → r.matchHere (t ++ text) = none) :
    r.search (front ++ text) = r.search text := by
  induction front with
  | nil => rfl
  | cons c front ih =>
    have here := no [] (c :: front) rfl (by simp)
    rw [List.cons_append] at here
    rw [List.cons_append,search,here,Option.none_or]
    exact ih fun s t eq some_ => no (c :: s) t (by simp [eq]) some_

theorem search_here {r : Regex α} (found : r.matchHere text = some result) :
    r.search text = some result := by
  cases text with
  | nil => exact found
  | cons c text => rw [search,found,Option.some_or]

theorem replaceFirst_append [DecidableEq α] (word new front rest : List α) (some_ : word ≠ [])
    (no : ∀ s t, front = s ++ t → t ≠ [] → ¬word <+: t ++ (word ++ rest)) :
    replaceFirst word new (front ++ (word ++ rest)) = front ++ (new ++ rest) := by
  induction front with
  | nil =>
    cases word with
    | nil => contradiction
    | cons c word =>
      have here : (c :: word).isPrefixOf (c :: (word ++ rest)) = true :=
        List.isPrefixOf_iff_prefix.mpr (List.prefix_append (c :: word) rest)
      rw [List.nil_append,List.cons_append,replaceFirst,if_pos here]
      simp
  | cons c front ih =>
    have here : ¬word.isPrefixOf (c :: (front ++ (word ++ rest))) = true := by
      rw [List.isPrefixOf_iff_prefix]
      exact no [] (c :: front) rfl (by simp)
    rw [List.cons_append,replaceFirst,if_neg here,
      ih fun s t eq some_ => no (c :: s) t (by simp [eq]) some_]
    rfl

end Search

section Matching

variable {next : List α → List (List α) → Option β} {groups : List (List α)} {b : β}

@[simp] theorem exec_seqs (r : Regex α) (rs : List (Regex α)) (text : List α) :
    (seqs (r :: rs)).exec next text groups = r.exec ((seqs rs).exec next) text groups := rfl

@[simp] theorem exec_seqs_nil (text : List α) :
    (seqs ([] : List (Regex α))).exec next text groups = next text groups := rfl

theorem exec_set (accepts : α → Bool) (here : accepts c = true) (text : List α) :
    (Regex.set accepts).exec next (c :: text) groups = next text groups := by
  simp [exec,here]

theorem exec_literal [DecidableEq α] (word text : List α) :
    (literal word).exec next (word ++ text) groups = next text groups := by
  induction word with
  | nil => rfl
  | cons c word ih =>
    have rest : (literal (c :: word)).exec next (c :: (word ++ text)) groups =
        (literal word).exec next (word ++ text) groups :=
      exec_set (fun d => decide (d = c)) (decide_eq_true rfl) (word ++ text)
    rw [List.cons_append,rest,ih]

/-- An optional part that matches, with what follows. -/
theorem exec_optional (found : r.exec next text groups = some b) :
    (Regex.optional r).exec next text groups = some b := by
  rw [exec,found,Option.some_or]

theorem exec_skip (accepts : α → Bool) (c : α) (other : accepts c = false) (text : List α) :
    (Regex.optional (.set accepts)).exec next (c :: text) groups = next (c :: text) groups := by
  simp [exec,other]

/-- The repetition goes on to a character outside its class. -/
theorem exec_many (accepts : α → Bool) (run : List α) (all : ∀ c ∈ run, accepts c = true)
    (stop : accepts d = false) (found : next (d :: text) groups = some b) :
    (Regex.many accepts).exec next (run ++ d :: text) groups = some b := by
  simp only [exec]
  induction run with
  | nil => simpa [greedy,stop] using found
  | cons c run ih =>
    obtain ⟨here,all⟩ := List.forall_mem_cons.mp all
    rw [List.cons_append,greedy,if_pos here,ih all,Option.some_or]

theorem taken (word rest : List α) :
    (word ++ rest).take ((word ++ rest).length - rest.length) = word := by
  simp

/-- A group captures the word that its expression consumes. -/
theorem exec_group (r : Regex α) (word rest : List α)
    (matched : ∀ k : List α → List (List α) → Option β,
      k rest groups = some b → r.exec k (word ++ rest) groups = some b)
    (found : next rest (groups ++ [word]) = some b) :
    (Regex.group r).exec next (word ++ rest) groups = some b :=
  matched _ (by rwa [taken])

end Matching

end Regex
end Wschat
