/-! JSON values as the decoders see them after parsing. Members keep the order and the
repetitions of the text, because the four libraries treat a repeated key differently. The
strings are a parameter: Python's are not those of the other three. -/
namespace Wschat

inductive Json (σ : Type := String) where
  | null
  | bool (value : Bool)
  | int (value : Int)
  /-- A number written with a fraction or an exponent, kept as its literal. -/
  | real (literal : String)
  | str (value : σ)
  | arr (elements : List (Json σ))
  | obj (members : List (σ × Json σ))
  deriving Repr, Inhabited

namespace Json

variable {σ τ υ : Type}

mutual

/-- The value with its strings changed, if all of them can be. -/
def traverse (f : σ → Option τ) : Json σ → Option (Json τ)
  | .null => some .null
  | .bool value => some (.bool value)
  | .int value => some (.int value)
  | .real literal => some (.real literal)
  | .str value => (f value).map .str
  | .arr elements => (traverseElements f elements).map .arr
  | .obj members => (traverseMembers f members).map .obj

def traverseElements (f : σ → Option τ) : List (Json σ) → Option (List (Json τ))
  | [] => some []
  | value :: rest => do return (← traverse f value) :: (← traverseElements f rest)

def traverseMembers (f : σ → Option τ) : List (σ × Json σ) → Option (List (τ × Json τ))
  | [] => some []
  | (name,value) :: rest => do
    return (← f name,← traverse f value) :: (← traverseMembers f rest)

end

mutual

/-- The value with its strings changed. -/
def map (f : σ → τ) : Json σ → Json τ
  | .null => .null
  | .bool value => .bool value
  | .int value => .int value
  | .real literal => .real literal
  | .str value => .str (f value)
  | .arr elements => .arr (mapElements f elements)
  | .obj members => .obj (mapMembers f members)

def mapElements (f : σ → τ) : List (Json σ) → List (Json τ)
  | [] => []
  | value :: rest => map f value :: mapElements f rest

def mapMembers (f : σ → τ) : List (σ × Json σ) → List (τ × Json τ)
  | [] => []
  | (name,value) :: rest => (f name,map f value) :: mapMembers f rest

end

mutual

@[simp] theorem traverse_some (j : Json σ) : traverse some j = some j := by
  cases j with
  | null | bool | int | real | str => rfl
  | arr elements => rw [traverse,traverseElements_some]; rfl
  | obj members => rw [traverse,traverseMembers_some]; rfl

theorem traverseElements_some (elements : List (Json σ)) : traverseElements some elements = some elements := by
  cases elements with
  | nil => rfl
  | cons value rest => simp [traverseElements,traverse_some value,traverseElements_some rest]

theorem traverseMembers_some (members : List (σ × Json σ)) : traverseMembers some members = some members := by
  cases members with
  | nil => rfl
  | cons member rest =>
    obtain ⟨name,value⟩ := member
    simp [traverseMembers,traverse_some value,traverseMembers_some rest]

end

mutual

@[simp] theorem traverse_map (f : τ → Option υ) (g : σ → τ) (j : Json σ) :
    traverse f (map g j) = traverse (fun s => f (g s)) j := by
  cases j with
  | null | bool | int | real | str => rfl
  | arr elements => rw [map,traverse,traverse,traverseElements_map]
  | obj members => rw [map,traverse,traverse,traverseMembers_map]

theorem traverseElements_map (f : τ → Option υ) (g : σ → τ) (elements : List (Json σ)) :
    traverseElements f (mapElements g elements) = traverseElements (fun s => f (g s)) elements := by
  cases elements with
  | nil => rfl
  | cons value rest =>
    rw [mapElements,traverseElements,traverseElements,traverse_map f g value,
      traverseElements_map f g rest]

theorem traverseMembers_map (f : τ → Option υ) (g : σ → τ) (members : List (σ × Json σ)) :
    traverseMembers f (mapMembers g members) = traverseMembers (fun s => f (g s)) members := by
  cases members with
  | nil => rfl
  | cons member rest =>
    obtain ⟨name,value⟩ := member
    rw [mapMembers,traverseMembers,traverseMembers,traverse_map f g value,
      traverseMembers_map f g rest]

end

def isObject : Json σ → Bool
  | .obj _ => true
  | _ => false

@[simp] theorem isObject_map (f : σ → τ) (j : Json σ) : (j.map f).isObject = j.isObject := by
  cases j <;> rfl

variable [DecidableEq σ]

/-- The last member under a key, as map-building parsers keep it. -/
def lastMember (key : σ) : List (σ × Json σ) → Option (Json σ)
  | [] => none
  | (name,value) :: rest => (lastMember key rest).or (if name = key then some value else none)

def get? (j : Json σ) (key : σ) : Option (Json σ) :=
  match j with
  | .obj members => lastMember key members
  | _ => none

@[simp] theorem get?_obj (key : σ) (members : List (σ × Json σ)) :
    (Json.obj members).get? key = lastMember key members := rfl

@[simp] theorem lastMember_nil (key : σ) : lastMember key [] = none := rfl

@[simp] theorem lastMember_cons (key name : σ) (value : Json σ) (rest : List (σ × Json σ)) :
    lastMember key ((name,value) :: rest) =
      (lastMember key rest).or (if name = key then some value else none) := rfl

theorem lastMember_map [DecidableEq τ] {f : σ → τ} (injective : Function.Injective f) (key : σ)
    (members : List (σ × Json σ)) :
    lastMember (f key) (mapMembers f members) = (lastMember key members).map (map f) := by
  induction members with
  | nil => rfl
  | cons member members ih =>
    obtain ⟨name,value⟩ := member
    rw [mapMembers,lastMember_cons,lastMember_cons,ih]
    simp only [injective.eq_iff]
    cases lastMember key members with
    | some => rfl
    | none => split <;> rfl

theorem get?_map [DecidableEq τ] {f : σ → τ} (injective : Function.Injective f) (key : σ) (j : Json σ) :
    (j.map f).get? (f key) = (j.get? key).map (map f) := by
  cases j with
  | obj members => exact lastMember_map injective key members
  | _ => rfl

theorem mem_of_lastMember {members : List (σ × Json σ)} (found : lastMember key members = some value) :
    (key,value) ∈ members := by
  induction members with
  | nil => contradiction
  | cons member members ih =>
    obtain ⟨name,v⟩ := member
    cases later : lastMember key members with
    | some w =>
      simp only [lastMember_cons,later,Option.some_or] at found
      exact List.mem_cons_of_mem _ (ih (later.trans found))
    | none =>
      simp [later] at found
      obtain ⟨rfl,rfl⟩ := found
      exact List.mem_cons_self

theorem lastMember_absent {members : List (σ × Json σ)} (absent : key ∉ members.map Prod.fst) :
    lastMember key members = none := by
  cases found : lastMember key members with
  | none => rfl
  | some value => exact absurd (List.mem_map_of_mem (f := Prod.fst) (mem_of_lastMember found)) absent

theorem lastMember_of_mem {members : List (σ × Json σ)} (distinct : (members.map Prod.fst).Nodup)
    (inside : (key,value) ∈ members) : lastMember key members = some value := by
  induction members with
  | nil => contradiction
  | cons member members ih =>
    obtain ⟨name,v⟩ := member
    obtain ⟨absent,rest⟩ := List.nodup_cons.mp distinct
    rcases List.mem_cons.mp inside with same | later
    · obtain ⟨rfl,rfl⟩ := Prod.mk.inj same
      simp [lastMember_absent absent]
    · simp [ih rest later]

end Json

section Reading

/-! A reader of a value goes on where the part before it has succeeded. -/

theorem bind_ok {x : Except ε α} {f : α → Except ε β} (ran : x.bind f = .ok b) :
    ∃ a, x = .ok a ∧ f a = .ok b := by
  cases x with
  | error e => contradiction
  | ok a => exact ⟨a,rfl,ran⟩

theorem bind_error {x : Except ε α} {f : α → Except ε β} (failed : x.bind f = .error e) :
    x = .error e ∨ ∃ a, x = .ok a ∧ f a = .error e := by
  cases x with
  | error found => exact .inl (by cases failed; rfl)
  | ok a => exact .inr ⟨a,rfl,failed⟩

end Reading

end Wschat
