import Wschat.GoMessage

/-! What `encoding/json` accepts and what it leaves in the contents of a message: the last
string under a name that folds to `contents`, or what was there before. -/
namespace Wschat.Go

/-- The value can be stored in the field that the name folds to. -/
def storable (key : String) (value : Json) : Bool :=
  if foldName key = "sender" then !(storeString "" value).2
  else if foldName key = "action" then (unmarshalAction value).isOk
  else if foldName key = "contents" then !(storeString "" value).2
  else if foldName key = "timestamp" then !(storeInt64 0 value).2
  else true

/-- The string that a member stores in the contents. -/
def contentsOf (member : String × Json) : Option String :=
  if foldName member.1 = "contents" then
    match member.2 with
    | .str s => some s
    | _ => none
  else none

theorem storeString_failed (held : String) (value : Json) :
    (storeString held value).2 = (storeString "" value).2 := by
  cases value <;> rfl

theorem storeInt64_failed (held : Int64) (value : Json) :
    (storeInt64 held value).2 = (storeInt64 0 value).2 := by
  cases value with
  | int n => simp only [storeInt64]; split <;> rfl
  | null | bool | real | str | arr | obj => rfl

theorem storeString_value (held : String) (value : Json) :
    (storeString held value).1 = (match value with
      | .str s => some s
      | _ => none).getD held := by
  cases value <;> rfl

/-- Every member has to fit, whatever the message holds. -/
theorem storeMembers_accepts (members : List (String × Json)) (msg : Message) (saved : Bool) :
    (storeMembers members msg saved).2 = none ↔
      saved = false ∧ ∀ member ∈ members, storable member.1 member.2 = true := by
  induction members generalizing msg saved with
  | nil => cases saved <;> simp [storeMembers]
  | cons member members ih =>
    obtain ⟨key,value⟩ := member
    simp only [storeMembers,List.forall_mem_cons]
    obtain ⟨fits,eq⟩ : ∃ fits, storable key value = fits := ⟨_,rfl⟩
    rw [eq]
    unfold storable at eq
    subst fits
    split
    · rw [ih,storeString_failed]; simp [and_assoc]
    · split
      · cases unmarshalAction value with
        | ok action => rw [ih]; simp [Except.isOk,Except.toBool]
        | error failure => simp [Except.isOk,Except.toBool]
      · split
        · rw [ih,storeString_failed]; simp [and_assoc]
        · split
          · rw [ih,storeInt64_failed]; simp [and_assoc]
          · rw [ih]; simp

theorem storeMembers_contents (members : List (String × Json)) (msg : Message) (saved : Bool)
    (accepted : (storeMembers members msg saved).2 = none) :
    (storeMembers members msg saved).1.contents =
      (members.filterMap contentsOf).getLast?.getD msg.contents := by
  induction members generalizing msg saved with
  | nil => rfl
  | cons member members ih =>
    obtain ⟨key,value⟩ := member
    have other : foldName key ≠ "contents" → contentsOf (key,value) = none := by
      intro named
      simp [contentsOf,named]
    simp only [storeMembers] at accepted ⊢
    split at accepted
    · next sender =>
      rw [if_pos sender,ih _ _ accepted,List.filterMap_cons_none (other (by simp [sender]))]
    · next notSender =>
      rw [if_neg notSender]
      split at accepted
      · next named =>
        rw [if_pos named,List.filterMap_cons_none (other (by simp [named]))]
        cases read : unmarshalAction value with
        | ok action => simp only [read] at accepted ⊢; exact ih _ _ accepted
        | error failure => simp [read] at accepted
      · next notAction =>
        rw [if_neg notAction]
        split at accepted
        · next named =>
          rw [if_pos named,ih _ _ accepted]
          simp only [storeString_value]
          cases value with
          | str s =>
            rw [List.filterMap_cons_some (b := s) (by simp [contentsOf,named])]
            cases members.filterMap contentsOf <;> simp [List.getLast?_cons]
          | null | bool | int | real | arr | obj =>
            rw [List.filterMap_cons_none (by simp [contentsOf])]
            rfl
        · next notContents =>
          rw [if_neg notContents,List.filterMap_cons_none (other notContents)]
          split at accepted
          · next named => rw [if_pos named,ih _ _ accepted]
          · next unknown => rw [if_neg unknown,ih _ _ accepted]

section Names

/-! The members as this server writes them. -/

@[simp] theorem foldName_sender : foldName "sender" = "sender" := by decide

@[simp] theorem foldName_action : foldName "action" = "action" := by decide

@[simp] theorem foldName_contents : foldName "contents" = "contents" := by decide

@[simp] theorem foldName_timestamp : foldName "timestamp" = "timestamp" := by decide

variable (members : List (String × Json)) (held : Message) (saved : Bool)

theorem storeMembers_nil : storeMembers [] held false = (held,none) := rfl

theorem store_sender (s : String) : storeMembers (("sender",.str s) :: members) held saved =
    storeMembers members { held with sender := s } saved := by
  simp [storeMembers,storeString]

theorem store_action (known : unmarshalAction value = .ok a) :
    storeMembers (("action",value) :: members) held saved =
      storeMembers members { held with action := some a } saved := by
  simp [storeMembers,known]

theorem store_contents (s : String) : storeMembers (("contents",.str s) :: members) held saved =
    storeMembers members { held with contents := s } saved := by
  simp [storeMembers,storeString]

theorem store_timestamp (n : Int64) : storeMembers (("timestamp",.int n.toInt) :: members) held saved =
    storeMembers members { held with timestamp := n } saved := by
  have inside : -2^63 ≤ n.toInt ∧ n.toInt < 2^63 := ⟨n.le_toInt,n.toInt_lt⟩
  have stored : storeInt64 held.timestamp (.int n.toInt) = (n,false) := by
    rw [storeInt64,if_pos inside,Int64.ofInt_toInt]
  simp [storeMembers,stored]

/-- A member that is left out leaves what the message has held. -/
theorem unmarshal_marshal (lib : EncodingJson) (msg : Message) (action : msg.action = some a) :
    unmarshal lib (marshal lib msg) held =
      (⟨if msg.sender = "" then held.sender else msg.sender,some a,
        if msg.contents = "" then held.contents else msg.contents,
        if msg.timestamp = 0 then held.timestamp else msg.timestamp⟩,none) := by
  have known : unmarshalAction (marshalAction (some a)) = .ok a := by simp [marshalAction,unmarshalAction]
  rw [unmarshal,marshal,lib.parse_print,marshalJson]
  by_cases s : msg.sender = "" <;> by_cases c : msg.contents = "" <;> by_cases t : msg.timestamp = 0 <;>
    simp [omitempty,s,c,t,action,store_sender,store_action _ _ _ known,store_contents,store_timestamp,
      storeMembers_nil]

end Names

/-- The strings and the action that a frame stores, each the last of its kind. -/
structure Stored where
  sender : Option String
  action : Option Action
  contents : Option String
  deriving DecidableEq, Repr

def stringOf : Json → Option String
  | .str s => some s
  | _ => none

/-- The members of an object up to the first action that is none. -/
def storedMembers : List (String × Json) → Stored → Stored
  | [], p => p
  | (key,value) :: members, p =>
    if foldName key = "sender" then
      storedMembers members { p with sender := (stringOf value).or p.sender }
    else if foldName key = "action" then
      match unmarshalAction value with
      | .ok action => storedMembers members { p with action := some action }
      | .error _ => p
    else if foldName key = "contents" then
      storedMembers members { p with contents := (stringOf value).or p.contents }
    else storedMembers members p

def storedFields (lib : EncodingJson) (text : String) : Stored :=
  match lib.parse text with
  | some (.obj members) => storedMembers members ⟨none,none,none⟩
  | _ => ⟨none,none,none⟩

/-- What is stored after `held` has been. -/
def Stored.over (p held : Stored) : Stored :=
  ⟨p.sender.or held.sender,p.action.or held.action,p.contents.or held.contents⟩

/-- `msg` is `held` with what has been stored. -/
structure Stored.Over (p : Stored) (held msg : Message) : Prop where
  sender : msg.sender = p.sender.getD held.sender
  action : msg.action = p.action.or held.action
  contents : msg.contents = p.contents.getD held.contents

theorem Stored.Over.trans {p q : Stored} (first : q.Over held msg) (then_ : p.Over msg msg') :
    (p.over q).Over held msg' := by
  obtain ⟨sender,action,contents⟩ := first
  refine ⟨?_,?_,?_⟩
  · rw [then_.sender,sender]
    cases own : p.sender <;> simp [Stored.over,own]
  · rw [then_.action,action,Stored.over,Option.or_assoc]
  · rw [then_.contents,contents]
    cases own : p.contents <;> simp [Stored.over,own]

theorem storeString_stringOf (held : String) (value : Json) (before : Option String) (s : String)
    (eq : s = before.getD held) :
    (storeString s value).1 = ((stringOf value).or before).getD held := by
  cases value <;> simp [storeString,stringOf,eq]

theorem storeMembers_stored (members : List (String × Json)) (saved : Bool)
    {p : Stored} {held msg : Message} (over_ : p.Over held msg) :
    (storedMembers members p).Over held (storeMembers members msg saved).1 := by
  induction members generalizing p msg saved with
  | nil => exact over_
  | cons member members ih =>
    obtain ⟨key,value⟩ := member
    simp only [storeMembers,storedMembers]
    split
    · exact ih _ ⟨storeString_stringOf held.sender value p.sender _ over_.sender,over_.action,over_.contents⟩
    · split
      · cases unmarshalAction value with
        | ok action => exact ih _ ⟨over_.sender,rfl,over_.contents⟩
        | error failure => exact over_
      · split
        · exact ih _ ⟨over_.sender,over_.action,
            storeString_stringOf held.contents value p.contents _ over_.contents⟩
        · split
          · exact ih _ ⟨over_.sender,over_.action,over_.contents⟩
          · exact ih _ over_

/-- Members that can all be stored, an action among them, store an action. -/
theorem storedMembers_action (members : List (String × Json)) (p : Stored)
    (fits : ∀ member ∈ members, storable member.1 member.2 = true)
    (named : (∃ member ∈ members, foldName member.1 = "action") ∨ p.action ≠ none) :
    (storedMembers members p).action ≠ none := by
  induction members generalizing p with
  | nil => simpa [storedMembers] using named
  | cons member members ih =>
    obtain ⟨key,value⟩ := member
    obtain ⟨fit,fits⟩ := List.forall_mem_cons.mp fits
    simp only [List.exists_mem_cons_iff] at named
    unfold storedMembers
    split
    · next sender => exact ih _ fits (by simpa [sender] using named)
    · split
      · next action =>
        cases read : unmarshalAction value with
        | ok a => exact ih _ fits (.inr (by simp))
        | error failure => simp [storable,action,read,Except.isOk,Except.toBool] at fit
      · next action =>
        split
        · exact ih _ fits (by simpa [action] using named)
        · exact ih _ fits (by simpa [action] using named)

/-- Decoding leaves what the frame stores, and else what the message held. -/
theorem unmarshal_stored (lib : EncodingJson) (text : String) (held : Message) :
    (storedFields lib text).Over held (unmarshal lib text held).1 := by
  have none_ : (⟨none,none,none⟩ : Stored).Over held held := ⟨rfl,rfl,rfl⟩
  unfold unmarshal storedFields
  cases lib.parse text with
  | none => exact none_
  | some j =>
    cases j with
    | obj members => exact storeMembers_stored members false none_
    | null | bool | int | real | str | arr => exact none_

end Wschat.Go
