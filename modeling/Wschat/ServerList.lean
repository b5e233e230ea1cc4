import Wschat.Machine
import Wschat.JsonText

/-! `server/main.go`: the list of servers that the web page offers, and the handler that
reloads it from its file. The handler remembers the modification time of the file, in whole
seconds, before it has read it. -/
namespace Wschat.ServerList

/-- A Go map of names to addresses. -/
structure ServerMap where
  entries : List (String × String)
  distinct : (entries.map Prod.fst).Nodup
  deriving DecidableEq

namespace ServerMap

def empty : ServerMap := ⟨[],List.nodup_nil⟩

def insert (m : ServerMap) (name url : String) : ServerMap where
  entries := (name,url) :: m.entries.filter (·.1 ≠ name)
  distinct := by
    refine List.nodup_cons.mpr ⟨by simp,?_⟩
    exact List.Nodup.sublist (List.filter_sublist.map Prod.fst) m.distinct

end ServerMap

/-- Ranging over a map is in any order. -/
abbrev Order := {f : List (String × String) → List (String × String) // ∀ l, (f l).Perm l}

/-- The order in which the names came. -/
def inOrder : Order := ⟨id,fun _ => .refl _⟩

/-- The first JSON value of a text, and `url.Parse`, which fails with an error's text. -/
structure Library where
  readValue : String → Except String Json
  urlError : String → Option String

inductive DecodeError where
  | unmarshalType
  | other (err : String)
  deriving DecidableEq

/-- A member's value as a string; `null` leaves the empty one. -/
def stringValue : Json → Option String
  | .str s => some s
  | .null => some ""
  | _ => none

/-- The members of an object, later ones last; `none` when one is not a string. -/
def storeMembers : List (String × Json) → ServerMap → Option ServerMap
  | [], held => some held
  | (name,value) :: more, held => do storeMembers more (held.insert name (← stringValue value))

/-- `Decode` into a `map[string]string`; `null` leaves it nil. -/
def decode (lib : Library) (read : Except String String) : Except DecodeError (Option ServerMap) :=
  match read with
  | .error err => .error (.other err)
  | .ok text =>
    match lib.readValue text with
    | .error err => .error (.other err)
    | .ok .null => .ok none
    | .ok (.obj members) =>
      match storeMembers members .empty with
      | some srvrs => .ok (some srvrs)
      | none => .error .unmarshalType
    | .ok _ => .error .unmarshalType

structure Response where
  status : Nat
  body : String
  deriving DecidableEq

/-- What a handler that writes nothing answers. -/
def Response.ok : Response := ⟨200,""⟩

/-- `http.Error`. -/
def httpError (error : String) (code : Nat) : Response := ⟨code,error ++ "\n"⟩

def Response.isError (r : Response) : Prop := r.status ≠ 200

instance (r : Response) : Decidable r.isError := inferInstanceAs (Decidable (_ ≠ _))

/-- What a call finds: an error of `os.Open` or `Stat`, or the modification time of the opened
file, in nanoseconds, with what reading it gives. -/
inductive Opened where
  | notExist
  | failed (err : String)
  | statFailed (err : String)
  | file (modTime : Int) (read : Except String String)

structure Request where
  opened : Opened
  order : Order

/-- `servers` and `serversLastUpdate`. -/
structure State where
  servers : Option ServerMap
  serversLastUpdate : Int
  deriving DecidableEq

def State.initial : State := ⟨none,0⟩

/-- `ModTime().Unix()`. -/
def unix (modTime : Int) : Int := modTime / 1000000000

/-- One round of the loop that validates. -/
def complaint (lib : Library) (name url : String) : String :=
  if name = "" then "Server must have name\n"
  else match lib.urlError url with
    | some err => "Bad URL (" ++ url ++ "): " ++ err ++ "\n"
    | none => ""

def entries (srvrs : Option ServerMap) : List (String × String) :=
  match srvrs with
  | some m => m.entries
  | none => []

def errMsg (lib : Library) (entries : List (String × String)) : String :=
  entries.foldl (fun msg (name,url) => msg ++ complaint lib name url) ""

/-- The critical section of `adminServersHandler`. -/
def reload (lib : Library) (s : State) (modTime : Int) (read : Except String String)
    (order : Order) : State × Response :=
  let timestamp := unix modTime
  if s.serversLastUpdate ≥ timestamp then (s,.ok)
  else
    let s := { s with serversLastUpdate := timestamp }
    match decode lib read with
    | .error .unmarshalType => (s,httpError "Malformed JSON" 400)
    | .error (.other err) => (s,httpError ("Internal server error: " ++ err) 500)
    | .ok srvrs =>
      let msg := errMsg lib (order.1 (entries srvrs))
      if msg ≠ "" then (s,httpError msg 400)
      else ({ s with servers := srvrs },.ok)

def adminServersHandler (lib : Library) (s : State) (r : Request) : State × Response :=
  match r.opened with
  | .notExist => (s,httpError "File does not exist" 404)
  | .failed err => (s,httpError ("Internal server error: " ++ err) 500)
  | .statFailed err => (s,httpError ("Internal server error: " ++ err) 500)
  | .file modTime read => reload lib s modTime read r.order

def machine (lib : Library) : Machine State Request :=
  ⟨.initial,fun s r => some (adminServersHandler lib s r).1⟩

/-- Every entry has a name and an address that `url.Parse` accepts. -/
def Valid (lib : Library) (srvrs : Option ServerMap) : Prop :=
  ∀ e ∈ entries srvrs, e.1 ≠ "" ∧ lib.urlError e.2 = none

/-- The file can be read, decodes and validates. -/
def Loads (lib : Library) (read : Except String String) (srvrs : Option ServerMap) : Prop :=
  decode lib read = .ok srvrs ∧ Valid lib srvrs

section Reload

theorem complaint_eq_empty (lib : Library) (name url : String) :
    complaint lib name url = "" ↔ name ≠ "" ∧ lib.urlError url = none := by
  unfold complaint
  split
  · simp [*]
  · split <;> simp [*]

theorem foldl_complaint (lib : Library) (entries : List (String × String)) (msg : String) :
    entries.foldl (fun msg (name,url) => msg ++ complaint lib name url) msg = "" ↔
      msg = "" ∧ ∀ e ∈ entries, e.1 ≠ "" ∧ lib.urlError e.2 = none := by
  induction entries generalizing msg with
  | nil => simp
  | cons e entries ih =>
    rw [List.foldl_cons,ih,List.forall_mem_cons]
    simp [complaint_eq_empty,and_assoc]

/-- No message, in whatever order the entries come, exactly when every entry is valid. -/
theorem errMsg_eq_empty (lib : Library) (srvrs : Option ServerMap) (order : Order) :
    errMsg lib (order.1 (entries srvrs)) = "" ↔ Valid lib srvrs := by
  rw [errMsg,foldl_complaint]
  simp [Valid,(order.2 _).mem_iff]

/-- Everything a call that gets to read the file can do. -/
theorem reload_cases (lib : Library) (s : State) (modTime : Int) (read : Except String String)
    (order : Order) :
    (unix modTime ≤ s.serversLastUpdate ∧ reload lib s modTime read order = (s,.ok)) ∨
    s.serversLastUpdate < unix modTime ∧
      ((∃ srvrs, Loads lib read srvrs ∧
          reload lib s modTime read order = (⟨srvrs,unix modTime⟩,.ok)) ∨
        (¬∃ srvrs, Loads lib read srvrs) ∧ ∃ response, response.isError ∧
          reload lib s modTime read order = (⟨s.servers,unix modTime⟩,response)) := by
  by_cases old : s.serversLastUpdate ≥ unix modTime
  · exact .inl ⟨old,by simp [reload,old]⟩
  · refine .inr ⟨by omega,?_⟩
    cases decoded : decode lib read with
    | error e =>
      right
      refine ⟨by simp [Loads,decoded],?_⟩
      cases e with
      | unmarshalType =>
        exact ⟨httpError "Malformed JSON" 400,by decide +revert,by simp [reload,old,decoded]⟩
      | other err =>
        exact ⟨httpError ("Internal server error: " ++ err) 500,by simp [Response.isError,httpError],by
          simp [reload,old,decoded]⟩
    | ok srvrs =>
      by_cases valid : Valid lib srvrs
      · exact .inl ⟨srvrs,⟨decoded,valid⟩,by
          simp [reload,old,decoded,(errMsg_eq_empty lib srvrs order).mpr valid]⟩
      · right
        have some_ : errMsg lib (order.1 (entries srvrs)) ≠ "" := fun none_ =>
          valid ((errMsg_eq_empty lib srvrs order).mp none_)
        refine ⟨?_,httpError (errMsg lib (order.1 (entries srvrs))) 400,by
          simp [Response.isError,httpError],by simp [reload,old,decoded,some_]⟩
        rintro ⟨_,same,good⟩
        rw [decoded] at same
        cases same
        exact valid good

theorem reload_succeeds (lib : Library) (s : State) {read : Except String String} (order : Order)
    (loads : unix modTime ≤ s.serversLastUpdate ∨ ∃ srvrs, Loads lib read srvrs) :
    ¬(reload lib s modTime read order).2.isError := by
  rcases reload_cases lib s modTime read order with
    ⟨-,eq⟩ | ⟨new,⟨srvrs,-,eq⟩ | ⟨bad,-⟩⟩
  · rw [eq]
    exact fun failed => failed rfl
  · rw [eq]
    exact fun failed => failed rfl
  · rcases loads with old | loads
    · omega
    · exact absurd loads bad

end Reload

/-- A call that answers with an error leaves nothing changed, so that repeating it gives the
error again. -/
structure Atomic (lib : Library) (s : State) (r : Request) : Prop where
  unchanged : (adminServersHandler lib s r).2.isError → (adminServersHandler lib s r).1 = s
  repeated : (adminServersHandler lib s r).2.isError →
    (adminServersHandler lib (adminServersHandler lib s r).1 r).2 = (adminServersHandler lib s r).2 ∧
    ∀ order, (adminServersHandler lib (adminServersHandler lib s r).1 ⟨r.opened,order⟩).2.isError

/-- The call does not get to read a file that does not load. -/
def Harmless (lib : Library) (s : State) (r : Request) : Prop :=
  ∀ modTime read, r.opened = .file modTime read →
    unix modTime ≤ s.serversLastUpdate ∨ ∃ srvrs, Loads lib read srvrs

/-- Each call of a history, from the state that the ones before leave. -/
def Calls (lib : Library) (P : State → Request → Prop) : State → List Request → Prop
  | _, [] => True
  | s, r :: rs => P s r ∧ Calls lib P (adminServersHandler lib s r).1 rs

theorem calls_congr (lib : Library) {P Q : State → Request → Prop} (same : ∀ s r, P s r ↔ Q s r)
    (s : State) (rs : List Request) : Calls lib P s rs ↔ Calls lib Q s rs := by
  induction rs generalizing s with
  | nil => exact Iff.rfl
  | cons r rs ih => exact and_congr (same s r) (ih _)

theorem atomic_iff (lib : Library) (s : State) (r : Request) : Atomic lib s r ↔ Harmless lib s r := by
  constructor
  · rintro atomic modTime read opened
    have call : adminServersHandler lib s r = reload lib s modTime read r.order := by
      simp [adminServersHandler,opened]
    rcases reload_cases lib s modTime read r.order with
      ⟨old,-⟩ | ⟨-,⟨srvrs,loads,-⟩ | ⟨-,response,failed,eq⟩⟩
    · exact .inl old
    · exact .inr ⟨srvrs,loads⟩
    · rw [eq] at call
      have same := congrArg State.serversLastUpdate (atomic.unchanged (by rwa [call]))
      rw [call] at same
      exact .inl same.le
  · intro harmless
    -- Only a file that was not opened is left to fail, whatever the state and the order.
    have refused (failed : (adminServersHandler lib s r).2.isError) :
        ∃ response, ∀ t order, adminServersHandler lib t ⟨r.opened,order⟩ = (t,response) := by
      unfold adminServersHandler at failed ⊢
      cases opened : r.opened with
      | notExist => exact ⟨_,fun _ _ => rfl⟩
      | failed err => exact ⟨_,fun _ _ => rfl⟩
      | statFailed err => exact ⟨_,fun _ _ => rfl⟩
      | file modTime read =>
        simp only [opened] at failed
        exact absurd failed (reload_succeeds lib s r.order (harmless modTime read opened))
    constructor
    · intro failed
      obtain ⟨response,same⟩ := refused failed
      rw [show adminServersHandler lib s r = (s,response) from same s r.order]
    · intro failed
      obtain ⟨response,same⟩ := refused failed
      have here : adminServersHandler lib s r = (s,response) := same s r.order
      rw [here] at failed ⊢
      exact ⟨by rw [here],fun order => by rwa [same s order]⟩

/-- Loading only ever puts valid entries into the list. -/
theorem reachable_valid (lib : Library) (reachable : (machine lib).Reachable s) :
    Valid lib s.servers := by
  obtain ⟨rs,reached⟩ := reachable
  refine (machine lib).invariant (fun s => Valid lib s.servers) (by simp [machine,State.initial,Valid,entries])
    ?_ reached
  intro s r next valid stepped
  obtain rfl := Option.some.inj stepped
  unfold adminServersHandler
  split
  · exact valid
  · exact valid
  · exact valid
  · next modTime read _ =>
    rcases reload_cases lib s modTime read r.order with
      ⟨-,eq⟩ | ⟨-,⟨srvrs,loads,eq⟩ | ⟨-,response,-,eq⟩⟩ <;> rw [eq]
    · exact valid
    · exact loads.2
    · exact valid

/-- Every call of a history, from any state, is atomic exactly when none reads a file that
does not load; and the entries of every reachable list are valid. -/
theorem reload_atomic_iff (lib : Library) (s : State) (rs : List Request) :
    (Calls lib (Atomic lib) s rs ∧ ∀ t, (machine lib).Reachable t → Valid lib t.servers) ↔
      Calls lib (Harmless lib) s rs :=
  ⟨fun holds => (calls_congr lib (atomic_iff lib) s rs).mp holds.1,fun holds =>
    ⟨(calls_congr lib (atomic_iff lib) s rs).mpr holds,fun _ => reachable_valid lib⟩⟩

/-- JSON as the model of `encoding/json` reads it, and addresses that all parse. -/
def lenient : Library where
  readValue := fun text =>
    match Json.parse text with
    | some value => .ok value
    | none => .error "EOF"
  urlError := fun _ => none

/-- An empty file from the second after the epoch. -/
def emptied : Request := ⟨.file 1000000000 (.ok ""),inOrder⟩

/-- The empty file is an error once, and then a success. -/
theorem emptied_forgotten : ¬∀ (lib : Library) (s : State) (rs : List Request),
    Calls lib (Atomic lib) s rs ∧ ∀ t, (machine lib).Reachable t → Valid lib t.servers := by
  intro all
  have empty : Json.parse "" = none := by decide
  have atomic := (all lenient .initial [emptied]).1.1
  have call : adminServersHandler lenient .initial emptied =
      (⟨none,1⟩,httpError "Internal server error: EOF" 500) := by
    simp [adminServersHandler,emptied,reload,unix,State.initial,decode,lenient,empty]
  have kept := atomic.unchanged (by rw [call]; decide)
  rw [call] at kept
  exact absurd (congrArg State.serversLastUpdate kept) (by decide)

end Wschat.ServerList
