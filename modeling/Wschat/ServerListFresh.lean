import Wschat.ServerList

/-! Reloading the list of servers while its file is edited. A call opens the file, asks for
its modification time and only then takes the lock; an edit may write into the file that is
open or put another one in its place. -/
namespace Wschat.ServerList

/-- What an edit gives the file; the time is in nanoseconds. -/
structure Version where
  mtime : Int
  content : String
  deriving DecidableEq

/-- Where a call stands: the version it opened, the file that it has open, the modification
time. An answered call also keeps `servers` as it left them (ghost). -/
inductive Call where
  | idle
  | opened (version file : Nat)
  | statted (version file : Nat) (modTime : Int)
  | refused (response : Response)
  | answered (version : Nat) (response : Response) (servers : Option ServerMap)
  deriving DecidableEq

structure World where
  versions : List Version
  /-- The file at `serversPath`; a file is named by the version it was created with. -/
  path : Option Nat
  /-- The version in each file. -/
  file : Nat → Nat
  calls : Nat → Call
  list : State
  /-- The version that the last reading loaded; none where it failed (ghost). -/
  source : Option Nat

namespace World

def initial : World := ⟨[],none,id,fun _ => .idle,.initial,none⟩

def version (w : World) (k : Nat) : Version := w.versions.getD k ⟨0,""⟩

def setCall (w : World) (c : Nat) (call : Call) : World := { w with calls := replace w.calls c call }

inductive Event where
  /-- `rename` tells whether another file is put at the path. -/
  | edit (rename : Bool) (new : Version)
  | open_ (c : Nat)
  | stat (c : Nat)
  /-- `os.Open` or `Stat` fails. -/
  | fail (c : Nat) (r : Request)
  /-- The critical section; reading may fail. -/
  | serve (c : Nat) (order : Order) (readError : Option String)

def fails : Call → Opened → Bool
  | .idle, .notExist | .idle, .failed _ | .opened _ _, .statFailed _ => true
  | _, _ => false

def edit (w : World) (rename : Bool) (new : Version) : World :=
  let n := w.versions.length
  let file := if rename then n else w.path.getD n
  { w with
    versions := w.versions ++ [new]
    path := some file
    file := replace w.file file n }

def read (w : World) (file : Nat) : Option String → Except String String
  | some err => .error err
  | none => .ok (w.version (w.file file)).content

def serve (lib : Library) (w : World) (c version file : Nat) (modTime : Int) (order : Order)
    (readError : Option String) : World :=
  let (list,response) := adminServersHandler lib w.list
    ⟨.file modTime (w.read file readError),order⟩
  let reads := w.list.serversLastUpdate < unix modTime
  { w with
    list := list
    source := if reads then (if response.isError then none else some (w.file file)) else w.source
    calls := replace w.calls c (.answered version response list.servers) }

def step (lib : Library) (w : World) : Event → Option World
  | .edit rename new =>
    if ∀ last ∈ w.versions.getLast?, last.mtime ≤ new.mtime then some (w.edit rename new) else none
  | .open_ c =>
    match w.calls c, w.path with
    | .idle, some file => some (w.setCall c (.opened (w.file file) file))
    | _, _ => none
  | .stat c =>
    match w.calls c with
    | .opened version file => some (w.setCall c (.statted version file (w.version (w.file file)).mtime))
    | _ => none
  | .fail c r =>
    if fails (w.calls c) r.opened then
      let (list,response) := adminServersHandler lib w.list r
      some { w.setCall c (.refused response) with list := list }
    else none
  | .serve c order readError =>
    match w.calls c with
    | .statted version file modTime => some (w.serve lib c version file modTime order readError)
    | _ => none

end World

open World in
def world (lib : Library) : Machine World World.Event := ⟨.initial,step lib⟩

/-- A call that answered without an error left the list of the version it opened, or of a
later one. -/
def Fresh (lib : Library) (w : World) : Prop :=
  ∀ c version response servers, w.calls c = .answered version response servers →
    ¬response.isError → ∃ k new, version ≤ k ∧ w.versions[k]? = some new ∧
      decode lib (.ok new.content) = .ok servers

/-- An edit falls in a second after the remembered one. A call gets to read a file only if what
has been made since falls in a second after the one it has seen; and one that reads nothing
comes after a reading that has loaded. -/
def Timely (w : World) : World.Event → Prop
  | .edit _ new => w.list.serversLastUpdate < unix new.mtime
  | .serve c _ _ => ∀ version file modTime, w.calls c = .statted version file modTime →
      if unix modTime ≤ w.list.serversLastUpdate then w.source ≠ none
      else ∀ new ∈ w.versions.drop (w.file file + 1), unix modTime < unix new.mtime
  | _ => True

/-- What every reachable world keeps. -/
structure Filed (lib : Library) (w : World) : Prop where
  path : ∀ file, w.path = some file → w.file file < w.versions.length
  opened : ∀ c version file, w.calls c = .opened version file →
    version ≤ w.file file ∧ w.file file < w.versions.length
  statted : ∀ c version file modTime, w.calls c = .statted version file modTime →
    version ≤ w.file file ∧ w.file file < w.versions.length
  source : ∀ k, w.source = some k → ∃ new, w.versions[k]? = some new ∧
    decode lib (.ok new.content) = .ok w.list.servers

/-- What it keeps as well while the steps are timely: a call has seen the time of a version that
it reads or of one before, and the seconds that the list has behind it end with its version. -/
structure Timed (w : World) : Prop where
  seen : ∀ c version file modTime, w.calls c = .statted version file modTime →
    ∃ (j : Nat) (new : Version), version ≤ j ∧ j ≤ w.file file ∧ w.versions[j]? = some new ∧
      modTime = new.mtime
  passed : ∀ k, w.source = some k → ∀ i new, w.versions[i]? = some new →
    unix new.mtime ≤ w.list.serversLastUpdate → i ≤ k

section Steps

/-- What the critical section can do: nothing, load the list, or remember the second of a file
that does not load. -/
theorem serve_cases (lib : Library) (w : World) (c version file : Nat) (modTime : Int)
    (order : Order) (readError : Option String) :
    ∃ list source response, w.serve lib c version file modTime order readError =
        { w with
          list := list
          source := source
          calls := replace w.calls c (.answered version response list.servers) } ∧
      ((unix modTime ≤ w.list.serversLastUpdate ∧ list = w.list ∧ source = w.source) ∨
        (w.list.serversLastUpdate < unix modTime ∧ Loads lib (w.read file readError) list.servers ∧
          source = some (w.file file) ∧ list.serversLastUpdate = unix modTime) ∨
        (response.isError ∧ source = none)) := by
  have call : adminServersHandler lib w.list ⟨.file modTime (w.read file readError),order⟩ =
      reload lib w.list modTime (w.read file readError) order := rfl
  unfold World.serve
  rcases reload_cases lib w.list modTime (w.read file readError) order with
    ⟨old,eq⟩ | ⟨new,⟨srvrs,loads,eq⟩ | ⟨bad,response,failed,eq⟩⟩ <;> rw [call,eq]
  · exact ⟨w.list,w.source,.ok,by simp [show ¬w.list.serversLastUpdate < unix modTime by omega],
      .inl ⟨old,rfl,rfl⟩⟩
  · exact ⟨⟨srvrs,unix modTime⟩,some (w.file file),.ok,by
      simp [new,Response.isError,Response.ok],.inr (.inl ⟨new,loads,rfl,rfl⟩)⟩
  · exact ⟨⟨w.list.servers,unix modTime⟩,none,response,by simp [new,failed],.inr (.inr ⟨failed,rfl⟩)⟩

theorem loads_version {w : World} (loads : Loads lib (w.read file readError) srvrs)
    (inside : w.file file < w.versions.length) :
    ∃ new, w.versions[w.file file]? = some new ∧ decode lib (.ok new.content) = .ok srvrs := by
  cases readError with
  | some err => exact absurd loads.1 (by simp [World.read,decode])
  | none =>
    refine ⟨w.versions[w.file file],List.getElem?_eq_getElem inside,?_⟩
    have decoded := loads.1
    simpa [World.read,World.version,List.getElem?_eq_getElem inside] using decoded

theorem fails_list (lib : Library) (s : State) (r : Request) (fails : World.fails call r.opened = true) :
    ∃ response, response.isError ∧ adminServersHandler lib s r = (s,response) := by
  unfold adminServersHandler
  cases opened : r.opened with
  | file modTime read => rw [opened] at fails; cases call <;> contradiction
  | notExist => exact ⟨_,by simp [httpError,Response.isError],rfl⟩
  | failed err => exact ⟨_,by simp [httpError,Response.isError],rfl⟩
  | statFailed err => exact ⟨_,by simp [httpError,Response.isError],rfl⟩

theorem getElem?_append_some {versions : List Version} {k : Nat} {new : Version} (found : versions[k]? = some new)
    (more : List Version) : (versions ++ more)[k]? = some new := by
  have inside := (List.getElem?_eq_some_iff.mp found).1
  rwa [List.getElem?_append_left inside]

theorem edit_file (w : World) (rename : Bool) (new : Version) (inside : w.file file < w.versions.length) :
    w.file file ≤ (w.edit rename new).file file ∧
      (w.edit rename new).file file < w.versions.length + 1 := by
  simp only [World.edit,replace]
  generalize (if rename then w.versions.length else w.path.getD w.versions.length) = target
  split <;> omega

theorem Filed.edit (filed : Filed lib w) (rename : Bool) (new : Version) :
    Filed lib (w.edit rename new) := by
  have size : (w.edit rename new).versions.length = w.versions.length + 1 := by simp [World.edit]
  have grows (version file : Nat) (here : version ≤ w.file file ∧ w.file file < w.versions.length) :
      version ≤ (w.edit rename new).file file ∧
        (w.edit rename new).file file < (w.edit rename new).versions.length := by
    have moved := edit_file w rename new here.2
    omega
  constructor
  · rintro file ⟨⟩
    rw [size]
    simp [World.edit]
  · exact fun c version file opened => grows version file (filed.opened c version file opened)
  · exact fun c version file modTime statted =>
      grows version file (filed.statted c version file modTime statted)
  · intro k found
    obtain ⟨old,here,decoded⟩ := filed.source k found
    exact ⟨old,getElem?_append_some here _,decoded⟩

theorem Filed.setCall (filed : Filed lib w) (c : Nat) (call : Call)
    (opened : ∀ version file, call = .opened version file →
      version ≤ w.file file ∧ w.file file < w.versions.length)
    (statted : ∀ version file modTime, call = .statted version file modTime →
      version ≤ w.file file ∧ w.file file < w.versions.length) : Filed lib (w.setCall c call) := by
  refine ⟨filed.path,?_,?_,filed.source⟩
  · exact replace_forall (R := fun _ (call : Call) => ∀ version file, call = .opened version file →
      version ≤ w.file file ∧ w.file file < w.versions.length) filed.opened opened
  · exact replace_forall (R := fun _ (call : Call) => ∀ version file modTime,
      call = .statted version file modTime →
        version ≤ w.file file ∧ w.file file < w.versions.length) filed.statted statted

theorem step_filed (filed : Filed lib w) (stepped : World.step lib w e = some next) :
    Filed lib next := by
  cases e with
  | edit rename new =>
    simp only [World.step,Option.ite_none_right_eq_some,Option.some.injEq] at stepped
    obtain ⟨-,rfl⟩ := stepped
    exact filed.edit rename new
  | open_ c =>
    simp only [World.step] at stepped
    split at stepped
    · next file _ path =>
      obtain rfl := Option.some.inj stepped
      refine filed.setCall c _ ?_ (by simp)
      rintro version file ⟨⟩
      exact ⟨le_rfl,filed.path _ path⟩
    · contradiction
  | stat c =>
    simp only [World.step] at stepped
    split at stepped
    · next version file opened =>
      obtain rfl := Option.some.inj stepped
      refine filed.setCall c _ (by simp) ?_
      rintro version file modTime ⟨⟩
      exact filed.opened c _ _ opened
    · contradiction
  | fail c r =>
    simp only [World.step,Option.ite_none_right_eq_some] at stepped
    obtain ⟨fails,stepped⟩ := stepped
    obtain ⟨response,-,eq⟩ := fails_list lib w.list r fails
    rw [eq] at stepped
    obtain rfl := Option.some.inj stepped
    exact filed.setCall c _ (by simp) (by simp)
  | serve c order readError =>
    simp only [World.step] at stepped
    split at stepped
    · next version file modTime statted =>
      obtain rfl := Option.some.inj stepped
      obtain ⟨list,source,response,eq,cases⟩ :=
        serve_cases lib w c version file modTime order readError
      have called := filed.setCall c (.answered version response list.servers) (by simp) (by simp)
      rw [eq]
      refine ⟨called.path,called.opened,called.statted,fun k found => ?_⟩
      rcases cases with ⟨-,rfl,rfl⟩ | ⟨-,loads,rfl,-⟩ | ⟨-,rfl⟩
      · exact filed.source k found
      · obtain rfl := Option.some.inj found
        exact loads_version loads (filed.statted c _ _ _ statted).2
      · contradiction
    · contradiction

theorem Fresh.setCall (fresh : Fresh lib w) (c : Nat) (call : Call)
    (answered : ∀ version response servers, call = .answered version response servers →
      ¬response.isError → ∃ k new, version ≤ k ∧ w.versions[k]? = some new ∧
        decode lib (.ok new.content) = .ok servers) : Fresh lib (w.setCall c call) :=
  replace_forall (R := fun _ (call : Call) => ∀ version response servers,
    call = .answered version response servers → ¬response.isError →
      ∃ k new, version ≤ k ∧ w.versions[k]? = some new ∧
        decode lib (.ok new.content) = .ok servers) fresh answered

theorem Timed.setCall (timed : Timed w) (c : Nat) (call : Call)
    (seen : ∀ version file modTime, call = .statted version file modTime →
      ∃ (j : Nat) (new : Version), version ≤ j ∧ j ≤ w.file file ∧ w.versions[j]? = some new ∧
        modTime = new.mtime) :
    Timed (w.setCall c call) :=
  ⟨replace_forall (R := fun _ (call : Call) => ∀ version file modTime,
    call = .statted version file modTime → ∃ (j : Nat) (new : Version), version ≤ j ∧
      j ≤ w.file file ∧ w.versions[j]? = some new ∧ modTime = new.mtime) timed.seen seen,
    timed.passed⟩

theorem Timed.edit (timed : Timed w) (filed : Filed lib w) (rename : Bool) (new : Version)
    (after : w.list.serversLastUpdate < unix new.mtime) : Timed (w.edit rename new) := by
  constructor
  · intro c version file modTime statted
    obtain ⟨j,old,later,held,here,eq⟩ := timed.seen c version file modTime statted
    have moved := edit_file w rename new (filed.statted c version file modTime statted).2
    exact ⟨j,old,later,held.trans moved.1,getElem?_append_some here _,eq⟩
  · intro k source i other here second
    have inside := (List.getElem?_eq_some_iff.mp here).1
    by_cases last : i < w.versions.length
    · rw [show (w.edit rename new).versions = w.versions ++ [new] from rfl,
        List.getElem?_append_left last] at here
      exact timed.passed k source i other here second
    · have here : (w.versions ++ [new])[i]? = some other := here
      have at_ : i = w.versions.length := by
        simp [World.edit] at inside
        omega
      obtain rfl : new = other := by simpa [at_] using here
      exact absurd second (not_le.mpr after)

/-- A version behind the one that is loaded falls in a later second. -/
theorem Timed.serve (timed : Timed w) (statted : w.calls c = .statted version file modTime)
    (timely : Timely w (.serve c order readError)) :
    Timed (w.serve lib c version file modTime order readError) := by
  obtain ⟨list,source,response,eq,cases⟩ :=
    serve_cases lib w c version file modTime order readError
  have called := timed.setCall c (.answered version response list.servers) (by simp)
  rw [eq]
  refine ⟨called.seen,fun k found i new here second => ?_⟩
  rcases cases with ⟨-,rfl,rfl⟩ | ⟨unread,-,rfl,remembered⟩ | ⟨-,rfl⟩
  · exact timed.passed k found i new here second
  · obtain rfl := Option.some.inj found
    have condition := timely version file modTime statted
    rw [if_neg (not_le.mpr unread)] at condition
    by_contra! behind
    have since : new ∈ w.versions.drop (w.file file + 1) := by
      refine List.mem_of_getElem? (i := i - (w.file file + 1)) ?_
      rw [List.getElem?_drop]
      rw [show w.file file + 1 + (i - (w.file file + 1)) = i by omega]
      exact here
    have later := condition new since
    rw [show (_ : State).serversLastUpdate = _ from remembered] at second
    omega
  · contradiction

theorem step_timed (filed : Filed lib w) (timed : Timed w) (timely : Timely w e)
    (stepped : World.step lib w e = some next) : Timed next := by
  cases e with
  | edit rename new =>
    simp only [World.step,Option.ite_none_right_eq_some,Option.some.injEq] at stepped
    obtain ⟨-,rfl⟩ := stepped
    exact timed.edit filed rename new timely
  | open_ c =>
    simp only [World.step] at stepped
    split at stepped
    · obtain rfl := Option.some.inj stepped
      exact timed.setCall c _ (by simp)
    · contradiction
  | stat c =>
    simp only [World.step] at stepped
    split at stepped
    · next version file opened =>
      obtain rfl := Option.some.inj stepped
      obtain ⟨later,inside⟩ := filed.opened c version file opened
      refine timed.setCall c _ ?_
      rintro _ _ _ ⟨⟩
      exact ⟨w.file file,w.versions[w.file file],later,le_rfl,List.getElem?_eq_getElem inside,by
        simp [World.version,List.getElem?_eq_getElem inside]⟩
    · contradiction
  | fail c r =>
    simp only [World.step,Option.ite_none_right_eq_some] at stepped
    obtain ⟨fails,stepped⟩ := stepped
    obtain ⟨response,-,eq⟩ := fails_list lib w.list r fails
    rw [eq] at stepped
    obtain rfl := Option.some.inj stepped
    exact timed.setCall c _ (by simp)
  | serve c order readError =>
    simp only [World.step] at stepped
    split at stepped
    · next version file modTime statted =>
      obtain rfl := Option.some.inj stepped
      exact timed.serve statted timely
    · contradiction

theorem Timed.current (timed : Timed w) (statted : w.calls c = .statted version file modTime)
    (old : unix modTime ≤ w.list.serversLastUpdate) (timely : Timely w (.serve c order readError)) :
    ∃ k, w.source = some k ∧ version ≤ k := by
  have loaded : w.source ≠ none := by simpa [old] using timely version file modTime statted
  obtain ⟨k,source⟩ := Option.ne_none_iff_exists'.mp loaded
  obtain ⟨j,new,later,-,here,rfl⟩ := timed.seen c version file modTime statted
  exact ⟨k,source,later.trans (timed.passed k source j new here old)⟩

theorem step_fresh (filed : Filed lib w) (timed : Timed w) (fresh : Fresh lib w) (timely : Timely w e)
    (stepped : World.step lib w e = some next) : Fresh lib next := by
  cases e with
  | edit rename new =>
    simp only [World.step,Option.ite_none_right_eq_some,Option.some.injEq] at stepped
    obtain ⟨-,rfl⟩ := stepped
    intro c version response servers answered ok
    obtain ⟨k,old,later,here,decoded⟩ := fresh c version response servers answered ok
    exact ⟨k,old,later,getElem?_append_some here _,decoded⟩
  | open_ c =>
    simp only [World.step] at stepped
    split at stepped
    · obtain rfl := Option.some.inj stepped
      exact fresh.setCall c _ (by simp)
    · contradiction
  | stat c =>
    simp only [World.step] at stepped
    split at stepped
    · obtain rfl := Option.some.inj stepped
      exact fresh.setCall c _ (by simp)
    · contradiction
  | fail c r =>
    simp only [World.step,Option.ite_none_right_eq_some] at stepped
    obtain ⟨fails,stepped⟩ := stepped
    obtain ⟨response,-,eq⟩ := fails_list lib w.list r fails
    rw [eq] at stepped
    obtain rfl := Option.some.inj stepped
    exact fresh.setCall c _ (by simp)
  | serve c order readError =>
    simp only [World.step] at stepped
    split at stepped
    · next version file modTime statted =>
      obtain rfl := Option.some.inj stepped
      obtain ⟨list,source,response,eq,cases⟩ :=
        serve_cases lib w c version file modTime order readError
      rw [eq]
      refine fresh.setCall c (.answered version response list.servers) ?_
      rintro _ _ _ ⟨⟩ ok
      rcases cases with ⟨old,rfl,-⟩ | ⟨-,loads,-⟩ | ⟨failed,-⟩
      · obtain ⟨k,loaded,later⟩ := timed.current statted old timely
        obtain ⟨new,here,decoded⟩ := filed.source k loaded
        exact ⟨k,new,later,here,decoded⟩
      · have inside := filed.statted c version file modTime statted
        obtain ⟨new,here,decoded⟩ := loads_version loads inside.2
        exact ⟨_,new,inside.1,here,decoded⟩
      · exact absurd failed ok
    · contradiction

theorem filed_initial (lib : Library) : Filed lib World.initial :=
  ⟨by simp [World.initial],by simp [World.initial],by simp [World.initial],by simp [World.initial]⟩

end Steps

/-- In every run whose steps are all timely, every call that answers without an error leaves the
list of the version it opened or of a later one. -/
theorem timely_fresh (lib : Library) (meets : (world lib).Meets Timely es)
    (reached : (world lib).Reaches es w) : Fresh lib w := by
  have kept := (world lib).invariant_of_meets Timely (fun w => Filed lib w ∧ Timed w ∧ Fresh lib w)
    ⟨filed_initial lib,⟨by simp [world,World.initial],by simp [world,World.initial]⟩,by
      simp [Fresh,world,World.initial]⟩
    (fun w e next kept timely stepped => ⟨step_filed kept.1 stepped,
      step_timed kept.1 kept.2.1 timely stepped,
      step_fresh kept.1 kept.2.1 kept.2.2 timely stepped⟩) meets reached
  exact kept.2.2

section Samples

open World

def whole (c : Nat) : List Event := [.open_ c,.stat c,.serve c inOrder none]

/-- `Timely`, as a test. -/
def timelyCheck (w : World) : Event → Bool
  | .edit _ new => w.list.serversLastUpdate < unix new.mtime
  | .serve c _ _ =>
    match w.calls c with
    | .statted _ file modTime =>
      if unix modTime ≤ w.list.serversLastUpdate then w.source ≠ none
      else (w.versions.drop (w.file file + 1)).all fun new => unix modTime < unix new.mtime
    | _ => true
  | _ => true

theorem timely_of_check (w : World) (e : Event) (checked : timelyCheck w e = true) : Timely w e := by
  cases e with
  | edit rename new =>
    show w.list.serversLastUpdate < unix new.mtime
    simpa [timelyCheck] using checked
  | serve c order readError =>
    intro version file modTime statted
    simp only [timelyCheck,statted] at checked
    split at checked <;> rename_i second
    · rw [if_pos second]
      exact of_decide_eq_true checked
    · rw [if_neg second]
      simpa using checked
  | open_ | stat | fail => trivial

/-- The list is loaded, called for again, broken, repaired, and written to while a call has it
open. -/
def edited : List Event :=
  [[.edit false ⟨1000000000,"null"⟩],whole 0,whole 1,[.edit true ⟨2000000000,""⟩],whole 2,
    [.edit false ⟨3000000000,"\x7b\x7d"⟩],whole 3,[.edit true ⟨4000000000,"null"⟩,.open_ 4,.stat 4,
      .edit false ⟨5000000000,"\x7b\x7d"⟩,.serve 4 inOrder none],whole 5].flatten

theorem edited_runs : (world lenient).check timelyCheck edited .initial = true ∧
    ((world lenient).run edited .initial).any (fun w => decide (w.versions.length = 5) &&
      decide (w.calls 1 = .answered 0 .ok none) &&
      decide (w.calls 3 = .answered 2 .ok (some .empty))) = true := by
  decide +kernel

theorem edited_fresh : ∃ w, (world lenient).Reaches edited w ∧ (w.versions.length = 5 ∧
    w.calls 1 = .answered 0 .ok none) ∧ w.calls 3 = .answered 2 .ok (some .empty) ∧
    Fresh lenient w := by
  obtain ⟨timely,ran⟩ := edited_runs
  obtain ⟨w,reached,checked⟩ := (Option.any_eq_true _ _).mp ran
  simp only [Bool.and_eq_true,decide_eq_true_eq] at checked
  have meets := (world lenient).meets_of_check timelyCheck timely_of_check timely
  exact ⟨w,reached,checked.1,checked.2,timely_fresh lenient meets reached⟩

/-- A file that does not load, and a second call. -/
def emptiedTwice : List Event := .edit false ⟨1000000000,""⟩ :: whole 0 ++ whole 1

/-- The second call succeeds without a list. -/
theorem emptied_stale : ¬∀ (lib : Library) (es : List Event) (w : World),
    (world lib).Reaches es w → Fresh lib w := by
  intro all
  have ran : ∃ w, (world lenient).Reaches emptiedTwice w ∧ w.calls 1 = .answered 0 .ok none ∧
      w.versions = [⟨1000000000,""⟩] := ⟨_,rfl,rfl,rfl⟩
  obtain ⟨w,reached,answered,versions⟩ := ran
  obtain ⟨k,new,-,here,decoded⟩ := all lenient emptiedTwice w reached 1 0 .ok none answered (by
    simp [Response.isError,Response.ok])
  have only : new = ⟨1000000000,""⟩ := by
    have := List.mem_of_getElem? here
    simpa [versions] using this
  have unread : decode lenient (.ok "") = .error (.other "EOF") := rfl
  rw [only,unread] at decoded
  contradiction

end Samples

end Wschat.ServerList
