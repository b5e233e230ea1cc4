import Mathlib.Data.List.Infix
import Wschat.LoadStats

/-! The end of `runTest` of `client/main.go`: when a worker has failed, the user goes through the
errors at a menu on the console. -/
namespace Wschat.Load

open Go

/-- What is there to read, in lines that are complete, and what has been printed. -/
structure Console where
  stdin : List String
  stdout : List String
  deriving DecidableEq

def Console.print (texts : List String) (c : Console) : Console :=
  { c with stdout := c.stdout ++ texts }

def isSpace (c : Char) : Bool :=
  (9 ≤ c.toNat && c.toNat ≤ 13) || c = ' ' || c.toNat = 0x85 || c.toNat = 0xa0 || c.toNat = 0x1680 ||
    (0x2000 ≤ c.toNat && c.toNat ≤ 0x200a) || c.toNat = 0x2028 || c.toNat = 0x2029 ||
    c.toNat = 0x202f || c.toNat = 0x205f || c.toNat = 0x3000

def trimSpace (s : String) : String :=
  String.ofList ((s.toList.dropWhile isSpace).reverse.dropWhile isSpace).reverse

/-- `strconv.Atoi`, for an `int` of 64 bits. -/
def atoi (s : String) : Option Int :=
  let (negative,digits) := match s.toList with
    | '-' :: digits => (true,digits)
    | '+' :: digits => (false,digits)
    | digits => (false,digits)
  if digits = [] ∨ digits.all Char.isDigit = false then none
  else
    let size : Int := Nat.ofDigitChars 10 digits 0
    let i := if negative then -size else size
    if -2^63 ≤ i ∧ i < 2^63 then some i else none

/-- `readline`. At the end of the input the program exits, with this on the console. -/
def readline (prompt : String) (c : Console) : Except Console (String × Console) :=
  let c := c.print [prompt]
  match c.stdin with
  | [] => .error c
  | line :: lines => .ok (trimSpace line,{ c with stdin := lines })

def readlineWith (prompt : String) (f : String → Option α) :
    List String → List String → Except Console (α × Console)
  | [], stdout => .error ⟨[],stdout ++ [prompt]⟩
  | line :: lines, stdout =>
    match f (trimSpace line) with
    | some value => .ok (value,⟨lines,stdout ++ [prompt]⟩)
    | none => readlineWith prompt f lines (stdout ++ [prompt])

/-- The loop of the source: read a line, and again until one is good. -/
theorem readlineWith_eq (prompt : String) (f : String → Option α) (c : Console) :
    readlineWith prompt f c.stdin c.stdout = (readline prompt c).bind fun (line,c) =>
      match f line with
      | some value => .ok (value,c)
      | none => readlineWith prompt f c.stdin c.stdout := by
  obtain ⟨stdin,stdout⟩ := c
  cases stdin <;> rfl

/-- The lists of errors, under the numbers of the menu. -/
inductive ErrorType where
  | connect
  | send
  | recv
  | stopRecv
  | server
  deriving DecidableEq

namespace ErrorType

def all : List ErrorType := [.connect,.send,.recv,.stopRecv,.server]

def key : ErrorType → Int
  | .connect => 1
  | .send => 2
  | .recv => 3
  | .stopRecv => 4
  | .server => 5

def line (length : Nat) : ErrorType → String
  | .connect => s!"1) Connect Error ({length} error(s))\n"
  | .send => s!"2) Send Error ({length} error(s))\n"
  | .recv => s!"3) Receive Error ({length} error(s))\n"
  | .stopRecv => s!"4) Stop Receive Reason ({length} reason(s))\n"
  | .server => s!"5) Server Error ({length} error(s))\n"

def shows (text : String) : ErrorType → String
  | .connect => s!"Connect error: {text}\n"
  | .send => s!"Send error: {text}\n"
  | .recv => s!"Receive error: {text}\n"
  | .stopRecv => s!"Stopped receive reasons: {text}\n"
  | .server => s!"Server error: {text}\n"

end ErrorType

/-- An error as `%v` prints it. -/
def errText : Option String → String
  | some err => err
  | none => "<nil>"

/-- `failureText` is what the errors of `encoding/json` say. -/
def RecvError.text (failureText : Failure → String) : RecvError → String
  | .uuid err => s!"error receiving UUID: {err}"
  | .receive err => err
  | .decode failure msgStr => s!"{failureText failure} (msg: {msgStr})"

/-- `Error`. It names `connect` whatever has been expected. -/
def UnexpectedMsgError.text (err : UnexpectedMsgError) : String :=
  let action := match err.msg.action with
    | some action => action.str
    | none => ""
  s!"expected \"connect\", got \"{action}\""

section Menu

variable (failureText : Failure → String)

def Errors.texts (e : Errors) : ErrorType → List String
  | .connect => e.connectErrs.map errText
  | .send => e.sendErrs.map errText
  | .recv => e.recvErrs.map (RecvError.text failureText)
  | .stopRecv => e.stopRecvReasons.map UnexpectedMsgError.text
  | .server => e.serverErrs

def Errors.drop (e : Errors) : ErrorType → Errors
  | .connect => { e with connectErrs := e.connectErrs.drop 1 }
  | .send => { e with sendErrs := e.sendErrs.drop 1 }
  | .recv => { e with recvErrs := e.recvErrs.drop 1 }
  | .stopRecv => { e with stopRecvReasons := e.stopRecvReasons.drop 1 }
  | .server => { e with serverErrs := e.serverErrs.drop 1 }

def Errors.choices (e : Errors) : List ErrorType :=
  ErrorType.all.filter fun type => e.texts failureText type ≠ []

def Errors.total (e : Errors) : Nat :=
  (ErrorType.all.map fun type => (e.texts failureText type).length).sum

def pick (choices : List ErrorType) (s : String) : Option Int := do
  let i ← atoi s
  if choices.any (·.key = i) || i = 0 then some i else none

theorem drop_texts (e : Errors) (type other : ErrorType) :
    (e.drop type).texts failureText other =
      if other = type then (e.texts failureText other).drop 1 else e.texts failureText other := by
  cases type <;> cases other <;> simp [Errors.drop,Errors.texts]

theorem total_drop (e : Errors) (type : ErrorType) (first : e.texts failureText type = text :: texts) :
    (e.drop type).total failureText < e.total failureText := by
  have less : ((e.drop type).texts failureText type).length <
      (e.texts failureText type).length := by
    rw [drop_texts,if_pos rfl,first]
    simp
  have same (other : ErrorType) (different : other ≠ type) :
      ((e.drop type).texts failureText other).length = (e.texts failureText other).length := by
    rw [drop_texts,if_neg different]
  cases type <;>
    simp only [Errors.total,ErrorType.all,List.map_cons,List.map_nil,List.sum_cons,List.sum_nil] <;>
    have c := same .connect <;> have s := same .send <;> have r := same .recv <;>
    have p := same .stopRecv <;> have v := same .server <;> simp at c s r p v <;> omega

/-- How the program goes on: it returns from `runTest`, it exits at the end of the input, or a
call of what is not in `choices`, or of an empty list, panics. -/
inductive End where
  | returned
  | fatal
  | panicked
  deriving DecidableEq

/-- What is left at the end, with the errors that have been shown (ghost). -/
structure Viewed where
  how : End
  errors : Errors
  console : Console
  shown : List (ErrorType × String)

def errorsLoop (e : Errors) (c : Console) (shown : List (ErrorType × String)) : Viewed :=
  let choices := e.choices failureText
  let c := c.print ("Choose error type to view\n" ::
    choices.map fun type => type.line (e.texts failureText type).length)
  if choices = [] then ⟨.returned,e,c,shown⟩
  else
    let c := c.print ["0) Exit\n"]
    match readlineWith "Choice: " (pick choices) c.stdin c.stdout with
    | .error c => ⟨.fatal,e,c,shown⟩
    | .ok (choice,c) =>
      if choice = 0 then ⟨.returned,e,c,shown⟩
      else
        match choices.find? (·.key = choice) with
        | none => ⟨.panicked,e,c,shown⟩
        | some type =>
          match _first : e.texts failureText type with
          | [] => ⟨.panicked,e,c,shown⟩
          | text :: _ => errorsLoop (e.drop type) (c.print [type.shows text]) (shown ++ [(type,text)])
termination_by e.total failureText
decreasing_by exact total_drop failureText e type _first

/-- The question in front of it; the letters of the answers have one capital each. -/
def errorsMenu (e : Errors) (c : Console) : Viewed :=
  match readline "Go through errors? [Y/n] " c with
  | .error c => ⟨.fatal,e,c,[]⟩
  | .ok (line,c) =>
    let conf := line.map Char.toLower
    if conf ≠ "y" ∧ conf ≠ "yes" then ⟨.returned,e,c,[]⟩ else errorsLoop failureText e c []

def viewErrors (msgsPerConn : Nat) (results : List TestResults) (c : Console) : Viewed :=
  let r := runTest msgsPerConn results
  if r.numConnected ≠ 0 ∧ r.numFailed = 0 then ⟨.returned,r.toErrors,c,[]⟩
  else errorsMenu failureText r.toErrors c

def shownOf (type : ErrorType) (shown : List (ErrorType × String)) : List String :=
  (shown.filter (·.1 = type)).map Prod.snd

/-- What the menu has shown and what it has left are what there was, list by list, and it has
shown what has been chosen. It ends when nothing is left, at a zero, or at the end of the input. -/
structure Accounts (e : Errors) (c : Console) (shown : List (ErrorType × String)) (v : Viewed) :
    Prop where
  calm : v.how ≠ .panicked
  balance : ∀ type, shownOf type v.shown ++ v.errors.texts failureText type =
    shownOf type shown ++ e.texts failureText type
  output : ∃ out more, v.console.stdout = c.stdout ++ out ∧ v.shown = shown ++ more ∧
    (more.map fun s => s.1.shows s.2).Sublist out
  input : ∃ lines more, c.stdin = lines ++ v.console.stdin ∧ v.shown = shown ++ more ∧
    (more.map fun s => some s.1.key).Sublist (lines.map fun line => atoi (trimSpace line))
  fatal : v.how = .fatal → v.console.stdin = []
  returned : v.how = .returned → (∀ type, v.errors.texts failureText type = []) ∨
    ∃ line, atoi (trimSpace line) = some 0 ∧ line :: v.console.stdin <:+ c.stdin

theorem readlineWith_error (prompt : String) (f : String → Option α) (stdin stdout : List String)
    (ended : readlineWith prompt f stdin stdout = .error c) :
    c.stdin = [] ∧ stdout <+: c.stdout := by
  induction stdin generalizing stdout with
  | nil =>
    obtain rfl := Except.error.inj ended
    exact ⟨rfl,List.prefix_append _ _⟩
  | cons line lines ih =>
    rw [readlineWith] at ended
    split at ended
    · contradiction
    · obtain ⟨empty,longer⟩ := ih _ ended
      exact ⟨empty,(List.prefix_append _ _).trans longer⟩

theorem readlineWith_ok (prompt : String) (f : String → Option α) (stdin stdout : List String)
    (read : readlineWith prompt f stdin stdout = .ok (value,c)) :
    stdout <+: c.stdout ∧ ∃ line, f (trimSpace line) = some value ∧ line :: c.stdin <:+ stdin := by
  induction stdin generalizing stdout with
  | nil => contradiction
  | cons line lines ih =>
    rw [readlineWith] at read
    split at read
    · next good =>
      obtain ⟨rfl,rfl⟩ := Prod.mk.inj (Except.ok.inj read)
      exact ⟨List.prefix_append _ _,line,good,List.suffix_rfl⟩
    · obtain ⟨longer,line',good,rest⟩ := ih _ read
      exact ⟨(List.prefix_append _ _).trans longer,line',good,rest.trans (List.suffix_cons _ _)⟩

theorem pick_some (choices : List ErrorType) (picked : pick choices s = some i) :
    atoi s = some i ∧ (i ≠ 0 → ∃ type, choices.find? (·.key = i) = some type) := by
  obtain ⟨j,number,picked⟩ := Option.bind_eq_some_iff.mp picked
  split at picked
  case isFalse => contradiction
  case isTrue known =>
    obtain rfl := Option.some.inj picked
    refine ⟨number,fun nonzero => ?_⟩
    simp only [nonzero,decide_false,Bool.or_false,List.any_eq_true,decide_eq_true_eq] at known
    obtain ⟨type,member,key⟩ := known
    exact Option.isSome_iff_exists.mp (List.find?_isSome.mpr ⟨type,member,by simpa using key⟩)

theorem shownOf_append (type : ErrorType) (shown more : List (ErrorType × String)) :
    shownOf type (shown ++ more) = shownOf type shown ++ shownOf type more := by simp [shownOf]

theorem mem_choices (e : Errors) (type : ErrorType) :
    type ∈ e.choices failureText ↔ e.texts failureText type ≠ [] := by
  have known : type ∈ ErrorType.all := by cases type <;> decide
  simp [Errors.choices,known]

theorem accounts_end {how : End} {e : Errors} {c c' : Console}
    (shown : List (ErrorType × String)) (calm : how ≠ .panicked)
    (longer : c.stdout <+: c'.stdout) (rest : c'.stdin <:+ c.stdin)
    (fatal : how = .fatal → c'.stdin = [])
    (returned : how = .returned → (∀ type, e.texts failureText type = []) ∨
      ∃ line, atoi (trimSpace line) = some 0 ∧ line :: c'.stdin <:+ c.stdin) :
    Accounts failureText e c shown ⟨how,e,c',shown⟩ where
  calm := calm
  balance _ := rfl
  output := by
    obtain ⟨out,printed⟩ := longer
    exact ⟨out,[],printed.symm,(List.append_nil _).symm,List.nil_sublist _⟩
  input := by
    obtain ⟨lines,read⟩ := rest
    exact ⟨lines,[],read.symm,(List.append_nil _).symm,List.nil_sublist _⟩
  fatal := fatal
  returned := returned

theorem accounts_shown {e : Errors} {c c' : Console} {shown : List (ErrorType × String)}
    {type : ErrorType} {v : Viewed} (first : e.texts failureText type = text :: texts)
    (longer : c.stdout <+: c'.stdout) (rest : line :: c'.stdin <:+ c.stdin)
    (chosen : atoi (trimSpace line) = some type.key)
    (later : Accounts failureText (e.drop type) (c'.print [type.shows text]) (shown ++ [(type,text)]) v) :
    Accounts failureText e c shown v where
  calm := later.calm
  balance other := by
    rw [later.balance other,shownOf_append,drop_texts]
    by_cases same : other = type
    · subst same
      simp [first,shownOf]
    · simp [same,shownOf,Ne.symm same]
  output := by
    obtain ⟨printed,eq⟩ := longer
    obtain ⟨out,more,stdout,list,sub⟩ := later.output
    refine ⟨printed ++ type.shows text :: out,(type,text) :: more,?_,?_,?_⟩
    · rw [stdout,Console.print,← eq]
      simp
    · rw [list]
      simp
    · exact (sub.cons_cons _).trans (List.sublist_append_right _ _)
  input := by
    obtain ⟨skipped,read⟩ := rest
    obtain ⟨lines,more,stdin,list,sub⟩ := later.input
    refine ⟨skipped ++ line :: lines,(type,text) :: more,?_,?_,?_⟩
    · have stdin : c'.stdin = lines ++ v.console.stdin := stdin
      rw [← read,stdin]
      simp
    · rw [list]
      simp
    · rw [List.map_append,List.map_cons,List.map_cons,chosen]
      exact (sub.cons_cons _).trans (List.sublist_append_right _ _)
  fatal := later.fatal
  returned how := by
    rcases later.returned how with empty | ⟨line,zero,read⟩
    · exact .inl empty
    · exact .inr ⟨line,zero,read.trans ((List.suffix_cons _ _).trans rest)⟩

theorem loop_accounts (e : Errors) (c : Console) (shown : List (ErrorType × String)) :
    Accounts failureText e c shown (errorsLoop failureText e c shown) := by
  obtain ⟨n,size⟩ : ∃ n, e.total failureText = n := ⟨_,rfl⟩
  induction n using Nat.strong_induction_on generalizing e c shown with
  | _ n ih =>
    rw [errorsLoop]
    dsimp only
    split
    · next none_ =>
      refine accounts_end failureText shown nofun (List.prefix_append _ _) List.suffix_rfl nofun ?_
      refine fun _ => .inl fun type => ?_
      by_contra some_
      have member := (mem_choices failureText e type).mpr some_
      rw [none_] at member
      contradiction
    · split
      · next ended =>
        obtain ⟨empty,longer⟩ := readlineWith_error _ _ _ _ ended
        exact accounts_end failureText shown nofun
          ((List.prefix_append _ _).trans ((List.prefix_append _ _).trans longer))
          (empty ▸ List.nil_suffix) (fun _ => empty) nofun
      · next choice c' read =>
        obtain ⟨longer,line,picked,rest⟩ := readlineWith_ok _ _ _ _ read
        obtain ⟨number,known⟩ := pick_some _ picked
        have longer : c.stdout <+: c'.stdout :=
          (List.prefix_append _ _).trans ((List.prefix_append _ _).trans longer)
        have fewer : c'.stdin <:+ c.stdin := (List.suffix_cons _ _).trans rest
        split
        · next zero =>
          exact accounts_end failureText shown nofun longer fewer nofun
            fun _ => .inr ⟨line,zero ▸ number,rest⟩
        · next nonzero =>
          obtain ⟨type,found⟩ := known nonzero
          have member := (mem_choices failureText e type).mp (List.mem_of_find?_eq_some found)
          rw [found]
          dsimp only
          split
          · next nothing => exact absurd nothing member
          · next text texts first =>
            have less := total_drop failureText e type first
            have key : type.key = choice := by simpa using List.find?_some found
            exact accounts_shown failureText first longer rest (key ▸ number)
              (ih _ (size ▸ less) _ _ _ rfl)

def errorOf (msgsPerConn : Nat) (tres : TestResults) : ErrorType → Option String
  | .connect => if tres.connected then none else some (errText tres.connectErr)
  | .send => if sentSome msgsPerConn tres then some (errText tres.sendErr) else none
  | .recv =>
    if recvdSome msgsPerConn tres then tres.recvErr.map (RecvError.text failureText) else none
  | .stopRecv =>
    if recvdSome msgsPerConn tres ∧ tres.recvErr = none then
      tres.stopRecvReason.map UnexpectedMsgError.text
    else none
  | .server =>
    if recvdSome msgsPerConn tres ∧ tres.recvErr = none ∧ tres.stopRecvReason = none then
      some tres.serverErr
    else none

theorem addRecv_texts (e : Errors) (tres : TestResults) (type : ErrorType)
    (recvd : recvdSome msgsPerConn tres = true) :
    (e.addRecv tres).texts failureText type = e.texts failureText type ++
      if type = .connect ∨ type = .send then []
      else (errorOf failureText msgsPerConn tres type).toList := by
  cases err : tres.recvErr with
  | some err => cases type <;> simp [Errors.addRecv,Errors.texts,errorOf,err,recvd]
  | none =>
    cases reason : tres.stopRecvReason with
    | some reason => cases type <;> simp [Errors.addRecv,Errors.texts,errorOf,err,reason,recvd]
    | none => cases type <;> simp [Errors.addRecv,Errors.texts,errorOf,err,reason,recvd]

theorem collect_texts (msgsPerConn : Nat) (s : Stats) (tres : TestResults) (type : ErrorType) :
    (collect msgsPerConn s tres).toErrors.texts failureText type =
      s.toErrors.texts failureText type ++ (errorOf failureText msgsPerConn tres type).toList := by
  cases connected : tres.connected with
  | false =>
    cases type <;> simp [collect,Errors.texts,errorOf,sentSome,recvdSome,connected]
  | true =>
    by_cases recvd : tres.msgsRecvd = msgsPerConn
    · by_cases sent : tres.msgsSent = msgsPerConn <;> cases type <;>
        simp [collect,Errors.texts,errorOf,sentSome,recvdSome,connected,sent,recvd]
    · have some_ : recvdSome msgsPerConn tres = true := by simp [recvdSome,connected,recvd]
      by_cases sent : tres.msgsSent = msgsPerConn
      · have errors : (collect msgsPerConn s tres).toErrors = s.toErrors.addRecv tres := by
          simp [collect,connected,sent,recvd]
        rw [errors,addRecv_texts failureText _ tres type some_]
        cases type <;> simp [errorOf,sentSome,connected,sent]
      · have errors : (collect msgsPerConn s tres).toErrors =
            ({ s.toErrors with sendErrs := s.sendErrs ++ [tres.sendErr] } : Errors).addRecv tres := by
          simp [collect,connected,sent,recvd]
        rw [errors,addRecv_texts failureText _ tres type some_]
        cases type <;> simp [Errors.texts,errorOf,sentSome,connected,sent]

theorem runTest_texts (msgsPerConn : Nat) (results : List TestResults) (type : ErrorType) :
    (runTest msgsPerConn results).toErrors.texts failureText type =
      results.filterMap fun tres => errorOf failureText msgsPerConn tres type := by
  have fold (s : Stats) : (results.foldl (collect msgsPerConn) s).toErrors.texts failureText type =
      s.toErrors.texts failureText type ++
        results.filterMap fun tres => errorOf failureText msgsPerConn tres type := by
    induction results generalizing s with
    | nil => exact (List.append_nil _).symm
    | cons tres results ih =>
      rw [List.foldl_cons,ih,collect_texts,List.append_assoc]
      cases error : errorOf failureText msgsPerConn tres type <;> simp [error]
  have none_ : (Stats.start msgsPerConn).toErrors.texts failureText type = [] := by cases type <;> rfl
  calc (runTest msgsPerConn results).toErrors.texts failureText type
      = (results.foldl (collect msgsPerConn) (.start msgsPerConn)).toErrors.texts failureText type := rfl
    _ = _ := by rw [fold,none_,List.nil_append]

theorem passes_iff (msgsPerConn : Nat) (tres : TestResults) :
    passes msgsPerConn tres = true ↔ ∀ type, errorOf failureText msgsPerConn tres type = none := by
  constructor
  · intro passed type
    simp only [passes,Bool.and_eq_true,decide_eq_true_eq] at passed
    obtain ⟨⟨connected,sent⟩,recvd⟩ := passed
    cases type <;> simp [errorOf,sentSome,recvdSome,connected,sent,recvd]
  · intro none_
    have connected : tres.connected = true := by simpa [errorOf] using none_ .connect
    have sent : tres.msgsSent = msgsPerConn := by
      simpa [errorOf,sentSome,connected] using none_ .send
    have recvd : tres.msgsRecvd = msgsPerConn := by
      by_contra less
      have some_ : recvdSome msgsPerConn tres = true := by simp [recvdSome,connected,less]
      have recv : tres.recvErr = none := by simpa [errorOf,some_] using none_ .recv
      have reason : tres.stopRecvReason = none := by simpa [errorOf,some_,recv] using none_ .stopRecv
      simpa [errorOf,some_,recv,reason] using none_ .server
    simp [passes,connected,sent,recvd]

/-- Nothing is asked when no worker brings an error. Without a single worker it is. -/
def Quiet (msgsPerConn : Nat) (results : List TestResults) : Prop :=
  results ≠ [] ∧ ∀ tres ∈ results, ∀ type, errorOf failureText msgsPerConn tres type = none

theorem quiet_iff (msgsPerConn : Nat) (results : List TestResults) :
    Quiet failureText msgsPerConn results ↔
      (runTest msgsPerConn results).numConnected ≠ 0 ∧ (runTest msgsPerConn results).numFailed = 0 := by
  obtain ⟨-,passed,connects,-⟩ := fold_counts msgsPerConn (.start msgsPerConn) results
  have failed : (runTest msgsPerConn results).numFailed =
      results.length - results.countP (passes msgsPerConn) := by
    change results.length - (results.foldl (collect msgsPerConn) (.start msgsPerConn)).numPassed = _
    rw [passed]
    exact congrArg _ (Nat.zero_add _)
  have connected : (runTest msgsPerConn results).numConnected =
      results.length - results.countP (!·.connected) := by
    change results.length - (results.foldl (collect msgsPerConn) (.start msgsPerConn)).connectErrs.length = _
    rw [connects]
    exact congrArg _ (Nat.zero_add _)
  have most : results.countP (passes msgsPerConn) ≤ results.length := List.countP_le_length
  have all : (runTest msgsPerConn results).numFailed = 0 ↔ ∀ t ∈ results, passes msgsPerConn t = true := by
    rw [failed,← List.countP_eq_length]
    omega
  rw [all,connected]
  simp only [Quiet,← passes_iff]
  constructor
  · rintro ⟨some_,pass⟩
    have none_ : results.countP (!·.connected) = 0 := by
      rw [connected_iff]
      intro t member
      have pass := pass t member
      simp only [passes,Bool.and_eq_true] at pass
      exact pass.1.1
    refine ⟨?_,pass⟩
    rw [none_]
    exact fun empty => some_ (List.length_eq_zero_iff.mp empty)
  · rintro ⟨some_,pass⟩
    refine ⟨fun empty => some_ ?_,pass⟩
    subst empty
    rfl

theorem console_ne {c c' : Console} (longer : c'.stdout = c.stdout ++ [prompt] ++ out) : c' ≠ c := by
  intro same
  have lengths := congrArg List.length longer
  rw [same] at lengths
  simp at lengths

/-- Whoever failed can be looked at: each list is shown from its front, one error for each line that
chooses it, and what has not been shown is left. -/
theorem errors_shown (msgsPerConn : Nat) (results : List TestResults) (c : Console) :
    let v := viewErrors failureText msgsPerConn results c
    (v.console = c ↔ Quiet failureText msgsPerConn results) ∧ v.how ≠ .panicked ∧
    (∀ type, shownOf type v.shown ++ v.errors.texts failureText type =
      results.filterMap fun tres => errorOf failureText msgsPerConn tres type) ∧
    (∃ out, v.console.stdout = c.stdout ++ out ∧ (v.shown.map fun s => s.1.shows s.2).Sublist out) ∧
    (∃ lines, c.stdin = lines ++ v.console.stdin ∧
      (v.shown.map fun s => some s.1.key).Sublist (lines.map fun line => atoi (trimSpace line))) ∧
    (v.how = .fatal → v.console.stdin = []) ∧
    (v.how = .returned → Quiet failureText msgsPerConn results ∨
      (∀ type, v.errors.texts failureText type = []) ∨
      (∃ line, line :: v.console.stdin = c.stdin ∧
        (trimSpace line).map Char.toLower ≠ "y" ∧ (trimSpace line).map Char.toLower ≠ "yes") ∨
      ∃ line, atoi (trimSpace line) = some 0 ∧ line :: v.console.stdin <:+ c.stdin) := by
  intro v
  have texts := runTest_texts failureText msgsPerConn results
  by_cases quiet_ : Quiet failureText msgsPerConn results
  · have stop : v = ⟨.returned,(runTest msgsPerConn results).toErrors,c,[]⟩ :=
      if_pos ((quiet_iff failureText msgsPerConn results).mp quiet_)
    rw [stop]
    exact ⟨by simp [quiet_],nofun,texts,⟨[],(List.append_nil _).symm,List.nil_sublist _⟩,
      ⟨[],rfl,List.nil_sublist _⟩,nofun,fun _ => .inl quiet_⟩
  · have asked : v = errorsMenu failureText (runTest msgsPerConn results).toErrors c :=
      if_neg fun good => quiet_ ((quiet_iff failureText msgsPerConn results).mpr good)
    obtain ⟨stdin,stdout⟩ := c
    cases stdin with
    | nil =>
      rw [asked]
      refine ⟨?_,nofun,texts,⟨_,rfl,List.nil_sublist _⟩,⟨[],rfl,List.nil_sublist _⟩,fun _ => rfl,nofun⟩
      simp only [quiet_,iff_false]
      exact console_ne (List.append_nil _).symm
    | cons line lines =>
      by_cases declined : (trimSpace line).map Char.toLower ≠ "y" ∧ (trimSpace line).map Char.toLower ≠ "yes"
      · have stop : v = ⟨.returned,(runTest msgsPerConn results).toErrors,
            ⟨lines,stdout ++ ["Go through errors? [Y/n] "]⟩,[]⟩ := asked.trans (if_pos declined)
        rw [stop]
        refine ⟨?_,nofun,texts,⟨_,rfl,List.nil_sublist _⟩,⟨[line],rfl,List.nil_sublist _⟩,nofun,
          fun _ => .inr (.inr (.inl ⟨line,rfl,declined⟩))⟩
        simp only [quiet_,iff_false]
        exact console_ne (List.append_nil _).symm
      · have loop : v = errorsLoop failureText (runTest msgsPerConn results).toErrors
            ⟨lines,stdout ++ ["Go through errors? [Y/n] "]⟩ [] := asked.trans (if_neg declined)
        have accounts := loop_accounts failureText (runTest msgsPerConn results).toErrors
          ⟨lines,stdout ++ ["Go through errors? [Y/n] "]⟩ []
        rw [← loop] at accounts
        obtain ⟨out,more,printed,list,sub⟩ := accounts.output
        obtain ⟨read,more',input,list',sub'⟩ := accounts.input
        obtain rfl : more = v.shown := list.symm
        obtain rfl : more' = v.shown := list'.symm
        refine ⟨?_,accounts.calm,fun type => (accounts.balance type).trans (texts type),?_,?_,
          accounts.fatal,fun how => .inr ?_⟩
        · simp only [quiet_,iff_false]
          exact console_ne printed
        · exact ⟨_,printed.trans (List.append_assoc _ _ _),sub.trans (List.sublist_append_right _ _)⟩
        · exact ⟨line :: read,congrArg (line :: ·) input,sub'.trans (List.sublist_cons_self _ _)⟩
        · rcases accounts.returned how with empty | ⟨choice,zero,rest⟩
          · exact .inl empty
          · exact .inr (.inr ⟨choice,zero,rest.trans (List.suffix_cons _ _)⟩)

end Menu

end Wschat.Load
