import Mathlib.Data.List.Perm.Basic
import Mathlib.Order.Lattice
import Wschat.LoadReceive

/-! `runTest` of `client/main.go`: the results of the workers are collected in the order in
which they arrive, and the report is computed from them. Averages are left out: they are
floating numbers. -/
namespace Wschat.Load

/-- Durations are in nanoseconds. -/
structure TestResults where
  id : Nat
  uuid : String
  connectDur : Int
  sendDur : Int
  recvDur : Int
  connected : Bool
  msgsSent : Nat
  msgsRecvd : Nat
  connectErr : Option String
  sendErr : Option String
  recvErr : Option RecvError
  stopRecvReason : Option UnexpectedMsgError
  serverErr : String

/-- The variables of `runTest` that are numbers. -/
structure Tally where
  numPassed : Nat
  minPassedConnectDur : Int
  minPassedSendDur : Int
  minPassedRecvDur : Int
  maxPassedConnectDur : Int
  maxPassedSendDur : Int
  maxPassedRecvDur : Int
  maxFailedConnectDur : Int
  maxFailedSendDur : Int
  maxFailedRecvDur : Int
  failedMsgsSentSum : Nat
  failedMsgsRecvdSum : Nat
  minMsgsSent : Nat
  minMsgsRecvd : Nat
  maxMsgsSent : Nat
  maxMsgsRecvd : Nat
  deriving DecidableEq

structure Errors where
  connectErrs : List (Option String)
  recvErrs : List RecvError
  sendErrs : List (Option String)
  stopRecvReasons : List UnexpectedMsgError
  serverErrs : List String

def Errors.recvFailures (e : Errors) : Nat :=
  e.recvErrs.length + e.stopRecvReasons.length + e.serverErrs.length

structure Stats extends Tally, Errors

/-- `time.Hour`. -/
def hour : Int := 3600000000000

def Stats.start (msgsPerConn : Nat) : Stats where
  numPassed := 0
  minPassedConnectDur := hour
  minPassedSendDur := hour
  minPassedRecvDur := hour
  maxPassedConnectDur := 0
  maxPassedSendDur := 0
  maxPassedRecvDur := 0
  maxFailedConnectDur := 0
  maxFailedSendDur := 0
  maxFailedRecvDur := 0
  failedMsgsSentSum := 0
  failedMsgsRecvdSum := 0
  minMsgsSent := msgsPerConn
  minMsgsRecvd := msgsPerConn
  maxMsgsSent := 0
  maxMsgsRecvd := 0
  connectErrs := []
  recvErrs := []
  sendErrs := []
  stopRecvReasons := []
  serverErrs := []

section Collect

variable {α : Type} [LinearOrder α]

/-- `if new > held { held = new }`. -/
def larger (held new : α) : α := if new > held then new else held

/-- `if new < held { held = new }`. -/
def smaller (held new : α) : α := if new < held then new else held

theorem larger_eq_max (held new : α) : larger held new = max held new := by
  unfold larger
  split
  · next above => exact (max_eq_right above.le).symm
  · next below => exact (max_eq_left (not_lt.mp below)).symm

theorem smaller_eq_min (held new : α) : smaller held new = min held new := by
  unfold smaller
  split
  · next below => exact (min_eq_right below.le).symm
  · next above => exact (min_eq_left (not_lt.mp above)).symm

end Collect

/-- The error of a worker that did not receive everything. -/
def Errors.addRecv (e : Errors) (tres : TestResults) : Errors :=
  match tres.recvErr with
  | some err => { e with recvErrs := e.recvErrs ++ [err] }
  | none =>
    match tres.stopRecvReason with
    | some reason => { e with stopRecvReasons := e.stopRecvReasons ++ [reason] }
    | none => { e with serverErrs := e.serverErrs ++ [tres.serverErr] }

/-- One round of the loop over the results. -/
def collect (msgsPerConn : Nat) (s : Stats) (tres : TestResults) : Stats :=
  if !tres.connected then
    { s with
      maxFailedConnectDur := larger s.maxFailedConnectDur tres.connectDur
      connectErrs := s.connectErrs ++ [tres.connectErr] }
  else
    let s := { s with
      minPassedConnectDur := smaller s.minPassedConnectDur tres.connectDur
      maxPassedConnectDur := larger s.maxPassedConnectDur tres.connectDur }
    let s := if tres.msgsSent ≠ msgsPerConn then
      { s with
        failedMsgsSentSum := s.failedMsgsSentSum + tres.msgsSent
        maxMsgsSent := larger s.maxMsgsSent tres.msgsSent
        minMsgsSent := smaller s.minMsgsSent tres.msgsSent
        maxFailedSendDur := larger s.maxFailedSendDur tres.sendDur
        sendErrs := s.sendErrs ++ [tres.sendErr] }
    else
      { s with
        minPassedSendDur := smaller s.minPassedSendDur tres.sendDur
        maxPassedSendDur := larger s.maxPassedSendDur tres.sendDur }
    let s := if tres.msgsRecvd ≠ msgsPerConn then
      { s with
        failedMsgsRecvdSum := s.failedMsgsRecvdSum + tres.msgsRecvd
        maxMsgsRecvd := larger s.maxMsgsRecvd tres.msgsRecvd
        minMsgsRecvd := smaller s.minMsgsRecvd tres.msgsRecvd
        -- Compared with one variable and assigned to the other, as the source has it.
        maxFailedSendDur := if tres.recvDur > s.maxFailedRecvDur then tres.recvDur else s.maxFailedSendDur
        toErrors := s.toErrors.addRecv tres }
    else
      { s with
        minPassedRecvDur := smaller s.minPassedRecvDur tres.recvDur
        maxPassedRecvDur := larger s.maxPassedRecvDur tres.recvDur }
    if tres.msgsSent = msgsPerConn ∧ tres.msgsRecvd = msgsPerConn then
      { s with numPassed := s.numPassed + 1 }
    else s

/-- What the report prints. -/
structure Report extends Tally, Errors where
  numFailed : Nat
  numConnected : Nat
  numPassedSend : Nat
  numFailedRecv : Nat
  numPassedRecv : Nat

/-- The report on `numConns` workers. Without a connection it jumps to the errors, before the
last three numbers are computed. -/
def report (msgsPerConn numConns : Nat) (s : Stats) : Report :=
  let numConnected := numConns - s.connectErrs.length
  { s with
    maxMsgsSent := if s.numPassed ≠ 0 then msgsPerConn else s.maxMsgsSent
    maxMsgsRecvd := if s.numPassed ≠ 0 then msgsPerConn else s.maxMsgsRecvd
    numFailed := numConns - s.numPassed
    numConnected := numConnected
    numPassedSend := if numConnected = 0 then 0 else numConns - s.sendErrs.length
    numFailedRecv := if numConnected = 0 then 0 else s.recvFailures
    numPassedRecv := if numConnected = 0 then 0 else numConns - s.recvFailures }

/-- `runTest` with the results in the order of their arrival. -/
def runTest (msgsPerConn : Nat) (results : List TestResults) : Report :=
  report msgsPerConn results.length (results.foldl (collect msgsPerConn) (.start msgsPerConn))

/-- The counts, minima and maxima of a report. -/
def Report.numbers (r : Report) : Tally × Nat × Nat × Nat × Nat × Nat :=
  (r.toTally,r.numFailed,r.numConnected,r.numPassedSend,r.numFailedRecv,r.numPassedRecv)

section Classes

variable (msgsPerConn : Nat) (tres : TestResults)

def sentAll : Bool := tres.connected && tres.msgsSent = msgsPerConn
def sentSome : Bool := tres.connected && tres.msgsSent ≠ msgsPerConn
def recvdAll : Bool := tres.connected && tres.msgsRecvd = msgsPerConn
def recvdSome : Bool := tres.connected && tres.msgsRecvd ≠ msgsPerConn
def passes : Bool := tres.connected && tres.msgsSent = msgsPerConn && tres.msgsRecvd = msgsPerConn

end Classes

/-- The maximum, and zero where there is nothing. -/
def IsMaximum (durs : List Int) (m : Int) : Prop :=
  (durs = [] ∧ m = 0) ∨ (m ∈ durs ∧ ∀ d ∈ durs, d ≤ m)

/-- The send durations of the connected workers that did not send everything. -/
def failedSends (msgsPerConn : Nat) (results : List TestResults) : List Int :=
  (results.filter (sentSome msgsPerConn)).map (·.sendDur)

def failedRecvs (msgsPerConn : Nat) (results : List TestResults) : List Int :=
  (results.filter (recvdSome msgsPerConn)).map (·.recvDur)

/-- The report has the right numbers, whatever the order of the arrivals. -/
structure Accurate (msgsPerConn : Nat) (results : List TestResults) : Prop where
  numPassed : (runTest msgsPerConn results).numPassed = results.countP (passes msgsPerConn)
  numPassedSend : (runTest msgsPerConn results).numPassedSend = results.countP (sentAll msgsPerConn)
  numPassedRecv : (runTest msgsPerConn results).numPassedRecv = results.countP (recvdAll msgsPerConn)
  maxFailedSendDur : IsMaximum (failedSends msgsPerConn results)
    (runTest msgsPerConn results).maxFailedSendDur
  maxFailedRecvDur : IsMaximum (failedRecvs msgsPerConn results)
    (runTest msgsPerConn results).maxFailedRecvDur
  permuted : ∀ others, others.Perm results →
    (runTest msgsPerConn others).numbers = (runTest msgsPerConn results).numbers

/-- All workers connected or none, no connected one that did not receive everything took any
time for it, and not all failed sends took less than none. -/
structure Plain (msgsPerConn : Nat) (results : List TestResults) : Prop where
  connected : (∀ t ∈ results, t.connected = true) ∨ ∀ t ∈ results, t.connected = false
  recvs : IsMaximum (failedRecvs msgsPerConn results) 0
  sends : failedSends msgsPerConn results = [] ∨ ∃ d ∈ failedSends msgsPerConn results, 0 ≤ d

section Folding

variable {α : Type}

/-- One variable of the loop: of the results in a class, something is accumulated. -/
def accumulate (p : TestResults → Bool) (op : α → α → α) (d : TestResults → α) (held : α)
    (tres : TestResults) : α :=
  if p tres then op held (d tres) else held

theorem accumulate_comm (p : TestResults → Bool) (op : α → α → α) [Std.Commutative op]
    [Std.Associative op] (d : TestResults → α) (held : α) (a b : TestResults) :
    accumulate p op d (accumulate p op d held a) b = accumulate p op d (accumulate p op d held b) a := by
  unfold accumulate
  split <;> split
  · calc op (op held (d a)) (d b)
        = op held (op (d a) (d b)) := Std.Associative.assoc ..
      _ = op held (op (d b) (d a)) := congrArg (op held) (Std.Commutative.comm ..)
      _ = op (op held (d b)) (d a) := (Std.Associative.assoc ..).symm
  · rfl
  · rfl
  · rfl

/-- What a result does to the numbers, each on its own; the receive durations are not seen. -/
def Tally.add (msgsPerConn : Nat) (f : Tally) (tres : TestResults) : Tally where
  numPassed := accumulate (passes msgsPerConn) (· + ·) (fun _ => 1) f.numPassed tres
  minPassedConnectDur := accumulate (·.connected) min (·.connectDur) f.minPassedConnectDur tres
  minPassedSendDur := accumulate (sentAll msgsPerConn) min (·.sendDur) f.minPassedSendDur tres
  minPassedRecvDur := accumulate (recvdAll msgsPerConn) min (·.recvDur) f.minPassedRecvDur tres
  maxPassedConnectDur := accumulate (·.connected) max (·.connectDur) f.maxPassedConnectDur tres
  maxPassedSendDur := accumulate (sentAll msgsPerConn) max (·.sendDur) f.maxPassedSendDur tres
  maxPassedRecvDur := accumulate (recvdAll msgsPerConn) max (·.recvDur) f.maxPassedRecvDur tres
  maxFailedConnectDur := accumulate (!·.connected) max (·.connectDur) f.maxFailedConnectDur tres
  maxFailedSendDur := accumulate (sentSome msgsPerConn) max (·.sendDur) f.maxFailedSendDur tres
  maxFailedRecvDur := f.maxFailedRecvDur
  failedMsgsSentSum := accumulate (sentSome msgsPerConn) (· + ·) (·.msgsSent) f.failedMsgsSentSum tres
  failedMsgsRecvdSum :=
    accumulate (recvdSome msgsPerConn) (· + ·) (·.msgsRecvd) f.failedMsgsRecvdSum tres
  minMsgsSent := accumulate (sentSome msgsPerConn) min (·.msgsSent) f.minMsgsSent tres
  minMsgsRecvd := accumulate (recvdSome msgsPerConn) min (·.msgsRecvd) f.minMsgsRecvd tres
  maxMsgsSent := accumulate (sentSome msgsPerConn) max (·.msgsSent) f.maxMsgsSent tres
  maxMsgsRecvd := accumulate (recvdSome msgsPerConn) max (·.msgsRecvd) f.maxMsgsRecvd tres

theorem Tally.add_comm (msgsPerConn : Nat) (f : Tally) (a b : TestResults) :
    (f.add msgsPerConn a).add msgsPerConn b = (f.add msgsPerConn b).add msgsPerConn a := by
  simp only [Tally.add,accumulate_comm _ _ _ _ a b]

/-- A round, when the comparison of the receive durations does not fire. -/
theorem collect_tally (msgsPerConn : Nat) (s : Stats) (tres : TestResults)
    (plain : recvdSome msgsPerConn tres = true → tres.recvDur ≤ s.maxFailedRecvDur) :
    (collect msgsPerConn s tres).toTally = s.toTally.add msgsPerConn tres := by
  cases connected : tres.connected with
  | false =>
    simp [collect,Tally.add,accumulate,passes,sentAll,sentSome,recvdAll,recvdSome,connected,
      larger_eq_max]
  | true =>
    have late (recvd : tres.msgsRecvd ≠ msgsPerConn) : tres.recvDur ≤ s.maxFailedRecvDur :=
      plain (by simp [recvdSome,connected,recvd])
    by_cases recvd : tres.msgsRecvd = msgsPerConn
    · by_cases sent : tres.msgsSent = msgsPerConn <;>
        simp [collect,Tally.add,accumulate,passes,sentAll,sentSome,recvdAll,recvdSome,connected,sent,
          recvd,larger_eq_max,smaller_eq_min]
    · by_cases sent : tres.msgsSent = msgsPerConn <;>
        simp [collect,Tally.add,accumulate,passes,sentAll,sentSome,recvdAll,recvdSome,connected,sent,
          recvd,larger_eq_max,smaller_eq_min,late recvd]

theorem addRecv_counts (e : Errors) (tres : TestResults) :
    (e.addRecv tres).connectErrs = e.connectErrs ∧ (e.addRecv tres).sendErrs = e.sendErrs ∧
      (e.addRecv tres).recvFailures = e.recvFailures + 1 := by
  unfold Errors.addRecv
  split
  · simp [Errors.recvFailures]
    omega
  · split
    · simp [Errors.recvFailures]
      omega
    · simp [Errors.recvFailures]
      omega

/-- What a round does whatever the durations are. -/
theorem collect_counts (msgsPerConn : Nat) (s : Stats) (tres : TestResults) :
    (collect msgsPerConn s tres).maxFailedRecvDur = s.maxFailedRecvDur ∧
    (collect msgsPerConn s tres).numPassed = s.numPassed + (if passes msgsPerConn tres then 1 else 0) ∧
    (collect msgsPerConn s tres).connectErrs.length =
      s.connectErrs.length + (if !tres.connected then 1 else 0) ∧
    (collect msgsPerConn s tres).sendErrs.length =
      s.sendErrs.length + (if sentSome msgsPerConn tres then 1 else 0) ∧
    (collect msgsPerConn s tres).recvFailures =
      s.recvFailures + (if recvdSome msgsPerConn tres then 1 else 0) := by
  cases connected : tres.connected with
  | false => simp [collect,passes,sentSome,recvdSome,connected,Errors.recvFailures]
  | true =>
    by_cases recvd : tres.msgsRecvd = msgsPerConn
    · by_cases sent : tres.msgsSent = msgsPerConn <;>
        simp [collect,passes,sentSome,recvdSome,connected,sent,recvd,Errors.recvFailures]
    · by_cases sent : tres.msgsSent = msgsPerConn
      · simp [collect,passes,sentSome,recvdSome,connected,sent,recvd,addRecv_counts]
      · simp [collect,passes,sentSome,recvdSome,connected,sent,recvd,addRecv_counts]
        rfl

theorem fold_tally (msgsPerConn : Nat) (s : Stats) (results : List TestResults)
    (plain : ∀ t ∈ results, recvdSome msgsPerConn t = true → t.recvDur ≤ s.maxFailedRecvDur) :
    (results.foldl (collect msgsPerConn) s).toTally =
      results.foldl (Tally.add msgsPerConn) s.toTally := by
  induction results generalizing s with
  | nil => rfl
  | cons t results ih =>
    obtain ⟨here,plain⟩ := List.forall_mem_cons.mp plain
    have same := (collect_counts msgsPerConn s t).1
    rw [List.foldl_cons,List.foldl_cons,← collect_tally msgsPerConn s t here]
    exact ih _ (by rwa [same])

theorem fold_counts (msgsPerConn : Nat) (s : Stats) (results : List TestResults) :
    (results.foldl (collect msgsPerConn) s).maxFailedRecvDur = s.maxFailedRecvDur ∧
    (results.foldl (collect msgsPerConn) s).numPassed =
      s.numPassed + results.countP (passes msgsPerConn) ∧
    (results.foldl (collect msgsPerConn) s).connectErrs.length =
      s.connectErrs.length + results.countP (!·.connected) ∧
    (results.foldl (collect msgsPerConn) s).sendErrs.length =
      s.sendErrs.length + results.countP (sentSome msgsPerConn) ∧
    (results.foldl (collect msgsPerConn) s).recvFailures =
      s.recvFailures + results.countP (recvdSome msgsPerConn) := by
  induction results generalizing s with
  | nil => simp
  | cons t results ih =>
    obtain ⟨dur,passed,connects,sends,recvs⟩ := collect_counts msgsPerConn s t
    obtain ⟨dur',passed',connects',sends',recvs'⟩ := ih (collect msgsPerConn s t)
    simp only [List.foldl_cons,List.countP_cons]
    refine ⟨dur'.trans dur,?_,?_,?_,?_⟩ <;> omega

theorem fold_perm (msgsPerConn : Nat) (f : Tally) {others results : List TestResults}
    (perm : others.Perm results) :
    others.foldl (Tally.add msgsPerConn) f = results.foldl (Tally.add msgsPerConn) f :=
  perm.foldl_eq' (fun a _ b _ f => Tally.add_comm msgsPerConn f a b) f

/-- Every result is without a connection or on one side of `q`. -/
theorem length_classes (q : TestResults → Bool) (results : List TestResults) :
    results.length = results.countP (!·.connected) + results.countP (fun t => t.connected && q t) +
      results.countP (fun t => t.connected && !q t) := by
  induction results with
  | nil => rfl
  | cons t results ih =>
    cases connected : t.connected <;> cases class_ : q t <;> simp [connected,class_] <;> omega

theorem length_sends (msgsPerConn : Nat) (results : List TestResults) :
    results.length = results.countP (!·.connected) + results.countP (sentAll msgsPerConn) +
      results.countP (sentSome msgsPerConn) := by
  have classes := length_classes (fun t => t.msgsSent = msgsPerConn) results
  simp only [← decide_not] at classes
  exact classes

theorem length_recvs (msgsPerConn : Nat) (results : List TestResults) :
    results.length = results.countP (!·.connected) + results.countP (recvdAll msgsPerConn) +
      results.countP (recvdSome msgsPerConn) := by
  have classes := length_classes (fun t => t.msgsRecvd = msgsPerConn) results
  simp only [← decide_not] at classes
  exact classes

/-- The numbers of the report that do not depend on the durations. -/
theorem runTest_counts (msgsPerConn : Nat) (results : List TestResults) :
    (runTest msgsPerConn results).maxFailedRecvDur = 0 ∧
    (runTest msgsPerConn results).numPassed = results.countP (passes msgsPerConn) ∧
    (runTest msgsPerConn results).numPassedSend =
      (if results.length - results.countP (!·.connected) = 0 then 0
        else results.length - results.countP (sentSome msgsPerConn)) ∧
    (runTest msgsPerConn results).numPassedRecv =
      (if results.length - results.countP (!·.connected) = 0 then 0
        else results.length - results.countP (recvdSome msgsPerConn)) := by
  obtain ⟨dur,passed,connects,sends,recvs⟩ := fold_counts msgsPerConn (.start msgsPerConn) results
  have none_ : (Stats.start msgsPerConn).connectErrs.length = 0 ∧
      (Stats.start msgsPerConn).sendErrs.length = 0 ∧ (Stats.start msgsPerConn).recvFailures = 0 ∧
      (Stats.start msgsPerConn).numPassed = 0 := ⟨rfl,rfl,rfl,rfl⟩
  simp only [none_,Nat.zero_add] at passed connects sends recvs
  exact ⟨dur,passed,by rw [← connects,← sends]; rfl,by rw [← connects,← recvs]; rfl⟩

theorem connected_iff (results : List TestResults) :
    results.countP (!·.connected) = 0 ↔ ∀ t ∈ results, t.connected = true := by
  simp [List.countP_eq_zero]

theorem unconnected_iff (results : List TestResults) :
    results.countP (!·.connected) = results.length ↔ ∀ t ∈ results, t.connected = false := by
  simp [List.countP_eq_length]

/-- The two derived counts are right when all workers connected or none. -/
theorem numPassedSend_iff (msgsPerConn : Nat) (results : List TestResults) :
    (runTest msgsPerConn results).numPassedSend = results.countP (sentAll msgsPerConn) ↔
      (∀ t ∈ results, t.connected = true) ∨ ∀ t ∈ results, t.connected = false := by
  have classes := length_sends msgsPerConn results
  rw [(runTest_counts msgsPerConn results).2.2.1,← connected_iff,← unconnected_iff]
  split <;> omega

theorem numPassedRecv_iff (msgsPerConn : Nat) (results : List TestResults) :
    (runTest msgsPerConn results).numPassedRecv = results.countP (recvdAll msgsPerConn) ↔
      (∀ t ∈ results, t.connected = true) ∨ ∀ t ∈ results, t.connected = false := by
  have classes := length_recvs msgsPerConn results
  rw [(runTest_counts msgsPerConn results).2.2.2,← connected_iff,← unconnected_iff]
  split <;> omega

theorem foldl_accumulate (p : TestResults → Bool) (op : α → α → α) (d : TestResults → α) (held : α)
    (results : List TestResults) :
    results.foldl (accumulate p op d) held = ((results.filter p).map d).foldl op held := by
  rw [List.foldl_map,List.foldl_filter]
  rfl

theorem foldl_max (held : Int) (durs : List Int) : held ≤ durs.foldl max held ∧
    (∀ d ∈ durs, d ≤ durs.foldl max held) ∧ (durs.foldl max held = held ∨ durs.foldl max held ∈ durs) := by
  induction durs generalizing held with
  | nil => simp
  | cons d durs ih =>
    obtain ⟨above,all,found⟩ := ih (max held d)
    rw [List.foldl_cons]
    refine ⟨(le_max_left held d).trans above,?_,?_⟩
    · rintro e (_ | ⟨_,inside⟩)
      · exact (le_max_right held d).trans above
      · exact all e inside
    · rcases found with same | inside
      · rcases max_choice held d with left | right
        · exact .inl (same.trans left)
        · exact .inr (by rw [same,right]; exact List.mem_cons_self)
      · exact .inr (List.mem_cons_of_mem d inside)

/-- What starts from zero finds the maximum unless every duration is negative. -/
theorem foldl_isMaximum (durs : List Int) :
    IsMaximum durs (durs.foldl max 0) ↔ durs = [] ∨ ∃ d ∈ durs, 0 ≤ d := by
  obtain ⟨above,all,found⟩ := foldl_max 0 durs
  constructor
  · rintro (⟨none_,-⟩ | ⟨inside,-⟩)
    · exact .inl none_
    · exact .inr ⟨_,inside,above⟩
  · rintro (none_ | ⟨d,inside,positive⟩)
    · exact .inl ⟨none_,by rw [none_]; rfl⟩
    · refine .inr ⟨?_,all⟩
      rcases found with zero | found
      · have := all d inside
        rw [zero] at this ⊢
        rwa [le_antisymm positive this]
      · exact found

/-- While no receive duration fires the comparison, the numbers are those of `Tally.add`. -/
theorem runTest_tally (msgsPerConn : Nat) (results : List TestResults)
    (plain : ∀ d ∈ failedRecvs msgsPerConn results, d ≤ 0) :
    (results.foldl (collect msgsPerConn) (.start msgsPerConn)).toTally =
      results.foldl (Tally.add msgsPerConn) (Stats.start msgsPerConn).toTally := by
  refine fold_tally msgsPerConn _ results fun t inside late => ?_
  exact plain _ (List.mem_map.mpr ⟨t,List.mem_filter.mpr ⟨inside,late⟩,rfl⟩)

theorem runTest_maxFailedSendDur (msgsPerConn : Nat) (results : List TestResults)
    (plain : ∀ d ∈ failedRecvs msgsPerConn results, d ≤ 0) :
    (runTest msgsPerConn results).maxFailedSendDur = (failedSends msgsPerConn results).foldl max 0 := by
  have tally := congrArg Tally.maxFailedSendDur (runTest_tally msgsPerConn results plain)
  let first := (Stats.start msgsPerConn).toTally
  have alone : results.foldl (accumulate (sentSome msgsPerConn) max (·.sendDur))
      first.maxFailedSendDur = (results.foldl (Tally.add msgsPerConn) first).maxFailedSendDur :=
    List.foldl_hom Tally.maxFailedSendDur fun _ _ => rfl
  calc (runTest msgsPerConn results).maxFailedSendDur
      = (results.foldl (Tally.add msgsPerConn) (Stats.start msgsPerConn).toTally).maxFailedSendDur := tally
    _ = results.foldl (accumulate (sentSome msgsPerConn) max (·.sendDur)) 0 := alone.symm
    _ = (failedSends msgsPerConn results).foldl max 0 := foldl_accumulate _ _ _ _ _

theorem report_numbers (msgsPerConn numConns : Nat) (s t : Stats) (tally : s.toTally = t.toTally)
    (connects : s.connectErrs.length = t.connectErrs.length)
    (sends : s.sendErrs.length = t.sendErrs.length) (recvs : s.recvFailures = t.recvFailures) :
    (report msgsPerConn numConns s).numbers = (report msgsPerConn numConns t).numbers := by
  simp only [report,Report.numbers,tally,connects,sends,recvs]

/-- The order of the arrivals does not matter while no receive duration fires. -/
theorem runTest_perm (msgsPerConn : Nat) {others results : List TestResults}
    (perm : others.Perm results) (plain : ∀ d ∈ failedRecvs msgsPerConn results, d ≤ 0) :
    (runTest msgsPerConn others).numbers = (runTest msgsPerConn results).numbers := by
  have plain' : ∀ d ∈ failedRecvs msgsPerConn others, d ≤ 0 := fun d inside =>
    plain d ((((perm.filter _).map _).mem_iff).mp inside)
  obtain ⟨-,-,connects,sends,recvs⟩ := fold_counts msgsPerConn (.start msgsPerConn) others
  obtain ⟨-,-,connects',sends',recvs'⟩ := fold_counts msgsPerConn (.start msgsPerConn) results
  unfold runTest
  rw [perm.length_eq]
  apply report_numbers
  · rw [runTest_tally msgsPerConn others plain',runTest_tally msgsPerConn results plain,
      fold_perm msgsPerConn _ perm]
  · rw [connects,connects',perm.countP_eq]
  · rw [sends,sends',perm.countP_eq]
  · rw [recvs,recvs',perm.countP_eq]

end Folding

/-- The statistics are right and independent of the order exactly when all workers connected
or none, no connected one took any time to not receive everything, and not every failed send
took less than none. -/
theorem statistics_exact_iff (msgsPerConn : Nat) (results : List TestResults) :
    Accurate msgsPerConn results ↔ Plain msgsPerConn results := by
  constructor
  · intro accurate
    have recvs := accurate.maxFailedRecvDur
    rw [(runTest_counts msgsPerConn results).1] at recvs
    have early : ∀ d ∈ failedRecvs msgsPerConn results, d ≤ 0 := by
      rcases recvs with ⟨none_,-⟩ | ⟨-,all⟩
      · simp [none_]
      · exact all
    have sends := accurate.maxFailedSendDur
    rw [runTest_maxFailedSendDur msgsPerConn results early] at sends
    exact ⟨(numPassedSend_iff msgsPerConn results).mp accurate.numPassedSend,recvs,
      (foldl_isMaximum _).mp sends⟩
  · intro plain
    have early : ∀ d ∈ failedRecvs msgsPerConn results, d ≤ 0 := by
      rcases plain.recvs with ⟨none_,-⟩ | ⟨-,all⟩
      · simp [none_]
      · exact all
    refine ⟨(runTest_counts msgsPerConn results).2.1,
      (numPassedSend_iff msgsPerConn results).mpr plain.connected,
      (numPassedRecv_iff msgsPerConn results).mpr plain.connected,?_,?_,
      fun others perm => runTest_perm msgsPerConn perm early⟩
    · rw [runTest_maxFailedSendDur msgsPerConn results early]
      exact (foldl_isMaximum _).mpr plain.sends
    · rw [(runTest_counts msgsPerConn results).1]
      exact plain.recvs

/-- A worker that sent its message and waited for the echo in vain. -/
def unanswered : TestResults where
  id := 1
  uuid := "u"
  connectDur := 1
  sendDur := 1
  recvDur := 60000000000
  connected := true
  msgsSent := 1
  msgsRecvd := 0
  connectErr := none
  sendErr := none
  recvErr := some (.receive "i/o timeout")
  stopRecvReason := none
  serverErr := ""

/-- Its minute of waiting is reported as the longest failed send. -/
theorem unanswered_misreported : (runTest 1 [unanswered]).maxFailedSendDur = 60000000000 ∧
    (runTest 1 [unanswered]).maxFailedRecvDur = 0 := by
  decide

theorem statistics_inexact : ¬∀ (msgsPerConn : Nat) (results : List TestResults),
    Accurate msgsPerConn results := by
  intro all
  have longest := (all 1 [unanswered]).maxFailedRecvDur
  rw [unanswered_misreported.2] at longest
  have durs : failedRecvs 1 [unanswered] = [60000000000] := by decide
  simp [IsMaximum,durs] at longest

end Wschat.Load
