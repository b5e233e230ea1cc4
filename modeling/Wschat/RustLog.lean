import Mathlib.Data.List.Nodup
import Wschat.Segment
import Wschat.RustServer

/-! One global log. The texts the server produces form one sequence; each connection handles
a prefix of the part of it between its own connect and its own disconnect. -/
namespace Wschat.Rust

open Segment

def ToServer.kind : ToServer → EntryKind
  | .connect _ _ => .connect
  | .message _ => .chat
  | .disconnect _ => .disconnect

/-- The message is one that the actor `c` sends. -/
def ToServer.Belongs (env : Env) (c : Conn) : ToServer → Prop
  | .connect uuid recip => uuid = env.uuid c ∧ recip = c
  | .message msg => ∃ contents now, msg = .newChat (env.uuid c) contents now
  | .disconnect uuid => uuid = env.uuid c

/-- The entry the server records when it handles the message. -/
def entryOf (env : Env) (now : UInt64) : ToServer → Entry
  | .connect uuid _ => connectEntry env uuid now
  | .message msg => chatEntry env msg
  | .disconnect uuid => disconnectEntry env uuid now

def own (uuid : String) (log : List Entry) : List EntryKind :=
  (log.filter (·.uuid = uuid)).map Entry.kind

/-- What a connection makes the server log, in order, when it has sent `chats` chats. -/
def script (phase : Phase) (chats : Nat) : List EntryKind :=
  match phase with
  | .absent => []
  | .running => .connect :: List.replicate chats .chat
  | .stopped => .connect :: List.replicate chats .chat ++ [.disconnect]

def opens (uuid : String) (e : Entry) : Bool := e.kind = .connect ∧ e.uuid = uuid

def closes (uuid : String) (e : Entry) : Bool := e.kind = .disconnect ∧ e.uuid = uuid

def Open (uuid : String) (log : List Entry) : Prop :=
  .connect ∈ own uuid log ∧ .disconnect ∉ own uuid log

/-- The texts a connection is to handle, in the log so far. -/
def share (uuid : String) (log : List Entry) : List String :=
  (segment (opens uuid) (closes uuid) log).map Entry.text

theorem mem_own : k ∈ own uuid log ↔ ∃ e ∈ log, e.kind = k ∧ e.uuid = uuid := by
  simp only [own,List.mem_map,List.mem_filter,decide_eq_true_eq]
  constructor
  · rintro ⟨e,⟨member,named⟩,kind⟩
    exact ⟨e,member,kind,named⟩
  · rintro ⟨e,member,kind,named⟩
    exact ⟨e,⟨member,named⟩,kind⟩

theorem own_same (e : Entry) (named : e.uuid = uuid) :
    own uuid (log ++ [e]) = own uuid log ++ [e.kind] := by
  simp [own,named]

theorem own_other (e : Entry) (named : e.uuid ≠ uuid) : own uuid (log ++ [e]) = own uuid log := by
  simp [own,named]

theorem own_append (uuid : String) (log more : List Entry) :
    own uuid (log ++ more) = own uuid log ++ own uuid more := by
  simp [own]

theorem entryOf_kind (env : Env) (now : UInt64) (msg : ToServer) :
    (entryOf env now msg).kind = msg.kind := by
  cases msg <;> rfl

theorem entryOf_uuid (env : Env) (now : UInt64) (belongs : msg.Belongs env c) :
    (entryOf env now msg).uuid = env.uuid c := by
  cases msg with
  | connect uuid recip => exact belongs.1
  | message msg => obtain ⟨contents,at_,rfl⟩ := belongs; rfl
  | disconnect uuid => exact belongs

section Script

/-- Only the first thing a connection makes the server log is a connect. -/
theorem connect_first (eq : ks ++ EntryKind.connect :: more = script phase chats) : ks = [] := by
  cases phase with
  | absent => simp [script] at eq
  | running =>
    cases ks with
    | nil => rfl
    | cons k ks =>
      simp only [script,List.cons_append,List.cons.injEq] at eq
      have inside : EntryKind.connect ∈ List.replicate chats EntryKind.chat := by
        rw [← eq.2]; simp
      simp at inside
  | stopped =>
    cases ks with
    | nil => rfl
    | cons k ks =>
      simp only [script,List.cons_append,List.cons.injEq] at eq
      have inside : EntryKind.connect ∈ List.replicate chats EntryKind.chat ++ [.disconnect] := by
        rw [← eq.2]; simp
      simp at inside

theorem opened_first (eq : ks ++ more = script phase chats) (some_ : ks ≠ []) :
    ∃ rest, ks = EntryKind.connect :: rest := by
  cases ks with
  | nil => contradiction
  | cons k ks =>
    cases phase <;> simp [script] at eq
    · exact ⟨ks,by rw [eq.1]⟩
    · exact ⟨ks,by rw [eq.1]⟩

end Script

section Share

variable {uuid : String} {log : List Entry} {e : Entry}

theorem unopened_of_own (none : .connect ∉ own uuid log) : ∀ e ∈ log, opens uuid e = false := by
  intro e member
  by_contra opening
  simp only [opens,Bool.not_eq_false,decide_eq_true_eq] at opening
  exact none (mem_own.mpr ⟨e,member,opening⟩)

theorem share_unopened (none : .connect ∉ own uuid log) : share uuid log = [] := by
  rw [share,segment_unopened _ _ log (unopened_of_own none)]
  rfl

theorem share_opening (none : .connect ∉ own uuid log) (kind : e.kind = .connect)
    (named : e.uuid = uuid) : share uuid (log ++ [e]) = [e.text] := by
  rw [share,segment_opening _ _ log e (unopened_of_own none) (by simp [opens,kind,named])
    (by simp [closes,kind])]
  rfl

theorem share_during (during : Open uuid log) : share uuid (log ++ [e]) = share uuid log ++ [e.text] := by
  obtain ⟨b,member,opening⟩ := mem_own.mp during.1
  rw [share,segment_during _ _ log e ⟨b,member,by simpa [opens] using opening⟩ ?_,List.map_append]
  · rfl
  · intro b member
    by_contra closing
    simp only [closes,Bool.not_eq_false,decide_eq_true_eq] at closing
    exact during.2 (mem_own.mpr ⟨b,member,closing⟩)

/-- The entries before the opening one are nobody's or somebody else's. -/
theorem own_dropWhile (first : own uuid log = .connect :: ks) :
    own uuid (log.dropWhile fun e => !opens uuid e) = own uuid log := by
  have parts : (log.takeWhile fun e => !opens uuid e) ++ (log.dropWhile fun e => !opens uuid e) =
    log := List.takeWhile_append_dropWhile
  have split := (congrArg (own uuid) parts).symm.trans (own_append uuid _ _)
  cases before : own uuid (log.takeWhile fun e => !opens uuid e) with
  | nil => rw [split,before]; rfl
  | cons k more =>
    rw [split,before,List.cons_append,List.cons.injEq] at first
    obtain ⟨e,member,kind,named⟩ := mem_own.mp
      (by rw [before]; simp : k ∈ own uuid (log.takeWhile fun e => !opens uuid e))
    have closed := List.mem_takeWhile_imp member
    simp [opens,kind,named,first.1] at closed

theorem share_after (first : own uuid log = .connect :: ks) (gone : .disconnect ∈ own uuid log) :
    share uuid (log ++ [e]) = share uuid log := by
  rw [← own_dropWhile first] at gone
  obtain ⟨b,member,closing⟩ := mem_own.mp gone
  rw [share,segment_after _ _ log e ⟨b,member,by simpa [closes] using closing⟩,share]

end Share

/-- One connection against the log: what it has made the server log and is about to, and
what it has handled and is about to. -/
structure Sound (env : Env) (log : List Entry) (c : Conn) (conn : ConnState) : Prop where
  belongs : ∀ m ∈ conn.outgoing, m.Belongs env c
  protocol : ∃ chats, own (env.uuid c) log ++ conn.outgoing.map ToServer.kind =
    script conn.phase chats
  delivered : conn.phase ≠ .stopped → conn.handled ++ conn.mailbox = share (env.uuid c) log
  handled : conn.handled <+: share (env.uuid c) log

structure Consistent (env : Env) (s : State) : Prop where
  conns : ∀ c, Sound env s.log c (s.conns c)
  named : ∀ client ∈ s.clients, client.1 = env.uuid client.2
  distinct : (s.clients.map Prod.snd).Nodup
  members : ∀ c, c ∈ s.clients.map Prod.snd ↔ Open (env.uuid c) s.log
  genuine : ∀ e ∈ s.log, ∃ c now msg, ToServer.Belongs env c msg ∧ e = entryOf env now msg

section Conns

variable {env : Env} {log : List Entry} {c : Conn} {conn : ConnState}

theorem Sound.started (valid : Sound env log c conn) (absent : conn.phase = .absent) :
    Sound env log c (conn.started env c) := by
  obtain ⟨belongs,⟨chats,protocol⟩,delivered,handled⟩ := valid
  rw [absent] at protocol
  simp only [script,List.append_eq_nil_iff,List.map_eq_nil_iff] at protocol
  refine ⟨?_,⟨0,?_⟩,fun _ => delivered (by simp [absent]),handled⟩
  · simp [ConnState.started,ConnState.send,protocol.2,ToServer.Belongs]
  · simp [ConnState.started,ConnState.send,protocol.1,protocol.2,script,ToServer.kind]

theorem Sound.stop (valid : Sound env log c conn) (running : conn.phase = .running) :
    Sound env log c (conn.stop env c) := by
  obtain ⟨belongs,⟨chats,protocol⟩,-,handled⟩ := valid
  rw [running] at protocol
  refine ⟨?_,⟨chats,?_⟩,by simp [ConnState.stop,ConnState.send],handled⟩
  · intro m member
    rcases List.mem_append.mp member with earlier | last
    · exact belongs m earlier
    · obtain rfl := List.mem_singleton.mp last
      rfl
  · have ends : script .stopped chats = script .running chats ++ [.disconnect] := rfl
    simp only [ConnState.stop,ConnState.send,List.map_append,← List.append_assoc,protocol,ends]
    rfl

theorem Sound.write (valid : Sound env log c conn) (out : Written) :
    Sound env log c (conn.write out) :=
  ⟨valid.belongs,valid.protocol,valid.delivered,valid.handled⟩

theorem Sound.chat (valid : Sound env log c conn) (running : conn.phase = .running)
    (contents : String) (now : UInt64) :
    Sound env log c (conn.send (.message (.newChat (env.uuid c) contents now))) := by
  obtain ⟨belongs,⟨chats,protocol⟩,delivered,handled⟩ := valid
  rw [running] at protocol
  refine ⟨?_,⟨chats + 1,?_⟩,delivered,handled⟩
  · intro m member
    rcases List.mem_append.mp member with earlier | last
    · exact belongs m earlier
    · obtain rfl := List.mem_singleton.mp last
      exact ⟨contents,now,rfl⟩
  · have longer : script .running (chats + 1) = script .running chats ++ [.chat] := by
      simp [script,List.replicate_succ']
    simp only [ConnState.send,List.map_append,← List.append_assoc,protocol,running,longer]
    rfl

theorem Sound.handle (valid : Sound env log c conn) (running : conn.phase = .running)
    (frame : Frame) (now : UInt64) : Sound env log c (conn.handle env c frame now) := by
  cases frame with
  | ping msg => exact valid.write _
  | close reason => exact (valid.write _).stop running
  | continuation => exact valid.stop running
  | error => exact valid.stop running
  | text text =>
    simp only [ConnState.handle]
    split
    · exact valid.write _
    · exact valid.chat running _ now
  | _ => exact valid

theorem Sound.handleSerMsg (valid : Sound env log c conn) (running : conn.phase = .running)
    (text : String) (rest : List String) (waiting : conn.mailbox = text :: rest) :
    Sound env log c (conn.handleSerMsg text rest) := by
  obtain ⟨belongs,protocol,delivered,-⟩ := valid
  have all := delivered (by simp [running])
  rw [waiting] at all
  have next : (conn.handled ++ [text]) ++ rest = share (env.uuid c) log := by
    rw [← all,List.append_assoc]
    rfl
  exact ⟨belongs,protocol,fun _ => next,⟨rest,next⟩⟩

end Conns

theorem receive_fields (text : String) (conn : ConnState) :
    (conn.receive text).phase = conn.phase ∧ (conn.receive text).outgoing = conn.outgoing ∧
      (conn.receive text).handled = conn.handled := by
  unfold ConnState.receive
  split <;> simp

theorem broadcast_fold (text : String) (d : Conn) (l : List (String × Conn)) (s : State)
    (distinct : (l.map Prod.snd).Nodup) :
    (l.foldl (fun s client => s.modify client.2 (.receive text)) s).conns d =
      if d ∈ l.map Prod.snd then (s.conns d).receive text else s.conns d := by
  induction l generalizing s with
  | nil => simp
  | cons client l ih =>
    rw [List.map_cons,List.nodup_cons] at distinct
    rw [List.foldl_cons,ih _ distinct.2]
    by_cases here : d = client.2
    · subst d
      simp [distinct.1]
    · simp only [modify_conns,List.map_cons,List.mem_cons,here,false_or,if_false]

theorem broadcast_frame (text : String) (l : List (String × Conn)) (s : State) :
    (l.foldl (fun s client => s.modify client.2 (.receive text)) s).clients = s.clients ∧
      (l.foldl (fun s client => s.modify client.2 (.receive text)) s).log = s.log := by
  induction l generalizing s with
  | nil => simp
  | cons client l ih => simpa using ih (s.modify client.2 (.receive text))

/-- Every client gets the text once. -/
theorem broadcast_conns (s : State) (text : String) (d : Conn)
    (distinct : (s.clients.map Prod.snd).Nodup) : (s.broadcastMsgText text).conns d =
      if d ∈ s.clients.map Prod.snd then (s.conns d).receive text else s.conns d :=
  broadcast_fold text d s.clients s distinct

@[simp] theorem broadcast_clients (s : State) (text : String) :
    (s.broadcastMsgText text).clients = s.clients := (broadcast_frame text s.clients s).1

@[simp] theorem broadcast_log (s : State) (text : String) :
    (s.broadcastMsgText text).log = s.log := (broadcast_frame text s.clients s).2

/-- Handling a message appends its entry and hands its text to the clients, and to the
newcomer of a connect. -/
theorem serve_log (env : Env) (s : State) (now : UInt64) (msg : ToServer) :
    (s.serve env now msg).log = s.log ++ [entryOf env now msg] := by
  cases msg <;> simp [State.serve,State.record,entryOf]

def ToServer.newcomer : ToServer → Option Conn
  | .connect _ recip => some recip
  | _ => none

theorem serve_given (env : Env) (s : State) (now : UInt64) (msg : ToServer) (d : Conn)
    (distinct : (s.clients.map Prod.snd).Nodup)
    (outside : ∀ c, msg.newcomer = some c → c ∉ s.clients.map Prod.snd)
    (given : d ∈ s.clients.map Prod.snd ∨ msg.newcomer = some d) :
    (s.serve env now msg).conns d = (s.conns d).receive (entryOf env now msg).text := by
  have sent (e : Entry) : ((s.record e).broadcastMsgText e.text).conns d =
      if d ∈ s.clients.map Prod.snd then (s.conns d).receive e.text else s.conns d :=
    broadcast_conns (s.record e) e.text d distinct
  cases msg with
  | connect uuid recip =>
    have new := outside recip rfl
    simp only [State.serve,modify_conns]
    by_cases here : d = recip
    · subst d
      rw [if_pos rfl,sent,if_neg new]
      rfl
    · have member : d ∈ s.clients.map Prod.snd := by
        rcases given with member | eq
        · exact member
        · exact absurd (Option.some.inj eq).symm here
      rw [if_neg here,sent]
      exact if_pos member
  | message msg =>
    exact (sent (chatEntry env msg)).trans (if_pos (given.resolve_right (by simp [ToServer.newcomer])))
  | disconnect uuid =>
    exact (sent (disconnectEntry env uuid now)).trans
      (if_pos (given.resolve_right (by simp [ToServer.newcomer])))

theorem serve_other (env : Env) (s : State) (now : UInt64) (msg : ToServer) (d : Conn)
    (distinct : (s.clients.map Prod.snd).Nodup) (outside : d ∉ s.clients.map Prod.snd)
    (old : msg.newcomer ≠ some d) : (s.serve env now msg).conns d = s.conns d := by
  have sent (e : Entry) : ((s.record e).broadcastMsgText e.text).conns d =
      if d ∈ s.clients.map Prod.snd then (s.conns d).receive e.text else s.conns d :=
    broadcast_conns (s.record e) e.text d distinct
  cases msg with
  | connect uuid recip =>
    have here : d ≠ recip := fun same => old (by rw [same]; rfl)
    simp only [State.serve,modify_conns,if_neg here]
    exact (sent _).trans (if_neg outside)
  | message msg => exact (sent (chatEntry env msg)).trans (if_neg outside)
  | disconnect uuid => exact (sent (disconnectEntry env uuid now)).trans (if_neg outside)

section Served

variable {env : Env} {log : List Entry} {c : Conn} {conn : ConnState} {e : Entry}

/-- A client, whether or not it is the one the entry is about, gets the entry's text. -/
theorem Sound.given (belongs : ∀ m ∈ conn.outgoing, m.Belongs env c)
    (protocol : ∃ chats, own (env.uuid c) (log ++ [e]) ++ conn.outgoing.map ToServer.kind =
      script conn.phase chats)
    (delivered : conn.phase ≠ .stopped → conn.handled ++ conn.mailbox = share (env.uuid c) log)
    (handled : conn.handled <+: share (env.uuid c) log)
    (grown : share (env.uuid c) (log ++ [e]) = share (env.uuid c) log ++ [e.text])
    (present : conn.phase ≠ .absent) : Sound env (log ++ [e]) c (conn.receive e.text) := by
  obtain ⟨phase,outgoing,same⟩ := receive_fields e.text conn
  refine ⟨by rw [outgoing]; exact belongs,by rw [phase,outgoing]; exact protocol,?_,?_⟩
  · intro alive
    rw [phase] at alive
    have running : conn.phase = .running := by cases eq : conn.phase <;> simp_all
    have all := delivered alive
    simp only [ConnState.receive,running,if_true,grown,← all,List.append_assoc]
  · rw [same,grown]
    exact handled.trans (List.prefix_append _ _)

/-- The first message on the way takes its place in the log. -/
theorem Sound.take (valid : Sound env log c conn) (msg : ToServer) (rest : List ToServer)
    (next : conn.outgoing = msg :: rest) (now : UInt64) :
    ∃ chats, own (env.uuid c) (log ++ [entryOf env now msg]) ++ rest.map ToServer.kind =
      script conn.phase chats := by
  obtain ⟨belongs,⟨chats,protocol⟩,-,-⟩ := valid
  have mine := belongs msg (by simp [next])
  rw [next] at protocol
  refine ⟨chats,?_⟩
  rw [own_same _ (entryOf_uuid env now mine),entryOf_kind,List.append_assoc]
  exact protocol

/-- A connect on the way is the first thing its connection makes the server log. -/
theorem Sound.unlogged (valid : Sound env log c conn)
    (next : conn.outgoing = msg :: rest) (newcomer : msg.newcomer = some d) :
    own (env.uuid c) log = [] ∧ d = c := by
  obtain ⟨belongs,⟨chats,protocol⟩,-,-⟩ := valid
  have mine := belongs msg (by simp [next])
  cases msg with
  | connect uuid recip =>
    rw [next,List.map_cons] at protocol
    exact ⟨connect_first protocol,(Option.some.inj newcomer).symm.trans mine.2⟩
  | _ => simp [ToServer.newcomer] at newcomer

theorem Sound.present (valid : Sound env log c conn) (logged : own (env.uuid c) log ≠ []) :
    conn.phase ≠ .absent := by
  intro absent
  obtain ⟨chats,protocol⟩ := valid.protocol
  rw [absent] at protocol
  simp [script,logged] at protocol

theorem kind_of_newcomer {msg : ToServer} (newcomer : msg.newcomer = some d) :
    msg.kind = .connect := by
  cases msg <;> simp [ToServer.newcomer,ToServer.kind] at newcomer ⊢

theorem newcomer_of_kind {msg : ToServer} (belongs : msg.Belongs env c) (kind : msg.kind = .connect) :
    msg.newcomer = some c := by
  cases msg with
  | connect uuid recip => rw [ToServer.newcomer,belongs.2]
  | _ => simp [ToServer.kind] at kind

/-- A share ends with the disconnect, and begins with the connect. -/
theorem Sound.share_outside (valid : Sound env log c conn) (outside : ¬Open (env.uuid c) log)
    (foreign : .connect ∉ own (env.uuid c) log → .connect ∉ own (env.uuid c) (log ++ [e])) :
    share (env.uuid c) (log ++ [e]) = share (env.uuid c) log := by
  by_cases opened : .connect ∈ own (env.uuid c) log
  · obtain ⟨chats,protocol⟩ := valid.protocol
    obtain ⟨rest,first⟩ := opened_first protocol (List.ne_nil_of_mem opened)
    have gone : .disconnect ∈ own (env.uuid c) log := by
      by_contra still
      exact outside ⟨opened,still⟩
    exact share_after first gone
  · rw [share_unopened opened,share_unopened (foreign opened)]

end Served

theorem mem_filter_recips (env : Env) (clients : List (String × Conn)) (c d : Conn)
    (named : ∀ client ∈ clients, client.1 = env.uuid client.2) :
    d ∈ (clients.filter fun client => client.1 ≠ env.uuid c).map Prod.snd ↔
      d ∈ clients.map Prod.snd ∧ d ≠ c := by
  simp only [List.mem_map,List.mem_filter,decide_eq_true_eq]
  constructor
  · rintro ⟨client,⟨member,different⟩,rfl⟩
    refine ⟨⟨client,member,rfl⟩,fun same => different ?_⟩
    rw [named client member,same]
  · rintro ⟨⟨client,member,rfl⟩,different⟩
    refine ⟨client,⟨member,fun same => different ?_⟩,rfl⟩
    exact env.distinct ((named client member).symm.trans same)

theorem serve_clients (env : Env) (s : State) (now : UInt64) (msg : ToServer) :
    (s.serve env now msg).clients = match msg with
      | .connect uuid recip => (s.clients.filter fun client => client.1 ≠ uuid) ++ [(uuid,recip)]
      | .message _ => s.clients
      | .disconnect uuid => s.clients.filter fun client => client.1 ≠ uuid := by
  cases msg <;> simp [State.serve,State.record]

section Serving

variable {env : Env} {s : State} {c : Conn} {msg : ToServer} {rest : List ToServer}

theorem serve_named (now : UInt64) (valid : Consistent env s) (mine : msg.Belongs env c) :
    ∀ client ∈ (s.serve env now msg).clients, client.1 = env.uuid client.2 := by
  intro client member
  rw [serve_clients] at member
  cases msg with
  | connect uuid recip =>
    rcases List.mem_append.mp member with earlier | last
    · exact valid.named client (List.mem_filter.mp earlier).1
    · obtain rfl := List.mem_singleton.mp last
      rw [mine.1,mine.2]
  | message msg => exact valid.named client member
  | disconnect uuid => exact valid.named client (List.mem_filter.mp member).1

theorem serve_distinct (now : UInt64) (valid : Consistent env s) (mine : msg.Belongs env c) :
    ((s.serve env now msg).clients.map Prod.snd).Nodup := by
  rw [serve_clients]
  cases msg with
  | connect uuid recip =>
    obtain ⟨rfl,rfl⟩ := mine
    rw [List.map_append,List.nodup_append]
    refine ⟨?_,by simp,?_⟩
    · exact valid.distinct.sublist (List.filter_sublist.map _)
    · intro d member d' last same
      have new : d' = recip := by simpa using last
      exact ((mem_filter_recips env s.clients recip d valid.named).mp member).2 (same.trans new)
  | message msg => exact valid.distinct
  | disconnect uuid => exact valid.distinct.sublist (List.filter_sublist.map _)

/-- Only the log of the sender gets the entry. -/
theorem own_serve (now : UInt64) (mine : msg.Belongs env c) (d : Conn) :
    own (env.uuid d) (s.log ++ [entryOf env now msg]) =
      own (env.uuid d) s.log ++ if d = c then [msg.kind] else [] := by
  have named := entryOf_uuid env now mine
  by_cases here : d = c
  · rw [if_pos here,here,own_same _ named,entryOf_kind]
  · rw [if_neg here,List.append_nil]
    exact own_other _ (by rw [named]; exact fun same => here (env.distinct same).symm)

theorem serve_members (now : UInt64) (valid : Consistent env s) (mine : msg.Belongs env c)
    (next : (s.conns c).outgoing = msg :: rest) (d : Conn) :
    d ∈ (s.serve env now msg).clients.map Prod.snd ↔
      Open (env.uuid d) (s.log ++ [entryOf env now msg]) := by
  rw [serve_clients,Open,own_serve now mine]
  cases msg with
  | connect uuid recip =>
    obtain ⟨rfl,rfl⟩ := mine
    have none := ((valid.conns recip).unlogged next rfl).1
    rw [List.map_append,List.mem_append,mem_filter_recips env s.clients recip d valid.named]
    by_cases here : d = recip
    · simp [here,none,ToServer.kind]
    · simp only [here,if_false,List.append_nil,valid.members d,Open]
      simp [here]
  | message msg =>
    rw [valid.members d]
    by_cases here : d = c
    · subst d; simp [Open,ToServer.kind]
    · simp [here,Open]
  | disconnect uuid =>
    obtain rfl := mine
    rw [mem_filter_recips env s.clients c d valid.named]
    by_cases here : d = c
    · simp [here,ToServer.kind]
    · simp only [here,if_false,List.append_nil,valid.members d,Open]
      exact and_iff_left (fun same => here same)

theorem serve_genuine (now : UInt64) (valid : Consistent env s) (mine : msg.Belongs env c) :
    ∀ e ∈ s.log ++ [entryOf env now msg],
      ∃ c now msg, ToServer.Belongs env c msg ∧ e = entryOf env now msg := by
  intro e member
  rcases List.mem_append.mp member with earlier | last
  · exact valid.genuine e earlier
  · obtain rfl := List.mem_singleton.mp last
    exact ⟨c,now,msg,mine,rfl⟩

/-- The message is out of its outbox and in the log, and not yet with the clients. -/
theorem serve_waiting (now : UInt64) (valid : Consistent env s) (mine : msg.Belongs env c)
    (next : (s.conns c).outgoing = msg :: rest) (d : Conn) {before : State}
    (taken : before = s.modify c fun conn => { conn with outgoing := rest }) :
    (∀ m ∈ (before.conns d).outgoing, m.Belongs env d) ∧
      (∃ chats, own (env.uuid d) (s.log ++ [entryOf env now msg]) ++
        (before.conns d).outgoing.map ToServer.kind = script (before.conns d).phase chats) ∧
      ((before.conns d).phase ≠ .stopped →
        (before.conns d).handled ++ (before.conns d).mailbox = share (env.uuid d) s.log) ∧
      (before.conns d).handled <+: share (env.uuid d) s.log ∧
      (before.conns d).phase = (s.conns d).phase := by
  subst taken
  obtain ⟨belongs,protocol,delivered,handled⟩ := valid.conns d
  by_cases here : d = c
  · subst d
    simp only [modify_conns,if_true]
    exact ⟨fun m member => belongs m (by rw [next]; exact List.mem_cons_of_mem _ member),
      (valid.conns c).take msg rest next now,delivered,handled,trivial⟩
  · simp only [modify_conns,if_neg here,own_serve now mine d,List.append_nil]
    exact ⟨belongs,protocol,delivered,handled,trivial⟩

/-- A connection gets the message just when it is a client or becomes one. -/
theorem serve_sound (now : UInt64) (valid : Consistent env s) (mine : msg.Belongs env c)
    (next : (s.conns c).outgoing = msg :: rest) (d : Conn) {before : State}
    (taken : before = s.modify c fun conn => { conn with outgoing := rest }) :
    Sound env (s.log ++ [entryOf env now msg]) d ((before.serve env now msg).conns d) := by
  obtain ⟨belongs,protocol,delivered,handled,phase⟩ := serve_waiting now valid mine next d taken
  have clients : before.clients = s.clients := by rw [taken,modify_clients]
  have outside (d : Conn) (newcomer : msg.newcomer = some d) : d ∉ before.clients.map Prod.snd := by
    obtain ⟨none,rfl⟩ := (valid.conns c).unlogged next newcomer
    rw [clients,valid.members]
    intro opened
    simpa [none] using opened.1
  have distinct : (before.clients.map Prod.snd).Nodup := clients ▸ valid.distinct
  by_cases given : d ∈ before.clients.map Prod.snd ∨ msg.newcomer = some d
  · rw [serve_given env before now msg d distinct outside given]
    rcases given with member | newcomer
    · have opened := (valid.members d).mp (clients ▸ member)
      refine Sound.given belongs protocol delivered handled (share_during opened) ?_
      rw [phase]
      exact (valid.conns d).present (List.ne_nil_of_mem opened.1)
    · obtain ⟨none,rfl⟩ := (valid.conns c).unlogged next newcomer
      have opened : .connect ∉ own (env.uuid d) s.log := by simp [none]
      have kind := (entryOf_kind env now msg).trans (kind_of_newcomer newcomer)
      refine Sound.given belongs protocol delivered handled ?_ fun absent => ?_
      · rw [share_opening opened kind (entryOf_uuid env now mine),share_unopened opened]
        rfl
      · obtain ⟨chats,eq⟩ := protocol
        rw [absent,own_serve now mine d] at eq
        simp [script] at eq
  · rw [not_or] at given
    rw [serve_other env before now msg d distinct given.1 given.2]
    have same := (valid.conns d).share_outside (e := entryOf env now msg)
      (fun opened => given.1 (clients ▸ (valid.members d).mpr opened)) (fun unopened => ?_)
    · exact ⟨belongs,protocol,by rw [same]; exact delivered,by rw [same]; exact handled⟩
    · rw [own_serve now mine d]
      by_cases here : d = c
      · subst d
        rw [if_pos rfl,List.mem_append,List.mem_singleton,not_or]
        exact ⟨unopened,fun kind => given.2 (newcomer_of_kind mine kind.symm)⟩
      · rwa [if_neg here,List.append_nil]

end Serving

/-- One message of the server keeps the log, the clients and every share consistent. -/
theorem serve_consistent (env : Env) (s : State) (c : Conn) (msg : ToServer) (rest : List ToServer)
    (now : UInt64) (valid : Consistent env s) (next : (s.conns c).outgoing = msg :: rest) :
    Consistent env ((s.modify c fun conn => { conn with outgoing := rest }).serve env now msg) := by
  have mine := (valid.conns c).belongs msg (by simp [next])
  let before := s.modify c fun conn => { conn with outgoing := rest }
  have clients : (before.serve env now msg).clients = (s.serve env now msg).clients := by
    rw [serve_clients,serve_clients,modify_clients]
  have log : (before.serve env now msg).log = s.log ++ [entryOf env now msg] := by
    rw [serve_log,modify_log]
  refine ⟨fun d => ?_,?_,?_,fun d => ?_,?_⟩
  · rw [log]
    exact serve_sound now valid mine next d rfl
  · rw [clients]
    exact serve_named now valid mine
  · rw [clients]
    exact serve_distinct now valid mine
  · rw [clients,log]
    exact serve_members now valid mine next d
  · rw [log]
    exact serve_genuine now valid mine

theorem modify_consistent (env : Env) (s : State) (c : Conn) (f : ConnState → ConnState)
    (valid : Consistent env s) (sound : Sound env s.log c (f (s.conns c))) :
    Consistent env (s.modify c f) := by
  refine ⟨fun d => ?_,valid.named,valid.distinct,valid.members,valid.genuine⟩
  by_cases here : d = c
  · subst d; simpa using sound
  · simpa [here] using valid.conns d

theorem start_consistent (env : Env) : Consistent env start := by
  refine ⟨fun c => ⟨by simp [start,ConnState.absent],⟨0,rfl⟩,fun _ => rfl,List.nil_prefix⟩,
    by simp [start],by simp [start],fun c => ?_,by simp [start]⟩
  simp [start,Open,own]

theorem step_consistent (env : Env) (s next : State) (e : Event) (valid : Consistent env s)
    (stepped : step env s e = some next) : Consistent env next := by
  cases e with
  | start c =>
    simp only [step,Option.ite_none_right_eq_some,Option.some.injEq] at stepped
    obtain ⟨absent,rfl⟩ := stepped
    exact modify_consistent env s c _ valid ((valid.conns c).started absent)
  | frame c frame now =>
    simp only [step,Option.ite_none_right_eq_some,Option.some.injEq] at stepped
    obtain ⟨running,rfl⟩ := stepped
    exact modify_consistent env s c _ valid ((valid.conns c).handle running frame now)
  | serMsg c =>
    simp only [step] at stepped
    split at stepped
    case h_1 => contradiction
    case h_2 text rest waiting =>
      simp only [Option.ite_none_right_eq_some,Option.some.injEq] at stepped
      obtain ⟨running,rfl⟩ := stepped
      exact modify_consistent env s c _ valid ((valid.conns c).handleSerMsg running text rest waiting)
  | finished c =>
    simp only [step,Option.ite_none_right_eq_some,Option.some.injEq] at stepped
    obtain ⟨running,rfl⟩ := stepped
    exact modify_consistent env s c _ valid ((valid.conns c).stop running)
  | serve c now =>
    simp only [step] at stepped
    split at stepped
    case h_1 => contradiction
    case h_2 msg rest waiting =>
      obtain rfl := Option.some.inj stepped
      exact serve_consistent env s c msg rest now valid waiting

theorem consistent (env : Env) (reached : (machine env).Reaches es s) : Consistent env s :=
  (machine env).invariant (Consistent env) (start_consistent env)
    (fun s e next valid stepped => step_consistent env s next e valid stepped) reached

/-- What a connection has made the server log is a beginning of its script. -/
theorem beginning_of_script (eq : ks ++ more = script phase chats) : ∃ n, ks = [] ∨
    ks = EntryKind.connect :: List.replicate n .chat ∨
    ks = EntryKind.connect :: List.replicate n .chat ++ [.disconnect] := by
  have chatsOnly (n : Nat) (ks : List EntryKind)
      (front : ks <+: EntryKind.connect :: List.replicate n .chat) : ks = [] ∨
        ∃ m, ks = EntryKind.connect :: List.replicate m .chat := by
    cases ks with
    | nil => exact .inl rfl
    | cons k ks =>
      rw [List.cons_prefix_cons] at front
      obtain ⟨rfl,front⟩ := front
      have all : ks = List.replicate ks.length EntryKind.chat :=
        List.eq_replicate_of_mem fun k member => List.eq_of_mem_replicate (front.subset member)
      exact .inr ⟨ks.length,by rw [← all]⟩
  have front : ks <+: script phase chats := ⟨more,eq⟩
  cases phase with
  | absent => exact ⟨0,.inl (List.prefix_nil.mp front)⟩
  | running =>
    rcases chatsOnly chats ks front with none | ⟨m,eq⟩
    · exact ⟨0,.inl none⟩
    · exact ⟨m,.inr (.inl eq)⟩
  | stopped =>
    rcases List.prefix_concat_iff.mp front with whole | front
    · exact ⟨chats,.inr (.inr whole)⟩
    · rcases chatsOnly chats ks front with none | ⟨m,eq⟩
      · exact ⟨0,.inl none⟩
      · exact ⟨m,.inr (.inl eq)⟩

/-- The server's texts form one log, and everybody's view is a part of it. -/
structure OneLog (env : Env) (s : State) : Prop where
  /-- Each entry is the text of a message that one connection has sent. -/
  entries : ∀ e ∈ s.log, ∃ c now msg, ToServer.Belongs env c msg ∧ e = entryOf env now msg
  /-- One connect, then chats, then at most one disconnect. -/
  lifecycle : ∀ uuid, ∃ n, own uuid s.log = [] ∨
    own uuid s.log = EntryKind.connect :: List.replicate n .chat ∨
    own uuid s.log = EntryKind.connect :: List.replicate n .chat ++ [.disconnect]
  /-- From its own connect on, up to its own disconnect, each connection handles the log. -/
  shares : ∀ c, segment (opens (env.uuid c)) (closes (env.uuid c)) s.log <:+: s.log ∧
    (s.conns c).handled <+:
      (segment (opens (env.uuid c)) (closes (env.uuid c)) s.log).map Entry.text
  clients : ∀ uuid, uuid ∈ s.clients.map Prod.fst ↔
    .connect ∈ own uuid s.log ∧ .disconnect ∉ own uuid s.log

theorem one_log (env : Env) (reached : (machine env).Reaches es s) : OneLog env s := by
  have valid := consistent env reached
  have foreign (uuid : String) (nobody : ∀ c, env.uuid c ≠ uuid) : own uuid s.log = [] := by
    by_contra some_
    obtain ⟨k,member⟩ := List.exists_mem_of_ne_nil _ some_
    obtain ⟨e,inside,-,named⟩ := mem_own.mp member
    obtain ⟨c,now,msg,belongs,rfl⟩ := valid.genuine e inside
    exact nobody c ((entryOf_uuid env now belongs).symm.trans named)
  refine ⟨valid.genuine,fun uuid => ?_,fun c => ⟨segment_isInfix _ _ _,(valid.conns c).handled⟩,
    fun uuid => ?_⟩
  · by_cases known : ∃ c, env.uuid c = uuid
    · obtain ⟨c,rfl⟩ := known
      obtain ⟨chats,protocol⟩ := (valid.conns c).protocol
      exact beginning_of_script protocol
    · exact ⟨0,.inl (foreign uuid fun c same => known ⟨c,same⟩)⟩
  · by_cases known : ∃ c, env.uuid c = uuid
    · obtain ⟨c,rfl⟩ := known
      refine Iff.trans ?_ (valid.members c)
      simp only [List.mem_map]
      constructor
      · rintro ⟨client,member,same⟩
        exact ⟨client,member,env.distinct ((valid.named client member).symm.trans same)⟩
      · rintro ⟨client,member,rfl⟩
        exact ⟨client,member,valid.named client member⟩
    · rw [foreign uuid fun c same => known ⟨c,same⟩]
      simp only [List.mem_map]
      constructor
      · rintro ⟨client,member,rfl⟩
        exact absurd ⟨_,(valid.named client member).symm⟩ known
      · rintro ⟨impossible,-⟩
        simp at impossible

/-- Two connections, one chat, and the first connection's leave. -/
def visit : List Event :=
  [.start 0,.serve 0 1,.start 1,.serve 1 2,.serMsg 0,.serMsg 0,
    .frame 0 (.text "\x7b\"sender\":\"\",\"contents\":\"hi\"\x7d") 3,.serve 0 4,.serMsg 1,
    .frame 0 (.close none) 5,.serve 0 6,.serMsg 1,.serMsg 1]

theorem visit_runs : ((machine .numbered).run visit start).any (fun s =>
    decide (s.log.map Entry.kind = [.connect,.connect,.chat,.disconnect]) &&
      decide ((s.conns 0).handled.length = 2) && decide ((s.conns 1).handled.length = 3)) = true := by
  decide +kernel

theorem visit_one_log : ∃ s, (machine .numbered).Reaches visit s ∧ OneLog .numbered s ∧
    s.log.map Entry.kind = [.connect,.connect,.chat,.disconnect] := by
  obtain ⟨s,ran,checked⟩ := (Option.any_eq_true _ _).mp visit_runs
  simp only [Bool.and_eq_true,decide_eq_true_eq] at checked
  exact ⟨s,ran,one_log .numbered ran,checked.1.1⟩

end Wschat.Rust
