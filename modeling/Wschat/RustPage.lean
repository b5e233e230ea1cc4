import Wschat.RustTester
import Wschat.WebSession

/-! The page on the Rust server. The server misspells the action of its disconnects, which the
page takes for an error: whoever leaves takes the others with him. -/
namespace Wschat

open Web

namespace Rust

/-- The message that the server produces for one on the way to it. -/
def ToServer.said (now : UInt64) : ToServer → Message
  | .connect uuid _ => .newSystem .connect uuid now
  | .message msg => msg
  | .disconnect uuid => .newSystem .disconnect uuid now

theorem entryOf_text (env : Env) (now : UInt64) (msg : ToServer) :
    (entryOf env now msg).text = toString env.lib (msg.said now) := by
  cases msg <;> rfl

def EntryKind.action : EntryKind → Action
  | .connect => .connect
  | .chat => .chat
  | .disconnect => .disconnect

/-- What an entry tells. -/
structure Tells (env : Env) (e : Entry) (msg : Message) : Prop where
  text : e.text = toString env.lib msg
  action : msg.action = e.kind.action
  sender : e.kind = .chat → msg.sender = e.uuid
  contents : e.kind ≠ .chat → msg.contents = e.uuid

theorem tells (env : Env) (now : UInt64) (belongs : ToServer.Belongs env d msg) :
    Tells env (entryOf env now msg) (msg.said now) := by
  cases msg with
  | connect | disconnect =>
    constructor <;>
      simp [entryOf,connectEntry,disconnectEntry,ToServer.said,Message.newSystem,EntryKind.action]
  | message msg =>
    obtain ⟨contents,at_,rfl⟩ := belongs
    constructor <;> simp [entryOf,chatEntry,ToServer.said,Message.newChat,EntryKind.action]

theorem all_tell (env : Env) (log : List Entry)
    (genuine : ∀ e ∈ log, ∃ d now msg, ToServer.Belongs env d msg ∧ e = entryOf env now msg) :
    ∃ msgs, List.Forall₂ (Tells env) log msgs := by
  refine exists_forall₂ fun e member => ?_
  obtain ⟨d,now,msg,belongs,rfl⟩ := genuine e member
  exact ⟨_,tells env now belongs⟩

/-- On the Rust server any disconnect ends the page's connection. -/
theorem stays_iff (env : Env) (tell : List.Forall₂ (Tells env) log msgs) (uuid : JsValue) :
    Stays .rust uuid msgs ↔ ∀ e ∈ log, e.kind ≠ .disconnect := by
  induction tell generalizing uuid with
  | nil => simp [Stays]
  | @cons e msg log msgs tells _ ih =>
    have drops : Drops .rust uuid msg ↔ e.kind = .disconnect := by
      have action := tells.action
      cases kind : e.kind <;> simp [Drops,Server.Misspelt,action,kind,EntryKind.action]
    rw [Stays,ih,drops,List.forall_mem_cons]

theorem first_uuid (tell : List.Forall₂ (Tells env) (e :: rest) msgs)
    (opening : opens uuid e = true) (named : uuid ≠ "") :
    msgs.foldl (nextUuid .rust) (.string "") = .string uuid := by
  cases tell with
  | @cons _ msg _ msgs tells _ =>
    simp only [opens,decide_eq_true_eq] at opening
    obtain ⟨kind,rfl⟩ := opening
    have next : nextUuid .rust (.string "") msg = .string e.uuid := by
      rw [nextUuid,if_pos ⟨by rw [tells.action,kind]; rfl,rfl⟩,tells.contents (by simp [kind])]
      rfl
    rw [List.foldl_cons,next]
    exact uuid_kept msgs _ fun same => named (JsValue.string.inj same)

/-- What has been logged for a running connection: all from its own connect on. -/
theorem share_running (valid : Consistent env s) (c : Conn) (running : (s.conns c).phase = .running) :
    share (env.uuid c) s.log = (s.log.dropWhile fun e => !opens (env.uuid c) e).map Entry.text := by
  obtain ⟨chats,protocol⟩ := (valid.conns c).protocol
  rw [share,Segment.segment_unclosed]
  intro e member
  by_contra closing
  simp only [closes,Bool.not_eq_false,decide_eq_true_eq] at closing
  have gone : EntryKind.disconnect ∈ own (env.uuid c) s.log ++ (s.conns c).outgoing.map ToServer.kind :=
    List.mem_append_left _ (mem_own.mpr ⟨e,member,closing⟩)
  rw [protocol,running] at gone
  simp [script] at gone

/-- The entries of the log that a connection has handled. -/
def seen (env : Env) (s : State) (c : Conn) : List Entry :=
  (s.log.dropWhile fun e => !opens (env.uuid c) e).take (s.conns c).handled.length

theorem seen_handled (valid : Consistent env s) (c : Conn) (running : (s.conns c).phase = .running) :
    (s.conns c).handled = (seen env s c).map Entry.text := by
  have handled := (valid.conns c).handled
  rw [share_running valid c running] at handled
  rw [seen,List.map_take]
  exact List.prefix_iff_eq_take.mp handled

theorem seen_first (some_ : seen env s c = e :: rest) : opens (env.uuid c) e = true := by
  refine List.find?_some (p := opens (env.uuid c)) (l := s.log) ?_
  rw [List.find?_eq_head?_dropWhile_not]
  unfold seen at some_
  cases from_ : s.log.dropWhile fun e => !opens (env.uuid c) e with
  | nil => simp [from_] at some_
  | cons e' rest' =>
    rw [from_] at some_
    cases count : (s.conns c).handled.length with
    | zero => simp [count] at some_
    | succ n =>
      rw [count,List.take_succ_cons,List.cons.injEq] at some_
      rw [some_.1]
      rfl

/-- A page that has connected to the Rust server and processes what the server has sent it keeps
its connection exactly where nobody has left in the meantime; it then knows its own uuid. -/
theorem page_kept_iff (web : Web.Env) (faithful : web.Faithful) (env : Env)
    (printed : ∀ msg, utf16 (toString env.lib msg) = Server.rust.encode msg.chat)
    (es : List Event) (s : State) (c : Conn) (reached : (machine env).Reaches es s)
    (running : (s.conns c).phase = .running) (fine : ∀ e ∈ es, ¬e.Bad env c)
    (named : env.uuid c ≠ "") (k : Nat) (p : Page) (on : p.On k) (fresh : p.uuid = .string "") :
    ((∃ q, (Web.machine web).run ((texts (s.conns c).written).map (.message k)) p = some q ∧
        q.ws = some k) ↔ ∀ e ∈ seen env s c, e.kind ≠ .disconnect) ∧
    ∀ q, (Web.machine web).run ((texts (s.conns c).written).map (.message k)) p = some q →
      q.ws = some k → (s.conns c).handled ≠ [] → q.uuid = .string (env.uuid c) := by
  have valid := consistent env reached
  have inside : ∀ e ∈ seen env s c, e ∈ s.log := fun e member =>
    (List.dropWhile_suffix _).subset (List.mem_of_mem_take member)
  obtain ⟨msgs,tell⟩ := all_tell env (seen env s c) fun e member => valid.genuine e (inside e member)
  have written : texts (s.conns c).written = (seen env s c).map Entry.text := by
    rw [texts_handled reached fine,seen_handled valid c running]
  have sent : List.Forall₂ (fun data msg => utf16 data = Server.rust.encode msg.chat)
      (texts (s.conns c).written) msgs := by
    rw [written,List.forall₂_map_left_iff]
    exact tell.imp fun e msg tells => by rw [tells.text,printed]
  have stays := stays_iff env tell (.string "")
  rw [← stays]
  refine ⟨⟨?_,fun stays => page_stays faithful on sent (fresh ▸ stays)⟩,fun q ran here some_ => ?_⟩
  · rintro ⟨q,ran,here⟩
    exact fresh ▸ (page_kept faithful on sent ran here).1
  · rw [(page_kept faithful on sent ran here).2.1,fresh]
    rw [seen_handled valid c running] at some_
    cases first : seen env s c with
    | nil => simp [first] at some_
    | cons e rest =>
      have opening := seen_first first
      rw [first] at tell
      exact first_uuid tell opening named

/-- Another client comes and leaves. -/
def visited : List Event :=
  [.start 0,.serve 0 1,.serMsg 0,.start 1,.serve 1 2,.serMsg 0,.finished 1,.serve 1 3,.serMsg 0]

theorem visited_runs : ((machine .numbered).run visited start).any (fun s =>
    decide ((s.conns 0).phase = .running ∧
      (seen .numbered s 0).map Entry.kind = [.connect,.connect,.disconnect])) = true := by
  decide +kernel

theorem visited_dropped : ∃ (web : Web.Env) (s : State), (machine .numbered).Reaches visited s ∧
    ¬∃ q, (Web.machine web).run ((texts (s.conns 0).written).map (.message 0)) online = some q ∧
      q.ws = some 0 := by
  obtain ⟨web,faithful,-⟩ := browser
  obtain ⟨s,ran,checked⟩ := (Option.any_eq_true _ _).mp visited_runs
  obtain ⟨running,kinds⟩ := of_decide_eq_true checked
  refine ⟨web,s,ran,?_⟩
  rw [(page_kept_iff web faithful .numbered rust_compact visited s 0 ran running
    (by simp [visited,Event.Bad]) (by decide) 0 online online_on rfl).1]
  intro all
  obtain ⟨e,member,kind⟩ : ∃ e ∈ seen .numbered s 0, e.kind = .disconnect := by
    rw [← List.mem_map,kinds]
    simp
  exact all e member kind

end Rust

end Wschat
